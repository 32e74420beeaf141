/-
# Microfat.Pack.Frames — what a variant is packed as

`frameOf` says what the packer makes of a variant: the bytes of its frame and its
index entry, as a function of the input, the options and the dictionary.  A list
of frames is laid out from an offset by `placeFrames`.

* `readBoundedInput_leads`, `compressVariantIntoWriter_leads`: the steps of a
  variant, whatever the outcomes of the calls;
* `writeVariantPayloadsSequential_leads`: a successful sequential run appended
  the frames and returned their layout;
* `writeVariantPayloadsSequential_fine`: when every plan has a frame and no call
  fails, the sequential run succeeds.
-/
import Microfat.Pack.Stage

namespace Microfat.Pack

open Theory Format Codec Microarch

set_option autoImplicit false

structure Frame where
  bytes : Bytes
  entry : VariantEntry

/-- The bytes of a usable input. -/
def payloadOf (input : Input) : Option Bytes :=
  match input with
  | .regular data => if data ≠ [] ∧ (data.length : Int) ≤ maxPayloadSize then some data else none
  | _ => none

section

variable [CaseTable] (H : Sha256) (registry : Registered) (opts : CompressionOptions) (dictBytes : Bytes)

/-- The frame of a payload, with the entry that describes it at offset 0. -/
def encoded (lvl : Bytes) (c : Impl) (resolvedLevel data : Bytes) : Frame :=
  let bytes := (c.encode data resolvedLevel dictBytes).chunks.flatten
  ⟨bytes, ⟨normalize lvl, 0, Int64.ofNat bytes.length, Int64.ofNat data.length,
    hexEncode (H.sum data), c.name⟩⟩

def frameOf (inputs : Bytes → Input) (lvl path : Bytes) : Option Frame :=
  match payloadOf (inputs (cleanPath path)) with
  | none => none
  | some data =>
    match resolveVariantCompression registry opts lvl (Int64.ofNat data.length) with
    | .error _ => none
    | .ok (c, resolvedLevel) =>
      if (c.encode data resolvedLevel dictBytes).final.isNone then
        some (encoded H dictBytes lvl c resolvedLevel data)
      else none

def framesOf (inputs : Bytes → Input) (plans : List VariantWorkPlan) : Option (List Frame) :=
  plans.mapM fun plan => frameOf H registry opts dictBytes inputs plan.level plan.cleanPath

end

/-- The entries of frames that follow each other from an offset, and where they end. -/
def placeFrames : Int64 → List Frame → List VariantEntry × Int64
  | offset, [] => ([], offset)
  | offset, f :: rest =>
    ({ f.entry with offset := offset } :: (placeFrames (offset + f.entry.compressedSize) rest).1,
      (placeFrames (offset + f.entry.compressedSize) rest).2)

def frameBytes (frames : List Frame) : Bytes := frames.flatMap Frame.bytes

/-! ## Plans -/

variable {plans : List VariantWorkPlan}

section

variable [CaseTable] (registry : Registered) (opts : CompressionOptions)

/-- A plan as `prepareVariantWorkPlans` makes it. -/
structure VariantWorkPlan.Prepared (plan : VariantWorkPlan) : Prop where
  normalized : plan.normalizedLvl = normalize plan.level
  resolved : resolveVariantCompression registry opts plan.level plan.statSize =
    .ok (plan.codecImpl, plan.resolvedLevel)

/-- The plan of a level and the path given for it. -/
structure VariantWorkPlan.For (variant : Bytes × Bytes) (plan : VariantWorkPlan) : Prop where
  level : plan.level = variant.1
  path : plan.cleanPath = Theory.cleanPath variant.2
  prepared : plan.Prepared registry opts

variable {registry : Registered} {opts : CompressionOptions}

theorem VariantWorkPlan.prepared_of_for {variants : List (Bytes × Bytes)}
    (planned : List.Forall₂ (VariantWorkPlan.For registry opts) variants plans) :
    ∀ plan ∈ plans, plan.Prepared registry opts := by
  induction planned with
  | nil => simp
  | cons first _ ih => exact List.forall_mem_cons.mpr ⟨first.prepared, ih⟩

theorem prepareVariantWorkPlan_leads (me : Nat) (lvl path : Bytes) (w : World) :
    Leads (step me) (prepareVariantWorkPlan registry opts lvl path)
      (fun r w' => w' = w ∧ ∀ plan, r = .ok plan → plan.For registry opts (lvl, path)) w := by
  refine leads_look (fun _ => rfl) ?_
  rintro x (err | size) -
  · exact ⟨rfl, by rintro plan ⟨⟩⟩
  · dsimp only
    split
    · exact ⟨rfl, by rintro plan ⟨⟩⟩
    · rename_i resolved
      refine ⟨rfl, fun plan same => ?_⟩
      rw [← Except.ok.inj same]
      refine ⟨rfl, rfl, ?_, resolved⟩
      dsimp only

/-- The plans are those of the variants, in their order. -/
theorem prepareVariantWorkPlans_leads (me : Nat) (variants : List (Bytes × Bytes)) (w : World) :
    Leads (step me) (prepareVariantWorkPlans registry opts variants)
      (fun r w' => w' = w ∧
        ∀ plans, r = .ok plans → List.Forall₂ (VariantWorkPlan.For registry opts) variants plans) w := by
  induction variants with
  | nil => exact ⟨rfl, by rintro plans ⟨⟩; exact .nil⟩
  | cons variant rest ih =>
    refine leads_seq (prepareVariantWorkPlan_leads me variant.1 variant.2 w) ?_
    rintro (err | plan) _ ⟨rfl, planned⟩
    · exact ⟨rfl, by rintro plans ⟨⟩⟩
    refine leads_seq ih ?_
    rintro (err | plans) _ ⟨rfl, others⟩
    · exact ⟨rfl, by rintro plans ⟨⟩⟩
    · refine ⟨rfl, ?_⟩
      rintro _ ⟨⟩
      exact .cons (planned plan rfl) (others plans rfl)

end

/-! ## Reading -/

variable {w : World} {data : Bytes}

/-- The calls that read an input. -/
def Call.ReadsInput : Call → Prop
  | .openFile (.input _) | .fstat (.input _) | .readFull (.input _) _ | .readExtra (.input _) _ => True
  | _ => False

section

variable (me : Nat)

theorem step_readsInput (w : World) {c : Call} (reads : c.ReadsInput) (x : Choice) :
    (step me w c x).1 = w := by
  cases c <;> first | cases reads | rfl

theorem reply_readsInput {w' : World} {c : Call} (reads : c.ReadsInput) (x : Choice)
    (same : w.inputs = w'.inputs) : (step me w c x).2 = (step me w' c x).2 := by
  cases c with
  | openFile target | fstat target | readFull target _ | readExtra target _ =>
    cases target with
    | input path =>
      have target : w.target (.input path) = w'.target (.input path) := congrFun same path
      simp only [step]
      rw [target]
    | staged path => cases reads
  | _ => cases reads

theorem readBoundedInput_uses (path : Bytes) (limit : Int64) :
    (readBoundedInput path limit).Uses Call.ReadsInput := by
  have opened : (openRegular (.input (cleanPath path))).Uses Call.ReadsInput := by
    refine Prog.obeys_call trivial ?_
    rintro (_ | err)
    · refine Prog.obeys_call trivial ?_
      rintro (err | stat)
      · exact trivial
      · dsimp only
        split <;> exact trivial
    · exact trivial
  refine Prog.uses_bind ?_ ?_
  · rw [openBoundedReaderAt]
    split
    · exact trivial
    · refine Prog.uses_bind (Prog.uses_bind opened ?_) ?_
      · rintro (_ | err)
        · exact trivial
        · dsimp only
          split <;> exact trivial
      · rintro (_ | err)
        · refine Prog.obeys_call trivial ?_
          rintro (err | stat)
          · exact trivial
          · dsimp only
            split
            · exact trivial
            · split <;> exact trivial
        · exact trivial
  · rintro (err | size)
    · exact trivial
    · refine Prog.obeys_call trivial ?_
      rintro (err | data)
      · dsimp only
        split <;> exact trivial
      · refine Prog.obeys_call trivial ?_
        rintro (err | extra)
        · dsimp only
          split <;> exact trivial
        · dsimp only
          split
          · split
            · exact trivial
            · refine Prog.obeys_call trivial ?_
              rintro (err | stat)
              · exact trivial
              · dsimp only
                split <;> exact trivial
          · exact trivial

theorem answer_ok {α : Type} {x : Choice} {reply : Except Err α} {a : α} (ok : answer x reply = .ok a) :
    reply = .ok a := by
  rw [answer] at ok
  split at ok
  · cases ok
  · exact ok

theorem Input.stat_usable {input : Input} {stat : Stat} (ok : input.stat = .ok stat)
    (usable : ¬ (!stat.regular || stat.size.toInt ≤ 0) = true) :
    ∃ data, input = .regular data ∧ stat.size = Int64.ofNat data.length ∧ 0 < stat.size.toInt := by
  cases input with
  | missing err => cases ok
  | irregular size =>
    cases ok
    simp at usable
  | regular data =>
    cases ok
    simp only [Bool.not_true, Bool.false_or, decide_eq_true_eq, Int.not_le] at usable
    exact ⟨data, rfl, rfl, usable⟩

theorem openRegular_leads (target : Target) (w : World) :
    Leads (step me) (openRegular target) (fun r w' => w' = w ∧ (r = none →
      ∃ data, w.target target = .regular data ∧ data ≠ [])) w := by
  refine leads_look (fun _ => rfl) ?_
  rintro x (_ | err) -
  rotate_left
  · exact ⟨rfl, by simp⟩
  refine leads_look (fun _ => rfl) ?_
  rintro y (err | stat) reply
  · exact ⟨rfl, by simp⟩
  dsimp only
  split
  · exact ⟨rfl, by simp⟩
  · rename_i usable
    obtain ⟨data, found, size, positive⟩ := Input.stat_usable (answer_ok reply) usable
    refine ⟨rfl, fun _ => ⟨data, found, ?_⟩⟩
    rintro rfl
    rw [size] at positive
    exact absurd positive (by decide)

theorem openBoundedReaderAt_leads (path : Bytes) (limit : Int64) (w : World) :
    Leads (step me) (openBoundedReaderAt path limit) (fun r w' => w' = w ∧ ∀ size, r = .ok size →
      ∃ data, w.inputs (cleanPath path) = .regular data ∧ size = Int64.ofNat data.length ∧
        0 < size.toInt ∧ size.toInt ≤ limit.toInt) w := by
  rw [openBoundedReaderAt]
  split
  · exact ⟨rfl, by simp⟩
  have opened : Leads (step me) (openInput path) (fun _ w' => w' = w) w := by
    refine leads_seq (openRegular_leads me _ w) ?_
    rintro (_ | err) w' ⟨rfl, -⟩
    · exact rfl
    · dsimp only
      split <;> exact rfl
  refine leads_seq opened ?_
  rintro (_ | err) w' rfl
  rotate_left
  · exact ⟨rfl, by simp⟩
  refine leads_look (fun _ => rfl) ?_
  rintro y (err | stat) reply
  · exact ⟨rfl, by simp⟩
  dsimp only
  split
  · exact ⟨rfl, by simp⟩
  · rename_i usable
    obtain ⟨data, found, size, positive⟩ := Input.stat_usable (answer_ok reply) usable
    split
    · exact ⟨rfl, by simp⟩
    · refine ⟨rfl, ?_⟩
      rintro _ ⟨⟩
      exact ⟨data, found, size, positive, by omega⟩

/-- A file of a known size is read whole, or the read fails. -/
theorem readBoundedFromFile_leads {target : Target} {size : Int64} (limit : Int64)
    (found : w.target target = .regular data) (positive : 0 < size.toInt) :
    Leads (step me) (readBoundedFromFile target size limit)
      (fun r w' => w' = w ∧ ∀ d, r = .ok d → d = data ∧ size.toInt = data.length) w := by
  refine leads_look (fun _ => rfl) ?_
  rintro x (err | d) reply
  · dsimp only
    split <;> exact ⟨rfl, by simp⟩
  have read : d = data.take size.toInt.toNat ∧ size.toInt ≤ data.length := by
    have ok := answer_ok reply
    rw [found, Input.content] at ok
    split at ok
    · rename_i fits
      cases ok
      exact ⟨rfl, fits⟩
    · split at ok <;> cases ok
  refine leads_look (fun _ => rfl) ?_
  rintro y (err | extra) reply
  · have failure : Err.is err .ioEOF = false := by
      simp only [step] at reply
      split at reply
      · split at reply
        · cases reply
        · rename_i other
          cases reply
          exact Bool.eq_false_iff.mpr other
      · cases reply
    dsimp only
    rw [failure]
    exact ⟨rfl, by simp⟩
  have rest : extra = (data.drop size.toInt.toNat).take 1 := by
    simp only [step, found, Input.content] at reply
    split at reply
    · split at reply
      · exact (Except.ok.inj reply).symm
      · cases reply
    · exact (Except.ok.inj reply).symm
  dsimp only
  split
  · split
    · exact ⟨rfl, by simp⟩
    · refine leads_look (fun _ => rfl) ?_
      rintro z (err | stat) -
      · exact ⟨rfl, by simp⟩
      · dsimp only
        split <;> exact ⟨rfl, by simp⟩
  · rename_i none
    refine ⟨rfl, ?_⟩
    rintro d' ⟨⟩
    have length : data.length ≤ size.toInt.toNat := by
      have := congrArg List.length rest
      simp only [List.length_take, List.length_drop] at this
      omega
    rw [read.1, List.take_of_length_le length]
    exact ⟨rfl, by omega⟩

/-- **A read input is the usable payload behind the path.** -/
theorem readBoundedInput_leads (path : Bytes) (w : World) :
    Leads (step me) (readBoundedInput path payloadLimit) (fun r w' => w' = w ∧ ∀ data, r = .ok data →
      payloadOf (w.inputs (cleanPath path)) = some data) w := by
  refine leads_seq (openBoundedReaderAt_leads me path payloadLimit w) ?_
  rintro (err | size) w' ⟨rfl, opened⟩
  · exact ⟨rfl, by simp⟩
  · obtain ⟨data, found, rfl, positive, small⟩ := opened size rfl
    refine leads_mono (readBoundedFromFile_leads me payloadLimit found positive) ?_
    rintro r w'' ⟨rfl, read⟩
    refine ⟨rfl, fun d ok => ?_⟩
    obtain ⟨rfl, length⟩ := read d ok
    have limit : payloadLimit.toInt = maxPayloadSize := by decide
    have nonempty : d ≠ [] := by
      rintro rfl
      exact absurd positive (by decide)
    rw [found, payloadOf, if_pos ⟨nonempty, by omega⟩]

end

/-! ### With no failure -/

variable {path : Bytes}

/-- No call fails. -/
abbrev fineStep (me : Nat) (w : World) (c : Call) (_ : Unit) : World × c.Reply := step me w c .fine

theorem payloadOf_some {input : Input} (usable : payloadOf input = some data) :
    input = .regular data ∧ data ≠ [] ∧ (data.length : Int) ≤ maxPayloadSize := by
  cases input with
  | missing err => cases usable
  | irregular size => cases usable
  | regular content =>
    rw [payloadOf] at usable
    split at usable
    · cases usable
      exact ⟨rfl, ‹_›⟩
    · cases usable

theorem size_toInt (small : (data.length : Int) ≤ maxPayloadSize) :
    (Int64.ofNat data.length).toInt = data.length :=
  Int64.toInt_ofNat_of_lt (by simp only [maxPayloadSize] at small; omega)

theorem openRegular_fine (me : Nat) {target : Target} (found : w.target target = .regular data)
    (positive : 0 < (Int64.ofNat data.length).toInt) :
    Leads (fineStep me) (openRegular target) (fun r w' => r = none ∧ w' = w) w := by
  have usable : ¬ (Int64.ofNat data.length).toInt ≤ 0 := Int.not_le.mpr positive
  simp [-Int64.toInt_ofNat', openRegular, leads_cmd, step, answer, Choice.fine, found, Input.stat, usable]

theorem readBoundedInput_fine (me : Nat) (payload : payloadOf (w.inputs (cleanPath path)) = some data) :
    Leads (fineStep me) (readBoundedInput path payloadLimit) (fun r w' => r = .ok data ∧ w' = w) w := by
  obtain ⟨found, nonempty, small⟩ := payloadOf_some payload
  have target : w.target (.input (cleanPath path)) = .regular data := found
  have size := size_toInt small
  have positive : 0 < (Int64.ofNat data.length).toInt := by
    have := List.length_pos_iff.mpr nonempty
    omega
  have usable : ¬ (Int64.ofNat data.length).toInt ≤ 0 := Int.not_le.mpr positive
  have fits : ¬ payloadLimit.toInt < (Int64.ofNat data.length).toInt := by
    rw [size]
    exact Int.not_lt.mpr small
  have opened : Leads (fineStep me) (openBoundedReaderAt path payloadLimit)
      (fun r w' => r = .ok (Int64.ofNat data.length) ∧ w' = w) w := by
    rw [openBoundedReaderAt, if_neg (by decide)]
    have opened : Leads (fineStep me) (openInput path) (fun r w' => r = none ∧ w' = w) w := by
      refine leads_seq (openRegular_fine me target positive) ?_
      rintro r w' ⟨rfl, rfl⟩
      exact ⟨rfl, rfl⟩
    refine leads_seq opened ?_
    rintro r w' ⟨rfl, rfl⟩
    simp [-Int64.toInt_ofNat', leads_cmd, step, answer, Choice.fine, target, Input.stat, usable, fits]
  refine leads_seq opened ?_
  rintro r w' ⟨rfl, rfl⟩
  simp [-Int64.toInt_ofNat', readBoundedFromFile, leads_cmd, step, answer, Choice.fine, target, Input.content, size]

/-! ## Compressing into the output -/

variable {lvl : Bytes}

section

variable (me : Nat) (chunks : List Bytes)

theorem writeChunks_output (final : Option Err) (w : World) :
    Leads (step me) (writeChunks (.plain .output) chunks final) (fun r w' => ∃ written,
      w' = { w with out := w.out ++ written } ∧
        (r = none → final = none ∧ written = chunks.flatten)) w := by
  induction chunks generalizing w with
  | nil => exact ⟨[], by simp, fun none => ⟨none, rfl⟩⟩
  | cons chunk rest ih =>
    refine leads_call fun x => ?_
    cases failed : x.error with
    | some err =>
      simp only [step, failed, World.append, Option.getD_some]
      exact ⟨_, rfl, by simp⟩
    | none =>
      simp only [step, failed, World.append]
      refine leads_mono (ih _) ?_
      rintro r w' ⟨written, rfl, ok⟩
      refine ⟨chunk ++ written, by simp, fun none => ?_⟩
      obtain ⟨ended, rfl⟩ := ok none
      exact ⟨ended, rfl⟩

theorem writeChunks_output_fine (w : World) :
    Leads (fineStep me) (writeChunks (.plain .output) chunks none)
      (fun r w' => r = none ∧ w' = { w with out := w.out ++ chunks.flatten }) w := by
  induction chunks generalizing w with
  | nil => exact ⟨rfl, by simp⟩
  | cons chunk rest ih =>
    refine leads_call fun _ => ?_
    simp only [fineStep, step, Choice.fine, World.append]
    refine leads_mono (ih _) ?_
    rintro r w' ⟨rfl, rfl⟩
    exact ⟨rfl, by simp⟩

end

/-- The dressing of a codec's error does not hide that there is one. -/
theorem compressVariantIntoWriter_leads {X : Type} {s : World → (c : Call) → X → World × c.Reply}
    {dst : VariantWriter} {c : Impl} {resolvedLevel dict : Bytes} {Q : Option Err → World → Prop}
    (wrote : Leads s (writeChunks dst (c.encode data resolvedLevel dict).chunks
      (c.encode data resolvedLevel dict).final)
      (fun r w' => (r = none → Q none w') ∧ (r ≠ none → ∀ err, Q (some err) w')) w) :
    Leads s (compressVariantIntoWriter dst lvl c resolvedLevel data dict) Q w := by
  refine leads_seq wrote ?_
  rintro (_ | err) w' ⟨ok, failed⟩
  · exact ok rfl
  · dsimp only
    split <;> exact failed (by simp) _

/-! ## The sequential path -/

variable {offset : Int64}

/-- The size a sequential entry records is the size of the frame, and the next frame
starts behind it. -/
theorem frame_end {out bytes : Bytes} {size : Int64} (position : offset = Int64.ofNat out.length)
    (sized : size = Int64.ofNat bytes.length) :
    Int64.ofNat (out ++ bytes).length - offset = size ∧
      Int64.ofNat (out ++ bytes).length = offset + size := by
  rw [position, sized, List.length_append, Int64.ofNat_add]
  refine ⟨?_, rfl⟩
  grind

section

variable [CaseTable] {H : Sha256} {registry : Registered} {opts : CompressionOptions} {dictBytes : Bytes}

variable {inputs : Bytes → Input} {f : Frame}

theorem frameOf_eq_some :
    frameOf H registry opts dictBytes inputs lvl path = some f ↔ ∃ data c resolvedLevel,
      payloadOf (inputs (cleanPath path)) = some data ∧
      resolveVariantCompression registry opts lvl (Int64.ofNat data.length) = .ok (c, resolvedLevel) ∧
      (c.encode data resolvedLevel dictBytes).final = none ∧
      f = encoded H dictBytes lvl c resolvedLevel data := by
  constructor
  · intro frame
    rw [frameOf] at frame
    split at frame
    · cases frame
    rename_i data payload
    split at frame
    · cases frame
    rename_i c resolvedLevel resolved
    split at frame
    · rename_i ended
      cases frame
      exact ⟨data, c, resolvedLevel, payload, resolved, Option.isNone_iff_eq_none.mp ended, rfl⟩
    · cases frame
  · rintro ⟨data, c, resolvedLevel, payload, resolved, ended, rfl⟩
    rw [frameOf, payload]
    simp only [resolved, ended, Option.isNone_none, if_true]

section

variable (me : Nat)

/-- Where a frame is written decides its offset, and the end of the file its size. -/
theorem writeVariantPayload_leads (lvl path : Bytes) (offset : Int64) (w : World) :
    Leads (step me) (writeVariantPayload H registry opts dictBytes lvl path offset) (fun r w' =>
      ∃ written, w' = { w with out := w.out ++ written } ∧ ∀ entry next, r = .ok (entry, next) →
        ∃ f, frameOf H registry opts dictBytes w.inputs lvl path = some f ∧ written = f.bytes ∧
          next = Int64.ofNat (w.out ++ written).length ∧
          entry = { f.entry with offset := offset, compressedSize := next - offset }) w := by
  refine leads_seq (readBoundedInput_leads me _ w) ?_
  rintro (err | data) w' ⟨rfl, read⟩
  · exact ⟨[], by simp, by simp⟩
  have payload := read data rfl
  rw [cleanPath_idem] at payload
  dsimp only
  cases resolved : resolveVariantCompression registry opts lvl (Int64.ofNat data.length) with
  | error err => exact ⟨[], by simp, by simp⟩
  | ok chosen =>
    obtain ⟨c, resolvedLevel⟩ := chosen
    have wrote := writeChunks_output me (c.encode data resolvedLevel dictBytes).chunks
      (c.encode data resolvedLevel dictBytes).final w'
    refine leads_seq (P := fun r u => ∃ written, u = { w' with out := w'.out ++ written } ∧
      (r = none → (c.encode data resolvedLevel dictBytes).final = none ∧
        written = (c.encode data resolvedLevel dictBytes).chunks.flatten))
      (compressVariantIntoWriter_leads (leads_mono wrote ?_)) ?_
    · rintro r u ⟨written, rfl, ok⟩
      exact ⟨fun none => ⟨written, rfl, fun _ => ok none⟩, fun _ err => ⟨written, rfl, by simp⟩⟩
    rintro (_ | err) u ⟨written, rfl, ok⟩
    rotate_left
    · exact ⟨written, rfl, by simp⟩
    obtain ⟨ended, rfl⟩ := ok rfl
    refine leads_look (fun _ => rfl) ?_
    rintro x (err | next) reply
    · exact ⟨_, rfl, by simp⟩
    have position : Int64.ofNat (w'.out ++ (c.encode data resolvedLevel dictBytes).chunks.flatten).length =
        next := Except.ok.inj (answer_ok reply)
    refine ⟨_, rfl, ?_⟩
    intro entry next' same
    obtain ⟨rfl, rfl⟩ := Prod.mk.inj (Except.ok.inj same)
    rw [← position]
    refine ⟨encoded H dictBytes lvl c resolvedLevel data,
      frameOf_eq_some.mpr ⟨data, c, resolvedLevel, payload, resolved, ended, rfl⟩, rfl, rfl, ?_⟩
    simp only [encoded]

theorem writeVariantPayload_fine (offset : Int64)
    (frame : frameOf H registry opts dictBytes w.inputs lvl path = some f) :
    Leads (fineStep me) (writeVariantPayload H registry opts dictBytes lvl path offset) (fun r w' =>
      r = .ok ({ f.entry with offset := offset, compressedSize := Int64.ofNat (w.out ++ f.bytes).length - offset },
        Int64.ofNat (w.out ++ f.bytes).length) ∧ w' = { w with out := w.out ++ f.bytes }) w := by
  obtain ⟨data, c, resolvedLevel, payload, resolved, ended, rfl⟩ := frameOf_eq_some.mp frame
  rw [← cleanPath_idem] at payload
  refine leads_seq (readBoundedInput_fine me payload) ?_
  rintro r w' ⟨rfl, rfl⟩
  simp only [resolved]
  refine leads_seq (P := fun r u => r = none ∧
      u = { w' with out := w'.out ++ (c.encode data resolvedLevel dictBytes).chunks.flatten })
    (compressVariantIntoWriter_leads ?_) ?_
  · rw [ended]
    refine leads_mono (writeChunks_output_fine me _ w') ?_
    rintro r u ⟨rfl, rfl⟩
    exact ⟨fun _ => ⟨rfl, rfl⟩, by simp⟩
  · rintro r u ⟨rfl, rfl⟩
    refine leads_call fun _ => ?_
    simp only [fineStep, step, answer, Choice.fine, World.size, encoded]
    exact ⟨rfl, rfl⟩

theorem frameOf_size (frame : frameOf H registry opts dictBytes inputs lvl path = some f) :
    f.entry.compressedSize = Int64.ofNat f.bytes.length := by
  obtain ⟨data, c, resolvedLevel, -, -, -, rfl⟩ := frameOf_eq_some.mp frame
  rfl

theorem framesOf_cons {plan : VariantWorkPlan} {frames : List Frame} :
    framesOf H registry opts dictBytes inputs (plan :: plans) = some frames ↔
      ∃ f rest, frameOf H registry opts dictBytes inputs plan.level plan.cleanPath = some f ∧
        framesOf H registry opts dictBytes inputs plans = some rest ∧ frames = f :: rest := by
  simp only [framesOf, List.mapM_cons, Option.bind_eq_bind, Option.bind_eq_some_iff, Option.pure_def,
    Option.some.injEq]
  constructor
  · rintro ⟨f, frame, rest, more, rfl⟩
    exact ⟨f, rest, frame, more, rfl⟩
  · rintro ⟨f, rest, frame, more, rfl⟩
    exact ⟨f, frame, rest, more, rfl⟩

/-- **A successful sequential run appended the frames of the plans.** -/
theorem writeVariantPayloadsSequential_leads (plans : List VariantWorkPlan)
    (position : offset = Int64.ofNat w.out.length) :
    Leads (step me) (writeVariantPayloadsSequential H registry opts dictBytes plans offset)
      (fun r w' => ∀ entries finish, r = .ok (entries, finish) → ∃ frames,
        framesOf H registry opts dictBytes w.inputs plans = some frames ∧
          w'.out = w.out ++ frameBytes frames ∧ (entries, finish) = placeFrames offset frames) w := by
  induction plans generalizing w offset with
  | nil =>
    rintro entries finish ⟨⟩
    exact ⟨[], rfl, by simp [frameBytes], rfl⟩
  | cons plan plans ih =>
    refine leads_seq (writeVariantPayload_leads me plan.level plan.cleanPath offset w) ?_
    rintro (err | ⟨entry, next⟩) w' ⟨written, rfl, done⟩
    · simp
    obtain ⟨f, frame, rfl, end_eq, entry_eq⟩ := done entry next rfl
    obtain ⟨size, next_eq⟩ := frame_end position (frameOf_size frame)
    refine leads_seq (ih end_eq) ?_
    rintro (err | ⟨entries, finish⟩) w'' rest
    · simp
    obtain ⟨frames, more, out, placed⟩ := rest entries finish rfl
    rintro _ _ ⟨⟩
    refine ⟨f :: frames, framesOf_cons.mpr ⟨f, frames, frame, more, rfl⟩, ?_, ?_⟩
    · rw [out, frameBytes, frameBytes, List.flatMap_cons, List.append_assoc]
    · rw [placeFrames, ← next_eq, ← end_eq, ← placed, entry_eq, end_eq, size]

/-- **When every plan has a frame and no call fails, the sequential run succeeds.** -/
theorem writeVariantPayloadsSequential_fine {frames : List Frame}
    (position : offset = Int64.ofNat w.out.length)
    (all : framesOf H registry opts dictBytes w.inputs plans = some frames) :
    Leads (fineStep me) (writeVariantPayloadsSequential H registry opts dictBytes plans offset)
      (fun r w' => r = .ok (placeFrames offset frames) ∧ w'.out = w.out ++ frameBytes frames) w := by
  induction plans generalizing w offset frames with
  | nil =>
    cases all
    exact ⟨rfl, by simp [frameBytes]⟩
  | cons plan plans ih =>
    obtain ⟨f, rest, frame, more, rfl⟩ := framesOf_cons.mp all
    obtain ⟨size, next_eq⟩ := frame_end position (frameOf_size frame)
    refine leads_seq (writeVariantPayload_fine me offset frame) ?_
    rintro r w' ⟨rfl, rfl⟩
    refine leads_seq (ih rfl more) ?_
    rintro r w'' ⟨rfl, out⟩
    refine ⟨?_, ?_⟩
    · rw [placeFrames, ← next_eq, size]
    · rw [out, frameBytes, frameBytes, List.flatMap_cons, List.append_assoc]

end

end

end Microfat.Pack
