/-
# Microfat.Pack.Spool — the budget of the staging files

All workers of one tracker share a counter.  A `spoolBoundedWriter` first adds the size
of a write to it, and refuses the write when the sum is above the limit; what was refused
stays counted.  Between the addition and the write other workers may add and write too.

A codec is any code that writes here (`Encoding`): it may go on after a refusal or a
partial write, and need not report either.  What a worker may do is a protocol
(`spoolProtocol`) whose stand remembers the job it holds, what it was granted and not
yet written, and whether a write of this job was refused.

* `stageJobWith_keeps`, `worker_keeps`: the workers keep to the protocol;
* `Balance`: what is staged, and what is granted, is paid for by the counter;
* `Debts`: a refusal is known to the worker that met it until it stores an error;
* `stagePlanSubset_within_budget`: the result for every tracker, every sequence of
  rounds and every interleaving.
-/
import Microfat.Pack.Profit
import Microfat.Theory.Protocol

namespace Microfat.Pack

open Theory Format Codec Microarch
open Function (update update_of_ne update_self)

set_option autoImplicit false

/-! ## Codecs as code -/

/-- A byte slice; its length is an `int`. -/
abbrev Slice := { piece : Bytes // piece.length < 2 ^ 63 }

/-- What a codec does with the writer it is given: it writes, and goes on with the error
or without one. -/
inductive Encoding where
  | done (err : Option Err)
  | write (piece : Slice) (next : Option Err → Encoding)

namespace Encoding

/-- However it goes on, it ends with an error. -/
def Fails : Encoding → Prop
  | .done err => err ≠ none
  | .write _ next => ∀ err, (next err).Fails

/-- A failed write is reported in the end, whatever is written after it. -/
def Reports : Encoding → Prop
  | .done _ => True
  | .write _ next => (next none).Reports ∧ ∀ err, (next (some err)).Fails

def through (dst : VariantWriter) : Encoding → Program (Option Err)
  | .done err => return err
  | .write piece next => do
      let err ← dst.write piece.1
      (next err).through dst

/-- The writes of a stream; it stops at the first that fails. -/
def ofChunks (final : Option Err) : List Slice → Encoding
  | [] => .done final
  | chunk :: rest => .write chunk fun
      | some err => .done (some err)
      | none => ofChunks final rest

theorem ofChunks_reports (final : Option Err) (chunks : List Slice) : (ofChunks final chunks).Reports := by
  induction chunks with
  | nil => exact trivial
  | cons chunk rest ih => exact ⟨ih, fun err => Option.some_ne_none err⟩

theorem through_ofChunks (dst : VariantWriter) (final : Option Err) (chunks : List Slice) :
    (ofChunks final chunks).through dst = writeChunks dst (chunks.map (·.1)) final := by
  induction chunks with
  | nil => rfl
  | cons chunk rest ih =>
    rw [ofChunks, through, List.map_cons, writeChunks]
    refine congrArg _ (funext fun err => ?_)
    cases err with
    | some err => rfl
    | none => exact ih

end Encoding

/-- The code of all codecs, with and without a dictionary. -/
abbrev Code := Impl → (variantBytes resolvedLevel dict : Bytes) → Encoding

/-- Every codec reports a failed write. -/
def Code.Reports (code : Code) : Prop :=
  ∀ c variantBytes resolvedLevel dict, (code c variantBytes resolvedLevel dict).Reports

section

variable [CaseTable] (H : Sha256) (registry : Registered) (opts : CompressionOptions) (code : Code)

/-- The staging of the job of that number, with that code behind the codecs. -/
def stageJobWith (outDir : Bytes) (plans : List VariantWorkPlan) (dictBytes : Bytes) (limit : Int64) (job : Nat) :
    Program ParallelVariantResult :=
  match plans[job]? with
  | some plan =>
    stageVariantWith H registry opts
      (fun dst c resolvedLevel variantBytes =>
        reportCompression plan.level c dictBytes ((code c variantBytes resolvedLevel dictBytes).through dst))
      outDir job plan (some limit)
  | none => return .zero

/-- The journal of a round of workers. -/
abbrev Journal (workers : Nat) := List (Exchange (Fin workers) Call Call.Reply)

/-- As many workers as `stagePlanSubset` starts. -/
def subsetWorkers (plans : List VariantWorkPlan) (workers : Nat) : Nat := max (min workers plans.length) 1

/-- A round of workers that has got as far as `t`. -/
def WorkersTrace (outDir : Bytes) (plans : List VariantWorkPlan) (dictBytes : Bytes) (limit : Int64)
    {workers : Nat} (w : World) (journal : Journal workers) (t : Pool (Fin workers) Call Call.Reply Unit World) : Prop :=
  Trace (fun i : Fin workers => step (i + 1))
    ⟨fun _ => worker (stageJobWith H registry opts code outDir plans dictBytes limit) (plans.length + 1), w⟩ journal t

/-- `stagePlanSubset`, with that code behind the codecs and with the journal of its workers. -/
def stagePlanSubsetWith (outDir : Bytes) (plans : List VariantWorkPlan) (dictBytes : Bytes) (workers : Nat)
    (limit : Int64) :
    Run World (Journal (subsetWorkers plans workers) × List ParallelVariantResult × Option Err) := do
  (dispatch plans.length).runs (step 0)
  let journal ← fun w journal w' => ∃ threads,
    WorkersTrace H registry opts code outDir plans dictBytes limit w journal ⟨threads, w'⟩ ∧
      ∀ i, threads i = .ret ()
  let r ← (gather (List.range plans.length)).runs (step 0)
  return (journal, r)

end

/-! ## The model with streams is an instance -/

/-- The pieces that are slices. -/
def slices (chunks : List Bytes) : List Slice :=
  chunks.filterMap fun chunk => if short : chunk.length < 2 ^ 63 then some ⟨chunk, short⟩ else none

theorem slices_map {chunks : List Bytes} (short : ∀ chunk ∈ chunks, chunk.length < 2 ^ 63) :
    (slices chunks).map (·.1) = chunks := by
  induction chunks with
  | nil => rfl
  | cons chunk rest ih =>
    rw [List.forall_mem_cons] at short
    have here : slices (chunk :: rest) = ⟨chunk, short.1⟩ :: slices rest :=
      List.filterMap_cons_some (dif_pos short.1)
    rw [here, List.map_cons, ih short.2]

/-- The code that writes what the codec encodes. -/
def streamed : Code := fun c variantBytes resolvedLevel dict =>
  .ofChunks (c.encode variantBytes resolvedLevel dict).final (slices (c.encode variantBytes resolvedLevel dict).chunks)

theorem streamed_reports : streamed.Reports := fun _ _ _ _ => Encoding.ofChunks_reports _ _

/-- The codec writes in slices. -/
def WritesSlices (c : Impl) : Prop :=
  ∀ variantBytes resolvedLevel dict, ∀ chunk ∈ (c.encode variantBytes resolvedLevel dict).chunks,
    chunk.length < 2 ^ 63

section

variable [CaseTable] {H : Sha256} {registry : Registered} {opts : CompressionOptions}

/-- Only what the chosen codec does matters. -/
theorem stageVariantWith_congr
    {compress compress' : VariantWriter → Impl → (resolvedLevel variantBytes : Bytes) → Program (Option Err)}
    {outDir : Bytes} {job : Nat} {plan : VariantWorkPlan} {tracker : Option Int64}
    (planned : ∀ dst resolvedLevel variantBytes, compress dst plan.codecImpl resolvedLevel variantBytes =
      compress' dst plan.codecImpl resolvedLevel variantBytes)
    (resolved : ∀ size c level, resolveVariantCompression registry opts plan.level size = .ok (c, level) →
      ∀ dst resolvedLevel variantBytes, compress dst c resolvedLevel variantBytes =
        compress' dst c resolvedLevel variantBytes) :
    stageVariantWith H registry opts compress outDir job plan tracker =
      stageVariantWith H registry opts compress' outDir job plan tracker := by
  rw [stageVariantWith, stageVariantWith]
  refine congrArg _ (funext fun read => ?_)
  cases read with
  | error err => rfl
  | ok variantBytes =>
    dsimp only
    cases chosen : (if Int64.ofNat variantBytes.length ≠ plan.statSize then
        resolveVariantCompression registry opts plan.level (Int64.ofNat variantBytes.length)
      else .ok (plan.codecImpl, plan.resolvedLevel) : Except Err (Impl × Bytes)) with
    | error err => rfl
    | ok pair =>
      obtain ⟨c, resolvedLevel⟩ := pair
      have same : ∀ dst, compress dst c resolvedLevel variantBytes = compress' dst c resolvedLevel variantBytes := by
        intro dst
        split at chosen
        · exact resolved _ c _ chosen dst _ _
        · obtain ⟨rfl, rfl⟩ := Prod.mk.inj (Except.ok.inj chosen)
          exact planned dst _ _
      dsimp only
      simp only [same]

/-- The staging of a job with the streams of the codecs. -/
theorem stageJobWith_streamed {outDir : Bytes} {plans : List VariantWorkPlan} {dictBytes : Bytes} {limit : Int64}
    (planned : ∀ plan ∈ plans, WritesSlices plan.codecImpl)
    (resolved : ∀ plan ∈ plans, ∀ size c level,
      resolveVariantCompression registry opts plan.level size = .ok (c, level) → WritesSlices c) (job : Nat) :
    stageJobWith H registry opts streamed outDir plans dictBytes limit job =
      stageJob H registry opts dictBytes outDir plans (some limit) job := by
  have written : ∀ {c : Impl}, WritesSlices c → ∀ (dst : VariantWriter) (resolvedLevel variantBytes : Bytes),
      (streamed c variantBytes resolvedLevel dictBytes).through dst =
        writeChunks dst (c.encode variantBytes resolvedLevel dictBytes).chunks
          (c.encode variantBytes resolvedLevel dictBytes).final := by
    intro c short dst resolvedLevel variantBytes
    rw [streamed, Encoding.through_ofChunks, slices_map (short variantBytes resolvedLevel dictBytes)]
  rw [stageJobWith, stageJob]
  cases found : plans[job]? with
  | none => rfl
  | some plan =>
    have mem := List.mem_of_getElem? found
    refine stageVariantWith_congr ?_ ?_
    · intro dst resolvedLevel variantBytes
      rw [written (planned plan mem)]
      rfl
    · intro size c level chosen dst resolvedLevel variantBytes
      rw [written (resolved plan mem size c level chosen)]
      rfl

/-- **Every run of `stagePlanSubset` is one with a journal.** -/
theorem stagePlanSubset_journal {outDir : Bytes} {plans : List VariantWorkPlan} {dictBytes : Bytes} {workers : Nat}
    {limit : Int64} {w w' : World} {r : List ParallelVariantResult × Option Err}
    (planned : ∀ plan ∈ plans, WritesSlices plan.codecImpl)
    (resolved : ∀ plan ∈ plans, ∀ size c level,
      resolveVariantCompression registry opts plan.level size = .ok (c, level) → WritesSlices c) :
    stagePlanSubset H registry opts outDir plans dictBytes workers limit w r w' ↔ ∃ journal,
      stagePlanSubsetWith H registry opts streamed outDir plans dictBytes workers limit w (journal, r) w' := by
  have same : stageJobWith H registry opts streamed outDir plans dictBytes limit =
      stageJob H registry opts dictBytes outDir plans (some limit) := funext (stageJobWith_streamed planned resolved)
  simp only [stagePlanSubsetWith, WorkersTrace, same]
  constructor
  · rintro ⟨_, u, dispatched, _, v, ⟨threads, ran, returned⟩, gathered⟩
    obtain ⟨journal, trace⟩ := PoolRun.trace ran
    exact ⟨journal, (), u, dispatched, journal, v, ⟨threads, trace, returned⟩, r, w', gathered, rfl, rfl⟩
  · rintro ⟨_, _, u, dispatched, journal, v, ⟨threads, trace, returned⟩, _, _, gathered, same, rfl⟩
    obtain ⟨rfl, rfl⟩ := Prod.mk.inj same
    exact ⟨(), u, dispatched, (), v, ⟨threads, trace.run, returned⟩, gathered⟩

end

/-! ## The protocol of a worker -/

/-- Where a worker stands: the job it holds, what it was granted and has not written, and
whether a write of this job was refused. -/
structure Stand where
  hold : Option Nat
  reserve : Nat
  refused : Bool

/-- Between two jobs. -/
def Stand.idle : Stand := ⟨none, 0, false⟩

/-- What a worker may do.  Only what was granted is written; where the codecs report
failed writes, a job with a refused write is stored with an error. -/
def spoolProtocol (limit : Int64) (reports : Prop) : Protocol Call Call.Reply Stand where
  may s
    | .receive => s = .idle
    | .ctxErr job => s.hold = some job ∧ s.refused = false
    | .store job res => s.hold = some job ∧ (reports → s.refused = true → res.err ≠ none)
    | .spoolAdd n => 0 ≤ n.toInt
    | .write (.stage _) piece => piece.length ≤ s.reserve
    | .openFile _ | .fstat _ | .readFull _ _ | .readExtra _ _ | .seek _ | .createTemp _ _ | .close _ | .cancel => True
    | _ => False
  next s
    | .receive, job => ⟨job, 0, false⟩
    | .ctxErr _, cancelled => if cancelled then .idle else s
    | .store _ _, _ => .idle
    | .spoolAdd n, total =>
      if limit.toInt < total.toInt then { s with reserve := 0, refused := true }
      else { s with reserve := n.toInt.toNat }
    | .write _ _, _ => { s with reserve := 0 }
    | _, _ => s

section

variable {limit : Int64} {reports : Prop}

theorem toInt_length {piece : Bytes} (short : piece.length < 2 ^ 63) :
    (Int64.ofNat piece.length).toInt = piece.length := Int64.toInt_ofNat_of_lt short

/-- A write is refused, or what is written was granted before. -/
theorem spooledWrite_keeps (file : Nat) (piece : Slice) (s : Stand) :
    (spoolProtocol limit reports).Keeps ((VariantWriter.spooled file limit).write piece.1)
      (fun err s' => s'.hold = s.hold ∧ (err = none → s'.refused = s.refused)) s := by
  rw [VariantWriter.write]
  split
  · exact ⟨rfl, fun _ => rfl⟩
  · have size := toInt_length piece.2
    refine Protocol.keeps_call (?_ : 0 ≤ (Int64.ofNat piece.1.length).toInt) fun total => ?_
    · omega
    · dsimp only [spoolProtocol]
      split
      · exact ⟨rfl, fun none => by cases none⟩
      · refine ⟨?_, fun err => ⟨rfl, fun _ => rfl⟩⟩
        show piece.1.length ≤ (Int64.ofNat piece.1.length).toInt.toNat
        omega

/-- Any code keeps to the protocol; what it reports is what it says it reports. -/
theorem through_keeps (file : Nat) (e : Encoding) (s : Stand) :
    (spoolProtocol limit reports).Keeps (e.through (.spooled file limit)) (fun err s' => s'.hold = s.hold ∧
      (e.Fails → err ≠ none) ∧ (e.Reports → s.refused = false → s'.refused = true → err ≠ none)) s := by
  induction e generalizing s with
  | done err => exact ⟨rfl, id, fun _ clean refused => absurd (clean.symm.trans refused) Bool.false_ne_true⟩
  | write piece next ih =>
    refine Protocol.keeps_seq (spooledWrite_keeps file piece s) fun err s₁ ⟨hold, fine⟩ => ?_
    refine Protocol.keeps_mono (ih err s₁) fun r s₂ ⟨held, fails, told⟩ =>
      ⟨held.trans hold, fun all => fails (all err), fun reports clean refused => ?_⟩
    cases err with
    | some err => exact fails (reports.2 err)
    | none => exact told reports.1 ((fine rfl).trans clean) refused

/-- What a worker stands by when it has the result of its job. -/
def Settles (reports : Prop) (job : Nat) (res : ParallelVariantResult) (s : Stand) : Prop :=
  s.hold = some job ∧ (reports → s.refused = true → res.err ≠ none)

theorem settles_failed {job : Nat} {s : Stand} (held : s.hold = some job) (stagedPath : Option StagePath) (err : Err) :
    Settles reports job (.failed stagedPath err) s :=
  ⟨held, fun _ _ => Option.some_ne_none err⟩

theorem readsInput_free (s : Stand) (c : Call) (reads : c.ReadsInput) :
    (spoolProtocol limit reports).may s c ∧ ∀ r, (spoolProtocol limit reports).next s c r = s := by
  cases c <;> first | cases reads | exact ⟨trivial, fun _ => rfl⟩

theorem reportCompression_keeps (Q told : Stand → Prop) {codec : Program (Option Err)} {s : Stand}
    {lvl : Bytes} {c : Impl} {dict : Bytes}
    (kept : (spoolProtocol limit reports).Keeps codec (fun err s' => Q s' ∧ (told s' → err ≠ none)) s) :
    (spoolProtocol limit reports).Keeps (reportCompression lvl c dict codec)
      (fun err s' => Q s' ∧ (told s' → err ≠ none)) s := by
  refine Protocol.keeps_seq kept ?_
  rintro (_ | err) s' ⟨holds, heard⟩
  · exact ⟨holds, heard⟩
  · dsimp only
    split <;> exact ⟨holds, fun _ => Option.some_ne_none _⟩

/-- **A worker keeps to the protocol.**  Induction on the rounds that are left. -/
theorem worker_keeps {stage : Nat → Program ParallelVariantResult}
    (staging : ∀ job, (spoolProtocol limit reports).Keeps (stage job) (Settles reports job) ⟨some job, 0, false⟩)
    (rounds : Nat) :
    (spoolProtocol limit reports).Keeps (worker stage rounds) (fun _ s => s = .idle) .idle := by
  induction rounds with
  | zero => exact rfl
  | succ rounds ih =>
    refine Protocol.keeps_call rfl ?_
    rintro (_ | job)
    · exact rfl
    refine Protocol.keeps_call ⟨rfl, rfl⟩ fun cancelled => ?_
    cases cancelled with
    | true => exact ih
    | false =>
      refine Protocol.keeps_seq (staging job) fun res s settles => ?_
      refine Protocol.keeps_call settles fun _ => ?_
      cases res.err with
      | some err => exact Protocol.keeps_call trivial fun _ => ih
      | none => exact ih

variable [CaseTable] {H : Sha256} {registry : Registered} {opts : CompressionOptions} {code : Code}
variable {outDir dictBytes : Bytes} {plans : List VariantWorkPlan}

/-- **The staging of a job keeps to the protocol**, whatever the code of its codec. -/
theorem stageJobWith_keeps (honest : reports → code.Reports) (job : Nat) :
    (spoolProtocol limit reports).Keeps (stageJobWith H registry opts code outDir plans dictBytes limit job)
      (Settles reports job) ⟨some job, 0, false⟩ := by
  rw [stageJobWith]
  cases plans[job]? with
  | none => exact ⟨rfl, fun _ refused => absurd refused Bool.false_ne_true⟩
  | some plan =>
    refine Protocol.keeps_seq (Protocol.keeps_uses readsInput_free (readBoundedInput_uses _ _) _) ?_
    rintro (err | variantBytes) _ rfl
    · exact settles_failed rfl _ _
    dsimp only
    split
    · exact settles_failed rfl _ _
    rename_i c resolvedLevel chosen
    refine Protocol.keeps_call trivial ?_
    rintro (err | stagePath)
    · exact settles_failed rfl _ _
    refine Protocol.keeps_seq (reportCompression_keeps (fun s => s.hold = some job)
      (fun s => reports ∧ s.refused = true) (Protocol.keeps_mono (through_keeps stagePath.file _ _) ?_)) ?_
    · rintro err s ⟨held, -, told⟩
      exact ⟨held, fun ⟨all, refused⟩ => told (honest all _ _ _ _) rfl refused⟩
    rintro (_ | compErr) s ⟨held, told⟩
    · -- no error came back, so nothing was refused
      have clean : reports → s.refused = true → False := fun all refused => told ⟨all, refused⟩ rfl
      refine Protocol.keeps_call trivial fun sought => Protocol.keeps_call trivial fun closeErr => ?_
      cases sought with
      | error err => exact settles_failed held _ _
      | ok size =>
        cases closeErr with
        | some err => exact settles_failed held _ _
        | none => exact ⟨held, fun all refused => (clean all refused).elim⟩
    · exact Protocol.keeps_call trivial fun _ => settles_failed held _ _

end

/-! ## What is staged -/

/-- The bytes in all staging files. -/
def World.staged (w : World) : Nat := ∑ file ∈ Finset.range w.nextFile, w.size (.stage file)

theorem staged_grows {w : World} (w' : World) (file n : Nat) (names : w'.nextFile = w.nextFile)
    (others : ∀ p, p ≠ file → w'.files p = w.files p)
    (here : w'.size (.stage file) ≤ w.size (.stage file) + n) : w'.staged ≤ w.staged + n := by
  have each : ∀ p, w'.size (.stage p) ≤ w.size (.stage p) + if p = file then n else 0 := by
    intro p
    by_cases same : p = file
    · rw [same, if_pos rfl]
      exact here
    · simp only [World.size, others p same, if_neg same]
      exact Nat.le_refl _
  calc w'.staged ≤ ∑ p ∈ Finset.range w.nextFile, (w.size (.stage p) + if p = file then n else 0) := by
        rw [World.staged, names]
        exact Finset.sum_le_sum fun p _ => each p
    _ = w.staged + ∑ p ∈ Finset.range w.nextFile, if p = file then n else 0 := Finset.sum_add_distrib
    _ ≤ w.staged + n := by
        rw [Finset.sum_ite_eq' (Finset.range w.nextFile) file fun _ => n]
        split <;> omega

theorem staged_append (w : World) (me file : Nat) (piece : Bytes) :
    ((w.append me (.stage file) piece).getD w).staged ≤ w.staged + piece.length := by
  rw [World.append]
  cases found : w.files file with
  | none => exact Nat.le_add_right _ _
  | some f =>
    dsimp only
    split
    · refine staged_grows (w.setFile file _) file _ rfl (fun p other => update_of_ne other _ _) ?_
      simp [World.size, World.setFile, found]
    · exact Nat.le_add_right _ _

section

variable (me : Nat) (w : World) (file : Nat)

theorem staged_write (piece : Bytes) (x : Choice) :
    (step me w (.write (.stage file) piece) x).1.staged ≤ w.staged + piece.length := by
  have cut := staged_append w me file (piece.take x.count)
  have whole := staged_append w me file piece
  have short := piece.length_take_le' x.count
  simp only [step]
  split
  · exact cut.trans (Nat.add_le_add_left short _)
  · split <;> rename_i same
    · rwa [same] at whole
    · exact Nat.le_add_right _ _

theorem staged_close (x : Choice) : (step me w (.close file) x).1.staged ≤ w.staged := by
  simp only [step]
  cases found : w.files file with
  | none => exact Nat.le_refl _
  | some f =>
    dsimp only
    split
    · refine staged_grows (w.setFile file _) file 0 rfl (fun p other => update_of_ne other _ _) ?_
      simp [World.size, World.setFile, found]
    · exact Nat.le_refl _

theorem staged_createTemp (me : Nat) (w : World) (outDir : Bytes) (job : Nat) (x : Choice) :
    (step me w (.createTemp outDir job) x).1.staged ≤ w.staged := by
  simp only [step]
  split
  · exact Nat.le_refl _
  · simp only [World.staged, Finset.sum_range_succ, World.size, update_self, Option.map_some, Option.getD_some,
      List.length_nil, Nat.add_zero]
    refine Finset.sum_le_sum fun p below => ?_
    rw [update_of_ne (Nat.ne_of_lt (Finset.mem_range.mp below))]

/-- A write to a staging file changes the files and nothing else. -/
theorem write_files (piece : Bytes) (x : Choice) :
    ∃ files, (step me w (.write (.stage file) piece) x).1 = { w with files := files } := by
  have appended : ∀ bytes, ∃ files, (w.append me (.stage file) bytes).getD w = { w with files := files } := by
    intro bytes
    rw [World.append]
    split
    · split
      · exact ⟨_, rfl⟩
      · exact ⟨w.files, rfl⟩
    · exact ⟨w.files, rfl⟩
  simp only [step]
  split
  · exact appended _
  · obtain ⟨files, same⟩ := appended piece
    cases found : w.append me (.stage file) piece with
    | none => exact ⟨w.files, rfl⟩
    | some w' =>
      rw [found] at same
      exact ⟨files, same⟩

end

/-! ## The balance -/

section

variable {workers : Nat}

/-- What a command asks of the tracker. -/
def asks (e : Exchange (Fin workers) Call Call.Reply) : Int :=
  match e with
  | ⟨_, .spoolAdd n, _⟩ => n.toInt
  | _ => 0

/-- The total of the sizes the writers asked for. -/
def requested (journal : Journal workers) : Int := (journal.map asks).sum

theorem requested_append (journal : Journal workers) (e : Exchange (Fin workers) Call Call.Reply) :
    requested (journal ++ [e]) = requested journal + asks e := by
  simp [requested]

def reserved (stands : Fin workers → Stand) : Nat := ∑ i, (stands i).reserve

theorem reserved_update (stands : Fin workers → Stand) (i : Fin workers) (s : Stand) :
    reserved (update stands i s) + (stands i).reserve = reserved stands + s.reserve := by
  have others : ∑ j ∈ Finset.univ.erase i, (update stands i s j).reserve =
      ∑ j ∈ Finset.univ.erase i, (stands j).reserve :=
    Finset.sum_congr rfl fun j other => by rw [update_of_ne (Finset.ne_of_mem_erase other)]
  have after := Finset.sum_erase_add Finset.univ (fun j => (update stands i s j).reserve) (Finset.mem_univ i)
  have before := Finset.sum_erase_add Finset.univ (fun j => (stands j).reserve) (Finset.mem_univ i)
  simp only [update_self] at after
  rw [reserved, reserved, ← after, ← before, others]
  omega

/-- The books of a round: `asked` was asked for in earlier rounds, and `base` was staged
before the tracker.  As long as the counter does not wrap, it holds everything that was
asked for, and what is staged or granted is within the counter and within the limit. -/
structure Balance (limit : Int64) (base : Nat) (asked : Int) (stands : Fin workers → Stand) (w : World)
    (journal : Journal workers) : Prop where
  growing : 0 ≤ requested journal
  books : asked + requested journal < 2 ^ 63 → 0 ≤ w.spool.toInt ∧ w.spool.toInt = asked + requested journal ∧
    (w.staged : Int) + reserved stands ≤ base + min w.spool.toInt limit.toInt

variable {limit : Int64} {base : Nat} {asked : Int} {stands : Fin workers → Stand} {w w' : World}
variable {journal : Journal workers} {i : Fin workers}

section

variable (h : Balance limit base asked stands w journal)

include h

/-- A command that leaves the counter alone, and writes no more than it gives up. -/
theorem Balance.settle {e : Exchange (Fin workers) Call Call.Reply} (free : asks e = 0)
    (spool : w'.spool = w.spool) {s : Stand} (paid : w'.staged + s.reserve ≤ w.staged + (stands i).reserve) :
    Balance limit base asked (update stands i s) w' (journal ++ [e]) := by
  have total := requested_append journal e
  have moved := reserved_update stands i s
  refine ⟨by have := h.growing; omega, fun below => ?_⟩
  obtain ⟨nonneg, counted, covered⟩ := h.books (by omega)
  rw [spool]
  refine ⟨nonneg, by omega, ?_⟩
  omega

/-- The addition: a grant is covered by what the counter grew by. -/
theorem Balance.add {n : Int64} (nonneg : 0 ≤ n.toInt) {e : Exchange (Fin workers) Call Call.Reply}
    (size : asks e = n.toInt) {s : Stand} {reports : Prop}
    (next : s = (spoolProtocol limit reports).next (stands i) (.spoolAdd n) (w.spool + n)) :
    Balance limit base asked (update stands i s) { w with spool := w.spool + n } (journal ++ [e]) := by
  have total := requested_append journal e
  have moved := reserved_update stands i s
  refine ⟨by have := h.growing; omega, fun below => ?_⟩
  obtain ⟨positive, counted, covered⟩ := h.books (by omega)
  have sum : (w.spool + n).toInt = w.spool.toInt + n.toInt := by
    rw [Int64.toInt_add]
    exact Int.bmod_eq_of_le (by omega) (by omega)
  dsimp only [spoolProtocol] at next
  show 0 ≤ (w.spool + n).toInt ∧ (w.spool + n).toInt = _ ∧ (w.staged : Int) + _ ≤ _ + min (w.spool + n).toInt _
  refine ⟨by omega, by omega, ?_⟩
  split at next
  · have none : s.reserve = 0 := by rw [next]
    omega
  · have granted : s.reserve = n.toInt.toNat := by rw [next]
    omega

/-- **Every allowed command keeps the balance.** -/
theorem Balance.step {reports : Prop} (c : Call) (x : Choice)
    (may : (spoolProtocol limit reports).may (stands i) c) :
    Balance limit base asked
      (update stands i ((spoolProtocol limit reports).next (stands i) c (Pack.step (i + 1) w c x).2))
      (Pack.step (i + 1) w c x).1 (journal ++ [⟨i, c, (Pack.step (i + 1) w c x).2⟩]) := by
  have idle : ∀ {staged : Nat}, staged ≤ w.staged → staged + Stand.idle.reserve ≤ w.staged + (stands i).reserve :=
    fun le => Nat.add_le_add le (Nat.zero_le _)
  cases c with
  | spoolAdd n => exact h.add may rfl rfl
  | write dest piece =>
    cases dest with
    | output => exact may.elim
    | stage file =>
      have written := staged_write (i + 1) w file piece x
      obtain ⟨files, same⟩ := write_files (i + 1) w file piece x
      exact h.settle (by rfl) (by rw [same]) (written.trans (Nat.add_le_add_left may _))
  | openFile target | fstat target | readFull target _ | readExtra target _ | seek target =>
    exact h.settle rfl rfl (Nat.le_refl _)
  | cancel => exact h.settle (by rfl) (by rfl) (Nat.le_refl _)
  | createTemp outDir job =>
    refine h.settle rfl ?_ (Nat.add_le_add_right (staged_createTemp _ _ _ _ _) _)
    simp only [Pack.step]
    split <;> rfl
  | close file =>
    refine h.settle rfl ?_ (Nat.add_le_add_right (staged_close _ _ _ _) _)
    simp only [Pack.step]
    split
    · split <;> rfl
    · rfl
  | receive =>
    have same : (Pack.step (i + 1) w .receive x).1.spool = w.spool ∧
        (Pack.step (i + 1) w .receive x).1.staged = w.staged := by
      simp only [Pack.step]
      split <;> exact ⟨rfl, rfl⟩
    exact h.settle rfl same.1 (idle same.2.le)
  | ctxErr job =>
    have same : (Pack.step (i + 1) w (.ctxErr job) x).1.spool = w.spool ∧
        (Pack.step (i + 1) w (.ctxErr job) x).1.staged = w.staged := by
      simp only [Pack.step]
      split <;> exact ⟨rfl, rfl⟩
    refine h.settle rfl same.1 ?_
    dsimp only [spoolProtocol]
    split
    · exact idle same.2.le
    · exact Nat.add_le_add_right same.2.le _
  | store job res =>
    exact h.settle (by rfl) (by rfl) (idle (Nat.le_refl _))
  | stat _ | newTracker | copyToOutput _ _ | remove _ | makeJobs | send _ | load _ | clearPath _ => exact may.elim

end

end

/-! ## What a refusal leads to -/

section

variable {workers : Nat}

/-- The write was refused: the sum was above the limit. -/
def overBudget (limit : Int64) (e : Exchange (Fin workers) Call Call.Reply) : Bool :=
  match e with
  | ⟨_, .spoolAdd _, total⟩ => decide (limit.toInt < total.toInt)
  | _ => false

/-- Every job is in one place; and once a write was refused, there is a worker that knows,
or a stored error. -/
structure Debts (limit : Int64) (jobs : Nat) (stands : Fin workers → Stand) (w : World)
    (journal : Journal workers) : Prop where
  distinct : w.queue.Nodup
  queued : ∀ job ∈ w.queue, w.fate job = .queued
  held : ∀ i job, (stands i).hold = some job → w.fate job = .held (i + 1)
  sent : ∀ job, w.fate job ≠ .unsent → job < jobs
  owed : (∃ e ∈ journal, overBudget limit e = true) → (∃ i, (stands i).refused = true) ∨
    ∃ job, w.fate job = .stored ∧ (w.results job).err ≠ none

variable {limit : Int64} {jobs : Nat} {stands : Fin workers → Stand} {w w' : World}
variable {journal : Journal workers} {i : Fin workers}

/-- The worker `i` still stands for its refusal, or never met one; so do the others. -/
theorem refused_update {s : Stand} (kept : (stands i).refused = true → s.refused = true)
    (some : ∃ j, (stands j).refused = true) : ∃ j, (update stands i s j).refused = true := by
  obtain ⟨j, refused⟩ := some
  refine ⟨j, ?_⟩
  by_cases same : j = i
  · subst same
    rw [update_self]
    exact kept refused
  · rwa [update_of_ne same]

theorem held_update {s : Stand} {fate : Nat → Fate} (mine : ∀ job, s.hold = some job → fate job = .held (i + 1))
    (others : ∀ j job, j ≠ i → (stands j).hold = some job → fate job = .held (j + 1)) (j : Fin workers) (job : Nat)
    (holds : (update stands i s j).hold = some job) : fate job = .held (j + 1) := by
  by_cases same : j = i
  · subst same
    rw [update_self] at holds
    exact mine job holds
  · rw [update_of_ne same] at holds
    exact others j job same holds

/-- A command that leaves the jobs alone. -/
theorem Debts.settle (h : Debts limit jobs stands w journal) {e : Exchange (Fin workers) Call Call.Reply} {s : Stand}
    (queue : w'.queue = w.queue) (fate : w'.fate = w.fate) (results : w'.results = w.results)
    (hold : s.hold = (stands i).hold) (kept : (stands i).refused = true → s.refused = true)
    (known : overBudget limit e = true → s.refused = true) :
    Debts limit jobs (update stands i s) w' (journal ++ [e]) := by
  refine ⟨queue ▸ h.distinct, by rw [queue, fate]; exact h.queued, ?_, by rw [fate]; exact h.sent, ?_⟩
  · rw [fate]
    exact held_update (fun job holds => h.held i job (hold ▸ holds)) fun j job _ holds => h.held j job holds
  · rw [fate, results]
    rintro ⟨e', mem, above⟩
    rcases List.mem_append.mp mem with before | now
    · exact (h.owed ⟨e', before, above⟩).imp_left (refused_update kept)
    · obtain rfl := List.mem_singleton.mp now
      exact .inl ⟨i, by rw [update_self]; exact known above⟩

/-- A job moves on: it was taken from the channel, skipped or stored. -/
theorem Debts.move (h : Debts limit jobs stands w journal) {e : Exchange (Fin workers) Call Call.Reply} {s : Stand}
    {job : Nat} {after : Fate} (before : w.fate job = .queued ∨ w.fate job = .held (i + 1))
    (fate : w'.fate = update w.fate job after) (sublist : w'.queue.Sublist w.queue) (gone : job ∉ w'.queue)
    (results : ∀ other, other ≠ job → w'.results other = w.results other)
    (holds : ∀ other, s.hold = some other → other = job ∧ after = .held (i + 1))
    (within : overBudget limit e = false)
    (settled : (stands i).refused = true → after = .stored ∧ (w'.results job).err ≠ none) :
    Debts limit jobs (update stands i s) w' (journal ++ [e]) := by
  have away : ∀ other, other ≠ job → w'.fate other = w.fate other := by
    intro other different
    rw [fate, update_of_ne different]
  have unsettled : w.fate job ≠ .stored ∧ w.fate job ≠ .unsent := by
    rcases before with is | is <;> simp [is]
  refine ⟨h.distinct.sublist sublist, fun other mem => ?_, ?_, fun other sent => ?_, ?_⟩
  · have different : other ≠ job := fun same => gone (same ▸ mem)
    rw [away other different]
    exact h.queued other (sublist.subset mem)
  · refine held_update (fun other mine => ?_) fun j other different theirs => ?_
    · obtain ⟨rfl, now⟩ := holds other mine
      rw [fate, update_self, now]
    · have held := h.held j other theirs
      rw [away other ?_, held]
      rintro rfl
      rcases before with is | is
      · cases is.symm.trans held
      · exact different (Fin.ext (Nat.succ_injective (Fate.held.inj (held.symm.trans is))))
  · by_cases same : other = job
    · rw [same]
      exact h.sent job unsettled.2
    · rw [away other same] at sent
      exact h.sent other sent
  · rintro ⟨e', mem, above⟩
    have earlier : e' ∈ journal := by
      rcases List.mem_append.mp mem with earlier | now
      · exact earlier
      · obtain rfl := List.mem_singleton.mp now
        exact absurd (within.symm.trans above) Bool.false_ne_true
    rcases h.owed ⟨e', earlier, above⟩ with ⟨j, refused⟩ | ⟨bad, stored, err⟩
    · by_cases same : j = i
      · subst same
        obtain ⟨now, err⟩ := settled refused
        exact .inr ⟨job, by rw [fate, update_self, now], err⟩
      · exact .inl ⟨j, by rwa [update_of_ne same]⟩
    · have different : bad ≠ job := by
        rintro rfl
        exact unsettled.1 stored
      exact .inr ⟨bad, (away bad different).trans stored, by rwa [results bad different]⟩

/-- **Every allowed command keeps the debts.** -/
theorem Debts.step {reports : Prop} (honest : reports) (h : Debts limit jobs stands w journal) (c : Call) (x : Choice)
    (may : (spoolProtocol limit reports).may (stands i) c) :
    Debts limit jobs
      (update stands i ((spoolProtocol limit reports).next (stands i) c (Pack.step (i + 1) w c x).2))
      (Pack.step (i + 1) w c x).1 (journal ++ [⟨i, c, (Pack.step (i + 1) w c x).2⟩]) := by
  -- a job the worker holds is not in the channel
  have unqueued : ∀ {job}, (stands i).hold = some job → job ∉ w.queue := by
    intro job holds mem
    cases (h.queued job mem).symm.trans (h.held i job holds)
  have fine : ∀ {p : Prop}, false = true → p := fun wrong => absurd wrong Bool.false_ne_true
  cases c with
  | spoolAdd n =>
    refine h.settle rfl rfl rfl ?_ ?_ ?_ <;> dsimp only [spoolProtocol, Pack.step, overBudget] <;> split
    all_goals first
      | rfl
      | exact fun _ => rfl
      | exact id
      | exact fun above => absurd (of_decide_eq_true above) ‹_›
  | write dest piece =>
    cases dest with
    | output => exact may.elim
    | stage file =>
      obtain ⟨files, same⟩ := write_files (i + 1) w file piece x
      exact h.settle (by rw [same]) (by rw [same]) (by rw [same]) rfl id fine
  | openFile target | fstat target | readFull target _ | readExtra target _ | seek target | cancel =>
    exact h.settle rfl rfl rfl rfl id fine
  | createTemp outDir job =>
    refine h.settle ?_ ?_ ?_ rfl id fine
    all_goals
      simp only [Pack.step]
      split <;> rfl
  | close file =>
    refine h.settle ?_ ?_ ?_ rfl id fine
    all_goals
      simp only [Pack.step]
      split
      · split <;> rfl
      · rfl
  | receive =>
    have idle : stands i = .idle := may
    have clean : (stands i).refused = true → False := by
      rw [idle]
      exact Bool.false_ne_true
    simp only [Pack.step]
    cases queue : w.queue with
    | nil =>
      refine h.settle ?_ rfl rfl ?_ (fun refused => (clean refused).elim) fine
      · exact rfl
      · rw [idle]
        rfl
    | cons job rest =>
      have distinct := h.distinct
      rw [queue, List.nodup_cons] at distinct
      refine h.move (.inl (h.queued job (by rw [queue]; exact List.mem_cons_self))) rfl ?_ distinct.1
        (fun _ _ => rfl) ?_ rfl fun refused => (clean refused).elim
      · rw [queue]
        exact List.sublist_cons_self job rest
      · rintro other holds
        exact ⟨(Option.some.inj holds).symm, rfl⟩
  | ctxErr job =>
    obtain ⟨holds, clean⟩ := may
    simp only [Pack.step]
    cases cancelled : w.cancelled with
    | false => exact h.settle rfl rfl rfl rfl id fine
    | true =>
      exact h.move (.inr (h.held i job holds)) rfl (List.Sublist.refl _) (unqueued holds) (fun _ _ => rfl)
        (fun _ holds => by cases holds) rfl fun refused => absurd (clean.symm.trans refused) Bool.false_ne_true
  | store job res =>
    obtain ⟨holds, told⟩ := may
    refine h.move (.inr (h.held i job holds)) rfl (List.Sublist.refl _) (unqueued holds)
      (fun other different => update_of_ne different _ _) (fun _ holds => by cases holds) rfl
      fun refused => ⟨rfl, ?_⟩
    simp only [Pack.step, update_self]
    exact told honest refused
  | stat _ | newTracker | copyToOutput _ _ | remove _ | makeJobs | send _ | load _ | clearPath _ => exact may.elim

end

/-! ## Rounds through one tracker -/

section

variable [CaseTable] (H : Sha256) (registry : Registered) (opts : CompressionOptions) (code : Code)

/-- Rounds of staging through one tracker that was made in `w`; so far the writers asked
for `asked` bytes. -/
inductive Spooled (outDir : Bytes) (limit : Int64) (w : World) : (asked : Int) → World → Prop
  | newTracker : Spooled outDir limit w 0 { w with spool := 0 }
  | round {asked : Int} {u u' : World} {plans : List VariantWorkPlan} {dictBytes : Bytes} {workers : Nat}
      {journal : Journal (subsetWorkers plans workers)} {r : List ParallelVariantResult × Option Err}
      (past : Spooled outDir limit w asked u)
      (staged : stagePlanSubsetWith H registry opts code outDir plans dictBytes workers limit u (journal, r) u') :
      Spooled outDir limit w (asked + requested journal) u'

end

theorem spoolLimit_pos (customLimit : Int64) : 0 < (spoolLimit customLimit).toInt := by
  rw [spoolLimit]
  split
  · decide
  · omega

/-- Filling the channel stages nothing. -/
theorem dispatched_same {plans : List VariantWorkPlan} {u v : World}
    (dispatched : (dispatch plans.length).runs (step 0) u () v) : v.staged = u.staged ∧ v.spool = u.spool := by
  obtain rfl := (dispatch_leads 0 plans.length u).runs dispatched
  exact ⟨rfl, rfl⟩

theorem dispatched_debts {plans : List VariantWorkPlan} {u v : World} (limit : Int64) (workers : Nat)
    (dispatched : (dispatch plans.length).runs (step 0) u () v) :
    Debts limit plans.length (fun _ : Fin workers => .idle) v [] := by
  obtain rfl := (dispatch_leads 0 plans.length u).runs dispatched
  refine ⟨List.nodup_range, fun job mem => if_pos (List.mem_range.mp mem), nofun, fun job sent => ?_,
    fun ⟨_, mem, _⟩ => absurd mem List.not_mem_nil⟩
  by_contra beyond
  exact sent (if_neg beyond)

section

variable [CaseTable] {H : Sha256} {registry : Registered} {opts : CompressionOptions} {code : Code}
variable {outDir dictBytes : Bytes} {plans : List VariantWorkPlan} {limit : Int64} {workers : Nat}
variable {u v : World} {journal : Journal workers} {t : Pool (Fin workers) Call Call.Reply Unit World}

theorem workers_keep {reports : Prop} (honest : reports → code.Reports) :
    (spoolProtocol limit reports).Keeps
      (worker (stageJobWith H registry opts code outDir plans dictBytes limit) (plans.length + 1))
      (fun _ s => s = .idle) .idle :=
  worker_keeps (stageJobWith_keeps honest) _

/-- **The balance holds wherever a round has got to.** -/
theorem WorkersTrace.balance {base : Nat} {asked : Int}
    (trace : WorkersTrace H registry opts code outDir plans dictBytes limit v journal t)
    (before : asked < 2 ^ 63 → 0 ≤ asked ∧ v.spool.toInt = asked ∧ (v.staged : Int) ≤ base + min asked limit.toInt) :
    ∃ stands, Balance limit base asked stands t.world journal := by
  have start : Balance limit base asked (fun _ : Fin workers => .idle) v [] := by
    refine ⟨Int.le_refl _, fun below => ?_⟩
    have nothing : reserved (fun _ : Fin workers => Stand.idle) = 0 := Finset.sum_const_zero
    have none : requested ([] : Journal workers) = 0 := rfl
    obtain ⟨nonneg, counted, covered⟩ := before (by omega)
    rw [nothing, none]
    refine ⟨?_, ?_, ?_⟩ <;> omega
  obtain ⟨stands, balance, -⟩ := Trace.keeps (P := spoolProtocol limit False)
    (I := Balance limit base asked) (fun _ _ _ _ c x h may => Balance.step h c x may) start
    (fun _ => workers_keep False.elim) trace
  exact ⟨stands, balance⟩

/-- **A refused write ends as a stored error.** -/
theorem WorkersTrace.stored_error (honest : code.Reports) (dispatched : (dispatch plans.length).runs (step 0) u () v)
    (trace : WorkersTrace H registry opts code outDir plans dictBytes limit v journal t)
    (returned : ∀ i, t.threads i = .ret ()) (refused : ∃ e ∈ journal, overBudget limit e = true) :
    ∃ job < plans.length, (t.world.results job).err ≠ none := by
  obtain ⟨stands, debts, ended⟩ := Trace.keeps (P := spoolProtocol limit True)
    (I := Debts limit plans.length) (fun _ _ _ _ c x h may => Debts.step trivial h c x may)
    (dispatched_debts limit workers dispatched) (fun _ => workers_keep fun _ => honest) trace
  rcases debts.owed refused with ⟨i, owes⟩ | ⟨job, stored, err⟩
  · have idle := ended i
    rw [returned i] at idle
    rw [show stands i = .idle from idle] at owes
    exact absurd owes Bool.false_ne_true
  · exact ⟨job, debts.sent job (by simp [stored]), err⟩

/-- What is known between two rounds. -/
theorem Spooled.books {w : World} {asked : Int} (nonneg : 0 ≤ limit.toInt)
    (past : Spooled H registry opts code outDir limit w asked u) : 0 ≤ asked ∧
      (asked < 2 ^ 63 → 0 ≤ asked ∧ u.spool.toInt = asked ∧ (u.staged : Int) ≤ w.staged + min asked limit.toInt) := by
  induction past with
  | newTracker =>
    refine ⟨Int.le_refl 0, fun _ => ⟨Int.le_refl 0, rfl, ?_⟩⟩
    show (w.staged : Int) ≤ w.staged + min 0 limit.toInt
    omega
  | round past staged ih =>
    obtain ⟨_, v, dispatched, _, v', ⟨threads, trace, -⟩, _, _, gathered, same, rfl⟩ := staged
    obtain ⟨rfl, -⟩ := Prod.mk.inj same
    obtain ⟨rfl, -⟩ := (gather_leads 0 _ v').runs gathered
    obtain ⟨files, spool⟩ := dispatched_same dispatched
    obtain ⟨stands, balance⟩ := trace.balance (by rw [files, spool]; exact ih.2)
    have growing := balance.growing
    refine ⟨by omega, fun below => ?_⟩
    obtain ⟨positive, counted, covered⟩ := balance.books below
    dsimp only at counted covered
    refine ⟨by omega, counted, ?_⟩
    omega

/-- **The budget of the staging files.**  Through one tracker, over any number of rounds and
of workers, with any code behind the codecs and in every interleaving: as long as the sizes
asked for add up to less than `2^63`, what is staged stays within the limit; and where the
codecs report failed writes, a round in which a write was refused returns an error. -/
theorem stagePlanSubset_within_budget (customLimit : Int64) {w : World} {asked : Int}
    (past : Spooled H registry opts code outDir (spoolLimit customLimit) w asked u) :
    (∀ (plans : List VariantWorkPlan) (dictBytes : Bytes) (workers : Nat) (v : World) (journal : Journal workers) t,
      (dispatch plans.length).runs (step 0) u () v →
      WorkersTrace H registry opts code outDir plans dictBytes (spoolLimit customLimit) v journal t →
      asked + requested journal < 2 ^ 63 → (t.world.staged : Int) ≤ w.staged + (spoolLimit customLimit).toInt) ∧
    (code.Reports → ∀ (plans : List VariantWorkPlan) (dictBytes : Bytes) (workers : Nat) journal results err u',
      stagePlanSubsetWith H registry opts code outDir plans dictBytes workers (spoolLimit customLimit) u
        (journal, results, err) u' →
      (∃ e ∈ journal, overBudget (spoolLimit customLimit) e = true) → err ≠ none) := by
  constructor
  · intro plans dictBytes workers v journal t dispatched trace below
    obtain ⟨files, spool⟩ := dispatched_same dispatched
    have earlier := past.books (spoolLimit_pos customLimit).le
    rw [← files, ← spool] at earlier
    obtain ⟨stands, balance⟩ := trace.balance earlier.2
    obtain ⟨-, -, covered⟩ := balance.books below
    omega
  · rintro honest plans dictBytes workers journal results err u'
      ⟨_, v, dispatched, _, v', ⟨threads, trace, returned⟩, _, _, gathered, same, rfl⟩ refused none
    obtain ⟨rfl, rfl⟩ := Prod.mk.inj same
    obtain ⟨job, below, failed⟩ := trace.stored_error honest dispatched returned refused
    exact failed (((gather_leads 0 _ v').runs gathered).2.2 none job (List.mem_range.mpr below))

end

section

local instance spoolTable : CaseTable := CaseTable.ascii

def tightStart : Pool (Fin 2) Call Call.Reply Unit World :=
  ⟨fun _ => worker (stageJobWith sha256 [storing] storedOptions streamed (lit "out") twoPlans [] (spoolLimit 2)) 3,
    ((dispatch 2).runAlone (step 0) .fine { twoInputs with spool := 0 }).2⟩

/-- Two workers stage three bytes, and only two are allowed. -/
def tightPool : Pool (Fin 2) Call Call.Reply Unit World := runPool (fun i => step (i + 1)) tightStart crossed

def tightJournal : Journal 2 := runJournal (fun i : Fin 2 => step (i + 1)) tightStart [] crossed

theorem stagePlanSubset_within_budget_tight : ∃ results err u',
    stagePlanSubsetWith sha256 [storing] storedOptions streamed (lit "out") twoPlans [] 2 (spoolLimit 2)
      { twoInputs with spool := 0 } (tightJournal, results, err) u' ∧ err ≠ none ∧ tightPool.world.staged ≤ 2 := by
  have returned : ∀ i, (tightPool.threads i).returned = some () := by decide +kernel
  have refused : tightJournal.any (overBudget (spoolLimit 2)) = true := by decide +kernel
  have few : requested tightJournal = 3 := by decide +kernel
  have trace : WorkersTrace sha256 [storing] storedOptions streamed (lit "out") twoPlans [] (spoolLimit 2)
      tightStart.world tightJournal tightPool := Trace.start.schedule crossed
  have dispatched : (dispatch twoPlans.length).runs (step 0) { twoInputs with spool := 0 } () tightStart.world :=
    Prog.runs_alone (step 0) .fine (dispatch 2) _
  have staged : stagePlanSubsetWith sha256 [storing] storedOptions streamed (lit "out") twoPlans [] 2 (spoolLimit 2)
      { twoInputs with spool := 0 } (tightJournal, _) _ :=
    ⟨(), _, dispatched, tightJournal, tightPool.world,
      ⟨_, trace, fun i => Prog.eq_ret_of_returned (returned i)⟩, _, _, Prog.runs_alone (step 0) .fine _ _, rfl, rfl⟩
  have past : Spooled sha256 [storing] storedOptions streamed (lit "out") (spoolLimit 2) twoInputs 0
      { twoInputs with spool := 0 } := .newTracker
  obtain ⟨bounded, reported⟩ := stagePlanSubset_within_budget 2 past
  refine ⟨_, _, _, staged, reported streamed_reports _ _ _ _ _ _ _ staged (List.any_eq_true.mp refused), ?_⟩
  have within := bounded twoPlans [] 2 _ tightJournal tightPool dispatched trace (by rw [few]; decide)
  have before : twoInputs.staged = 0 := rfl
  have limit : (spoolLimit 2).toInt = 2 := by decide
  omega

end

end Microfat.Pack
