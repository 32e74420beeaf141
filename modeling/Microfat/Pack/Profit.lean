/-
# Microfat.Pack.Profit — a dictionary only where it pays

With profitability gating, every variant is staged without the dictionary, the
variants whose codec can use it are staged with it too, and the complete artifact
is measured for both candidates.  The smaller one is written, the one without a
dictionary when they tie.

`assembleProfitableArtifact` is a computation in phases (`Theory.Run`): programs of
the caller and two rounds of workers.  `completeArtifact` is what a candidate is: the
dictionary, the frames, the index over them and the trailer.

* `Measured.candidate`: what is measured is the length of the complete
  artifact, counted from the stub;
* `assembleProfitableArtifact_exact`: what is written is the complete artifact of the
  candidate whose measured size is the smaller one.
-/
import Microfat.Pack.Parallel
import Microfat.Format.Container

namespace Microfat.Pack

open Theory Format Codec Microarch

set_option autoImplicit false

/-! ## Writing the index -/

/-- `io.Discard`. -/
def discarding : ByteWriter Unit Err := fun _ piece => ⟨(), piece.length, none⟩

/-- A writer that keeps the pieces apart. -/
def recording : ByteWriter (List Bytes) Err := fun pieces piece => ⟨pieces ++ [piece], piece.length, none⟩

/-- Write the pieces one after the other; each has its own error text. -/
def writePieces : List String → List Bytes → Program (Option Err)
  | message :: messages, piece :: pieces => do
      match ← writeDest .output piece with
      | some err => return some (.wrap [.text message, .cause] [err])
      | none => writePieces messages pieces
  | _, _ => return none

/-- `format.WriteIndexAndTrailerWithVersion` on the output file. -/
def writeIndexToOutput (H : Sha256) (idx : Index) (currentOffset : Int64) (version : Int) :
    Program (Eval Err Index) :=
  match writeIndexAndTrailerWithVersion H recording [] idx currentOffset version with
  | .error fault => return .error fault
  | .ok (pieces, idx, _) => do
      match ← writePieces ["writing index: ", "writing trailer: "] pieces with
      | some err => return Eval.fail err
      | none => return .ok idx

def writingIndex (err : Err) : Err := .wrap [.text "writing index and trailer: ", .cause] [err]

/-! ## Measuring -/

def defaultDictionaryID : UInt32 := 0x4D464154

/-- The running offset of `measureCandidateCompleteBytes`. -/
def placeResults : Int64 → List ParallelVariantResult → List VariantEntry × Int64
  | offset, [] => ([], offset)
  | offset, res :: rest =>
    ({ res.entry with offset := offset } :: (placeResults (offset + res.entry.compressedSize) rest).1,
      (placeResults (offset + res.entry.compressedSize) rest).2)

/-- The index of a candidate, from where its dictionary starts. -/
def candidateIndex (baseIdx : Index) (stubOffset : Int64) (dictBytes dictSHAHex : Bytes)
    (variants : List VariantEntry) (formatVersion : Int) : Index :=
  if dictBytes ≠ [] then
    { baseIdx with
      version := formatVersion, dictionaryOffset := stubOffset
      dictionarySize := Int64.ofNat dictBytes.length, dictionarySHA256 := dictSHAHex
      dictionaryID := defaultDictionaryID, variants := variants }
  else
    { baseIdx with
      version := formatVersion, dictionaryOffset := 0, dictionarySize := 0, dictionarySHA256 := []
      dictionaryID := 0, variants := variants }

/-- Where the frames of a candidate start. -/
def framesStart (stubOffset : Int64) (dictBytes : Bytes) : Int64 :=
  if dictBytes ≠ [] then stubOffset + Int64.ofNat dictBytes.length else stubOffset

def measureCandidateCompleteBytes (H : Sha256) (baseIdx : Index) (stubOffset : Int64)
    (dictBytes dictSHAHex : Bytes) (results : List ParallelVariantResult) (formatVersion : Int) :
    Eval Err (Index × Int64 × Int64) := do
  let placed := placeResults (framesStart stubOffset dictBytes) results
  let cand := candidateIndex baseIdx stubOffset dictBytes dictSHAHex placed.1 formatVersion
  let (_, cand, tailBytes) ← Eval.mapError
    (fun err => .wrap [.text "measuring candidate index and trailer: ", .cause] [err])
    (writeIndexAndTrailerWithVersion H discarding () cand placed.2 formatVersion)
  return (cand, placed.2, placed.2 + Int64.ofNat tailBytes)

/-! ## Assembling -/

def maxDictProfitabilitySpoolBytes : Int64 := 2 * payloadLimit

/-- The limit of `newSpoolBudgetTracker`. -/
def spoolLimit (customLimit : Int64) : Int64 :=
  if customLimit.toInt ≤ 0 then maxDictProfitabilitySpoolBytes else customLimit

/-- The staging paths a list of results holds. -/
def recordStagedPaths (results : List ParallelVariantResult) : List StagePath :=
  results.filterMap (·.stagedPath)

def appendFrames : List ParallelVariantResult → Int64 → Program (Except Err Int64)
  | [], writeOffset => return .ok writeOffset
  | res :: rest, writeOffset => do
      match ← appendStagedVariantFrame res.stagedPath res.entry.compressedSize with
      | .error copyErr => return .error copyErr
      | .ok copied => appendFrames rest (writeOffset + copied)

/-- The frames of the chosen candidate, behind what is written of it already, and
its index. -/
def writeCandidate (H : Sha256) (results : List ParallelVariantResult) (idx : Index)
    (writeOffset finish : Int64) (formatVersion : Int) : Program (Eval Err Index) := do
  match ← appendFrames results writeOffset with
  | .error copyErr => return Eval.fail copyErr
  | .ok writeOffset =>
    if writeOffset ≠ finish then
      return Eval.fail (.about .errSizeMismatch [.text "profitability frame assembly offset ",
        .int writeOffset.toInt, .text " != expected ", .int finish.toInt])
    else
      return (← writeIndexToOutput H idx writeOffset formatVersion).mapError writingIndex

/-- Measure both candidates and write the smaller one. -/
def writeSmallerCandidate (H : Sha256) (baseIdx : Index) (stubOffset : Int64) (dictBytes dictSHAHex : Bytes)
    (noDictResults withDictResults : List ParallelVariantResult) (formatVersion : Int) :
    Program (Eval Err Index) :=
  match measureCandidateCompleteBytes H baseIdx stubOffset [] [] noDictResults formatVersion with
  | .error fault => return .error fault
  | .ok (noDictIdx, noDictEnd, noDictTotal) =>
    match measureCandidateCompleteBytes H baseIdx stubOffset dictBytes dictSHAHex withDictResults
        formatVersion with
    | .error fault => return .error fault
    | .ok (withDictIdx, withDictEnd, withDictTotal) =>
      if withDictTotal.toInt < noDictTotal.toInt then do
        match ← writeDest .output dictBytes with
        | some err =>
          return Eval.fail (.wrap [.text "writing dictionary payload: ", .cause] [err])
        | none =>
          writeCandidate H withDictResults withDictIdx
            (stubOffset + Int64.ofNat dictBytes.length) withDictEnd formatVersion
      else writeCandidate H noDictResults noDictIdx stubOffset noDictEnd formatVersion

def removePaths : List StagePath → Program Unit
  | [] => return ()
  | path :: rest => do
      remove path
      removePaths rest

section

variable [CaseTable] (H : Sha256) (registry : Registered) (opts : CompressionOptions)

/-- A round of workers, as a phase. -/
def workersPhase (stage : Nat → Program ParallelVariantResult) (jobs workers : Nat) : Run World Unit :=
  fun w _ w' => WorkersRun stage jobs workers w w'

/-- `stagePlanSubset`, on the plans of the subset. -/
def stagePlanSubset (outDir : Bytes) (plans : List VariantWorkPlan) (dictBytes : Bytes) (workers : Nat)
    (tracker : Int64) : Run World (List ParallelVariantResult × Option Err) := do
  (dispatch plans.length).runs (step 0)
  workersPhase (stageJob H registry opts dictBytes outDir plans (some tracker)) plans.length
    (max (min workers plans.length) 1)
  (gather (List.range plans.length)).runs (step 0)

/-- The positions of the plans whose codec is a `DictCodec`. -/
def dictIndices (plans : List VariantWorkPlan) : List Nat :=
  (List.range plans.length).filter fun i => (plans[i]?.map (·.codecImpl.dictMethods.isSome)).getD false

/-- The results with a dictionary: those of the subset in the place of the others. -/
def withDictResults (noDictResults dictSubset : List ParallelVariantResult) (indices : List Nat) :
    List ParallelVariantResult :=
  (indices.zip dictSubset).foldl (fun results staged => results.set staged.1 staged.2) noDictResults

/-- Both rounds, and what they created. -/
def stageCandidates (outDir : Bytes) (plans : List VariantWorkPlan) (dictBytes : Bytes) (workers : Nat)
    (tracker : Int64) :
    Run World (Except Err (List ParallelVariantResult × List ParallelVariantResult) × List StagePath) := do
  let (noDictResults, stageErr) ← stagePlanSubset H registry opts outDir plans [] workers tracker
  match stageErr with
  | some err => return (.error err, recordStagedPaths noDictResults)
  | none =>
    let indices := dictIndices plans
    if indices = [] then
      return (.ok (noDictResults, noDictResults), recordStagedPaths noDictResults)
    else
      let (dictSubset, dictErr) ← stagePlanSubset H registry opts outDir (indices.filterMap (plans[·]?))
        dictBytes (min workers indices.length) tracker
      let created := recordStagedPaths noDictResults ++ recordStagedPaths dictSubset
      match dictErr with
      | some err => return (.error err, created)
      | none => return (.ok (noDictResults, withDictResults noDictResults dictSubset indices), created)

/-- `assembleProfitableArtifact`, with as many workers as the machine allows. -/
def assembleProfitableArtifact (outDir : Bytes) (variants : List (Bytes × Bytes)) (maxSpoolBytes : Int64)
    (stubOffset : Int64) (baseIdx : Index) (dictBytes dictSHAHex : Bytes) (formatVersion : Int)
    (workers : Nat) : Run World (Eval Err Index) := do
  match ← (prepareVariantWorkPlans registry opts variants).runs (step 0) with
  | .error err => return Eval.fail err
  | .ok plans =>
    newTracker.runs (step 0)
    let (staged, created) ← stageCandidates H registry opts outDir plans dictBytes (max workers 1)
      (spoolLimit maxSpoolBytes)
    match staged with
    | .error err =>
      (removePaths created).runs (step 0)
      return Eval.fail err
    | .ok (noDictResults, dictResults) =>
      let r ← (writeSmallerCandidate H baseIdx stubOffset dictBytes dictSHAHex noDictResults dictResults
        formatVersion).runs (step 0)
      (removePaths created).runs (step 0)
      return r

end

/-! ## Staged frames -/

variable {w w' : World} {frames : List Frame} {results : List ParallelVariantResult}
    {plans : List VariantWorkPlan} {workers : Nat}

/-- The result is that frame, in a file that nobody writes to any more. -/
def StagedAs (w : World) (f : Frame) (res : ParallelVariantResult) : Prop :=
  ∃ p, res = ⟨f.entry, some p, none⟩ ∧ w.files p.file = some ⟨f.bytes, none⟩ ∧ p.file < w.nextFile

/-- Files that were closed in `w` are the same in `w'`. -/
structure FilesKept (w w' : World) : Prop where
  nextFile : w.nextFile ≤ w'.nextFile
  closed : ∀ p content, p < w.nextFile → w.files p = some ⟨content, none⟩ → w'.files p = some ⟨content, none⟩

theorem StagedAs.kept {f : Frame} {res : ParallelVariantResult} (h : StagedAs w f res)
    (kept : FilesKept w w') : StagedAs w' f res := by
  obtain ⟨p, same, found, old⟩ := h
  exact ⟨p, same, kept.closed _ _ old found, old.trans_le kept.nextFile⟩

theorem placeResults_eq (staged : List.Forall₂ (StagedAs w) frames results) (offset : Int64) :
    placeResults offset results = placeFrames offset frames := by
  induction staged generalizing offset with
  | nil => rfl
  | cons first _ ih =>
    obtain ⟨p, rfl, -, -⟩ := first
    rw [placeResults, placeFrames, ih]

theorem mapM_forall₂ {α β γ : Type} {g : α → Option β} {h : α → γ} {P : β → γ → Prop} {l : List α}
    (each : ∀ a ∈ l, ∃ b, g a = some b ∧ P b (h a)) :
    ∃ bs, l.mapM g = some bs ∧ List.Forall₂ P bs (l.map h) := by
  induction l with
  | nil => exact ⟨[], rfl, .nil⟩
  | cons a l ih =>
    obtain ⟨b, first, related⟩ := each a (by simp)
    obtain ⟨bs, rest, all⟩ := ih fun a' mem => each a' (List.mem_cons_of_mem _ mem)
    exact ⟨b :: bs, by simp [List.mapM_cons, first, rest], .cons related all⟩

theorem gather_leads (me : Nat) (jobs : List Nat) (w : World) :
    Leads (step me) (gather jobs) (fun r w' => w' = w ∧ r.1 = jobs.map w.results ∧
      (r.2 = none → ∀ job ∈ jobs, (w.results job).err = none)) w := by
  induction jobs with
  | nil => exact ⟨rfl, rfl, by simp⟩
  | cons job rest ih =>
    refine leads_look (fun _ => rfl) ?_
    rintro x _ rfl
    refine leads_seq ih ?_
    rintro ⟨results, err⟩ w' ⟨rfl, rfl, errors⟩
    refine ⟨rfl, rfl, fun none => ?_⟩
    cases failed : (w'.results job).err with
    | some e => simp [step, failed] at none
    | none =>
      rw [step, failed] at none
      exact List.forall_mem_cons.mpr ⟨failed, errors none⟩

section

variable [CaseTable] {H : Sha256} {registry : Registered} {opts : CompressionOptions}

/-- **A round without an error staged every plan of the subset.** -/
theorem stagePlanSubset_staged {outDir dictBytes : Bytes} {tracker : Int64}
    (prepared : ∀ plan ∈ plans, plan.Prepared registry opts)
    (run : stagePlanSubset H registry opts outDir plans dictBytes workers tracker w (results, none) w') :
    w'.inputs = w.inputs ∧ w'.out = w.out ∧ FilesKept w w' ∧
      ∃ frames, framesOf H registry opts dictBytes w.inputs plans = some frames ∧
        List.Forall₂ (StagedAs w') frames results := by
  obtain ⟨_, u, dispatched, _, v, ran, gathered⟩ := run
  obtain ⟨round, free, drained⟩ := stageJob_round prepared dispatched ran
  obtain ⟨rfl, rfl, errors⟩ := (gather_leads 0 _ v).runs gathered
  have fine := errors rfl
  have inv := round.inv
  refine ⟨inv.inputs, round.out, ⟨round.nextFile, round.closed⟩, ?_⟩
  rw [← planRound_frames]
  refine mapM_forall₂ fun job mem => ?_
  have below := List.mem_range.mp mem
  rcases inv.settled free (fun job below => fine job (List.mem_range.mpr below)) below with queued | stored
  · have inside := (inv.queued job).mpr queued
    rw [drained (by omega)] at inside
    cases inside
  · obtain ⟨f, p, framed, result, found, old⟩ := (inv.stored job stored (fine job mem)).framed
    exact ⟨f, framed, p, result, found, old⟩

end

/-! ## The complete artifact of a candidate -/

variable {idx : Index} {finish total : Int64} {enc : Bytes}

/-- Every entry has the size of its frame. -/
def Sized (frames : List Frame) : Prop := ∀ f ∈ frames, f.entry.compressedSize = Int64.ofNat f.bytes.length

/-- The dictionary, the frames, the index over them and the trailer. -/
def completeArtifact (H : Sha256) (baseIdx : Index) (stubOffset : Int64) (dictBytes dictSHAHex : Bytes)
    (frames : List Frame) (formatVersion : Int) : Eval Err Bytes := do
  let placed := placeFrames (framesStart stubOffset dictBytes) frames
  let (tail, _) ← writeIndexAndTrailerWithVersion H buffer []
    (candidateIndex baseIdx stubOffset dictBytes dictSHAHex placed.1 formatVersion) placed.2 formatVersion
  return dictBytes ++ frameBytes frames ++ tail

theorem placeFrames_end (sized : Sized frames) (offset : Int64) :
    (placeFrames offset frames).2 = offset + Int64.ofNat (frameBytes frames).length := by
  induction frames generalizing offset with
  | nil => simp [placeFrames, frameBytes]
  | cons f rest ih =>
    rw [placeFrames, ih fun g mem => sized g (List.mem_cons_of_mem _ mem), sized f (by simp), frameBytes,
      frameBytes, List.flatMap_cons, List.length_append, Int64.ofNat_add, Int64.add_assoc]

theorem framesStart_eq (stubOffset : Int64) (dictBytes : Bytes) :
    framesStart stubOffset dictBytes = stubOffset + Int64.ofNat dictBytes.length := by
  rw [framesStart]
  split
  · rfl
  · rename_i empty
    rw [not_not.mp empty]
    simp

variable {H : Sha256} {baseIdx : Index} {stubOffset : Int64} {dictBytes dictSHAHex : Bytes} {formatVersion : Int}

/-- What the measurement of a candidate and its writing have in common. -/
structure Measured (H : Sha256) (baseIdx : Index) (stubOffset : Int64) (dictBytes dictSHAHex : Bytes)
    (formatVersion : Int) (frames : List Frame) (idx : Index) (finish total : Int64) (enc : Bytes) : Prop where
  nonneg : 0 ≤ finish.toInt
  version : formatVersion = formatVersion2
  ends : finish = (placeFrames (framesStart stubOffset dictBytes) frames).2
  index : idx = { candidateIndex baseIdx stubOffset dictBytes dictSHAHex
    (placeFrames (framesStart stubOffset dictBytes) frames).1 formatVersion with version := formatVersion2 }
  encodes : marshalBinaryIndex idx = .ok enc
  small : enc.length ≤ maxIndexSize
  sum : total = finish + Int64.ofNat (enc.length + 56)

theorem measureCandidateCompleteBytes_measured (staged : List.Forall₂ (StagedAs w) frames results)
    (measured : measureCandidateCompleteBytes H baseIdx stubOffset dictBytes dictSHAHex results formatVersion =
      .ok (idx, finish, total)) :
    ∃ enc, Measured H baseIdx stubOffset dictBytes dictSHAHex formatVersion frames idx finish total enc := by
  rw [measureCandidateCompleteBytes, placeResults_eq staged] at measured
  obtain ⟨⟨_, cand, n⟩, wrote, done⟩ := Eval.bind_ok measured
  obtain ⟨enc, nonneg, version, encodes, small, -, rfl, rfl⟩ :=
    (writeIndexAndTrailerWithVersion_iff fun _ _ => ⟨rfl, rfl⟩).mp (Eval.mapError_eq_ok wrote)
  cases done
  exact ⟨enc, nonneg, version, rfl, rfl, encodes, small, rfl⟩

/-- Any writer that takes everything is handed the index and the trailer. -/
theorem Measured.writes {σ : Type} {write : ByteWriter σ Err}
    (takes : ∀ s piece, (write s piece).err = none ∧ (write s piece).n = piece.length)
    (m : Measured H baseIdx stubOffset dictBytes dictSHAHex formatVersion frames idx finish total enc)
    (out : σ) :
    writeIndexAndTrailerWithVersion H write out
        (candidateIndex baseIdx stubOffset dictBytes dictSHAHex
          (placeFrames (framesStart stubOffset dictBytes) frames).1 formatVersion) finish formatVersion =
      .ok ((write (write out enc).state (encodeTrailer H finish enc)).state, idx, enc.length + 56) := by
  have encodes := m.encodes
  rw [m.index] at encodes
  exact (writeIndexAndTrailerWithVersion_iff takes).mpr
    ⟨enc, m.nonneg, m.version, encodes, m.small, rfl, m.index, rfl⟩

/-- What measuring reads of a frame. -/
def Frame.result (f : Frame) : ParallelVariantResult := ⟨f.entry, none, none⟩

theorem placeResults_frames (frames : List Frame) (offset : Int64) :
    placeResults offset (frames.map Frame.result) = placeFrames offset frames := by
  induction frames generalizing offset with
  | nil => rfl
  | cons f rest ih =>
    rw [List.map_cons, placeResults, placeFrames, ih]
    rfl

/-- A candidate with its complete artifact and its measured end. -/
structure Candidate (H : Sha256) (baseIdx : Index) (stubOffset : Int64) (dictBytes dictSHAHex : Bytes)
    (formatVersion : Int) (frames : List Frame) (artifact : Bytes) (idx : Index) (total : Int64) : Prop where
  complete : completeArtifact H baseIdx stubOffset dictBytes dictSHAHex frames formatVersion = .ok artifact
  measured : ∃ finish, measureCandidateCompleteBytes H baseIdx stubOffset dictBytes dictSHAHex
    (frames.map Frame.result) formatVersion = .ok (idx, finish, total)
  size : total = stubOffset + Int64.ofNat artifact.length

/-- **The measured size of a candidate is where its complete artifact ends.** -/
theorem Measured.candidate
    (m : Measured H baseIdx stubOffset dictBytes dictSHAHex formatVersion frames idx finish total enc)
    (sized : Sized frames) :
    Candidate H baseIdx stubOffset dictBytes dictSHAHex formatVersion frames
      (dictBytes ++ frameBytes frames ++ (enc ++ encodeTrailer H finish enc)) idx total := by
  refine ⟨?_, ⟨finish, ?_⟩, ?_⟩
  · rw [completeArtifact, ← m.ends, m.writes fun _ _ => ⟨rfl, rfl⟩]
    rfl
  · rw [measureCandidateCompleteBytes, placeResults_frames, ← m.ends, m.writes fun _ _ => ⟨rfl, rfl⟩, m.sum]
    rfl
  · rw [m.sum, m.ends, placeFrames_end sized, framesStart_eq]
    simp only [List.length_append, encodeTrailer_length, Int64.ofNat_add]
    grind

theorem Candidate.toInt_total {artifact : Bytes}
    (c : Candidate H baseIdx stubOffset dictBytes dictSHAHex formatVersion frames artifact idx total)
    (nonneg : 0 ≤ stubOffset.toInt) (fits : stubOffset.toInt + artifact.length < 2 ^ 63) :
    total.toInt = stubOffset.toInt + artifact.length := by
  rw [c.size, Int64.toInt_add, Int64.toInt_ofNat_of_lt (by omega), Int.bmod_eq_of_le] <;> omega

theorem Measured.no_dictionary
    (m : Measured H baseIdx stubOffset [] [] formatVersion frames idx finish total enc) :
    idx.dictionarySize = 0 := by
  rw [m.index]
  simp [candidateIndex]

/-! ## Writing a candidate -/

section

variable (me : Nat)

/-- A write to the output appends the piece, or fails. -/
theorem writeDest_leads {α : Type} {piece : Bytes} {f : Option Err → Program α} {Q : α → World → Prop}
    (ok : Leads (step me) (f none) Q { w with out := w.out ++ piece })
    (failed : ∀ err part, Leads (step me) (f (some err)) Q { w with out := w.out ++ part }) :
    Leads (step me) (writeDest .output piece >>= f) Q w := by
  refine leads_call fun x => ?_
  cases error : x.error with
  | some err =>
    simp only [step, error, World.append, Option.getD_some]
    exact failed err _
  | none =>
    simp only [step, error, World.append]
    exact ok

theorem writePieces_leads {messages : List String} {pieces : List Bytes}
    (enough : pieces.length ≤ messages.length) (w : World) :
    Leads (step me) (writePieces messages pieces) (fun r w' => r = none → w'.out = w.out ++ pieces.flatten) w := by
  induction pieces generalizing messages w with
  | nil =>
    have ended : writePieces messages [] = .ret none := by cases messages <;> rfl
    rw [ended]
    simp
  | cons piece pieces ih =>
    cases messages with
    | nil => simp at enough
    | cons message messages =>
      refine writeDest_leads me ?_ fun err part => by simp
      refine leads_mono (ih (by simpa using enough) _) fun r w' done none => ?_
      rw [done none, List.flatten_cons, List.append_assoc]

theorem writeIndexToOutput_leads {currentOffset : Int64} (nonneg : 0 ≤ currentOffset.toInt)
    (version : formatVersion = formatVersion2) (current : idx.version = formatVersion2)
    (encodes : marshalBinaryIndex idx = .ok enc) (small : enc.length ≤ maxIndexSize) (w : World) :
    Leads (step me) (writeIndexToOutput H idx currentOffset formatVersion) (fun r w' => ∀ idx', r = .ok idx' →
      idx' = idx ∧ w'.out = w.out ++ (enc ++ encodeTrailer H currentOffset enc)) w := by
  have same : ({ idx with version := formatVersion2 } : Index) = idx := by rw [← current]
  have wrote : writeIndexAndTrailerWithVersion H recording [] idx currentOffset formatVersion = .ok (_, _, _) :=
    (writeIndexAndTrailerWithVersion_iff fun _ _ => ⟨rfl, rfl⟩).mpr
      ⟨enc, nonneg, version, by rwa [same], small, rfl, rfl, rfl⟩
  rw [writeIndexToOutput, wrote, same]
  refine leads_seq (writePieces_leads me (by simp [recording]) w) ?_
  rintro (_ | err) w' done
  · rintro _ ⟨⟩
    refine ⟨rfl, (done rfl).trans ?_⟩
    simp [recording]
  · rintro _ ⟨⟩

theorem appendFrames_leads (staged : List.Forall₂ (StagedAs w) frames results) (writeOffset : Int64) :
    Leads (step me) (appendFrames results writeOffset) (fun r w' => ∀ finish, r = .ok finish →
      w'.out = w.out ++ frameBytes frames) w := by
  induction results generalizing w writeOffset frames with
  | nil =>
    cases staged
    rintro finish ⟨⟩
    simp [frameBytes]
  | cons res rest ih =>
    obtain ⟨f, frames, ⟨p, rfl, found, -⟩, others, rfl⟩ := List.forall₂_cons_right_iff.mp staged
    refine leads_seq (appendStagedVariantFrame_leads me _ _ w) ?_
    rintro (err | copied) w' ⟨written, rfl, done⟩
    · simp
    obtain ⟨path, data, same, target, -, rfl⟩ := done copied rfl
    have bytes : written = f.bytes := by
      simp only [World.target, found] at target
      cases target
      rfl
    subst bytes
    have unmoved : List.Forall₂ (StagedAs { w with out := w.out ++ f.bytes }) frames rest := others
    refine leads_mono (ih unmoved (writeOffset + copied)) fun r w' done finish ok => ?_
    rw [done finish ok, frameBytes, frameBytes, List.flatMap_cons, List.append_assoc]

/-- **A candidate that was written is its complete artifact, behind the dictionary.** -/
theorem writeCandidate_leads (staged : List.Forall₂ (StagedAs w) frames results)
    (m : Measured H baseIdx stubOffset dictBytes dictSHAHex formatVersion frames idx finish total enc)
    (writeOffset : Int64) :
    Leads (step me) (writeCandidate H results idx writeOffset finish formatVersion) (fun r w' => ∀ idx', r = .ok idx' →
      idx' = idx ∧ w'.out = w.out ++ (frameBytes frames ++ (enc ++ encodeTrailer H finish enc))) w := by
  refine leads_seq (appendFrames_leads me staged writeOffset) ?_
  rintro (err | reached) w' appended
  · rintro _ ⟨⟩
  · have out := appended reached rfl
    dsimp only
    split
    · rintro _ ⟨⟩
    · rename_i same
      rw [not_not.mp same]
      have current : idx.version = formatVersion2 := by rw [m.index]
      refine leads_seq (writeIndexToOutput_leads me m.nonneg m.version current m.encodes m.small w') ?_
      intro r w'' wrote idx' ok
      obtain ⟨rfl, out'⟩ := wrote idx' (Eval.mapError_eq_ok ok)
      exact ⟨rfl, by rw [out', out, List.append_assoc]⟩

/-- **The smaller candidate is written.** -/
theorem writeSmallerCandidate_leads {noDictFrames dictFrames : List Frame}
    {noDictResults dictResults : List ParallelVariantResult}
    (noDict : List.Forall₂ (StagedAs w) noDictFrames noDictResults)
    (withDict : List.Forall₂ (StagedAs w) dictFrames dictResults) :
    Leads (step me) (writeSmallerCandidate H baseIdx stubOffset dictBytes dictSHAHex noDictResults dictResults
      formatVersion) (fun r w' => ∀ idx, r = .ok idx → ∃ plainIdx plainEnd plainTotal plainEnc
        dictIdx dictEnd dictTotal dictEnc,
        Measured H baseIdx stubOffset [] [] formatVersion noDictFrames plainIdx plainEnd plainTotal plainEnc ∧
        Measured H baseIdx stubOffset dictBytes dictSHAHex formatVersion dictFrames dictIdx dictEnd dictTotal
          dictEnc ∧
        if dictTotal.toInt < plainTotal.toInt then
          idx = dictIdx ∧ w'.out = w.out ++
            (dictBytes ++ frameBytes dictFrames ++ (dictEnc ++ encodeTrailer H dictEnd dictEnc))
        else
          idx = plainIdx ∧ w'.out = w.out ++
            (frameBytes noDictFrames ++ (plainEnc ++ encodeTrailer H plainEnd plainEnc))) w := by
  rw [writeSmallerCandidate]
  split
  · rintro _ ⟨⟩
  rename_i plainIdx plainEnd plainTotal measured
  obtain ⟨plainEnc, plain⟩ := measureCandidateCompleteBytes_measured noDict measured
  split
  · rintro _ ⟨⟩
  rename_i dictIdx dictEnd dictTotal measured
  obtain ⟨dictEnc, dicted⟩ := measureCandidateCompleteBytes_measured withDict measured
  split
  · rename_i smaller
    refine writeDest_leads me ?_ fun err part => by rintro _ ⟨⟩
    have unmoved : List.Forall₂ (StagedAs { w with out := w.out ++ dictBytes }) dictFrames dictResults := withDict
    refine leads_mono (writeCandidate_leads me unmoved dicted _) fun r w' wrote idx ok => ?_
    obtain ⟨rfl, out⟩ := wrote idx ok
    refine ⟨_, _, _, _, _, _, _, _, plain, dicted, ?_⟩
    rw [if_pos smaller]
    refine ⟨rfl, ?_⟩
    rw [out]
    simp only [List.append_assoc]
  · rename_i larger
    refine leads_mono (writeCandidate_leads me noDict plain _) fun r w' wrote idx ok => ?_
    obtain ⟨rfl, out⟩ := wrote idx ok
    refine ⟨_, _, _, _, _, _, _, _, plain, dicted, ?_⟩
    rw [if_neg larger]
    exact ⟨rfl, out⟩

/-! ## Both rounds together -/

theorem removePaths_leads (paths : List StagePath) (w : World) :
    Leads (step me) (removePaths paths) (fun _ w' => w'.out = w.out) w := by
  induction paths generalizing w with
  | nil => rfl
  | cons path rest ih =>
    refine leads_call fun x => leads_mono (ih _) fun _ w' same => same.trans ?_
    rw [step]
    split <;> rfl

end

def VariantWorkPlan.usesDict (plan : VariantWorkPlan) : Bool := plan.codecImpl.dictMethods.isSome

/-- The positions of the plans that use a dictionary, counted from `first`. -/
def dictIndicesFrom : Nat → List VariantWorkPlan → List Nat
  | _, [] => []
  | first, plan :: plans =>
    if plan.usesDict then first :: dictIndicesFrom (first + 1) plans else dictIndicesFrom (first + 1) plans

theorem filter_range' {q : Nat → Bool} (plans : List VariantWorkPlan) (first : Nat)
    (agree : ∀ i plan, plans[i]? = some plan → q (first + i) = plan.usesDict) :
    (List.range' first plans.length).filter q = dictIndicesFrom first plans := by
  induction plans generalizing first with
  | nil => rfl
  | cons plan plans ih =>
    have head : q first = plan.usesDict := agree 0 plan rfl
    have rest := ih (first + 1) fun i other found => by
      rw [Nat.add_assoc, Nat.add_comm 1 i]
      exact agree (i + 1) other found
    rw [List.length_cons, List.range'_succ, List.filter_cons, head, rest, dictIndicesFrom]

theorem dictIndices_eq (plans : List VariantWorkPlan) : dictIndices plans = dictIndicesFrom 0 plans := by
  rw [dictIndices, List.range_eq_range']
  refine filter_range' plans 0 fun i plan found => ?_
  rw [Nat.zero_add, found]
  rfl

theorem dictIndicesFrom_plans (before plans : List VariantWorkPlan) :
    (dictIndicesFrom before.length plans).filterMap ((before ++ plans)[·]?) =
      plans.filter VariantWorkPlan.usesDict := by
  induction plans generalizing before with
  | nil => rfl
  | cons plan plans ih =>
    have rest := ih (before ++ [plan])
    rw [List.length_append, List.length_singleton, List.append_assoc, List.singleton_append] at rest
    rw [dictIndicesFrom, List.filter_cons]
    split
    · rw [List.filterMap_cons, rest]
      simp
    · exact rest

section

variable [CaseTable] {registry : Registered} {opts : CompressionOptions}

/-- The frames of the candidate with the dictionary. -/
def dictFramesOf (H : Sha256) (registry : Registered) (opts : CompressionOptions) (dictBytes : Bytes)
    (inputs : Bytes → Input) (plans : List VariantWorkPlan) : Option (List Frame) :=
  plans.mapM fun plan => frameOf H registry opts (if plan.usesDict then dictBytes else []) inputs plan.level
    plan.cleanPath

variable {inputs : Bytes → Input}

theorem dictFramesOf_cons {plan : VariantWorkPlan} {f : Frame} {rest : List Frame}
    (frame : frameOf H registry opts (if plan.usesDict then dictBytes else []) inputs plan.level plan.cleanPath =
      some f) (more : dictFramesOf H registry opts dictBytes inputs plans = some rest) :
    dictFramesOf H registry opts dictBytes inputs (plan :: plans) = some (f :: rest) := by
  rw [dictFramesOf] at more ⊢
  simp [List.mapM_cons, frame, more]

/-- **The results with a dictionary are those of the second round where there is one.** -/
theorem withDictResults_staged {P : Frame → ParallelVariantResult → Prop} (plans : List VariantWorkPlan)
    (before noDict dicted : List ParallelVariantResult) {noDictFrames : List Frame}
    (plain : framesOf H registry opts [] inputs plans = some noDictFrames)
    (plainStaged : List.Forall₂ P noDictFrames noDict)
    (withDict : framesOf H registry opts dictBytes inputs (plans.filter VariantWorkPlan.usesDict) = some frames)
    (dictStaged : List.Forall₂ P frames dicted) :
    ∃ all results, dictFramesOf H registry opts dictBytes inputs plans = some all ∧
      withDictResults (before ++ noDict) dicted (dictIndicesFrom before.length plans) = before ++ results ∧
        List.Forall₂ P all results := by
  induction plans generalizing before noDict dicted noDictFrames frames with
  | nil =>
    cases plain
    cases plainStaged
    exact ⟨[], [], rfl, rfl, .nil⟩
  | cons plan plans ih =>
    obtain ⟨f, noDictRest, frame, plainRest, rfl⟩ := framesOf_cons.mp plain
    obtain ⟨res, noDict, here, othersStaged, rfl⟩ := List.forall₂_cons_left_iff.mp plainStaged
    by_cases uses : plan.usesDict = true
    · rw [List.filter_cons_of_pos uses] at withDict
      obtain ⟨g, rest, dictFrame, dictRest, rfl⟩ := framesOf_cons.mp withDict
      obtain ⟨res', dicted, there, restStaged, rfl⟩ := List.forall₂_cons_left_iff.mp dictStaged
      obtain ⟨all, results, candidates, replaced, staged⟩ :=
        ih (before ++ [res']) noDict dicted plainRest othersStaged dictRest restStaged
      refine ⟨g :: all, res' :: results, dictFramesOf_cons (by rw [if_pos uses]; exact dictFrame) candidates, ?_,
        .cons there staged⟩
      rw [List.length_append, List.length_singleton, List.append_assoc, List.append_assoc,
        List.singleton_append, List.singleton_append] at replaced
      rw [← replaced, dictIndicesFrom, if_pos uses, withDictResults, withDictResults, List.zip_cons_cons,
        List.foldl_cons]
      simp
    · rw [List.filter_cons_of_neg uses] at withDict
      obtain ⟨all, results, candidates, replaced, staged⟩ :=
        ih (before ++ [res]) noDict dicted plainRest othersStaged withDict dictStaged
      refine ⟨f :: all, res :: results, dictFramesOf_cons (by rw [if_neg uses]; exact frame) candidates, ?_,
        .cons here staged⟩
      rw [List.length_append, List.length_singleton, List.append_assoc, List.append_assoc,
        List.singleton_append, List.singleton_append] at replaced
      rw [← replaced, dictIndicesFrom, if_neg uses]

theorem sized_of_mapM {dict : VariantWorkPlan → Bytes}
    (all : plans.mapM (fun plan => frameOf H registry opts (dict plan) inputs plan.level plan.cleanPath) =
      some frames) : Sized frames := by
  induction plans generalizing frames with
  | nil =>
    cases all
    simp [Sized]
  | cons plan plans ih =>
    simp only [List.mapM_cons, Option.bind_eq_bind, Option.bind_eq_some_iff] at all
    obtain ⟨f, frame, rest, more, same⟩ := all
    cases same
    exact List.forall_mem_cons.mpr ⟨frameOf_size frame, ih more⟩

/-- **Two rounds without an error staged the frames of both candidates.** -/
theorem stageCandidates_staged {outDir : Bytes} {tracker : Int64}
    {noDict dicted : List ParallelVariantResult} {created : List StagePath}
    (prepared : ∀ plan ∈ plans, plan.Prepared registry opts)
    (run : stageCandidates H registry opts outDir plans dictBytes workers tracker w
      (.ok (noDict, dicted), created) w') :
    w'.inputs = w.inputs ∧ w'.out = w.out ∧ ∃ plain frames,
      framesOf H registry opts [] w.inputs plans = some plain ∧
      dictFramesOf H registry opts dictBytes w.inputs plans = some frames ∧
      List.Forall₂ (StagedAs w') plain noDict ∧ List.Forall₂ (StagedAs w') frames dicted := by
  obtain ⟨⟨results, stageErr⟩, u, first, rest⟩ := run
  have subset : (dictIndices plans).filterMap (plans[·]?) = plans.filter VariantWorkPlan.usesDict := by
    rw [dictIndices_eq]
    exact dictIndicesFrom_plans [] plans
  cases stageErr with
  | some err => exact absurd (Run.pure_iff.mp rest).1 (by simp)
  | none =>
    obtain ⟨inputs, out, kept, plain, framed, staged⟩ := stagePlanSubset_staged prepared first
    dsimp only at rest
    split at rest
    · -- no codec can use the dictionary: both candidates have the same frames
      rename_i unused
      obtain ⟨same, rfl⟩ := Run.pure_iff.mp rest
      obtain ⟨rfl, rfl⟩ := Prod.mk.inj (Except.ok.inj (Prod.mk.inj same).1)
      have none : framesOf H registry opts dictBytes w.inputs (plans.filter VariantWorkPlan.usesDict) = some [] := by
        rw [← subset, unused]
        rfl
      obtain ⟨frames, merged, candidates, replaced, dictStaged⟩ :=
        withDictResults_staged plans [] _ [] framed staged none .nil
      rw [List.nil_append, List.nil_append, withDictResults, List.zip_nil_right, List.foldl_nil] at replaced
      rw [← replaced] at dictStaged
      exact ⟨inputs, out, plain, frames, framed, candidates, staged, dictStaged⟩
    · obtain ⟨⟨dictSubset, dictErr⟩, v, second, rest⟩ := rest
      cases dictErr with
      | some err => exact absurd (Run.pure_iff.mp rest).1 (by simp)
      | none =>
        obtain ⟨same, rfl⟩ := Run.pure_iff.mp rest
        obtain ⟨rfl, rfl⟩ := Prod.mk.inj (Except.ok.inj (Prod.mk.inj same).1)
        rw [subset] at second
        obtain ⟨inputs', out', kept', dictFrames, dictFramed, dictStaged⟩ :=
          stagePlanSubset_staged (fun plan mem => prepared plan (List.mem_of_mem_filter mem)) second
        rw [inputs] at dictFramed
        have stagedStill := staged.imp fun _ _ h => StagedAs.kept h kept'
        obtain ⟨frames, merged, candidates, replaced, all⟩ :=
          withDictResults_staged plans [] _ dictSubset framed stagedStill dictFramed dictStaged
        rw [List.nil_append, List.nil_append, List.length_nil, ← dictIndices_eq] at replaced
        rw [replaced]
        exact ⟨inputs'.trans inputs, out'.trans out, plain, frames, framed, candidates, stagedStill, all⟩

/-- **What is written is the smaller complete artifact.**  The sizes that are compared
are `int64`; where the ends of both candidates are representable, the written one is
the shortest, and there is a dictionary only where it is strictly shorter. -/
theorem assembleProfitableArtifact_exact {outDir : Bytes} {variants : List (Bytes × Bytes)}
    {maxSpoolBytes : Int64} {workers : Nat} {w w' : World} {idx : Index}
    (run : assembleProfitableArtifact H registry opts outDir variants maxSpoolBytes stubOffset baseIdx dictBytes
      dictSHAHex formatVersion workers w (.ok idx) w') :
    ∃ plans plain dicted noDict withDict noDictIdx withDictIdx noDictTotal withDictTotal,
      List.Forall₂ (VariantWorkPlan.For registry opts) variants plans ∧
      framesOf H registry opts [] w.inputs plans = some plain ∧
      dictFramesOf H registry opts dictBytes w.inputs plans = some dicted ∧
      Candidate H baseIdx stubOffset [] [] formatVersion plain noDict noDictIdx noDictTotal ∧
      Candidate H baseIdx stubOffset dictBytes dictSHAHex formatVersion dicted withDict withDictIdx withDictTotal ∧
      (if withDictTotal.toInt < noDictTotal.toInt then idx = withDictIdx ∧ w'.out = w.out ++ withDict
        else idx = noDictIdx ∧ idx.dictionarySize = 0 ∧ w'.out = w.out ++ noDict) ∧
      (0 ≤ stubOffset.toInt → stubOffset.toInt + noDict.length < 2 ^ 63 →
        stubOffset.toInt + withDict.length < 2 ^ 63 →
          w'.out.length = w.out.length + min withDict.length noDict.length ∧
            (idx.dictionarySize ≠ 0 → withDict.length < noDict.length)) := by
  obtain ⟨_, w₁, preparing, rest⟩ := run
  obtain ⟨rfl, planned⟩ := (prepareVariantWorkPlans_leads 0 variants w).runs preparing
  split at rest
  · exact absurd (Run.pure_iff.mp rest).1 (by simp [Eval.fail])
  rename_i plans
  have plansFor := planned plans rfl
  obtain ⟨_, u, tracking, ⟨staged, created⟩, v, staging, rest⟩ := rest
  have fresh : u.inputs = w₁.inputs ∧ u.out = w₁.out :=
    (leads_cmd.mpr fun _ => ⟨rfl, rfl⟩ : Leads (step 0) newTracker
      (fun _ u => u.inputs = w₁.inputs ∧ u.out = w₁.out) w₁).runs tracking
  cases staged with
  | error err =>
    obtain ⟨_, _, _, rest⟩ := rest
    exact absurd (Run.pure_iff.mp rest).1 (by simp [Eval.fail])
  | ok results =>
    obtain ⟨_, x, writing, _, y, removing, rest⟩ := rest
    obtain ⟨rfl, rfl⟩ := Run.pure_iff.mp rest
    obtain ⟨inputs, out, plain, dicted, plainFrames, dictFrames, plainStaged, dictStaged⟩ :=
      stageCandidates_staged (VariantWorkPlan.prepared_of_for plansFor) staging
    rw [fresh.1] at plainFrames dictFrames
    obtain ⟨plainIdx, plainEnd, plainTotal, plainEnc, dictIdx, dictEnd, dictTotal, dictEnc, plainMeasured,
      dictMeasured, chosen⟩ := (writeSmallerCandidate_leads 0 plainStaged dictStaged).runs writing idx rfl
    rw [← (removePaths_leads 0 created x).runs removing, out, fresh.2] at chosen
    have plainCandidate := plainMeasured.candidate (sized_of_mapM plainFrames)
    have dictCandidate := dictMeasured.candidate (sized_of_mapM dictFrames)
    refine ⟨plans, plain, dicted, _, _, plainIdx, dictIdx, plainTotal, dictTotal, plansFor, plainFrames, dictFrames,
      plainCandidate, dictCandidate, ?_, fun nonneg plainFits dictFits => ?_⟩
    · split at chosen
      · rwa [if_pos ‹_›]
      · rw [if_neg ‹_›]
        obtain ⟨rfl, wrote⟩ := chosen
        exact ⟨rfl, plainMeasured.no_dictionary, wrote⟩
    · have plainSize := plainCandidate.toInt_total nonneg plainFits
      have dictSize := dictCandidate.toInt_total nonneg dictFits
      split at chosen
      · obtain ⟨rfl, wrote⟩ := chosen
        rw [wrote, List.length_append]
        omega
      · obtain ⟨rfl, wrote⟩ := chosen
        rw [List.nil_append] at plainSize ⊢
        rw [wrote, List.length_append]
        refine ⟨?_, fun embedded => absurd plainMeasured.no_dictionary embedded⟩
        omega

end

/-- A schedule to the end of every worker is a round. -/
theorem workersRun_runPool {stage : Nat → Program ParallelVariantResult} {jobs : Nat} {u : World}
    {schedule : List (Fin workers × Choice)}
    (returned : ∀ i, ((runPool (fun i : Fin workers => step (i + 1)) ⟨fun _ => worker stage (jobs + 1), u⟩ schedule).threads
      i).returned = some ()) :
    WorkersRun stage jobs workers u
      (runPool (fun i : Fin workers => step (i + 1)) ⟨fun _ => worker stage (jobs + 1), u⟩ schedule).world :=
  ⟨_, runPool_run _ schedule, fun i => Prog.eq_ret_of_returned (returned i)⟩

theorem gather_one (fine : (w.results 0).err = none) :
    (gather [0]).runs (step 0) w ([w.results 0], none) w := by
  refine ⟨[.fine], ?_⟩
  show some (([w.results 0], (w.results 0).err.orElse fun _ => none), w) = _
  rw [fine]
  rfl

/-- A codec that knows its one payload by the dictionary. -/
def recalling : Impl where
  name := algorithmZstd
  compress src _ := ⟨[src], none⟩
  decompress frame _ := .ok frame
  dictMethods := some ⟨fun _ _ _ => ⟨[lit "!"], none⟩, fun _ _ dict => .ok dict⟩

def recallingOptions : CompressionOptions := ⟨[], algorithmZstd, lit "3", []⟩

def longInput : World :=
  { twoInputs with inputs := fun _ => .regular (List.replicate 100 0x41) }

def amd64Index : Index := ⟨2, lit "app", lit "linux", lit "amd64", 0, 0, 0, [], 0, []⟩

section

local instance profitTable : CaseTable := CaseTable.ascii

/-- One worker stages the only plan. -/
def soloPool (dictBytes : Bytes) (plans : List VariantWorkPlan) (w : World) :
    Pool (Fin 1) Call Call.Reply Unit World :=
  runPool (fun i => step (i + 1))
    ⟨fun _ => worker (stageJob sha256 [recalling] recallingOptions dictBytes (lit "out") plans
      (some (spoolLimit 0))) (plans.length + 1), ((dispatch plans.length).runAlone (step 0) .fine w).2⟩
    (List.replicate 60 (0, .fine))

theorem soloPool_run {dictBytes : Bytes} {plan : VariantWorkPlan}
    (returned : ((soloPool dictBytes [plan] w).threads 0).returned = some ())
    (fine : ((soloPool dictBytes [plan] w).world.results 0).err = none) :
    stagePlanSubset sha256 [recalling] recallingOptions (lit "out") [plan] dictBytes 1 (spoolLimit 0) w
      ([(soloPool dictBytes [plan] w).world.results 0], none) (soloPool dictBytes [plan] w).world := by
  refine ⟨(), _, Prog.runs_alone (step 0) .fine _ w, (), (soloPool dictBytes [plan] w).world, ?_, gather_one fine⟩
  refine workersRun_runPool fun i => ?_
  rw [Fin.fin_one_eq_zero i]
  exact returned

def recalledPlan : VariantWorkPlan := ⟨lit "v1", lit "v1", lit "a", 100, recalling, lit "3"⟩

def tracked : World := { longInput with spool := 0 }

def plainPool : Pool (Fin 1) Call Call.Reply Unit World := soloPool [] [recalledPlan] tracked

def dictPool : Pool (Fin 1) Call Call.Reply Unit World := soloPool (lit "d") [recalledPlan] plainPool.world

def recalled : Eval Err Index × World :=
  (writeSmallerCandidate sha256 amd64Index 4 (lit "d") (hexEncode (sha256.sum (lit "d")))
    [plainPool.world.results 0] [dictPool.world.results 0] 2).runAlone (step 0) .fine dictPool.world

theorem assembleProfitableArtifact_exact_recalled : ∃ idx w',
    assembleProfitableArtifact sha256 [recalling] recallingOptions (lit "out") [(lit "v1", lit "a")] 0 4 amd64Index
      (lit "d") (hexEncode (sha256.sum (lit "d"))) 2 1 longInput (.ok idx) w' ∧ idx.dictionarySize = 1 ∧
    ∃ dicted withDict withDictIdx withDictTotal,
      Candidate sha256 amd64Index 4 (lit "d") (hexEncode (sha256.sum (lit "d"))) 2 dicted withDict withDictIdx
        withDictTotal ∧ w'.out = lit "stub" ++ withDict := by
  have plainReturned : (plainPool.threads 0).returned = some () := by decide +kernel
  have dictReturned : (dictPool.threads 0).returned = some () := by decide +kernel
  have plainFine : (plainPool.world.results 0).err = none := by decide +kernel
  have dictFine : (dictPool.world.results 0).err = none := by decide +kernel
  have ended : recalled.1.toOption.any (fun idx => decide (idx.dictionarySize = 1)) = true := by decide +kernel
  obtain ⟨idx, found, size⟩ := (Option.any_eq_true _ _).mp ended
  have ok : recalled.1 = .ok idx := by
    cases result : recalled.1 with
    | error fault => rw [result] at found; cases found
    | ok other => rw [result] at found; exact congrArg _ (Option.some.inj found)
  have size := of_decide_eq_true size
  have staged : stageCandidates sha256 [recalling] recallingOptions (lit "out") [recalledPlan] (lit "d") 1
      (spoolLimit 0) tracked (.ok ([plainPool.world.results 0], [dictPool.world.results 0]), _) dictPool.world :=
    ⟨_, _, soloPool_run plainReturned plainFine, _, _, soloPool_run dictReturned dictFine, rfl, rfl⟩
  have wrote : (writeSmallerCandidate sha256 amd64Index 4 (lit "d") (hexEncode (sha256.sum (lit "d")))
      [plainPool.world.results 0] [dictPool.world.results 0] 2).runs (step 0) dictPool.world (.ok idx) recalled.2 := by
    rw [← ok]
    exact Prog.runs_alone _ _ _ _
  have planned : (prepareVariantWorkPlans [recalling] recallingOptions [(lit "v1", lit "a")]).runs (step 0) longInput
      (.ok [recalledPlan]) longInput := ⟨[.fine], rfl⟩
  obtain ⟨w', run⟩ : ∃ w', assembleProfitableArtifact sha256 [recalling] recallingOptions (lit "out")
      [(lit "v1", lit "a")] 0 4 amd64Index (lit "d") (hexEncode (sha256.sum (lit "d"))) 2 1 longInput (.ok idx) w' :=
    ⟨_, _, _, planned, (), tracked, ⟨[.fine], rfl⟩, _, _, staged, _, _, wrote, (), _,
      Prog.runs_alone _ .fine _ _, rfl, rfl⟩
  refine ⟨idx, w', run, size, ?_⟩
  obtain ⟨_, _, dicted, _, withDict, _, withDictIdx, _, withDictTotal, -, -, -, -, candidate, chosen, -⟩ :=
    assembleProfitableArtifact_exact run
  split at chosen
  · exact ⟨dicted, withDict, withDictIdx, withDictTotal, candidate, chosen.2⟩
  · rw [chosen.2.1] at size
    exact absurd size (by decide)

end

end Microfat.Pack
