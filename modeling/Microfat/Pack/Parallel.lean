/-
# Microfat.Pack.Parallel — parallel packing refines sequential packing

`writeVariantPayloadsParallel_refines`: in every interleaving of any number of
workers, with any failures,

* success means that each plan was staged exactly once, and that the appended bytes
  and the returned entries are those of the sequential path on the same plans;
* when a plan failed, or was skipped because the round was cancelled, an error is
  returned and nothing was appended.

The workers are the subject of `Pack.Workers`; here is what the caller does with
their results.  The offset a run starts at is the end of the output, which both
callers of `writeAllVariantPayloads` maintain.
-/
import Microfat.Pack.Workers
import Microfat.Theory.Sha256

namespace Microfat.Pack

open Theory Format Codec Microarch

set_option autoImplicit false

/-! ## Appending a staging file -/

/-- A copy limited to one byte more than expected is complete when it has the
expected length. -/
theorem limited_whole {data : Bytes} {expected : Int64}
    (copied : Int64.ofNat (data.take (expected + 1).toInt.toNat).length = expected) :
    data.take (expected + 1).toInt.toNat = data := by
  by_cases short : data.length ≤ (expected + 1).toInt.toNat
  · exact List.take_of_length_le short
  · exfalso
    rw [List.length_take, Nat.min_eq_left (by omega)] at copied
    have below := Int64.toInt_lt (expected + 1)
    have value := congrArg Int64.toInt copied
    rw [Int64.toInt_ofNat_of_lt (by omega)] at value
    have next : (expected + 1).toInt = (expected.toInt + 1).bmod (2 ^ 64) := Int64.toInt_add expected 1
    have low := Int64.le_toInt expected
    have high := Int64.toInt_lt expected
    rw [Int.bmod_def] at next
    split at next <;> omega

section

variable (me : Nat)

theorem appendStagedVariantFrame_leads (stagedPath : Option StagePath) (expected : Int64) (w : World) :
    Leads (step me) (appendStagedVariantFrame stagedPath expected) (fun r w' => ∃ written,
      w' = { w with out := w.out ++ written } ∧ ∀ copied, r = .ok copied → ∃ path data,
        stagedPath = some path ∧ w.target (.staged stagedPath) = .regular data ∧ copied = expected ∧
          written = data) w := by
  refine leads_seq (openRegular_leads me (.staged stagedPath) w) ?_
  rintro (_ | err) w' ⟨rfl, opened⟩
  rotate_left
  · exact ⟨[], by simp, by simp⟩
  obtain ⟨data, found, -⟩ := opened rfl
  refine leads_call fun x => ?_
  cases failed : x.error with
  | some err =>
    simp only [step, failed]
    exact ⟨_, rfl, by simp⟩
  | none =>
    simp only [step, failed, found, Input.content]
    split
    · exact ⟨_, rfl, by simp⟩
    · rename_i complete
      refine ⟨_, rfl, ?_⟩
      rintro _ ⟨⟩
      have same := not_not.mp complete
      cases stagedPath with
      | none => simp [World.target] at found
      | some path => exact ⟨path, data, rfl, rfl, same, limited_whole same⟩

/-! ## Collecting the results -/

/-- The result of a job as the caller finds it: the frame of the job, in a file that
may have been removed since. -/
def Collectable (R : Round) (job : Nat) (w : World) : Prop :=
  ∃ f p, R.frame job = some f ∧ w.results job = ⟨f.entry, some p, none⟩ ∧
    ∀ file, w.files p.file = some file → file.content = f.bytes

theorem firstError_leads (jobs : List Nat) (w : World) :
    Leads (step me) (firstError jobs) (fun r w' => w' = w ∧
      (r = none ↔ ∀ job ∈ jobs, (w.results job).err = none)) w := by
  induction jobs with
  | nil => exact ⟨rfl, by simp⟩
  | cons job rest ih =>
    refine leads_look (fun _ => rfl) ?_
    rintro x _ rfl
    simp only [step]
    cases failed : (w.results job).err with
    | some err => exact ⟨rfl, by simp [failed]⟩
    | none =>
      refine leads_mono ih ?_
      rintro r w' ⟨rfl, iff⟩
      exact ⟨rfl, by rw [iff, List.forall_mem_cons, failed, eq_self, true_and]⟩

/-- **Appending the results in order appends the frames of their jobs.** -/
theorem appendResults_leads {R : Round} {jobs : List Nat} (distinct : jobs.Nodup) {offset : Int64} {w : World}
    (known : ∀ job ∈ jobs, w.results job = .zero ∨ Collectable R job w) :
    Leads (step me) (appendResults jobs offset) (fun r w' => ∀ entries finish, r = .ok (entries, finish) →
      (∀ job ∈ jobs, w.results job ≠ .zero) ∧ ∃ frames, jobs.mapM R.frame = some frames ∧
        w'.out = w.out ++ frameBytes frames ∧ (entries, finish) = placeFrames offset frames) w := by
  induction jobs generalizing w offset with
  | nil =>
    rintro entries finish ⟨⟩
    exact ⟨by simp, [], rfl, by simp [frameBytes], rfl⟩
  | cons job rest ih =>
    rw [List.nodup_cons] at distinct
    refine leads_look (fun _ => rfl) ?_
    rintro x _ rfl
    simp only [step]
    refine leads_seq (appendStagedVariantFrame_leads me _ _ w) ?_
    rintro (err | copied) w' ⟨written, rfl, done⟩
    · simp
    obtain ⟨path, data, staged, found, rfl, rfl⟩ := done copied rfl
    -- the path is not empty, so the result is that of a staged job
    obtain ⟨f, p, framed, result, content⟩ := (known job (by simp)).resolve_left fun zero => by
      rw [zero] at staged
      cases staged
    rw [result] at staged found ⊢
    cases staged
    have bytes : written = f.bytes := by
      simp only [World.target] at found
      split at found
      · cases found
      · rename_i file there
        cases found
        exact content file there
    subst bytes
    refine leads_call fun y => leads_call fun z => ?_
    generalize after : (step me _ (.clearPath job) z).1 = u
    have out : u.out = w.out ++ f.bytes := by
      rw [← after]
      simp only [step]
      split <;> rfl
    have later : ∀ other ∈ rest, u.results other = w.results other := by
      intro other mem
      have different : other ≠ job := by
        rintro rfl
        exact distinct.1 mem
      rw [← after]
      simp only [step, Function.update_of_ne different]
      split <;> rfl
    have files : ∀ q file, u.files q = some file → w.files q = some file := by
      intro q file
      rw [← after]
      simp only [step]
      split
      · exact id
      · intro there
        by_cases same : q = path.file
        · simp [World.setFile, same] at there
        · simpa [World.setFile, Function.update_of_ne same] using there
    refine leads_seq (ih distinct.2 fun other mem => ?_) ?_
    · rw [later other mem]
      refine (known other (List.mem_cons_of_mem _ mem)).imp_right ?_
      rintro ⟨f', p', framed', result', content'⟩
      exact ⟨f', p', framed', (later other mem).trans result', fun file there =>
        content' file (files _ _ there)⟩
    rintro (err | ⟨entries, finish⟩) w'' done
    · simp
    obtain ⟨staged, frames, more, out', placed⟩ := done entries finish rfl
    rintro _ _ ⟨⟩
    refine ⟨List.forall_mem_cons.mpr ⟨?_, fun other mem => later other mem ▸ staged other mem⟩,
      f :: frames, ?_, ?_, ?_⟩
    · rw [result]
      simp [ParallelVariantResult.zero]
    · simp [List.mapM_cons, framed, more]
    · rw [out', out, frameBytes, frameBytes, List.flatMap_cons, List.append_assoc]
    · rw [placeFrames, ← placed]

/-- What collecting never changes. -/
structure Kept (w w' : World) : Prop where
  fate : w'.fate = w.fate
  stagings : w'.stagings = w.stagings
  errors : ∀ job, (w'.results job).err = (w.results job).err

/-- The calls of the caller after `wg.Wait()`. -/
def Call.Collects : Call → Prop
  | .openFile _ | .fstat _ | .copyToOutput _ _ | .remove _ | .load _ | .clearPath _ | .cancel => True
  | _ => False

/-- Those of them that do not write to the output. -/
def Call.Cleans : Call → Prop
  | .remove _ | .load _ | .cancel => True
  | _ => False

theorem step_collects (w : World) (c : Call) (x : Choice) (collects : c.Collects) :
    Kept w (step me w c x).1 := by
  cases c with
  | openFile _ | fstat _ | load _ | cancel => exact ⟨rfl, rfl, fun _ => rfl⟩
  | copyToOutput _ _ | remove _ =>
    simp only [step]
    split <;> exact ⟨rfl, rfl, fun _ => rfl⟩
  | clearPath job =>
    refine ⟨rfl, rfl, fun other => ?_⟩
    by_cases same : other = job
    · simp [step, same]
    · simp [step, Function.update_of_ne same]
  | _ => cases collects

theorem step_cleans (w : World) (c : Call) (x : Choice) (cleans : c.Cleans) :
    (step me w c x).1.out = w.out := by
  cases c with
  | load _ | cancel => rfl
  | remove _ =>
    simp only [step]
    split <;> rfl
  | _ => cases cleans

end

theorem removeRecorded_uses (jobs : List Nat) : (removeRecorded jobs).Uses Call.Cleans := by
  induction jobs with
  | nil => exact trivial
  | cons job rest ih =>
    refine Prog.obeys_call trivial fun result => Prog.uses_bind ?_ fun _ => ih
    rw [removeStaged.eq_def]
    split
    · exact ⟨trivial, fun _ => trivial⟩
    · exact trivial

theorem collect_uses (jobs : Nat) (currentOffset : Int64) : (collect jobs currentOffset).Uses Call.Collects := by
  have opened : ∀ target, (openRegular target).Uses Call.Collects := by
    intro target
    refine Prog.obeys_call trivial ?_
    rintro (_ | err)
    · refine Prog.obeys_call trivial ?_
      rintro (err | stat)
      · exact trivial
      · dsimp only
        split <;> exact trivial
    · exact trivial
  have errors : ∀ l, (firstError l).Uses Call.Collects := by
    intro l
    induction l with
    | nil => exact trivial
    | cons job rest ih =>
      refine Prog.obeys_call trivial fun result => ?_
      split
      · exact trivial
      · exact ih
  have appends : ∀ l offset, (appendResults l offset).Uses Call.Collects := by
    intro l
    induction l with
    | nil => exact fun _ => trivial
    | cons job rest ih =>
      intro offset
      refine Prog.obeys_call trivial fun result => Prog.uses_bind (Prog.uses_bind (opened _) ?_) ?_
      · rintro (_ | err)
        · refine Prog.obeys_call trivial ?_
          rintro (err | copied)
          · exact trivial
          · dsimp only
            split <;> exact trivial
        · exact trivial
      · rintro (err | copied)
        · exact trivial
        · refine Prog.uses_bind ?_ fun _ => Prog.obeys_call trivial fun _ => Prog.uses_bind (ih _) ?_
          · rw [removeStaged.eq_def]
            split
            · exact ⟨trivial, fun _ => trivial⟩
            · exact trivial
          · rintro (err | done) <;> exact trivial
  refine Prog.uses_bind (Prog.uses_bind (errors _) ?_) fun r => Prog.obeys_call trivial fun _ =>
    Prog.uses_bind ((removeRecorded_uses _).mono ?_) fun _ => trivial
  · rintro (_ | err)
    · exact appends _ _
    · exact trivial
  · intro c cleans
    cases c <;> first | exact trivial | cases cleans

theorem collect_kept (me jobs : Nat) (currentOffset : Int64) (w : World) :
    Leads (step me) (collect jobs currentOffset) (fun _ w' => Kept w w') w :=
  leads_uses (fun _ => ⟨rfl, rfl, fun _ => rfl⟩)
    (fun _ _ _ first second => ⟨second.fate.trans first.fate, second.stagings.trans first.stagings,
      fun job => (second.errors job).trans (first.errors job)⟩)
    (step_collects me) (collect_uses jobs currentOffset) w

/-- The clean-up leaves result and output alone. -/
theorem finish_leads {α : Type} (me jobs : Nat) (r : α) (w : World) :
    Leads (step me) (do cancel; removeRecorded (List.range jobs); return r)
      (fun r' w' => r' = r ∧ w'.out = w.out) w := by
  refine leads_call fun _ => ?_
  have removed : ∀ w, Leads (step me) (removeRecorded (List.range jobs)) (fun _ w' => w'.out = w.out) w :=
    leads_uses (T := fun (w w' : World) => w'.out = w.out) (fun _ => rfl)
      (fun _ _ _ first second => second.trans first) (step_cleans me) (removeRecorded_uses _)
  exact leads_seq (removed _) fun _ _ same => ⟨rfl, same⟩

/-- A recorded error is returned before anything is appended. -/
theorem collect_failed (me : Nat) {jobs job : Nat} (currentOffset : Int64) {w : World} (below : job < jobs)
    (failed : (w.results job).err ≠ none) :
    Leads (step me) (collect jobs currentOffset)
      (fun r w' => (∃ err, r = .error err) ∧ w'.out = w.out) w := by
  refine leads_seq (P := fun r w' => (∃ err, r = .error err) ∧ w'.out = w.out) ?_ ?_
  · refine leads_seq (firstError_leads me _ w) ?_
    rintro (_ | err) w' ⟨rfl, iff⟩
    · exact absurd (iff.mp rfl job (List.mem_range.mpr below)) failed
    · exact ⟨⟨err, rfl⟩, rfl⟩
  · rintro r w' ⟨error, out⟩
    refine leads_mono (finish_leads me jobs r w') ?_
    rintro _ w'' ⟨rfl, same⟩
    exact ⟨error, same.trans out⟩

/-- With no recorded error the results are appended. -/
theorem collect_appends {R : Round} (me : Nat) {jobs : Nat} (currentOffset : Int64) {w : World}
    (known : ∀ job < jobs, w.results job = .zero ∨ Collectable R job w) :
    Leads (step me) (collect jobs currentOffset) (fun r w' => ∀ entries finish, r = .ok (entries, finish) →
      (∀ job < jobs, w.results job ≠ .zero) ∧ ∃ frames, (List.range jobs).mapM R.frame = some frames ∧
        w'.out = w.out ++ frameBytes frames ∧ (entries, finish) = placeFrames currentOffset frames) w := by
  simp only [← List.mem_range] at known ⊢
  refine leads_seq (P := fun r w' => ∀ entries finish, r = .ok (entries, finish) →
    (∀ job ∈ List.range jobs, w.results job ≠ .zero) ∧ ∃ frames,
      (List.range jobs).mapM R.frame = some frames ∧ w'.out = w.out ++ frameBytes frames ∧
        (entries, finish) = placeFrames currentOffset frames) ?_ ?_
  · refine leads_seq (firstError_leads me _ w) ?_
    rintro (_ | err) w' ⟨rfl, -⟩
    · exact appendResults_leads me List.nodup_range known
    · simp
  · intro r w' done
    refine leads_mono (finish_leads me jobs r w') ?_
    rintro _ w'' ⟨rfl, same⟩
    rw [same]
    exact done

/-! ## The refinement -/

/-- Jobs counted from `first` are the plans in order. -/
theorem mapM_range' {α β : Type} {g : α → Option β} {h : Nat → Option β} (plans : List α) (first : Nat)
    (agree : ∀ i plan, plans[i]? = some plan → h (first + i) = g plan) :
    (List.range' first plans.length).mapM h = plans.mapM g := by
  induction plans generalizing first with
  | nil => rfl
  | cons plan plans ih =>
    have head := agree 0 plan rfl
    have rest := ih (first + 1) fun i other found => by
      rw [Nat.add_assoc, Nat.add_comm 1 i]
      exact agree (i + 1) other found
    rw [List.length_cons, List.range'_succ, List.mapM_cons, List.mapM_cons, rest]
    rw [Nat.add_zero] at head
    rw [head]

section

variable [CaseTable] (H : Sha256) (registry : Registered) (opts : CompressionOptions) (dictBytes : Bytes)

/-- The round of staging these plans. -/
def planRound (inputs : Bytes → Input) (plans : List VariantWorkPlan) : Round where
  jobs := plans.length
  frame job := plans[job]?.bind fun plan => frameOf H registry opts dictBytes inputs plan.level plan.cleanPath
  inputs := inputs

theorem planRound_frames (inputs : Bytes → Input) (plans : List VariantWorkPlan) :
    (List.range plans.length).mapM (planRound H registry opts dictBytes inputs plans).frame =
      framesOf H registry opts dictBytes inputs plans := by
  rw [List.range_eq_range']
  refine mapM_range' plans 0 fun i plan found => ?_
  simp only [planRound, Nat.zero_add, found, Option.bind_some]

variable {H registry opts dictBytes}

/-- **A round that staged the plans**: between the start of the workers and the moment
all of them have returned, whatever the interleaving. -/
theorem stageJob_round {outDir : Bytes} {plans : List VariantWorkPlan} {tracker : Option Int64} {workers : Nat}
    {w u v : World} (prepared : ∀ plan ∈ plans, plan.Prepared registry opts)
    (dispatched : (dispatch plans.length).runs (step 0) w () u)
    (run : WorkersRun (stageJob H registry opts dictBytes outDir plans tracker) plans.length workers u v) :
    RoundInv (planRound H registry opts dictBytes w.inputs plans) workers w v ∧
      (∀ job thread, v.fate job ≠ .held thread) ∧ (0 < workers → v.queue = []) := by
  have start := (dispatch_leads 0 plans.length w).runs dispatched
  subst start
  have stages : ∀ me rounds job w',
      Unstaged (planRound H registry opts dictBytes w.inputs plans) me rounds job w' →
      WorkerEnsures (planRound H registry opts dictBytes w.inputs plans) me
        (stageJob H registry opts dictBytes outDir plans tracker job)
        (HasResult (planRound H registry opts dictBytes w.inputs plans) me rounds job) w' := by
    intro me rounds job w' h
    have below : job < plans.length := by
      by_contra beyond
      have unsent := (h.inv.sent job).mpr (Nat.not_lt.mp beyond)
      rw [h.held] at unsent
      cases unsent
    rw [stageJob, List.getElem?_eq_getElem below]
    refine stageCompressedVariantBounded_ensures (prepared _ (List.getElem_mem below)) ?_ outDir tracker h
    simp only [planRound, List.getElem?_eq_getElem below, Option.bind_some]
  have began := dispatched_inv (R := planRound H registry opts dictBytes w.inputs plans) (w := w) rfl
  have settled := workersRun_settled stages began (fun job thread => by dsimp only; split <;> simp)
    (by simp [planRound]) run
  exact ⟨⟨settled.1.inv, settled.1.out, settled.1.nextFile, settled.1.closed, settled.1.holder⟩, settled.2⟩

variable {outDir : Bytes} {plans : List VariantWorkPlan} {currentOffset : Int64} {workers : Nat} {w w' : World}
  {r : Except Err (List VariantEntry × Int64)}

/-- **Parallel packing refines sequential packing.** -/
theorem writeVariantPayloadsParallel_refines (prepared : ∀ plan ∈ plans, plan.Prepared registry opts)
    (position : currentOffset = Int64.ofNat w.out.length)
    (run : ParallelRun H registry opts dictBytes outDir plans currentOffset workers w r w') :
    (∀ entries finish, r = .ok (entries, finish) →
      w'.stagings.Perm (List.range plans.length) ∧
      (∃ s, (writeVariantPayloadsSequential H registry opts dictBytes plans currentOffset).runAlone
          (step 0) .fine w = (.ok (entries, finish), s) ∧ s.out = w'.out) ∧
      ∀ outcomes entries' finish' s,
        (writeVariantPayloadsSequential H registry opts dictBytes plans currentOffset).runWith
          (step 0) w outcomes = some (.ok (entries', finish'), s) →
        entries' = entries ∧ finish' = finish ∧ s.out = w'.out) ∧
    ∀ job < plans.length, (w'.results job).err ≠ none ∨ w'.fate job = .skipped →
      (∃ err, r = .error err) ∧ w'.out = w.out := by
  obtain ⟨sent, collected, u, v, dispatched, staged, ended⟩ := run
  obtain ⟨round, free, -⟩ := stageJob_round prepared ⟨sent, dispatched⟩ staged
  have inv := round.inv
  have out := round.out
  have kept := (collect_kept 0 _ _ v).outcome ended
  by_cases failed : ∃ job < plans.length, (v.results job).err ≠ none
  · -- a recorded error is returned
    obtain ⟨job, below, err⟩ := failed
    obtain ⟨error, same⟩ := (collect_failed 0 currentOffset below err).outcome ended
    refine ⟨?_, fun _ _ _ => ⟨error, same.trans out⟩⟩
    obtain ⟨err, rfl⟩ := error
    simp
  · -- no error was recorded, so nothing was cancelled and nothing skipped
    have fine : ∀ job < plans.length, (v.results job).err = none := by
      simpa using failed
    have fates : ∀ job < plans.length, v.fate job = .queued ∨ v.fate job = .stored :=
      fun job below => inv.settled free fine below
    refine ⟨fun entries finish success => ?_, fun job below trouble => ?_⟩
    · have known : ∀ job < plans.length, v.results job = .zero ∨
          Collectable (planRound H registry opts dictBytes w.inputs plans) job v := by
        intro job below
        rcases fates job below with queued | stored
        · exact .inl (inv.untouched job (.inr (.inl queued))).1
        · obtain ⟨f, p, framed, result, found, -⟩ := (inv.stored job stored (fine job below)).framed
          refine .inr ⟨f, p, framed, result, fun file there => ?_⟩
          rw [found] at there
          cases there
          rfl
      obtain ⟨nonzero, frames, all, out', placed⟩ :=
        (collect_appends 0 currentOffset known).outcome ended entries finish success
      rw [planRound_frames] at all
      rw [out] at out'
      refine ⟨?_, ?_, fun outcomes entries' finish' s sequential => ?_⟩
      · rw [kept.stagings, List.perm_iff_count]
        intro job
        by_cases below : job < plans.length
        · rw [List.count_eq_one_of_mem List.nodup_range (List.mem_range.mpr below)]
          refine (inv.stored job ?_ (fine job below)).once
          refine (fates job below).resolve_left fun queued => ?_
          exact nonzero job below (inv.untouched job (.inr (.inl queued))).1
        · have unsent := (inv.sent job).mpr (Nat.not_lt.mp below)
          rw [(inv.untouched job (.inl unsent)).2]
          exact (List.count_eq_zero_of_not_mem (by simpa using below)).symm
      · obtain ⟨result, same⟩ := (writeVariantPayloadsSequential_fine 0 position all).alone
        exact ⟨_, Prod.ext (result.trans (congrArg _ placed.symm)) rfl, same.trans out'.symm⟩
      · obtain ⟨frames', all', same, placed'⟩ :=
          (writeVariantPayloadsSequential_leads 0 plans position).outcome sequential entries' finish' rfl
        rw [all] at all'
        cases all'
        obtain ⟨rfl, rfl⟩ := Prod.mk.inj (placed'.trans placed.symm)
        exact ⟨rfl, rfl, same.trans out'.symm⟩
    · rcases trouble with err | skipped
      · rw [kept.errors] at err
        exact absurd (fine job below) err
      · rw [kept.fate] at skipped
        rcases fates job below with is | is <;> simp [is] at skipped

end

/-! ## Two workers on two variants -/

/-- The codec that stores a payload as it is. -/
def storing : Impl where
  name := algorithmNone
  compress src _ := ⟨[src], none⟩
  decompress frame _ := .ok frame
  dictMethods := none

def storedOptions : CompressionOptions := ⟨[], algorithmNone, [], []⟩

def storedPlan (lvl path : Bytes) (size : Int64) : VariantWorkPlan :=
  ⟨lvl, lvl, path, size, storing, []⟩

def twoPlans : List VariantWorkPlan := [storedPlan (lit "v1") (lit "a") 1, storedPlan (lit "v3") (lit "b") 2]

def twoInputs : World where
  inputs path := if path = lit "a" then .regular (lit "x") else .regular (lit "yz")
  out := lit "stub"
  files _ := none
  nextFile := 0
  spool := 0
  queue := []
  cancelled := false
  results _ := .zero
  fate _ := .unsent
  stagings := []

/-- The second worker starts while the first has its staging file open. -/
def crossed : List (Fin 2 × Choice) :=
  List.replicate 8 (0, .fine) ++ List.replicate 30 (1, .fine) ++ List.replicate 30 (0, .fine)

section

local instance parallelTable : CaseTable := CaseTable.ascii

def crossedPool : Pool (Fin 2) Call Call.Reply Unit World :=
  runPool (fun i => step (i + 1))
    ⟨fun _ => worker (stageJob sha256 [storing] storedOptions [] (lit "out") twoPlans none) 3,
      ((dispatch 2).runAlone (step 0) .fine twoInputs).2⟩ crossed

theorem twoPlans_prepared : ∀ plan ∈ twoPlans, plan.Prepared [storing] storedOptions := by
  have each : ∀ lvl path size, normalize lvl = lvl →
      resolveVariantCompression [storing] storedOptions lvl size = .ok (storing, []) →
      (storedPlan lvl path size).Prepared [storing] storedOptions :=
    fun lvl path size same resolved => ⟨same.symm, resolved⟩
  simp only [twoPlans, List.forall_mem_cons, List.not_mem_nil, false_imp_iff, implies_true, and_true]
  exact ⟨each _ _ _ (by decide +kernel) rfl, each _ _ _ (by decide +kernel) rfl⟩

theorem writeVariantPayloadsParallel_refines_crossed : ∃ entries finish w',
    ParallelRun sha256 [storing] storedOptions [] (lit "out") twoPlans 4 2 twoInputs (.ok (entries, finish)) w' ∧
      w'.out = lit "stubxyz" ∧ w'.stagings.Perm (List.range 2) := by
  have returned : ∀ i, (crossedPool.threads i).returned = some () := by decide +kernel
  have collected : ((collect 2 4).runWith (step 0) crossedPool.world (List.replicate 40 .fine)).any
      (fun done => done.1.toOption.isSome && decide (done.2.out = lit "stubxyz")) = true := by
    decide +kernel
  obtain ⟨⟨r, w'⟩, ended, ok⟩ := (Option.any_eq_true _ _).mp collected
  rw [Bool.and_eq_true, decide_eq_true_eq] at ok
  cases r with
  | error err => exact absurd ok.1 (by simp [Except.toOption])
  | ok done =>
    obtain ⟨entries, finish⟩ := done
    have run : ParallelRun sha256 [storing] storedOptions [] (lit "out") twoPlans 4 2 twoInputs
        (.ok (entries, finish)) w' :=
      ⟨List.replicate 3 .fine, _, _, crossedPool.world, rfl,
        ⟨crossedPool.threads, runPool_run _ crossed, fun i => Prog.eq_ret_of_returned (returned i)⟩, ended⟩
    have refines := writeVariantPayloadsParallel_refines twoPlans_prepared (by decide) run
    exact ⟨entries, finish, w', run, ok.2, (refines.1 entries finish rfl).1⟩

end

end Microfat.Pack
