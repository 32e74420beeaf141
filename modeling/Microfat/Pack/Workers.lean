/-
# Microfat.Pack.Workers — a round of workers, in every interleaving

The workers of one round share a channel of jobs.  A job is `queued` until a
worker receives it, `held` by that worker, and then `stored` or `skipped`.
`Round.Inv` is what holds between any two steps: a job that was never held has the
zero result, a stored result without an error is the staged frame of its job,
and the round is cancelled only when some stored result has an error.

`Moves A` is what the threads in `A` may do.  A worker guarantees `Moves (· = me)`
and relies on `Moves (· ≠ me)`: what it holds, and what was settled, nobody else
touches.  `workersRun_settled` is the result for whole rounds: when all workers
have returned, the invariant holds, no job is held, and the channel is empty.
-/
import Microfat.Pack.Frames

namespace Microfat.Pack

open Theory Format Codec Microarch
open Function (update update_of_ne update_self)

set_option autoImplicit false

/-- What a round is about: how many jobs, the frame each is to be staged as, and the
inputs. -/
structure Round where
  jobs : Nat
  frame : Nat → Option Frame
  inputs : Bytes → Input

namespace Round

variable (R : Round)

/-- The result is the staged frame of the job, in a file nobody writes to. -/
structure Staged (job : Nat) (res : ParallelVariantResult) (w : World) : Prop where
  framed : ∃ f p, R.frame job = some f ∧ res = ⟨f.entry, some p, none⟩ ∧
    w.files p.file = some ⟨f.bytes, none⟩ ∧ p.file < w.nextFile
  once : w.stagings.count job = 1

structure Inv (w : World) : Prop where
  inputs : w.inputs = R.inputs
  sent : ∀ job, w.fate job = .unsent ↔ R.jobs ≤ job
  queued : ∀ job, job ∈ w.queue ↔ w.fate job = .queued
  distinct : w.queue.Nodup
  untouched : ∀ job, w.fate job = .unsent ∨ w.fate job = .queued ∨ w.fate job = .skipped →
    w.results job = .zero ∧ w.stagings.count job = 0
  stored : ∀ job, w.fate job = .stored → (w.results job).err = none → R.Staged job (w.results job) w
  skipped : ∀ job, w.fate job = .skipped → w.cancelled = true
  recorded : w.cancelled = true → ∃ job, w.fate job = .stored ∧ (w.results job).err ≠ none

end Round

/-- A job that the threads in `A` have no business with any more, or not at all. -/
def Fate.Secure (A : Nat → Prop) : Fate → Prop
  | .held thread => ¬ A thread
  | .stored | .skipped => True
  | .unsent | .queued => False

/-- What the threads in `A` may do to the world. -/
structure Moves (R : Round) (A : Nat → Prop) (w w' : World) : Prop where
  inv : R.Inv w → R.Inv w'
  inputs : w'.inputs = w.inputs
  out : w'.out = w.out
  queue : w'.queue <:+ w.queue
  kept : ∀ job, (w.fate job).Secure A → w'.fate job = w.fate job ∧ w'.results job = w.results job ∧
    w'.stagings.count job = w.stagings.count job
  taken : ∀ job thread, w'.fate job = .held thread → w.fate job = .held thread ∨ A thread
  nextFile : w.nextFile ≤ w'.nextFile
  files : ∀ p < w.nextFile, (∀ f thread, w.files p = some f → f.writer = some thread → ¬ A thread) →
    w'.files p = w.files p

variable {res : ParallelVariantResult}

namespace Moves

variable {R : Round} {A B : Nat → Prop} {u v w w' : World}

theorem refl (A : Nat → Prop) (w : World) : Moves R A w w :=
  ⟨id, rfl, rfl, List.suffix_refl _, fun _ _ => ⟨rfl, rfl, rfl⟩, fun _ _ held => .inl held, Nat.le_refl _,
    fun _ _ _ => rfl⟩

theorem trans (first : Moves R A u v) (second : Moves R A v w) : Moves R A u w where
  inv := second.inv ∘ first.inv
  inputs := second.inputs.trans first.inputs
  out := second.out.trans first.out
  queue := second.queue.trans first.queue
  kept job secure := by
    obtain ⟨fate, result, count⟩ := first.kept job secure
    obtain ⟨fate', result', count'⟩ := second.kept job (by rwa [fate])
    exact ⟨fate'.trans fate, result'.trans result, count'.trans count⟩
  taken job thread held := by
    rcases second.taken job thread held with before | own
    · exact first.taken job thread before
    · exact .inr own
  nextFile := first.nextFile.trans second.nextFile
  files p old closed := by
    have same := first.files p old closed
    rw [← same] at closed ⊢
    exact second.files p (old.trans_le first.nextFile) closed

theorem mono (le : ∀ thread, A thread → B thread) (moves : Moves R A w w') : Moves R B w w' where
  inv := moves.inv
  inputs := moves.inputs
  out := moves.out
  queue := moves.queue
  kept job secure := by
    refine moves.kept job ?_
    cases fate : w.fate job with
    | held thread =>
      rw [fate] at secure
      exact fun own => secure (le thread own)
    | unsent | queued =>
      rw [fate] at secure
      exact secure.elim
    | stored | skipped => exact trivial
  taken job thread held := (moves.taken job thread held).imp_right (le thread)
  nextFile := moves.nextFile
  files p old closed := moves.files p old fun f thread found writer own =>
    closed f thread found writer (le thread own)

/-! ## The moves of one call -/

/-- A move that leaves the jobs alone and only touches files that are open in `A`. -/
theorem of_files (inputs : w'.inputs = w.inputs) (out : w'.out = w.out) (queue : w'.queue = w.queue)
    (cancelled : w'.cancelled = w.cancelled) (results : w'.results = w.results) (fate : w'.fate = w.fate)
    (nextFile : w.nextFile ≤ w'.nextFile)
    (counts : ∀ job, (∀ thread, w.fate job = .held thread → ¬ A thread) →
      w'.stagings.count job = w.stagings.count job)
    (files : ∀ p < w.nextFile, (∀ f thread, w.files p = some f → f.writer = some thread → ¬ A thread) →
      w'.files p = w.files p) : Moves R A w w' where
  inv h :=
    { inputs := inputs.trans h.inputs
      sent := by rw [fate]; exact h.sent
      queued := by rw [fate, queue]; exact h.queued
      distinct := queue ▸ h.distinct
      untouched := by
        intro job idle
        rw [fate] at idle
        rw [results, counts job]
        · exact h.untouched job idle
        · intro thread held
          rcases idle with is | is | is <;> simp [is] at held
      stored := by
        intro job stored
        rw [fate] at stored
        rw [results]
        intro fine
        obtain ⟨⟨f, p, framed, res, found, old⟩, once⟩ := h.stored job stored fine
        refine ⟨⟨f, p, framed, res, ?_, old.trans_le nextFile⟩, ?_⟩
        · rw [files p.file old, found]
          intro f' thread same writer
          rw [found] at same
          cases same
          cases writer
        · rw [counts job (by simp [stored]), once]
      skipped := by rw [fate, cancelled]; exact h.skipped
      recorded := by rw [fate, cancelled, results]; exact h.recorded }
  inputs := inputs
  out := out
  queue := queue ▸ List.suffix_refl _
  kept job secure := by
    refine ⟨by rw [fate], by rw [results], counts job fun thread held => ?_⟩
    rw [held] at secure
    exact secure
  taken job thread held := .inl (by rwa [fate] at held)
  nextFile := nextFile
  files := files

variable (me : Nat)

theorem setFile {p : Nat} {f : StageFile} (found : w.files p = some f) (mine : f.writer = some me)
    (g : Option StageFile) : Moves R (· = me) w (w.setFile p g) := by
  refine of_files rfl rfl rfl rfl rfl rfl (Nat.le_refl _) (fun _ _ => rfl) ?_
  intro q old closed
  refine update_of_ne ?_ _ _
  rintro rfl
  exact closed f me found mine rfl

theorem close (file : Nat) (x : Choice) : Moves R (· = me) w (step me w (.close file) x).1 := by
  simp only [step]
  split
  · split
    · exact setFile me ‹_› ‹_› _
    · exact refl _ w
  · exact refl _ w

theorem spoolAdd (n : Int64) (x : Choice) : Moves R (· = me) w (step me w (.spoolAdd n) x).1 :=
  of_files rfl rfl rfl rfl rfl rfl (Nat.le_refl _) (fun _ _ => rfl) fun _ _ _ => rfl

variable {me} {job : Nat}

theorem createTemp (held : w.fate job = .held me) (outDir : Bytes) (x : Choice) :
    Moves R (· = me) w (step me w (.createTemp outDir job) x).1 := by
  simp only [step]
  split
  · exact refl _ w
  · refine of_files rfl rfl rfl rfl rfl rfl (Nat.le_succ _) ?_ ?_
    · intro other foreign
      refine List.count_cons_of_ne ?_
      rintro rfl
      exact foreign me held rfl
    · intro p old _
      exact update_of_ne (Nat.ne_of_lt old) _ _

/-- A move of one job: `me` takes it out of the channel, or is done with it. -/
theorem of_fate (h : R.Inv w) {after : Fate} (before : w.fate job = .queued ∨ w.fate job = .held me)
    (inputs : w'.inputs = w.inputs) (out : w'.out = w.out) (files : w'.files = w.files)
    (nextFile : w'.nextFile = w.nextFile) (stagings : w'.stagings = w.stagings)
    (cancelled : w'.cancelled = w.cancelled) (fate : w'.fate = update w.fate job after)
    (results : ∀ other, other ≠ job → w'.results other = w.results other)
    (suffix : w'.queue <:+ w.queue) (queue : ∀ other, other ∈ w'.queue ↔ other ∈ w.queue ∧ other ≠ job)
    (held : ∀ thread, after = .held thread → thread = me) (sent : after ≠ .unsent) (gone : after ≠ .queued)
    (skipped : after = .skipped → (w'.results job = .zero ∧ w.stagings.count job = 0) ∧ w.cancelled = true)
    (stored : after = .stored → (w'.results job).err = none → R.Staged job (w'.results job) w) :
    Moves R (· = me) w w' := by
  have here : w'.fate job = after := by rw [fate, update_self]
  have away : ∀ other, other ≠ job → w'.fate other = w.fate other := by
    intro other different
    rw [fate, update_of_ne different]
  have notStored : w.fate job ≠ .stored := by
    rcases before with is | is <;> simp [is]
  have notUnsent : w.fate job ≠ .unsent := by
    rcases before with is | is <;> simp [is]
  have staged : ∀ {other res}, R.Staged other res w → R.Staged other res w' := by
    rintro other res ⟨⟨f, p, framed, same, found, old⟩, once⟩
    exact ⟨⟨f, p, framed, same, by rwa [files], by rwa [nextFile]⟩, by rwa [stagings]⟩
  refine ⟨fun _ => ?_, inputs, out, suffix, ?_, ?_, by rw [nextFile], fun _ _ _ => by rw [files]⟩
  · refine ⟨inputs.trans h.inputs, fun other => ?_, fun other => ?_, h.distinct.sublist suffix.sublist,
      fun other idle => ?_, fun other settled => ?_, fun other settled => ?_, fun was => ?_⟩
    · by_cases same : other = job
      · rw [same, here]
        exact iff_of_false sent fun beyond => notUnsent ((h.sent job).mpr beyond)
      · rw [away other same]
        exact h.sent other
    · rw [queue]
      by_cases same : other = job
      · rw [same, here]
        exact iff_of_false (fun both => both.2 rfl) gone
      · rw [away other same, h.queued]
        exact and_iff_left same
    · rw [stagings]
      by_cases same : other = job
      · rw [same, here] at idle
        rw [same]
        rcases idle with is | is | is
        · exact absurd is sent
        · exact absurd is gone
        · exact (skipped is).1
      · rw [away other same] at idle
        rw [results other same]
        exact h.untouched other idle
    · by_cases same : other = job
      · rw [same, here] at settled
        rw [same]
        exact fun fine => staged (stored settled fine)
      · rw [away other same] at settled
        rw [results other same]
        exact fun fine => staged (h.stored other settled fine)
    · rw [cancelled]
      by_cases same : other = job
      · rw [same, here] at settled
        exact (skipped settled).2
      · rw [away other same] at settled
        exact h.skipped other settled
    · rw [cancelled] at was
      obtain ⟨bad, settled, err⟩ := h.recorded was
      have different : bad ≠ job := by
        rintro rfl
        exact notStored settled
      exact ⟨bad, (away bad different).trans settled, by rwa [results bad different]⟩
  · intro other secure
    have different : other ≠ job := by
      rintro rfl
      rcases before with is | is
      · rw [is] at secure
        exact secure
      · rw [is] at secure
        exact secure rfl
    exact ⟨away other different, results other different, by rw [stagings]⟩
  · intro other thread now
    by_cases same : other = job
    · rw [same, here] at now
      exact .inr (held thread now)
    · rw [away other same] at now
      exact .inl now

theorem receive (h : R.Inv w) (x : Choice) : Moves R (· = me) w (step me w .receive x).1 := by
  simp only [step]
  cases queue : w.queue with
  | nil => exact refl _ w
  | cons job rest =>
    have distinct := h.distinct
    rw [queue, List.nodup_cons] at distinct
    have queued : w.fate job = .queued := (h.queued job).mp (by simp [queue])
    refine of_fate h (.inl queued) rfl rfl rfl rfl rfl rfl rfl (fun _ _ => rfl) ?_ ?_ (by simp) (by simp)
      (by simp) (by simp) (by simp)
    · rw [queue]
      exact List.suffix_cons job rest
    · intro other
      rw [queue]
      constructor
      · intro mem
        refine ⟨List.mem_cons_of_mem _ mem, ?_⟩
        rintro rfl
        exact distinct.1 mem
      · rintro ⟨mem, different⟩
        exact (List.mem_cons.mp mem).resolve_left different

section

variable (h : R.Inv w) (held : w.fate job = .held me)

include h held

/-- A held job is not in the channel. -/
theorem held_not_queued (other : Nat) : other ∈ w.queue ↔ other ∈ w.queue ∧ other ≠ job := by
  refine ⟨fun mem => ⟨mem, ?_⟩, And.left⟩
  rintro rfl
  have queued := (h.queued other).mp mem
  rw [held] at queued
  cases queued

theorem skip (clean : w.results job = .zero) (unstaged : w.stagings.count job = 0) (x : Choice) :
    Moves R (· = me) w (step me w (.ctxErr job) x).1 := by
  have queue := held_not_queued h held
  simp only [step]
  split
  · rename_i cancelled
    exact of_fate h (.inr held) rfl rfl rfl rfl rfl rfl rfl (fun _ _ => rfl) (List.suffix_refl _)
      queue (by simp) (by simp) (by simp) (fun _ => ⟨⟨clean, unstaged⟩, cancelled⟩)
      (by simp)
  · exact refl _ w

theorem store (staged : res.err = none → R.Staged job res w) (x : Choice) :
    Moves R (· = me) w (step me w (.store job res) x).1 := by
  have queue := held_not_queued h held
  refine of_fate h (.inr held) rfl rfl rfl rfl rfl rfl rfl
    (fun other different => update_of_ne different _ _) (List.suffix_refl _)
    queue (by simp) (by simp) (by simp) (by simp) fun _ => ?_
  simp only [step, update_self]
  exact staged

end

theorem cancel (stored : w.fate job = .stored) (failed : (w.results job).err ≠ none) (x : Choice) :
    Moves R (· = me) w (step me w .cancel x).1 :=
  ⟨fun h => ⟨h.inputs, h.sent, h.queued, h.distinct, h.untouched,
      fun other settled fine => ⟨(h.stored other settled fine).framed, (h.stored other settled fine).once⟩,
      fun _ _ => rfl, fun _ => ⟨job, stored, failed⟩⟩,
    rfl, rfl, List.suffix_refl _, fun _ _ => ⟨rfl, rfl, rfl⟩, fun _ _ held => .inl held, Nat.le_refl _,
    fun _ _ _ => rfl⟩

end Moves

/-! ## What a worker knows -/

section Worker

variable (R : Round) (me rounds : Nat)

/-- Between two jobs; the channel is shorter than the rounds that are left. -/
structure Idle (w : World) : Prop where
  inv : R.Inv w
  free : ∀ job, w.fate job ≠ .held me
  few : w.queue.length < rounds

/-- Holding a job that has no result yet. -/
structure Holds (job : Nat) (w : World) : Prop where
  inv : R.Inv w
  held : w.fate job = .held me
  only : ∀ other, w.fate other = .held me → other = job
  few : w.queue.length < rounds
  clean : w.results job = .zero

structure Unstaged (job : Nat) (w : World) : Prop extends Holds R me rounds job w where
  never : w.stagings.count job = 0

structure HasFile (job file : Nat) (content : Bytes) (writer : Option Nat) (w : World) : Prop
    extends Holds R me rounds job w where
  once : w.stagings.count job = 1
  found : w.files file = some ⟨content, writer⟩
  old : file < w.nextFile

/-- The job's result, still to be stored. -/
structure HasResult (job : Nat) (res : ParallelVariantResult) (w : World) : Prop
    extends Holds R me rounds job w where
  staged : res.err = none → R.Staged job res w

abbrev WorkerEnsures {α : Type} (p : Program α) (Q : α → World → Prop) (w : World) : Prop :=
  Ensures (step me) (Moves R (· ≠ me)) (Moves R (· = me)) p Q w

variable {R me rounds} {job : Nat} {w w' : World}

theorem Moves.kept_mine (moves : Moves R (· ≠ me) w w') (held : w.fate job = .held me) :
    w'.fate job = .held me ∧ w'.results job = w.results job ∧
      w'.stagings.count job = w.stagings.count job := by
  obtain ⟨fate, rest⟩ := moves.kept job (by rw [held]; exact fun other => other rfl)
  exact ⟨fate.trans held, rest⟩

theorem Moves.held_before (moves : Moves R (· ≠ me) w w') (held : w'.fate job = .held me) :
    w.fate job = .held me :=
  (moves.taken job me held).resolve_right fun other => other rfl

theorem idle_stable : Stable (Moves R (· ≠ me)) (Idle R me rounds) := fun _ _ h moves =>
  ⟨moves.inv h.inv, fun job held => h.free job (moves.held_before held),
    moves.queue.length_le.trans_lt h.few⟩

theorem holds_stable : Stable (Moves R (· ≠ me)) (Holds R me rounds job) := fun _ _ h moves =>
  ⟨moves.inv h.inv, (moves.kept_mine h.held).1, fun other held => h.only other (moves.held_before held),
    moves.queue.length_le.trans_lt h.few, (moves.kept_mine h.held).2.1.trans h.clean⟩

theorem unstaged_stable : Stable (Moves R (· ≠ me)) (Unstaged R me rounds job) := fun _ _ h moves =>
  ⟨holds_stable _ _ h.toHolds moves, (moves.kept_mine h.held).2.2.trans h.never⟩

variable {file : Nat} {content : Bytes}

theorem hasFile_stable {writer : Option Nat} (mine : ∀ thread, writer = some thread → thread = me) :
    Stable (Moves R (· ≠ me)) (HasFile R me rounds job file content writer) := by
  intro w w' h moves
  refine ⟨holds_stable _ _ h.toHolds moves, (moves.kept_mine h.held).2.2.trans h.once, ?_,
    h.old.trans_le moves.nextFile⟩
  rw [moves.files file h.old, h.found]
  intro f thread found writes
  rw [h.found] at found
  cases found
  exact fun other => other (mine thread writes)

/-- A staged result stays staged: nobody writes to its file, and the job is held or
settled. -/
theorem Round.Staged.kept {A : Nat → Prop} (h : R.Staged job res w) (moves : Moves R A w w')
    (secure : (w.fate job).Secure A) : R.Staged job res w' := by
  obtain ⟨⟨f, p, framed, same, found, old⟩, once⟩ := h
  refine ⟨⟨f, p, framed, same, ?_, old.trans_le moves.nextFile⟩, (moves.kept job secure).2.2.trans once⟩
  rw [moves.files p.file old, found]
  intro f' thread found' writer
  rw [found] at found'
  cases found'
  cases writer

theorem hasResult_stable :
    Stable (Moves R (· ≠ me)) (HasResult R me rounds job res) := fun _ _ h moves =>
  ⟨holds_stable _ _ h.toHolds moves, fun fine => (h.staged fine).kept moves
    (by rw [h.held]; exact fun other => other rfl)⟩

/-- What the worker itself does to files keeps the job in its hands. -/
theorem Holds.own (h : Holds R me rounds job w) (moves : Moves R (· = me) w w') (fate : w'.fate = w.fate)
    (results : w'.results = w.results) : Holds R me rounds job w' :=
  ⟨moves.inv h.inv, by rw [fate, h.held], fun other held => h.only other (by rwa [fate] at held),
    moves.queue.length_le.trans_lt h.few, by rw [results, h.clean]⟩

/-! ## Staging a job -/

variable {dst : VariantWriter}

theorem World.append_own (found : w.files file = some ⟨content, some me⟩) (piece : Bytes) :
    w.append me (.stage file) piece = some (w.setFile file (some ⟨content ++ piece, some me⟩)) := by
  simp [World.append, found]

theorem HasFile.appended (h : HasFile R me rounds job file content (some me) w) (piece : Bytes) :
    Moves R (· = me) w (w.setFile file (some ⟨content ++ piece, some me⟩)) ∧
      HasFile R me rounds job file (content ++ piece) (some me)
        (w.setFile file (some ⟨content ++ piece, some me⟩)) := by
  have moves : Moves R (· = me) w _ := Moves.setFile me h.found rfl (some ⟨content ++ piece, some me⟩)
  exact ⟨moves, h.toHolds.own moves rfl rfl, h.once, update_self .., h.old⟩

section

variable (here : dst.dest = .stage file)

include here

theorem stageWrite_ensures (piece : Bytes) (h : HasFile R me rounds job file content (some me) w) :
    WorkerEnsures R me (dst.write piece) (fun r w => Holds R me rounds job w ∧
      (r = none → HasFile R me rounds job file (content ++ piece) (some me) w)) w := by
  have stable {c : Bytes} := @hasFile_stable R me rounds job file c (some me) (by simp)
  have written : ∀ {w}, HasFile R me rounds job file content (some me) w →
      WorkerEnsures R me (writeDest (.stage file) piece) (fun r w => Holds R me rounds job w ∧
        (r = none → HasFile R me rounds job file (content ++ piece) (some me) w)) w := by
    intro w h
    show Ensures _ _ _ (writeDest (.stage file) piece >>= Prog.ret) _ _
    refine ensures_call stable h fun w x h => ?_
    cases failed : x.error with
    | some err =>
      obtain ⟨moves, after⟩ := h.appended (piece.take x.count)
      simp only [step, failed, World.append_own h.found, Option.getD_some]
      exact ⟨moves, ensures_ret stable after fun _ h => ⟨h.toHolds, by simp⟩⟩
    | none =>
      obtain ⟨moves, after⟩ := h.appended piece
      simp only [step, failed, World.append_own h.found]
      exact ⟨moves, ensures_ret stable after fun _ h => ⟨h.toHolds, fun _ => h⟩⟩
  cases dst with
  | plain dest =>
    cases here
    exact written h
  | spooled file' limit =>
    cases here
    rw [VariantWriter.write]
    split
    · rename_i empty
      exact ensures_ret stable h fun _ h => ⟨h.toHolds, fun _ => by rwa [empty, List.append_nil]⟩
    · refine ensures_call stable h fun w x h => ?_
      have moves : Moves R (· = me) w _ := Moves.spoolAdd me (Int64.ofNat piece.length) x
      have after : HasFile R me rounds job file content (some me)
          (step me w (.spoolAdd (Int64.ofNat piece.length)) x).1 :=
        ⟨h.toHolds.own moves rfl rfl, h.once, h.found, h.old⟩
      refine ⟨moves, ?_⟩
      split
      · exact ensures_ret stable after fun _ h => ⟨h.toHolds, by simp⟩
      · exact written after

theorem writeChunks_ensures (chunks : List Bytes) (final : Option Err)
    (h : HasFile R me rounds job file content (some me) w) :
    WorkerEnsures R me (writeChunks dst chunks final) (fun r w => Holds R me rounds job w ∧
      (r = none → final = none ∧
        HasFile R me rounds job file (content ++ chunks.flatten) (some me) w)) w := by
  induction chunks generalizing w content with
  | nil =>
    refine ensures_ret (hasFile_stable (by simp)) h fun _ h => ⟨h.toHolds, fun none => ⟨none, ?_⟩⟩
    simpa using h
  | cons chunk rest ih =>
    refine ensures_seq (.refl _) (stageWrite_ensures here chunk h) ?_
    rintro (_ | err) w ⟨holds, ok⟩
    · refine ensures_mono ?_ (ih (ok rfl))
      intro r w ⟨holds, done⟩
      rw [List.append_assoc, ← List.flatten_cons] at done
      exact ⟨holds, done⟩
    · exact ensures_ret holds_stable holds fun _ h => ⟨h, by simp⟩

theorem compressVariantIntoWriter_ensures (lvl : Bytes) (c : Impl) (resolvedLevel data dict : Bytes)
    (h : HasFile R me rounds job file [] (some me) w) :
    WorkerEnsures R me (compressVariantIntoWriter dst lvl c resolvedLevel data dict)
      (fun r w => Holds R me rounds job w ∧ (r = none → (c.encode data resolvedLevel dict).final = none ∧
        HasFile R me rounds job file (c.encode data resolvedLevel dict).chunks.flatten (some me) w)) w := by
  refine ensures_seq (.refl _) (writeChunks_ensures here _ _ h) ?_
  rintro (_ | err) w ⟨holds, done⟩
  · obtain ⟨ended, h⟩ := done rfl
    exact ensures_ret (hasFile_stable (by simp)) h fun _ h => ⟨h.toHolds, fun _ => ⟨ended, h⟩⟩
  · dsimp only
    split <;> exact ensures_ret holds_stable holds fun _ h => ⟨h, by simp⟩

end

theorem HasFile.sought {writer : Option Nat} (h : HasFile R me rounds job file content writer w)
    (x : Choice) :
    ∀ size, (step me w (.seek (.stage file)) x).2 = .ok size → size = Int64.ofNat content.length := by
  intro size reply
  have position := answer_ok reply
  simp only [World.size, h.found, Option.map_some, Option.getD_some] at position
  exact (Except.ok.inj position).symm

/-- Closing a staging file, whatever is known of it. -/
theorem Holds.close (h : Holds R me rounds job w) (file : Nat) (x : Choice) :
    Holds R me rounds job (step me w (.close file) x).1 := by
  refine h.own (Moves.close me file x) ?_ ?_
  all_goals
    simp only [step]
    split
    · split <;> rfl
    · rfl

theorem HasFile.close (h : HasFile R me rounds job file content (some me) w) (x : Choice) :
    HasFile R me rounds job file content none (step me w (.close file) x).1 := by
  have holds := h.toHolds.close file x
  simp only [step, h.found, if_true] at holds ⊢
  exact ⟨holds, h.once, update_self .., h.old⟩

theorem hasResult_failed (stagedPath : Option StagePath) (err : Err) (h : Holds R me rounds job w) :
    WorkerEnsures R me (pure (.failed stagedPath err)) (HasResult R me rounds job) w :=
  ensures_ret holds_stable h fun _ h => ⟨h, by simp [ParallelVariantResult.failed]⟩

section Stage

variable [CaseTable] {H : Sha256} {registry : Registered} {opts : CompressionOptions} {dictBytes : Bytes}

/-- The codec a worker uses is the one for the size it read. -/
theorem VariantWorkPlan.Prepared.resolve {plan : VariantWorkPlan} (prepared : plan.Prepared registry opts)
    (size : Int64) :
    (if size ≠ plan.statSize then resolveVariantCompression registry opts plan.level size
      else .ok (plan.codecImpl, plan.resolvedLevel)) =
      resolveVariantCompression registry opts plan.level size := by
  split
  · rfl
  · rename_i same
    rw [← prepared.resolved, not_not.mp same]

/-- **Staging a job ends with its frame in a closed file, or with an error.** -/
theorem stageCompressedVariantBounded_ensures {plan : VariantWorkPlan} (prepared : plan.Prepared registry opts)
    (framed : frameOf H registry opts dictBytes R.inputs plan.level plan.cleanPath = R.frame job)
    (outDir : Bytes) (tracker : Option Int64) (h : Unstaged R me rounds job w) :
    WorkerEnsures R me (stageCompressedVariantBounded H registry opts dictBytes outDir job plan tracker)
      (HasResult R me rounds job) w := by
  have read : Leads (step me) (readBoundedInput plan.cleanPath payloadLimit) (fun r _ =>
      ∀ data, r = .ok data → payloadOf (R.inputs (cleanPath plan.cleanPath)) = some data) w := by
    refine leads_mono (readBoundedInput_leads me plan.cleanPath w) fun r _ done => ?_
    rw [← h.inv.inputs]
    exact done.2
  refine ensures_seq (.refl _) (ensures_reads unstaged_stable (fun _ _ moves => moves.inputs) (.refl _)
    (fun w _ x reads => step_readsInput me w reads x)
    (fun _ _ _ x reads same => reply_readsInput me reads x same)
    (readBoundedInput_uses _ _) read rfl h) ?_
  rintro (err | data) w ⟨payload, h⟩
  · exact hasResult_failed _ _ h.toHolds
  dsimp only
  rw [prepared.resolve]
  cases resolved : resolveVariantCompression registry opts plan.level (Int64.ofNat data.length) with
  | error err => exact hasResult_failed _ _ h.toHolds
  | ok chosen =>
    obtain ⟨c, resolvedLevel⟩ := chosen
    refine ensures_call unstaged_stable h fun w x h => ?_
    have moves : Moves R (· = me) w _ := Moves.createTemp h.held outDir x
    refine ⟨moves, ?_⟩
    cases failed : x.error with
    | some err =>
      simp only [step, failed]
      exact hasResult_failed _ _ h.toHolds
    | none =>
      simp only [step, failed] at moves ⊢
      have opened : HasFile R me rounds job w.nextFile [] (some me) _ :=
        ⟨h.toHolds.own moves rfl rfl, by rw [List.count_cons_self, h.never], update_self ..,
          Nat.lt_succ_self _⟩
      generalize w.nextFile = file at opened
      refine ensures_seq (.refl _)
        (compressVariantIntoWriter_ensures (by cases tracker <;> rfl) _ _ _ _ _ opened) ?_
      rintro (_ | compErr) w ⟨holds, done⟩
      rotate_left
      · exact ensures_call holds_stable holds fun w y holds =>
          ⟨Moves.close me file y, hasResult_failed _ _ (holds.close file y)⟩
      obtain ⟨ended, h⟩ := done rfl
      have frame := framed.symm.trans (frameOf_eq_some.mpr
        ⟨data, c, resolvedLevel, payload data rfl, resolved, ended, rfl⟩)
      refine ensures_call (hasFile_stable (by simp)) h fun w y h => ⟨.refl _ w, ?_⟩
      have sized := h.sought y
      generalize (step me w (.seek (.stage file)) y).2 = sought at sized
      refine ensures_call (hasFile_stable (by simp)) h fun w z h => ⟨Moves.close me file z, ?_⟩
      have closed := h.close z
      generalize (step me w (.close file) z).2 = closeErr
      cases sought with
      | error err => exact hasResult_failed _ _ closed.toHolds
      | ok compressedSize =>
        cases closeErr with
        | some err => exact hasResult_failed _ _ closed.toHolds
        | none =>
          refine ensures_ret (hasFile_stable (by simp)) closed fun w h => ⟨h.toHolds, fun _ => ?_⟩
          refine ⟨⟨_, ⟨outDir ++ slash :: stageName x.random, file⟩, frame, ?_, h.found, h.old⟩, h.once⟩
          rw [sized compressedSize rfl, prepared.normalized, encoded]

end Stage

/-! ## The loop of a worker -/

/-- A worker that has returned. -/
structure Drained (R : Round) (me : Nat) (w : World) : Prop where
  free : ∀ job, w.fate job ≠ .held me
  empty : w.queue = []

theorem drained_stable : Stable (Moves R (· ≠ me)) (Drained R me) := fun _ _ h moves =>
  ⟨fun job held => h.free job (moves.held_before held),
    List.suffix_nil.mp (h.empty ▸ moves.queue)⟩

/-- What receiving leaves the worker with. -/
theorem Idle.receive (h : Idle R me (rounds + 1) w) (x : Choice) :
    match (step me w .receive x).2 with
    | none => Drained R me (step me w .receive x).1
    | some job => Unstaged R me rounds job (step me w .receive x).1 := by
  have moves : Moves R (· = me) w _ := Moves.receive h.inv x
  have few := h.few
  simp only [step] at moves ⊢
  cases queue : w.queue with
  | nil => exact ⟨h.free, queue⟩
  | cons job rest =>
    simp only [queue] at moves ⊢
    have queued : w.fate job = .queued := (h.inv.queued job).mp (by simp [queue])
    have untouched := h.inv.untouched job (.inr (.inl queued))
    rw [queue, List.length_cons] at few
    refine ⟨⟨moves.inv h.inv, update_self .., fun other held => ?_, by simpa using few, untouched.1⟩,
      untouched.2⟩
    by_contra different
    exact h.free other ((update_of_ne different _ _).symm.trans held)

/-- Letting go of a job leaves the worker without any. -/
theorem Holds.release (h : Holds R me rounds job w) (moves : Moves R (· = me) w w') {after : Fate}
    (fate : w'.fate = update w.fate job after) (settled : after ≠ .held me) :
    Idle R me rounds w' := by
  refine ⟨moves.inv h.inv, fun other held => ?_, moves.queue.length_le.trans_lt h.few⟩
  rw [fate] at held
  by_cases same : other = job
  · rw [same, update_self] at held
    exact settled held
  · rw [update_of_ne same] at held
    exact same (h.only other held)

theorem recorded_stable (job : Nat) (res : ParallelVariantResult) :
    Stable (Moves R (· ≠ me)) fun w => Idle R me rounds w ∧ w.fate job = .stored ∧ w.results job = res := by
  rintro w w' ⟨idle, stored, result⟩ moves
  obtain ⟨fate, same, -⟩ := moves.kept job (by rw [stored]; exact trivial)
  exact ⟨idle_stable _ _ idle moves, fate.trans stored, same.trans result⟩

/-- **A worker returns with the channel empty and no job in its hands.** -/
theorem worker_ensures {stage : Nat → Program ParallelVariantResult}
    (stages : ∀ rounds job w, Unstaged R me rounds job w →
      WorkerEnsures R me (stage job) (HasResult R me rounds job) w)
    (h : Idle R me rounds w) : WorkerEnsures R me (worker stage rounds) (fun _ w => Drained R me w) w := by
  induction rounds generalizing w with
  | zero => exact absurd h.few (Nat.not_lt_zero _)
  | succ rounds ih =>
    refine ensures_call idle_stable h fun w x h => ⟨Moves.receive h.inv x, ?_⟩
    have received := h.receive x
    cases reply : (step me w .receive x).2 with
    | none =>
      rw [reply] at received
      exact ensures_ret drained_stable received fun _ h => h
    | some job =>
      rw [reply] at received
      refine ensures_call unstaged_stable received fun w y h => ⟨Moves.skip h.inv h.held h.clean h.never y, ?_⟩
      have moves : Moves R (· = me) w _ := Moves.skip h.inv h.held h.clean h.never y
      by_cases cancelled : w.cancelled = true
      · have skipped : step me w (.ctxErr job) y = (w.setFate job .skipped, true) := by
          simp only [step, cancelled, if_true]
        rw [skipped] at moves ⊢
        exact ih (h.toHolds.release moves rfl (by simp))
      · have working : step me w (.ctxErr job) y = (w, false) := by
          simp [step, cancelled]
        rw [working]
        refine ensures_seq (.refl _) (stages rounds job w h) fun res w h => ?_
        refine ensures_call hasResult_stable h fun w z h => ⟨Moves.store h.inv h.held h.staged z, ?_⟩
        have stored : Moves R (· = me) w _ := Moves.store h.inv h.held h.staged z
        have idle := h.toHolds.release stored rfl (by simp)
        cases failed : res.err with
        | none => exact ih idle
        | some err =>
          -- the error is in the results before the round is cancelled
          have settled : Idle R me rounds (step me w (.store job res) z).1 ∧
              (step me w (.store job res) z).1.fate job = .stored ∧
              (step me w (.store job res) z).1.results job = res :=
            ⟨idle, update_self .., update_self ..⟩
          refine ensures_call (recorded_stable job res) settled fun w z h => ?_
          obtain ⟨idle, fate, result⟩ := h
          have moves : Moves R (· = me) w _ := Moves.cancel fate (by rw [result, failed]; simp) z
          exact ⟨moves, ih ⟨moves.inv idle.inv, idle.free, idle.few⟩⟩

end Worker

/-! ## A whole round -/

/-- The invariant of a round of workers that started in `u`: files that were closed
before stay as they are. -/
structure RoundInv (R : Round) (workers : Nat) (u w : World) : Prop where
  inv : R.Inv w
  out : w.out = u.out
  nextFile : u.nextFile ≤ w.nextFile
  closed : ∀ p content, p < u.nextFile → u.files p = some ⟨content, none⟩ → w.files p = some ⟨content, none⟩
  holder : ∀ job thread, w.fate job = .held thread → ∃ i : Fin workers, thread = i + 1

theorem workers_compatible (R : Round) (workers : Nat) (u : World) :
    Compatible (fun _ _ => False) (fun i : Fin workers => Moves R (· ≠ i + 1))
      (fun i : Fin workers => Moves R (· = i + 1)) (RoundInv R workers u) where
  refl i w := .refl _ w
  trans i u v w first second := first.trans second
  threads i j w w' different moves := by
    refine moves.mono fun thread same other => different ?_
    have eq : (i : Nat) + 1 = j + 1 := same.symm.trans other
    exact Fin.ext (Nat.succ.inj eq)
  environment _ _ _ never := never.elim
  guards i w w' moves h := by
    refine ⟨moves.inv h.inv, moves.out.trans h.out, h.nextFile.trans moves.nextFile,
      fun p content old found => ?_, fun job thread held => ?_⟩
    · have before := h.closed p content old found
      rw [moves.files p (old.trans_le h.nextFile), before]
      intro f thread same writer
      rw [before] at same
      cases same
      cases writer
    rcases moves.taken job thread held with before | own
    · exact h.holder job thread before
    · exact ⟨i, own⟩
  allows _ _ never := never.elim

/-- **When all workers have returned, every job was settled and the invariant holds.** -/
theorem workersRun_settled {R : Round} {stage : Nat → Program ParallelVariantResult} {workers : Nat}
    {u v : World}
    (stages : ∀ me rounds job w, Unstaged R me rounds job w →
      WorkerEnsures R me (stage job) (HasResult R me rounds job) w)
    (start : R.Inv u) (free : ∀ job thread, u.fate job ≠ .held thread) (few : u.queue.length ≤ R.jobs)
    (run : WorkersRun stage R.jobs workers u v) :
    RoundInv R workers u v ∧ (∀ job thread, v.fate job ≠ .held thread) ∧ (0 < workers → v.queue = []) := by
  obtain ⟨threads, reach, returned⟩ := run
  have compatible := workers_compatible R workers u
  have began : PoolEnsures (fun i : Fin workers => step (i + 1)) (fun i => Moves R (· ≠ i + 1))
      (fun i => Moves R (· = i + 1)) (fun i _ w => Drained R (i + 1) w) (RoundInv R workers u)
      ⟨fun _ => worker stage (R.jobs + 1), u⟩ :=
    ⟨⟨start, rfl, Nat.le_refl _, fun _ _ _ found => found,
      fun job thread held => absurd held (free job thread)⟩, fun i =>
      worker_ensures (stages (i + 1)) ⟨start, fun job => free job _, Nat.lt_succ_of_le few⟩⟩
  have all := pool_ensures compatible began reach
  have drained : ∀ i : Fin workers, Drained R (i + 1) v := fun i => all.returned compatible (returned i)
  refine ⟨all.1, fun job thread held => ?_, fun some => (drained ⟨0, some⟩).empty⟩
  obtain ⟨i, rfl⟩ := all.1.holder job thread held
  exact (drained i).free job held

/-- Without a recorded error nothing was cancelled, so no job was skipped. -/
theorem Round.Inv.settled {R : Round} {w : World} (inv : R.Inv w) (free : ∀ job thread, w.fate job ≠ .held thread)
    (fine : ∀ job < R.jobs, (w.results job).err = none) {job : Nat} (below : job < R.jobs) :
    w.fate job = .queued ∨ w.fate job = .stored := by
  have running : w.cancelled ≠ true := by
    intro cancelled
    obtain ⟨bad, stored, err⟩ := inv.recorded cancelled
    by_cases below : bad < R.jobs
    · exact err (fine bad below)
    · have unsent := (inv.sent bad).mpr (Nat.not_lt.mp below)
      rw [stored] at unsent
      cases unsent
  cases fate : w.fate job with
  | unsent => exact absurd ((inv.sent job).mp fate) (Nat.not_le.mpr below)
  | queued => exact .inl rfl
  | held thread => exact absurd fate (free job thread)
  | skipped => exact absurd (inv.skipped job fate) running
  | stored => exact .inr rfl

/-! ## Dispatching -/

/-- **The caller fills the channel before the first worker starts.** -/
theorem dispatch_leads (me jobs : Nat) (w : World) :
    Leads (step me) (dispatch jobs) (fun _ w' => w' = { w with
      queue := List.range jobs
      cancelled := false
      results := fun _ => .zero
      fate := fun job => if job < jobs then .queued else .unsent
      stagings := [] }) w := by
  have sends : ∀ (l : List Nat) (w : World), Leads (step me) (sendJobs l)
      (fun _ w' => w' = { w with
        queue := w.queue ++ l
        fate := fun job => if job ∈ l then .queued else w.fate job }) w := by
    intro l
    induction l with
    | nil => intro w; simp [sendJobs]
    | cons job rest ih =>
      intro w
      refine leads_call fun _ => leads_mono (ih _) ?_
      rintro _ _ rfl
      simp only [step, World.setFate, List.append_assoc, List.singleton_append, World.mk.injEq, true_and, and_true]
      funext other
      by_cases later : other ∈ rest
      · simp [later]
      · by_cases same : other = job
        · simp [same]
        · simp [later, same]
  refine leads_call fun _ => leads_mono (sends _ _) ?_
  rintro _ _ rfl
  simp [step]

theorem dispatched_inv {R : Round} {w : World} (inputs : w.inputs = R.inputs) :
    R.Inv { w with
      queue := List.range R.jobs
      cancelled := false
      results := fun _ => .zero
      fate := fun job => if job < R.jobs then .queued else .unsent
      stagings := [] } where
  inputs := inputs
  sent job := by
    by_cases below : job < R.jobs <;> simp [below]
    omega
  queued job := by
    by_cases below : job < R.jobs <;> simp [below]
  distinct := List.nodup_range
  untouched _ _ := ⟨rfl, List.count_nil⟩
  stored job stored := by
    by_cases below : job < R.jobs <;> simp [below] at stored
  skipped job skipped := by
    by_cases below : job < R.jobs <;> simp [below] at skipped
  recorded := by simp

end Microfat.Pack
