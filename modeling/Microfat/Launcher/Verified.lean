/-
# Microfat.Launcher.Verified — only verified bytes are executed

Each execution path of the launcher is followed once, under any interference by
other processes (`Environment`), with the phase of the dispatch as the assertion that
is carried from call to call.  A path is proved for any phase that absorbs the events
it causes (`Absorbs`), so that the explicit modes and the fallbacks of the automatic
one are instances of the same lemmas.  `executeVariant_runs_verified` collects what
this says about the log of every run.
-/
import Microfat.Launcher.Trace
import Microfat.Theory.Sha256

namespace Microfat.Launcher

open Theory Format Codec Posix Cache

set_option autoImplicit false

section

variable (H : Sha256) (entry : VariantEntry) (mode : ExecMode)

/-- The launcher appends permitted events only. -/
def Guarantee (w w' : World Unit) : Prop := Grows H entry mode w.log w'.log

/-- In phase `A` the event is permitted and does not end the phase. -/
def Absorbs (A : List Event → Prop) (e : Event) : Prop :=
  ∀ l, A l → Permitted H entry mode e l ∧ A (e :: l)

/-- In phase `A` a runnable file may be executed, which leads to phase `B`. -/
def Runs (A B : List Event → Prop) : Prop :=
  ∀ l n, A l → Runnable H entry n → Permitted H entry mode (.exec n) l ∧ B (.exec n :: l)

/-- The program keeps to the guarantee whatever other processes do, and ends with `Q`. -/
abbrev Upholds {α : Type} (p : Program α) (Q : α → World Unit → Prop) (w : World Unit) : Prop :=
  Ensures (step ()) Environment (Guarantee H entry mode) p Q w

variable {H entry mode} {A B : List Event → Prop} {w : World Unit}

theorem quiet (phase : Phase A w) : Guarantee H entry mode w w ∧ Phase A w :=
  ⟨.refl _, phase⟩

theorem quiet_setFile (phase : Phase A w) (fd : Nat) (f : Option OpenFile) :
    Guarantee H entry mode w (w.setFile fd f) ∧ Phase A (w.setFile fd f) :=
  ⟨.refl _, phase.1, phase.2.setFile fd f⟩

theorem absorb {e : Event} (absorbs : Absorbs H entry mode A e) (phase : Phase A w) :
    Guarantee H entry mode w (w.record e) ∧ Phase A (w.record e) := by
  obtain ⟨permitted, next⟩ := absorbs w.log phase.1
  exact ⟨.one permitted, next, phase.2.record e⟩

/-! ## Calls on the cache directory -/

variable {fd : Nat} {f : OpenFile} {n : Inode}

section

variable (opens : Absorbs H entry mode A .cacheOpen) (phase : Phase A w) (name : Bytes) (x : Choice)

include opens phase name x

theorem step_openat_phase :
    Guarantee H entry mode w (step () w (.openat name) x).1 ∧
      Phase A (step () w (.openat name) x).1 ∧
      ∀ fd, (step () w (.openat name) x).2 = .ok fd → ∃ f,
        (step () w (.openat name) x).1.owner fd = some () ∧
        (step () w (.openat name) x).1.file fd = some f ∧
        Phase A (step () w (.openat name) x).1 ∧ f.ino < (step () w (.openat name) x).1.nextIno ∧
        ((step () w (.openat name) x).1.inode f.ino).memfd = false := by
  obtain ⟨grows, phase'⟩ := absorb opens phase
  cases failed : x.errno with
  | some e =>
    simp only [step, failed]
    exact ⟨grows, phase', by simp⟩
  | none =>
    simp only [step, failed]
    cases target : (w.record .cacheOpen).entry name with
    | none => exact ⟨grows, phase', by simp⟩
    | some ino =>
      dsimp only
      split
      · exact ⟨grows, phase', by simp⟩
      · obtain ⟨below, flag⟩ := phase'.2.entry target
        have opened : Phase A ((w.record .cacheOpen).openFile () ino) :=
          ⟨phase'.1, phase'.2.openFile ino⟩
        refine ⟨grows, opened, ?_⟩
        intro fd same
        cases same
        exact ⟨⟨ino, 0⟩, by simp, by simp, opened, below, flag⟩

theorem step_fstatat_phase :
    Guarantee H entry mode w (step () w (.fstatat name) x).1 ∧
      Phase A (step () w (.fstatat name) x).1 := by
  simp only [step]
  split
  · exact absorb opens phase
  · exact absorb opens phase
  · exact absorb opens phase

end

/-- The calls that change the cache. -/
inductive Writes : Call → Prop
  | createExcl (name : Bytes) (mode : Nat) : Writes (.createExcl name mode)
  | write (fd : Nat) (piece : Bytes) : Writes (.write fd piece)
  | fchmod (fd mode : Nat) : Writes (.fchmod fd mode)
  | renameat (old new : Bytes) : Writes (.renameat old new)
  | unlinkat (name : Bytes) : Writes (.unlinkat name)

/-- A change of one file is a write to the cache, unless the file is in memory. -/
theorem absorb_recordWrite (writes : Absorbs H entry mode A .cacheWrite) (phase : Phase A w)
    (ino : Nat) :
    Guarantee H entry mode w (w.recordWrite ino) ∧ Phase A (w.recordWrite ino) := by
  unfold World.recordWrite
  split
  · exact quiet phase
  · exact absorb writes phase

theorem step_writes_phase (writes : Absorbs H entry mode A .cacheWrite) (phase : Phase A w)
    {c : Call} (changes : Writes c) (x : Choice) :
    Guarantee H entry mode w (step () w c x).1 ∧ Phase A (step () w c x).1 := by
  have noted := absorb writes phase
  cases changes with
  | createExcl name mode =>
    simp only [step]
    split
    · exact noted
    · exact noted
    · refine ⟨noted.1, noted.2.1, ((noted.2.2.newInode _).openFile _).link ?_ ?_⟩
      · simp
      · simp
  | write fd piece =>
    simp only [step]
    split
    · exact quiet phase
    · rename_i f _
      split
      · exact quiet phase
      · obtain ⟨grows, phase'⟩ := absorb_recordWrite writes phase f.ino
        exact ⟨grows, phase'.1, phase.2.store fd f _⟩
  | fchmod fd mode =>
    simp only [step]
    split
    · exact quiet phase
    · exact quiet phase
    · rename_i f _ _
      obtain ⟨grows, phase'⟩ := absorb_recordWrite writes phase f.ino
      refine ⟨grows, phase'.1, phase'.2.setInode ?_⟩
      unfold World.recordWrite
      split
      · rfl
      · rfl
  | renameat old new =>
    simp only [step]
    split
    · exact noted
    · exact noted
    · rename_i found
      split
      · exact ⟨noted.1, noted.2.1, noted.2.2.publish found⟩
      · split
        · exact noted
        · split
          · exact noted
          · exact ⟨noted.1, noted.2.1, noted.2.2.publish found⟩
  | unlinkat name =>
    simp only [step]
    split
    · exact ⟨noted.1, noted.2.1, noted.2.2.failUnlink name⟩
    · exact noted
    · split
      · exact ⟨noted.1, noted.2.1, noted.2.2.failUnlink name⟩
      · exact ⟨noted.1, noted.2.1, noted.2.2.unlink name⟩

theorem phase_frame (H : Sha256) (entry : VariantEntry) (mode : ExecMode)
    (A : List Event → Prop) : Frame () Environment (Guarantee H entry mode) (Phase A) where
  refl := Environment.refl
  stable := phase_stable A
  owned _ _ fd moved owner := by
    rw [moved.owner, moved.file]
    exact ⟨owner, rfl⟩
  kept _ _ ino moved frozen := by
    rw [moved.frozen]
    exact ⟨frozen, moved.verified ino frozen⟩
  idle _ phase := (quiet phase).1
  close _ fd phase _ := quiet_setFile phase fd none

theorem ret_phase {α : Type} {a : α} (phase : Phase A w) :
    Upholds H entry mode (.ret a) (fun _ => Phase A) w :=
  ensures_ret (phase_stable A) phase fun _ phase => phase

/-- Opening and verifying a name of the cache, in any phase that may open it. -/
theorem ensures_open_phase {name : Bytes} {removeOnCorrupt : Bool}
    (opens : Absorbs H entry mode A .cacheOpen)
    (removes : removeOnCorrupt = true → Absorbs H entry mode A .cacheWrite) (phase : Phase A w) :
    Upholds H entry mode (openAndValidateVariantAtFD H name entry removeOnCorrupt)
      (fun r w => Phase A w ∧ match r with
        | .ok fd => ∃ f n, Pinned () fd f n w ∧ Matches H entry.uncompressedSize entry.sha256 n
        | .error err => Refused err) w := by
  have stable : ∀ f : OpenFile, Stable Environment fun w =>
      Phase A w ∧ f.ino < w.nextIno ∧ (w.inode f.ino).memfd = false := by
    intro f w w' ⟨phase, below, flag⟩ moved
    refine ⟨phase_stable A w w' phase moved, Nat.lt_of_lt_of_le below moved.nextIno, ?_⟩
    rw [moved.flag f.ino below]
    exact flag
  refine ensures_openAndValidateAtFD (phase_frame H entry mode A)
    (fun f w => Phase A w ∧ f.ino < w.nextIno ∧ (w.inode f.ino).memfd = false) stable
    (fun _ _ pre => pre.1) ?_ ?_ ?_ ?_ phase
  · intro fd f w ⟨phase, below, flag⟩ _ _
    exact ⟨.refl _, phase.1, phase.2.freeze below flag⟩
  · exact fun w x phase => step_openat_phase opens phase name x
  · exact fun w x phase => step_fstatat_phase opens phase name x
  · intro w phase
    unfold removeCorrupt
    cases removeOnCorrupt with
    | false => exact ret_phase phase
    | true =>
      refine ensures_call (phase_stable A) phase ?_
      intro w x phase
      obtain ⟨grows, phase⟩ := step_writes_phase (removes rfl) phase (.unlinkat name) x
      exact ⟨grows, ret_phase phase⟩

/-- A verified file of the cache is runnable: it is not a memory file. -/
theorem pinned_runnable (pinned : Pinned () fd f n w) (nameless : Nameless w)
    (good : Matches H entry.uncompressedSize entry.sha256 n) :
    Runnable H entry n := by
  refine ⟨good, fun memfd => ?_⟩
  have flag := (nameless.frozen f.ino pinned.frozen).2
  rw [pinned.inode, memfd] at flag
  cases flag

/-! ## Materialising in any phase that may write -/

variable {err : Err} {α : Type} {Q : α → World Unit → Prop} {tmp : Bytes} {payload : Payload}

/-- A result that keeps the phase, with a verified descriptor on success. -/
def Opened (H : Sha256) (entry : VariantEntry) (A : List Event → Prop)
    (r : Except Err (Bytes × Nat)) (w : World Unit) : Prop :=
  Phase A w ∧ ∀ path fd, r = .ok (path, fd) →
    ∃ f n, Pinned () fd f n w ∧ Matches H entry.uncompressedSize entry.sha256 n

theorem opened_error (phase : Phase A w) : Opened H entry A (.error err) w :=
  ⟨phase, fun _ _ impossible => by cases impossible⟩

theorem ret_opened (phase : Phase A w) : Upholds H entry mode (.ret (.error err)) (Opened H entry A) w :=
  ensures_ret (phase_stable A) phase fun _ phase => opened_error phase

theorem ensures_writes_phase {c : Call} {f : c.Reply → Program α}
    (writes : Absorbs H entry mode A .cacheWrite) (changes : Writes c) (phase : Phase A w)
    (next : ∀ r w, Phase A w → Upholds H entry mode (f r) Q w) :
    Upholds H entry mode (Prog.call c >>= f) Q w := by
  refine ensures_call (phase_stable A) phase ?_
  intro w x phase
  obtain ⟨grows, phase⟩ := step_writes_phase writes phase changes x
  exact ⟨grows, next _ _ phase⟩

theorem ensures_close_phase {f : Status → Program α} (phase : Phase A w)
    (next : ∀ r w, Phase A w → Upholds H entry mode (f r) Q w) :
    Upholds H entry mode (close fd >>= f) Q w := by
  refine ensures_call (phase_stable A) phase ?_
  intro w x phase
  obtain ⟨grows, phase⟩ := quiet_setFile phase fd none
  exact ⟨grows, next _ _ phase⟩

section

variable (writes : Absorbs H entry mode A .cacheWrite)

include writes

theorem ensures_abandonClosed_phase (phase : Phase A w) :
    Upholds H entry mode (abandonClosed tmp err) (Opened H entry A) w := by
  refine ensures_writes_phase writes (.unlinkat tmp) phase fun _ w phase => ?_
  exact ret_opened phase

theorem ensures_abandon_phase (phase : Phase A w) :
    Upholds H entry mode (abandon fd tmp err) (Opened H entry A) w :=
  ensures_close_phase phase fun _ _ phase => ensures_abandonClosed_phase writes phase

theorem ensures_createTempFileAt_phase (attempts : Nat) : ∀ {w : World Unit}, Phase A w →
      Upholds H entry mode (createTempFileAt attempts) (fun _ => Phase A) w := by
  induction attempts with
  | zero => exact fun phase => ret_phase phase
  | succ attempts ih =>
    intro w phase
    rw [createTempFileAt]
    refine ensures_call (phase_stable A) phase ?_
    intro w x phase
    refine ⟨.refl _, ?_⟩
    cases (step () w .random x).2 with
    | error err => exact ret_phase phase
    | ok rnd =>
      refine ensures_writes_phase writes (.createExcl _ _) phase fun r w phase => ?_
      cases r with
      | ok fd => exact ret_phase phase
      | error err =>
        dsimp only
        split
        · exact ret_phase phase
        · exact ih phase

theorem ensures_writePieces_phase (pieces : List Bytes) :
    ∀ {hashed : Bytes} {w : World Unit}, Phase A w →
      Upholds H entry mode (writePieces fd payload pieces hashed) (fun _ => Phase A) w := by
  induction pieces with
  | nil => exact fun phase => ret_phase phase
  | cons piece rest ih =>
    intro hashed w phase
    rw [writePieces]
    refine ensures_writes_phase writes (.write _ _) phase fun r w phase => ?_
    obtain ⟨n, status⟩ := r
    cases status with
    | some err => exact ret_phase phase
    | none =>
      dsimp only
      split
      · exact ret_phase phase
      · exact ih phase

end

theorem ensures_publishTemp_phase (opens : Absorbs H entry mode A .cacheOpen)
    (writes : Absorbs H entry mode A .cacheWrite) {cleanDir name : Bytes} (phase : Phase A w) :
    Upholds H entry mode (publishTemp H entry cleanDir name fd tmp) (Opened H entry A) w := by
  refine ensures_writes_phase writes (.fchmod _ _) phase fun r w phase => ?_
  cases r with
  | some err => exact ensures_abandon_phase writes phase
  | none =>
    refine ensures_call (phase_stable A) phase ?_
    intro w x phase
    refine ⟨.refl _, ?_⟩
    split
    · exact ensures_abandon_phase writes phase
    · refine ensures_close_phase phase fun r w phase => ?_
      cases r with
      | some err => exact ensures_abandonClosed_phase writes phase
      | none =>
        refine ensures_writes_phase writes (.renameat _ _) phase fun r w phase => ?_
        cases r with
        | some err => exact ensures_abandonClosed_phase writes phase
        | none =>
          refine ensures_seq Environment.refl (ensures_open_phase opens nofun phase) ?_
          rintro (openErr | vfd) w ⟨phase, result⟩
          · refine ensures_writes_phase writes (.unlinkat _) phase fun _ w phase => ?_
            exact ret_opened phase
          · obtain ⟨f, n, pinned, good⟩ := result
            refine ensures_ret ((phase_frame H entry mode A).pinned vfd f n) ⟨phase, pinned⟩ ?_
            intro w ⟨phase, pinned⟩
            refine ⟨phase, fun path got same => ?_⟩
            cases same
            exact ⟨f, n, pinned, good⟩

theorem ensures_materialize_phase (opens : Absorbs H entry mode A .cacheOpen)
    (writes : Absorbs H entry mode A .cacheWrite) {dirFD : Int} {dirPath : Bytes} (phase : Phase A w) :
    Upholds H entry mode (materializeAndOpenVariantAtFD H dirFD dirPath (some entry) (some payload))
      (Opened H entry A) w := by
  unfold materializeAndOpenVariantAtFD
  cases checked : checkMaterialize dirFD dirPath (some entry) (some payload) with
  | error err => exact ret_opened phase
  | ok both =>
    obtain ⟨found, given⟩ := both
    obtain ⟨same, -⟩ := checkMaterialize_ok checked
    cases same
    unfold materializeChecked
    have replacement : Upholds H entry mode
        (validateCacheReplacementAt (cleanPath entry.sha256)) (fun _ => Phase A) w := by
      refine ensures_call (phase_stable A) phase ?_
      intro w x phase
      obtain ⟨grows, phase⟩ := step_fstatat_phase opens phase (cleanPath entry.sha256) x
      refine ⟨grows, ?_⟩
      split
      · split
        · exact ret_phase phase
        · exact ret_phase phase
      · refine ensures_call (phase_stable A) phase ?_
        intro w x phase
        exact ⟨.refl _, ret_phase phase⟩
    refine ensures_seq Environment.refl replacement ?_
    rintro (_ | err) w phase
    · refine ensures_seq Environment.refl (ensures_createTempFileAt_phase writes _ phase) ?_
      rintro (createErr | ⟨fd, tmp⟩) w phase
      · exact ret_opened phase
      · refine ensures_seq Environment.refl (ensures_writePieces_phase writes _ phase) ?_
        rintro ⟨hashed, _ | err⟩ w phase
        · dsimp only
          split
          · exact ensures_abandon_phase writes phase
          · exact ensures_publishTemp_phase opens writes phase
        · exact ensures_abandon_phase writes phase
    · exact ret_opened phase

/-! ## Running from the cache -/

theorem Phase.mono (weaken : ∀ l, A l → B l) (phase : Phase A w) : Phase B w :=
  ⟨weaken _ phase.1, phase.2⟩

theorem ret_weaker {α : Type} {a : α} (weaken : ∀ l, A l → B l) (phase : Phase A w) :
    Upholds H entry mode (.ret a) (fun _ => Phase B) w :=
  ensures_ret (phase_stable A) phase fun _ phase => phase.mono weaken

theorem ensures_closeReturning (phase : Phase A w) :
    Upholds H entry mode (closeReturning fd err) (fun _ => Phase A) w :=
  ensures_close_phase phase fun _ _ phase =>
    ret_phase phase

/-- One `execve` attempt on a descriptor whose file is runnable. -/
theorem ensures_execve {S : World Unit → Prop} {k : Status → Program α} (runs : Runs H entry mode A B)
    (stable : Stable Environment S) (holds : S w) (phase : ∀ w, S w → Phase A w)
    (file : ∀ w, S w → w.file fd = some f ∧ w.inode f.ino = n) (good : Runnable H entry n)
    (next : ∀ r w, Phase B w → Upholds H entry mode (k r) Q w) :
    Upholds H entry mode (execve fd >>= k) Q w := by
  refine ensures_call stable holds ?_
  intro w x holds
  obtain ⟨isOpen, image⟩ := file w holds
  obtain ⟨permitted, after⟩ := runs w.log n (phase w holds).1 good
  simp only [step, isOpen, image]
  exact ⟨.one permitted, next _ _ ⟨after, (phase w holds).2.record _⟩⟩

theorem ensures_runCached {env : ModeEnv} {primaryErr : Option Err} (runs : Runs H entry mode A B)
    (phase : Phase A w) (pinned : Pinned () fd f n w)
    (good : Matches H entry.uncompressedSize entry.sha256 n) :
    Upholds H entry mode (runCached env primaryErr fd) (fun _ => Phase B) w := by
  unfold runCached
  refine ensures_execve runs ((phase_frame H entry mode A).pinned fd f n) ⟨phase, pinned⟩
    (fun _ holds => holds.1) (fun _ holds => ⟨holds.2.file, holds.2.inode⟩)
    (pinned_runnable pinned phase.2 good) ?_
  intro r w phase
  cases r with
  | none => exact ret_phase phase
  | some err => exact ensures_closeReturning phase

theorem ensures_checkExtractionBudget {idx : Option Index} (phase : Phase A w) :
    Upholds H entry mode (checkExtractionBudget entry idx) (fun _ => Phase A) w := by
  unfold checkExtractionBudget
  split
  · exact ret_phase phase
  · dsimp only
    split
    · exact ret_phase phase
    · refine ensures_call (phase_stable A) phase ?_
      intro w x phase
      exact ⟨.refl _, ret_phase phase⟩

section

variable [CaseTable] {D : Decoders} {selfFile : Bytes} {idx : Option Index} {env : ModeEnv}

theorem ensures_executeViaCache {primaryErr : Option Err}
    (opens : Absorbs H entry mode A .cacheOpen) (writes : Absorbs H entry mode A .cacheWrite)
    (runs : Runs H entry mode A B) (weaken : ∀ l, A l → B l) (phase : Phase A w) :
    Upholds H entry mode
      (executeViaCache H D selfFile entry idx env primaryErr) (fun _ => Phase B) w := by
  unfold executeViaCache
  refine ensures_call (phase_stable A) phase ?_
  intro w x phase
  obtain ⟨grows, phase⟩ := absorb opens phase
  obtain ⟨permitted, after⟩ := writes _ phase.1
  refine ⟨.next grows permitted, ?_⟩
  have phase : Phase A (step () w .resolveCacheDir x).1 := ⟨after, phase.2.record _⟩
  split
  · exact ret_weaker weaken phase
  · split
    · exact ret_weaker weaken phase
    · split
      · exact ret_weaker weaken phase
      · refine ensures_seq Environment.refl (ensures_open_phase opens (fun _ => writes) phase) ?_
        rintro (openErr | fd) w ⟨phase, result⟩
        · dsimp only
          split
          · exact ret_weaker weaken phase
          · unfold materializeAndRun
            refine ensures_seq Environment.refl (ensures_checkExtractionBudget phase) ?_
            rintro (_ | err) w phase
            · refine ensures_seq Environment.refl (ensures_materialize_phase opens writes phase) ?_
              rintro (matErr | ⟨path, fd⟩) w ⟨phase, result⟩
              · exact ret_weaker weaken phase
              · obtain ⟨f, n, pinned, good⟩ := result path fd rfl
                exact ensures_runCached runs phase pinned good
            · exact ret_weaker weaken phase
        · obtain ⟨f, n, pinned, good⟩ := result
          exact ensures_runCached runs phase pinned good

end

/-! ## Running from memory -/

variable {ino padding : Nat}

/-- The memory file while it is written: what was hashed, then what is left of the
zeros it was pre-sized with. -/
structure MemFile (fd ino padding : Nat) (hashed : Bytes) (w : World Unit) : Prop where
  owner : w.owner fd = some ()
  file : w.file fd = some ⟨ino, hashed.length⟩
  memfd : (w.inode ino).memfd = true
  content : (w.inode ino).content = hashed ++ List.replicate (padding - hashed.length) 0

theorem memFile_stable (A : List Event → Prop) (fd ino padding : Nat) (hashed : Bytes) :
    Stable Environment fun w => Phase A w ∧ MemFile fd ino padding hashed w := by
  intro w w' ⟨phase, mem⟩ moved
  have same := moved.memory ino mem.memfd
  refine ⟨phase_stable A w w' phase moved, ?_, ?_, ?_, ?_⟩
  · rw [moved.owner, mem.owner]
  · rw [moved.file, mem.file]
  · rw [same, mem.memfd]
  · rw [same, mem.content]

theorem overwrite_padded (hashed piece : Bytes) (padding : Nat) :
    overwrite (hashed ++ List.replicate (padding - hashed.length) 0) hashed.length piece =
      (hashed ++ piece) ++ List.replicate (padding - (hashed ++ piece).length) 0 := by
  have zeros : hashed.length - (hashed.length + (padding - hashed.length)) = 0 := by omega
  simp only [overwrite, List.take_left', List.length_append, List.length_replicate, zeros,
    List.replicate_zero, List.append_nil, List.drop_append, List.append_assoc]
  have past : hashed.length + piece.length - hashed.length = piece.length := by omega
  rw [List.drop_eq_nil_of_le (by omega : hashed.length ≤ hashed.length + piece.length), past,
    List.drop_replicate, List.nil_append, Nat.sub_sub]

theorem step_write_memory (H : Sha256) (entry : VariantEntry) (mode : ExecMode) {hashed : Bytes}
    (phase : Phase A w) (mem : MemFile fd ino padding hashed w) (piece : Bytes) (x : Choice) :
    Guarantee H entry mode w (step () w (.write fd piece) x).1 ∧
      Phase A (step () w (.write fd piece) x).1 ∧
      ((step () w (.write fd piece) x).2.2 = none →
        MemFile fd ino padding (hashed ++ piece) (step () w (.write fd piece) x).1) := by
  have silent : w.recordWrite ino = w := if_pos mem.memfd
  simp only [step, mem.file]
  split
  · exact ⟨.refl _, phase, by simp⟩
  · have same : ∀ n, (w.store fd ⟨ino, hashed.length⟩ (piece.take n)).log = w.log := by
      intro n
      unfold World.store
      rw [silent]
      rfl
    refine ⟨?_, ⟨?_, phase.2.store _ _ _⟩, ?_⟩
    · show Grows H entry mode w.log _
      rw [same]
      exact .refl _
    · rw [same]
      exact phase.1
    · intro succeeded
      dsimp only at succeeded
      rw [if_pos succeeded, List.take_length]
      unfold World.store
      rw [silent]
      refine ⟨mem.owner, by simp, by simpa using mem.memfd, ?_⟩
      simp only [World.setFile_inode, World.setInode_inode, Function.update_self, mem.content]
      exact overwrite_padded hashed piece padding

/-- After the payload the memory file starts with exactly its pieces. -/
theorem ensures_writePieces_memory (pieces : List Bytes) : ∀ {hashed : Bytes} {w : World Unit},
      Phase A w ∧ MemFile fd ino padding hashed w →
      Upholds H entry mode (writePieces fd payload pieces hashed)
        (fun r w => Phase A w ∧ (r.2 = none → r.1 = hashed ++ pieces.flatten ∧
          payload.final = none ∧ MemFile fd ino padding r.1 w)) w := by
  induction pieces with
  | nil =>
    intro hashed w holds
    refine ensures_ret (memFile_stable A fd ino padding hashed) holds ?_
    intro w ⟨phase, mem⟩
    exact ⟨phase, fun ended => ⟨by simp, ended, mem⟩⟩
  | cons piece rest ih =>
    intro hashed w holds
    rw [writePieces]
    refine ensures_call (memFile_stable A fd ino padding hashed) holds ?_
    intro w x ⟨phase, mem⟩
    obtain ⟨grows, phase, next⟩ := step_write_memory H entry mode phase mem piece x
    refine ⟨grows, ?_⟩
    cases answer : (step () w (.write fd piece) x).2 with
    | mk n status =>
      rw [answer] at next
      cases status with
      | some err =>
        exact ensures_ret (phase_stable A) phase fun _ phase =>
          ⟨phase, fun impossible => by cases impossible⟩
      | none =>
        dsimp only
        split
        · exact ensures_ret (phase_stable A) phase fun _ phase =>
            ⟨phase, fun impossible => by cases impossible⟩
        · refine ensures_mono ?_ (ih ⟨phase, next rfl⟩)
          intro r w ⟨phase, result⟩
          refine ⟨phase, fun ended => ?_⟩
          obtain ⟨all, final, mem⟩ := result ended
          refine ⟨?_, final, mem⟩
          rw [all, List.flatten_cons, List.append_assoc]

theorem recorder_stores : Stores recorder List.flatten where
  err _ _ := rfl
  n _ _ := rfl
  state := by simp [recorder]

/-- The memory file, no longer written. -/
theorem memory_stable (A : List Event → Prop) (fd : Nat) (f : OpenFile) (n : Inode)
    (memfd : n.memfd = true) :
    Stable Environment fun w => Phase A w ∧ w.file fd = some f ∧ w.inode f.ino = n := by
  intro w w' ⟨phase, file, inode⟩ moved
  refine ⟨phase_stable A w w' phase moved, ?_, ?_⟩
  · rw [moved.file, file]
  · rw [moved.memory f.ino (by rw [inode]; exact memfd), inode]

section

variable (creates : Absorbs H entry mode A .memfdCreate) (phase : Phase A w)

include creates phase

theorem ensures_memfdCreate {explicitExec : Bool} {k : Except Nat Nat → Program α}
    (made : ∀ fd ino w, Phase A w ∧ MemFile fd ino 0 [] w →
      Upholds H entry mode (k (.ok fd)) Q w) (failed : ∀ err w, Phase A w →
      Upholds H entry mode (k (.error err)) Q w) :
    Upholds H entry mode (memfdCreate explicitExec >>= k) Q w := by
  refine ensures_call (phase_stable A) phase ?_
  intro w x phase
  obtain ⟨grows, phase⟩ := absorb creates phase
  cases outcome : x.errno with
  | some err =>
    simp only [step, outcome]
    exact ⟨grows, failed err _ phase⟩
  | none =>
    simp only [step, outcome]
    refine ⟨grows, made _ w.nextIno _ ⟨⟨phase.1, (phase.2.newInode _).openFile _⟩, ?_⟩⟩
    exact ⟨by simp, by simp, by simp, by simp⟩

theorem ensures_createExecutableMemfd :
    Upholds H entry mode createExecutableMemfd
      (fun r w => Phase A w ∧ ∀ fd, r = .ok fd → ∃ ino, MemFile fd ino 0 [] w) w := by
  have made : ∀ (fd ino : Nat) (w : World Unit), Phase A w ∧ MemFile fd ino 0 [] w →
      Upholds H entry mode (.ret (.ok fd) : Program (Except Err Nat))
        (fun r w => Phase A w ∧ ∀ fd, r = .ok fd → ∃ ino, MemFile fd ino 0 [] w) w := by
    intro fd ino w holds
    refine ensures_ret (memFile_stable A fd ino 0 []) holds ?_
    intro w ⟨phase, mem⟩
    refine ⟨phase, fun got same => ?_⟩
    cases same
    exact ⟨ino, mem⟩
  have failed : ∀ (err : Err) (w : World Unit), Phase A w →
      Upholds H entry mode (.ret (.error err) : Program (Except Err Nat))
        (fun r w => Phase A w ∧ ∀ fd, r = .ok fd → ∃ ino, MemFile fd ino 0 [] w) w :=
    fun err w phase => ensures_ret (phase_stable A) phase fun _ phase =>
      ⟨phase, fun _ impossible => by cases impossible⟩
  unfold createExecutableMemfd
  refine ensures_memfdCreate creates phase made ?_
  intro err w phase
  dsimp only
  split
  · exact ensures_memfdCreate creates phase made fun _ w phase => failed _ w phase
  · exact failed _ w phase

end

section

variable [CaseTable] {D : Decoders} {selfFile : Bytes} {idx : Option Index} {env : ModeEnv}

/-- A payload that ends without an error has the declared size. -/
theorem variantPayload_length
    (complete : (variantPayload H D selfFile entry idx).final = none) :
    ((variantPayload H D selfFile entry idx).pieces.flatten.length : Int) =
      entry.uncompressedSize.toInt := by
  have ok : (decompressVariantToWriter H D selfFile entry idx recorder []).2 = .ok () := by
    cases ended : (decompressVariantToWriter H D selfFile entry idx recorder []).2 with
    | ok u => rfl
    | error fault =>
      simp only [variantPayload, ended] at complete
      cases fault with
      | error err => cases complete
      | trap t => cases complete
  show ((decompressVariantToWriter H D selfFile entry idx recorder []).1.flatten.length : Int) = _
  cases prepared : prepareVariant H selfFile entry idx with
  | error fault =>
    rw [decompressVariantToWriter_fails prepared] at ok
    cases ok
  | ok found =>
    obtain ⟨complete, state⟩ := decompressVariantToWriter_eq (c := found.2) prepared
    rw [state, decompress_length recorder_stores.keeps (complete.mp ok)]
    simp

theorem ensures_runMemfd (runs : Runs H entry mode A B) (weaken : ∀ l, A l → B l)
    (short : padding ≤ entry.uncompressedSize.toInt.toNat)
    (holds : Phase A w ∧ MemFile fd ino padding [] w) :
    Upholds H entry mode (runMemfd H D selfFile entry idx fd) (fun _ => Phase B) w := by
  have stop : ∀ {err : Err} {w : World Unit}, Phase A w →
      Upholds H entry mode (closeReturning fd err) (fun _ => Phase B) w :=
    fun phase => ensures_mono (fun _ _ phase => Phase.mono weaken phase)
      (ensures_closeReturning phase)
  unfold runMemfd
  refine ensures_seq Environment.refl (ensures_writePieces_memory _ holds) ?_
  rintro ⟨hashed, _ | err⟩ w ⟨phase, result⟩
  · obtain ⟨all, complete, mem⟩ := result rfl
    dsimp only at all mem ⊢
    split
    · exact stop phase
    · rename_i sum
      -- the pre-sized zeros are all overwritten: the file is what was hashed
      have length : (hashed.length : Int) = entry.uncompressedSize.toInt := by
        rw [all, List.nil_append]
        exact variantPayload_length complete
      refine ensures_call (memFile_stable A fd ino padding hashed) ⟨phase, mem⟩ ?_
      intro w x ⟨phase, mem⟩
      have content : (w.inode ino).content = hashed := by
        rw [mem.content, show padding - hashed.length = 0 by omega]
        simp
      cases failed : x.errno with
      | some err =>
        simp only [step, failed]
        exact ⟨.refl _, stop phase⟩
      | none =>
        simp only [step, failed, mem.file]
        refine ⟨.refl _, ?_⟩
        have good : Runnable H entry { w.inode ino with isSealed := true } := by
          refine ⟨⟨?_, ?_⟩, fun _ => rfl⟩
          · rw [content]
            exact length
          · rw [content]
            exact Decidable.not_not.mp sum
        refine ensures_execve (f := ⟨ino, hashed.length⟩) runs
          (memory_stable A fd ⟨ino, hashed.length⟩ { w.inode ino with isSealed := true } mem.memfd)
          ⟨⟨phase.1, phase.2.setInode rfl⟩, mem.file, by simp⟩ (fun _ holds => holds.1)
          (fun _ holds => holds.2) good ?_
        intro r w phase
        cases r with
        | none => exact ret_phase phase
        | some err => exact ensures_closeReturning phase
  · exact stop phase

theorem ensures_executeViaMemfd (creates : Absorbs H entry mode A .memfdCreate)
    (runs : Runs H entry mode A B) (weaken : ∀ l, A l → B l) (phase : Phase A w) :
    Upholds H entry mode (executeViaMemfd H D selfFile entry idx env) (fun _ => Phase B) w := by
  unfold executeViaMemfd
  refine ensures_seq Environment.refl (ensures_checkExtractionBudget phase) ?_
  rintro (_ | err) w phase
  · refine ensures_seq Environment.refl (ensures_createExecutableMemfd creates phase) ?_
    rintro (err | fd) w ⟨phase, created⟩
    · dsimp only
      split
      · exact ret_weaker weaken phase
      · exact ret_weaker weaken phase
    · obtain ⟨ino, mem⟩ := created fd rfl
      refine ensures_call (memFile_stable A fd ino 0 []) ⟨phase, mem⟩ ?_
      intro w x ⟨phase, mem⟩
      cases failed : x.errno with
      | some err =>
        simp only [step, failed]
        exact ⟨.refl _, ensures_runMemfd runs weaken (Nat.zero_le _) ⟨phase, mem⟩⟩
      | none =>
        simp only [step, failed, mem.file]
        split
        · exact ⟨.refl _, ensures_runMemfd runs weaken (Nat.zero_le _) ⟨phase, mem⟩⟩
        · have silent : w.recordWrite ino = w := if_pos mem.memfd
          rw [silent]
          refine ⟨.refl _, ensures_runMemfd runs weaken (Nat.le_refl _)
            ⟨⟨phase.1, phase.2.setInode rfl⟩, mem.owner, mem.file, ?_, ?_⟩⟩
          · simpa using mem.memfd
          · have empty : (w.inode ino).content = [] := by simpa using mem.content
            simp [resize, empty]
  · exact ret_weaker weaken phase

end

/-! ## The automatic mode -/

/-- The past of a dispatch in automatic mode: how often it tried to execute, and what
its lookups found. -/
structure Past (k : Nat) (L : List Lookup → Prop) (l : List Event) : Prop where
  attempts : attempts l ≤ k
  looked : L (l.filterMap lookupOf)

/-- No lookup yet, and one lookup, with an answer of one kind. -/
def NoLookup (looked : List Lookup) : Prop := looked = []
def Only (kind : Lookup → Prop) (looked : List Lookup) : Prop := ∃ found, looked = [found] ∧ kind found

theorem Past.found {k : Nat} {kind : Lookup → Prop} {l : List Event} (past : Past k (Only kind) l) :
    ∃ found, .lookup found ∈ l ∧ kind found := by
  obtain ⟨found, looked, here⟩ := past.looked
  exact ⟨found, mem_looked.mpr (by simp [looked]), here⟩

/-- A lookup of another kind did not end in an unsafe entry. -/
theorem Past.clear {k : Nat} {kind : Lookup → Prop} {l : List Event} (past : Past k (Only kind) l)
    (other : ∀ found, kind found → ¬ Unsafe found) : ∀ found, .lookup found ∈ l → ¬ Unsafe found := by
  obtain ⟨found, looked, here⟩ := past.looked
  intro again mem
  rw [mem_looked, looked, List.mem_singleton] at mem
  exact mem ▸ other found here

theorem hit_clear (found : Lookup) (hit : Hit found) : ¬ Unsafe found := by
  rcases found with _ | err | fd
  · exact hit.elim
  · exact hit.elim
  · exact id

theorem miss_clear (found : Lookup) (miss : Miss found) : ¬ Unsafe found := miss.2

variable {k : Nat} {L : List Lookup → Prop} {kind : Lookup → Prop}

theorem past_absorbs_open (H : Sha256) (entry : VariantEntry) :
    Absorbs H entry .auto (Past k L) .cacheOpen :=
  fun _ past => ⟨by simp [Permitted], past.attempts, past.looked⟩

theorem past_absorbs_memfd : Absorbs H entry .auto (Past k L) .memfdCreate :=
  fun _ past => ⟨by simp [Permitted], past.attempts, past.looked⟩

theorem past_runs (few : k ≤ 1) (other : ∀ found, kind found → ¬ Unsafe found) :
    Runs H entry .auto (Past k (Only kind)) (Past (k + 1) (Only kind)) := by
  intro l n past good
  refine ⟨⟨good, fun _ => ⟨Nat.le_trans past.attempts few, past.clear other⟩⟩, ?_, past.looked⟩
  show List.countP isExec (.exec n :: l) ≤ k + 1
  rw [List.countP_cons_of_pos rfl]
  exact Nat.succ_le_succ past.attempts

/-- A miss, and a memory attempt whose failure is eligible for the cache. -/
def Fallback (l : List Event) : Prop :=
  Past 1 (Only Miss) l ∧ ∃ err, .memfdFailed err ∈ l ∧ Eligible err

theorem fallback_absorbs_open : Absorbs H entry .auto Fallback .cacheOpen := by
  intro l ⟨past, err, mem, eligible⟩
  obtain ⟨permitted, past⟩ := past_absorbs_open H entry l past
  exact ⟨permitted, past, err, List.mem_cons_of_mem _ mem, eligible⟩

theorem fallback_absorbs_write : Absorbs H entry .auto Fallback .cacheWrite := by
  intro l ⟨past, err, mem, eligible⟩
  exact ⟨⟨by simp, fun _ => ⟨past.found, err, mem, eligible⟩⟩, ⟨past.attempts, past.looked⟩, err,
    List.mem_cons_of_mem _ mem, eligible⟩

theorem ensures_note {e : Event} {f : Unit → Program α}
    (permits : ∀ l, A l → Permitted H entry mode e l ∧ B (e :: l)) (phase : Phase A w)
    (next : ∀ w, Phase B w → Upholds H entry mode (f ()) Q w) :
    Upholds H entry mode (note e >>= f) Q w := by
  refine ensures_call (phase_stable A) phase ?_
  intro w x phase
  obtain ⟨permitted, after⟩ := permits w.log phase.1
  exact ⟨.one permitted, next _ ⟨after, phase.2.record e⟩⟩

/-- The lookup is noted before anything was executed. -/
theorem permits_lookup (H : Sha256) (entry : VariantEntry) {found : Lookup} (here : kind found) (l : List Event)
    (past : Past 0 NoLookup l) :
    Permitted H entry .auto (.lookup found) l ∧ Past 0 (Only kind) (.lookup found :: l) := by
  refine ⟨⟨Nat.le_zero.mp past.attempts, past.looked⟩, past.attempts, found, ?_, here⟩
  show found :: l.filterMap lookupOf = [found]
  rw [show l.filterMap lookupOf = [] from past.looked]

/-- How the lookup leaves the dispatch. -/
def LookedUp (r : Bool × Option Err) (w : World Unit) : Prop :=
  match r with
  | (true, _) => Phase (Past 1 (Only Hit)) w
  | (false, none) => Phase (Past 0 (Only Miss)) w
  | (false, some err) => Phase (Past 0 (Only Unsafe)) w ∧ Refused err

/-- The predicate of the source tells the unsafe entries apart. -/
theorem isUnsafeEntryErr_iff (err : Err) : isUnsafeEntryErr err = true ↔ Unsafe (.opened (.error err)) := by
  simp [isUnsafeEntryErr, isSymlinkErr, Unsafe, or_assoc]

theorem ensures_executeExistingCache (phase : Phase (Past 0 NoLookup) w) :
    Upholds H entry .auto (executeExistingCache H entry) LookedUp w := by
  have skip : ∀ w : World Unit, Phase (Past 0 NoLookup) w →
      Upholds H entry .auto
        (note (.lookup .skipped) >>= fun _ => (.ret (false, none) : Program (Bool × Option Err))) LookedUp w :=
    fun w phase => ensures_note (permits_lookup H entry (show Miss .skipped from ⟨id, id⟩)) phase fun w phase =>
      ensures_ret (phase_stable _) phase fun _ phase => phase
  unfold executeExistingCache
  split
  · exact skip w phase
  · refine ensures_call (phase_stable _) phase ?_
    intro w x phase
    obtain ⟨grows, phase⟩ := absorb (past_absorbs_open H entry) phase
    refine ⟨grows, ?_⟩
    split
    · exact skip _ phase
    · split
      · exact skip _ phase
      · refine ensures_seq Environment.refl (ensures_open_phase (past_absorbs_open H entry) nofun phase) ?_
        rintro (err | fd) w ⟨phase, result⟩
        · by_cases refused : isUnsafeEntryErr err = true
          · refine ensures_note (permits_lookup H entry ((isUnsafeEntryErr_iff err).mp refused)) phase
              fun w phase => ?_
            dsimp only
            rw [if_pos refused]
            refine ensures_ret (phase_stable _) phase fun _ phase => ⟨phase, ?_⟩
            have inner : Refused err := result
            unfold Refused Err.is at inner ⊢
            split <;> simp [handleCacheError, stageCacheCreateTemp, stageCacheExec, lit, inner, Sentinel.same]
          · have miss : Miss (.opened (.error err)) := ⟨id, fun bad => refused ((isUnsafeEntryErr_iff err).mpr bad)⟩
            refine ensures_note (permits_lookup H entry miss) phase fun w phase => ?_
            dsimp only
            rw [if_neg refused]
            exact ensures_ret (phase_stable _) phase fun _ phase => phase
        · obtain ⟨f, n, pinned, good⟩ := result
          refine ensures_call ((phase_frame H entry .auto _).pinned fd f n) ⟨phase, pinned⟩ ?_
          rintro w x ⟨phase, pinned⟩
          obtain ⟨permitted, past⟩ := permits_lookup H entry (show Hit (.opened (.ok fd)) from trivial)
            w.log phase.1
          refine ⟨.one permitted, ?_⟩
          have hit : Phase (Past 0 (Only Hit)) (w.record (.lookup (.opened (.ok fd)))) := ⟨past, phase.2.record _⟩
          have pinned : Pinned () fd f n (w.record (.lookup (.opened (.ok fd)))) :=
            ⟨pinned.owner, pinned.file, pinned.frozen, pinned.inode⟩
          refine ensures_execve (past_runs (Nat.zero_le 1) hit_clear)
            ((phase_frame H entry .auto _).pinned fd f n) ⟨hit, pinned⟩ (fun _ holds => holds.1)
            (fun _ holds => ⟨holds.2.file, holds.2.inode⟩) (pinned_runnable pinned hit.2 good) ?_
          intro r w phase
          cases r with
          | none => exact ensures_ret (phase_stable _) phase fun _ phase => phase
          | some err =>
            refine ensures_close_phase phase fun _ w phase => ?_
            exact ensures_ret (phase_stable _) phase fun _ phase => phase

section

variable [CaseTable] {D : Decoders} {selfFile : Bytes} {idx : Option Index} {env : ModeEnv}

/-- The launcher does not report success after an unsafe entry. -/
def Aborts (r : Option Err) (w : World Unit) : Prop :=
  ∀ found, .lookup found ∈ w.log → Unsafe found → r ≠ none

omit [CaseTable] in
theorem aborts_of_clear {k : Nat} (other : ∀ found, kind found → ¬ Unsafe found) (r : Option Err)
    (phase : Phase (Past k (Only kind)) w) : Aborts r w :=
  fun found looked refused => absurd refused (phase.1.clear other found looked)

/-- After the lookup the launcher never goes back to it. -/
theorem ensures_executeAfterLookup {hitErr : Option Err}
    (before : match hitErr with
      | some _ => Phase (Past 1 (Only Hit)) w
      | none => Phase (Past 0 (Only Miss)) w) :
    Upholds H entry .auto (executeAfterLookup H D selfFile entry idx env hitErr) Aborts w := by
  have failed : ∀ (k : Nat) (kind : Lookup → Prop) (err : Err) (l : List Event), Past k (Only kind) l →
      Permitted H entry .auto (.memfdFailed err) l ∧
        (Past k (Only kind) (.memfdFailed err :: l) ∧ .memfdFailed err ∈ .memfdFailed err :: l) :=
    fun k kind err l past =>
      ⟨trivial, ⟨past.attempts, past.looked⟩, List.mem_cons_self⟩
  unfold executeAfterLookup
  cases hitErr with
  | some cacheErr =>
    refine ensures_seq Environment.refl (ensures_executeViaMemfd
      past_absorbs_memfd (past_runs (Nat.le_refl 1) hit_clear)
      (fun _ past => ⟨Nat.le_succ_of_le past.attempts, past.looked⟩) before) ?_
    rintro (_ | err) w phase
    · exact ensures_ret (phase_stable _) phase fun _ phase => aborts_of_clear hit_clear _ phase
    · refine ensures_note (B := fun l => Past 2 (Only Hit) l ∧ .memfdFailed err ∈ l)
        (failed 2 Hit err) phase fun w phase => ?_
      exact ensures_ret (phase_stable _) phase fun _ phase =>
        aborts_of_clear hit_clear _ (phase.mono fun _ both => both.1)
  | none =>
    refine ensures_seq Environment.refl (ensures_executeViaMemfd
      past_absorbs_memfd (past_runs (Nat.zero_le 1) miss_clear)
      (fun _ past => ⟨Nat.le_succ_of_le past.attempts, past.looked⟩) before) ?_
    rintro (_ | err) w phase
    · exact ensures_ret (phase_stable _) phase fun _ phase => aborts_of_clear miss_clear _ phase
    · refine ensures_note (B := fun l => Past 1 (Only Miss) l ∧ .memfdFailed err ∈ l)
        (failed 1 Miss err) phase fun w phase => ?_
      dsimp only
      split
      · exact ensures_ret (phase_stable _) phase fun _ phase =>
          aborts_of_clear miss_clear _ (phase.mono fun _ both => both.1)
      · rename_i eligible
        rw [Bool.or_eq_true, not_or, Bool.not_eq_true, Bool.not_eq_true] at eligible
        have fallback : Phase Fallback w := phase.mono fun _ both => ⟨both.1, err, both.2, eligible⟩
        refine ensures_mono ?_ (ensures_executeViaCache (B := Past 2 (Only Miss))
          fallback_absorbs_open fallback_absorbs_write ?_ ?_ fallback)
        · exact fun r _ phase => aborts_of_clear miss_clear r phase
        · intro l n ⟨past, _⟩ good
          exact past_runs (Nat.le_refl 1) miss_clear l n past good
        · exact fun _ fallback => ⟨Nat.le_succ_of_le fallback.1.attempts, fallback.1.looked⟩

/-- In the explicit modes there is no lookup. -/
def Explicit (l : List Event) : Prop := l.filterMap lookupOf = []

omit [CaseTable] in
theorem explicit_runs (explicit : mode ≠ .auto) : Runs H entry mode Explicit Explicit :=
  fun _ _ none good => ⟨⟨good, fun auto => absurd auto explicit⟩, none⟩

theorem ensures_executeVariant (fresh : w.log = []) (nameless : Nameless w) :
    Upholds H entry (resolveRequestedExecMode env) (executeVariant H D selfFile entry idx env) Aborts w := by
  have quietly : ∀ (r : Option Err) (w : World Unit), Phase Explicit w → Aborts r w := by
    intro r w phase found looked
    rw [mem_looked, phase.1] at looked
    cases looked
  have explicit : Phase Explicit w := by
    refine ⟨?_, nameless⟩
    rw [fresh]
    rfl
  have first : Phase (Past 0 NoLookup) w := by
    refine ⟨?_, nameless⟩
    rw [fresh]
    exact ⟨Nat.le_refl 0, rfl⟩
  unfold executeVariant
  cases requested : resolveRequestedExecMode env with
  | cache =>
    refine ensures_mono quietly (ensures_executeViaCache ?_ ?_ (explicit_runs (by simp))
      (fun _ none => none) explicit)
    · exact fun _ none => ⟨by simp [Permitted], none⟩
    · exact fun _ none => ⟨by simp [Permitted], none⟩
  | memfd =>
    refine ensures_mono quietly (ensures_executeViaMemfd ?_ (explicit_runs (by simp))
      (fun _ none => none) explicit)
    exact fun _ none => ⟨by simp [Permitted], none⟩
  | auto =>
    refine ensures_seq Environment.refl (ensures_executeExistingCache first) ?_
    rintro ⟨hit, cacheErr⟩ w looked
    cases hit with
    | true =>
      cases cacheErr with
      | none => exact ensures_ret (phase_stable _) looked fun _ phase => aborts_of_clear hit_clear _ phase
      | some err =>
        dsimp only
        split
        · exact ensures_ret (phase_stable _) looked fun _ _ _ _ _ => by simp
        · exact ensures_executeAfterLookup looked
    | false =>
      cases cacheErr with
      | none => exact ensures_executeAfterLookup looked
      | some err =>
        obtain ⟨phase, refused⟩ := looked
        have notExec : (!Err.is err .errExecve) = true := by
          rw [show Err.is err .errExecve = false from refused]
          rfl
        dsimp only
        rw [if_pos notExec]
        exact ensures_ret (phase_stable _) phase fun _ _ _ _ _ => by simp

end

end

/-! ## Every run -/

theorem launcher_compatible (H : Sha256) (entry : VariantEntry) (mode : ExecMode) :
    Compatible Environment (fun _ : Unit => Environment) (fun _ => Guarantee H entry mode)
      (fun w => Follows H entry mode w.log) where
  refl _ := Environment.refl
  trans _ _ _ _ := Environment.trans
  threads i j _ _ other _ := absurd (Subsingleton.elim i j) other
  environment _ _ _ moved := moved
  guards _ _ _ := Grows.follows
  allows _ _ moved follows := by
    rw [moved.log]
    exact follows

/-- **The launcher runs only verified bytes and follows its fallback protocol.**  Start
`executeVariant` on any entry, in any mode and any cache, and let every call end in any
way and other processes interfere, except with a file whose verification has begun.
In every state that is reached:

* every file on which `execve` was attempted had exactly the entry's size and digest,
  and was sealed if it was in memory;
* in automatic mode there were at most two attempts and one lookup in the cache; each
  write to the cache came after a lookup whose answer was neither a verified descriptor
  nor the error of an unsafe entry, and after a memory attempt that failed for another
  reason than the budget or the payload; and if the lookup answered with the error of an
  unsafe entry, nothing is executed or written and the launcher returns an error;
* in memory mode the cache is not opened, in cache mode no memory file is created. -/
theorem executeVariant_runs_verified [CaseTable] (H : Sha256) (D : Decoders) (selfFile : Bytes)
    (entry : VariantEntry) (idx : Option Index) (env : ModeEnv) (w : World Unit)
    (fresh : w.log = []) (unverified : ∀ ino, w.frozen ino = false)
    (named : ∀ name ino, w.dir name = some ino → ino < w.nextIno ∧ (w.inode ino).memfd = false)
    (s : Pool Unit Call Call.Reply (Option Err) (World Unit))
    (reach : PoolRun step Environment
      ⟨fun _ => executeVariant H D selfFile entry idx env, w⟩ s) :
    (∀ image, .exec image ∈ s.world.log →
      (image.content.length : Int) = entry.uncompressedSize.toInt ∧
      hexEncode (H.sum image.content) = entry.sha256 ∧
      (image.memfd = true → image.isSealed = true)) ∧
    (resolveRequestedExecMode env = .auto →
      attempts s.world.log ≤ 2 ∧
      (∀ found other, .lookup found ∈ s.world.log → .lookup other ∈ s.world.log → found = other) ∧
      (∀ later earlier, s.world.log = later ++ .cacheWrite :: earlier →
        (∃ found, .lookup found ∈ earlier ∧ ¬ Hit found ∧ ¬ Unsafe found) ∧
        ∃ err, .memfdFailed err ∈ earlier ∧ Err.is err .errMemoryBudget = false ∧
          isPayloadCorruptionOrDecompressionError err = false) ∧
      ∀ found, .lookup found ∈ s.world.log → Unsafe found →
        (∀ image, .exec image ∉ s.world.log) ∧ .cacheWrite ∉ s.world.log ∧
        ∀ r, s.threads () = .ret r → r ≠ none) ∧
    (resolveRequestedExecMode env = .memfd → .cacheOpen ∉ s.world.log ∧ .cacheWrite ∉ s.world.log) ∧
    (resolveRequestedExecMode env = .cache → .memfdCreate ∉ s.world.log) := by
  have nameless : Nameless w := by
    refine ⟨named, fun ino frozen => ?_⟩
    rw [unverified] at frozen
    cases frozen
  have compatible := launcher_compatible H entry (resolveRequestedExecMode env)
  have start : PoolEnsures step (fun _ => Environment)
      (fun _ => Guarantee H entry (resolveRequestedExecMode env))
      (fun _ => Aborts)
      (fun w => Follows H entry (resolveRequestedExecMode env) w.log)
      ⟨fun _ : Unit => executeVariant H D selfFile entry idx env, w⟩ := by
    refine ⟨?_, fun _ => ensures_executeVariant fresh nameless⟩
    show Follows H entry (resolveRequestedExecMode env) w.log
    rw [fresh]
    trivial
  have all := pool_ensures compatible start reach
  have follows := all.1
  refine ⟨?_, ?_, ?_, ?_⟩
  · intro image mem
    obtain ⟨earlier, ⟨good, sealedIfMemory⟩, -⟩ := follows.mem mem
    exact ⟨good.1, good.2, sealedIfMemory⟩
  · intro auto
    rw [auto] at follows
    refine ⟨follows.attempts_le, fun _ _ => follows.lookup_unique, ?_, ?_⟩
    · intro later earlier split
      rw [split] at follows
      exact follows.split.2 rfl
    · intro found looked refused
      obtain ⟨unexecuted, unwritten⟩ := follows.refused looked refused
      exact ⟨unexecuted, unwritten, fun r done => all.returned compatible done found looked refused⟩
  · intro memfd
    rw [memfd] at follows
    constructor
    · intro mem
      obtain ⟨earlier, permitted⟩ := follows.mem mem
      exact permitted rfl
    · intro mem
      obtain ⟨earlier, permitted⟩ := follows.mem mem
      exact permitted.1 rfl
  · intro cache
    rw [cache] at follows
    intro mem
    obtain ⟨earlier, permitted⟩ := follows.mem mem
    exact permitted rfl

section

local instance : CaseTable := CaseTable.ascii

/-- Seven stored bytes at the start of the binary. -/
def sampleBinary : Bytes := [1, 2, 3, 4, 5, 6, 7]

def sampleEntry : VariantEntry :=
  { level := lit "v1", sha256 := hexEncode (sha256.sum sampleBinary), offset := 0,
    compressedSize := 7, uncompressedSize := 7, compression := lit "none" }

/-- A cache that holds seven other bytes under the digest. -/
def sampleLaunch : World Unit :=
  { dir := fun name => if name = sampleEntry.sha256 then some 0 else none
    inode := fun _ => ⟨.regular, 0o700, 1000, List.replicate 7 0, false, false⟩
    nextIno := 1
    file := fun _ => none
    nextFd := 3
    euid := fun _ => 1000
    owner := fun _ => none
    creator := fun _ => none
    frozen := fun _ => false
    unlinkFailed := fun _ _ => false
    log := [] }

/-- A launch in automatic mode on a kernel without `memfd_create`: the lookup finds the wrong
bytes, the memory attempt fails, and the cache is written and run. -/
def samplePool : Pool Unit Call Call.Reply (Option Err) (World Unit) :=
  runPool step ⟨fun _ => executeVariant sha256 ⟨fun _ _ => .ok ⟨[], none⟩, fun _ => ⟨[], none⟩⟩
    sampleBinary sampleEntry none ⟨[], []⟩, sampleLaunch⟩
    (List.replicate 9 ((), Choice.fine) ++ ((), { Choice.fine with errno := some Errno.enosys }) ::
      List.replicate 24 ((), Choice.fine))

theorem executeVariant_runs_verified_sample :
    attempts samplePool.world.log = 1 ∧
    (∀ image, .exec image ∈ samplePool.world.log →
      (image.content.length : Int) = sampleEntry.uncompressedSize.toInt ∧
      hexEncode (sha256.sum image.content) = sampleEntry.sha256 ∧
      (image.memfd = true → image.isSealed = true)) ∧
    ∃ later earlier, samplePool.world.log = later ++ .cacheWrite :: earlier ∧
      (∃ found, .lookup found ∈ earlier ∧ ¬ Hit found ∧ ¬ Unsafe found) ∧
      ∃ err, .memfdFailed err ∈ earlier ∧ Err.is err .errMemoryBudget = false ∧
        isPayloadCorruptionOrDecompressionError err = false := by
  have all := executeVariant_runs_verified sha256 _ _ _ _ _ sampleLaunch rfl (fun _ => rfl)
    (fun name ino held => by
      obtain ⟨-, first⟩ := Option.ite_none_right_eq_some.mp held
      cases first
      exact ⟨Nat.zero_lt_one, rfl⟩) samplePool (runPool_run _ _)
  have written : (samplePool.world.log.any fun | .cacheWrite => true | _ => false) = true := by decide +kernel
  obtain ⟨event, mem, isWrite⟩ := List.any_eq_true.mp written
  cases event with
  | cacheWrite =>
    obtain ⟨later, earlier, split⟩ := List.append_of_mem mem
    exact ⟨by decide +kernel, all.1, later, earlier, split, (all.2.1 rfl).2.2.1 later earlier split⟩
  | _ => cases isWrite

end

end Microfat.Launcher
