/-
# Microfat.Cache.Publish — atomic, content-addressed publication

Any number of processes run `materializeAndOpenVariantAtFD` in one directory, their
calls interleaved in any order, any of them failing or dying anywhere.  Each call is
a step that the protocol allows and moves the run from phase to phase; by the
rely/guarantee rule every reachable directory is sound
(`materializeAndOpenVariantAtFD_publishes`).
-/
import Microfat.Cache.Protocol
import Microfat.Theory.Sha256

namespace Microfat.Cache

open Theory Format Posix
open Function (update update_of_ne update_self)

set_option autoImplicit false

section Protocol

variable {ι : Type} {H : Sha256} {i : ι} {w : World ι} {tmp bytes : Bytes} {ino : Nat}

theorem tidy_frame (H : Sha256) (i : ι) : Frame i (Others H i) (Steps H i) (Tidy H i) where
  refl := Others.refl H i
  stable := tidy_stable
  owned _ _ fd moved owner := moved.file fd owner
  kept _ _ ino moved frozen := ⟨moved.frozen ino frozen, moved.inode ino (.inr frozen)⟩
  idle w _ := Steps.refl H i w
  close _ _ tidy owner := ⟨steps_setFile owner, tidy.setFile owner⟩

/-- What a run ends with: nothing of its own but digest names, and on success a
descriptor pinned on the entry's bytes. -/
def Published (H : Sha256) (i : ι) (size : Int64) (sha256 : Bytes) (r : Except Err (Bytes × Nat))
    (w : World ι) : Prop :=
  Tidy H i w ∧ ∀ path fd, r = .ok (path, fd) →
    ∃ f n, Pinned i fd f n w ∧ Matches H size sha256 n

theorem published_error {size : Int64} {sha256 : Bytes} {err : Err} (tidy : Tidy H i w) :
    Published H i size sha256 (.error err) w :=
  ⟨tidy, fun _ _ impossible => by cases impossible⟩

theorem Writing.store {fd : Nat} (writing : Writing H i tmp fd ino bytes w) (piece : Bytes) :
    Steps H i w (w.store fd ⟨ino, bytes.length⟩ piece) ∧
      Writing H i tmp fd ino (bytes ++ piece) (w.store fd ⟨ino, bytes.length⟩ piece) := by
  obtain ⟨temp, owner, file⟩ := writing
  have after : overwrite (w.inode ino).content bytes.length piece = bytes ++ piece := by
    rw [temp.content]
    simp [overwrite]
  have owner' : (w.recordWrite ino).owner fd = some i := by
    unfold World.recordWrite
    split
    · exact owner
    · exact owner
  have temp' := temp.recordWrite ino
  unfold World.store
  dsimp only
  rw [after]
  have next : Temp H i tmp ino (bytes ++ piece) ((w.recordWrite ino).setInode ino
      { w.inode ino with content := bytes ++ piece }) :=
    temp'.setInode { w.inode ino with content := bytes ++ piece }
  refine ⟨?_, next.setFile owner', owner', by simp⟩
  refine (steps_recordWrite (H := H) (i := i) (w := w) ino).trans ?_
  exact (steps_setInode temp'.mine temp'.unfrozen).trans (steps_setFile owner')

/-! ## The calls -/

variable [DecidableEq ι]

/-- Taking away a name that may go: it is gone, or removing it failed. -/
theorem step_unlinkat {name : Bytes} (sound : Sound H w) (nonempty : name ≠ [])
    (may : Digest name ∨ ∀ ino, w.dir name = some ino → w.creator ino = some i)
    (others : ∀ other ino, other ≠ name → w.dir other = some ino → w.creator ino = some i →
      Digest other ∨ w.unlinkFailed i other = true) (x : Choice) :
    Steps H i w (step i w (.unlinkat name) x).1 ∧ Tidy H i (step i w (.unlinkat name) x).1 := by
  have first := steps_record (H := H) (i := i) (w := w) .cacheWrite
  have failing : Steps H i w ((w.record .cacheWrite).failUnlink i name) ∧
      Tidy H i ((w.record .cacheWrite).failUnlink i name) := by
    have steps := first.trans (steps_failUnlink name)
    refine ⟨steps, steps.1 sound, fun other ino entry mine => ?_⟩
    show _ ∨ update w.unlinkFailed i (update (w.unlinkFailed i) name true) i other = true
    rw [update_self]
    by_cases same : other = name
    · exact .inr (by rw [same, update_self])
    · rw [update_of_ne same]
      exact others other ino same entry mine
  cases failed : x.errno with
  | some e =>
    simp only [step, failed]
    exact failing
  | none =>
    simp only [step, failed, World.entry_eq _ nonempty]
    cases target : (w.record .cacheWrite).dir name with
    | none =>
      refine ⟨first, first.1 sound, fun other ino entry mine => others other ino ?_ entry mine⟩
      rintro rfl
      cases target.symm.trans entry
    | some ino =>
      dsimp only
      split
      · exact failing
      · have steps := first.trans (steps_unlink name may)
        refine ⟨steps, steps.1 sound, fun other ino' entry mine => ?_⟩
        have away : other ≠ name := by
          rintro rfl
          simp at entry
        rw [World.setDir_dir, update_of_ne away] at entry
        exact others other ino' away entry mine

/-- The cleanup of a temporary file. -/
theorem step_unlinkat_temp (temp : Temp H i tmp ino bytes w) (x : Choice) :
    Steps H i w (step i w (.unlinkat tmp) x).1 ∧ Tidy H i (step i w (.unlinkat tmp) x).1 := by
  refine step_unlinkat temp.sound temp.nonempty (.inr fun other entry => ?_) (fun name other away entry mine => ?_) x
  · cases temp.linked.symm.trans entry
    exact temp.mine
  · rw [temp.only other mine] at entry
    exact absurd (temp.unique name entry) away

/-- Taking a digest name away is always allowed. -/
theorem step_unlinkat_digest (tidy : Tidy H i w) {name : Bytes} (digest : Digest name) (x : Choice) :
    Steps H i w (step i w (.unlinkat name) x).1 ∧ Tidy H i (step i w (.unlinkat name) x).1 :=
  step_unlinkat tidy.sound digest.1 (.inl digest) (fun other ino _ => tidy.tidy other ino) x

/-- **The rename publishes exactly the bytes that were hashed.** -/
theorem step_renameat (temp : Temp H i tmp ino bytes w) {name : Bytes} (digest : Digest name)
    (sum : hexEncode (H.sum bytes) = name) (x : Choice) :
    Steps H i w (step i w (.renameat tmp name) x).1 ∧
      match (step i w (.renameat tmp name) x).2 with
      | none => Tidy H i (step i w (.renameat tmp name) x).1
      | some _ => Temp H i tmp ino bytes (step i w (.renameat tmp name) x).1 := by
  have first := steps_record (H := H) (i := i) (w := w) .cacheWrite
  have temp' := temp.record .cacheWrite
  have apart : tmp ≠ name := by
    rintro rfl
    exact temp.plain digest
  have published : Steps H i w ((((w.record .cacheWrite).freeze ino).setDir name (some ino)).setDir
      tmp none) ∧ Tidy H i ((((w.record .cacheWrite).freeze ino).setDir name (some ino)).setDir
      tmp none) := by
    have content : hexEncode (H.sum (((w.record .cacheWrite).freeze ino).inode ino).content) =
        lowerHex name := by
      show hexEncode (H.sum (w.inode ino).content) = lowerHex name
      rw [temp.content, ← sum, lowerHex_hexEncode]
    have steps := ((first.trans (steps_freeze temp'.mine)).trans
      (steps_link name ino temp.mine
        (.inr ⟨digest, by simp, content⟩))).trans
      (steps_unlink tmp (.inr fun other entry => by
        rw [World.setDir_dir, update_of_ne apart, World.freeze_dir, temp'.linked] at entry
        cases entry
        exact temp.mine))
    refine ⟨steps, steps.1 temp.sound, ?_⟩
    intro other ino' entry mine
    rw [temp.only ino' mine] at entry
    by_cases isTemp : other = tmp
    · subst isTemp
      simp at entry
    · rw [World.setDir_dir, update_of_ne isTemp] at entry
      by_cases isName : other = name
      · exact .inl (isName ▸ digest)
      · rw [World.setDir_dir, update_of_ne isName] at entry
        exact absurd (temp.unique other entry) isTemp
  cases failed : x.errno with
  | some e =>
    simp only [step, failed]
    exact ⟨first, temp'⟩
  | none =>
    simp only [step, failed, World.entry_eq _ temp.nonempty, World.entry_eq _ digest.1,
      temp'.linked]
    cases target : (w.record .cacheWrite).dir name with
    | none => exact published
    | some old =>
      dsimp only
      split
      · -- the digest cannot already name this file: only the temporary name does
        rename_i same
        rw [same] at target
        exact absurd (temp.unique name target).symm apart
      · split
        · exact ⟨first, temp'⟩
        · exact published

theorem step_createExcl (idle : Idle H i w) (mode : Nat) (nonempty : tmp ≠ [])
    (plain : ¬ Digest tmp) (x : Choice) :
    Steps H i w (step i w (.createExcl tmp mode) x).1 ∧
      match (step i w (.createExcl tmp mode) x).2 with
      | .ok fd => ∃ ino, Writing H i tmp fd ino [] (step i w (.createExcl tmp mode) x).1
      | .error _ => Idle H i (step i w (.createExcl tmp mode) x).1 := by
  have first := steps_record (H := H) (i := i) (w := w) .cacheWrite
  have idle' := idle.record .cacheWrite
  cases failed : x.errno with
  | some e =>
    simp only [step, failed]
    exact ⟨first, idle'⟩
  | none =>
    simp only [step, failed, World.entry_eq _ nonempty]
    cases free : (w.record .cacheWrite).dir tmp with
    | some ino => exact ⟨first, idle'⟩
    | none =>
      dsimp only
      have made := steps_newInode (i := i) idle'.sound
        ⟨.regular, mode, w.euid i, [], false, false⟩
      have opened := steps_openFile (i := i) (made.1 idle'.sound) w.nextIno
      have named := steps_link (H := H) (i := i) tmp w.nextIno
        (w := ((w.record .cacheWrite).newInode i
          ⟨.regular, mode, w.euid i, [], false, false⟩).openFile i w.nextIno)
        (by simp) (.inl ⟨plain, free⟩)
      have steps := ((first.trans made).trans opened).trans named
      refine ⟨steps, w.nextIno, ⟨steps.1 idle.sound, nonempty, plain, ?_, ?_, ?_, ?_, ?_, ?_⟩,
        ?_, ?_⟩
      · simp
      · intro other mine
        by_cases same : other = w.nextIno
        · exact same
        · simp only [World.setDir_creator, World.openFile_creator, World.newInode_creator,
            World.record_nextIno, update_of_ne same] at mine
          exact absurd mine (idle'.none other)
      · simp
      · simp
      · simp
      · intro name entry
        by_cases same : name = tmp
        · exact same
        · -- no older entry has the number of the new file
          rw [World.setDir_dir, update_of_ne same] at entry
          exact absurd (idle.sound.named name _ entry) (Nat.lt_irrefl _)
      · simp
      · simp

theorem step_write {fd : Nat} (writing : Writing H i tmp fd ino bytes w) (piece : Bytes)
    (x : Choice) :
    Steps H i w (step i w (.write fd piece) x).1 ∧
      match (step i w (.write fd piece) x).2 with
      | (_, none) => Writing H i tmp fd ino (bytes ++ piece) (step i w (.write fd piece) x).1
      | (_, some _) => Leftover H i tmp (step i w (.write fd piece) x).1 ∧
          (step i w (.write fd piece) x).1.owner fd = some i := by
  simp only [step, writing.2.2]
  split
  · exact ⟨Steps.refl H i w, ⟨ino, bytes, writing.1⟩, writing.2.1⟩
  · cases failed : x.errno with
    | none =>
      simp only [if_true, List.take_length]
      exact writing.store piece
    | some e =>
      simp only [reduceCtorEq, if_false]
      obtain ⟨steps, temp, owner, -⟩ := writing.store (piece.take (min x.count piece.length))
      exact ⟨steps, ⟨ino, _, temp⟩, owner⟩

theorem step_fchmod {fd : Nat} (writing : Writing H i tmp fd ino bytes w) (mode : Nat)
    (x : Choice) :
    Steps H i w (step i w (.fchmod fd mode) x).1 ∧
      Writing H i tmp fd ino bytes (step i w (.fchmod fd mode) x).1 := by
  obtain ⟨temp, owner, file⟩ := writing
  cases failed : x.errno with
  | some e =>
    simp only [step, failed]
    exact ⟨Steps.refl H i w, temp, owner, file⟩
  | none =>
    simp only [step, failed, file]
    have temp' := temp.recordWrite ino
    have steps := (steps_recordWrite (H := H) (i := i) (w := w) ino).trans
      (steps_setInode (n := { w.inode ino with mode := mode }) temp'.mine temp'.unfrozen)
    have next := temp'.setInode { w.inode ino with mode := mode }
    rw [show ({ w.inode ino with mode := mode } : Inode).content = bytes from temp.content] at next
    refine ⟨steps, next, ?_⟩
    unfold World.recordWrite
    split
    · exact ⟨owner, file⟩
    · exact ⟨owner, file⟩

/-! ## One run, whatever the others do -/

/-- Opening a published name: the file is frozen. -/
theorem ensures_openPublished {name sha256 : Bytes} {size : Int64} (digest : Digest name)
    (tidy : Tidy H i w) :
    Ensures (step i) (Others H i) (Steps H i) (openAndValidateAtFD H name size sha256 false)
      (fun r w => Tidy H i w ∧ match r with
        | .ok fd => ∃ f n, Pinned i fd f n w ∧ Matches H size sha256 n
        | .error err => Refused err) w := by
  have stable : ∀ f : OpenFile, Stable (Others H i)
      fun w => Tidy H i w ∧ w.frozen f.ino = true := by
    intro f w w' ⟨tidy, frozen⟩ moved
    exact ⟨tidy_stable w w' tidy moved, moved.frozen f.ino frozen⟩
  refine ensures_openAndValidateAtFD (tidy_frame H i)
    (fun f w => Tidy H i w ∧ w.frozen f.ino = true) stable (fun _ _ pre => pre.1) ?_ ?_ ?_ ?_
    tidy
  · intro fd f w ⟨tidy, frozen⟩ _ _
    rw [World.freeze_frozen_eq frozen]
    exact ⟨Steps.refl H i w, tidy⟩
  · intro w x tidy
    have first := steps_record (H := H) (i := i) (w := w) .cacheOpen
    have tidy' := tidy.record .cacheOpen
    cases failed : x.errno with
    | some e =>
      simp only [step, failed]
      exact ⟨first, tidy', by simp⟩
    | none =>
      simp only [step, failed, World.entry_eq _ digest.1]
      cases target : (w.record .cacheOpen).dir name with
      | none => exact ⟨first, tidy', by simp⟩
      | some ino =>
        dsimp only
        split
        · exact ⟨first, tidy', by simp⟩
        · refine ⟨first.trans (steps_openFile tidy'.sound ino), tidy'.openFile ino, ?_⟩
          intro fd same
          cases same
          refine ⟨⟨ino, 0⟩, by simp, by simp, tidy'.openFile ino, ?_⟩
          exact (tidy'.sound.digest name ino target digest).1
  · intro w x tidy
    have first := steps_record (H := H) (i := i) (w := w) .cacheOpen
    have tidy' := tidy.record .cacheOpen
    simp only [step]
    split
    · exact ⟨first, tidy'⟩
    · exact ⟨first, tidy'⟩
    · exact ⟨first, tidy'⟩
  · intro w tidy
    exact ensures_ret tidy_stable tidy fun _ tidy => tidy

section Run

variable {fd : Nat} {α : Type}

theorem ensures_abandonClosed {Q : Except Err α → World ι → Prop} {err : Err}
    (done : ∀ w, Tidy H i w → Q (.error err) w) (left : Leftover H i tmp w) :
    Ensures (step i) (Others H i) (Steps H i) (abandonClosed tmp err) Q w := by
  unfold abandonClosed
  refine ensures_call (leftover_stable tmp) left ?_
  intro w x ⟨ino, bytes, temp⟩
  obtain ⟨steps, tidy⟩ := step_unlinkat_temp temp x
  exact ⟨steps, ensures_ret tidy_stable tidy done⟩

theorem ensures_abandon {Q : Except Err α → World ι → Prop} {err : Err}
    (done : ∀ w, Tidy H i w → Q (.error err) w) (left : Leftover H i tmp w)
    (owner : w.owner fd = some i) :
    Ensures (step i) (Others H i) (Steps H i) (abandon fd tmp err) Q w := by
  unfold abandon
  refine ensures_call (leftover_open_stable tmp fd) ⟨left, owner⟩ ?_
  intro w x ⟨⟨ino, bytes, temp⟩, owner⟩
  refine ⟨steps_setFile owner, ?_⟩
  exact ensures_abandonClosed done ⟨ino, bytes, temp.setFile owner⟩

/-- Creating the temporary file leaves it open and empty, or leaves nothing. -/
theorem ensures_createTempFileAt (attempts : Nat) : ∀ {w : World ι}, Idle H i w →
    Ensures (step i) (Others H i) (Steps H i) (createTempFileAt attempts)
      (fun r w => match r with
        | .ok (fd, tmp) => ∃ ino, Writing H i tmp fd ino [] w
        | .error _ => Idle H i w) w := by
  induction attempts with
  | zero => exact fun idle => ensures_ret idle_stable idle fun _ idle => idle
  | succ attempts ih =>
    intro w idle
    rw [createTempFileAt]
    refine ensures_call idle_stable idle ?_
    intro w x idle
    refine ⟨Steps.refl H i w, ?_⟩
    cases (step i w .random x).2 with
    | error err => exact ensures_ret idle_stable idle fun _ idle => idle
    | ok rnd =>
      refine ensures_call idle_stable idle ?_
      intro w x idle
      obtain ⟨steps, next⟩ := step_createExcl idle privateExecMode
        (tempName_ne_nil rnd) (tempName_plain rnd) x
      refine ⟨steps, ?_⟩
      cases answer : (step i w (.createExcl (tempName rnd) privateExecMode) x).2 with
      | ok fd =>
        rw [answer] at next
        obtain ⟨ino, writing⟩ := next
        exact ensures_ret (writing_stable _ _ _ _) writing fun _ writing => ⟨ino, writing⟩
      | error err =>
        rw [answer] at next
        dsimp only
        split
        · exact ensures_ret idle_stable next fun _ idle => idle
        · exact ih next

/-- After the payload, the file holds what was hashed, or there is a failure and a
file to clean up. -/
theorem ensures_writePieces {payload : Payload} (pieces : List Bytes) :
    ∀ {hashed : Bytes} {w : World ι}, Writing H i tmp fd ino hashed w →
    Ensures (step i) (Others H i) (Steps H i) (writePieces fd payload pieces hashed)
      (fun r w => match r with
        | (hashed, none) => Writing H i tmp fd ino hashed w
        | (_, some _) => Leftover H i tmp w ∧ w.owner fd = some i) w := by
  induction pieces with
  | nil =>
    intro hashed w writing
    refine ensures_ret (writing_stable _ _ _ _) writing ?_
    intro w writing
    cases payload.final with
    | none => exact writing
    | some err => exact ⟨⟨ino, hashed, writing.1⟩, writing.2.1⟩
  | cons piece rest ih =>
    intro hashed w writing
    rw [writePieces]
    refine ensures_call (writing_stable _ _ _ _) writing ?_
    intro w x writing
    obtain ⟨steps, next⟩ := step_write writing piece x
    refine ⟨steps, ?_⟩
    cases answer : (step i w (.write fd piece) x).2 with
    | mk n status =>
      rw [answer] at next
      cases status with
      | some err =>
        exact ensures_ret (leftover_open_stable tmp fd) next fun _ left => left
      | none =>
        dsimp only
        split
        · exact ensures_ret (leftover_open_stable tmp fd)
            ⟨⟨ino, _, next.1⟩, next.2.1⟩ fun _ left => left
        · exact ih next

variable {entry : VariantEntry} {cleanDir name : Bytes}

theorem ensures_publishTemp (digest : Digest name) (sum : hexEncode (H.sum bytes) = name)
    (writing : Writing H i tmp fd ino bytes w) :
    Ensures (step i) (Others H i) (Steps H i) (publishTemp H entry cleanDir name fd tmp)
      (Published H i entry.uncompressedSize entry.sha256) w := by
  have fails : ∀ err w, Tidy H i w →
      Published H i entry.uncompressedSize entry.sha256 (.error err) w :=
    fun err w tidy => published_error tidy
  unfold publishTemp
  refine ensures_call (writing_stable _ _ _ _) writing ?_
  intro w x writing
  obtain ⟨steps, writing⟩ := step_fchmod writing privateExecMode x
  refine ⟨steps, ?_⟩
  split
  · exact ensures_abandon (fails _) ⟨ino, bytes, writing.1⟩ writing.2.1
  · refine ensures_call (writing_stable _ _ _ _) writing ?_
    intro w x writing
    refine ⟨Steps.refl H i w, ?_⟩
    split
    · exact ensures_abandon (fails _) ⟨ino, bytes, writing.1⟩ writing.2.1
    · refine ensures_call (writing_stable _ _ _ _) writing ?_
      intro w x ⟨temp, owner, _⟩
      refine ⟨steps_setFile owner, ?_⟩
      have temp : Temp H i tmp ino bytes (step i w (.close fd) x).1 := temp.setFile owner
      split
      · exact ensures_abandonClosed (fails _) ⟨ino, bytes, temp⟩
      · refine ensures_call (temp_stable _ _ _) temp ?_
        intro w x temp
        obtain ⟨steps, next⟩ := step_renameat temp digest sum x
        refine ⟨steps, ?_⟩
        cases answer : (step i w (.renameat tmp name) x).2 with
        | some err =>
          rw [answer] at next
          exact ensures_abandonClosed (fails _) ⟨ino, bytes, next⟩
        | none =>
          rw [answer] at next
          refine ensures_seq (Others.refl H i) (ensures_openPublished digest next) ?_
          rintro (openErr | vfd) w ⟨tidy, result⟩
          · refine ensures_call tidy_stable tidy ?_
            intro w x tidy
            obtain ⟨steps, tidy⟩ := step_unlinkat_digest tidy digest x
            exact ⟨steps, ensures_ret tidy_stable tidy (fails _)⟩
          · obtain ⟨f, n, pinned, good⟩ := result
            refine ensures_ret ((tidy_frame H i).pinned vfd f n) ⟨tidy, pinned⟩ ?_
            intro w ⟨tidy, pinned⟩
            refine ⟨tidy, ?_⟩
            intro path got same
            cases same
            exact ⟨f, n, pinned, good⟩

theorem ensures_materializeChecked {dirPath : Bytes} {payload : Payload} (present : entry.sha256 ≠ [])
    (valid : validateChecksum entry.sha256 = true) (idle : Idle H i w) :
    Ensures (step i) (Others H i) (Steps H i) (materializeChecked H dirPath entry payload)
      (Published H i entry.uncompressedSize entry.sha256) w := by
  have fails : ∀ err w, Tidy H i w →
      Published H i entry.uncompressedSize entry.sha256 (.error err) w :=
    fun err w tidy => published_error tidy
  unfold materializeChecked
  rw [cleanPath_digest present valid]
  -- the replacement check changes nothing
  have replacement : Ensures (step i) (Others H i) (Steps H i)
      (validateCacheReplacementAt entry.sha256) (fun _ => Idle H i) w := by
    unfold validateCacheReplacementAt
    refine ensures_call idle_stable idle ?_
    intro w x idle
    have looked : Steps H i w (step i w (.fstatat entry.sha256) x).1 ∧
        Idle H i (step i w (.fstatat entry.sha256) x).1 := by
      simp only [step]
      split
      · exact ⟨steps_record _, idle.record _⟩
      · exact ⟨steps_record _, idle.record _⟩
      · exact ⟨steps_record _, idle.record _⟩
    refine ⟨looked.1, ?_⟩
    split
    · split
      · exact ensures_ret idle_stable looked.2 fun _ idle => idle
      · exact ensures_ret idle_stable looked.2 fun _ idle => idle
    · refine ensures_call idle_stable looked.2 ?_
      intro w x idle
      exact ⟨Steps.refl H i w, ensures_ret idle_stable idle fun _ idle => idle⟩
  refine ensures_seq (Others.refl H i) replacement ?_
  rintro (_ | err) w idle
  · refine ensures_seq (Others.refl H i) (ensures_createTempFileAt _ idle) ?_
    rintro (createErr | ⟨fd, tmp⟩) w created
    · exact ensures_ret idle_stable created fun w idle => fails _ w idle.tidy
    · obtain ⟨ino, writing⟩ := created
      refine ensures_seq (Others.refl H i) (ensures_writePieces _ writing) ?_
      rintro ⟨hashed, _ | err⟩ w written
      · dsimp only
        split
        · exact ensures_abandon (fails _) ⟨ino, hashed, written.1⟩ written.2.1
        · rename_i sum
          exact ensures_publishTemp ⟨present, valid⟩ (Decidable.not_not.mp sum) written
      · exact ensures_abandon (fails _) written.1 written.2
  · exact ensures_ret idle_stable idle fun w idle => fails _ w idle.tidy

end Run

end Protocol

/-! ## All runs together -/

/-- The arguments of one call of `materializeAndOpenVariantAtFD`. -/
structure Run where
  dirFD : Int
  dirPath : Bytes
  entry : Option VariantEntry
  writePayload : Option Payload

def Run.program (H : Sha256) (r : Run) : Program (Except Err (Bytes × Nat)) :=
  materializeAndOpenVariantAtFD H r.dirFD r.dirPath r.entry r.writePayload

section

variable {ι : Type}

/-- The directory before the first run: the files below `nextIno` exist, and they are
nobody's to change. -/
def startWorld (dir : Bytes → Option Nat) (inode : Nat → Inode) (nextIno : Nat) (euid : ι → Nat) :
    World ι :=
  { dir, inode, nextIno, euid
    file := fun _ => none
    nextFd := 0
    owner := fun _ => none
    creator := fun _ => none
    frozen := fun ino => ino < nextIno
    unlinkFailed := fun _ _ => false
    log := [] }

/-- Nothing but the runs changes the directory. -/
def noEnvironment (_ _ : World ι) : Prop := False

theorem compatible (H : Sha256) :
    Compatible noEnvironment (fun i : ι => Others H i) (fun i => Steps H i) (Sound H) where
  refl := Others.refl H
  trans _ _ _ _ := Others.trans
  threads _ j _ _ other moved := moved.2 j (Ne.symm other)
  environment _ _ _ impossible := impossible.elim
  guards _ _ _ moved := moved.1
  allows _ _ impossible := impossible.elim

variable [DecidableEq ι]

theorem ensures_run {H : Sha256} {i : ι} {w : World ι} (r : Run) (idle : Idle H i w) :
    Ensures (step i) (Others H i) (Steps H i) (r.program H)
      (fun result w => Tidy H i w ∧ ∀ path fd, result = .ok (path, fd) →
        ∃ entry f n, r.entry = some entry ∧ Pinned i fd f n w ∧
          Matches H entry.uncompressedSize entry.sha256 n) w := by
  unfold Run.program materializeAndOpenVariantAtFD
  cases checked : checkMaterialize r.dirFD r.dirPath r.entry r.writePayload with
  | error err =>
    refine ensures_ret idle_stable idle fun w idle => ⟨idle.tidy, ?_⟩
    intro path fd impossible
    cases impossible
  | ok both =>
    obtain ⟨entry, payload⟩ := both
    obtain ⟨given, -, present, valid, -, -⟩ := checkMaterialize_ok checked
    refine ensures_mono ?_ (ensures_materializeChecked present valid idle)
    intro result w ⟨tidy, returned⟩
    refine ⟨tidy, fun path fd same => ?_⟩
    obtain ⟨f, n, pinned, good⟩ := returned path fd same
    exact ⟨entry, f, n, given, pinned, good⟩

/-- **Cache publication is atomic and content-addressed.**  Start in a directory whose
digest-named entries hold what their names say, and let any number of runs go on,
interleaved call by call and stopped anywhere.  In every directory that is ever
visible, each digest-named entry has exactly that digest; a descriptor returned with
success is on a file of the entry's size and digest; and a run that returned an error
has no file of its own under any other name, except where its unlink failed. -/
theorem materializeAndOpenVariantAtFD_publishes (H : Sha256) (runs : ι → Run)
    (dir : Bytes → Option Nat) (inode : Nat → Inode) (nextIno : Nat) (euid : ι → Nat)
    (allocated : ∀ name ino, dir name = some ino → ino < nextIno)
    (addressed : ∀ name ino, dir name = some ino → Digest name →
      hexEncode (H.sum (inode ino).content) = lowerHex name)
    (s : Pool ι Call Call.Reply (Except Err (Bytes × Nat)) (World ι))
    (reach : PoolRun step noEnvironment
      ⟨fun i => (runs i).program H, startWorld dir inode nextIno euid⟩ s) :
    (∀ name ino, s.world.dir name = some ino → Digest name →
      hexEncode (H.sum (s.world.inode ino).content) = lowerHex name) ∧
    (∀ i path fd, s.threads i = .ret (.ok (path, fd)) → ∃ entry f,
      (runs i).entry = some entry ∧ s.world.file fd = some f ∧
      ((s.world.inode f.ino).content.length : Int) = entry.uncompressedSize.toInt ∧
      hexEncode (H.sum (s.world.inode f.ino).content) = entry.sha256) ∧
    (∀ i err, s.threads i = .ret (.error err) → ∀ name ino, s.world.dir name = some ino →
      s.world.creator ino = some i → Digest name ∨ s.world.unlinkFailed i name = true) := by
  have sound : Sound H (startWorld dir inode nextIno euid) := by
    refine ⟨?_, allocated, ?_, fun _ old => of_decide_eq_true old, ?_⟩
    · intro name ino entry digest
      exact ⟨decide_eq_true (allocated name ino entry), addressed name ino entry digest⟩
    · intro ino j made
      cases made
    · intro fd j held
      cases held
  have start : PoolEnsures step (fun i => Others H i) (fun i => Steps H i)
      (fun i result w => Tidy H i w ∧ ∀ path fd, result = .ok (path, fd) →
        ∃ entry f n, (runs i).entry = some entry ∧ Pinned i fd f n w ∧
          Matches H entry.uncompressedSize entry.sha256 n) (Sound H)
      ⟨fun i => (runs i).program H, startWorld dir inode nextIno euid⟩ :=
    ⟨sound, fun i => ensures_run (runs i) ⟨sound, fun _ => by simp [startWorld]⟩⟩
  have all := pool_ensures (compatible H) start reach
  refine ⟨fun name ino entry digest => (all.1.digest name ino entry digest).2, ?_, ?_⟩
  · intro i path fd done
    obtain ⟨entry, f, n, given, pinned, good⟩ :=
      (all.returned (compatible H) done).2 path fd rfl
    rw [← pinned.inode] at good
    exact ⟨entry, f, given, pinned.file, good⟩
  · intro i err done name ino entry mine
    exact (all.returned (compatible H) done).1.tidy name ino entry mine

end

/-! Two runs of one entry, call by call, in a directory with another entry and a file that is
none; the second run cannot finish its second write. -/

def sampleRun : Run :=
  { dirFD := 3
    dirPath := lit "/cache"
    entry := some { level := lit "v1", sha256 := hexEncode (sha256.sum [1, 2, 3, 4, 5, 6, 7]), offset := 0,
                    compressedSize := 7, uncompressedSize := 7, compression := lit "none" }
    writePayload := some ⟨[[1, 2, 3], [4, 5, 6, 7]], none, id⟩ }

def sampleDir (name : Bytes) : Option Nat :=
  if name = hexEncode (sha256.sum [8, 9]) then some 0 else if name = lit "README" then some 1 else none

def sampleNode : Inode := ⟨.regular, 0o700, 1000, [8, 9], false, false⟩

def samplePool : Pool Bool Call Call.Reply (Except Err (Bytes × Nat)) (World Bool) :=
  let other := { Choice.fine with random := .ok (List.replicate 8 1) }
  -- ENOSPC after two bytes
  let full := { other with errno := some 28, count := 2 }
  runPool step ⟨fun _ => sampleRun.program sha256,
    startWorld sampleDir (fun _ => sampleNode) 2 fun _ => 1000⟩
    ((List.replicate 4 [(true, Choice.fine), (false, other)]).flatten ++ (false, full) ::
      (List.replicate 10 [(true, Choice.fine), (false, other)]).flatten)

theorem sampleDir_addressed (name : Bytes) (ino : Nat) (held : sampleDir name = some ino)
    (digest : Digest name) : hexEncode (sha256.sum sampleNode.content) = lowerHex name := by
  unfold sampleDir at held
  split_ifs at held with here there
  · rw [here]
    decide +kernel
  · rw [there] at digest
    exact absurd digest.2 (by decide +kernel)

theorem materializeAndOpenVariantAtFD_publishes_sample :
    (∀ name ino, samplePool.world.dir name = some ino → Digest name →
      hexEncode (sha256.sum (samplePool.world.inode ino).content) = lowerHex name) ∧
    (∃ path fd entry f, samplePool.threads true = .ret (.ok (path, fd)) ∧
      sampleRun.entry = some entry ∧ samplePool.world.file fd = some f ∧
      ((samplePool.world.inode f.ino).content.length : Int) = entry.uncompressedSize.toInt ∧
      hexEncode (sha256.sum (samplePool.world.inode f.ino).content) = entry.sha256) ∧
    ∃ err, samplePool.threads false = .ret (.error err) ∧
      ∀ name ino, samplePool.world.dir name = some ino →
        samplePool.world.creator ino = some false →
        Digest name ∨ samplePool.world.unlinkFailed false name = true := by
  obtain ⟨visible, opened, tidy⟩ := materializeAndOpenVariantAtFD_publishes sha256 (fun _ => sampleRun)
    sampleDir (fun _ => sampleNode) 2 (fun _ => 1000) (fun name ino held => by
      unfold sampleDir at held
      split_ifs at held <;> cases held <;> decide)
    sampleDir_addressed samplePool (runPool_run _ _)
  have first : ((samplePool.threads true).returned.map Except.isOk) = some true := by decide +kernel
  have second : ((samplePool.threads false).returned.map Except.isOk) = some false := by decide +kernel
  obtain ⟨result, done, ok⟩ := Option.map_eq_some_iff.mp first
  obtain ⟨failure, stopped, failed⟩ := Option.map_eq_some_iff.mp second
  cases result with
  | error err => cases ok
  | ok value =>
    cases failure with
    | ok value => cases failed
    | error err =>
      have returned := Prog.eq_ret_of_returned done
      have gaveUp := Prog.eq_ret_of_returned stopped
      obtain ⟨entry, f, present, file, size, digest⟩ := opened true _ _ returned
      exact ⟨visible, ⟨_, _, entry, f, returned, present, file, size, digest⟩, err, gaveUp,
        tidy false err gaveUp⟩

end Microfat.Cache
