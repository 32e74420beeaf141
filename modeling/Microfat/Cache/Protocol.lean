/-
# Microfat.Cache.Protocol — who may change what in a shared cache directory

Any number of processes publish files in one directory.  A file belongs to the
process that created it until it is renamed to a digest; from then on it is frozen.
`Sound` says that every digest-named entry is frozen and has the digest it is named
by.  `Others j` is what process `j` may expect of the rest: its own unpublished file,
its descriptors and its temporary name stay as they are, frozen files keep their
bytes, and `Sound` is kept.

Every primitive change of the world a process makes is such a step for everybody
else (`Steps`, one lemma per primitive), and the phases of a run (`Idle`, `Temp`,
`Writing`, `Leftover`, `Tidy`) are stable under what the others do.
-/
import Microfat.Cache.Materialize

namespace Microfat.Cache

open Theory Format Posix
open Function (update_eq_self update_of_ne update_self)

set_option autoImplicit false

/-- A name under which files are published. -/
def Digest (name : Bytes) : Prop := name ≠ [] ∧ validateChecksum name = true

theorem lowerHex_hexEncode (bs : Bytes) : lowerHex (hexEncode bs) = hexEncode bs := by
  have digit : ∀ n < 16, lowerByte (hexDigit n) = hexDigit n := by decide
  induction bs with
  | nil => rfl
  | cons b bs ih =>
    have low := b.toNat_lt
    rw [lowerHex] at ih
    simp only [hexEncode, lowerHex, List.map_cons, ih, digit (b.toNat / 16) (by omega),
      digit (b.toNat % 16) (by omega)]

theorem tempName_plain (rnd : Bytes) : ¬ Digest (tempName rnd) := by
  rintro ⟨present, valid⟩
  rcases validateChecksum_iff.mp valid with empty | ⟨-, hex⟩
  · exact present empty
  · have dot : (46 : UInt8) ∈ tempName rnd := by
      simp [tempName, lit]
    exact absurd (hex 46 dot) (by decide)

theorem tempName_ne_nil (rnd : Bytes) : tempName rnd ≠ [] := by
  simp [tempName, lit]

section Protocol

variable {ι : Type}

theorem World.entry_eq (w : World ι) {name : Bytes} (nonempty : name ≠ []) :
    w.entry name = w.dir name :=
  if_neg nonempty

/-- Digest-named entries hold what their names say, and numbers are allocated once. -/
structure Sound (H : Sha256) (w : World ι) : Prop where
  digest : ∀ name ino, w.dir name = some ino → Digest name →
    w.frozen ino = true ∧ hexEncode (H.sum (w.inode ino).content) = lowerHex name
  named : ∀ name ino, w.dir name = some ino → ino < w.nextIno
  made : ∀ ino j, w.creator ino = some j → ino < w.nextIno
  settled : ∀ ino, w.frozen ino = true → ino < w.nextIno
  held : ∀ fd j, w.owner fd = some j → fd < w.nextFd

/-- What the other processes may do to process `j`. -/
structure Others (H : Sha256) (j : ι) (w w' : World ι) : Prop where
  sound : Sound H w → Sound H w'
  inode : ∀ ino, w.creator ino = some j ∨ w.frozen ino = true → w'.inode ino = w.inode ino
  unfrozen : ∀ ino, w.creator ino = some j → w'.frozen ino = w.frozen ino
  frozen : ∀ ino, w.frozen ino = true → w'.frozen ino = true
  creator : ∀ ino, w'.creator ino = some j ↔ w.creator ino = some j
  file : ∀ fd, w.owner fd = some j → w'.owner fd = some j ∧ w'.file fd = w.file fd
  linked : ∀ name ino, w.dir name = some ino → w.creator ino = some j → ¬ Digest name →
    w'.dir name = some ino
  unlinked : ∀ name ino, w'.dir name = some ino → w.creator ino = some j → w.dir name = some ino
  failed : w'.unlinkFailed j = w.unlinkFailed j

/-- What process `i` may do: it keeps the directory sound and is one of the others
for everybody else. -/
def Steps (H : Sha256) (i : ι) (w w' : World ι) : Prop :=
  (Sound H w → Sound H w') ∧ ∀ j, j ≠ i → Others H j w w'

variable {H : Sha256} {i j : ι} {u v w : World ι}

theorem Others.refl (H : Sha256) (j : ι) (w : World ι) : Others H j w w :=
  ⟨id, fun _ _ => rfl, fun _ _ => rfl, fun _ h => h, fun _ => Iff.rfl, fun _ h => ⟨h, rfl⟩,
    fun _ _ h _ _ => h, fun _ _ h _ => h, rfl⟩

theorem Others.trans (first : Others H j u v) (second : Others H j v w) : Others H j u w where
  sound := second.sound ∘ first.sound
  inode := by
    intro ino mine
    have after : v.creator ino = some j ∨ v.frozen ino = true :=
      mine.imp (first.creator ino).mpr (first.frozen ino)
    rw [second.inode ino after, first.inode ino mine]
  unfrozen ino mine := by
    rw [second.unfrozen ino ((first.creator ino).mpr mine), first.unfrozen ino mine]
  frozen ino h := second.frozen ino (first.frozen ino h)
  creator ino := (second.creator ino).trans (first.creator ino)
  file := by
    intro fd mine
    obtain ⟨owner, same⟩ := first.file fd mine
    obtain ⟨owner', same'⟩ := second.file fd owner
    exact ⟨owner', same'.trans same⟩
  linked name ino entry mine plain :=
    second.linked name ino (first.linked name ino entry mine plain) ((first.creator ino).mpr mine)
      plain
  unlinked name ino entry mine :=
    first.unlinked name ino (second.unlinked name ino entry ((first.creator ino).mpr mine)) mine
  failed := second.failed.trans first.failed

theorem Steps.refl (H : Sha256) (i : ι) (w : World ι) : Steps H i w w :=
  ⟨id, fun j _ => Others.refl H j w⟩

theorem Steps.trans (first : Steps H i u v) (second : Steps H i v w) : Steps H i u w :=
  ⟨second.1 ∘ first.1, fun j other => (first.2 j other).trans (second.2 j other)⟩

/-! ## The primitive changes -/

theorem steps_record (e : Event) : Steps H i w (w.record e) := by
  refine ⟨fun sound => ⟨sound.1, sound.2, sound.3, sound.4, sound.5⟩, fun j _ => ?_⟩
  have same := Others.refl H j w
  exact ⟨fun sound => ⟨sound.1, sound.2, sound.3, sound.4, sound.5⟩, same.2, same.3, same.4, same.5,
    same.6, same.7, same.8, same.9⟩

theorem steps_recordWrite (ino : Nat) : Steps H i w (w.recordWrite ino) := by
  unfold World.recordWrite
  split
  · exact Steps.refl H i w
  · exact steps_record _

/-- A change that leaves names, files and marks alone is seen by nobody else. -/
theorem steps_setFile {fd : Nat} {f : Option OpenFile} (mine : w.owner fd = some i) :
    Steps H i w (w.setFile fd f) := by
  have sound : Sound H w → Sound H (w.setFile fd f) :=
    fun sound => ⟨sound.1, sound.2, sound.3, sound.4, sound.5⟩
  refine ⟨sound, fun j other => ?_⟩
  have same := Others.refl H j w
  refine ⟨sound, same.2, same.3, same.4, same.5, ?_, same.7, same.8, same.9⟩
  intro g theirs
  have apart : g ≠ fd := by
    rintro rfl
    rw [mine] at theirs
    exact other (Option.some.inj theirs).symm
  exact ⟨theirs, by simp [apart]⟩

theorem steps_openFile (sound : Sound H w) (ino : Nat) : Steps H i w (w.openFile i ino) := by
  have after : Sound H w → Sound H (w.openFile i ino) := by
    refine fun sound => ⟨sound.1, sound.2, sound.3, sound.4, ?_⟩
    intro fd j owner
    simp only [World.openFile_owner, World.openFile_nextFd] at owner ⊢
    by_cases same : fd = w.nextFd
    · omega
    · rw [update_of_ne same] at owner
      have := sound.held fd j owner
      omega
  refine ⟨after, fun j _ => ?_⟩
  have same := Others.refl H j w
  refine ⟨after, same.2, same.3, same.4, same.5, ?_, same.7, same.8, same.9⟩
  intro fd theirs
  have old : fd ≠ w.nextFd := Nat.ne_of_lt (sound.held fd j theirs)
  simp only [World.openFile_owner, World.openFile_file, update_of_ne old]
  exact ⟨theirs, trivial⟩

theorem steps_setInode {ino : Nat} {n : Inode} (mine : w.creator ino = some i)
    (unfrozen : w.frozen ino = false) : Steps H i w (w.setInode ino n) := by
  have frozen_ne : ∀ ino', w.frozen ino' = true → ino' ≠ ino := by
    rintro _ frozen rfl
    rw [unfrozen] at frozen
    cases frozen
  have after : Sound H w → Sound H (w.setInode ino n) := by
    refine fun sound => ⟨?_, sound.2, sound.3, sound.4, sound.5⟩
    intro name ino' entry digest
    obtain ⟨frozen, content⟩ := sound.digest name ino' entry digest
    refine ⟨frozen, ?_⟩
    simp only [World.setInode_inode, update_of_ne (frozen_ne ino' frozen)]
    exact content
  refine ⟨after, fun j other => ?_⟩
  have same := Others.refl H j w
  refine ⟨after, ?_, same.3, same.4, same.5, same.6, same.7, same.8, same.9⟩
  rintro ino' (theirs | frozen)
  · have apart : ino' ≠ ino := by
      rintro rfl
      rw [mine] at theirs
      exact other (Option.some.inj theirs).symm
    simp [apart]
  · simp [frozen_ne ino' frozen]

theorem steps_newInode (sound : Sound H w) (n : Inode) : Steps H i w (w.newInode i n) := by
  have old : ∀ {ino : Nat}, ino < w.nextIno → ino ≠ w.nextIno := fun h => Nat.ne_of_lt h
  have after : Sound H w → Sound H (w.newInode i n) := by
    intro sound
    constructor
    · intro name ino entry digest
      have apart := old (sound.named name ino entry)
      simp only [World.newInode_frozen, World.newInode_inode, update_of_ne apart]
      exact sound.digest name ino entry digest
    · intro name ino entry
      exact Nat.lt_succ_of_lt (sound.named name ino entry)
    · intro ino j made
      simp only [World.newInode_creator, World.newInode_nextIno] at made ⊢
      by_cases same : ino = w.nextIno
      · omega
      · rw [update_of_ne same] at made
        exact Nat.lt_succ_of_lt (sound.made ino j made)
    · intro ino frozen
      simp only [World.newInode_frozen, World.newInode_nextIno] at frozen ⊢
      by_cases same : ino = w.nextIno
      · omega
      · rw [update_of_ne same] at frozen
        exact Nat.lt_succ_of_lt (sound.settled ino frozen)
    · exact sound.held
  refine ⟨after, fun j other => ?_⟩
  refine ⟨after, ?_, ?_, ?_, ?_, fun _ h => ⟨h, rfl⟩, fun _ _ h _ _ => h, fun _ _ h _ => h, rfl⟩
  · intro ino mine
    have apart := old (mine.elim (sound.made ino j) (sound.settled ino))
    simp [apart]
  · intro ino mine
    have apart := old (sound.made ino j mine)
    simp [apart]
  · intro ino frozen
    have apart := old (sound.settled ino frozen)
    simpa [apart] using frozen
  · intro ino
    by_cases same : ino = w.nextIno
    · subst same
      have fresh : w.creator w.nextIno ≠ some j :=
        fun made => absurd (sound.made _ j made) (Nat.lt_irrefl _)
      simp [fresh, Ne.symm other]
    · simp [same]

/-- A process freezes only its own file. -/
theorem steps_freeze {ino : Nat} (mine : w.creator ino = some i) : Steps H i w (w.freeze ino) := by
  have keeps : ∀ ino', w.frozen ino' = true → (w.freeze ino).frozen ino' = true := by
    intro ino' frozen
    by_cases same : ino' = ino
    · simp [same]
    · simpa [same] using frozen
  have after : Sound H w → Sound H (w.freeze ino) := by
    intro sound
    refine ⟨?_, sound.2, sound.3, ?_, sound.5⟩
    · intro name ino' entry digest
      obtain ⟨frozen, content⟩ := sound.digest name ino' entry digest
      exact ⟨keeps ino' frozen, content⟩
    · intro ino' frozen
      by_cases same : ino' = ino
      · subst same
        exact sound.made ino' i mine
      · rw [World.freeze_frozen, update_of_ne same] at frozen
        exact sound.settled ino' frozen
  refine ⟨after, fun j other => ?_⟩
  have same := Others.refl H j w
  refine ⟨after, same.2, ?_, keeps, same.5, same.6, same.7, same.8, same.9⟩
  intro ino' theirs
  have apart : ino' ≠ ino := by
    rintro rfl
    rw [mine] at theirs
    exact other (Option.some.inj theirs).symm
  simp [apart]

/-- Naming one's own file: a temporary name that was free, or a digest that the
frozen file has. -/
theorem steps_link (name : Bytes) (ino : Nat) (mine : w.creator ino = some i)
    (allowed : (¬ Digest name ∧ w.dir name = none) ∨
      (Digest name ∧ w.frozen ino = true ∧
        hexEncode (H.sum (w.inode ino).content) = lowerHex name)) :
    Steps H i w (w.setDir name (some ino)) := by
  have after : Sound H w → Sound H (w.setDir name (some ino)) := by
    intro sound
    refine ⟨?_, ?_, sound.3, sound.4, sound.5⟩
    · intro other ino' entry digest
      by_cases same : other = name
      · subst same
        simp only [World.setDir_dir, update_self, Option.some.injEq] at entry
        subst entry
        rcases allowed with ⟨plain, -⟩ | ⟨-, good⟩
        · exact absurd digest plain
        · exact good
      · rw [World.setDir_dir, update_of_ne same] at entry
        exact sound.digest other ino' entry digest
    · intro other ino' entry
      by_cases same : other = name
      · subst same
        simp only [World.setDir_dir, update_self, Option.some.injEq] at entry
        subst entry
        exact sound.made ino i mine
      · rw [World.setDir_dir, update_of_ne same] at entry
        exact sound.named other ino' entry
  refine ⟨after, fun j other => ?_⟩
  have same := Others.refl H j w
  refine ⟨after, same.2, same.3, same.4, same.5, same.6, ?_, ?_, same.9⟩
  · intro name' ino' entry _ plain
    have apart : name' ≠ name := by
      rintro rfl
      rcases allowed with ⟨-, free⟩ | ⟨digest, -⟩
      · rw [free] at entry
        cases entry
      · exact plain digest
    rw [World.setDir_dir, update_of_ne apart]
    exact entry
  · intro name' ino' entry theirs
    by_cases same : name' = name
    · subst same
      simp only [World.setDir_dir, update_self, Option.some.injEq] at entry
      subst entry
      rw [mine] at theirs
      exact absurd (Option.some.inj theirs).symm other
    · rw [World.setDir_dir, update_of_ne same] at entry
      exact entry

/-- Removing a digest name, or a name of one's own file. -/
theorem steps_unlink (name : Bytes)
    (allowed : Digest name ∨ ∀ ino, w.dir name = some ino → w.creator ino = some i) :
    Steps H i w (w.setDir name none) := by
  have remains : ∀ {name' ino}, (w.setDir name none).dir name' = some ino →
      w.dir name' = some ino := by
    intro name' ino entry
    by_cases same : name' = name
    · subst same
      simp at entry
    · simpa [same] using entry
  have after : Sound H w → Sound H (w.setDir name none) :=
    fun sound => ⟨fun other ino entry => sound.digest other ino (remains entry),
      fun other ino entry => sound.named other ino (remains entry), sound.3, sound.4, sound.5⟩
  refine ⟨after, fun j other => ?_⟩
  have same := Others.refl H j w
  refine ⟨after, same.2, same.3, same.4, same.5, same.6, ?_, fun _ _ entry _ => remains entry,
    same.9⟩
  intro name' ino entry theirs plain
  have apart : name' ≠ name := by
    rintro rfl
    rcases allowed with digest | own
    · exact plain digest
    · rw [own ino entry] at theirs
      exact other (Option.some.inj theirs).symm
  simpa [apart] using entry

theorem steps_failUnlink [DecidableEq ι] (name : Bytes) : Steps H i w (w.failUnlink i name) := by
  have after : Sound H w → Sound H (w.failUnlink i name) :=
    fun sound => ⟨sound.1, sound.2, sound.3, sound.4, sound.5⟩
  refine ⟨after, fun j other => ?_⟩
  have same := Others.refl H j w
  refine ⟨after, same.2, same.3, same.4, same.5, same.6, same.7, same.8, ?_⟩
  exact update_of_ne other _ _

/-! ## The phases of one run -/

/-- Before the temporary file exists. -/
structure Idle (H : Sha256) (i : ι) (w : World ι) : Prop where
  sound : Sound H w
  none : ∀ ino, w.creator ino ≠ some i

/-- The temporary file: the one file of this process, under one name, not yet
published. -/
structure Temp (H : Sha256) (i : ι) (tmp : Bytes) (ino : Nat) (bytes : Bytes) (w : World ι) :
    Prop where
  sound : Sound H w
  nonempty : tmp ≠ []
  plain : ¬ Digest tmp
  mine : w.creator ino = some i
  only : ∀ other, w.creator other = some i → other = ino
  unfrozen : w.frozen ino = false
  content : (w.inode ino).content = bytes
  linked : w.dir tmp = some ino
  unique : ∀ name, w.dir name = some ino → name = tmp

/-- The temporary file is open for writing at its end. -/
def Writing (H : Sha256) (i : ι) (tmp : Bytes) (fd ino : Nat) (bytes : Bytes) (w : World ι) : Prop :=
  Temp H i tmp ino bytes w ∧ w.owner fd = some i ∧ w.file fd = some ⟨ino, bytes.length⟩

/-- Whatever was written, the temporary file is still the only thing to clean up. -/
def Leftover (H : Sha256) (i : ι) (tmp : Bytes) (w : World ι) : Prop :=
  ∃ ino bytes, Temp H i tmp ino bytes w

/-- Nothing of this process is left under a name that is not a digest, unless
removing that name failed. -/
structure Tidy (H : Sha256) (i : ι) (w : World ι) : Prop where
  sound : Sound H w
  tidy : ∀ name ino, w.dir name = some ino → w.creator ino = some i →
    Digest name ∨ w.unlinkFailed i name = true

theorem Idle.tidy (idle : Idle H i w) : Tidy H i w :=
  ⟨idle.sound, fun _ ino _ mine => absurd mine (idle.none ino)⟩

theorem idle_stable : Stable (Others H i) (Idle H i) := by
  intro w w' idle moved
  exact ⟨moved.sound idle.sound, fun ino mine => idle.none ino ((moved.creator ino).mp mine)⟩

section

variable (tmp : Bytes)

theorem temp_stable (ino : Nat) (bytes : Bytes) : Stable (Others H i) (Temp H i tmp ino bytes) := by
  intro w w' temp moved
  refine ⟨moved.sound temp.sound, temp.nonempty, temp.plain, (moved.creator ino).mpr temp.mine, ?_,
    ?_, ?_, moved.linked tmp ino temp.linked temp.mine temp.plain, ?_⟩
  · exact fun other mine => temp.only other ((moved.creator other).mp mine)
  · rw [moved.unfrozen ino temp.mine, temp.unfrozen]
  · rw [moved.inode ino (.inl temp.mine), temp.content]
  · exact fun name entry => temp.unique name (moved.unlinked name ino entry temp.mine)

theorem writing_stable (fd ino : Nat) (bytes : Bytes) :
    Stable (Others H i) (Writing H i tmp fd ino bytes) := by
  intro w w' ⟨temp, owner, file⟩ moved
  obtain ⟨owner', same⟩ := moved.file fd owner
  exact ⟨temp_stable tmp ino bytes w w' temp moved, owner', same.trans file⟩

theorem leftover_stable : Stable (Others H i) (Leftover H i tmp) := by
  intro w w' ⟨ino, bytes, temp⟩ moved
  exact ⟨ino, bytes, temp_stable tmp ino bytes w w' temp moved⟩

theorem leftover_open_stable (fd : Nat) :
    Stable (Others H i) fun w => Leftover H i tmp w ∧ w.owner fd = some i := by
  intro w w' ⟨left, owner⟩ moved
  exact ⟨leftover_stable tmp w w' left moved, (moved.file fd owner).1⟩

end

theorem tidy_stable : Stable (Others H i) (Tidy H i) := by
  intro w w' tidy moved
  refine ⟨moved.sound tidy.sound, ?_⟩
  intro name ino entry mine
  have mine := (moved.creator ino).mp mine
  rw [moved.failed]
  exact tidy.tidy name ino (moved.unlinked name ino entry mine) mine

variable {tmp bytes : Bytes} {ino : Nat}

theorem Temp.record (temp : Temp H i tmp ino bytes w) (e : Event) :
    Temp H i tmp ino bytes (w.record e) :=
  ⟨(steps_record (i := i) e).1 temp.sound, temp.2, temp.3, temp.4, temp.5, temp.6, temp.7, temp.8, temp.9⟩

theorem Tidy.record (tidy : Tidy H i w) (e : Event) : Tidy H i (w.record e) :=
  ⟨(steps_record (i := i) e).1 tidy.sound, tidy.tidy⟩

section

variable (temp : Temp H i tmp ino bytes w)

include temp

theorem Temp.recordWrite (other : Nat) : Temp H i tmp ino bytes (w.recordWrite other) := by
  unfold World.recordWrite
  split
  · exact temp
  · exact temp.record _

theorem Temp.setFile {fd : Nat} {f : Option OpenFile} (mine : w.owner fd = some i) :
    Temp H i tmp ino bytes (w.setFile fd f) :=
  ⟨(steps_setFile mine).1 temp.sound, temp.2, temp.3, temp.4, temp.5, temp.6, temp.7, temp.8, temp.9⟩

theorem Temp.setInode (n : Inode) : Temp H i tmp ino n.content (w.setInode ino n) :=
  ⟨(steps_setInode temp.mine temp.unfrozen).1 temp.sound, temp.2, temp.3, temp.4, temp.5, temp.6,
    by simp, temp.8, temp.9⟩

end

theorem Tidy.setFile (tidy : Tidy H i w) {fd : Nat} {f : Option OpenFile}
    (mine : w.owner fd = some i) : Tidy H i (w.setFile fd f) :=
  ⟨(steps_setFile mine).1 tidy.sound, tidy.tidy⟩

theorem Tidy.openFile (tidy : Tidy H i w) (ino : Nat) : Tidy H i (w.openFile i ino) :=
  ⟨(steps_openFile (i := i) tidy.sound ino).1 tidy.sound, tidy.tidy⟩

theorem Idle.record (idle : Idle H i w) (e : Event) : Idle H i (w.record e) :=
  ⟨(steps_record (i := i) e).1 idle.sound, idle.none⟩

/-- A frozen file can be frozen again. -/
theorem World.freeze_frozen_eq {w : World ι} {ino : Nat} (frozen : w.frozen ino = true) :
    w.freeze ino = w := by
  unfold World.freeze
  rw [← frozen, update_eq_self]

end Protocol

end Microfat.Cache
