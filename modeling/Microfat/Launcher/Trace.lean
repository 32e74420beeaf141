/-
# Microfat.Launcher.Trace — what a dispatch may do, and what it may rely on

The log of a world lists what was attempted, newest first.  `Permitted` says which
event may follow which past, by mode; it is the fallback protocol of the launcher in
one table.  `Follows` says that every event of a log was permitted when it happened,
and `Grows` is the guarantee of the launcher: it only ever appends permitted events.

`Environment` is what other processes may do meanwhile: anything to the cache
directory and to files nobody has started to verify, but nothing to descriptors,
memory files and verified files of the launcher.  Memory files have no name in the
directory (`Nameless`).
-/
import Microfat.Launcher.Dispatch

namespace Microfat.Launcher

open Theory Format Codec Posix Cache

set_option autoImplicit false

def isExec : Event → Bool
  | .exec _ => true
  | _ => false

def lookupOf : Event → Option Lookup
  | .lookup outcome => some outcome
  | _ => none

/-- The lookup found an entry and verified it. -/
def Hit : Lookup → Prop
  | .opened (.ok _) => True
  | _ => False

/-- The lookup found an entry that is never run nor replaced: the error is that of a symbolic
link, of something else than a regular file, or of a file others could have written. -/
def Unsafe : Lookup → Prop
  | .opened (.error err) => Err.is err (.errno Errno.eloop) = true ∨
      Err.is err .errNonRegularFile = true ∨ Err.is err .errUnsafeFile = true
  | _ => False

/-- A plain miss. -/
def Miss (found : Lookup) : Prop := ¬ Hit found ∧ ¬ Unsafe found

/-- The number of `execve` attempts. -/
def attempts (l : List Event) : Nat := l.countP isExec

section

variable (H : Sha256) (entry : VariantEntry) (mode : ExecMode)

/-- What may be executed: exactly the entry's bytes, and sealed if in memory. -/
def Runnable (n : Inode) : Prop :=
  Matches H entry.uncompressedSize entry.sha256 n ∧ (n.memfd = true → n.isSealed = true)

/-- A failed memory attempt after which the cache may be written. -/
def Eligible (err : Err) : Prop :=
  Err.is err .errMemoryBudget = false ∧ isPayloadCorruptionOrDecompressionError err = false

/-- The protocol: which event may come after which past. -/
def Permitted : Event → List Event → Prop
  | .exec image, earlier => Runnable H entry image ∧
      (mode = .auto → attempts earlier ≤ 1 ∧ ∀ found, .lookup found ∈ earlier → ¬ Unsafe found)
  | .memfdCreate, _ => mode ≠ .cache
  | .cacheOpen, _ => mode ≠ .memfd
  | .cacheWrite, earlier => mode ≠ .memfd ∧ (mode = .auto →
      (∃ found, .lookup found ∈ earlier ∧ Miss found) ∧ ∃ err, .memfdFailed err ∈ earlier ∧ Eligible err)
  | .lookup _, earlier => attempts earlier = 0 ∧ earlier.filterMap lookupOf = []
  | .memfdFailed _, _ => True

/-- Every event was permitted when it happened. -/
def Follows : List Event → Prop
  | [] => True
  | e :: earlier => Permitted H entry mode e earlier ∧ Follows earlier

/-- Permitted events were appended. -/
inductive Grows : List Event → List Event → Prop
  | refl (l : List Event) : Grows l l
  | next {l l' : List Event} {e : Event} : Grows l l' → Permitted H entry mode e l' →
      Grows l (e :: l')

variable {H entry mode}

variable {l : List Event} {e : Event}

theorem Grows.one (permitted : Permitted H entry mode e l) :
    Grows H entry mode l (e :: l) :=
  .next (.refl l) permitted

theorem Grows.follows {l' : List Event} (grows : Grows H entry mode l l')
    (follows : Follows H entry mode l) : Follows H entry mode l' := by
  induction grows with
  | refl => exact follows
  | next _ permitted ih => exact ⟨permitted, ih⟩

theorem Follows.split {post pre : List Event} :
    Follows H entry mode (post ++ e :: pre) → Permitted H entry mode e pre := by
  induction post with
  | nil => exact fun follows => follows.1
  | cons _ _ ih => exact fun follows => ih follows.2

theorem Follows.mem (follows : Follows H entry mode l) (mem : e ∈ l) :
    ∃ earlier, Permitted H entry mode e earlier := by
  obtain ⟨post, pre, rfl⟩ := List.append_of_mem mem
  exact ⟨pre, follows.split⟩

/-- In automatic mode there is no third attempt. -/
theorem Follows.attempts_le (follows : Follows H entry .auto l) :
    attempts l ≤ 2 := by
  induction l with
  | nil => exact Nat.zero_le _
  | cons e earlier ih =>
    cases e with
    | exec image =>
      have few := (follows.1.2 rfl).1
      show List.countP isExec (.exec image :: earlier) ≤ 2
      rw [List.countP_cons_of_pos rfl]
      exact Nat.succ_le_succ few
    | _ => exact ih follows.2

theorem attempts_eq_zero : attempts l = 0 ↔ ∀ image, .exec image ∉ l := by
  rw [attempts, List.countP_eq_zero]
  constructor
  · intro none image mem
    exact none _ mem rfl
  · intro none e mem isExec
    cases e with
    | exec image => exact none image mem
    | _ => cases isExec

theorem mem_looked {found : Lookup} : .lookup found ∈ l ↔ found ∈ l.filterMap lookupOf := by
  rw [List.mem_filterMap]
  constructor
  · exact fun mem => ⟨_, mem, rfl⟩
  · rintro ⟨e, mem, same⟩
    cases e with
    | lookup other =>
      cases same
      exact mem
    | _ => cases same

/-- There is one lookup. -/
theorem Follows.lookup_unique (follows : Follows H entry mode l) {found other : Lookup}
    (first : .lookup found ∈ l) (second : .lookup other ∈ l) : found = other := by
  induction l with
  | nil => cases first
  | cons e earlier ih =>
    -- an event that is a lookup has no other before it
    have alone : ∀ {a b : Lookup}, e = .lookup a → .lookup b ∉ earlier := by
      rintro a b rfl before
      rw [mem_looked, follows.1.2] at before
      cases before
    rcases List.mem_cons.mp first with here | before <;> rcases List.mem_cons.mp second with here' | before'
    · exact Event.lookup.inj (here.trans here'.symm)
    · exact absurd before' (alone here.symm)
    · exact absurd before (alone here'.symm)
    · exact ih follows.2 before before'

/-- An unsafe entry is never accompanied by an execution or a write to the cache. -/
theorem Follows.refused (follows : Follows H entry .auto l) {found : Lookup} (looked : .lookup found ∈ l)
    (refused : Unsafe found) : (∀ image, .exec image ∉ l) ∧ .cacheWrite ∉ l := by
  constructor
  · rw [← attempts_eq_zero]
    induction l with
    | nil => cases looked
    | cons e earlier ih =>
      rcases List.mem_cons.mp looked with rfl | before
      · exact follows.1.1
      · cases e with
        | exec image => exact absurd refused ((follows.1.2 rfl).2 found before)
        | _ => exact ih follows.2 before
  · intro wrote
    obtain ⟨post, pre, rfl⟩ := List.append_of_mem wrote
    obtain ⟨⟨other, before, miss⟩, -⟩ := follows.split.2 rfl
    have later : .lookup other ∈ post ++ .cacheWrite :: pre :=
      List.mem_append_right _ (List.mem_cons_of_mem _ before)
    exact miss.2 (follows.lookup_unique looked later ▸ refused)

end

/-! ## The other processes -/

/-- Names, and files under verification, are never of memory files. -/
structure Nameless (w : World Unit) : Prop where
  named : ∀ name ino, w.dir name = some ino → ino < w.nextIno ∧ (w.inode ino).memfd = false
  frozen : ∀ ino, w.frozen ino = true → ino < w.nextIno ∧ (w.inode ino).memfd = false

/-- What other processes may do: not to change a file whose verification has begun,
nor what is private to the launcher. -/
structure Environment (w w' : World Unit) : Prop where
  file : w'.file = w.file
  owner : w'.owner = w.owner
  nextFd : w'.nextFd = w.nextFd
  frozen : w'.frozen = w.frozen
  log : w'.log = w.log
  nextIno : w.nextIno ≤ w'.nextIno
  verified : ∀ ino, w.frozen ino = true → w'.inode ino = w.inode ino
  memory : ∀ ino, (w.inode ino).memfd = true → w'.inode ino = w.inode ino
  flag : ∀ ino, ino < w.nextIno → (w'.inode ino).memfd = (w.inode ino).memfd
  nameless : Nameless w → Nameless w'

theorem Environment.refl (w : World Unit) : Environment w w :=
  ⟨rfl, rfl, rfl, rfl, rfl, Nat.le_refl _, fun _ _ => rfl, fun _ _ => rfl, fun _ _ => rfl, id⟩

theorem Environment.trans {u v w : World Unit} (first : Environment u v)
    (second : Environment v w) : Environment u w where
  file := second.file.trans first.file
  owner := second.owner.trans first.owner
  nextFd := second.nextFd.trans first.nextFd
  frozen := second.frozen.trans first.frozen
  log := second.log.trans first.log
  nextIno := Nat.le_trans first.nextIno second.nextIno
  verified ino frozen :=
    (second.verified ino (by rw [first.frozen]; exact frozen)).trans (first.verified ino frozen)
  memory ino memfd := by
    have same := first.memory ino memfd
    exact (second.memory ino (by rw [same]; exact memfd)).trans same
  flag ino below :=
    (second.flag ino (Nat.lt_of_lt_of_le below first.nextIno)).trans (first.flag ino below)
  nameless := second.nameless ∘ first.nameless

/-- The log is as the phase of the dispatch says, and memory files have no name. -/
def Phase (A : List Event → Prop) (w : World Unit) : Prop := A w.log ∧ Nameless w

theorem phase_stable (A : List Event → Prop) : Stable Environment (Phase A) := by
  intro w w' ⟨past, nameless⟩ moved
  refine ⟨?_, moved.nameless nameless⟩
  rw [moved.log]
  exact past

/-! ## What the kernel keeps -/

section

variable {w : World Unit}

section

variable (nameless : Nameless w)

include nameless

theorem Nameless.record (e : Event) : Nameless (w.record e) :=
  ⟨nameless.named, nameless.frozen⟩

theorem Nameless.recordWrite (ino : Nat) : Nameless (w.recordWrite ino) := by
  unfold World.recordWrite
  split
  · exact nameless
  · exact nameless.record _

theorem Nameless.setFile (fd : Nat) (f : Option OpenFile) : Nameless (w.setFile fd f) :=
  ⟨nameless.named, nameless.frozen⟩

theorem Nameless.openFile (ino : Nat) : Nameless (w.openFile () ino) :=
  ⟨nameless.named, nameless.frozen⟩

theorem Nameless.failUnlink (name : Bytes) : Nameless (w.failUnlink () name) :=
  ⟨nameless.named, nameless.frozen⟩

end

variable {ino : Nat}

section

variable (nameless : Nameless w)

include nameless

theorem Nameless.setInode {n : Inode} (same : n.memfd = (w.inode ino).memfd) :
    Nameless (w.setInode ino n) := by
  have flags : ∀ other, ((w.setInode ino n).inode other).memfd = (w.inode other).memfd := by
    intro other
    by_cases this : other = ino
    · subst this
      simpa using same
    · simp [this]
  refine ⟨fun name other entry => ?_, fun other frozen => ?_⟩
  · rw [flags]
    exact nameless.named name other entry
  · rw [flags]
    exact nameless.frozen other frozen

theorem Nameless.newInode (n : Inode) : Nameless (w.newInode () n) := by
  refine ⟨fun name ino entry => ?_, fun ino frozen => ?_⟩
  · obtain ⟨below, flag⟩ := nameless.named name ino entry
    simp only [World.newInode_nextIno, World.newInode_inode, Function.update_of_ne (Nat.ne_of_lt below)]
    exact ⟨Nat.lt_succ_of_lt below, flag⟩
  · by_cases fresh : ino = w.nextIno
    · subst fresh
      simp at frozen
    · simp only [World.newInode_frozen, Function.update_of_ne fresh] at frozen
      obtain ⟨below, flag⟩ := nameless.frozen ino frozen
      simp only [World.newInode_nextIno, World.newInode_inode, Function.update_of_ne fresh]
      exact ⟨Nat.lt_succ_of_lt below, flag⟩

section

variable (below : ino < w.nextIno) (flag : (w.inode ino).memfd = false)

include below flag

theorem Nameless.freeze : Nameless (w.freeze ino) := by
  refine ⟨nameless.named, fun other frozen => ?_⟩
  by_cases this : other = ino
  · subst this
    exact ⟨below, flag⟩
  · simp only [World.freeze_frozen, Function.update_of_ne this] at frozen
    exact nameless.frozen other frozen

theorem Nameless.link {name : Bytes} : Nameless (w.setDir name (some ino)) := by
  refine ⟨fun other ino' entry => ?_, nameless.frozen⟩
  by_cases this : other = name
  · subst this
    simp only [World.setDir_dir, Function.update_self, Option.some.injEq] at entry
    subst entry
    exact ⟨below, flag⟩
  · simp only [World.setDir_dir, Function.update_of_ne this] at entry
    exact nameless.named other ino' entry

end

theorem Nameless.unlink (name : Bytes) : Nameless (w.setDir name none) := by
  refine ⟨fun other ino entry => ?_, nameless.frozen⟩
  by_cases this : other = name
  · subst this
    simp at entry
  · simp only [World.setDir_dir, Function.update_of_ne this] at entry
    exact nameless.named other ino entry

theorem Nameless.entry {name : Bytes} (entry : w.entry name = some ino) :
    ino < w.nextIno ∧ (w.inode ino).memfd = false := by
  unfold World.entry at entry
  split at entry
  · cases entry
  · exact nameless.named name ino entry

theorem Nameless.store (fd : Nat) (f : OpenFile) (bytes : Bytes) : Nameless (w.store fd f bytes) := by
  unfold World.store
  refine ((nameless.recordWrite f.ino).setInode ?_).setFile fd _
  unfold World.recordWrite
  split
  · rfl
  · rfl

theorem Nameless.publish {old new : Bytes} (entry : w.entry old = some ino) :
    Nameless (((w.freeze ino).setDir new (some ino)).setDir old none) := by
  obtain ⟨below, flag⟩ := nameless.entry entry
  exact ((nameless.freeze below flag).link below flag).unlink old

end

end

end Microfat.Launcher
