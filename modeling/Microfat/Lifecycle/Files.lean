/-
# Microfat.Lifecycle.Files — the file system of an in-place transformation

Transactions talk to the kernel about paths, the files behind them, an advisory
lock per file and the metadata of a staging file.  `World` is that state: `bind`
maps a directory entry to the file it names, `node` a file identity (device and
inode number) to the file.  A path is a string; `Names` says which entry it names
and what `filepath.EvalSymlinks` makes of it, and is not changed by anything
modelled here.

How a call ends is up to the environment (`Choice`); unlinking always succeeds.
The `log`, the `creator` of a file and the holder of a lock are bookkeeping of runs:
whose lock it is matters to the kernel, who created a file to nobody.
-/
import Microfat.Theory.Prog
import Microfat.Theory.Text
import Microfat.Sentinels

namespace Microfat.Lifecycle

open Theory

set_option autoImplicit false

/-! ## Files -/

/-- A directory entry, by the names that lead to it from the root. -/
abbrev Loc := List Bytes

inductive Kind where
  | regular
  | directory
  | symlink (target : Loc)
  | special
  deriving DecidableEq, Repr

/-- A file.  `mode` has the permission bits and `os.ModeSetuid`, `ModeSetgid` and
`ModeSticky`. -/
structure Node where
  kind : Kind
  content : Bytes
  mode : Nat
  uid : Int
  gid : Int
  xattrs : List (Bytes × Bytes)
  mtime : Int
  nlink : Nat
  deriving DecidableEq, Repr

/-- `os.FileInfo` with its `syscall.Stat_t`. -/
structure FileInfo where
  ino : Nat
  mode : Nat
  uid : Int
  gid : Int
  nlink : Nat
  size : Nat
  mtime : Int
  deriving DecidableEq, Repr

def Node.info (n : Node) (ino : Nat) : FileInfo :=
  ⟨ino, n.mode, n.uid, n.gid, n.nlink, n.content.length, n.mtime⟩

/-- What a path string stands for. -/
structure Names where
  entry : Bytes → Loc
  evalSymlinks : Bytes → Except Nat Bytes

/-- What happened, for statements about whole runs. -/
inductive Event (ι : Type) where
  | target (run : ι) (path : Bytes)
  | snapshot (run : ι) (ino : Nat)
  | staged (run : ι) (place : Loc) (ino : Nat)
  | transformed (run : ι) (content : Bytes)
  | published (run : ι) (place : Loc) (replaced : Option Nat) (ino : Nat)
  deriving DecidableEq

structure World (ι : Type) where
  bind : Loc → Option Nat
  node : Nat → Node
  nextIno : Nat
  lock : Nat → Option ι
  creator : Nat → Option ι
  log : List (Event ι)

/-- Identities are handed out in order: what an entry names has been handed out. -/
def World.Sound {ι : Type} (w : World ι) : Prop := ∀ e i, w.bind e = some i → i < w.nextIno

/-! ## Calls -/

inductive Call where
  | stat (path : Bytes)
  | fstat (ino : Nat)
  | readXattrs (path : Bytes)
  | readFdXattrs (ino : Nat)
  | evalSymlinks (path : Bytes)
  | openRead (path : Bytes)
  | flock (ino : Nat)
  | unlock (ino : Nat)
  | mkdirAll (dir : Bytes) (below : Bytes)
  | createTemp (dir : Bytes)
  | fchmod (ino mode : Nat)
  | fchown (ino : Nat) (uid gid : Int)
  | fremovexattr (ino : Nat) (attr : Bytes)
  | fsetxattr (ino : Nat) (attr val : Bytes)
  | transform (ino : Nat)
  | fsync (ino : Nat)
  | close (ino : Nat)
  | rename (old new : Bytes)
  | renameNoReplace (old new : Bytes)
  | link (old new : Bytes)
  | remove (path : Bytes)
  | syncDirectory (dir : Bytes)
  -- for the log
  | resolved (path : Bytes)
  | snapshotted (ino : Nat)

abbrev Status := Option Nat

@[reducible] def Call.Reply : Call → Type
  | .stat _ | .fstat _ => Except Nat FileInfo
  | .readXattrs _ | .readFdXattrs _ => Except Nat (List (Bytes × Bytes))
  | .evalSymlinks _ => Except Nat Bytes
  | .openRead _ => Except Nat Nat
  | .createTemp _ => Except Nat (Bytes × Nat)
  | .transform _ => Option Err
  | .unlock _ | .remove _ | .resolved _ | .snapshotted _ => Unit
  | _ => Status

/-- How the environment lets a call end. -/
structure Choice where
  errno : Option Nat
  -- how many directories a failing `MkdirAll` made
  count : Nat
  -- the random part of a staging name
  random : Nat
  -- what the callback writes, and its error
  content : Bytes
  failure : Option Err
  -- mode bits the kernel grants
  granted : Nat
  time : Int
  -- attributes a listing skips
  skips : List Bytes

abbrev Program := Prog Call Call.Reply

section

open Theory.Prog (call)

abbrev stat (path : Bytes) : Program (Except Nat FileInfo) := call (Call.stat path)
abbrev fstat (ino : Nat) : Program (Except Nat FileInfo) := call (Call.fstat ino)
abbrev readXattrs (path : Bytes) : Program (Except Nat (List (Bytes × Bytes))) :=
  call (Call.readXattrs path)
abbrev readFdXattrs (ino : Nat) : Program (Except Nat (List (Bytes × Bytes))) :=
  call (Call.readFdXattrs ino)
abbrev evalSymlinks (path : Bytes) : Program (Except Nat Bytes) := call (Call.evalSymlinks path)
abbrev openRead (path : Bytes) : Program (Except Nat Nat) := call (Call.openRead path)
abbrev flock (ino : Nat) : Program Status := call (Call.flock ino)
abbrev unlock (ino : Nat) : Program Unit := call (Call.unlock ino)
abbrev mkdirAll (dir below : Bytes) : Program Status := call (Call.mkdirAll dir below)
abbrev createTemp (dir : Bytes) : Program (Except Nat (Bytes × Nat)) := call (Call.createTemp dir)
abbrev fchmod (ino mode : Nat) : Program Status := call (Call.fchmod ino mode)
abbrev fchown (ino : Nat) (uid gid : Int) : Program Status := call (Call.fchown ino uid gid)
abbrev fremovexattr (ino : Nat) (attr : Bytes) : Program Status := call (Call.fremovexattr ino attr)
abbrev fsetxattr (ino : Nat) (attr val : Bytes) : Program Status := call (Call.fsetxattr ino attr val)
abbrev transform (ino : Nat) : Program (Option Err) := call (Call.transform ino)
abbrev fsync (ino : Nat) : Program Status := call (Call.fsync ino)
abbrev close (ino : Nat) : Program Status := call (Call.close ino)
abbrev rename (old new : Bytes) : Program Status := call (Call.rename old new)
abbrev renameNoReplace (old new : Bytes) : Program Status := call (Call.renameNoReplace old new)
abbrev link (old new : Bytes) : Program Status := call (Call.link old new)
abbrev remove (path : Bytes) : Program Unit := call (Call.remove path)
abbrev syncDirectory (dir : Bytes) : Program Status := call (Call.syncDirectory dir)
abbrev resolved (path : Bytes) : Program Unit := call (Call.resolved path)
abbrev snapshotted (ino : Nat) : Program Unit := call (Call.snapshotted ino)

end

/-! ## The kernel -/

/-- `filepath.Join(dir, name)` as `os.CreateTemp` does it. -/
def tempPath (dir : Bytes) (random : Nat) : Bytes :=
  let name := lit ".microfat-tx-" ++ lit (toString random) ++ lit ".tmp"
  if dir.getLast? = some slash then dir ++ name else dir ++ slash :: name

namespace World

variable {ι : Type} (w : World ι)

/-- The file a path names, symbolic links followed. -/
def follow : Nat → Loc → Except Nat Nat
  | 0, _ => .error Errno.eloop
  | depth + 1, e =>
    match w.bind e with
    | none => .error Errno.enoent
    | some ino =>
      match (w.node ino).kind with
      | .symlink target => follow depth target
      | _ => .ok ino

def setBind (e : Loc) (b : Option Nat) : World ι := { w with bind := Function.update w.bind e b }

def setNode (ino : Nat) (n : Node) : World ι := { w with node := Function.update w.node ino n }

/-- One more or one less name. -/
def relink (ino : Nat) (f : Nat → Nat) : World ι :=
  w.setNode ino { w.node ino with nlink := f (w.node ino).nlink }

def note (e : Event ι) : World ι := { w with log := e :: w.log }

/-- A new file under a name that is free. -/
def create (e : Loc) (n : Node) (owner : Option ι) : World ι :=
  { w with
    bind := Function.update w.bind e (some w.nextIno)
    node := Function.update w.node w.nextIno n
    nextIno := w.nextIno + 1
    creator := Function.update w.creator w.nextIno owner }

/-- The directories above an entry, outermost first. -/
def above (e : Loc) : List Loc := e.inits.dropLast

def directory (time : Int) : Node := ⟨.directory, [], 0o755, 0, 0, [], time, 2⟩

/-- Make the directories that are missing. -/
def makeDirs (time : Int) (w : World ι) : List Loc → World ι
  | [] => w
  | e :: es => makeDirs time (if w.bind e = none then w.create e (directory time) none else w) es

/-- An entry in the way of a directory. -/
def blocks (e : Loc) : Bool :=
  match w.bind e with
  | none => false
  | some ino => (w.node ino).kind = .regular || (w.node ino).kind = .special

/-- Move a name onto another one, which loses the file it named. -/
def move (old new : Loc) (ino : Nat) : World ι :=
  let freed := match w.bind new with
    | some gone => w.relink gone (· - 1)
    | none => w
  (freed.setBind new (some ino)).setBind old none

end World

section Step

variable {ι : Type} (names : Names) (me : ι)

open World

/-- A call that changes one file, or fails. -/
def onNode (w : World ι) (x : Choice) (ino : Nat) (f : Node → Node) : World ι × Status :=
  match x.errno with
  | some n => (w, some n)
  | none => (w.setNode ino (f (w.node ino)), none)

/-- The attributes of a file, with some left out, or an error. -/
def listing (w : World ι) (x : Choice) (ino : Nat) : Except Nat (List (Bytes × Bytes)) :=
  match x.errno with
  | some n => .error n
  | none => .ok ((w.node ino).xattrs.filter fun a => a.1 ∉ x.skips)

variable [DecidableEq ι]

def step (w : World ι) : (c : Call) → Choice → World ι × c.Reply
  | .stat path, x =>
    (w, match x.errno with
      | some n => .error n
      | none => (w.follow 40 (names.entry path)).map fun ino => (w.node ino).info ino)
  | .fstat ino, x =>
    (w, match x.errno with
      | some n => .error n
      | none => .ok ((w.node ino).info ino))
  | .readXattrs path, x =>
    (w, match w.follow 40 (names.entry path) with
      | .error n => .error n
      | .ok ino => listing w x ino)
  | .readFdXattrs ino, x => (w, listing w x ino)
  | .evalSymlinks path, x =>
    (w, match x.errno with
      | some n => .error n
      | none => names.evalSymlinks path)
  | .openRead path, x =>
    (w, match x.errno with
      | some n => .error n
      | none => w.follow 40 (names.entry path))
  | .flock ino, x =>
    match w.lock ino, x.errno with
    | some _, _ => (w, some Errno.eagain)
    | none, some n => (w, some n)
    | none, none => ({ w with lock := Function.update w.lock ino (some me) }, none)
  | .unlock ino, _ =>
    (if w.lock ino = some me then { w with lock := Function.update w.lock ino none } else w, ())
  | .mkdirAll _ below, x =>
    let dirs := above (names.entry below)
    if dirs.any w.blocks then (w, some Errno.enotdir)
    else match x.errno with
      | some n => (makeDirs x.time w (dirs.take x.count), some n)
      | none => (makeDirs x.time w dirs, none)
  | .createTemp dir, x =>
    let path := tempPath dir x.random
    let e := names.entry path
    match x.errno, w.bind e with
    | some n, _ => (w, .error n)
    | none, some _ => (w, .error Errno.eexist)
    | none, none =>
      ((w.create e ⟨.regular, [], 0o600, 0, 0, [], x.time, 1⟩ (some me)).note
        (.staged me e w.nextIno), .ok (path, w.nextIno))
  | .fchmod ino mode, x => onNode w x ino fun n => { n with mode := mode &&& x.granted }
  | .fchown ino uid gid, x => onNode w x ino fun n => { n with uid := uid, gid := gid }
  | .fremovexattr ino attr, x =>
    onNode w x ino fun n => { n with xattrs := n.xattrs.filter fun a => a.1 ≠ attr }
  | .fsetxattr ino attr val, x =>
    onNode w x ino fun n =>
      { n with xattrs := (attr, val) :: n.xattrs.filter fun a => a.1 ≠ attr }
  | .transform ino, x =>
    let w' := w.setNode ino { w.node ino with content := x.content, mtime := x.time }
    match x.failure with
    | some err => (w', some err)
    | none => (w'.note (.transformed me x.content), none)
  | .fsync _, x | .close _, x | .syncDirectory _, x => (w, x.errno)
  | .rename old new, x =>
    let e := names.entry new
    match x.errno, w.bind (names.entry old) with
    | some n, _ => (w, some n)
    | none, none => (w, some Errno.enoent)
    | none, some ino =>
      match w.bind e with
      | some there =>
        if there = ino then (w, none)
        else if (w.node there).kind = .directory then (w, some Errno.eisdir)
        else ((w.move (names.entry old) e ino).note (.published me e (some there) ino), none)
      | none => ((w.move (names.entry old) e ino).note (.published me e none ino), none)
  | .renameNoReplace old new, x =>
    let e := names.entry new
    match x.errno, w.bind (names.entry old), w.bind e with
    | some n, _, _ => (w, some n)
    | none, none, _ => (w, some Errno.enoent)
    | none, some _, some _ => (w, some Errno.eexist)
    | none, some ino, none =>
      ((w.move (names.entry old) e ino).note (.published me e none ino), none)
  | .link old new, x =>
    let e := names.entry new
    match x.errno, w.bind (names.entry old), w.bind e with
    | some n, _, _ => (w, some n)
    | none, none, _ => (w, some Errno.enoent)
    | none, some _, some _ => (w, some Errno.eexist)
    | none, some ino, none =>
      (((w.relink ino (· + 1)).setBind e (some ino)).note (.published me e none ino), none)
  | .remove path, _ =>
    let e := names.entry path
    match w.bind e with
    | none => (w, ())
    | some ino => ((w.relink ino (· - 1)).setBind e none, ())
  | .resolved path, _ => (w.note (.target me path), ())
  | .snapshotted ino, _ => (w.note (.snapshot me ino), ())

end Step

end Microfat.Lifecycle
