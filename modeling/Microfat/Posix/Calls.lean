/-
# Microfat.Posix.Calls — the system calls of the launcher and the cache

The launcher and the cache talk to the kernel about one cache directory,
regular files in it, anonymous memory files and the process image.  `World` is
that state; `Call` lists the calls the modelled code issues and `Reply` what each
one answers; `step` is the kernel.  How a call ends is up to the environment: a
`Choice` says whether it fails, and with what, how many bytes a read or a failed
write moved, and what the unpredictable sources deliver.

Part of the world is bookkeeping that no call can read (`owner`, `creator`,
`frozen`, `unlinkFailed`, `log`): it records whose a descriptor or a file is, which
files have been published or are being verified, whose cleanup failed, and what
was attempted.
-/
import Microfat.Theory.Prog
import Microfat.Cgroup.Memory

namespace Microfat.Posix

open Theory

set_option autoImplicit false

/-- The file type; the format bits of sockets, devices and pipes are kept. -/
inductive Kind where
  | regular
  | directory
  | symlink
  | special (format : Nat)
  deriving DecidableEq, Repr

/-- The `S_IFMT` bits. -/
def Kind.bits : Kind → Nat
  | .regular => 0o100000
  | .directory => 0o040000
  | .symlink => 0o120000
  | .special format => format

structure Inode where
  kind : Kind
  mode : Nat
  uid : Nat
  content : Bytes
  memfd : Bool
  isSealed : Bool
  deriving DecidableEq

/-- An open file description. -/
structure OpenFile where
  ino : Nat
  offset : Nat
  deriving DecidableEq

structure Stat where
  kind : Kind
  mode : Nat
  uid : Nat
  size : Nat
  deriving DecidableEq

def Inode.stat (n : Inode) : Stat := ⟨n.kind, n.mode, n.uid, n.content.length⟩

/-- How the initial cache lookup of the launcher ended: there was no entry to open, or
opening and verifying the entry answered. -/
inductive Lookup where
  | skipped
  | opened (answer : Except Err Nat)

/-- What was attempted, for statements about whole runs. -/
inductive Event where
  | exec (image : Inode)
  | memfdCreate
  | cacheOpen
  | cacheWrite
  | lookup (outcome : Lookup)
  | memfdFailed (err : Err)

structure World (ι : Type) where
  dir : Bytes → Option Nat
  inode : Nat → Inode
  nextIno : Nat
  file : Nat → Option OpenFile
  nextFd : Nat
  euid : ι → Nat
  owner : Nat → Option ι
  creator : Nat → Option ι
  frozen : Nat → Bool
  unlinkFailed : ι → Bytes → Bool
  log : List Event

inductive Call where
  | random
  | geteuid
  | openat (name : Bytes)
  | createExcl (name : Bytes) (mode : Nat)
  | fstatat (name : Bytes)
  | fstat (fd : Nat)
  | pread (fd offset len : Nat)
  | write (fd : Nat) (piece : Bytes)
  | fchmod (fd mode : Nat)
  | fsync (fd : Nat)
  | close (fd : Nat)
  | renameat (old new : Bytes)
  | unlinkat (name : Bytes)
  | memfdCreate (explicitExec : Bool)
  | ftruncate (fd : Nat) (size : Int)
  | addSeals (fd : Nat)
  | execve (fd : Nat)
  | readCgroupLimits
  | resolveExistingCacheDir
  | resolveCacheDir
  | note (e : Event)

/-- A call that answers nothing but success or an error number. -/
abbrev Status := Option Nat

@[reducible] def Call.Reply : Call → Type
  | .random => Except Err Bytes
  | .geteuid => Nat
  | .openat _ => Except Nat Nat
  | .createExcl _ _ => Except Nat Nat
  | .fstatat _ => Except Nat Stat
  | .fstat _ => Except Nat Stat
  | .pread _ _ _ => Except Nat Bytes
  | .write _ _ => Nat × Status
  | .fchmod _ _ => Status
  | .fsync _ => Status
  | .close _ => Status
  | .renameat _ _ => Status
  | .unlinkat _ => Status
  | .memfdCreate _ => Except Nat Nat
  | .ftruncate _ _ => Status
  | .addSeals _ => Status
  | .execve _ => Status
  | .readCgroupLimits => Except Err Cgroup.Limits
  | .resolveExistingCacheDir => Except Err (Int × Bytes)
  | .resolveCacheDir => Except Err (Int × Bytes)
  | .note _ => Unit

/-- How the environment lets a call end. -/
structure Choice where
  errno : Option Nat
  count : Nat
  random : Except Err Bytes
  limits : Except Err Cgroup.Limits
  cacheDir : Except Err (Int × Bytes)

/-- Nothing fails and reads are as long as asked for. -/
def Choice.fine : Choice :=
  { errno := none, count := 2 ^ 63, random := .ok (List.replicate 8 0),
    limits := .ok ⟨0, 0, 0, 0, false, false⟩, cacheDir := .ok (3, lit "/cache") }

abbrev Program := Prog Call Call.Reply

section

open Theory.Prog (call)

abbrev random : Program (Except Err Bytes) := call Call.random
abbrev geteuid : Program Nat := call Call.geteuid
abbrev openat (name : Bytes) : Program (Except Nat Nat) := call (Call.openat name)
abbrev createExcl (name : Bytes) (mode : Nat) : Program (Except Nat Nat) :=
  call (Call.createExcl name mode)
abbrev fstatat (name : Bytes) : Program (Except Nat Stat) := call (Call.fstatat name)
abbrev fstat (fd : Nat) : Program (Except Nat Stat) := call (Call.fstat fd)
abbrev pread (fd offset len : Nat) : Program (Except Nat Bytes) := call (Call.pread fd offset len)
abbrev write (fd : Nat) (piece : Bytes) : Program (Nat × Status) := call (Call.write fd piece)
abbrev fchmod (fd mode : Nat) : Program Status := call (Call.fchmod fd mode)
abbrev fsync (fd : Nat) : Program Status := call (Call.fsync fd)
abbrev close (fd : Nat) : Program Status := call (Call.close fd)
abbrev renameat (old new : Bytes) : Program Status := call (Call.renameat old new)
abbrev unlinkat (name : Bytes) : Program Status := call (Call.unlinkat name)
abbrev memfdCreate (explicitExec : Bool) : Program (Except Nat Nat) :=
  call (Call.memfdCreate explicitExec)
abbrev ftruncate (fd : Nat) (size : Int) : Program Status := call (Call.ftruncate fd size)
abbrev addSeals (fd : Nat) : Program Status := call (Call.addSeals fd)
abbrev execve (fd : Nat) : Program Status := call (Call.execve fd)
abbrev readCgroupLimits : Program (Except Err Cgroup.Limits) := call Call.readCgroupLimits
abbrev resolveExistingCacheDir : Program (Except Err (Int × Bytes)) := call Call.resolveExistingCacheDir
abbrev resolveCacheDir : Program (Except Err (Int × Bytes)) := call Call.resolveCacheDir
abbrev note (e : Event) : Program Unit := call (Call.note e)

end

/-- The bytes of a file after `piece` was written at `offset`. -/
def overwrite (content : Bytes) (offset : Nat) (piece : Bytes) : Bytes :=
  content.take offset ++ List.replicate (offset - content.length) 0 ++ piece ++
    content.drop (offset + piece.length)

/-- `ftruncate`: cut, or extend with zeros. -/
def resize (content : Bytes) (size : Nat) : Bytes :=
  content.take size ++ List.replicate (size - content.length) 0

section

variable {ι : Type}

namespace World

/-- The directory, which has no entry with an empty name. -/
def entry (w : World ι) (name : Bytes) : Option Nat :=
  if name = [] then none else w.dir name

@[simps] def record (w : World ι) (e : Event) : World ι := { w with log := e :: w.log }

@[simps] def setInode (w : World ι) (ino : Nat) (n : Inode) : World ι :=
  { w with inode := Function.update w.inode ino n }

@[simps] def setDir (w : World ι) (name : Bytes) (target : Option Nat) : World ι :=
  { w with dir := Function.update w.dir name target }

@[simps] def setFile (w : World ι) (fd : Nat) (f : Option OpenFile) : World ι :=
  { w with file := Function.update w.file fd f }

/-- A descriptor of process `i` on an existing file. -/
@[simps] def openFile (w : World ι) (i : ι) (ino : Nat) : World ι :=
  { w with
    file := Function.update w.file w.nextFd (some ⟨ino, 0⟩)
    owner := Function.update w.owner w.nextFd (some i)
    nextFd := w.nextFd + 1 }

/-- A file of process `i` that has no name yet. -/
@[simps] def newInode (w : World ι) (i : ι) (n : Inode) : World ι :=
  { w with
    inode := Function.update w.inode w.nextIno n
    nextIno := w.nextIno + 1
    creator := Function.update w.creator w.nextIno (some i)
    frozen := Function.update w.frozen w.nextIno false }

@[simps] def freeze (w : World ι) (ino : Nat) : World ι :=
  { w with frozen := Function.update w.frozen ino true }

/-- Changing a file in the cache is a write to the cache; changing a memory file is
not. -/
def recordWrite (w : World ι) (ino : Nat) : World ι :=
  if (w.inode ino).memfd then w else w.record .cacheWrite

/-- Write `bytes` through a descriptor, at its offset. -/
def store (w : World ι) (fd : Nat) (f : OpenFile) (bytes : Bytes) : World ι :=
  let node := w.inode f.ino
  ((w.recordWrite f.ino).setInode f.ino
    { node with content := overwrite node.content f.offset bytes }).setFile fd
    (some { f with offset := f.offset + bytes.length })

variable [DecidableEq ι]

@[simps] def failUnlink (w : World ι) (i : ι) (name : Bytes) : World ι :=
  { w with
    unlinkFailed := Function.update w.unlinkFailed i (Function.update (w.unlinkFailed i) name true) }

end World

variable [DecidableEq ι]

/-- The kernel: process `i` issues a call. -/
def step (i : ι) (w : World ι) : (c : Call) → Choice → World ι × c.Reply
  | .random, x => (w, x.random)
  | .geteuid, _ => (w, w.euid i)
  | .openat name, x =>
    let w := w.record .cacheOpen
    match x.errno, w.entry name with
    | some e, _ => (w, .error e)
    | none, none => (w, .error Errno.enoent)
    | none, some ino =>
      if (w.inode ino).kind = .symlink then (w, .error Errno.eloop)
      else (w.openFile i ino, .ok w.nextFd)
  | .createExcl name mode, x =>
    let w := w.record .cacheWrite
    match x.errno, w.entry name with
    | some e, _ => (w, .error e)
    | none, some _ => (w, .error Errno.eexist)
    | none, none =>
      (((w.newInode i ⟨.regular, mode, w.euid i, [], false, false⟩).openFile i w.nextIno).setDir
        name (some w.nextIno), .ok w.nextFd)
  | .fstatat name, x =>
    let w := w.record .cacheOpen
    match x.errno, w.entry name with
    | some e, _ => (w, .error e)
    | none, none => (w, .error Errno.enoent)
    | none, some ino => (w, .ok (w.inode ino).stat)
  | .fstat fd, x =>
    match x.errno, w.file fd with
    | some e, _ => (w, .error e)
    | none, none => (w, .error Errno.ebadf)
    | none, some f => (w.freeze f.ino, .ok (w.inode f.ino).stat)
  | .pread fd offset len, x =>
    match x.errno, w.file fd with
    | some e, _ => (w, .error e)
    | none, none => (w, .error Errno.ebadf)
    | none, some f =>
      (w, .ok (((w.inode f.ino).content.drop offset).take (max 1 (min x.count len))))
  | .write fd piece, x =>
    match w.file fd with
    | none => (w, (0, some Errno.ebadf))
    | some f =>
      if (w.inode f.ino).isSealed then (w, (0, some Errno.eperm))
      else
        let n := if x.errno = none then piece.length else min x.count piece.length
        (w.store fd f (piece.take n), (n, x.errno))
  | .fchmod fd mode, x =>
    match x.errno, w.file fd with
    | some e, _ => (w, some e)
    | none, none => (w, some Errno.ebadf)
    | none, some f =>
      ((w.recordWrite f.ino).setInode f.ino { w.inode f.ino with mode := mode }, none)
  | .fsync _, x => (w, x.errno)
  | .close fd, x => (w.setFile fd none, x.errno)
  | .renameat old new, x =>
    let w := w.record .cacheWrite
    match x.errno, w.entry old with
    | some e, _ => (w, some e)
    | none, none => (w, some Errno.enoent)
    | none, some ino =>
      let published := (((w.freeze ino).setDir new (some ino)).setDir old none, none)
      match w.entry new with
      | none => published
      | some target =>
        if target = ino then (w, none)
        else if (w.inode target).kind = .directory then (w, some Errno.eisdir)
        else published
  | .unlinkat name, x =>
    let w := w.record .cacheWrite
    match x.errno, w.entry name with
    | some e, _ => (w.failUnlink i name, some e)
    | none, none => (w, some Errno.enoent)
    | none, some ino =>
      if (w.inode ino).kind = .directory then (w.failUnlink i name, some Errno.eisdir)
      else (w.setDir name none, none)
  | .memfdCreate _, x =>
    let w := w.record .memfdCreate
    match x.errno with
    | some e => (w, .error e)
    | none =>
      ((w.newInode i ⟨.regular, 0o777, w.euid i, [], true, false⟩).openFile i w.nextIno,
        .ok w.nextFd)
  | .ftruncate fd size, x =>
    match x.errno, w.file fd with
    | some e, _ => (w, some e)
    | none, none => (w, some Errno.ebadf)
    | none, some f =>
      let node := w.inode f.ino
      if node.isSealed then (w, some Errno.eperm)
      else
        ((w.recordWrite f.ino).setInode f.ino
          { node with content := resize node.content size.toNat }, none)
  | .addSeals fd, x =>
    match x.errno, w.file fd with
    | some e, _ => (w, some e)
    | none, none => (w, some Errno.ebadf)
    | none, some f => (w.setInode f.ino { w.inode f.ino with isSealed := true }, none)
  | .execve fd, x =>
    match w.file fd with
    | none => (w, some Errno.ebadf)
    | some f => (w.record (.exec (w.inode f.ino)), x.errno)
  | .readCgroupLimits, x => (w, x.limits)
  | .resolveExistingCacheDir, x => (w.record .cacheOpen, x.cacheDir)
  | .resolveCacheDir, x => ((w.record .cacheOpen).record .cacheWrite, x.cacheDir)
  | .note e, _ => (w.record e, ())

end

end Microfat.Posix
