/-
# Microfat.Pack.Files — what the packer does to the world

The calls of the assembly engine, one at a time, and their effect.  Inputs are
read by path and do not change.  The output is a file that is only appended to.
Each compressed variant goes to a staging file of its own; a staging file is
open for writing by one thread, until that thread closes it.

Workers share a channel of job numbers, a cancellation flag, the array of
results and the spool counter.  The channel is filled and closed before the
first worker starts, so an empty one ends the worker's loop.

`fate` and `stagings` are not part of the program: they record what became of each
job and for which job each staging file was created, and no call answers with
them.  That is why `ctxErr` and `createTemp` carry the number of the job.
-/
import Microfat.Theory.Prog
import Microfat.Format.Index

namespace Microfat.Pack

open Theory Format

set_option autoImplicit false

/-- What a path names. -/
inductive Input where
  | missing (err : Err)
  | irregular (size : Int64)
  | regular (content : Bytes)

/-- The name of a staging file and the file behind it. -/
structure StagePath where
  text : Bytes
  file : Nat
  deriving DecidableEq

structure StageFile where
  content : Bytes
  writer : Option Nat
  deriving DecidableEq

/-- `parallelVariantResult`; an empty path is `none`. -/
structure ParallelVariantResult where
  entry : VariantEntry
  stagedPath : Option StagePath
  err : Option Err

/-- What `make([]parallelVariantResult, n)` holds. -/
def ParallelVariantResult.zero : ParallelVariantResult := ⟨⟨[], 0, 0, 0, [], []⟩, none, none⟩

inductive Fate where
  | unsent
  | queued
  | held (thread : Nat)
  | skipped
  | stored
  deriving DecidableEq, Repr

structure World where
  inputs : Bytes → Input
  out : Bytes
  files : Nat → Option StageFile
  nextFile : Nat
  spool : Int64
  queue : List Nat
  cancelled : Bool
  results : Nat → ParallelVariantResult
  fate : Nat → Fate
  stagings : List Nat

/-- The files that are opened for reading. -/
inductive Target where
  | input (path : Bytes)
  | staged (path : Option StagePath)

/-- The cleaned path, as errors print it. -/
def Target.text : Target → Bytes
  | .input path => path
  | .staged none => lit "."
  | .staged (some path) => cleanPath path.text

/-- The files that are written. -/
inductive Dest where
  | output
  | stage (file : Nat)

structure Stat where
  regular : Bool
  size : Int64

def World.target (w : World) : Target → Input
  | .input path => w.inputs path
  -- the empty path cleans to the working directory
  | .staged none => .irregular 0
  | .staged (some path) =>
    match w.files path.file with
    | none => .missing (.sentinel (.errno Errno.enoent))
    | some f => .regular f.content

def Input.stat : Input → Except Err Stat
  | .missing err => .error err
  | .irregular size => .ok ⟨false, size⟩
  | .regular content => .ok ⟨true, Int64.ofNat content.length⟩

def Input.content : Input → Bytes
  | .regular content => content
  | _ => []

inductive Call where
  /-- `os.Stat`. -/
  | stat (path : Bytes)
  | openFile (target : Target)
  | fstat (target : Target)
  /-- `io.ReadFull` into a buffer of the given size, from the start. -/
  | readFull (target : Target) (size : Int64)
  /-- One byte more, after that many. -/
  | readExtra (target : Target) (size : Int64)
  /-- `os.CreateTemp(outDir, packStageTempPattern)`. -/
  | createTemp (outDir : Bytes) (job : Nat)
  | write (dest : Dest) (piece : Bytes)
  /-- `Seek(0, io.SeekCurrent)`. -/
  | seek (dest : Dest)
  | close (file : Nat)
  /-- `newSpoolBudgetTracker`: nothing is used yet. -/
  | newTracker
  /-- `used.Add`. -/
  | spoolAdd (n : Int64)
  /-- `io.Copy` of a limited reader over the opened file into the output. -/
  | copyToOutput (target : Target) (limit : Int64)
  | remove (path : StagePath)
  /-- The results, the context and the channel of one round. -/
  | makeJobs
  | send (job : Nat)
  | receive
  /-- `ctx.Err() != nil`, asked for that job. -/
  | ctxErr (job : Nat)
  | store (job : Nat) (result : ParallelVariantResult)
  | load (job : Nat)
  /-- `results[job].stagedPath = ""`. -/
  | clearPath (job : Nat)
  | cancel

@[reducible] def Call.Reply : Call → Type
  | .stat _ => Except Err Int64
  | .openFile _ => Option Err
  | .fstat _ => Except Err Stat
  | .readFull _ _ => Except Err Bytes
  | .readExtra _ _ => Except Err Bytes
  | .createTemp _ _ => Except Err StagePath
  | .write _ _ => Option Err
  | .seek _ => Except Err Int64
  | .close _ => Option Err
  | .newTracker => Unit
  | .spoolAdd _ => Int64
  | .copyToOutput _ _ => Except Err Int64
  | .remove _ => Unit
  | .makeJobs => Unit
  | .send _ => Unit
  | .receive => Option Nat
  | .ctxErr _ => Bool
  | .store _ _ => Unit
  | .load _ => ParallelVariantResult
  | .clearPath _ => Unit
  | .cancel => Unit

abbrev Program := Prog Call Call.Reply

section

open Prog (call)

abbrev osStat (path : Bytes) : Program (Except Err Int64) := call (Call.stat path)
abbrev openFile (target : Target) : Program (Option Err) := call (Call.openFile target)
abbrev fstat (target : Target) : Program (Except Err Stat) := call (Call.fstat target)
abbrev readFull (target : Target) (size : Int64) : Program (Except Err Bytes) :=
  call (Call.readFull target size)
abbrev readExtra (target : Target) (size : Int64) : Program (Except Err Bytes) :=
  call (Call.readExtra target size)
abbrev createTemp (outDir : Bytes) (job : Nat) : Program (Except Err StagePath) :=
  call (Call.createTemp outDir job)
abbrev writeDest (dest : Dest) (piece : Bytes) : Program (Option Err) := call (Call.write dest piece)
abbrev seek (dest : Dest) : Program (Except Err Int64) := call (Call.seek dest)
abbrev close (file : Nat) : Program (Option Err) := call (Call.close file)
abbrev newTracker : Program Unit := call Call.newTracker
abbrev spoolAdd (n : Int64) : Program Int64 := call (Call.spoolAdd n)
abbrev copyToOutput (target : Target) (limit : Int64) : Program (Except Err Int64) :=
  call (Call.copyToOutput target limit)
abbrev remove (path : StagePath) : Program Unit := call (Call.remove path)
abbrev makeJobs : Program Unit := call Call.makeJobs
abbrev send (job : Nat) : Program Unit := call (Call.send job)
abbrev receive : Program (Option Nat) := call Call.receive
abbrev ctxErr (job : Nat) : Program Bool := call (Call.ctxErr job)
abbrev store (job : Nat) (result : ParallelVariantResult) : Program Unit := call (Call.store job result)
abbrev load (job : Nat) : Program ParallelVariantResult := call (Call.load job)
abbrev clearPath (job : Nat) : Program Unit := call (Call.clearPath job)
abbrev cancel : Program Unit := call Call.cancel

end

/-- How the environment lets a call end: with an error, after so many bytes, and the
random part of a temporary name. -/
structure Choice where
  error : Option Err
  count : Nat
  random : Bytes

/-- A call that succeeds. -/
def Choice.fine : Choice := ⟨none, 0, []⟩

namespace World

def setFile (w : World) (file : Nat) (f : Option StageFile) : World :=
  { w with files := Function.update w.files file f }

def setFate (w : World) (job : Nat) (fate : Fate) : World :=
  { w with fate := Function.update w.fate job fate }

/-- What a thread's write adds to a file: only the writer of a staging file can. -/
def append (w : World) (me : Nat) (dest : Dest) (piece : Bytes) : Option World :=
  match dest with
  | .output => some { w with out := w.out ++ piece }
  | .stage file =>
    match w.files file with
    | some f =>
      if f.writer = some me then some (w.setFile file (some { f with content := f.content ++ piece }))
      else none
    | none => none

def size (w : World) : Dest → Nat
  | .output => w.out.length
  | .stage file => ((w.files file).map (·.content.length)).getD 0

end World

def stageName (random : Bytes) : Bytes := lit ".microfat-pack-var-" ++ random ++ lit ".tmp"

/-- The reply of a call that only reads. -/
def answer {α : Type} (x : Choice) (reply : Except Err α) : Except Err α :=
  match x.error with
  | some err => .error err
  | none => reply

def step (me : Nat) (w : World) : (c : Call) → Choice → World × c.Reply
  | .stat path, x => (w, answer x ((w.inputs path).stat.map (·.size)))
  | .openFile target, x =>
    (w, match answer x (w.target target).stat with
      | .error err => some err
      | .ok _ => none)
  | .fstat target, x => (w, answer x (w.target target).stat)
  | .readFull target size, x =>
    (w, answer x <|
      if size.toInt ≤ (w.target target).content.length then
        .ok ((w.target target).content.take size.toInt.toNat)
      else if (w.target target).content = [] then .error (.sentinel .ioEOF)
      else .error (.sentinel .ioErrUnexpectedEOF))
  | .readExtra target size, x =>
    -- the end of the file is no failure: nothing is read there
    let rest := ((w.target target).content.drop size.toInt.toNat).take 1
    (w, match x.error with
      | some err => if Err.is err .ioEOF then .ok rest else .error err
      | none => .ok rest)
  | .createTemp outDir job, x =>
    match x.error with
    | some err => (w, .error err)
    | none =>
      ({ w with
         files := Function.update w.files w.nextFile (some ⟨[], some me⟩)
         nextFile := w.nextFile + 1
         stagings := job :: w.stagings },
        .ok ⟨outDir ++ slash :: stageName x.random, w.nextFile⟩)
  | .write dest piece, x =>
    match x.error with
    | some err => ((w.append me dest (piece.take x.count)).getD w, some err)
    | none =>
      match w.append me dest piece with
      | some w' => (w', none)
      | none => (w, some (.sentinel (.errno Errno.ebadf)))
  | .seek dest, x => (w, answer x (.ok (Int64.ofNat (w.size dest))))
  | .close file, x =>
    (match w.files file with
      | some f => if f.writer = some me then w.setFile file (some { f with writer := none }) else w
      | none => w, x.error)
  | .newTracker, _ => ({ w with spool := 0 }, ())
  | .spoolAdd n, _ => ({ w with spool := w.spool + n }, w.spool + n)
  | .copyToOutput target limit, x =>
    match x.error with
    | some err =>
      ({ w with out := w.out ++ ((w.target target).content.take limit.toInt.toNat).take x.count },
        .error err)
    | none =>
      ({ w with out := w.out ++ (w.target target).content.take limit.toInt.toNat },
        .ok (Int64.ofNat ((w.target target).content.take limit.toInt.toNat).length))
  | .remove path, x =>
    (match x.error with
      | some _ => w
      | none => w.setFile path.file none, ())
  | .makeJobs, _ =>
    ({ w with
       queue := []
       cancelled := false
       results := fun _ => .zero
       fate := fun _ => .unsent
       stagings := [] }, ())
  | .send job, _ => ({ w.setFate job .queued with queue := w.queue ++ [job] }, ())
  | .receive, _ =>
    match w.queue with
    | [] => (w, none)
    | job :: rest => ({ w.setFate job (.held me) with queue := rest }, some job)
  | .ctxErr job, _ => (if w.cancelled then w.setFate job .skipped else w, w.cancelled)
  | .store job result, _ =>
    ({ w.setFate job .stored with results := Function.update w.results job result }, ())
  | .load job, _ => (w, w.results job)
  | .clearPath job, _ =>
    ({ w with results := Function.update w.results job { w.results job with stagedPath := none } }, ())
  | .cancel, _ => ({ w with cancelled := true }, ())

end Microfat.Pack
