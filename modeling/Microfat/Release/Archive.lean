/-
# Microfat.Release.Archive — extracting a downloaded release

`extract` reads a decompressed tar stream through a size limit, checks every
header, writes the three products into a fresh directory and checks what it
wrote.  The stream is read one `read` at a time and each of them may return any
part of what was asked for, an end or a failure.

The tar reader itself is the standard library's and stays a parameter (`Tar`):
two programs over the reads of the limited stream, one for the next header and
one for data.  Nothing is assumed about them.  What they deliver is written to
the log of the world (`TarEvent`), which no modelled function looks at.
-/
import Microfat.Theory.Prog
import Microfat.Format.Classify
import Microfat.Install.Types

namespace Microfat.Release

open Theory Install

set_option autoImplicit false

def maxExtractedBytes : Nat := 500 * 1024 * 1024
def maxArchiveEntries : Nat := 1024
def executableMode : Nat := 0o755
def fileMode : Nat := 0o600

/-! ## Reading a tar stream -/

/-- The fields of `tar.Header` that are looked at. -/
structure Header where
  name : Bytes
  typeflag : UInt8
  size : Int64
  mode : Int64

/-- `tar.TypeReg`. -/
def typeReg : UInt8 := 48

/-- `n, err := r.Read(buffer)` with a buffer of the given length. -/
inductive ReadCall where
  | read (len : Nat)

abbrev Reader := Prog ReadCall fun _ => Bytes × Option Err

/-- `tar.Reader`. -/
structure Tar where
  State : Type
  init : State
  next : State → Reader (State × Except Err Header)
  read : State → Nat → Reader (State × Bytes × Option Err)

/-! ## The world -/

structure Stored where
  content : Bytes
  mode : Nat
  deriving DecidableEq, Repr

/-- What the tar reader delivered: a header, data of the current entry and whether
that was its end, the end of the archive after so many bytes of the stream. -/
inductive TarEvent where
  | entry (header : Header)
  | data (piece : Bytes) (ended : Bool)
  | finished (position : Nat)

/-- The decompressed stream, split where reading has got to, the directory, and
the events, newest first. -/
structure World where
  taken : Bytes
  rest : Bytes
  dest : Bytes → Option Stored
  log : List TarEvent

/-- A failure that is not the end of the stream. -/
structure Failure where
  err : Err
  notEnd : err.is .ioEOF = false

/-- How a command ends: how much a read or write moves, whether a read that
reaches the end says so at once, and a failure. -/
structure Choice where
  count : Nat
  atEnd : Bool
  fault : Option Failure

def Choice.error (x : Choice) : Option Err := x.fault.map Failure.err

inductive Call where
  | openArchive
  | newGzipReader
  | read (len : Nat)
  | openRoot
  | create (name : Bytes)
  | write (name : Bytes) (piece : Bytes)
  | chmod (name : Bytes) (mode : Nat)
  | close (name : Bytes)
  | openProduct (name : Bytes)
  | readFull (name : Bytes) (len : Nat)
  | stat (name : Bytes)
  | readAll (name : Bytes)
  -- the tar reader's answers, for the log
  | delivered (header : Header)
  | copied (piece : Bytes) (ended : Bool)
  | ended

abbrev Reply : Call → Type
  | .read _ => Bytes × Option Err
  | .readFull _ _ | .readAll _ => Except Err Bytes
  | .stat _ => Except Err Int64
  | .delivered _ | .copied _ _ | .ended => Unit
  | _ => Option Err

abbrev Program := Prog Call Reply

namespace Sys

open Prog (call)

abbrev openArchive : Program (Option Err) := call Call.openArchive
abbrev newGzipReader : Program (Option Err) := call Call.newGzipReader
abbrev read (len : Nat) : Program (Bytes × Option Err) := call (Call.read len)
abbrev openRoot : Program (Option Err) := call Call.openRoot
abbrev create (name : Bytes) : Program (Option Err) := call (Call.create name)
abbrev write (name piece : Bytes) : Program (Option Err) := call (Call.write name piece)
abbrev chmod (name : Bytes) (mode : Nat) : Program (Option Err) := call (Call.chmod name mode)
abbrev close (name : Bytes) : Program (Option Err) := call (Call.close name)
abbrev openProduct (name : Bytes) : Program (Option Err) := call (Call.openProduct name)
abbrev readFull (name : Bytes) (len : Nat) : Program (Except Err Bytes) := call (Call.readFull name len)
abbrev stat (name : Bytes) : Program (Except Err Int64) := call (Call.stat name)
abbrev readAll (name : Bytes) : Program (Except Err Bytes) := call (Call.readAll name)
abbrev delivered (header : Header) : Program Unit := call (Call.delivered header)
abbrev copied (piece : Bytes) (ended : Bool) : Program Unit := call (Call.copied piece ended)
abbrev ended : Program Unit := call Call.ended

end Sys

/-- Change a file that is there. -/
def World.modify (w : World) (name : Bytes) (f : Stored → Stored) : World :=
  { w with dest := Function.update w.dest name ((w.dest name).map f) }

def contentOf (w : World) (name : Bytes) : Bytes := ((w.dest name).map Stored.content).getD []

def step (w : World) : (c : Call) → Choice → World × Reply c
  | .openArchive, x | .newGzipReader, x | .openRoot, x | .close _, x | .openProduct _, x => (w, x.error)
  | .read len, x =>
    let piece := w.rest.take (min x.count len)
    let rest := w.rest.drop (min x.count len)
    let err := x.error.or (if rest = [] && x.atEnd then some (.sentinel .ioEOF) else none)
    (⟨w.taken ++ piece, rest, w.dest, w.log⟩, (piece, err))
  | .create name, x =>
    match x.error, w.dest name with
    | some err, _ => (w, some err)
    | none, some _ => (w, some (.sentinel .osErrExist))
    | none, none => ({ w with dest := Function.update w.dest name (some ⟨[], fileMode⟩) }, none)
  | .write name piece, x =>
    let stored := if x.fault.isSome then piece.take x.count else piece
    (w.modify name fun s => ⟨s.content ++ stored, s.mode⟩, x.error)
  | .chmod name mode, x =>
    match x.error with
    | some err => (w, some err)
    | none => (w.modify name fun s => ⟨s.content, mode⟩, none)
  | .readFull name len, x =>
    let header := (contentOf w name).take len
    match x.error with
    | some err => (w, .error err)
    | none => (w, if header = [] then .error (.sentinel .ioEOF)
        else if header.length < len then .error (.new "unexpected EOF") else .ok header)
  | .stat name, x =>
    match x.error with
    | some err => (w, .error err)
    | none => (w, .ok (Int64.ofNat (contentOf w name).length))
  | .readAll name, x =>
    match x.error with
    | some err => (w, .error err)
    | none => (w, .ok (contentOf w name))
  | .delivered header, _ => ({ w with log := .entry header :: w.log }, ())
  | .copied piece ended, _ => ({ w with log := .data piece ended :: w.log }, ())
  | .ended, _ => ({ w with log := .finished w.taken.length :: w.log }, ())

/-! ## The program -/

/-- `(*io.LimitedReader).Read` with `n` bytes left. -/
def limitedRead (n len : Nat) : Program ((Bytes × Option Err) × Nat) :=
  if n = 0 then return (([], some (.sentinel .ioEOF)), 0)
  else do
    let (piece, err) ← Sys.read (min len n)
    return ((piece, err), n - piece.length)

/-- The reads of the tar reader go through the limit. -/
def bounded {α : Type} (n : Nat) : Reader α → Program (α × Nat)
  | .ret a => .ret (a, n)
  | .cmd (.read len) k => limitedRead n len >>= fun r => bounded r.2 (k r.1)

def validateEntry (header : Header) (seen : List Bytes) : Except Err Bytes :=
  let name := cleanPath header.name
  if header.typeflag ≠ typeReg || header.name.head? == some slash ||
      header.name.any (fun b => b = 92 || b = 0) || lit ".." ∈ splitSlash header.name ||
      name = lit "." || name ∈ seen then
    .error (.new "unsafe or duplicate archive entry")
  else if maxArchiveEntries ≤ seen.length || header.size.toInt < 0 || maxFileBytes < header.size.toInt then
    .error (.new "archive exceeds entry limits")
  else .ok name

/-- No loop of the source has a bound; a model of it stops after `fuel` rounds. -/
def stalled : Err := .new "no further round"

/-- `err == io.EOF`. -/
def isEOF : Err → Bool
  | .sentinel s => s = .ioEOF
  | .errorf _ _ _ => false

/-- The write of a round of `io.Copy`, left out when the read returned nothing. -/
def writePiece (name piece : Bytes) : Program (Option Err) :=
  if piece = [] then return none else Sys.write name piece

section

variable (tar : Tar)

/-- `io.Copy(io.MultiWriter(output, hash), io.LimitReader(reader, left))`: what was
hashed so far is also what was written.  A short write is reported by the file. -/
def copyEntry (name : Bytes) : (fuel : Nat) → tar.State → (n left : Nat) → (hashed : Bytes) →
    Program ((Bytes × Option Err) × tar.State × Nat)
  | 0, st, n, _, hashed => return ((hashed, some stalled), st, n)
  | fuel + 1, st, n, left, hashed =>
    if left = 0 then return ((hashed, none), st, n)
    else do
      let ((st, piece, err), n) ← bounded n (tar.read st (min (32 * 1024) left))
      Sys.copied piece (err.any isEOF)
      match ← writePiece name piece, err with
      | some failed, _ => return ((hashed, some failed), st, n)
      | none, some failed =>
        return ((hashed ++ piece, if isEOF failed then none else some failed), st, n)
      | none, none => copyEntry name fuel st n (left - piece.length) (hashed ++ piece)

variable (H : Sha256)

def extractProduct (fuel : Nat) (st : tar.State) (n : Nat) (header : Header) (name : Bytes) :
    Program (Except Err (Install.File × tar.State × Nat)) :=
  if header.size.toInt ≤ 0 || header.mode &&& 0o111 = 0 then
    return .error (.new "archive product must be nonempty and executable")
  else do
    match ← Sys.create name with
    | some err => return .error err
    | none =>
      let ((hashed, failed), st, n) ← copyEntry tar name fuel st n (header.size.toInt + 1).toNat []
      let copyErr := if failed.isNone && (hashed.length : Int) ≠ header.size.toInt then
        some (.new "truncated archive product") else failed
      let chmodErr ← Sys.chmod name executableMode
      let closeErr ← Sys.close name
      match GoError.join [copyErr, chmodErr, closeErr] with
      | some err => return .error err
      | none => return .ok (⟨hashed.length, hexEncode (H.sum hashed)⟩, st, n)

/-- The loop over the entries. -/
def extractEntries : (fuel : Nat) → tar.State → (n : Nat) → (seen : List Bytes) →
    (files : List (Bytes × Install.File)) → Program (Except Err (List (Bytes × Install.File) × Nat))
  | 0, _, _, _, _ => return .error stalled
  | fuel + 1, st, n, seen, files => do
      let ((st, result), n) ← bounded n (tar.next st)
      match result with
      | .error err =>
        if err.is .ioEOF then do
          Sys.ended
          return .ok (files, n)
        else return .error err
      | .ok header => do
          Sys.delivered header
          match validateEntry header seen with
          | .error err => return .error err
          | .ok name =>
            if name ∈ products then do
              match ← extractProduct tar H fuel st n header name with
              | .error err => return .error err
              | .ok (file, st, n) => extractEntries fuel st n (name :: seen) ((name, file) :: files)
            else extractEntries fuel st n (name :: seen) files

end

def drainPadding : (fuel : Nat) → (n : Nat) → Program (Except Err Unit)
  | 0, _ => return .error stalled
  | fuel + 1, n => do
      let ((piece, err), n) ← limitedRead n 4096
      if piece.any (fun value => value ≠ 0) then
        return .error (.new "unexpected data after tar archive")
      else if n = 0 then return .error (.new "archive exceeds decompressed size limit")
      else
        match err with
        | none => drainPadding fuel n
        | some e => if e.is .ioEOF then return .ok () else return .error e

/-- The checks of an ELF header of 64 bytes. -/
def headerMatches (header : Bytes) (arch : Bytes) : Bool :=
  let word (offset len : Nat) : Nat := leNat ((header.drop offset).take len)
  let machine := if arch = lit "arm64" then 183 else 62
  header.take 4 = lit "\x7fELF" && word 4 1 = 2 && word 5 1 = 1 && word 6 1 = 1 &&
    word 20 4 = 1 && word 52 2 = 64 && word 18 2 = machine && (word 16 2 = 2 || word 16 2 = 3)

section

variable [CaseTable] (H : Sha256)

def validateProduct (name arch : Bytes) : Program (Option Err) := do
  match ← Sys.openProduct name with
  | some err => return some err
  | none =>
  match ← Sys.readFull name 64 with
  | .error err => return some err
  | .ok header =>
  if !headerMatches header arch then
    return some (.new "ELF executable architecture does not match selected release")
  else
  match ← Sys.stat name with
  | .error err => return some err
  | .ok size =>
  match ← Sys.readAll name with
  -- a failed read means "no trailer" to the first check
  | .error err => return if name ≠ lit "microfat" then none else some err
  | .ok content =>
  if name ≠ lit "microfat" then
    if Format.isFatBinary content size then
      return some (.new "companion launcher must be a native stub, not a fat executable")
    else return none
  else
  match Format.readTrailerAndIndex H content size with
  | .error (.error err) => return some err
  | .error (.trap _) => return some (.new "runtime error")
  | .ok index =>
    return if index.targetOS ≠ lit "linux" || index.targetArch ≠ arch then
      some (.new "fat CLI target does not match selected release") else none

def validateProducts (arch : Bytes) : List Bytes → Program (Option Err)
  | [] => return none
  | name :: rest => do
      match ← validateProduct H name arch with
      | some err => return some (.wrap [.text "invalid ", .str name, .text ": ", .cause] [err])
      | none => validateProducts arch rest

def extract (tar : Tar) (fuel : Nat) (arch : Bytes) :
    Program (Except Err (List (Bytes × Install.File))) := do
  match ← Sys.openArchive with
  | some err => return .error err
  | none =>
  match ← Sys.newGzipReader with
  | some err => return .error err
  | none =>
  match ← Sys.openRoot with
  | some err => return .error err
  | none =>
  match ← extractEntries tar H fuel tar.init (maxExtractedBytes + 1) [] [] with
  | .error err => return .error err
  | .ok (files, n) =>
  match ← drainPadding fuel n with
  | .error err => return .error err
  | .ok () =>
  if files.length ≠ products.length then
    return .error (.new "archive does not contain the complete executable triad")
  else
  match ← validateProducts H arch products with
  | some err => return .error err
  | none => return .ok files

end

end Microfat.Release
