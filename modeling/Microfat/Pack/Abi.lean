/-
# Microfat.Pack.Abi — reading the ABI an ELF image declares

`InspectELFABIReaderAtWithAccounting` and everything below it: the preflight of
the header tables, the program headers, the dynamic table, the string scans and
the two nested chains of GNU version records.  All numbers come from an
untrusted image, so each 64-bit operation is one that traps where the machine
would wrap, a slice out of range traps, and a `ReadAt` whose range is not inside
the image traps as well.  A condition `a || b` whose second half computes is
written as two guards with the same error.

The accounts are the state of `Metered` code.  Their limits are configured
`uint64` values; zero stands for the default.  The state is a `Ledger`: beside the
accounts it keeps what happened to them, which the source does not.

The version records an inspection visits are kept beside its report, as a
`VersionTrace`; the source keeps them in `visitedVerneed` and `visitedVernaux`
and drops them.  Names of ELF types and machines come from the standard library
and are a parameter.
-/
import Microfat.Theory.Meter
import Microfat.Theory.Sorting
import Microfat.Theory.Json
import Microfat.Sentinels

namespace Microfat.Pack

open Theory
open Metered (lift)

set_option autoImplicit false

/-! ## Budgets and layout -/

def maxProgramHeaders : Nat := 4096
def maxSectionHeaders : Nat := 65536
def maxInterpreterSize : Nat := 4 * 1024
def maxDynamicEntries : Nat := 65536
def maxABIStringBytesPerInput : Nat := 8 * 1024 * 1024
def maxVersionRecordsPerInput : Nat := 65536
def maxMetadataBytesPerInput : Nat := 32 * 1024 * 1024
def maxArtifactMetadataBytes : Nat := 256 * 1024 * 1024
def minELFHeaderSize : Nat := 64
def minProgramHeaderSize : Nat := 56
def minSectionHeaderSize : Nat := 64
def dynamicEntrySize : Nat := 16
def verneedEntrySize : Nat := 16
def vernauxEntrySize : Nat := 16
def stringScanChunkSize : Nat := 64
def sectionZeroShnumOff : Nat := 32
def sectionZeroShnumBytes : Nat := 8
def maxInt64 : Nat := 2 ^ 63 - 1
def maxUint64 : Nat := 2 ^ 64 - 1

/-! ## Accounts -/

/-- The test `n > limit || used > limit-n` every account makes before it grows. -/
def withinBudget (limit used n : Nat) (refusal : Err) : Eval Err Unit := do
  Eval.guard (limit < n) refusal
  let room ← subU64 limit n
  Eval.guard (room < used) refusal

/-- A configured limit, or the default where none is set. -/
def limitOr (limit : UInt64) (fallback : Nat) : Nat := if limit = 0 then fallback else limit.toNat

structure ArtifactMetadataAccounting where
  maxBytes : UInt64
  usedBytes : Nat := 0

namespace ArtifactMetadataAccounting

def check (a : ArtifactMetadataAccounting) (n : Nat) : Eval Err Unit :=
  withinBudget a.maxBytes.toNat a.usedBytes n
    (.about .errABIResourceLimit [.text "aggregate artifact metadata bytes read (",
      .int a.usedBytes, .text " + ", .int n, .text ") exceeds budget limit ",
      .int a.maxBytes.toNat])

def commit (a : ArtifactMetadataAccounting) (n : Nat) : Eval Err ArtifactMetadataAccounting := do
  let used ← addU64 a.usedBytes n
  return { a with usedBytes := used }

def remaining (a : ArtifactMetadataAccounting) : Nat :=
  let limit := limitOr a.maxBytes maxArtifactMetadataBytes
  if limit ≤ a.usedBytes then 0 else limit - a.usedBytes

def refund (a : ArtifactMetadataAccounting) (n : Nat) : ArtifactMetadataAccounting :=
  { a with usedBytes := if a.usedBytes < n then 0 else a.usedBytes - n }

end ArtifactMetadataAccounting

structure InputAccounting where
  shared : Option ArtifactMetadataAccounting
  maxMetadataBytes : UInt64 := 0
  maxStringBytes : UInt64 := 0
  maxStringScanBytes : UInt64 := 0
  maxVersionRecords : UInt64 := 0
  metadataBytesRead : Nat := 0
  stringScanBytesRead : Nat := 0
  retainedStringBytes : Nat := 0
  versionRecords : Nat := 0

namespace InputAccounting

def metadataLimit (acc : InputAccounting) : Nat :=
  limitOr acc.maxMetadataBytes maxMetadataBytesPerInput

def stringLimit (acc : InputAccounting) : Nat :=
  limitOr acc.maxStringBytes maxABIStringBytesPerInput

def stringScanLimit (acc : InputAccounting) : Nat :=
  limitOr acc.maxStringScanBytes acc.stringLimit

def versionRecordLimit (acc : InputAccounting) : Nat :=
  limitOr acc.maxVersionRecords maxVersionRecordsPerInput

def checkMetadata (acc : InputAccounting) (n : Nat) : Eval Err Unit := do
  withinBudget acc.metadataLimit acc.metadataBytesRead n
    (.about .errABIResourceLimit [.text "metadata bytes read (", .int acc.metadataBytesRead,
      .text " + ", .int n, .text ") exceeds per-input budget ", .int acc.metadataLimit])
  match acc.shared with
  | none => .ok ()
  | some shared => shared.check n

/-- `acc.metadataBytesRead += n` and the same on the shared account. -/
def commitMetadata (acc : InputAccounting) (n : Nat) : Eval Err InputAccounting := do
  let read ← addU64 acc.metadataBytesRead n
  match acc.shared with
  | none => return { acc with metadataBytesRead := read }
  | some a => do
      let shared ← a.commit n
      return { acc with metadataBytesRead := read, shared := some shared }

def remainingMetadataBudget (acc : InputAccounting) : Nat :=
  if acc.metadataLimit ≤ acc.metadataBytesRead then 0
  else acc.metadataLimit - acc.metadataBytesRead

def checkStringScan (acc : InputAccounting) (n : Nat) : Eval Err Unit :=
  withinBudget acc.stringScanLimit acc.stringScanBytesRead n
    (.about .errABIResourceLimit [.text "string scan bytes (", .int acc.stringScanBytesRead,
      .text " + ", .int n, .text ") exceeds per-input budget ", .int acc.stringScanLimit])

def checkAndChargeStringScan (acc : InputAccounting) (n : Nat) : Eval Err InputAccounting := do
  acc.checkStringScan n
  acc.checkMetadata n
  let scanned ← addU64 acc.stringScanBytesRead n
  let acc ← acc.commitMetadata n
  return { acc with stringScanBytesRead := scanned }

def remainingStringScanBudget (acc : InputAccounting) : Nat :=
  if acc.stringScanLimit ≤ acc.stringScanBytesRead then 0
  else acc.stringScanLimit - acc.stringScanBytesRead

def refundAllStringScan (acc : InputAccounting) (n : Nat) : InputAccounting :=
  { acc with
    stringScanBytesRead := if acc.stringScanBytesRead < n then 0 else acc.stringScanBytesRead - n
    metadataBytesRead := if acc.metadataBytesRead < n then 0 else acc.metadataBytesRead - n
    shared := acc.shared.map (·.refund n) }

/-- `toCharge`: how much of the wanted chunk every account can still pay. -/
def scanAllowance (acc : InputAccounting) (wantScan : Nat) : Nat :=
  let remShared := match acc.shared with
    | none => maxUint64
    | some shared => shared.remaining
  min (min (min wantScan acc.remainingStringScanBudget) acc.remainingMetadataBudget) remShared

end InputAccounting

/-- The accounts of an inspection and its history: the bytes asked of the reader, every
refund with the accounts it was made on, and the accounts and requests before each
step, newest first. -/
structure Ledger where
  acc : InputAccounting
  requested : Nat := 0
  refunds : List (Nat × InputAccounting) := []
  history : List (InputAccounting × Nat) := []

/-- Code of the inspection. -/
abbrev Inspection := Metered Ledger Err

namespace Ledger

def enter (s : Ledger) (acc : InputAccounting) : Ledger :=
  { s with acc := acc, history := (s.acc, s.requested) :: s.history }

def request (s : Ledger) (n : Nat) : Ledger :=
  { s with requested := s.requested + n, history := (s.acc, s.requested) :: s.history }

end Ledger

/-- The accounts as they are now. -/
def accounts : Inspection InputAccounting := do
  let s ← Metered.read
  return s.acc

/-- A step on the accounts, or a refusal that leaves them. -/
def account (f : InputAccounting → Eval Err InputAccounting) : Inspection Unit :=
  Metered.charge fun s => do
    let acc ← f s.acc
    return s.enter acc

/-- A read of `size` bytes.  The reader is asked unless the range check before it refused. -/
def reading (size : Nat) (x : Eval Err Bytes) : Inspection Bytes := fun s =>
  match x with
  | .error (.error e) => (.error (.error e), s)
  | asked => (asked, s.request size)

def chargeMetadata (n : Nat) : Inspection Unit := account fun acc => do
  acc.checkMetadata n
  acc.commitMetadata n

def chargeString (n : Nat) : Inspection Unit := account fun acc => do
  withinBudget acc.stringLimit acc.retainedStringBytes n
    (.about .errABIResourceLimit [.text "decoded string bytes (", .int acc.retainedStringBytes,
      .text " + ", .int n, .text ") exceeds per-input budget ", .int acc.stringLimit])
  let retained ← addU64 acc.retainedStringBytes n
  return { acc with retainedStringBytes := retained }

def chargeVersionRecord : Inspection Unit := account fun acc => do
  Eval.guard (acc.versionRecordLimit ≤ acc.versionRecords)
    (.about .errABIResourceLimit [.text "total version records (", .int (acc.versionRecords + 1),
      .text ") exceeds per-input budget ", .int acc.versionRecordLimit])
  let records ← addU64 acc.versionRecords 1
  return { acc with versionRecords := records }

def chargeStringScan (n : Nat) : Inspection Unit :=
  account fun acc => acc.checkAndChargeStringScan n

def refundStringScan (n : Nat) : Inspection Unit := Metered.charge fun s =>
  .ok { s.enter (s.acc.refundAllStringScan n) with refunds := (n, s.acc) :: s.refunds }

/-- `acc.checkMetadata`, which charges nothing. -/
def requireMetadata (n : Nat) : Inspection Unit := account fun acc => do
  acc.checkMetadata n
  return acc

/-! ## Reading -/

/-- `binary.ByteOrder`. -/
inductive ByteOrder where
  | littleEndian
  | bigEndian
  deriving DecidableEq, Repr

def ByteOrder.uint : ByteOrder → Bytes → Nat
  | .littleEndian, bs => leNat bs
  | .bigEndian, bs => leNat bs.reverse

/-- `order.UintN(buf[lo:hi])`. -/
def field (order : ByteOrder) (buf : Bytes) (lo hi : Nat) : Eval Err Nat := do
  let piece ← slice buf lo hi
  return order.uint piece

/-- The range check of a read, before any byte is asked for. -/
def checkRange (off size : Nat) : Eval Err Unit := do
  let overflow := GoError.about Sentinel.errABIMetadata [.text "offset ", .int off,
    .text " or size ", .int size, .text " overflows int64"]
  Eval.guard (maxInt64 < off || maxInt64 < size) overflow
  let last ← subU64 maxInt64 size
  Eval.guard (last < off) overflow

/-- `readIntoAt` into a buffer of `size` bytes.  The image is a byte string, so a
read inside it delivers its bytes; a read that is not inside it traps. -/
def readIntoAt (image : Bytes) (size off : Nat) : Eval Err Bytes :=
  if size = 0 then .ok []
  else do
    checkRange off size
    slice image off (off + size)

def readExactAt (image : Bytes) (off size : Nat) : Eval Err Bytes :=
  if size = 0 then .ok []
  else do
    checkRange off size
    readIntoAt image size off

/-! ## Strings of a string table -/

/-- How the scan of a string ended: at its NUL, at the end of the table, or
because an account is empty. -/
inductive Scan where
  | found (strLen : Nat)
  | unterminated
  | gaveUp
  deriving DecidableEq, Repr

/-- The loop of `scanBoundedCString` from `curr`, with `scanned` bytes behind it. -/
def scanString (strtab : Bytes) (curr scanned : Nat) : Inspection Scan :=
  if _inTable : curr < strtab.length then do
    let availInTable ← lift (subU64 strtab.length curr)
    let wantScan := min stringScanChunkSize availInTable
    let acc ← accounts
    let toCharge := acc.scanAllowance wantScan
    if _stuck : toCharge = 0 then do
      chargeStringScan 1
      return .gaveUp
    else do
      chargeStringScan toCharge
      let stop ← lift (addU64 curr toCharge)
      let chunk ← lift (slice strtab curr stop)
      match chunk.findIdx? (· == 0) with
      | some idx => do
          let bytesScanned := idx + 1
          (if bytesScanned < toCharge then refundStringScan (toCharge - bytesScanned) else pure ())
          let strLen ← lift (addU64 scanned idx)
          return .found strLen
      | none => do
          let sum ← lift (addU64 scanned toCharge)
          if toCharge < wantScan then do
            chargeStringScan 1
            return .gaveUp
          else scanString strtab (curr + toCharge) sum
  else return .unterminated
termination_by strtab.length - curr
decreasing_by exact Nat.sub_lt_sub_left _inTable (Nat.lt_add_of_pos_right (Nat.pos_of_ne_zero _stuck))

def scanBoundedCString (strtab : Bytes) (off : Nat) (fieldName : String) (requireNonEmpty : Bool) :
    Inspection Bytes := do
  Metered.guard (strtab.length ≤ off)
    (.about .errABIMetadata [.text fieldName, .text " string offset ", .int off,
      .text " out of bounds for STRTAB size ", .int strtab.length])
  match ← scanString strtab off 0 with
  | .gaveUp => return []
  | .unterminated =>
    lift (.fail (.about .errABIMetadata [.text fieldName, .text " string at offset ",
      .int off, .text " is not NUL-terminated"]))
  | .found strLen => do
      Metered.guard (requireNonEmpty && strLen == 0)
        (.about .errABIMetadata [.text fieldName, .text " string at offset ", .int off,
          .text " is empty"])
      chargeString strLen
      let stop ← lift (addU64 off strLen)
      lift (slice strtab off stop)

/-! ## Preflight of the header tables -/

/-- ELFDATA2LSB is 1, ELFDATA2MSB is 2. -/
def dataEncoding (encoding : UInt8) : Eval Err ByteOrder :=
  if encoding = 1 then .ok .littleEndian
  else if encoding = 2 then .ok .bigEndian
  else .fail (.about .errInvalidELF [.text "invalid ELF data encoding ", .int encoding.toNat])

def validateELFHeaderMagicAndEncoding (data : Bytes) : Eval Err ByteOrder := do
  Eval.guard (data.length < minELFHeaderSize)
    (.about .errABIMetadata [.text "file size ", .int data.length,
      .text " bytes is smaller than 64-byte ELF header"])
  let header ← slice data 0 minELFHeaderSize
  let m0 ← byteAt header 0
  let m1 ← byteAt header 1
  let m2 ← byteAt header 2
  let m3 ← byteAt header 3
  Eval.guard (m0 != 0x7f || m1 != 69 || m2 != 76 || m3 != 70)
    (.about .errInvalidELF [.text "invalid ELF magic header"])
  let elfClass ← byteAt header 4
  Eval.guard (elfClass != 2)
    (.about .errInvalidELF [.text "expected 64-bit ELF class (", .int 2, .text "), got ",
      .int elfClass.toNat])
  let encoding ← byteAt header 5
  let order ← dataEncoding encoding
  let version ← byteAt header 6
  Eval.guard (version != 1)
    (.about .errInvalidELF [.text "invalid ELF version ", .int version.toNat,
      .text " (expected 1)"])
  return order

def validateProgramHeaderTable (fileSize ePhoff ePhentsize ePhnum : Nat) : Inspection Unit := do
  Metered.guard (maxProgramHeaders < ePhnum)
    (.about .errABIResourceLimit [.text "program header count ", .int ePhnum,
      .text " exceeds budget ", .int maxProgramHeaders])
  if ePhnum = 0 then return ()
  else do
    Metered.guard (ePhentsize < minProgramHeaderSize)
      (.about .errABIMetadata [.text "invalid program header entry size ", .int ePhentsize,
        .text " (< 56)"])
    Metered.guard (fileSize < ePhoff)
      (.about .errABIMetadata [.text "program header table offset ", .int ePhoff,
        .text " extends beyond file size ", .int fileSize])
    let tableSize ← lift (mulU64 ePhentsize ePhnum)
    let room ← lift (subU64 fileSize ePhoff)
    Metered.guard (room < tableSize)
      (.about .errABIMetadata [.text "program header table extends beyond file (offset ",
        .int ePhoff, .text ", count ", .int ePhnum, .text ", size ", .int ePhentsize,
        .text ", file size ", .int fileSize, .text ")"])
    chargeMetadata tableSize

/-- Section header 0 carries the section count when it does not fit the header. -/
def validateExtendedSections (image : Bytes) (order : ByteOrder) (fileSize eShoff eShentsize : Nat) :
    Inspection Unit := do
  let room ← lift (subU64 fileSize eShoff)
  Metered.guard (room < eShentsize)
    (.about .errABIMetadata [.text "section header 0 extends beyond file size ", .int fileSize])
  let at0 ← lift (addU64 eShoff sectionZeroShnumOff)
  let shSizeBuf ← reading sectionZeroShnumBytes (readIntoAt image sectionZeroShnumBytes at0)
  let realShnum ← lift (field order shSizeBuf 0 sectionZeroShnumBytes)
  Metered.guard (maxSectionHeaders < realShnum)
    (.about .errABIResourceLimit [.text "extended section header count ", .int realShnum,
      .text " exceeds budget ", .int maxSectionHeaders])
  if realShnum = 0 then return ()
  else do
    let extTableSize ← lift (mulU64 realShnum eShentsize)
    let room ← lift (subU64 fileSize eShoff)
    Metered.guard (room < extTableSize)
      (.about .errABIMetadata [.text "extended section header table extends beyond file"])
    chargeMetadata extTableSize

def validateSectionHeaderTableReaderAt (image : Bytes) (order : ByteOrder)
    (fileSize eShoff eShentsize eShnum : Nat) : Inspection Unit :=
  if eShoff = 0 then return ()
  else do
    Metered.guard (eShentsize < minSectionHeaderSize)
      (.about .errABIMetadata [.text "invalid section header entry size ", .int eShentsize,
        .text " (< 64)"])
    Metered.guard (fileSize < eShoff)
      (.about .errABIMetadata [.text "section header table offset ", .int eShoff,
        .text " extends beyond file size ", .int fileSize])
    if eShnum = 0 then validateExtendedSections image order fileSize eShoff eShentsize
    else do
      let tableSize ← lift (mulU64 eShnum eShentsize)
      let room ← lift (subU64 fileSize eShoff)
      Metered.guard (room < tableSize)
        (.about .errABIMetadata [.text "section header table extends beyond file (offset ",
          .int eShoff, .text ", count ", .int eShnum, .text ", size ", .int eShentsize,
          .text ", file size ", .int fileSize, .text ")"])
      chargeMetadata tableSize

def preflightELFHeadersReaderAtWithAccounting (image : Bytes) (fileSize : Nat) :
    Inspection Bytes := do
  Metered.guard (fileSize < minELFHeaderSize)
    (.about .errABIMetadata [.text "file size ", .int fileSize,
      .text " bytes is smaller than 64-byte ELF header"])
  chargeMetadata minELFHeaderSize
  let headerBuf ← reading minELFHeaderSize (readIntoAt image minELFHeaderSize 0)
  let order ← lift (validateELFHeaderMagicAndEncoding headerBuf)
  let eEhsize ← lift (field order headerBuf 52 54)
  Metered.guard (eEhsize < minELFHeaderSize || fileSize < eEhsize)
    (.about .errABIMetadata [.text "invalid ELF header size ", .int eEhsize])
  let ePhoff ← lift (field order headerBuf 32 40)
  let ePhentsize ← lift (field order headerBuf 54 56)
  let ePhnum ← lift (field order headerBuf 56 58)
  validateProgramHeaderTable fileSize ePhoff ePhentsize ePhnum
  let eShoff ← lift (field order headerBuf 40 48)
  let eShentsize ← lift (field order headerBuf 58 60)
  let eShnum ← lift (field order headerBuf 60 62)
  validateSectionHeaderTableReaderAt image order fileSize eShoff eShentsize eShnum
  return headerBuf

/-! ## Segments -/

structure LoadSegment where
  off : Nat
  vaddr : Nat
  filesz : Nat
  memsz : Nat
  deriving DecidableEq, Repr

/-- `vaddr >= seg.vaddr && vaddr < seg.vaddr+seg.filesz`. -/
def LoadSegment.holds (seg : LoadSegment) (vaddr : Nat) : Eval Err Bool :=
  if vaddr < seg.vaddr then .ok false
  else do
    let stop ← addU64 seg.vaddr seg.filesz
    return vaddr < stop

/-- The loop of `translateVaddr`: the last match and the number of matches. -/
def translateLoads (fileSize vaddr size : Nat) : List LoadSegment → Nat → Nat → Eval Err (Nat × Nat)
  | [], foundOffset, matchCount => .ok (foundOffset, matchCount)
  | seg :: loads, foundOffset, matchCount =>
    if seg.filesz = 0 then translateLoads fileSize vaddr size loads foundOffset matchCount
    else do
      if ← seg.holds vaddr then
        let offsetInSeg ← subU64 vaddr seg.vaddr
        let backed ← subU64 seg.filesz offsetInSeg
        -- the end printed here may wrap; nothing depends on it
        Eval.guard (backed < size) (.about .errABIMetadata [.text "virtual address range [0x",
          .hexInt vaddr, .text "..0x", .hexInt ((vaddr + size) % 2 ^ 64),
          .text ") extends into zero-fill memory"])
        let fileOff ← addU64 seg.off offsetInSeg
        let beyond := GoError.about Sentinel.errABIMetadata [.text "mapped file offset 0x",
          .hexInt fileOff, .text "+0x", .hexInt size, .text " exceeds file size ", .int fileSize]
        Eval.guard (fileSize < fileOff) beyond
        let room ← subU64 fileSize fileOff
        Eval.guard (room < size) beyond
        translateLoads fileSize vaddr size loads fileOff (matchCount + 1)
      else translateLoads fileSize vaddr size loads foundOffset matchCount

def translateVaddr (loads : List LoadSegment) (fileSize vaddr size : Nat) : Eval Err Nat := do
  Eval.guard (fileSize < size) (.about .errABIMetadata [.text "requested size ", .int size,
    .text " exceeds file size ", .int fileSize])
  let (foundOffset, matchCount) ← translateLoads fileSize vaddr size loads 0 0
  Eval.guard (matchCount == 0) (.about .errABIMetadata [.text "virtual address 0x", .hexInt vaddr,
    .text " is not covered by any file-backed PT_LOAD segment"])
  Eval.guard (1 < matchCount) (.about .errABIMetadata [
    .text "ambiguous PT_LOAD mapping for virtual address 0x", .hexInt vaddr, .text " (",
    .int matchCount, .text " matching segments)"])
  return foundOffset

/-- What `parseABIProgramHeaders` returns. -/
structure ProgramHeaders where
  loads : List LoadSegment := []
  interpProg : Option LoadSegment := none
  dynamicProg : Option LoadSegment := none

/-- `pOffset > fileSize || pFilesz > fileSize-pOffset`. -/
def beyondFile (fileSize : Nat) (seg : LoadSegment) (err : Err) : Eval Err Unit := do
  Eval.guard (fileSize < seg.off) err
  let room ← subU64 fileSize seg.off
  Eval.guard (room < seg.filesz) err

def addLoad (fileSize : Nat) (found : ProgramHeaders) (seg : LoadSegment) :
    Eval Err ProgramHeaders := do
  let invalid := GoError.about Sentinel.errABIMetadata [
    .text "invalid PT_LOAD segment bounds (offset ", .int seg.off, .text ", filesz ",
    .int seg.filesz, .text ", memsz ", .int seg.memsz, .text ", vaddr 0x", .hexInt seg.vaddr,
    .text ")"]
  Eval.guard (seg.memsz < seg.filesz) invalid
  beyondFile fileSize seg invalid
  let space ← subU64 maxUint64 seg.vaddr
  Eval.guard (space < seg.memsz) invalid
  return { found with loads := found.loads ++ [seg] }

/-- `interpCount` is one exactly when a PT_INTERP was accepted before. -/
def setInterp (fileSize : Nat) (found : ProgramHeaders) (seg : LoadSegment) :
    Eval Err ProgramHeaders := do
  Eval.guard found.interpProg.isSome
    (.about .errABIMetadata [.text "multiple PT_INTERP segments in ELF program headers"])
  Eval.guard (maxInterpreterSize < seg.filesz)
    (.about .errABIResourceLimit [.text "PT_INTERP size ", .int seg.filesz,
      .text " exceeds budget limit ", .int maxInterpreterSize])
  Eval.guard (seg.filesz == 0) (.about .errABIMetadata [.text "empty PT_INTERP segment"])
  beyondFile fileSize seg (.about .errABIMetadata [.text "PT_INTERP segment extends beyond file"])
  return { found with interpProg := some seg }

def setDynamic (fileSize : Nat) (found : ProgramHeaders) (seg : LoadSegment) :
    Eval Err ProgramHeaders := do
  beyondFile fileSize seg (.about .errABIMetadata [.text "PT_DYNAMIC segment extends beyond file"])
  return { found with dynamicProg := some seg }

/-- One program header: PT_LOAD is 1, PT_DYNAMIC 2, PT_INTERP 3. -/
def programHeader (fileSize : Nat) (found : ProgramHeaders) (pType : Nat) (seg : LoadSegment) :
    Eval Err ProgramHeaders :=
  match pType with
  | 1 => addLoad fileSize found seg
  | 2 => setDynamic fileSize found seg
  | 3 => setInterp fileSize found seg
  | _ => .ok found

/-- The loop of `parseABIProgramHeaders` over the headers from `i` on. -/
def programHeaders (phTable : Bytes) (ePhentsize fileSize : Nat) (order : ByteOrder) :
    Nat → Nat → ProgramHeaders → Eval Err ProgramHeaders
  | 0, _, found => .ok found
  | left + 1, i, found => do
      let start ← mulU64 i ePhentsize
      let ph ← slice phTable start phTable.length
      let pType ← field order ph 0 4
      let pOffset ← field order ph 8 16
      let pVaddr ← field order ph 16 24
      let pFilesz ← field order ph 32 40
      let pMemsz ← field order ph 40 48
      let found ← programHeader fileSize found pType ⟨pOffset, pVaddr, pFilesz, pMemsz⟩
      programHeaders phTable ePhentsize fileSize order left (i + 1) found

def parseABIProgramHeaders (phTable : Bytes) (ePhnum ePhentsize fileSize : Nat)
    (order : ByteOrder) : Eval Err ProgramHeaders :=
  programHeaders phTable ePhentsize fileSize order ePhnum 0 {}

/-! ## The dynamic table -/

structure DynamicTags where
  neededOffsets : List Nat := []
  strtabVaddr : Nat := 0
  strtabSize : Nat := 0
  verneedVaddr : Nat := 0
  verneedNum : Nat := 0
  hasStrtab : Bool := false
  hasStrsz : Bool := false
  hasVerneed : Bool := false
  hasVerneedNum : Bool := false
  deriving DecidableEq, Repr

/-- A tag may be repeated with the same value only. -/
def onlyValue (seen : Bool) (old new : Nat) (name : String) (shown : Nat → List Part) : Eval Err Unit :=
  Eval.guard (seen && old != new) (.about .errABIMetadata ([.text "conflicting duplicate ",
    .text name, .text " entries ("] ++ shown old ++ [.text " vs "] ++ shown new ++ [.text ")"]))

/-- `0x%x` and `%d`. -/
def shownHex (n : Nat) : List Part := [.text "0x", .hexInt n]
def shownInt (n : Nat) : List Part := [.int n]

/-- One entry other than DT_NULL: DT_NEEDED 1, DT_STRTAB 5, DT_STRSZ 10, and the
two GNU version tags. -/
def dynamicEntry (tags : DynamicTags) (dTag dVal : Nat) : Eval Err DynamicTags :=
  match dTag with
  | 1 => .ok { tags with neededOffsets := tags.neededOffsets ++ [dVal] }
  | 5 => do
      onlyValue tags.hasStrtab tags.strtabVaddr dVal "DT_STRTAB" shownHex
      return { tags with strtabVaddr := dVal, hasStrtab := true }
  | 10 => do
      onlyValue tags.hasStrsz tags.strtabSize dVal "DT_STRSZ" shownInt
      return { tags with strtabSize := dVal, hasStrsz := true }
  | 0x6ffffffe => do
      onlyValue tags.hasVerneed tags.verneedVaddr dVal "DT_VERNEED" shownHex
      return { tags with verneedVaddr := dVal, hasVerneed := true }
  | 0x6fffffff => do
      onlyValue tags.hasVerneedNum tags.verneedNum dVal "DT_VERNEEDNUM" shownInt
      return { tags with verneedNum := dVal, hasVerneedNum := true }
  | _ => .ok tags

/-- The loop of `scanDynamicEntriesBuf`: the tags, and whether DT_NULL ended it. -/
def dynamicEntries (dynBytes : Bytes) (order : ByteOrder) :
    Nat → Nat → DynamicTags → Eval Err (DynamicTags × Bool)
  | 0, _, tags => .ok (tags, false)
  | left + 1, i, tags => do
      let entryOff ← mulU64 i dynamicEntrySize
      let valOff ← addU64 entryOff 8
      let entryEnd ← addU64 entryOff dynamicEntrySize
      let dTag ← field order dynBytes entryOff valOff
      let dVal ← field order dynBytes valOff entryEnd
      if dTag = 0 then .ok (tags, true)
      else do
        let tags ← dynamicEntry tags dTag dVal
        dynamicEntries dynBytes order left (i + 1) tags

def scanDynamicEntriesBuf (dynBytes : Bytes) (numDyn : Nat) (order : ByteOrder) :
    Eval Err DynamicTags := do
  let (tags, hasNullTerminator) ← dynamicEntries dynBytes order numDyn 0 {}
  Eval.guard (0 < numDyn && !hasNullTerminator)
    (.about .errABIMetadata [.text "PT_DYNAMIC table is missing DT_NULL terminator"])
  return tags

/-- `if uint64(len(strtab)) > strtabSize { strtab = strtab[:strtabSize] }`. -/
def clipStrtab (strtab : Bytes) (strtabSize : Nat) : Eval Err Bytes :=
  if strtabSize < strtab.length then slice strtab 0 strtabSize else .ok strtab

def neededNames (strtab : Bytes) : List Nat → Inspection (List Bytes)
  | [] => return []
  | off :: offs => do
      let depName ← scanBoundedCString strtab off "DT_NEEDED" true
      let deps ← neededNames strtab offs
      return depName :: deps

def parseNeededDependencies (strtab : Bytes) (strtabSize : Nat) (neededOffsets : List Nat) :
    Inspection (List Bytes) := do
  let strtab ← lift (clipStrtab strtab strtabSize)
  Metered.guard (maxDynamicEntries < neededOffsets.length)
    (.about .errABIResourceLimit [.text "needed dependencies count ", .int neededOffsets.length,
      .text " exceeds budget ", .int maxDynamicEntries])
  neededNames strtab neededOffsets

def validateVersionTagPairing (tags : DynamicTags) : Eval Err Unit := do
  Eval.guard (tags.hasVerneed && !tags.hasVerneedNum)
    (.about .errABIMetadata [.text "DT_VERNEED tag present without DT_VERNEEDNUM"])
  Eval.guard (!tags.hasVerneed && tags.hasVerneedNum)
    (.about .errABIMetadata [.text "DT_VERNEEDNUM tag present without DT_VERNEED"])

def resolveDynamicStrtabReaderAt (image : Bytes) (loads : List LoadSegment) (fileSize : Nat)
    (tags : DynamicTags) : Inspection Bytes :=
  if tags.neededOffsets = [] ∧ ¬ (tags.hasVerneed = true ∧ 0 < tags.verneedNum) then return []
  else do
    Metered.guard (!tags.hasStrtab || !tags.hasStrsz) (.about .errABIMetadata [.text
      "dynamic dependencies or version requirements declared without DT_STRTAB or DT_STRSZ"])
    Metered.guard (maxABIStringBytesPerInput < tags.strtabSize)
      (.about .errABIResourceLimit [.text "dynamic STRTAB size ", .int tags.strtabSize,
        .text " exceeds budget limit ", .int maxABIStringBytesPerInput])
    chargeMetadata tags.strtabSize
    let strtabOff ← lift (Eval.mapError
      (Err.wrapping .errABIMetadata ": translating DT_STRTAB address: ")
      (translateVaddr loads fileSize tags.strtabVaddr tags.strtabSize))
    reading tags.strtabSize (readExactAt image strtabOff tags.strtabSize)

/-! ## Reports -/

inductive LinkageForm where
  | unset
  | linkageStatic
  | linkageStaticPIE
  | linkageDynamic
  | linkageAmbiguous
  deriving DecidableEq, Repr

inductive Completeness where
  | metadataComplete
  | metadataAbsent
  | metadataPartial
  | metadataUnsupported
  | metadataSkipped
  deriving DecidableEq, Repr

structure VersionRequirement where
  library : Bytes
  version : Bytes
  flags : Nat
  deriving DecidableEq, Repr

structure VariantABIReport where
  level : Bytes := []
  path : Bytes := []
  cls : Bytes := []
  type : Bytes := []
  machine : Bytes := []
  linkage : LinkageForm := .unset
  hasInterpreter : Bool := false
  interpreter : Bytes := []
  dependencies : List Bytes := []
  versionRequirements : List VersionRequirement := []
  completeness : Completeness
  inspectionSource : Bytes := []
  warnings : List Bytes := []
  deriving DecidableEq, Repr

/-- An `Elf64_Verneed` record the inspection visited: where it is, the number of
auxiliary records it declares, and where those it visited are. -/
structure VerneedRecord where
  off : Nat
  count : Nat
  aux : List Nat
  deriving DecidableEq, Repr

/-- The version records of one image: the tags and segments that declare them,
and the records in the order they were visited. -/
structure VersionTrace where
  order : ByteOrder
  loads : List LoadSegment
  verneedVaddr : Nat
  verneedNum : Nat
  records : List VerneedRecord
  deriving DecidableEq, Repr

/-! ## Version records -/

/-- A relative offset is signed: the upper half of the `uint32` range points back. -/
def relativeTarget (currOff relOffset : Nat) : Eval Err Nat :=
  if relOffset < 0x80000000 then addU64 currOff relOffset
  else do
    let neg ← subU64 (2 ^ 32) relOffset
    Eval.guard (currOff < neg) (.about .errABIMetadata [.text
      "negative offset underflow in ELF structure chain"])
    subU64 currOff neg

def advanceELFRelativeOffset (currOff relOffset minOff maxOff entrySize : Nat) : Eval Err Nat := do
  Eval.guard (relOffset == 0) (.about .errABIMetadata [.text
    "zero progress in ELF structure chain"])
  let newOff ← relativeTarget currOff relOffset
  let outside := GoError.about Sentinel.errABIMetadata [.text "relative offset 0x",
    .hexInt relOffset, .text " out of bounds [0x", .hexInt minOff, .text "..0x", .hexInt maxOff,
    .text ")"]
  Eval.guard (newOff < minOff) outside
  let newEnd ← addU64 newOff entrySize
  Eval.guard (maxOff < newEnd) outside
  return newOff

/-- The part of a file that version records may lie in: from the address
DT_VERNEED names to the end of the file-backed part of its segment. -/
structure Window where
  verneedOff : Nat
  availableBytes : Nat

/-- `maxVernaux` and `maxVerneed`: the last place of a record, and the check that
the chain has not left the window. -/
def Window.check (w : Window) (curr entrySize : Nat) (err : Err) : Eval Err Unit := do
  let stop ← addU64 w.verneedOff w.availableBytes
  let last ← subU64 stop entrySize
  Eval.guard (w.availableBytes < entrySize || curr < w.verneedOff || last < curr) err

/-- Where the chain goes on; the last record must say that it is the last. -/
def Window.next (w : Window) (curr rel entrySize : Nat) (isLast : Bool) (dress : Err → Err)
    (premature contradictory : Err) : Eval Err Nat :=
  if isLast then do
    Eval.guard (rel != 0) contradictory
    return curr
  else do
    Eval.guard (rel == 0) premature
    let stop ← addU64 w.verneedOff w.availableBytes
    Eval.mapError dress (advanceELFRelativeOffset curr rel w.verneedOff stop entrySize)

/-- The loop of `parseVernauxChainReaderAt`: `left` records remain, the next is
number `auxIdx` and lies at `curr`. -/
def vernauxChain (image : Bytes) (order : ByteOrder) (w : Window) (vnCnt parentVerneedOff : Nat)
    (libName strtab : Bytes) :
    Nat → Nat → Nat → List Nat → List VersionRequirement →
      Inspection (List VersionRequirement × List Nat)
  | 0, _, _, visited, reqs => return (reqs, visited)
  | left + 1, auxIdx, curr, visited, reqs => do
      chargeVersionRecord
      chargeMetadata vernauxEntrySize
      lift (w.check curr vernauxEntrySize (.about .errABIMetadata [
        .text "Elf64_Vernaux entry ", .int auxIdx, .text " offset out of bounds"]))
      let parentEnd ← lift (addU64 parentVerneedOff verneedEntrySize)
      let currEnd ← lift (addU64 curr vernauxEntrySize)
      Metered.guard (curr < parentEnd && parentVerneedOff < currEnd) (.about .errABIMetadata [
        .text "Elf64_Vernaux entry ", .int auxIdx,
        .text " overlaps containing Elf64_Verneed parent record"])
      Metered.guard (visited.contains curr) (.about .errABIMetadata [
        .text "cycle detected in Elf64_Vernaux chain at offset 0x", .hexInt curr])
      let auxBuf ← reading vernauxEntrySize (readIntoAt image vernauxEntrySize curr)
      let vnaFlags ← lift (field order auxBuf 4 6)
      let vnaName ← lift (field order auxBuf 8 12)
      let vnaNext ← lift (field order auxBuf 12 16)
      let verName ← scanBoundedCString strtab vnaName "vna_name" true
      let lastIdx ← lift (subU64 vnCnt 1)
      let next ← lift (w.next curr vnaNext vernauxEntrySize (lastIdx ≤ auxIdx)
        (fun err => .wrap [.cause, .text ": Elf64_Vernaux entry ", .int (auxIdx + 1),
          .text " offset: ", .cause] [.sentinel .errABIMetadata, err])
        (.about .errABIMetadata [.text
          "premature termination of Elf64_Vernaux chain (expected ", .int vnCnt,
          .text " entries, stopped at ", .int (auxIdx + 1), .text ")"])
        (.about .errABIMetadata [.text
          "contradictory termination of Elf64_Vernaux chain: vna_next != 0 on last entry"]))
      vernauxChain image order w vnCnt parentVerneedOff libName strtab left (auxIdx + 1) next
        (visited ++ [curr]) (reqs ++ [⟨libName, verName, vnaFlags⟩])

def parseVernauxChainReaderAt (image : Bytes) (order : ByteOrder) (w : Window)
    (currVernauxOff vnCnt parentVerneedOff : Nat) (libName strtab : Bytes) (strtabSize : Nat)
    (reqs : List VersionRequirement) : Inspection (List VersionRequirement × List Nat) := do
  let strtab ← lift (clipStrtab strtab strtabSize)
  vernauxChain image order w vnCnt parentVerneedOff libName strtab vnCnt 0 currVernauxOff [] reqs

def advanceVerneedOffset (w : Window) (recordIdx verneedNum currVerneedOff vnNext : Nat) :
    Eval Err Nat := do
  let lastIdx ← subU64 verneedNum 1
  w.next currVerneedOff vnNext verneedEntrySize (lastIdx ≤ recordIdx)
    (fun err => .wrap [.cause, .text ": Elf64_Verneed entry ", .int (recordIdx + 1),
      .text " offset: ", .cause] [.sentinel .errABIMetadata, err])
    (.about .errABIMetadata [.text "premature termination of Elf64_Verneed chain (expected ",
      .int verneedNum, .text " records, stopped at ", .int (recordIdx + 1), .text ")"])
    (.about .errABIMetadata [.text
      "contradictory termination of Elf64_Verneed chain: vn_next != 0 on last record"])

def validateVerneedAuxOffset (w : Window) (vnCnt vnAux recordIdx currVerneedOff : Nat) :
    Eval Err Unit :=
  if vnCnt = 0 then .ok ()
  else do
    Eval.guard (vnAux < verneedEntrySize) (.about .errABIMetadata [.text "Elf64_Verneed entry ",
      .int recordIdx, .text " has invalid vn_aux ", .int vnAux, .text " overlapping parent record"])
    let stop ← addU64 w.verneedOff w.availableBytes
    let remBytes ← subU64 stop currVerneedOff
    let outside := GoError.about Sentinel.errABIMetadata [.text "Elf64_Verneed entry ",
      .int recordIdx, .text " auxiliary offset ", .int vnAux, .text " out of bounds"]
    Eval.guard (remBytes < vernauxEntrySize) outside
    let last ← subU64 remBytes vernauxEntrySize
    Eval.guard (last < vnAux) outside

/-- The auxiliary records of one record, if it declares any. -/
def auxRecords (image : Bytes) (order : ByteOrder) (w : Window) (vnCnt vnAux currVerneedOff : Nat)
    (libName strtab : Bytes) (reqs : List VersionRequirement) :
    Inspection (List VersionRequirement × List Nat) :=
  if vnCnt = 0 then return (reqs, [])
  else do
    let currVernauxOff ← lift (addU64 currVerneedOff vnAux)
    parseVernauxChainReaderAt image order w currVernauxOff vnCnt currVerneedOff libName strtab
      strtab.length reqs

/-- A record of a version other than 1 ends the walk with a warning. -/
def unsupportedVerneed (report : VariantABIReport) (vnVersion : Nat) :
    Inspection VariantABIReport := do
  let vnWarn := lit "unsupported Elf64_Verneed version " ++ Json.decimal vnVersion
  chargeString vnWarn.length
  return { report with
    completeness := .metadataUnsupported, warnings := report.warnings ++ [vnWarn] }

/-- The loop of `parseVerneedReaderAt`. -/
def verneedChain (image : Bytes) (order : ByteOrder) (w : Window) (verneedNum : Nat)
    (strtab : Bytes) :
    Nat → Nat → Nat → List VerneedRecord → VariantABIReport →
      Inspection (VariantABIReport × List VerneedRecord)
  | 0, _, _, records, report => return (report, records)
  | left + 1, recordIdx, curr, records, report => do
      chargeVersionRecord
      chargeMetadata verneedEntrySize
      lift (w.check curr verneedEntrySize (.about .errABIMetadata [
        .text "Elf64_Verneed entry ", .int recordIdx, .text " offset out of bounds"]))
      -- `visitedVerneed` holds exactly the offsets of the records read so far
      Metered.guard ((records.map (·.off)).contains curr) (.about .errABIMetadata [
        .text "cycle detected in Elf64_Verneed chain at offset 0x", .hexInt curr])
      let vnBuf ← reading verneedEntrySize (readIntoAt image verneedEntrySize curr)
      let vnVersion ← lift (field order vnBuf 0 2)
      if vnVersion ≠ 1 then
        let report ← unsupportedVerneed report vnVersion
        return (report, records)
      else
        let vnCnt ← lift (field order vnBuf 2 4)
        let vnFile ← lift (field order vnBuf 4 8)
        let vnAux ← lift (field order vnBuf 8 12)
        let vnNext ← lift (field order vnBuf 12 16)
        lift (validateVerneedAuxOffset w vnCnt vnAux recordIdx curr)
        let libName ← scanBoundedCString strtab vnFile "vn_file" true
        let (reqs, aux) ← auxRecords image order w vnCnt vnAux curr libName strtab
          report.versionRequirements
        let next ← lift (advanceVerneedOffset w recordIdx verneedNum curr vnNext)
        verneedChain image order w verneedNum strtab left (recordIdx + 1) next
          (records ++ [⟨curr, vnCnt, aux⟩]) { report with versionRequirements := reqs }

/-- The loop that looks for the segment of DT_VERNEED again. -/
def availableFrom (vaddr : Nat) : List LoadSegment → Eval Err Nat
  | [] => .ok 0
  | seg :: loads => do
      if ← seg.holds vaddr then
        let inside ← subU64 vaddr seg.vaddr
        subU64 seg.filesz inside
      else availableFrom vaddr loads

def parseVerneedReaderAt (image : Bytes) (loads : List LoadSegment) (fileSize : Nat)
    (order : ByteOrder) (verneedVaddr verneedNum : Nat) (strtab : Bytes)
    (report : VariantABIReport) : Inspection (VariantABIReport × VersionTrace) := do
  Metered.guard (maxVersionRecordsPerInput < verneedNum)
    (.about .errABIResourceLimit [.text "DT_VERNEEDNUM ", .int verneedNum,
      .text " exceeds budget limit ", .int maxVersionRecordsPerInput])
  (if 0 < verneedNum then requireMetadata verneedEntrySize else pure ())
  let verneedOff ← lift (Eval.mapError
    (Err.wrapping .errABIMetadata ": translating DT_VERNEED address: ")
    (translateVaddr loads fileSize verneedVaddr verneedEntrySize))
  let availableBytes ← lift (availableFrom verneedVaddr loads)
  let (report, records) ← verneedChain image order ⟨verneedOff, availableBytes⟩ verneedNum strtab
    verneedNum 0 verneedOff [] report
  let trace : VersionTrace := ⟨order, loads, verneedVaddr, verneedNum, records⟩
  if report.completeness = .metadataUnsupported then return (report, trace)
  else return ({ report with completeness := .metadataComplete }, trace)

def parseDynamicMetadataReaderAt (image : Bytes) (dynamicProg : LoadSegment)
    (loads : List LoadSegment) (fileSize : Nat) (order : ByteOrder) (report : VariantABIReport) :
    Inspection (VariantABIReport × Option VersionTrace) := do
  Metered.guard (dynamicProg.filesz % dynamicEntrySize != 0)
    (.about .errABIMetadata [.text "PT_DYNAMIC segment size ", .int dynamicProg.filesz,
      .text " is not a multiple of 16"])
  let numDyn := dynamicProg.filesz / dynamicEntrySize
  Metered.guard (maxDynamicEntries < numDyn)
    (.about .errABIResourceLimit [.text "dynamic entry count ", .int numDyn,
      .text " exceeds budget limit ", .int maxDynamicEntries])
  chargeMetadata dynamicProg.filesz
  let dynBytes ← reading dynamicProg.filesz (readExactAt image dynamicProg.off dynamicProg.filesz)
  let tags ← lift (scanDynamicEntriesBuf dynBytes numDyn order)
  lift (validateVersionTagPairing tags)
  let strtab ← resolveDynamicStrtabReaderAt image loads fileSize tags
  let deps ← parseNeededDependencies strtab tags.strtabSize tags.neededOffsets
  let report := { report with dependencies := deps }
  if tags.hasVerneed ∧ tags.hasVerneedNum then
    if tags.verneedNum = 0 then return ({ report with versionRequirements := [] }, none)
    else do
      Metered.guard (!tags.hasStrtab || !tags.hasStrsz) (.about .errABIMetadata [.text
        "dynamic version requirements declared without DT_STRTAB or DT_STRSZ"])
      let (report, trace) ← parseVerneedReaderAt image loads fileSize order tags.verneedVaddr
        tags.verneedNum strtab report
      return (report, some trace)
  else return (report, none)

/-! ## The whole inspection -/

/-- `elf.Type.String` and `elf.Machine.String` of the standard library. -/
class ElfNames where
  typeString : Nat → Bytes
  machineString : Nat → Bytes

/-- `elf.ET_DYN`. -/
def etDyn : Nat := 3

def classifyLinkage (report : VariantABIReport) (eType : Nat) : VariantABIReport :=
  if report.hasInterpreter then { report with linkage := .linkageDynamic }
  else if report.dependencies = [] then
    { report with
      linkage := if eType = etDyn then .linkageStaticPIE else .linkageStatic
      completeness :=
        if report.completeness ≠ .metadataUnsupported ∧ report.completeness ≠ .metadataPartial then
          .metadataAbsent
        else report.completeness }
  else
    { report with
      linkage := .linkageAmbiguous
      warnings := report.warnings ++
        [lit "payload declares dynamic dependencies but has no PT_INTERP"] }

/-- The comparison `normalizeVersionRequirements` sorts by. -/
def requirementLess (a b : VersionRequirement) : Bool :=
  if a.library ≠ b.library then a.library < b.library
  else if a.version ≠ b.version then a.version < b.version
  else a.flags < b.flags

def normalizeVersionRequirements (S : SliceSort) (reqs : List VersionRequirement) :
    List VersionRequirement :=
  if reqs.length ≤ 1 then reqs else S.sort requirementLess reqs.eraseDups

/-- The interpreter string of an accepted PT_INTERP. -/
def parseInterpreter (image : Bytes) (interpProg : LoadSegment) : Inspection Bytes := do
  chargeMetadata interpProg.filesz
  let rawInterp ← reading interpProg.filesz (readExactAt image interpProg.off interpProg.filesz)
  match rawInterp.findIdx? (· == 0) with
  | none => lift (.fail (.about .errABIMetadata [.text
      "PT_INTERP string is not NUL-terminated"]))
  | some nulIdx => do
      Metered.guard (nulIdx == 0) (.about .errABIMetadata [.text "PT_INTERP string is empty"])
      chargeString nulIdx
      lift (slice rawInterp 0 nulIdx)

def readProgramHeaderTable (image : Bytes) (ePhoff ePhentsize ePhnum : Nat) : Eval Err Bytes :=
  if 0 < ePhnum then do
    let tableSize ← mulU64 ePhnum ePhentsize
    readExactAt image ePhoff tableSize
  else .ok []

def withInterpreter (image : Bytes) (found : ProgramHeaders) (report : VariantABIReport) :
    Inspection VariantABIReport :=
  match found.interpProg with
  | none => return report
  | some interpProg => do
      let interpreter ← parseInterpreter image interpProg
      return { report with hasInterpreter := true, interpreter := interpreter }

def withDynamicMetadata (image : Bytes) (fileSize : Nat) (order : ByteOrder)
    (found : ProgramHeaders) (report : VariantABIReport) :
    Inspection (VariantABIReport × Option VersionTrace) :=
  match found.dynamicProg with
  | none => return (report, none)
  | some dynamicProg =>
    parseDynamicMetadataReaderAt image dynamicProg found.loads fileSize order
      { report with inspectionSource := lit "program_headers/dynamic_metadata" }

section Inspect

variable [ElfNames] (S : SliceSort)

def inspectELFABIReaderAtWithAccounting (image : Bytes) (fileSize : Nat) (header : Bytes) :
    Inspection (VariantABIReport × Option VersionTrace) := do
  let header ← (if header.length < minELFHeaderSize
    then reading minELFHeaderSize (readIntoAt image minELFHeaderSize 0) else pure header)
  let encoding ← lift (byteAt header 5)
  let order := if encoding = 1 then ByteOrder.littleEndian else ByteOrder.bigEndian
  let eType ← lift (field order header 16 18)
  let eMachine ← lift (field order header 18 20)
  let ePhoff ← lift (field order header 32 40)
  let ePhentsize ← lift (field order header 54 56)
  let ePhnum ← lift (field order header 56 58)
  let phTable ← reading (ePhnum * ePhentsize)
    (readProgramHeaderTable image ePhoff ePhentsize ePhnum)
  let found ← lift (parseABIProgramHeaders phTable ePhnum ePhentsize fileSize order)
  let report : VariantABIReport := {
    cls := lit "ELFCLASS64"
    type := ElfNames.typeString eType
    machine := ElfNames.machineString eMachine
    inspectionSource := lit "program_headers"
    completeness := .metadataAbsent }
  let report ← withInterpreter image found report
  let (report, trace) ← withDynamicMetadata image fileSize order found report
  let report := classifyLinkage report eType
  return ({ report with
    versionRequirements := normalizeVersionRequirements S report.versionRequirements }, trace)

/-- The preflight and the inspection of an image held in `image`. -/
def inspectImage (image : Bytes) : Inspection (VariantABIReport × Option VersionTrace) := do
  let header ← preflightELFHeadersReaderAtWithAccounting image image.length
  inspectELFABIReaderAtWithAccounting S image image.length header

/-- `InspectELFABIReaderAtWithAccounting` on an image held in `image`, with the
accounts after it. -/
def inspectELFABI (image : Bytes) (shared : Option ArtifactMetadataAccounting) :
    Eval Err (VariantABIReport × Option VersionTrace) × InputAccounting :=
  let run := inspectImage S image { acc := { shared := shared } }
  (run.1, run.2.acc)

end Inspect

end Microfat.Pack
