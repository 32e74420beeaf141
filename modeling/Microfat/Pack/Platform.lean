/-
# Microfat.Pack.Platform — platform evidence in an ELF image

`validateELFPlatformReaderAt` and what it calls.  An image is refused for a foreign
OSABI, or for the `GOOS` setting of the Go build information it carries.  The build
information has no fixed place: its header is looked for in the file-backed part of
every writable segment, through a window that moves over the segment.

The reader is a parameter.  It either fills the buffer of a read or reports an error.
`debug.ParseBuildInfo` and the names of OSABI values come from the standard library and
are parameters too; of the parsed information only the settings are used.

Positions inside a segment are below its file size and cannot wrap; an address, which
may, is taken modulo `2 ^ 64`.

The state of a search is the accounting of the source together with the list of the
offsets that were examined, which the source does not keep.
-/
import Microfat.Pack.AbiBounds
import Microfat.Theory.Search

namespace Microfat.Pack

open Theory

set_option autoImplicit false

/-! ## Reading -/

/-- `io.ReaderAt`, as a read of `size` bytes at `off` meets it. -/
abbrev ReaderAt := Nat → Nat → Except Err Bytes

namespace ReaderAt

def readIntoAt (r : ReaderAt) (size off : Nat) : Eval Err Bytes :=
  if size = 0 then .ok []
  else do
    checkRange off size
    Eval.mapError (fun err => .wrap [.cause, .text ": reading ", .int size, .text " bytes at offset ",
      .int off, .text ": ", .cause] [.sentinel .errABIMetadata, err]) (Eval.ofExcept (r off size))

def readExactAt (r : ReaderAt) (off size : Nat) : Eval Err Bytes :=
  if size = 0 then .ok []
  else do
    checkRange off size
    r.readIntoAt size off

end ReaderAt

/-- What the standard library tells: the name of an OSABI value, and the settings of
build information that can be parsed. -/
class PlatformLibrary where
  osabiString : Nat → Bytes
  parseBuildInfo : Bytes → Option (List (Bytes × Bytes))

/-! ## Build information -/

def goBuildInfoMagic : Bytes := 0xff :: lit " Go buildinf:"
def goBuildInfoHeaderSize : Nat := 32
def goBuildInfoAlignment : Nat := 16
def goBuildInfoScanWindow : Nat := 64 * 1024
def goBuildInfoFrameSize : Nat := 16
def goBuildInfoFrameStart : Bytes :=
  [0x30, 0x77, 0xaf, 0x0c, 0x92, 0x74, 0x08, 0x02, 0x41, 0xe1, 0xc1, 0x07, 0xe6, 0xd6, 0x18, 0xe6]
def goBuildInfoFrameEnd : Bytes :=
  [0xf9, 0x32, 0x43, 0x31, 0x86, 0x18, 0x20, 0x72, 0x00, 0x82, 0x42, 0x10, 0x41, 0x16, 0xd8, 0xf2]
def goBuildInfoTargetOSKey : Bytes := lit "GOOS"
def goBuildInfoModuleTabs : Nat := 2
def maxVarintLen64 : Nat := 10

/-- `binary.Uvarint` from byte `i` on: the value and the length of its encoding, or
nothing where the source returns a length that is not positive. -/
def uvarintFrom : Nat → Nat → Bytes → Option (Nat × Nat)
  | _, _, [] => none
  | i, x, b :: rest =>
    if i = maxVarintLen64 then none
    else if b.toNat < 0x80 then
      if i = maxVarintLen64 - 1 && 1 < b.toNat then none else some (x + b.toNat * 2 ^ (7 * i), i + 1)
    else uvarintFrom (i + 1) (x + (b.toNat - 0x80) * 2 ^ (7 * i)) rest

def uvarint (buf : Bytes) : Option (Nat × Nat) := uvarintFrom 0 0 buf

def stringTooLarge (length : Nat) : Err :=
  .about .errABIResourceLimit [.text "Go buildinfo string size ", .int length,
    .text " exceeds budget limit ", .int maxABIStringBytesPerInput]

/-- A string in line, and the place behind it. -/
def readGoBuildInfoInlineStringReaderAt (r : ReaderAt) (pos segEnd : Nat) : Eval Err (Bytes × Nat) :=
  if segEnd ≤ pos then .ok ([], 0)
  else do
    let room ← subU64 segEnd pos
    let varintBuf ← r.readIntoAt (min maxVarintLen64 room) pos
    match uvarint varintBuf with
    | none => .ok ([], 0)
    | some (length, width) => do
        let remAfterPrefix ← subU64 room width
        if remAfterPrefix < length then .ok ([], 0)
        else do
          Eval.guard (maxABIStringBytesPerInput < length) (stringTooLarge length)
          let strOff ← addU64 pos width
          let strBytes ← r.readExactAt strOff length
          let next ← addU64 strOff length
          return (strBytes, next)

def readGoBuildInfoPointer (data : Bytes) (pointerSize : Nat) (order : ByteOrder) : Eval Err Nat :=
  if pointerSize = 4 then field order data 0 4 else field order data 0 8

def readGoBuildInfoPointerStringReaderAt (r : ReaderAt) (fileSize : Nat) (loads : List LoadSegment)
    (rawPointer : Bytes) (pointerSize : Nat) (order : ByteOrder) : Eval Err Bytes := do
  let headerAddr ← readGoBuildInfoPointer rawPointer pointerSize order
  let headerSize := pointerSize * 2
  match translateVaddr loads fileSize headerAddr headerSize with
  | .error (.error _) => .ok []
  | .error (.trap trap) => .error (.trap trap)
  | .ok headerOff => do
      let header ← r.readIntoAt headerSize headerOff
      let address ← readGoBuildInfoPointer header pointerSize order
      let second ← slice header pointerSize headerSize
      let length ← readGoBuildInfoPointer second pointerSize order
      Eval.guard (maxABIStringBytesPerInput < length) (stringTooLarge length)
      if length = 0 then .ok []
      else
        match translateVaddr loads fileSize address length with
        | .error (.error _) => .ok []
        | .error (.trap trap) => .error (.trap trap)
        | .ok offset => r.readExactAt offset length

/-- The version and the module text, both in line. -/
def inlineStrings (r : ReaderAt) (inlinePos segEnd : Nat) : Eval Err (Bytes × Bytes) := do
  let (version, nextPos) ← readGoBuildInfoInlineStringReaderAt r inlinePos segEnd
  if version = [] then .ok (version, [])
  else do
    let (module, _) ← readGoBuildInfoInlineStringReaderAt r nextPos segEnd
    return (version, module)

/-- The version and the module text, both behind pointers. -/
def pointerStrings (r : ReaderAt) (fileSize : Nat) (loads : List LoadSegment) (header : Bytes)
    (pointerSize : Nat) (order : ByteOrder) : Eval Err (Bytes × Bytes) := do
  let first ← slice header 16 header.length
  let version ← readGoBuildInfoPointerStringReaderAt r fileSize loads first pointerSize order
  if version = [] then .ok (version, [])
  else do
    let second ← slice header (16 + pointerSize) header.length
    let module ← readGoBuildInfoPointerStringReaderAt r fileSize loads second pointerSize order
    return (version, module)

/-- The module text of a header, or nothing. -/
def readGoBuildInfoModuleReaderAt (r : ReaderAt) (fileSize : Nat) (loads : List LoadSegment)
    (header : Bytes) (inlinePos segEnd : Nat) : Eval Err Bytes := do
  let flags ← byteAt header 15
  let pointerSize ← byteAt header 14
  let inline := flags &&& 2 ≠ 0
  if !inline && pointerSize ≠ 4 && pointerSize ≠ 8 then .ok []
  else do
    let order := if flags &&& 1 ≠ 0 then ByteOrder.bigEndian else ByteOrder.littleEndian
    let (version, module) ← (if inline then inlineStrings r inlinePos segEnd
      else pointerStrings r fileSize loads header pointerSize.toNat order)
    if version = [] then .ok []
    else do
      Eval.guard ((maxABIStringBytesPerInput : Int) - version.length < module.length)
        (.about .errABIResourceLimit [.text "Go buildinfo strings exceed budget limit ",
          .int maxABIStringBytesPerInput])
      return module

/-! ## The target of build information -/

structure GoBuildInfoAccounting where
  stringBytes : Nat := 0
  records : Nat := 0

/-- The accounting, and the offsets examined so far. -/
structure Examination where
  accounting : GoBuildInfoAccounting := {}
  examined : List Nat := []

abbrev Examining := Metered Examination Err

def GoBuildInfoAccounting.charge (accounting : GoBuildInfoAccounting) (module : Bytes) :
    Eval Err GoBuildInfoAccounting := do
  Eval.guard ((maxABIStringBytesPerInput : Int) - accounting.stringBytes < module.length)
    (.about .errABIResourceLimit [.text "cumulative Go buildinfo strings exceed budget limit ",
      .int maxABIStringBytesPerInput])
  let records := module.count 10
  Eval.guard ((maxVersionRecordsPerInput : Int) - accounting.records < records)
    (.about .errABIResourceLimit [.text "cumulative Go buildinfo records exceed budget limit ",
      .int maxVersionRecordsPerInput])
  return ⟨accounting.stringBytes + module.length, accounting.records + records⟩

/-- The columns of one line. -/
def validColumns (line : Bytes) : Bool :=
  if (lit "mod\t").isPrefixOf line || (lit "dep\t").isPrefixOf line then
    let columns := (line.drop 4).count 9
    columns = 1 || columns = goBuildInfoModuleTabs
  else if (lit "=>\t").isPrefixOf line then (line.drop 3).count 9 = goBuildInfoModuleTabs
  else true

/-- The loop over the lines; the empty text behind a last newline passes. -/
def validGoBuildInfoModuleColumns (module : Bytes) : Bool := (module.splitOn 10).all validColumns

section

variable [PlatformLibrary]

/-- The first foreign `GOOS` is the error, with which the source also reports that the
build information was found. -/
def checkSettings (targetOS : Bytes) : List (Bytes × Bytes) → Eval Err Unit
  | [] => .ok ()
  | (key, value) :: settings =>
    if key = goBuildInfoTargetOSKey && value ≠ [] && value ≠ targetOS then
      .fail (.errorf [.text "Go buildinfo GOOS ", .quoted value,
        .text " conflicts with target operating system ", .str targetOS] [] [])
    else checkSettings targetOS settings

/-- Whether the module text is build information for the target. -/
def checkGoBuildInfoTarget (module targetOS : Bytes) : Examining Bool :=
  if module.length ≤ goBuildInfoFrameSize * 2 || !goBuildInfoFrameStart.isPrefixOf module ||
      !goBuildInfoFrameEnd.isSuffixOf module then return false
  else do
    let module ← Metered.lift (slice module goBuildInfoFrameSize (module.length - goBuildInfoFrameSize))
    if module.getLast? ≠ some 10 then return false
    else do
      Metered.charge fun s => do
        let accounting ← s.accounting.charge module
        return { s with accounting := accounting }
      if !validGoBuildInfoModuleColumns module then return false
      else
        match PlatformLibrary.parseBuildInfo module with
        | none => return false
        | some settings => do
            Metered.lift (checkSettings targetOS settings)
            return true

/-! ## The search in a segment -/

/-- The arguments of `checkGoBuildInfoSegmentReaderAt`; of the scan buffer only its
length matters, since every window is filled before it is searched. -/
structure SegmentScan where
  r : ReaderAt
  fileSize : Nat
  loads : List LoadSegment
  p : LoadSegment
  targetOS : Bytes
  bufLen : Nat

/-- What is done with a candidate. -/
def SegmentScan.examine (c : SegmentScan) (segEnd offset : Nat) (header : Bytes) : Examining Bool := do
  Metered.charge fun s => .ok { s with examined := s.examined ++ [offset] }
  let inlinePos := (c.p.off + offset + goBuildInfoHeaderSize) % 2 ^ 64
  let module ← Metered.lift (readGoBuildInfoModuleReaderAt c.r c.fileSize c.loads header inlinePos segEnd)
  checkGoBuildInfoTarget module c.targetOS

/-- The loop over the candidates of one window, from `rel` on. -/
def SegmentScan.scanWindow (c : SegmentScan) (segEnd : Nat) (window : Bytes) (windowStart maxRelStart : Nat)
    (rel : Nat) : Examining Bool :=
  if _inWindow : rel ≤ maxRelStart then
    match indexOf goBuildInfoMagic (window.drop rel) with
    | none => return false
    | some idx =>
      if maxRelStart < rel + idx then return false
      else if (c.p.vaddr + (windowStart + (rel + idx))) % 2 ^ 64 % goBuildInfoAlignment ≠ 0 then
        c.scanWindow segEnd window windowStart maxRelStart (rel + idx + goBuildInfoMagic.length)
      else do
        let header ← Metered.lift (slice window (rel + idx) (rel + idx + goBuildInfoHeaderSize))
        if ← c.examine segEnd (windowStart + (rel + idx)) header then return true
        else c.scanWindow segEnd window windowStart maxRelStart (rel + idx + goBuildInfoMagic.length)
  else return false
termination_by maxRelStart + 1 - rel
decreasing_by
  all_goals
    have magic : goBuildInfoMagic.length = 14 := by decide
    omega

/-- The loop over the windows, from `windowStart` on. -/
def SegmentScan.scanWindows (c : SegmentScan) (wide : goBuildInfoHeaderSize ≤ c.bufLen) (segEnd : Nat)
    (windowStart : Nat) : Examining Bool :=
  if _inSegment : windowStart < c.p.filesz then
    if _short : c.p.filesz - windowStart < goBuildInfoHeaderSize then return false
    else do
      let windowLen := min c.bufLen (c.p.filesz - windowStart)
      let window ← Metered.lift (c.r.readIntoAt windowLen ((c.p.off + windowStart) % 2 ^ 64))
      let rel := (goBuildInfoAlignment - (c.p.vaddr + windowStart) % 2 ^ 64 % goBuildInfoAlignment) %
        goBuildInfoAlignment
      if ← c.scanWindow segEnd window windowStart (windowLen - goBuildInfoHeaderSize) rel then return true
      else if c.p.filesz ≤ windowStart + windowLen then return false
      else c.scanWindows wide segEnd (windowStart + (windowLen - (goBuildInfoHeaderSize - 1)))
  else return false
termination_by c.p.filesz - windowStart
decreasing_by
  simp only [goBuildInfoHeaderSize] at *
  omega

def checkGoBuildInfoSegmentReaderAt (c : SegmentScan) (wide : goBuildInfoHeaderSize ≤ c.bufLen) :
    Examining Bool :=
  c.scanWindows wide ((c.p.off + c.p.filesz) % 2 ^ 64) 0

/-! ## The whole check -/

/-- A program header: whether it is PT_LOAD, whether PF_W is set, and its bounds. -/
structure ElfProg where
  load : Bool
  writable : Bool
  segment : LoadSegment

/-- A segment the build information may be in. -/
def ElfProg.searched (p : ElfProg) : Bool :=
  p.load && p.writable && goBuildInfoHeaderSize ≤ p.segment.filesz

/-- The file size of the largest searched segment, or zero. -/
def maxWritable (progs : List ElfProg) : Nat :=
  ((progs.filter ElfProg.searched).map (·.segment.filesz)).foldl max 0

omit [PlatformLibrary] in
/-- A buffer for the largest searched segment holds a header, because each of them does. -/
theorem bufLen_wide {progs : List ElfProg} (some : maxWritable progs ≠ 0) :
    goBuildInfoHeaderSize ≤ min (maxWritable progs) goBuildInfoScanWindow := by
  have searched : ∀ n ∈ (progs.filter ElfProg.searched).map (·.segment.filesz), goBuildInfoHeaderSize ≤ n := by
    intro n mem
    obtain ⟨p, member, rfl⟩ := List.mem_map.mp mem
    have passed := (List.mem_filter.mp member).2
    simp only [ElfProg.searched, Bool.and_eq_true, decide_eq_true_eq] at passed
    exact passed.2
  have largest : maxWritable progs = 0 ∨ goBuildInfoHeaderSize ≤ maxWritable progs :=
    List.foldlRecOn (motive := fun a => a = 0 ∨ goBuildInfoHeaderSize ≤ a) _ max (.inl rfl) fun a _ n mem =>
      .inr ((searched n mem).trans (le_max_right a n))
  exact le_min (largest.resolve_left some) (by decide)

/-- The loop over the program headers. -/
def searchProgs (r : ReaderAt) (fileSize : Nat) (loads : List LoadSegment) (targetOS : Bytes) (bufLen : Nat)
    (wide : goBuildInfoHeaderSize ≤ bufLen) : List ElfProg → Examining Unit
  | [] => return ()
  | p :: progs =>
    if p.searched then do
      if ← checkGoBuildInfoSegmentReaderAt ⟨r, fileSize, loads, p.segment, targetOS, bufLen⟩ wide then return ()
      else searchProgs r fileSize loads targetOS bufLen wide progs
    else searchProgs r fileSize loads targetOS bufLen wide progs

/-- ELFOSABI_NONE is 0, ELFOSABI_LINUX is 3. -/
def validateELFPlatformReaderAt (r : ReaderAt) (fileSize osabi : Nat) (progs : List ElfProg) (targetOS : Bytes) :
    Eval Err Unit :=
  if osabi ≠ 0 && osabi ≠ 3 then
    .fail (.errorf [.text "ELF OSABI ", .str (PlatformLibrary.osabiString osabi),
      .text " conflicts with target operating system ", .str targetOS] [] [])
  else if some : maxWritable progs ≠ 0 then
    let loads := (progs.filter (·.load)).map (·.segment)
    (searchProgs r fileSize loads targetOS (min (maxWritable progs) goBuildInfoScanWindow) (bufLen_wide some)
      progs {}).1
  else .ok ()

end

end Microfat.Pack
