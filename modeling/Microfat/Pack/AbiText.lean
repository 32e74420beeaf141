/-
# Microfat.Pack.AbiText — report texts under a budget

Reports quote names from untrusted images, so every text is escaped, cut at 4096
bytes and paid for: a builder reserves the length of a piece before it appends
it.  A text is modelled as its list of pieces; `build` is the builder, and
`build_gives` says that it returns the concatenation unless the budget refuses.
The presentation of a report is a list of pieces as well, which
`MeasureABIReportPresentation` measures without building it.

Sums of lengths of strings that are in memory do not reach 2^64 and are plain
sums here; the measured presentation checks for that itself.
-/
import Microfat.Pack.AbiBounds

namespace Microfat.Pack

open Theory

set_option autoImplicit false

/-! ## Escaping -/

def maxDisplayLen : Nat := 4096

/-- `\x%02x` of a byte value. -/
def hexEscape (v : Nat) : Bytes := [92, 120, hexDigit (v / 16), hexDigit (v % 16)]

/-- A rune that is not written as it is. -/
def isControl (r : Nat) : Bool := r < 32 || r == 127 || (0x80 ≤ r && r ≤ 0x9f)

/-- The loop of `writeEscapedIntoBuilder`; every rune has positive width, so the
length of the string is enough fuel. -/
def escapeRunes : Nat → Bytes → Bytes
  | 0, _ => []
  | _ + 1, [] => []
  | fuel + 1, b :: bs =>
    let (r, size) := decodeRune (b :: bs)
    if r = runeError ∧ size = 1 then hexEscape b.toNat ++ escapeRunes fuel bs
    else (if isControl r then hexEscape r else encodeRune r) ++
      escapeRunes fuel ((b :: bs).drop size)

/-- The loop of `EscapedMetadataLen`. -/
def escapedRunesLen : Nat → Bytes → Nat
  | 0, _ => 0
  | _ + 1, [] => 0
  | fuel + 1, b :: bs =>
    let (r, size) := decodeRune (b :: bs)
    if r = runeError ∧ size = 1 then 4 + escapedRunesLen fuel bs
    else (if isControl r then 4 else size) + escapedRunesLen fuel ((b :: bs).drop size)

/-- `EscapeMetadata`. -/
def escapeMetadata (s : Bytes) : Bytes :=
  let shown := s.take maxDisplayLen
  let text := escapeRunes shown.length shown
  if maxDisplayLen < s.length then text ++ lit "...[truncated]" else text

/-- `EscapedMetadataLen`. -/
def escapedMetadataLen (s : Bytes) : Nat :=
  let shown := s.take maxDisplayLen
  let length := escapedRunesLen shown.length shown
  if maxDisplayLen < s.length then length + 14 else length

/-! ## The report budget -/

structure ReportAccounting where
  maxBytes : UInt64
  usedBytes : Nat := 0

def maxArtifactReportBytes : UInt64 := 64 * 1024 * 1024

/-- `NewReportAccounting`. -/
def newReportAccounting (maxBytes : UInt64) : ReportAccounting :=
  ⟨if maxBytes = 0 then maxArtifactReportBytes else maxBytes, 0⟩

/-- Code that produces report data. -/
abbrev Reporting := Metered ReportAccounting Err

def reserve (n : Nat) : Reporting Unit := Metered.charge fun ra => do
  withinBudget ra.maxBytes.toNat ra.usedBytes n
    (.about .errABIResourceLimit [.text "report data (", .int ra.usedBytes, .text " + ", .int n,
      .text ") exceeds budget limit ", .int ra.maxBytes.toNat, .text " bytes"])
  let used ← addU64 ra.usedBytes n
  return { ra with usedBytes := used }

/-! ## Pieces -/

/-- One call of the report builder. -/
inductive Piece where
  | str (s : Bytes)
  | escaped (s : Bytes)
  | quotedEscaped (s : Bytes)
  deriving DecidableEq, Repr

def Piece.text : Piece → Bytes
  | .str s => s
  | .escaped s => escapeMetadata s
  | .quotedEscaped s => 34 :: escapeMetadata s ++ [34]

/-- What the builder reserves for the piece. -/
def Piece.cost : Piece → Nat
  | .str s => s.length
  | .escaped s => escapedMetadataLen s
  | .quotedEscaped s => escapedMetadataLen s + 2

/-- `strconv.Itoa` of a length. -/
def Piece.int (n : Nat) : Piece := .str (Json.decimal n)

def Piece.lit (s : String) : Piece := .str (Theory.lit s)

def textOf (pieces : List Piece) : Bytes := pieces.flatMap Piece.text

/-- A `boundedReportBuilder` that is given the pieces one after the other. -/
def build : List Piece → Reporting Bytes
  | [] => return []
  | piece :: pieces => do
      reserve piece.cost
      let rest ← build pieces
      return piece.text ++ rest

/-- A list shown between its separators, up to `maxItems` of its elements. -/
def listed {α : Type} (show_ : α → List Piece) (maxItems : Nat) (items : List α) : List Piece :=
  ((items.take maxItems).map show_).intersperse [.lit ", "] |>.flatten

/-- `writeBoundedDepList`. -/
def boundedDepList (deps : List Bytes) (maxItems : Nat) : List Piece :=
  if deps = [] then [.lit "none"]
  else
    [.lit "["] ++ listed (fun d => [.escaped d]) maxItems deps ++
      (if maxItems < deps.length then
        [.lit " ... (+", .int (deps.length - maxItems), .lit " more)"] else []) ++
      [.lit "]"]

/-! ## Artifact reports and their presentation -/

def LinkageForm.text : LinkageForm → Bytes
  | .unset => []
  | .linkageStatic => lit "static"
  | .linkageStaticPIE => lit "static-pie"
  | .linkageDynamic => lit "dynamic"
  | .linkageAmbiguous => lit "ambiguous"

def Completeness.text : Completeness → Bytes
  | .metadataComplete => lit "complete"
  | .metadataAbsent => lit "absent"
  | .metadataPartial => lit "partial"
  | .metadataUnsupported => lit "unsupported"
  | .metadataSkipped => lit "skipped"

inductive ComparisonStatus where
  | comparisonConsistent
  | comparisonInconsistent
  | comparisonUnknown
  | comparisonSkipped
  deriving DecidableEq, Repr

structure ArtifactABIReport where
  variants : List VariantABIReport
  status : ComparisonStatus
  consistent : Bool
  overridden : Bool := false
  differences : List Bytes := []
  warnings : List Bytes := []
  deploymentDisclaimer : Bytes
  deriving DecidableEq, Repr

def minLevelColumnWidth : Nat := 6
def maxDisplayDeps : Nat := 8
def maxDisplayVers : Nat := 8

/-- `emitVariantDependencies` and `emitVariantVersions`: a heading and a bounded list. -/
def emitBounded {α : Type} (heading : String) (show_ : α → List Piece) (maxItems : Nat)
    (items : List α) : List Piece :=
  .lit heading ::
    (if items = [] then [.lit "none"]
    else listed show_ maxItems items ++
      (if maxItems < items.length then
        [.str (lit " ... (+" ++ Json.decimal (items.length - maxItems) ++ lit " more)")] else []))

/-- ` [flags=0x%04x]`. -/
def flagsText (flags : Nat) : Bytes :=
  lit " [flags=0x" ++ [hexDigit (flags / 4096 % 16), hexDigit (flags / 256 % 16),
    hexDigit (flags / 16 % 16), hexDigit (flags % 16)] ++ lit "]"

def emitVersion (vr : VersionRequirement) : List Piece :=
  [.escaped vr.library, .lit " (", .escaped vr.version] ++
    (if vr.flags ≠ 0 then [.str (flagsText vr.flags)] else []) ++ [.lit ")"]

def emitVariantLine (v : VariantABIReport) : List Piece :=
  let escLevelLen := escapedMetadataLen v.level
  [.str (lit "  " ++ [0xe2, 0x80, 0xa2] ++ lit " "), .escaped v.level] ++
    (if escLevelLen < minLevelColumnWidth then
      [.str (List.replicate (minLevelColumnWidth - escLevelLen) 32)] else []) ++
    [.lit " [", .str v.linkage.text, .lit "] -> interpreter: ",
      if v.hasInterpreter then .escaped v.interpreter else .lit "none"] ++
    emitBounded " | deps: " (fun d => [.escaped d]) maxDisplayDeps v.dependencies ++
    emitBounded " | versions: " emitVersion maxDisplayVers v.versionRequirements ++
    [.lit " (", .str v.completeness.text, .lit ")\n"]

def versionsIncompleteNote : Piece := .lit
  "  [!] Note: symbol version metadata is partial or unsupported; complete compatibility could not be verified\n"

def linkageAmbiguousNote : Piece := .lit
  "  [!] Note: linkage is ambiguous (payload declares dynamic dependencies but has no PT_INTERP); complete compatibility could not be verified\n"

def emitReportNotes (report : ArtifactABIReport) : List Piece :=
  let hasVersionIncomplete := report.variants.any fun v =>
    v.completeness = .metadataPartial || v.completeness = .metadataUnsupported
  let hasAmbiguousLinkage := report.variants.any fun v => v.linkage = .linkageAmbiguous
  (if report.overridden then [.lit
    "  [!] Note: declared ABI differences were explicitly allowed via --allow-mixed-abi\n"]
    else []) ++
  (if report.status = .comparisonUnknown then
    (if hasVersionIncomplete then [versionsIncompleteNote] else []) ++
    (if hasAmbiguousLinkage then [linkageAmbiguousNote] else []) ++
    (if !hasVersionIncomplete && !hasAmbiguousLinkage then [versionsIncompleteNote] else [])
    else []) ++
  (if 0 < report.deploymentDisclaimer.length then
    [.lit "  [i] ", .str report.deploymentDisclaimer, .lit "\n"] else [])

def emitReport (report : ArtifactABIReport) : List Piece :=
  if report.variants = [] then []
  else if report.status = .comparisonSkipped then
    [.lit "\nDeclared ABI Requirements: skipped (--skip-elf-validation)\n"]
  else .lit "\nDeclared ABI Requirements:\n" :: report.variants.flatMap emitVariantLine ++
    emitReportNotes report

/-- The emitter without a writer: the sum of the costs, refused past 2^64. -/
def measure : Nat → List Piece → Reporting Nat
  | written, [] => return written
  | written, piece :: pieces => do
      Metered.guard (maxUint64 - piece.cost < written) (.about .errABIResourceLimit [.text
        "report presentation size overflow"])
      measure (written + piece.cost) pieces

def measureABIReportPresentation (report : ArtifactABIReport) : Reporting Nat :=
  measure 0 (emitReport report)

/-! ## Texts are returned unless the budget refuses -/

/-- The error a budget refuses with. -/
def Refusal (e : Err) : Prop := Err.is e .errABIResourceLimit = true

theorem refusal_about (message : List Part) : Refusal (.about .errABIResourceLimit message) := by
  simp [Refusal, Err.is, Sentinel.same]

theorem reserve_gives (n : Nat) : Metered.Gives Refusal (reserve n) () := by
  refine Metered.gives_charge fun ra => ?_
  refine ((withinBudget_ends _ _ _ _).mono (fun _ room => room) ?_).bind fun _ room => ?_
  · rintro _ ⟨rfl, -⟩
    exact refusal_about _
  · rw [addU64_of_lt (room.trans_lt ra.maxBytes.toNat_lt)]
    exact trivial

theorem build_gives (pieces : List Piece) : Metered.Gives Refusal (build pieces) (textOf pieces) := by
  induction pieces with
  | nil => exact Metered.gives_pure _
  | cons piece pieces ih =>
    exact (reserve_gives _).bind (ih.bind (Metered.gives_pure _))

theorem measure_gives (written : Nat) (pieces : List Piece) :
    Metered.Gives Refusal (measure written pieces) (written + (pieces.map Piece.cost).sum) := by
  induction pieces generalizing written with
  | nil => exact Metered.gives_pure _
  | cons piece pieces ih =>
    refine (Metered.gives_guard (refusal_about _)).bind ?_
    rw [List.map_cons, List.sum_cons, ← Nat.add_assoc]
    exact ih (written + piece.cost)

end Microfat.Pack
