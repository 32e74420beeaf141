/-
# Microfat.Pack.AbiCompare — comparing the ABIs of variants

`CompareVariantABIsWithOptions` compares each variant only with a reference one,
the first whose data is known, and does so four times: for the static/dynamic
class, the interpreter, the dependency set and the version requirements.  The
three loops over a reference are one loop, `againstReference`.

Every text the comparison produces is paid for from the report budget, so the
whole comparison is `Reporting` code.  A mismatch returns its report together
with an error; reports are values here, so the check for a nil report is left out.
-/
import Microfat.Pack.AbiText

namespace Microfat.Pack

open Theory

set_option autoImplicit false

/-! ## Budget of the input -/

/-- The limits the comparison reads. -/
structure ABILimits where
  maxInterpreterSize : Nat
  maxDynamicEntries : Nat
  maxABIStringBytesPerInput : Nat
  maxVersionRecordsPerInput : Nat
  maxArtifactReportBytes : UInt64

def defaultABILimits : ABILimits where
  maxInterpreterSize := maxInterpreterSize
  maxDynamicEntries := maxDynamicEntries
  maxABIStringBytesPerInput := maxABIStringBytesPerInput
  maxVersionRecordsPerInput := maxVersionRecordsPerInput
  maxArtifactReportBytes := maxArtifactReportBytes

namespace VariantABIReport

/-- The bytes of the strings an inspection decoded. -/
def inputStringBytes (r : VariantABIReport) : Nat :=
  r.interpreter.length + (r.dependencies.map List.length).sum +
    (r.versionRequirements.map fun v => v.library.length + v.version.length).sum

def reportBytes (r : VariantABIReport) : Nat :=
  r.level.length + r.path.length + r.cls.length + r.type.length + r.machine.length +
    r.interpreter.length + r.linkage.text.length + r.completeness.text.length +
    r.inspectionSource.length + (r.dependencies.map List.length).sum +
    (r.versionRequirements.map fun v => v.library.length + v.version.length + 2).sum +
    (r.warnings.map List.length).sum

end VariantABIReport

/-- One of the limits a report must meet. -/
def withinLimit (r : VariantABIReport) (what : String) (n limit : Nat) : Reporting Unit :=
  Metered.guard (limit < n) (.about .errABIResourceLimit [.text "variant ", .str r.level,
    .text what, .int n, .text " exceeds budget ", .int limit])

def validateReportBudgetWithLimits (limits : ABILimits) : List VariantABIReport → Reporting Unit
  | [] => return ()
  | r :: rs => do
      withinLimit r " interpreter path length " r.interpreter.length limits.maxInterpreterSize
      withinLimit r " dependency count " r.dependencies.length limits.maxDynamicEntries
      withinLimit r " version requirement count " r.versionRequirements.length
        limits.maxVersionRecordsPerInput
      Metered.guard (limits.maxABIStringBytesPerInput < r.inputStringBytes)
        (.about .errABIResourceLimit [.text "variant ", .str r.level,
          .text " decoded string bytes ", .int r.inputStringBytes,
          .text " exceeds per-input budget ", .int limits.maxABIStringBytesPerInput])
      reserve r.reportBytes
      validateReportBudgetWithLimits limits rs

/-! ## Texts -/

def dependencySetDiffText (baseline current : VariantABIReport)
    (missingInCurr missingInBase : List Bytes) : List Piece :=
  [.lit "differing declared dependencies between variant ", .escaped baseline.level, .lit " and ",
    .escaped current.level, .lit ": missing in ", .escaped current.level, .lit ": "] ++
  boundedDepList missingInCurr 8 ++
  [.lit "; missing in ", .escaped baseline.level, .lit ": "] ++ boundedDepList missingInBase 8

def dependencyOrderWarningText (baseline current : VariantABIReport) : List Piece :=
  [.lit "declared dependency search order differs between variant ", .escaped baseline.level,
    .lit " and ", .escaped current.level, .lit " (may affect dynamic symbol resolution order)"]

def ambiguousLinkageWarningText (rep : VariantABIReport) : List Piece :=
  [.lit "variant ", .escaped rep.level, .lit
    " has ambiguous linkage (dynamic dependencies declared without PT_INTERP); complete compatibility cannot be verified"]

def incompleteMetadataWarningText (rep : VariantABIReport) : List Piece :=
  [.lit "variant ", .escaped rep.level, .lit " has partial or unsupported version metadata (",
    .str rep.completeness.text,
    .lit "); complete symbol version compatibility cannot be verified"]

def mixedLinkageText (firstStatic firstDynamic : VariantABIReport) : List Piece :=
  [.lit "mixed static and dynamic payloads: variant ", .escaped firstStatic.level, .lit " is ",
    .str firstStatic.linkage.text, .lit ", variant ", .escaped firstDynamic.level, .lit " is ",
    .str firstDynamic.linkage.text]

def interpreterConfigDiffText (interpRef r : VariantABIReport) : List Piece :=
  [.lit "differing interpreter configuration: variant ", .escaped interpRef.level,
    .lit " has interpreter (", .quotedEscaped interpRef.interpreter, .lit "), variant ",
    .escaped r.level, .lit " does not"]

def interpreterPathDiffText (interpRef r : VariantABIReport) : List Piece :=
  [.lit "differing interpreter pathnames: variant ", .escaped interpRef.level, .lit " requires ",
    .quotedEscaped interpRef.interpreter, .lit ", variant ", .escaped r.level, .lit " requires ",
    .quotedEscaped r.interpreter]

def versionsDiffText (verRef r : VariantABIReport) : List Piece :=
  [.lit "differing symbol version requirements: variant ", .escaped verRef.level, .lit " (",
    .int verRef.versionRequirements.length, .lit " requirements) vs variant ", .escaped r.level,
    .lit " (", .int r.versionRequirements.length, .lit " requirements)"]

/-! ## Differences against a reference -/

/-- `for _, r := range reports`: the first known report is the reference, every
later known one is compared with it. -/
def againstReference {α : Type} (known : VariantABIReport → Bool)
    (compare : VariantABIReport → VariantABIReport → Reporting (List α)) :
    Option VariantABIReport → List VariantABIReport → Reporting (List α)
  | _, [] => return []
  | ref, r :: rs =>
    if known r then
      match ref with
      | none => againstReference known compare (some r) rs
      | some first => do
          let found ← compare first r
          let later ← againstReference known compare ref rs
          return found ++ later
    else againstReference known compare ref rs

namespace VariantABIReport

def isStatic (r : VariantABIReport) : Bool :=
  r.linkage = .linkageStatic || r.linkage = .linkageStaticPIE

def isDynamic (r : VariantABIReport) : Bool := r.linkage = .linkageDynamic

/-- `r.HasInterpreter || r.Interpreter != ""`. -/
def namesInterpreter (r : VariantABIReport) : Bool := r.hasInterpreter || r.interpreter ≠ []

/-- The reports `compareVariantInterpreters` looks at. -/
def interpreterKnown (r : VariantABIReport) : Bool :=
  r.linkage = .linkageDynamic || (r.linkage = .unset && r.namesInterpreter)

def isDependencyKnown (r : VariantABIReport) : Bool :=
  if r.completeness = .metadataSkipped then false
  else if r.linkage = .linkageDynamic || r.linkage = .linkageAmbiguous ||
      r.linkage = .linkageStatic || r.linkage = .linkageStaticPIE then true
  else 0 < r.dependencies.length || r.inspectionSource ≠ []

def isVersionKnown (r : VariantABIReport) : Bool :=
  r.completeness ≠ .metadataPartial && r.completeness ≠ .metadataUnsupported &&
    r.completeness ≠ .metadataSkipped

/-- `evaluateVariantUncertainty`, the first result. -/
def isSkipped (r : VariantABIReport) : Bool := r.completeness = .metadataSkipped

/-- `evaluateVariantUncertainty`, the second result. -/
def isUnknown (r : VariantABIReport) : Bool :=
  match r.completeness with
  | .metadataSkipped => false
  | .metadataPartial | .metadataUnsupported => true
  | _ => r.linkage = .linkageAmbiguous

end VariantABIReport

def compareVariantLinkages (reports : List VariantABIReport) : Reporting (List Bytes) :=
  match reports.find? (·.isStatic), reports.find? (·.isDynamic) with
  | some firstStatic, some firstDynamic => do
      let diff ← build (mixedLinkageText firstStatic firstDynamic)
      return [diff]
  | _, _ => return []

def compareInterpreters (interpRef r : VariantABIReport) : Reporting (List Bytes) :=
  if interpRef.namesInterpreter ≠ r.namesInterpreter then do
    let diff ← build (interpreterConfigDiffText interpRef r)
    return [diff]
  else if interpRef.namesInterpreter && r.namesInterpreter &&
      interpRef.interpreter ≠ r.interpreter then do
    let diff ← build (interpreterPathDiffText interpRef r)
    return [diff]
  else return []

def compareVariantInterpreters (reports : List VariantABIReport) : Reporting (List Bytes) :=
  againstReference (·.interpreterKnown) compareInterpreters none reports

/-- What one comparison of dependencies adds: a difference or a warning. -/
inductive DependencyNote where
  | difference (text : Bytes)
  | warning (text : Bytes)
  deriving DecidableEq, Repr

def missing (from_ other : VariantABIReport) : List Bytes :=
  from_.dependencies.filter fun d => !other.dependencies.contains d

def compareDependencySets (baseline current : VariantABIReport) :
    Reporting (List DependencyNote) :=
  let missingInCurr := missing baseline current
  let missingInBase := missing current baseline
  if 0 < missingInCurr.length || 0 < missingInBase.length then do
    let diff ← build (dependencySetDiffText baseline current missingInCurr missingInBase)
    return [.difference diff]
  else if baseline.dependencies.length = current.dependencies.length &&
      baseline.dependencies ≠ current.dependencies then do
    let warn ← build (dependencyOrderWarningText baseline current)
    return [.warning warn]
  else return []

def DependencyNote.differences (notes : List DependencyNote) : List Bytes :=
  notes.filterMap fun | .difference text => some text | .warning _ => none

def DependencyNote.warnings (notes : List DependencyNote) : List Bytes :=
  notes.filterMap fun | .difference _ => none | .warning text => some text

def compareVariantDependencies (reports : List VariantABIReport) :
    Reporting (List Bytes × List Bytes) := do
  let notes ← againstReference (·.isDependencyKnown) compareDependencySets none reports
  return (DependencyNote.differences notes, DependencyNote.warnings notes)

section Versions

variable (S : SliceSort)

def compareVersions (verRef r : VariantABIReport) : Reporting (List Bytes) :=
  if normalizeVersionRequirements S verRef.versionRequirements ≠
      normalizeVersionRequirements S r.versionRequirements then do
    let diff ← build (versionsDiffText verRef r)
    return [diff]
  else return []

def compareVariantVersions (reports : List VariantABIReport) : Reporting (List Bytes) :=
  againstReference (·.isVersionKnown) (compareVersions S) none reports

def collectVariantDifferences (reports : List VariantABIReport) :
    Reporting (List Bytes × List Bytes) := do
  let diffs ← compareVariantLinkages reports
  let interpDiffs ← compareVariantInterpreters reports
  let (depDiffs, depWarns) ← compareVariantDependencies reports
  let verDiffs ← compareVariantVersions S reports
  return (diffs ++ interpDiffs ++ depDiffs ++ verDiffs, depWarns)

end Versions

/-! ## Uncertainty -/

def hasLinkageWarn (r : VariantABIReport) : Bool :=
  r.warnings.any fun w =>
    decide (lit "PT_INTERP" <:+: w) || decide (lit "ambiguous" <:+: w)

/-- A piece of text that is built only where a condition holds. -/
def buildIf (wanted : Bool) (pieces : List Piece) : Reporting (List Bytes) :=
  if wanted then do
    let text ← build pieces
    return [text]
  else return []

/-- `for _, w := range r.Warnings`: each is reserved and repeated. -/
def repeatWarnings : List Bytes → Reporting (List Bytes)
  | [] => return []
  | w :: ws => do
      reserve w.length
      let rest ← repeatWarnings ws
      return w :: rest

/-- The warnings one report contributes: about its uncertainty, then its own. -/
def uncertaintyWarnings (r : VariantABIReport) : Reporting (List Bytes) := do
  let incomplete ← buildIf (r.isUnknown &&
    (r.completeness = .metadataPartial || r.completeness = .metadataUnsupported))
    (incompleteMetadataWarningText r)
  let ambiguous ← buildIf (r.isUnknown && r.linkage = .linkageAmbiguous && !hasLinkageWarn r)
    (ambiguousLinkageWarningText r)
  let own ← repeatWarnings r.warnings
  return incomplete ++ ambiguous ++ own

/-- The warnings of `evaluateAllReportsCompleteness`; its flags are
`any isSkipped` and `any isUnknown`. -/
def allUncertaintyWarnings : List VariantABIReport → Reporting (List Bytes)
  | [] => return []
  | r :: rs => do
      let warnings ← uncertaintyWarnings r
      let rest ← allUncertaintyWarnings rs
      return warnings ++ rest

/-! ## The comparison -/

def deploymentDisclaimer : Bytes := lit
  "Matching declared ABI requirements does not guarantee deployment host compatibility; the target system must provide the required dynamic linker and libraries."

def abiMismatchText : Bytes := lit "declared ABI requirements mismatch between variants"

/-- `mismatchDiffSeparator`. -/
def mismatchDiffSeparator : Bytes := lit "\n  " ++ [0xe2, 0x80, 0xa2] ++ lit " "

/-- `abiMismatchError`, which unwraps to `ErrABIMismatch`. -/
def abiMismatchError (differences : List Bytes) : Err :=
  .wrap [.str (abiMismatchText ++ differences.flatMap fun d => mismatchDiffSeparator ++ d)]
    [.sentinel .errABIMismatch]

/-- The error where the budget has no room for the differences. -/
def mismatchOmittedError (differences : List Bytes) (err : Err) : Err :=
  .wrap [.cause, .text ": ", .int differences.length,
    .text " declared differences (detailed output omitted: ", .cause, .text ")"]
    [.sentinel .errABIMismatch, err]

def formatMismatchError (differences : List Bytes) : Reporting Err := do
  let needed := abiMismatchText.length +
    (differences.map fun d => d.length + mismatchDiffSeparator.length).sum
  match ← Metered.attempt (reserve needed) with
  | .ok () => return abiMismatchError differences
  | .error err => return mismatchOmittedError differences err

def overriddenPieces (difference : Bytes) : List Piece := [.lit "[OVERRIDDEN] ", .str difference]

/-- The warnings `applyOverriddenDifferences` appends. -/
def overriddenWarnings : List Bytes → Reporting (List Bytes)
  | [] => return []
  | d :: ds => do
      let text ← build (overriddenPieces d)
      let rest ← overriddenWarnings ds
      return text :: rest

def presented (report : ArtifactABIReport) : Reporting (ArtifactABIReport × Option Err) := do
  let presBytes ← measureABIReportPresentation report
  reserve presBytes
  return (report, none)

/-- The status of variants that do not differ. -/
def statusOf (hasSkipped hasUnknown : Bool) : ComparisonStatus :=
  if hasSkipped then .comparisonSkipped
  else if hasUnknown then .comparisonUnknown
  else .comparisonConsistent

/-- A report of variants that do not differ. -/
def agreed (reports : List VariantABIReport) (warnings : List Bytes) : ArtifactABIReport :=
  let status := statusOf (reports.any (·.isSkipped)) (reports.any (·.isUnknown))
  { variants := reports
    status := status
    consistent := status = .comparisonConsistent
    warnings := warnings
    deploymentDisclaimer := deploymentDisclaimer }

/-- A report of variants that differ. -/
def differing (reports : List VariantABIReport) (differences warnings : List Bytes) :
    ArtifactABIReport where
  variants := reports
  status := .comparisonInconsistent
  consistent := false
  differences := differences
  warnings := warnings
  deploymentDisclaimer := deploymentDisclaimer

section Compare

variable (S : SliceSort)

/-- The comparison of two reports and more. -/
def compareSeveral (allowMixedABI : Bool) (reports : List VariantABIReport) :
    Reporting (ArtifactABIReport × Option Err) := do
  let warnings ← allUncertaintyWarnings reports
  let (differences, depWarns) ← collectVariantDifferences S reports
  if 0 < differences.length then do
    let report := differing reports differences (warnings ++ depWarns)
    if !allowMixedABI then do
      let err ← formatMismatchError differences
      return (report, some err)
    else do
      let overridden ← overriddenWarnings differences
      presented { report with overridden := true, warnings := report.warnings ++ overridden }
  else presented (agreed reports (warnings ++ depWarns))

/-- The cases of `CompareVariantABIsWithOptions` by the number of reports; one
report is `handleSingleReport`. -/
def compareReports (allowMixedABI : Bool) : List VariantABIReport →
    Reporting (ArtifactABIReport × Option Err)
  | [] => presented (agreed [] [])
  | [r] => do
      let warnings ← uncertaintyWarnings r
      presented (agreed [r] warnings)
  | first :: second :: rest => compareSeveral S allowMixedABI (first :: second :: rest)

/-- The body of `CompareVariantABIsWithOptions`, with its report and its error. -/
def compareWithin (limits : ABILimits) (allowMixedABI : Bool) (reports : List VariantABIReport) :
    Reporting (ArtifactABIReport × Option Err) := do
  validateReportBudgetWithLimits limits reports
  reserve deploymentDisclaimer.length
  compareReports S allowMixedABI reports

/-- `CompareVariantABIsWithOptions`.  A mismatch returns its report next to the
error; every other error comes without a report. -/
def compareVariantABIsWithOptions (reports : List VariantABIReport) (allowMixedABI : Bool)
    (limits : ABILimits) : Eval Err (ArtifactABIReport × Option Err) :=
  (compareWithin S limits allowMixedABI reports (newReportAccounting limits.maxArtifactReportBytes)).1

end Compare

end Microfat.Pack
