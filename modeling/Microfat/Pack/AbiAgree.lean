/-
# Microfat.Pack.AbiAgree — a reference stands for every pair

Two things are in the way of reading `CompareVariantABIsWithOptions`: it pays for
every text, and it compares with a reference only.  `compare_verdict` removes the
first: a comparison returns `verdict`, a pure function of the reports, unless the
budget refuses.  `references_eq_nil` removes the second: the loop over a reference
finds nothing exactly when all known variants have one key, which speaks about
every pair and prefers no order.

`compareVariantABIs_pairwise` puts them together for reports that inspections
returned.
-/
import Microfat.Pack.AbiCompare
import Microfat.Pack.AbiVersions

namespace Microfat.Pack

open Theory Metered

set_option autoImplicit false

/-! ## The texts without the budget -/

variable {α : Type} {known : VariantABIReport → Bool}

/-- `againstReference` for comparisons that reserve nothing. -/
def references {α : Type} (known : VariantABIReport → Bool)
    (compare : VariantABIReport → VariantABIReport → List α) :
    Option VariantABIReport → List VariantABIReport → List α
  | _, [] => []
  | ref, r :: rs =>
    if known r then
      match ref with
      | none => references known compare (some r) rs
      | some first => compare first r ++ references known compare ref rs
    else references known compare ref rs

theorem againstReference_gives {compare : VariantABIReport → VariantABIReport → Reporting (List α)}
    {texts : VariantABIReport → VariantABIReport → List α}
    (one : ∀ ref r, Gives Refusal (compare ref r) (texts ref r)) :
    ∀ reports ref, Gives Refusal (againstReference known compare ref reports)
      (references known texts ref reports) := by
  intro reports
  induction reports with
  | nil => exact fun _ => gives_pure []
  | cons r rs ih =>
    intro ref
    cases ref with
    | none => exact gives_ite (ih (some r)) (ih none)
    | some first =>
      exact gives_ite ((one first r).bind ((ih (some first)).bind
        (gives_pure _))) (ih (some first))

/-- One text where a condition holds. -/
def textIf (wanted : Prop) [Decidable wanted] (pieces : List Piece) : List Bytes :=
  if wanted then [textOf pieces] else []

theorem build_one (pieces : List Piece) : Gives Refusal
    (do let text ← build pieces; return [text]) [textOf pieces] :=
  (build_gives pieces).bind (gives_pure _)

def linkageTexts (reports : List VariantABIReport) : List Bytes :=
  match reports.find? (·.isStatic), reports.find? (·.isDynamic) with
  | some firstStatic, some firstDynamic => [textOf (mixedLinkageText firstStatic firstDynamic)]
  | _, _ => []

theorem compareVariantLinkages_gives (reports : List VariantABIReport) :
    Gives Refusal (compareVariantLinkages reports) (linkageTexts reports) := by
  unfold compareVariantLinkages linkageTexts
  cases reports.find? (·.isStatic) with
  | none => exact gives_pure _
  | some firstStatic =>
    cases reports.find? (·.isDynamic) with
    | none => exact gives_pure _
    | some firstDynamic => exact build_one _

def interpreterTexts (interpRef r : VariantABIReport) : List Bytes :=
  if interpRef.namesInterpreter ≠ r.namesInterpreter then
    [textOf (interpreterConfigDiffText interpRef r)]
  else textIf (interpRef.namesInterpreter && r.namesInterpreter &&
    interpRef.interpreter ≠ r.interpreter) (interpreterPathDiffText interpRef r)

theorem compareInterpreters_gives (interpRef r : VariantABIReport) :
    Gives Refusal (compareInterpreters interpRef r) (interpreterTexts interpRef r) :=
  gives_ite (build_one _) (gives_ite (build_one _) (gives_pure _))

def dependencyNotes (baseline current : VariantABIReport) : List DependencyNote :=
  let missingInCurr := missing baseline current
  let missingInBase := missing current baseline
  if 0 < missingInCurr.length || 0 < missingInBase.length then
    [.difference (textOf (dependencySetDiffText baseline current missingInCurr missingInBase))]
  else if baseline.dependencies.length = current.dependencies.length &&
      baseline.dependencies ≠ current.dependencies then
    [.warning (textOf (dependencyOrderWarningText baseline current))]
  else []

theorem compareDependencySets_gives (baseline current : VariantABIReport) :
    Gives Refusal (compareDependencySets baseline current)
      (dependencyNotes baseline current) :=
  gives_ite ((build_gives _).bind (gives_pure _))
    (gives_ite ((build_gives _).bind (gives_pure _)) (gives_pure _))

/-- The notes of `compareVariantDependencies`. -/
def allDependencyNotes (reports : List VariantABIReport) : List DependencyNote :=
  references (·.isDependencyKnown) dependencyNotes none reports

section Verdict

variable (S : SliceSort)

def versionTexts (verRef r : VariantABIReport) : List Bytes :=
  textIf (normalizeVersionRequirements S verRef.versionRequirements ≠
    normalizeVersionRequirements S r.versionRequirements) (versionsDiffText verRef r)

theorem compareVersions_gives (verRef r : VariantABIReport) :
    Gives Refusal (compareVersions S verRef r) (versionTexts S verRef r) :=
  gives_ite (build_one _) (gives_pure _)

/-- All differences, in the order they are reported. -/
def differencesOf (reports : List VariantABIReport) : List Bytes :=
  linkageTexts reports ++ references (·.interpreterKnown) interpreterTexts none reports ++
    DependencyNote.differences (allDependencyNotes reports) ++
    references (·.isVersionKnown) (versionTexts S) none reports

section

variable (reports : List VariantABIReport)

theorem collectVariantDifferences_gives :
    Gives Refusal (collectVariantDifferences S reports)
      (differencesOf S reports, DependencyNote.warnings (allDependencyNotes reports)) := by
  refine (compareVariantLinkages_gives reports).bind ?_
  refine (againstReference_gives compareInterpreters_gives reports none).bind ?_
  refine Gives.bind ((againstReference_gives compareDependencySets_gives reports none).bind
    (gives_pure _)) ?_
  refine (againstReference_gives (compareVersions_gives S) reports none).bind ?_
  exact gives_pure _

/-! ### Warnings -/

/-- The warnings one report contributes. -/
def uncertaintyTexts (r : VariantABIReport) : List Bytes :=
  textIf (r.isUnknown &&
      (r.completeness = .metadataPartial || r.completeness = .metadataUnsupported))
    (incompleteMetadataWarningText r) ++
  textIf (r.isUnknown && r.linkage = .linkageAmbiguous && !hasLinkageWarn r)
    (ambiguousLinkageWarningText r) ++ r.warnings

theorem repeatWarnings_gives (ws : List Bytes) :
    Gives Refusal (repeatWarnings ws) ws := by
  induction ws with
  | nil => exact gives_pure _
  | cons w ws ih => exact (reserve_gives _).bind (ih.bind (gives_pure _))

theorem uncertaintyWarnings_gives (r : VariantABIReport) :
    Gives Refusal (uncertaintyWarnings r) (uncertaintyTexts r) :=
  (gives_ite (build_one _) (gives_pure _)).bind
    ((gives_ite (build_one _) (gives_pure _)).bind
      ((repeatWarnings_gives _).bind (gives_pure _)))

theorem allUncertaintyWarnings_gives :
    Gives Refusal (allUncertaintyWarnings reports) (reports.flatMap uncertaintyTexts) := by
  induction reports with
  | nil => exact gives_pure _
  | cons r rs ih =>
    exact (uncertaintyWarnings_gives r).bind (ih.bind (gives_pure _))

end

def overriddenText (difference : Bytes) : Bytes := textOf (overriddenPieces difference)

theorem overriddenWarnings_gives (ds : List Bytes) :
    Gives Refusal (overriddenWarnings ds) (ds.map overriddenText) := by
  induction ds with
  | nil => exact gives_pure _
  | cons d ds ih => exact (build_gives _).bind (ih.bind (gives_pure _))

theorem presented_gives (report : ArtifactABIReport) :
    Gives Refusal (presented report) (report, none) :=
  (measure_gives 0 _).bind ((reserve_gives _).bind (gives_pure _))

/-! ### The verdict -/

variable {reports : List VariantABIReport}

def warningsOf (reports : List VariantABIReport) : List Bytes :=
  reports.flatMap uncertaintyTexts ++ DependencyNote.warnings (allDependencyNotes reports)

/-- What a comparison returns when the budget does not refuse it. -/
def verdict (reports : List VariantABIReport) (allowMixedABI : Bool) :
    ArtifactABIReport × Option Err :=
  let differences := differencesOf S reports
  let report := differing reports differences (warningsOf reports)
  if 0 < differences.length then
    if allowMixedABI then
      ({ report with
        overridden := true
        warnings := report.warnings ++ differences.map overriddenText }, none)
    else (report, some (abiMismatchError differences))
  else (agreed reports (warningsOf reports), none)

/-- The comparison was refused for want of budget. -/
def Refused (x : Eval Err (ArtifactABIReport × Option Err)) : Prop :=
  ∃ e, Refusal e ∧ (x = .error (.error e) ∨ ∃ report, x = .ok (report, some e))

theorem refused_error {e : Err} (refusal : Refusal e) : Refused (.error (.error e)) :=
  ⟨e, refusal, .inl rfl⟩

theorem formatMismatchError_gives (differences : List Bytes) (ra : ReportAccounting) :
    (formatMismatchError differences ra).1 = .ok (abiMismatchError differences) ∨
      ∃ e, Refusal e ∧ (formatMismatchError differences ra).1 = .ok e := by
  unfold formatMismatchError
  rcases Metered.attempt_gives (reserve_gives (abiMismatchText.length +
    (differences.map fun d => d.length + mismatchDiffSeparator.length).sum)) ra with
    fits | ⟨err, full, refusal⟩
  · exact .inl (by rw [Metered.bind_of_ok fits]; rfl)
  · refine .inr ⟨mismatchOmittedError differences err, ?_, by rw [Metered.bind_of_ok full]; rfl⟩
    have wrapped : Err.is err .errABIResourceLimit = true := refusal
    simp only [Err.is] at wrapped
    simp [Refusal, Err.is, mismatchOmittedError, wrapped]

/-- A comparison of two reports and more returns the verdict or is refused. -/
theorem compareSeveral_verdict (allowMixedABI : Bool) (reports : List VariantABIReport)
    (ra : ReportAccounting) :
    (compareSeveral S allowMixedABI reports ra).1 = .ok (verdict S reports allowMixedABI) ∨
      Refused (compareSeveral S allowMixedABI reports ra).1 := by
  let Q : Eval Err (ArtifactABIReport × Option Err) → Prop := fun x =>
    x = .ok (verdict S reports allowMixedABI) ∨ Refused x
  have refused : ∀ e, Refusal e → Q (.error (.error e)) := fun e refusal =>
    .inr (refused_error refusal)
  refine (allUncertaintyWarnings_gives reports).followed Q (fun ra => ?_) refused ra
  refine (collectVariantDifferences_gives S reports).followed Q (fun ra => ?_) refused ra
  change Q ((if 0 < (differencesOf S reports).length then _ else _ : Reporting _) ra).1
  by_cases some : 0 < (differencesOf S reports).length
  · rw [if_pos some]
    cases allowMixedABI with
    | false =>
      change Q ((formatMismatchError (differencesOf S reports) >>= fun err =>
        pure (differing reports (differencesOf S reports) (warningsOf reports), Option.some err)) ra).1
      rcases formatMismatchError_gives (differencesOf S reports) ra with
        named | ⟨e, refusal, omitted⟩
      · rw [Metered.bind_of_ok named]
        exact .inl (by rw [verdict, if_pos some]; rfl)
      · rw [Metered.bind_of_ok omitted]
        exact .inr ⟨e, refusal, .inr ⟨_, rfl⟩⟩
    | true =>
      refine (overriddenWarnings_gives _).followed Q (fun ra => ?_) refused ra
      rcases presented_gives { differing reports (differencesOf S reports) (warningsOf reports) with
          overridden := true
          warnings := warningsOf reports ++ (differencesOf S reports).map overriddenText } ra with
        returned | ⟨e, failed, refusal⟩
      · exact .inl (returned.trans (by rw [verdict, if_pos some]; rfl))
      · exact .inr ⟨e, refusal, .inl failed⟩
  · rw [if_neg some]
    rcases presented_gives (agreed reports (warningsOf reports)) ra with
      returned | ⟨e, failed, refusal⟩
    · exact .inl (returned.trans (by rw [verdict, if_neg some]))
    · exact .inr ⟨e, refusal, .inl failed⟩

theorem validateReportBudgetWithLimits_gives (limits : ABILimits) (reports : List VariantABIReport) :
    Gives Refusal (validateReportBudgetWithLimits limits reports) () := by
  induction reports with
  | nil => exact gives_pure _
  | cons r rs ih =>
    have limit : ∀ what n bound, Gives Refusal (withinLimit r what n bound) () :=
      fun what n bound => gives_guard (refusal_about _)
    exact (limit _ _ _).bind ((limit _ _ _).bind ((limit _ _ _).bind
      ((gives_guard (refusal_about _)).bind ((reserve_gives _).bind ih))))

theorem references_single (known : VariantABIReport → Bool)
    (compare : VariantABIReport → VariantABIReport → List α) (r : VariantABIReport) :
    references known compare none [r] = [] := by
  simp [references]

theorem linkageTexts_eq_nil :
    linkageTexts reports = [] ↔
      ¬ ∃ a ∈ reports, ∃ b ∈ reports, a.isStatic = true ∧ b.isDynamic = true := by
  unfold linkageTexts
  split
  · rename_i s d foundStatic foundDynamic
    refine iff_of_false (by simp) fun none => none ?_
    exact ⟨s, List.mem_of_find?_eq_some foundStatic, d, List.mem_of_find?_eq_some foundDynamic,
      List.find?_some foundStatic, List.find?_some foundDynamic⟩
  · rename_i missing
    refine iff_of_true rfl ?_
    rintro ⟨a, memA, b, memB, static, dynamic⟩
    obtain ⟨s, foundStatic⟩ := Option.isSome_iff_exists.mp
      (List.find?_isSome.mpr ⟨a, memA, static⟩)
    obtain ⟨d, foundDynamic⟩ := Option.isSome_iff_exists.mp
      (List.find?_isSome.mpr ⟨b, memB, dynamic⟩)
    exact missing s d foundStatic foundDynamic

theorem not_static_and_dynamic (r : VariantABIReport) :
    ¬ (r.isStatic = true ∧ r.isDynamic = true) := by
  unfold VariantABIReport.isStatic VariantABIReport.isDynamic
  cases r.linkage <;> decide

theorem differencesOf_single (r : VariantABIReport) : differencesOf S [r] = [] := by
  have linkage : linkageTexts [r] = [] := linkageTexts_eq_nil.mpr (by
    rintro ⟨a, memA, b, memB, both⟩
    rw [List.mem_singleton.mp memA, List.mem_singleton.mp memB] at both
    exact not_static_and_dynamic r both)
  simp [differencesOf, linkage, references_single, allDependencyNotes, DependencyNote.differences]

theorem compareReports_verdict (allowMixedABI : Bool) (reports : List VariantABIReport)
    (ra : ReportAccounting) :
    (compareReports S allowMixedABI reports ra).1 = .ok (verdict S reports allowMixedABI) ∨
      Refused (compareReports S allowMixedABI reports ra).1 := by
  have quiet : ∀ ra, (differencesOf S reports).length = 0 →
      (presented (agreed reports (warningsOf reports)) ra).1 =
          .ok (verdict S reports allowMixedABI) ∨
        Refused (presented (agreed reports (warningsOf reports)) ra).1 := by
    intro ra none
    rcases presented_gives (agreed reports (warningsOf reports)) ra with
      returned | ⟨e, failed, refusal⟩
    · exact .inl (returned.trans (by rw [verdict, if_neg (by omega)]))
    · exact .inr ⟨e, refusal, .inl failed⟩
  match reports, quiet with
  | [], quiet => exact quiet ra rfl
  | [r], quiet =>
    have same : warningsOf [r] = uncertaintyTexts r := by
      simp [warningsOf, allDependencyNotes, references_single, DependencyNote.warnings]
    rw [same] at quiet
    exact (uncertaintyWarnings_gives r).followed
      (fun x => x = .ok (verdict S [r] allowMixedABI) ∨ Refused x)
      (fun ra => quiet ra (by rw [differencesOf_single]; rfl))
      (fun e refusal => .inr (refused_error refusal)) ra
  | _ :: _ :: _, _ => exact compareSeveral_verdict S allowMixedABI _ ra

/-- **A comparison returns its verdict unless the budget refuses it.** -/
theorem compare_verdict (limits : ABILimits) (allowMixedABI : Bool)
    (reports : List VariantABIReport) :
    compareVariantABIsWithOptions S reports allowMixedABI limits =
        .ok (verdict S reports allowMixedABI) ∨
      Refused (compareVariantABIsWithOptions S reports allowMixedABI limits) := by
  let Q : Eval Err (ArtifactABIReport × Option Err) → Prop := fun x =>
    x = .ok (verdict S reports allowMixedABI) ∨ Refused x
  have refused : ∀ e, Refusal e → Q (.error (.error e)) := fun e refusal =>
    .inr (refused_error refusal)
  have afterDisclaimer : ∀ n ra,
      Q ((reserve n >>= fun _ => compareReports S allowMixedABI reports) ra).1 := fun n =>
    (reserve_gives n).followed Q (compareReports_verdict S allowMixedABI reports) refused
  unfold compareVariantABIsWithOptions compareWithin
  generalize deploymentDisclaimer.length = n
  exact (validateReportBudgetWithLimits_gives limits reports).followed Q (afterDisclaimer n)
    refused _

/-! ## A reference stands for every pair -/

theorem references_some_eq_nil {κ : Type} {compare : VariantABIReport → VariantABIReport → List α}
    {key : VariantABIReport → κ}
    (same : ∀ a b, known a = true → known b = true → (compare a b = [] ↔ key a = key b))
    {ref : VariantABIReport} (refKnown : known ref = true) (reports : List VariantABIReport) :
    references known compare (some ref) reports = [] ↔
      ∀ r ∈ reports, known r = true → key ref = key r := by
  induction reports with
  | nil => simp [references]
  | cons r rs ih =>
    rw [List.forall_mem_cons, ← ih, references]
    by_cases here : known r = true
    · rw [if_pos here, List.append_eq_nil_iff, same ref r refKnown here]
      exact ⟨fun both => ⟨fun _ => both.1, both.2⟩, fun both => ⟨both.1 here, both.2⟩⟩
    · rw [if_neg here]
      exact ⟨fun rest => ⟨fun known => absurd known here, rest⟩, fun both => both.2⟩

/-- The loop over a reference finds nothing exactly when all known reports have
one key: no order of the list is preferred. -/
theorem references_eq_nil {κ : Type} {compare : VariantABIReport → VariantABIReport → List α}
    (key : VariantABIReport → κ)
    (same : ∀ a b, known a = true → known b = true → (compare a b = [] ↔ key a = key b))
    (reports : List VariantABIReport) :
    references known compare none reports = [] ↔
      ∀ a ∈ reports, ∀ b ∈ reports, known a = true → known b = true → key a = key b := by
  induction reports with
  | nil => simp [references]
  | cons r rs ih =>
    rw [references]
    by_cases here : known r = true
    · rw [if_pos here, references_some_eq_nil same here]
      constructor
      · intro all a memA b memB knownA knownB
        have first : ∀ c ∈ r :: rs, known c = true → key r = key c :=
          List.forall_mem_cons.mpr ⟨fun _ => rfl, all⟩
        rw [← first a memA knownA, first b memB knownB]
      · intro all b memB knownB
        exact all r List.mem_cons_self b (List.mem_cons_of_mem _ memB) here knownB
    · rw [if_neg here, ih]
      constructor
      · intro all a memA b memB knownA knownB
        have later : ∀ c ∈ r :: rs, known c = true → c ∈ rs :=
          List.forall_mem_cons.mpr ⟨fun known => absurd known here, fun _ old _ => old⟩
        exact all a (later a memA knownA) b (later b memB knownB) knownA knownB
      · intro all a memA b memB
        exact all a (List.mem_cons_of_mem _ memA) b (List.mem_cons_of_mem _ memB)

theorem differences_append (a b : List DependencyNote) :
    DependencyNote.differences (a ++ b) =
      DependencyNote.differences a ++ DependencyNote.differences b :=
  List.filterMap_append

/-- The differences among the notes are a reference loop of their own. -/
theorem differences_references (known : VariantABIReport → Bool)
    (compare : VariantABIReport → VariantABIReport → List DependencyNote)
    (reports : List VariantABIReport) : ∀ ref,
    DependencyNote.differences (references known compare ref reports) =
      references known (fun a b => DependencyNote.differences (compare a b)) ref reports := by
  induction reports with
  | nil => exact fun _ => rfl
  | cons r rs ih =>
    intro ref
    rw [references.eq_def, references.eq_def]
    by_cases here : known r = true
    · simp only [if_pos here]
      cases ref with
      | none => exact ih _
      | some first => rw [differences_append, ih]
    · simp only [if_neg here]
      exact ih ref

/-! ### The keys -/

namespace VariantABIReport

/-- The interpreter a report names, if any. -/
def interpreterKey (r : VariantABIReport) : Option Bytes :=
  if r.namesInterpreter then some r.interpreter else none

/-- The dependencies as a set. -/
def dependencyKey (r : VariantABIReport) : Set Bytes := {d | d ∈ r.dependencies}

end VariantABIReport

section

variable (a b : VariantABIReport)

theorem interpreterTexts_eq_nil : interpreterTexts a b = [] ↔ a.interpreterKey = b.interpreterKey := by
  unfold interpreterTexts textIf VariantABIReport.interpreterKey
  cases a.namesInterpreter <;> cases b.namesInterpreter <;> simp

theorem missing_eq_nil : missing a b = [] ↔ a.dependencyKey ⊆ b.dependencyKey := by
  simp [missing, VariantABIReport.dependencyKey, Set.subset_def]

theorem dependencyDifferences_eq_nil :
    DependencyNote.differences (dependencyNotes a b) = [] ↔ a.dependencyKey = b.dependencyKey := by
  rw [Set.Subset.antisymm_iff, ← missing_eq_nil, ← missing_eq_nil]
  unfold dependencyNotes
  dsimp only
  split
  · rename_i some
    refine iff_of_false (by simp [DependencyNote.differences]) fun none => ?_
    simp [none.1, none.2] at some
  · rename_i none
    have both : missing a b = [] ∧ missing b a = [] := by
      simpa [← List.length_eq_zero_iff] using none
    refine iff_of_true ?_ both
    split <;> rfl

theorem versionTexts_eq_nil :
    versionTexts S a b = [] ↔ normalizeVersionRequirements S a.versionRequirements =
      normalizeVersionRequirements S b.versionRequirements := by
  unfold versionTexts textIf
  split
  · rename_i differ
    exact iff_of_false (by simp) differ
  · rename_i agree
    exact iff_of_true rfl (not_not.mp agree)

end

/-- What the absence of differences means, for every pair of reports. -/
structure NoDifference (reports : List VariantABIReport) : Prop where
  linkage : ¬ ∃ a ∈ reports, ∃ b ∈ reports, a.isStatic = true ∧ b.isDynamic = true
  interpreter : ∀ a ∈ reports, ∀ b ∈ reports, a.interpreterKnown = true →
    b.interpreterKnown = true → a.interpreterKey = b.interpreterKey
  dependencies : ∀ a ∈ reports, ∀ b ∈ reports, a.isDependencyKnown = true →
    b.isDependencyKnown = true → a.dependencyKey = b.dependencyKey
  versions : ∀ a ∈ reports, ∀ b ∈ reports, a.isVersionKnown = true → b.isVersionKnown = true →
    normalizeVersionRequirements S a.versionRequirements =
      normalizeVersionRequirements S b.versionRequirements

theorem differencesOf_eq_nil (reports : List VariantABIReport) :
    differencesOf S reports = [] ↔ NoDifference S reports := by
  unfold differencesOf allDependencyNotes
  rw [List.append_eq_nil_iff, List.append_eq_nil_iff, List.append_eq_nil_iff, linkageTexts_eq_nil,
    references_eq_nil VariantABIReport.interpreterKey fun a b _ _ => interpreterTexts_eq_nil a b,
    differences_references,
    references_eq_nil VariantABIReport.dependencyKey fun a b _ _ => dependencyDifferences_eq_nil a b,
    references_eq_nil (fun r => normalizeVersionRequirements S r.versionRequirements)
      fun a b _ _ => versionTexts_eq_nil S a b]
  exact ⟨fun h => ⟨h.1.1.1, h.1.1.2, h.1.2, h.2⟩,
    fun h => ⟨⟨⟨h.linkage, h.interpreter⟩, h.dependencies⟩, h.versions⟩⟩

variable {other : List VariantABIReport}

theorem NoDifference.perm (perm : reports.Perm other) (none : NoDifference S reports) :
    NoDifference S other where
  linkage := by
    rintro ⟨a, memA, b, memB, both⟩
    exact none.linkage ⟨a, perm.mem_iff.mpr memA, b, perm.mem_iff.mpr memB, both⟩
  interpreter a memA b memB := none.interpreter a (perm.mem_iff.mpr memA) b (perm.mem_iff.mpr memB)
  dependencies a memA b memB :=
    none.dependencies a (perm.mem_iff.mpr memA) b (perm.mem_iff.mpr memB)
  versions a memA b memB := none.versions a (perm.mem_iff.mpr memA) b (perm.mem_iff.mpr memB)

theorem differencesOf_perm (perm : reports.Perm other) :
    0 < (differencesOf S reports).length ↔ 0 < (differencesOf S other).length := by
  rw [List.length_pos_iff, List.length_pos_iff, not_iff_not, differencesOf_eq_nil,
    differencesOf_eq_nil]
  exact ⟨NoDifference.perm S perm, NoDifference.perm S perm.symm⟩

/-! ## Consistency, order and override -/

variable {r : VariantABIReport}

/-- Two variants declare the same ABI. -/
structure Agree (a b : VariantABIReport) : Prop where
  static : a.isStatic = b.isStatic
  dynamic : a.isDynamic = b.isDynamic
  hasInterpreter : a.hasInterpreter = b.hasInterpreter
  interpreter : a.interpreter = b.interpreter
  dependencies : ∀ d, d ∈ a.dependencies ↔ d ∈ b.dependencies
  versions : normalizeVersionRequirements S a.versionRequirements =
    normalizeVersionRequirements S b.versionRequirements

theorem certain_cases (notSkipped : r.isSkipped = false) (notUnknown : r.isUnknown = false) :
    (r.completeness = .metadataComplete ∨ r.completeness = .metadataAbsent) ∧
      r.linkage ≠ .linkageAmbiguous := by
  unfold VariantABIReport.isSkipped at notSkipped
  unfold VariantABIReport.isUnknown at notUnknown
  cases completeness : r.completeness <;> simp_all

/-- An inspected report whose data is certain is static or dynamic, and all its
data takes part in the comparison. -/
theorem certain_known (discovered : r.Discovered) (notSkipped : r.isSkipped = false)
    (notUnknown : r.isUnknown = false) :
    r.isStatic = !r.isDynamic ∧ r.isDynamic = r.hasInterpreter ∧ r.isDependencyKnown = true ∧
      r.isVersionKnown = true := by
  obtain ⟨completeness, certain⟩ := certain_cases notSkipped notUnknown
  have linked := discovered.linked
  have dynamic := discovered.dynamic
  refine ⟨?_, ?_, ?_, ?_⟩
  · unfold VariantABIReport.isStatic VariantABIReport.isDynamic
    cases linkage : r.linkage <;> simp_all
  · unfold VariantABIReport.isDynamic
    rw [Bool.eq_iff_iff, decide_eq_true_eq, dynamic]
  · unfold VariantABIReport.isDependencyKnown
    cases linkage : r.linkage <;> rcases completeness with same | same <;> simp_all
  · unfold VariantABIReport.isVersionKnown
    rcases completeness with same | same <;> simp [same]

theorem NoDifference.agree (none : NoDifference S reports) (discovered : ∀ r ∈ reports, r.Discovered)
    (certain : ∀ r ∈ reports, r.isSkipped = false ∧ r.isUnknown = false) {a b : VariantABIReport}
    (memA : a ∈ reports) (memB : b ∈ reports) :
    Agree S a b := by
  obtain ⟨staticA, interpA, depsA, versA⟩ :=
    certain_known (discovered a memA) (certain a memA).1 (certain a memA).2
  obtain ⟨staticB, interpB, depsB, versB⟩ :=
    certain_known (discovered b memB) (certain b memB).1 (certain b memB).2
  have dynamic : a.isDynamic = b.isDynamic := by
    by_contra differ
    rcases Bool.eq_false_or_eq_true a.isDynamic with isA | isA <;>
      rcases Bool.eq_false_or_eq_true b.isDynamic with isB | isB
    · exact differ (isA.trans isB.symm)
    · exact none.linkage ⟨b, memB, a, memA, by rw [staticB, isB]; rfl, isA⟩
    · exact none.linkage ⟨a, memA, b, memB, by rw [staticA, isA]; rfl, isB⟩
    · exact differ (isA.trans isB.symm)
  have has : a.hasInterpreter = b.hasInterpreter := by rw [← interpA, ← interpB, dynamic]
  refine ⟨by rw [staticA, staticB, dynamic], dynamic, has, ?_, ?_,
    none.versions a memA b memB versA versB⟩
  · cases interp : a.hasInterpreter with
    | false =>
      rw [(discovered a memA).interpreter interp, (discovered b memB).interpreter (has ▸ interp)]
    | true =>
      have knownA : a.interpreterKnown = true := by
        have linkage := (discovered a memA).dynamic.mpr interp
        simp [VariantABIReport.interpreterKnown, linkage]
      have knownB : b.interpreterKnown = true := by
        have linkage := (discovered b memB).dynamic.mpr (has ▸ interp)
        simp [VariantABIReport.interpreterKnown, linkage]
      have same := none.interpreter a memA b memB knownA knownB
      simpa [VariantABIReport.interpreterKey, VariantABIReport.namesInterpreter, interp,
        has.symm.trans interp] using same
  · exact fun d => Set.ext_iff.mp (none.dependencies a memA b memB depsA depsB) d

theorem verdict_consistent {allowMixedABI : Bool}
    (consistent : (verdict S reports allowMixedABI).1.status = .comparisonConsistent) :
    NoDifference S reports ∧ ∀ r ∈ reports, r.isSkipped = false ∧ r.isUnknown = false := by
  unfold verdict at consistent
  dsimp only at consistent
  split at consistent
  · split at consistent <;> cases consistent
  · rename_i none
    refine ⟨(differencesOf_eq_nil S reports).mp (List.length_eq_zero_iff.mp (by omega)), ?_⟩
    change statusOf (reports.any (·.isSkipped)) (reports.any (·.isUnknown)) = _ at consistent
    unfold statusOf at consistent
    split_ifs at consistent with noSkipped noUnknown
    simp only [Bool.not_eq_true, List.any_eq_false] at noSkipped noUnknown
    exact fun r mem => ⟨by simpa using noSkipped r mem, by simpa using noUnknown r mem⟩

/-- The status a comparison returned with its report. -/
def returnedStatus : Eval Err (ArtifactABIReport × Option Err) → Option ComparisonStatus
  | .ok (report, _) => some report.status
  | .error _ => none

/-- A comparison returned an error. -/
def returnedError : Eval Err (ArtifactABIReport × Option Err) → Bool
  | .ok (_, err) => err.isSome
  | .error _ => true

theorem any_perm (perm : reports.Perm other) (p : VariantABIReport → Bool) :
    reports.any p = other.any p := by
  rw [Bool.eq_iff_iff, List.any_eq_true, List.any_eq_true]
  exact ⟨fun ⟨r, mem, h⟩ => ⟨r, perm.mem_iff.mp mem, h⟩,
    fun ⟨r, mem, h⟩ => ⟨r, perm.mem_iff.mpr mem, h⟩⟩

theorem verdict_perm (perm : reports.Perm other) (allowMixedABI : Bool) :
    (verdict S reports allowMixedABI).1.status = (verdict S other allowMixedABI).1.status ∧
      (verdict S reports allowMixedABI).2.isSome = (verdict S other allowMixedABI).2.isSome := by
  unfold verdict
  dsimp only
  by_cases some : 0 < (differencesOf S reports).length
  · rw [if_pos some, if_pos ((differencesOf_perm S perm).mp some)]
    cases allowMixedABI <;> exact ⟨rfl, rfl⟩
  · rw [if_neg some, if_neg (mt (differencesOf_perm S perm).mpr some)]
    refine ⟨?_, rfl⟩
    change statusOf _ _ = statusOf _ _
    rw [any_perm perm, any_perm perm]

theorem overriddenText_eq (d : Bytes) : overriddenText d = lit "[OVERRIDDEN] " ++ d := by
  simp [overriddenText, textOf, overriddenPieces, Piece.text, Piece.lit]

theorem isMismatch (differences : List Bytes) :
    Err.is (abiMismatchError differences) .errABIMismatch = true := by
  simp [Err.is, abiMismatchError, Sentinel.same]

/-- The report an inspection of some image returned, for a level and a path. -/
def ByInspection [ElfNames] (r : VariantABIReport) : Prop :=
  ∃ image shared base trace level path, image.length ≤ maxInt64 ∧
    (inspectELFABI S image shared).1 = .ok (base, trace) ∧ r = { base with level, path }

theorem ByInspection.discovered [ElfNames] (h : ByInspection S r) :
    r.Discovered := by
  obtain ⟨image, shared, base, trace, level, path, small, returned, rfl⟩ := h
  have found := ((inspectELFABI_yields S small shared).2 _ returned).report
  exact ⟨found.linked, found.dynamic, found.interpreter, found.completeness⟩

/-- **Comparing with a reference is comparing every pair, in every order.**  For
comparisons that stay within the report budget: a consistent status means that
every pair of variants agrees; the status and whether an error is returned do not
depend on the order; and allowing mixed ABIs only turns a mismatch error into an
overridden report that repeats the differences as warnings. -/
theorem compareVariantABIs_pairwise [ElfNames] (limits : ABILimits)
    (reports : List VariantABIReport) (inspected : ∀ r ∈ reports, ByInspection S r) :
    (∀ allowMixedABI, ¬ Refused (compareVariantABIsWithOptions S reports allowMixedABI limits) →
      returnedStatus (compareVariantABIsWithOptions S reports allowMixedABI limits) =
        some .comparisonConsistent →
      ∀ a ∈ reports, ∀ b ∈ reports, Agree S a b) ∧
    (∀ allowMixedABI other, reports.Perm other →
      ¬ Refused (compareVariantABIsWithOptions S reports allowMixedABI limits) →
      ¬ Refused (compareVariantABIsWithOptions S other allowMixedABI limits) →
      returnedStatus (compareVariantABIsWithOptions S reports allowMixedABI limits) =
          returnedStatus (compareVariantABIsWithOptions S other allowMixedABI limits) ∧
        returnedError (compareVariantABIsWithOptions S reports allowMixedABI limits) =
          returnedError (compareVariantABIsWithOptions S other allowMixedABI limits)) ∧
    (¬ Refused (compareVariantABIsWithOptions S reports false limits) →
      ¬ Refused (compareVariantABIsWithOptions S reports true limits) →
      ∃ report,
        compareVariantABIsWithOptions S reports false limits = .ok (report, none) ∧
          compareVariantABIsWithOptions S reports true limits = .ok (report, none) ∨
        ∃ err, compareVariantABIsWithOptions S reports false limits = .ok (report, some err) ∧
          Err.is err .errABIMismatch = true ∧
          compareVariantABIsWithOptions S reports true limits = .ok ({ report with
            overridden := true
            warnings := report.warnings ++
              report.differences.map fun d => lit "[OVERRIDDEN] " ++ d }, none)) := by
  have returns : ∀ l mixed, ¬ Refused (compareVariantABIsWithOptions S l mixed limits) →
      compareVariantABIsWithOptions S l mixed limits = .ok (verdict S l mixed) :=
    fun l mixed within => (compare_verdict S limits mixed l).resolve_right within
  refine ⟨fun mixed within consistent a memA b memB => ?_, fun mixed other perm within within' => ?_,
    fun within within' => ?_⟩
  · rw [returns _ _ within] at consistent
    obtain ⟨none, certain⟩ := verdict_consistent S (Option.some.inj consistent)
    exact none.agree S (fun r mem => (inspected r mem).discovered S) certain memA memB
  · rw [returns _ _ within, returns _ _ within']
    obtain ⟨status, error⟩ := verdict_perm S perm mixed
    exact ⟨congrArg some status, error⟩
  · rw [returns _ _ within, returns _ _ within']
    unfold verdict
    dsimp only
    by_cases differ : 0 < (differencesOf S reports).length
    · rw [if_pos differ, if_pos differ]
      refine ⟨_, .inr ⟨_, rfl, isMismatch _, ?_⟩⟩
      simp only [if_true, differing, funext overriddenText_eq]
    · rw [if_neg differ, if_neg differ]
      exact ⟨_, .inl ⟨rfl, rfl⟩⟩

end Verdict

section

local instance compareNames : ElfNames := ⟨fun _ => [], fun _ => []⟩

/-- An ELF header with nothing after it. -/
def staticImage : Bytes :=
  [0x7f, 69, 76, 70, 2, 1, 1] ++ List.replicate 9 0 ++ leBytes 2 2 ++ leBytes 2 62 ++ leBytes 4 1 ++
    leBytes 8 0 ++ leBytes 8 0 ++ leBytes 8 0 ++ leBytes 4 0 ++ leBytes 2 64 ++ leBytes 2 56 ++
    leBytes 2 0 ++ leBytes 2 0 ++ leBytes 2 0 ++ leBytes 2 0

/-- The report of an image for a level. -/
def reportFor (image : Bytes) (level : String) : VariantABIReport :=
  match (inspectELFABI insertionSlice image none).1 with
  | .ok (base, _) => { base with level := lit level, path := [] }
  | .error _ => { completeness := .metadataSkipped }

theorem byInspection_reportFor {image : Bytes} {level : String}
    (small : image.length ≤ maxInt64)
    (accepted : (inspectELFABI insertionSlice image none).1.isOk = true) :
    ByInspection insertionSlice (reportFor image level) := by
  unfold reportFor
  cases returned : (inspectELFABI insertionSlice image none).1 with
  | ok r => exact ⟨image, none, r.1, r.2, lit level, [], small, returned, rfl⟩
  | error fault => rw [returned] at accepted; cases accepted

/-- A comparison that was not refused and returned this status, with or without an error. -/
def found (status : ComparisonStatus) (failed : Bool) : Eval Err (ArtifactABIReport × Option Err) → Bool
  | .ok (report, err) => report.status = status && err.isSome = failed &&
      err.all fun err => !Err.is err .errABIResourceLimit
  | .error _ => false

theorem found_spec {status : ComparisonStatus} {failed : Bool} {x : Eval Err (ArtifactABIReport × Option Err)}
    (h : found status failed x = true) :
    ¬ Refused x ∧ returnedStatus x = some status ∧ returnedError x = failed := by
  unfold found at h
  split at h
  · simp only [Bool.and_eq_true, decide_eq_true_eq] at h
    refine ⟨?_, congrArg some h.1.1, h.1.2⟩
    rintro ⟨e, refusal, failed | ⟨other, returned⟩⟩
    · cases failed
    · cases returned
      have clean := h.2
      rw [Option.all_some, show Err.is e .errABIResourceLimit = true from refusal] at clean
      cases clean
  · cases h

/-- Two dynamic images with the same ABI agree; a dynamic and a static one are a mismatch, which
can be overridden. -/
theorem compareVariantABIs_pairwise_dynamic :
    Agree insertionSlice (reportFor backwardImage "v1") (reportFor (backwardImage ++ [0]) "v2") ∧
      ∃ report err, compareVariantABIsWithOptions insertionSlice
          [reportFor backwardImage "v1", reportFor staticImage "v2"] false defaultABILimits = .ok (report, some err) ∧
        Err.is err .errABIMismatch = true ∧
        compareVariantABIsWithOptions insertionSlice
          [reportFor backwardImage "v1", reportFor staticImage "v2"] true defaultABILimits = .ok ({ report with
            overridden := true
            warnings := report.warnings ++
              report.differences.map fun d => lit "[OVERRIDDEN] " ++ d }, none) := by
  have dynamic : ∀ level, ByInspection insertionSlice (reportFor backwardImage level) := fun level =>
    byInspection_reportFor (by decide +kernel) (by decide +kernel)
  have longer : ByInspection insertionSlice (reportFor (backwardImage ++ [0]) "v2") :=
    byInspection_reportFor (by decide +kernel) (by decide +kernel)
  have static : ByInspection insertionSlice (reportFor staticImage "v2") :=
    byInspection_reportFor (by decide +kernel) (by decide +kernel)
  have pair : ∀ r, ByInspection insertionSlice r →
      ∀ q ∈ [reportFor backwardImage "v1", r], ByInspection insertionSlice q := fun r inspected =>
    List.forall_mem_cons.mpr ⟨dynamic "v1", List.forall_mem_cons.mpr ⟨inspected, List.forall_mem_nil _⟩⟩
  have same := found_spec (show found .comparisonConsistent false (compareVariantABIsWithOptions insertionSlice
    [reportFor backwardImage "v1", reportFor (backwardImage ++ [0]) "v2"] false defaultABILimits) = true by
      decide +kernel)
  have mixed := found_spec (show found .comparisonInconsistent true (compareVariantABIsWithOptions insertionSlice
    [reportFor backwardImage "v1", reportFor staticImage "v2"] false defaultABILimits) = true by decide +kernel)
  have allowed := found_spec (show found .comparisonInconsistent false (compareVariantABIsWithOptions insertionSlice
    [reportFor backwardImage "v1", reportFor staticImage "v2"] true defaultABILimits) = true by decide +kernel)
  refine ⟨(compareVariantABIs_pairwise insertionSlice defaultABILimits _ (pair _ longer)).1 false same.1 same.2.1 _
    (by simp) _ (by simp), ?_⟩
  obtain ⟨report, ⟨clean, -⟩ | ⟨err, mismatch⟩⟩ :=
    (compareVariantABIs_pairwise insertionSlice defaultABILimits _ (pair _ static)).2.2 mixed.1 allowed.1
  · have failed := mixed.2.2
    rw [clean] at failed
    cases failed
  · exact ⟨report, err, mismatch⟩

end

end Microfat.Pack
