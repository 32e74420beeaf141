/-
# Microfat.Pack.AbiLedger — what an inspection spends

An inspection charges its input's accounts and the account it shares with the other
inputs of an artifact, and asks its reader for bytes.  `Inv start c` is what holds at
every moment of it: the accounts are within their limits, the shared account has grown
by exactly what the input has read, no refund was larger than what it was taken from,
and the bytes requested are covered by metadata bytes that are not scan bytes, with
`c` bytes charged and not yet asked for.  A charge adds to that credit and a read
spends it; one read, of the section count in section header zero, spends the eight
bytes an inspection starts with.

`inspectSequence_budgets` puts the inspections of an artifact one after the other.
-/
import Microfat.Pack.AbiScan
import Microfat.Pack.AbiVersions

namespace Microfat.Pack

open Theory

set_option autoImplicit false

/-! ## The invariant -/

namespace InputAccounting

/-- The accounts of an input that started as `start`. -/
structure Within (start acc : InputAccounting) : Prop where
  configured : { acc with
    shared := start.shared
    metadataBytesRead := start.metadataBytesRead
    stringScanBytesRead := start.stringScanBytesRead
    retainedStringBytes := start.retainedStringBytes
    versionRecords := start.versionRecords } = start
  metadata : acc.metadataBytesRead ≤ acc.metadataLimit
  retained : acc.retainedStringBytes ≤ acc.stringLimit
  records : acc.versionRecords ≤ acc.versionRecordLimit
  scan : acc.stringScanBytesRead ≤ acc.metadataBytesRead
  shared : acc.shared = start.shared.map fun a => { a with usedBytes := a.usedBytes + acc.metadataBytesRead }
  aggregate : ∀ a ∈ acc.shared, a.usedBytes ≤ a.maxBytes.toNat

/-- A refund of `n` bytes takes from every account no more than it holds. -/
structure Unclamped (acc : InputAccounting) (n : Nat) : Prop where
  scan : n ≤ acc.stringScanBytesRead
  metadata : n ≤ acc.metadataBytesRead
  shared : ∀ a ∈ acc.shared, n ≤ a.usedBytes

end InputAccounting

/-- What holds of a ledger with `c` bytes charged and not yet asked for. -/
structure Ledger.Inv (start : InputAccounting) (c : Nat) (s : Ledger) : Prop where
  within : start.Within s.acc
  paid : s.requested + s.acc.stringScanBytesRead + c ≤ s.acc.metadataBytesRead + 8
  past : ∀ h ∈ s.history, start.Within h.1 ∧ h.2 ≤ h.1.metadataBytesRead + 8
  refunds : ∀ r ∈ s.refunds, r.2.Unclamped r.1

variable {acc : InputAccounting} {n : Nat}

namespace Ledger.Inv

variable {start : InputAccounting} {c c' : Nat} {s : Ledger}

section

variable (inv : Inv start c s)

include inv

theorem mono (less : c' ≤ c) : Inv start c' s :=
  ⟨inv.within, by have := inv.paid; omega, inv.past, inv.refunds⟩

theorem spent : Inv start 0 s := inv.mono (Nat.zero_le c)

/-- The moment before a step goes to the history. -/
theorem remembered : ∀ h ∈ (s.acc, s.requested) :: s.history,
    start.Within h.1 ∧ h.2 ≤ h.1.metadataBytesRead + 8 := by
  have paid := inv.paid
  exact List.forall_mem_cons.mpr ⟨⟨inv.within, by dsimp only; omega⟩, inv.past⟩

theorem enter (within : start.Within acc)
    (paid : s.requested + acc.stringScanBytesRead + c' ≤ acc.metadataBytesRead + 8) :
    Inv start c' (s.enter acc) :=
  ⟨within, paid, inv.remembered, inv.refunds⟩

end

theorem request (inv : Inv start (c + n) s) : Inv start c (s.request n) := by
  have paid := inv.paid
  refine ⟨inv.within, ?_, inv.remembered, inv.refunds⟩
  change s.requested + n + s.acc.stringScanBytesRead + c ≤ s.acc.metadataBytesRead + 8
  omega

end Ledger.Inv

open Metered

/-- The code keeps the invariant and whatever credit it finds. -/
def Keeps {α : Type} (start : InputAccounting) (m : Inspection α) : Prop :=
  ∀ c, Triple (Ledger.Inv start c) m (fun _ => Ledger.Inv start c) (Ledger.Inv start 0)

section Rules

variable {α β : Type} {start : InputAccounting}

theorem keeps_pure (a : α) : Keeps start (pure a : Inspection α) :=
  fun _ => triple_pure fun _ inv => inv

theorem Keeps.bind {m : Inspection α} {f : α → Inspection β} (head : Keeps start m)
    (tail : ∀ a, Keeps start (f a)) : Keeps start (m >>= f) :=
  fun c => (head c).bind fun a => tail a c

theorem keeps_lift (x : Eval Err α) : Keeps start (lift x : Inspection α) :=
  fun _ => triple_lift fun _ inv => inv.spent

theorem Keeps.lift {x : Eval Err α} {f : α → Inspection β} (tail : ∀ a, Keeps start (f a)) :
    Keeps start (Metered.lift x >>= f) :=
  (keeps_lift x).bind tail

/-- A step that touches no account, and what its value is known for. -/
theorem lift_bind {x : Eval Err α} {f : α → Inspection β} {c : Nat} {Q : β → Ledger → Prop}
    (tail : ∀ a, x = .ok a → Triple (Ledger.Inv start c) (f a) Q (Ledger.Inv start 0)) :
    Triple (Ledger.Inv start c) (Metered.lift x >>= f) Q (Ledger.Inv start 0) :=
  triple_lift_bind (fun _ inv => inv.spent) tail

theorem keeps_ite {p : Prop} [Decidable p] {m n : Inspection α} (yes : Keeps start m) (no : Keeps start n) :
    Keeps start (if p then m else n) :=
  fun c => triple_ite (fun _ => yes c) fun _ => no c

end Rules

/-! ## Charges -/

section Charges

variable {start : InputAccounting}

/-- A charge keeps the invariant when the accounts that can pay it do. -/
theorem Charges.triple {m : Inspection Unit} {pays : InputAccounting → Prop}
    {after : InputAccounting → InputAccounting} {c : Nat} {Q : Ledger → Prop} (charges : Charges m pays after)
    (step : ∀ s, Ledger.Inv start c s → pays s.acc → Q (s.enter (after s.acc))) :
    Triple (Ledger.Inv start c) m (fun _ => Q) (Ledger.Inv start 0) := by
  obtain ⟨f, rfl, ends⟩ := charges
  refine triple_charge (fun _ inv => inv.spent) fun s t inv paid => ?_
  obtain ⟨acc', changed, entered⟩ := Eval.bind_ok paid
  cases entered
  obtain ⟨able, rfl⟩ := (ends s.acc).returns changed
  exact step s inv able

namespace InputAccounting

theorem Within.charged (within : start.Within acc) (pays : acc.Pays n) : start.Within (acc.charged n) where
  configured := within.configured
  metadata := pays.input
  retained := within.retained
  records := within.records
  scan := within.scan.trans (Nat.le_add_right _ _)
  shared := by
    simp only [InputAccounting.charged, within.shared, Option.map_map, Function.comp_def, Nat.add_assoc]
  aggregate := by
    intro a mem
    obtain ⟨a', mem', rfl⟩ := Option.mem_map.mp mem
    exact pays.shared a' mem'

end InputAccounting

/-- A charge is credit for a later read. -/
theorem chargeMetadata_triple (c n : Nat) :
    Triple (Ledger.Inv start c) (chargeMetadata n) (fun _ => Ledger.Inv start (c + n)) (Ledger.Inv start 0) := by
  refine (chargeMetadata_charges n).triple fun s inv pays => inv.enter (inv.within.charged pays) ?_
  have paid := inv.paid
  change s.requested + s.acc.stringScanBytesRead + (c + n) ≤ s.acc.metadataBytesRead + n + 8
  omega

theorem chargeMetadata_keeps (n : Nat) : Keeps start (chargeMetadata n) := fun c =>
  (chargeMetadata_triple c n).mono (fun _ inv => inv) fun _ _ inv => inv.mono (Nat.le_add_right c n)

theorem reading_triple (c n : Nat) (x : Eval Err Bytes) :
    Triple (Ledger.Inv start (c + n)) (reading n x) (fun a s => Ledger.Inv start c s ∧ x = .ok a)
      (Ledger.Inv start 0) := by
  intro s inv
  unfold reading
  split
  · exact ⟨nofun, fun _ _ => inv.spent⟩
  · exact ⟨fun a same => ⟨inv.request, same⟩, fun _ _ => inv.request.spent⟩

/-- A read spends the credit of a charge before it. -/
theorem reading_bind {β : Type} {c : Nat} {x : Eval Err Bytes} {rest : Bytes → Inspection β}
    {Q : β → Ledger → Prop}
    (tail : ∀ buf, x = .ok buf → Triple (Ledger.Inv start c) (rest buf) Q (Ledger.Inv start 0)) :
    Triple (Ledger.Inv start (c + n)) (reading n x >>= rest) Q (Ledger.Inv start 0) := by
  refine (reading_triple c n x).bind fun buf s held => ?_
  exact tail buf held.2 s held.1

theorem requireMetadata_keeps (n : Nat) : Keeps start (requireMetadata n) := fun _ =>
  (requireMetadata_charges n).triple fun _ inv _ => inv.enter inv.within inv.paid

theorem chargeString_keeps (n : Nat) : Keeps start (chargeString n) := fun _ =>
  (chargeString_charges n).triple fun _ inv fits => inv.enter ⟨inv.within.configured, inv.within.metadata, fits,
    inv.within.records, inv.within.scan, inv.within.shared, inv.within.aggregate⟩ inv.paid

theorem chargeVersionRecord_keeps : Keeps start chargeVersionRecord := fun _ =>
  chargeVersionRecord_charges.triple fun _ inv below => inv.enter ⟨inv.within.configured, inv.within.metadata,
    inv.within.retained, below, inv.within.scan, inv.within.shared, inv.within.aggregate⟩ inv.paid

/-- A scan charge, which is no credit: what it charges it may give back. -/
theorem chargeStringScan_triple (c n : Nat) :
    Triple (Ledger.Inv start c) (chargeStringScan n)
      (fun _ s => Ledger.Inv start c s ∧ n ≤ s.acc.stringScanBytesRead) (Ledger.Inv start 0) := by
  refine (chargeStringScan_charges n).triple fun s inv room => ?_
  have within := inv.within.charged ⟨room.input, room.shared⟩
  have paid := inv.paid
  have scan := inv.within.scan
  refine ⟨inv.enter ⟨within.configured, within.metadata, within.retained, within.records, ?_, within.shared,
    within.aggregate⟩ ?_, ?_⟩
  · change s.acc.stringScanBytesRead + n ≤ s.acc.metadataBytesRead + n
    omega
  · change s.requested + (s.acc.stringScanBytesRead + n) + c ≤ s.acc.metadataBytesRead + n + 8
    omega
  · exact Nat.le_add_left _ _

theorem chargeStringScan_keeps (n : Nat) : Keeps start (chargeStringScan n) := fun c =>
  (chargeStringScan_triple c n).mono (fun _ inv => inv) fun _ _ inv => inv.1

namespace InputAccounting

section

variable (within : start.Within acc) (scanned : n ≤ acc.stringScanBytesRead)

include within scanned

/-- Nothing is clamped when the scan account can pay the refund. -/
theorem Within.unclamped : acc.Unclamped n := by
  have scan := within.scan
  refine ⟨scanned, by omega, fun a mem => ?_⟩
  rw [within.shared] at mem
  obtain ⟨a', -, rfl⟩ := Option.mem_map.mp mem
  dsimp only
  omega

theorem Within.refunded : start.Within (acc.refundAllStringScan n) := by
  obtain ⟨-, metadata, -⟩ := within.unclamped scanned
  have exact : acc.refundAllStringScan n = { acc with
      stringScanBytesRead := acc.stringScanBytesRead - n
      metadataBytesRead := acc.metadataBytesRead - n
      shared := acc.shared.map (·.refund n) } := by
    rw [refundAllStringScan, if_neg (by omega), if_neg (by omega)]
  rw [exact]
  refine ⟨within.configured, (Nat.sub_le _ _).trans within.metadata, within.retained, within.records,
    Nat.sub_le_sub_right within.scan n, ?_, fun a mem => ?_⟩
  · rw [within.shared]
    simp only [Option.map_map]
    refine congrArg (Option.map · start.shared) (funext fun a => ?_)
    simp only [Function.comp_apply, ArtifactMetadataAccounting.refund]
    rw [if_neg (by omega), Nat.add_sub_assoc metadata]
  · obtain ⟨a', mem', rfl⟩ := Option.mem_map.mp mem
    have aggregate := within.aggregate a' mem'
    simp only [ArtifactMetadataAccounting.refund]
    split <;> omega

end

end InputAccounting

theorem refundStringScan_triple (c n : Nat) :
    Triple (fun s => Ledger.Inv start c s ∧ n ≤ s.acc.stringScanBytesRead) (refundStringScan n)
      (fun _ => Ledger.Inv start c) (Ledger.Inv start 0) := by
  refine triple_charge (fun _ held => held.1.spent) fun s t held paid => ?_
  obtain ⟨inv, scanned⟩ := held
  have unclamped := inv.within.unclamped scanned
  cases paid
  have entered : Ledger.Inv start c (s.enter (s.acc.refundAllStringScan n)) := by
    refine inv.enter (inv.within.refunded scanned) ?_
    have paid := inv.paid
    have metadata := unclamped.metadata
    simp only [InputAccounting.refundAllStringScan]
    rw [if_neg (by omega), if_neg (by omega)]
    omega
  exact ⟨entered.within, entered.paid, entered.past, List.forall_mem_cons.mpr ⟨unclamped, inv.refunds⟩⟩

end Charges

/-! ## Strings -/

section Strings

variable {start : InputAccounting}

/-- A round of the loop with its chunk paid for: a refund is at most that chunk. -/
theorem scanString_keeps {strtab : Bytes} : ∀ left curr scanned, strtab.length - curr ≤ left →
    Keeps start (scanString strtab curr scanned) := by
  intro left
  induction left with
  | zero =>
    intro curr scanned bound
    rw [scanString, dif_neg (by omega)]
    exact keeps_pure _
  | succ left ih =>
    intro curr scanned bound
    rw [scanString]
    split
    · rename_i inTable
      refine .lift fun avail => ?_
      refine Keeps.bind ((fun c => ?_ : Keeps start accounts)) fun acc => ?_
      · exact fun s inv => ⟨fun _ _ => inv, fun _ failed => by cases failed⟩
      dsimp only
      split
      · exact (chargeStringScan_keeps 1).bind fun _ => keeps_pure _
      · rename_i some
        intro c
        generalize acc.scanAllowance (min stringScanChunkSize avail) = toCharge at some ⊢
        refine (chargeStringScan_triple c toCharge).bind fun _ => ?_
        have weaken : ∀ s : Ledger, Ledger.Inv start c s ∧ toCharge ≤ s.acc.stringScanBytesRead →
            Ledger.Inv start 0 s := fun s held => held.1.spent
        refine triple_lift_bind weaken fun stop _ => triple_lift_bind weaken fun chunk _ => ?_
        split
        · refine Triple.bind (R := fun _ => Ledger.Inv start c) ?_ fun _ =>
            (Keeps.lift fun _ => keeps_pure _) c
          refine triple_ite (fun _ => ?_) fun _ => triple_pure fun s held => held.1
          exact (refundStringScan_triple c _).mono (fun s held => ⟨held.1, by have := held.2; omega⟩)
            fun _ _ inv => inv
        · refine Triple.mono (P := Ledger.Inv start c) ?_ (fun s held => held.1) fun _ _ inv => inv
          refine (.lift fun sum => ?_ : Keeps start _) c
          exact keeps_ite ((chargeStringScan_keeps 1).bind fun _ => keeps_pure _) (ih _ _ (by omega))
    · exact keeps_pure _

theorem scanBoundedCString_keeps (strtab : Bytes) (off : Nat) (fieldName : String) (requireNonEmpty : Bool) :
    Keeps start (scanBoundedCString strtab off fieldName requireNonEmpty) := by
  refine .lift fun _ => (scanString_keeps _ off 0 le_rfl).bind fun result => ?_
  cases result with
  | gaveUp => exact keeps_pure _
  | unterminated => exact keeps_lift _
  | found strLen =>
    exact .lift fun _ => (chargeString_keeps _).bind fun _ =>
      .lift fun _ => keeps_lift _

end Strings

/-! ## The functions of the inspection -/

section Functions

variable {start : InputAccounting}

theorem neededNames_keeps (strtab : Bytes) : ∀ offs, Keeps start (neededNames strtab offs) := by
  intro offs
  induction offs with
  | nil => exact keeps_pure _
  | cons off offs ih =>
    exact (scanBoundedCString_keeps _ _ _ _).bind fun _ => ih.bind fun _ => keeps_pure _

theorem parseNeededDependencies_keeps (strtab : Bytes) (strtabSize : Nat) (neededOffsets : List Nat) :
    Keeps start (parseNeededDependencies strtab strtabSize neededOffsets) :=
  .lift fun _ => .lift fun _ => neededNames_keeps _ _

section

variable (image : Bytes)

theorem resolveDynamicStrtabReaderAt_keeps (loads : List LoadSegment) (fileSize : Nat) (tags : DynamicTags) :
    Keeps start (resolveDynamicStrtabReaderAt image loads fileSize tags) := by
  refine keeps_ite (keeps_pure _) ?_
  refine .lift fun _ => .lift fun _ => fun c => ?_
  refine (chargeMetadata_triple c _).bind fun _ => lift_bind fun off _ => ?_
  exact (reading_triple c _ _).mono (fun _ inv => inv) fun _ _ held => held.1

section

variable (order : ByteOrder) (w : Window)

/-- The auxiliary chain: each record is charged, then read.  Induction on the records left. -/
theorem vernauxChain_keeps (vnCnt parentVerneedOff : Nat) (libName strtab : Bytes) :
    ∀ left auxIdx curr visited reqs,
      Keeps start (vernauxChain image order w vnCnt parentVerneedOff libName strtab left auxIdx curr visited
        reqs) := by
  intro left
  induction left with
  | zero => exact fun _ _ _ _ => keeps_pure _
  | succ left ih =>
    intro auxIdx curr visited reqs
    refine chargeVersionRecord_keeps.bind fun _ c => ?_
    refine (chargeMetadata_triple c _).bind fun _ => ?_
    refine lift_bind fun _ _ => lift_bind fun _ _ =>
      lift_bind fun _ _ => lift_bind fun _ _ =>
      lift_bind fun _ _ => reading_bind fun buf _ => ?_
    refine (.lift fun _ => .lift fun _ => .lift fun _ =>
      (scanBoundedCString_keeps _ _ _ _).bind fun _ => .lift fun _ =>
      .lift fun _ => ih _ _ _ _ : Keeps start _) c

theorem auxRecords_keeps (vnCnt vnAux currVerneedOff : Nat) (libName strtab : Bytes)
    (reqs : List VersionRequirement) :
    Keeps start (auxRecords image order w vnCnt vnAux currVerneedOff libName strtab reqs) :=
  keeps_ite (keeps_pure _) (.lift fun _ => .lift fun _ =>
    vernauxChain_keeps _ _ _ _ _ _ _ _ _ _ _ _)

theorem unsupportedVerneed_keeps (report : VariantABIReport) (vnVersion : Nat) :
    Keeps start (unsupportedVerneed report vnVersion) :=
  (chargeString_keeps _).bind fun _ => keeps_pure _

theorem verneedChain_keeps (verneedNum : Nat) (strtab : Bytes) :
    ∀ left recordIdx curr records report,
      Keeps start (verneedChain image order w verneedNum strtab left recordIdx curr records report) := by
  intro left
  induction left with
  | zero => exact fun _ _ _ _ => keeps_pure _
  | succ left ih =>
    intro recordIdx curr records report
    refine chargeVersionRecord_keeps.bind fun _ c => ?_
    refine (chargeMetadata_triple c _).bind fun _ => ?_
    refine lift_bind fun _ _ => lift_bind fun _ _ =>
      reading_bind fun buf _ => ?_
    refine (.lift fun vnVersion => ?_ : Keeps start _) c
    refine keeps_ite ((unsupportedVerneed_keeps _ _).bind fun _ => keeps_pure _) ?_
    exact .lift fun _ => .lift fun _ => .lift fun _ =>
      .lift fun _ => .lift fun _ =>
      (scanBoundedCString_keeps _ _ _ _).bind fun _ => (auxRecords_keeps _ _ _ _ _ _ _ _ _).bind fun _ =>
      .lift fun _ => ih _ _ _ _

end

theorem parseVerneedReaderAt_keeps (loads : List LoadSegment) (fileSize : Nat) (order : ByteOrder)
    (verneedVaddr verneedNum : Nat) (strtab : Bytes) (report : VariantABIReport) :
    Keeps start (parseVerneedReaderAt image loads fileSize order verneedVaddr verneedNum strtab report) := by
  refine .lift fun _ => ?_
  refine (keeps_ite (requireMetadata_keeps _) (keeps_pure _)).bind fun _ => ?_
  refine .lift fun _ => .lift fun _ => ?_
  refine (verneedChain_keeps _ _ _ _ _ _ _ _ _ _).bind fun r => ?_
  exact keeps_ite (keeps_pure _) (keeps_pure _)

theorem parseDynamicMetadataReaderAt_keeps (dynamicProg : LoadSegment) (loads : List LoadSegment)
    (fileSize : Nat) (order : ByteOrder) (report : VariantABIReport) :
    Keeps start (parseDynamicMetadataReaderAt image dynamicProg loads fileSize order report) := by
  refine .lift fun _ => .lift fun _ c => ?_
  refine (chargeMetadata_triple c _).bind fun _ => reading_bind fun dynBytes _ => ?_
  refine (.lift fun tags => .lift fun _ =>
    (resolveDynamicStrtabReaderAt_keeps _ _ _ _).bind fun strtab =>
    (parseNeededDependencies_keeps _ _ _).bind fun deps => ?_ : Keeps start _) c
  refine keeps_ite (keeps_ite (keeps_pure _) ?_) (keeps_pure _)
  exact .lift fun _ => (parseVerneedReaderAt_keeps _ _ _ _ _ _ _ _).bind fun _ => keeps_pure _

theorem parseInterpreter_keeps (interpProg : LoadSegment) :
    Keeps start (parseInterpreter image interpProg) := by
  intro c
  refine (chargeMetadata_triple c _).bind fun _ => reading_bind fun raw _ => ?_
  split
  · exact keeps_lift _ c
  · exact (.lift fun _ => (chargeString_keeps _).bind fun _ => keeps_lift _ : Keeps start _) c

theorem withInterpreter_keeps (found : ProgramHeaders) (report : VariantABIReport) :
    Keeps start (withInterpreter image found report) := by
  unfold withInterpreter
  split
  · exact keeps_pure _
  · exact (parseInterpreter_keeps _ _).bind fun _ => keeps_pure _

theorem withDynamicMetadata_keeps (fileSize : Nat) (order : ByteOrder) (found : ProgramHeaders)
    (report : VariantABIReport) :
    Keeps start (withDynamicMetadata image fileSize order found report) := by
  unfold withDynamicMetadata
  split
  · exact keeps_pure _
  · exact parseDynamicMetadataReaderAt_keeps _ _ _ _ _ _

end

end Functions

/-! ## Headers -/

section Headers

variable {start : InputAccounting}

theorem readIntoAt_length {image buf : Bytes} {size off : Nat} (read : readIntoAt image size off = .ok buf) :
    buf.length = size := by
  unfold readIntoAt at read
  split at read
  · rename_i none
    cases read
    rw [none]
    rfl
  · obtain ⟨_, -, sliced⟩ := Eval.bind_ok read
    obtain ⟨rfl, -, inside⟩ := slice_eq_ok sliced
    rw [List.length_take, List.length_drop]
    omega

/-- The program header table is charged here and read later. -/
theorem validateProgramHeaderTable_triple (c fileSize ePhoff ePhentsize ePhnum : Nat) :
    Triple (Ledger.Inv start c) (validateProgramHeaderTable fileSize ePhoff ePhentsize ePhnum)
      (fun _ => Ledger.Inv start (c + ePhnum * ePhentsize)) (Ledger.Inv start 0) := by
  refine lift_bind fun _ _ => triple_ite (fun none => ?_) fun _ => ?_
  · refine triple_pure fun s inv => ?_
    rwa [none, Nat.zero_mul, Nat.add_zero]
  · refine lift_bind fun _ _ => lift_bind fun _ _ =>
      lift_bind fun tableSize product => lift_bind fun _ _ =>
      lift_bind fun _ _ => ?_
    rw [Nat.mul_comm ePhnum, ← mulU64_eq_ok product]
    exact chargeMetadata_triple c tableSize

section

variable (c : Nat) (image : Bytes) (order : ByteOrder)

/-- The section count in section header zero is read without a charge. -/
theorem validateExtendedSections_triple (fileSize eShoff eShentsize : Nat) :
    Triple (Ledger.Inv start (c + 8)) (validateExtendedSections image order fileSize eShoff eShentsize)
      (fun _ => Ledger.Inv start c) (Ledger.Inv start 0) := by
  refine lift_bind fun _ _ => lift_bind fun _ _ =>
    lift_bind fun _ _ => reading_bind fun buf _ => ?_
  refine (.lift fun real => .lift fun _ => keeps_ite (keeps_pure _) ?_ :
    Keeps start _) c
  exact .lift fun _ => .lift fun _ => .lift fun _ =>
    chargeMetadata_keeps _

theorem validateSectionHeaderTableReaderAt_triple (fileSize eShoff eShentsize eShnum : Nat) :
    Triple (Ledger.Inv start (c + 8))
      (validateSectionHeaderTableReaderAt image order fileSize eShoff eShentsize eShnum)
      (fun _ => Ledger.Inv start c) (Ledger.Inv start 0) := by
  refine triple_ite (fun _ => triple_pure fun _ inv => inv.mono (by omega)) fun _ => ?_
  refine lift_bind fun _ _ => lift_bind fun _ _ => ?_
  refine triple_ite (fun _ => validateExtendedSections_triple c _ _ _ _ _) fun _ => ?_
  refine Triple.mono (P := Ledger.Inv start c) ?_ (fun _ inv => inv.mono (by omega)) fun _ _ inv => inv
  exact (.lift fun _ => .lift fun _ => .lift fun _ =>
    chargeMetadata_keeps _ : Keeps start _) c

end

/-- The bytes of the program header table a header announces. -/
def tableBytes (header : Bytes) : Nat := headerField header 56 58 * headerField header 54 56

theorem preflight_triple (image : Bytes) (fileSize : Nat) :
    Triple (Ledger.Inv start 8) (preflightELFHeadersReaderAtWithAccounting image fileSize)
      (fun header s => Ledger.Inv start (tableBytes header) s ∧ header.length = 64) (Ledger.Inv start 0) := by
  refine lift_bind fun _ _ => (chargeMetadata_triple 8 _).bind fun _ => ?_
  refine reading_bind fun header read => ?_
  have width : header.length = 64 := readIntoAt_length read
  refine lift_bind fun order accepted => ?_
  obtain rfl := (validateELFHeaderMagicAndEncoding_yields width).2 order accepted
  have reads {lo hi : Nat} := @headerField_yields lo hi header width
  refine lift_bind fun _ _ => lift_bind fun _ _ =>
    lift_bind fun _ _ => lift_bind fun ePhentsize entry =>
    lift_bind fun ePhnum count => ?_
  rw [((reads (by decide)).2 _ entry).1, ((reads (by decide)).2 _ count).1]
  refine (validateProgramHeaderTable_triple 8 _ _ _ _).bind fun _ => ?_
  refine lift_bind fun _ _ => lift_bind fun _ _ =>
    lift_bind fun _ _ => ?_
  rw [Nat.add_comm 8]
  exact (validateSectionHeaderTableReaderAt_triple (tableBytes header) _ _ _ _ _ _).bind fun _ =>
    triple_pure fun _ inv => ⟨inv, width⟩

variable [ElfNames] (S : SliceSort)

theorem inspectELFABIReaderAtWithAccounting_triple (image : Bytes) (fileSize : Nat) {header : Bytes}
    (width : header.length = 64) :
    Triple (Ledger.Inv start (tableBytes header))
      (inspectELFABIReaderAtWithAccounting S image fileSize header)
      (fun _ => Ledger.Inv start 0) (Ledger.Inv start 0) := by
  unfold inspectELFABIReaderAtWithAccounting
  rw [if_neg (by rw [width]; decide)]
  change Triple _ (Metered.lift (byteAt header 5) >>= _) _ _
  refine lift_bind fun encoding here => ?_
  dsimp only
  rw [headerOrder_eq ((byteAt_yields (by omega)).2 encoding here)]
  have reads {lo hi : Nat} := @headerField_yields lo hi header width
  refine lift_bind fun _ _ => lift_bind fun _ _ =>
    lift_bind fun _ _ => lift_bind fun ePhentsize entry =>
    lift_bind fun ePhnum count => ?_
  rw [((reads (by decide)).2 _ entry).1, ((reads (by decide)).2 _ count).1, ← tableBytes]
  refine Triple.mono (reading_bind (c := 0) fun phTable _ => ?_) (fun _ inv => by rwa [Nat.zero_add])
    fun _ _ inv => inv
  exact (.lift fun found => (withInterpreter_keeps _ _ _).bind fun _ =>
    (withDynamicMetadata_keeps _ _ _ _ _).bind fun _ => keeps_pure _ : Keeps start _) 0

/-- **An inspection keeps its ledger.** -/
theorem inspectImage_triple (image : Bytes) :
    Triple (Ledger.Inv start 8) (inspectImage S image) (fun _ => Ledger.Inv start 0) (Ledger.Inv start 0) := by
  refine (preflight_triple image image.length).bind fun header s held => ?_
  exact inspectELFABIReaderAtWithAccounting_triple S image image.length held.2 s held.1

end Headers

/-! ## The inspections of an artifact -/

/-- The limits configured for an input; zero stands for the default. -/
structure InputLimits where
  maxMetadataBytes : UInt64 := 0
  maxStringBytes : UInt64 := 0
  maxStringScanBytes : UInt64 := 0
  maxVersionRecords : UInt64 := 0

def InputLimits.start (limits : InputLimits) (shared : ArtifactMetadataAccounting) : InputAccounting where
  shared := some shared
  maxMetadataBytes := limits.maxMetadataBytes
  maxStringBytes := limits.maxStringBytes
  maxStringScanBytes := limits.maxStringScanBytes
  maxVersionRecords := limits.maxVersionRecords

def newArtifactMetadataAccounting (maxBytes : UInt64) : ArtifactMetadataAccounting where
  maxBytes := if maxBytes = 0 then UInt64.ofNat maxArtifactMetadataBytes else maxBytes

section Sequence

variable [ElfNames] (S : SliceSort)

/-- Inspections one after the other, each with accounts of its own and all with the same
shared account, whatever their outcomes. -/
def inspectSequence : ArtifactMetadataAccounting → List (InputLimits × Bytes) →
    List (Eval Err (VariantABIReport × Option VersionTrace) × Ledger)
  | _, [] => []
  | shared, (limits, image) :: inputs =>
    let run := inspectImage S image { acc := limits.start shared }
    run :: inspectSequence (run.2.acc.shared.getD shared) inputs

/-- The budgets at one moment of an inspection, after inspections that read `earlier` bytes. -/
structure Budgeted (limits : InputLimits) (maxBytes : UInt64) (earlier : Nat) (acc : InputAccounting)
    (requested : Nat) : Prop where
  metadata : acc.metadataBytesRead ≤ limitOr limits.maxMetadataBytes maxMetadataBytesPerInput
  retained : acc.retainedStringBytes ≤ limitOr limits.maxStringBytes maxABIStringBytesPerInput
  records : acc.versionRecords ≤ limitOr limits.maxVersionRecords maxVersionRecordsPerInput
  shared : ∃ a, acc.shared = some a ∧ a.maxBytes = maxBytes ∧ a.usedBytes ≤ maxBytes.toNat ∧
    a.usedBytes = earlier + acc.metadataBytesRead
  requested : requested ≤ acc.metadataBytesRead + 8

variable {shared : ArtifactMetadataAccounting}

omit [ElfNames] in
theorem Budgeted.of_within {limits : InputLimits} {requested : Nat}
    (within : (limits.start shared).Within acc) (paid : requested ≤ acc.metadataBytesRead + 8) :
    Budgeted limits shared.maxBytes shared.usedBytes acc requested := by
  have metadata : acc.maxMetadataBytes = limits.maxMetadataBytes :=
    congrArg InputAccounting.maxMetadataBytes within.configured
  have strings : acc.maxStringBytes = limits.maxStringBytes :=
    congrArg InputAccounting.maxStringBytes within.configured
  have records : acc.maxVersionRecords = limits.maxVersionRecords :=
    congrArg InputAccounting.maxVersionRecords within.configured
  have account : acc.shared = some { shared with usedBytes := shared.usedBytes + acc.metadataBytesRead } :=
    within.shared
  refine ⟨?_, ?_, ?_, ⟨_, account, rfl, within.aggregate _ account, rfl⟩, paid⟩
  · rw [← metadata]
    exact within.metadata
  · rw [← strings]
    exact within.retained
  · rw [← records]
    exact within.records

section

variable (fits : shared.usedBytes ≤ shared.maxBytes.toNat) (limits : InputLimits)

include fits limits

omit [ElfNames] in
theorem InputLimits.inv_start :
    Ledger.Inv (limits.start shared) 8 { acc := limits.start shared } where
  within := ⟨rfl, Nat.zero_le _, Nat.zero_le _, Nat.zero_le _, le_rfl, rfl, by rintro a ⟨⟩; exact fits⟩
  paid := le_rfl
  past := nofun
  refunds := nofun

/-- One inspection that shares its account, from the first moment to the last. -/
theorem inspectImage_inv (image : Bytes) :
    Ledger.Inv (limits.start shared) 0 (inspectImage S image { acc := limits.start shared }).2 := by
  have outcome := inspectImage_triple S image _ (limits.inv_start fits)
  cases returned : (inspectImage S image { acc := limits.start shared }).1 with
  | ok report => exact outcome.1 report returned
  | error fault => exact outcome.2 fault returned

end

/-- The bytes of metadata a run read. -/
def readBytes (run : Eval Err (VariantABIReport × Option VersionTrace) × Ledger) : Nat :=
  run.2.acc.metadataBytesRead

theorem inspectSequence_budgeted : ∀ (inputs : List (InputLimits × Bytes)) (shared : ArtifactMetadataAccounting),
    shared.usedBytes ≤ shared.maxBytes.toNat → ∀ i limits image run, inputs[i]? = some (limits, image) →
      (inspectSequence S shared inputs)[i]? = some run →
      (∀ moment ∈ (run.2.acc, run.2.requested) :: run.2.history,
        Budgeted limits shared.maxBytes
          (shared.usedBytes + (((inspectSequence S shared inputs).take i).map readBytes).sum) moment.1 moment.2) ∧
      ∀ refund ∈ run.2.refunds, refund.2.Unclamped refund.1 := by
  intro inputs
  induction inputs with
  | nil => nofun
  | cons input inputs ih =>
    obtain ⟨limits, image⟩ := input
    intro shared fits i limits' image' run input here
    have inv := inspectImage_inv S fits limits image
    have moments := inv.remembered
    cases i with
    | zero =>
      cases input
      cases here
      refine ⟨fun moment mem => ?_, inv.refunds⟩
      obtain ⟨within, paid⟩ := moments moment mem
      exact Budgeted.of_within within paid
    | succ i =>
      -- the account the next inspection finds is the one this inspection left
      obtain ⟨last, -⟩ := moments _ List.mem_cons_self
      obtain ⟨a, account, sameLimit, below, used⟩ :=
        (Budgeted.of_within last (moments _ List.mem_cons_self).2).shared
      have next : (inspectImage S image { acc := limits.start shared }).2.acc.shared.getD shared = a := by
        rw [account]
        rfl
      rw [inspectSequence, next] at here ⊢
      rw [List.getElem?_cons_succ] at input here
      have rest := ih a (by rw [sameLimit]; exact below) i limits' image' run input here
      rw [sameLimit, used] at rest
      rw [List.take_succ_cons, List.map_cons, List.sum_cons, ← Nat.add_assoc]
      exact rest

/-- **The metadata budgets of an artifact.**  At every moment of every inspection the
input's accounts are within its limits, the shared account is within its limit and is
the sum of what the inputs have read, and the bytes asked of the reader exceed the
input's metadata bytes by at most the eight of section header zero; no refund takes
more than is there. -/
theorem inspectSequence_budgets (maxBytes : UInt64) (inputs : List (InputLimits × Bytes)) (i : Nat)
    (limits : InputLimits) (image : Bytes) (run : Eval Err (VariantABIReport × Option VersionTrace) × Ledger)
    (input : inputs[i]? = some (limits, image))
    (here : (inspectSequence S (newArtifactMetadataAccounting maxBytes) inputs)[i]? = some run) :
    (∀ moment ∈ (run.2.acc, run.2.requested) :: run.2.history,
      Budgeted limits (newArtifactMetadataAccounting maxBytes).maxBytes
        (((inspectSequence S (newArtifactMetadataAccounting maxBytes) inputs).take i).map readBytes).sum
        moment.1 moment.2) ∧
    ∀ refund ∈ run.2.refunds, refund.2.Unclamped refund.1 := by
  have budgets := inspectSequence_budgeted S inputs (newArtifactMetadataAccounting maxBytes) (Nat.zero_le _) i
    limits image run input here
  rwa [show (newArtifactMetadataAccounting maxBytes).usedBytes = 0 from rfl, Nat.zero_add] at budgets

end Sequence

section

local instance ledgerNames : ElfNames := ⟨fun _ => [], fun _ => []⟩

/-- Three inputs that share 1000 bytes.  The second may have one version record only, and the
third finds too little left for its program headers. -/
def threeArtifacts : List (Eval Err (VariantABIReport × Option VersionTrace) × Ledger) :=
  inspectSequence insertionSlice (newArtifactMetadataAccounting 1000)
    [({}, backwardImage), (⟨0, 0, 0, 1⟩, backwardImage), ({}, backwardImage)]

theorem inspectSequence_budgets_second :
    threeArtifacts.map (fun run => (run.1.toOption.isSome, readBytes run, run.2.refunds.map (·.1))) =
      [(true, 448, [1, 1, 13, 13]), (false, 392, [13, 13]), (false, 64, [])] ∧
    ∃ run, threeArtifacts[1]? = some run ∧ Budgeted ⟨0, 0, 0, 1⟩ 1000 448 run.2.acc run.2.requested ∧
      ∀ refund ∈ run.2.refunds, refund.2.Unclamped refund.1 := by
  have outcomes : threeArtifacts.map (fun run => (run.1.toOption.isSome, readBytes run, run.2.refunds.map (·.1))) =
      [(true, 448, [1, 1, 13, 13]), (false, 392, [13, 13]), (false, 64, [])] := by decide +kernel
  have second := congrArg (·[1]?) outcomes
  rw [List.getElem?_map, List.getElem?_cons_succ, List.getElem?_cons_zero] at second
  obtain ⟨run, here, -⟩ := Option.map_eq_some_iff.mp second
  have earlier : ((threeArtifacts.take 1).map readBytes).sum = 448 := by decide +kernel
  have budgets := inspectSequence_budgets insertionSlice 1000 _ 1 ⟨0, 0, 0, 1⟩ backwardImage run rfl here
  rw [← threeArtifacts, earlier] at budgets
  exact ⟨outcomes, run, here, budgets.1 _ List.mem_cons_self, budgets.2⟩

end

end Microfat.Pack
