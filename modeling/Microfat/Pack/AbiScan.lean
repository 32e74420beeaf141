/-
# Microfat.Pack.AbiScan — the chunked string scan is the naive one

`scanBoundedCString` looks for the end of a string in chunks.  It reserves a chunk in
the scan, the per-input and the shared account before it looks, and gives back what
lies behind the NUL.  Near the end of a budget the chunk shrinks to what every account
can still pay, and a chunk of nothing becomes the refusal of one byte more.

`scanString_exact` is the loop: from any place and any accounts it finds exactly the
first NUL, provided the accounts can pay for the bytes up to it, and then they have paid
for nothing else.  `scanBoundedCString_exact` is the function.
-/
import Microfat.Pack.AbiBounds

namespace Microfat.Pack

open Theory Metered

set_option autoImplicit false

/-! ## What the accounts can pay -/

variable {acc : InputAccounting} {m n : Nat}

namespace InputAccounting

theorem Room.mono (room : acc.Room n) (less : m ≤ n) : acc.Room m :=
  ⟨by have := room.scan; omega, by have := room.input; omega, fun a mem => by
    have := room.shared a mem
    omega⟩

@[simp] theorem scanned_scanned (acc : InputAccounting) (m n : Nat) :
    (acc.scanned m).scanned n = acc.scanned (m + n) := by
  simp only [scanned, Option.map_map, Function.comp_def, Nat.add_assoc]

theorem room_scanned :
    (acc.scanned m).Room n ↔ acc.Room (m + n) := by
  constructor
  · rintro ⟨scan, input, shared⟩
    refine ⟨by rw [← Nat.add_assoc]; exact scan, by rw [← Nat.add_assoc]; exact input, fun a mem => ?_⟩
    have := shared _ (Option.mem_map_of_mem _ mem)
    rw [← Nat.add_assoc]
    exact this
  · rintro ⟨scan, input, shared⟩
    refine ⟨by rw [← Nat.add_assoc] at scan; exact scan, by rw [← Nat.add_assoc] at input; exact input,
      fun a mem => ?_⟩
    obtain ⟨a', mem', rfl⟩ := Option.mem_map.mp mem
    have := shared a' mem'
    rw [← Nat.add_assoc] at this
    exact this

/-- What was reserved too much goes back to where it came from. -/
theorem refund_scanned (acc : InputAccounting) (less : n ≤ m) :
    (acc.scanned m).refundAllStringScan (m - n) = acc.scanned n := by
  have back : ∀ used : Nat, (if used + m < m - n then 0 else used + m - (m - n)) = used + n := by
    intro used
    rw [if_neg (by omega)]
    omega
  simp only [scanned, refundAllStringScan, back, Option.map_map, Function.comp_def,
    ArtifactMetadataAccounting.refund]
  congr 1 <;> exact back _

/-! ## The size of a chunk -/

/-- A chunk is as large as the accounts allow. -/
theorem Room.le_scanAllowance {wantScan : Nat} (room : acc.Room n) (small : n ≤ wantScan)
    (chunk : wantScan ≤ maxUint64) : n ≤ acc.scanAllowance wantScan := by
  have scan := room.scan
  have input := room.input
  have scanLeft : n ≤ acc.remainingStringScanBudget := by
    unfold remainingStringScanBudget
    split <;> omega
  have inputLeft : n ≤ acc.remainingMetadataBudget := by
    unfold remainingMetadataBudget
    split <;> omega
  unfold scanAllowance
  refine le_min (le_min (le_min small scanLeft) inputLeft) ?_
  split
  · omega
  · rename_i a account
    have shared := room.shared a account
    unfold ArtifactMetadataAccounting.remaining limitOr
    by_cases unset : a.maxBytes = 0
    · have none : a.maxBytes.toNat = 0 := by rw [unset]; rfl
      omega
    · rw [if_neg unset]
      dsimp only
      split <;> omega

/-- Where one byte can be paid for, a chunk can.  (A shared account without a limit
refuses every byte, whatever remains of the default.) -/
theorem Room.scanAllowance (room : acc.Room 1) (wantScan : Nat) :
    acc.Room (acc.scanAllowance wantScan) := by
  have scan := room.scan
  have input := room.input
  have scanPart : acc.scanAllowance wantScan ≤ acc.remainingStringScanBudget :=
    (min_le_left _ _).trans ((min_le_left _ _).trans (min_le_right _ _))
  have inputPart : acc.scanAllowance wantScan ≤ acc.remainingMetadataBudget :=
    (min_le_left _ _).trans (min_le_right _ _)
  unfold remainingStringScanBudget at scanPart
  unfold remainingMetadataBudget at inputPart
  rw [if_neg (by omega)] at scanPart inputPart
  refine ⟨by omega, by omega, fun a account => ?_⟩
  have shared := room.shared a account
  have set : a.maxBytes ≠ 0 := by
    intro unset
    rw [unset] at shared
    simp at shared
  have sharedPart : acc.scanAllowance wantScan ≤ a.remaining := by
    unfold InputAccounting.scanAllowance
    rw [Option.mem_def.mp account]
    exact min_le_right _ _
  unfold ArtifactMetadataAccounting.remaining limitOr at sharedPart
  rw [if_neg set] at sharedPart
  dsimp only at sharedPart
  rw [if_neg (by omega)] at sharedPart
  omega

end InputAccounting

/-! ## The loop -/

variable {s : Ledger} {k : Nat} {strtab : Bytes} {curr scanned : Nat}

variable {bytes : Bytes} {idx : Nat} {t : Ledger}

namespace Charges

variable {m : Inspection Unit} {pays : InputAccounting → Prop} {after : InputAccounting → InputAccounting}
  (charges : Charges m pays after)

include charges

theorem runs (able : pays s.acc) : Runs m s () (s.enter (after s.acc)) := by
  obtain ⟨f, rfl, ends⟩ := charges
  obtain ⟨acc', paid, -, rfl⟩ := (ends s.acc).ok_of fun _ full => full able
  exact runs_charge (by rw [paid]; rfl)

theorem refuses (full : ¬ pays s.acc) : Refuses m s := by
  obtain ⟨f, rfl, ends⟩ := charges
  obtain ⟨e, refused⟩ := (ends s.acc).fail_of fun _ paid => full paid.1
  exact refuses_charge (e := e) (by rw [refused]; rfl)

end Charges

/-- The refund of a scan takes back the end of the chunk, if there is one. -/
theorem refund_runs (here : s.acc = acc.scanned m) (less : n ≤ m) :
    ∃ t, Runs (if n < m then refundStringScan (m - n) else pure ()) s () t ∧
      t.acc = acc.scanned n := by
  by_cases shorter : n < m
  · rw [if_pos shorter]
    refine ⟨_, runs_charge rfl, ?_⟩
    change s.acc.refundAllStringScan (m - n) = _
    rw [here, InputAccounting.refund_scanned acc less]
  · rw [if_neg shorter]
    obtain rfl : n = m := by omega
    exact ⟨s, rfl, here⟩

/-- The place of the first NUL. -/
def nulAt (bytes : Bytes) : Option Nat := bytes.findIdx? (· == 0)

theorem nulAt_take (found : nulAt (bytes.take k) = some idx) :
    nulAt bytes = some idx := by
  rw [nulAt, ← List.take_append_drop k bytes, List.findIdx?_append]
  rw [nulAt] at found
  rw [found]
  rfl

section

variable (inside : k ≤ bytes.length) (missed : nulAt (bytes.take k) = none)

include inside missed

theorem nulAt_drop : nulAt bytes = (nulAt (bytes.drop k)).map (· + k) := by
  conv_lhs => rw [nulAt, ← List.take_append_drop k bytes, List.findIdx?_append]
  rw [nulAt] at missed
  rw [missed, List.length_take, Nat.min_eq_left inside]
  rfl

theorem nulAt_behind (found : nulAt bytes = some n) : k ≤ n := by
  rw [nulAt_drop inside missed, Option.map_eq_some_iff] at found
  obtain ⟨m, -, rfl⟩ := found
  omega

end

/-- What a scan from `curr` finds, and what it pays. -/
def ScansTo (strtab : Bytes) (curr scanned : Nat) (s : Ledger) : Prop :=
  match nulAt (strtab.drop curr) with
  | some n =>
    (s.acc.Room (n + 1) → ∃ t, Runs (scanString strtab curr scanned) s (.found (scanned + n)) t ∧
      t.acc = s.acc.scanned (n + 1)) ∧
    (¬ s.acc.Room (n + 1) → Refuses (scanString strtab curr scanned) s)
  | none => Refuses (scanString strtab curr scanned) s ∨
      ∃ t, Runs (scanString strtab curr scanned) s .unterminated t

/-- A scan the accounts refuse. -/
theorem ScansTo.refused (full : ∀ n, nulAt (strtab.drop curr) = some n → ¬ s.acc.Room (n + 1))
    (refuses : Refuses (scanString strtab curr scanned) s) : ScansTo strtab curr scanned s := by
  unfold ScansTo
  split
  · rename_i n found
    exact ⟨fun room => absurd room (full n found), fun _ => refuses⟩
  · exact .inl refuses

/-- A scan that found its NUL in the chunk of `k` bytes it reserved. -/
theorem ScansTo.found (hit : nulAt ((strtab.drop curr).take k) = some idx) (room : s.acc.Room k)
    (within : idx < k)
    (run : Runs (scanString strtab curr scanned) s (.found (scanned + idx)) t)
    (paid : t.acc = s.acc.scanned (idx + 1)) : ScansTo strtab curr scanned s := by
  unfold ScansTo
  rw [nulAt_take hit]
  exact ⟨fun _ => ⟨t, run, paid⟩, fun full => absurd (room.mono within) full⟩

/-! ### One round -/

/-- The chunk the loop wants at `curr`. -/
def wantedAt (strtab : Bytes) (curr : Nat) : Nat := min stringScanChunkSize (strtab.length - curr)

/-- The rest of a round, once a chunk of `toCharge` bytes is paid for. -/
def lookIn (strtab : Bytes) (curr scanned toCharge : Nat) : Inspection Scan := do
  let stop ← Metered.lift (addU64 curr toCharge)
  let chunk ← Metered.lift (slice strtab curr stop)
  match nulAt chunk with
  | some idx => do
      (if idx + 1 < toCharge then refundStringScan (toCharge - (idx + 1)) else pure ())
      let strLen ← Metered.lift (addU64 scanned idx)
      return .found strLen
  | none => do
      let sum ← Metered.lift (addU64 scanned toCharge)
      if toCharge < wantedAt strtab curr then do
        chargeStringScan 1
        return .gaveUp
      else scanString strtab (curr + toCharge) sum

section Round

variable {strtab : Bytes} {curr scanned : Nat} {s : Ledger}

variable (scanned) in
/-- A round charges what the budget allows of the bytes it wants, and looks at them. -/
theorem scanString_eq (inTable : curr < strtab.length) :
    scanString strtab curr scanned s =
      (if s.acc.scanAllowance (wantedAt strtab curr) = 0 then do
        chargeStringScan 1
        return .gaveUp
      else do
        chargeStringScan (s.acc.scanAllowance (wantedAt strtab curr))
        lookIn strtab curr scanned (s.acc.scanAllowance (wantedAt strtab curr)) : Inspection Scan) s := by
  have avail : (subU64 strtab.length curr : Eval Err Nat) = .ok (strtab.length - curr) := by
    rw [subU64, if_pos (by omega)]
  rw [scanString, dif_pos inTable, avail]
  change (if _ : s.acc.scanAllowance (wantedAt strtab curr) = 0 then _ else _ : Inspection Scan) s = _
  split
  · rfl
  · rfl

variable {k : Nat} (small : strtab.length < 2 ^ 63) (inside : curr + k ≤ strtab.length)
  (ordered : scanned ≤ curr)

include small inside in
/-- The two steps in front of every look: neither the sum nor the slice can fail. -/
theorem chunk_runs :
    Runs (Metered.lift (addU64 curr k) : Inspection Nat) s (curr + k) s ∧
      Runs (Metered.lift (slice strtab curr (curr + k)) : Inspection Bytes) s
        ((strtab.drop curr).take k) s := by
  constructor
  · exact runs_lift (addU64_of_lt (by omega)) s
  · exact runs_lift (by rw [slice_of_le (by omega) inside, Nat.add_sub_cancel_left]) s

include small inside ordered in
theorem lookIn_hit (here : s.acc = acc.scanned k) (hit : nulAt ((strtab.drop curr).take k) = some idx)
    (within : idx < k) :
    ∃ t, Runs (lookIn strtab curr scanned k) s (.found (scanned + idx)) t ∧
      t.acc = acc.scanned (idx + 1) := by
  obtain ⟨stop, chunk⟩ := chunk_runs (s := s) small inside
  obtain ⟨t, refunded, paid⟩ := refund_runs here within
  refine ⟨t, stop.bind (chunk.bind ?_), paid⟩
  rw [hit]
  exact refunded.bind ((runs_lift (addU64_of_lt (by omega)) t).bind rfl)

include small inside ordered in
/-- A chunk without a NUL that is shorter than wanted: there is no byte left to pay for. -/
theorem lookIn_short (missed : nulAt ((strtab.drop curr).take k) = none) (short : k < wantedAt strtab curr)
    (full : ¬ s.acc.Room 1) : Refuses (lookIn strtab curr scanned k) s := by
  obtain ⟨stop, chunk⟩ := chunk_runs (s := s) small inside
  refine stop.refuses (chunk.refuses ?_)
  rw [missed]
  refine (runs_lift (a := scanned + k) (addU64_of_lt (by omega)) s).refuses ?_
  rw [if_pos short]
  exact ((chargeStringScan_charges _).refuses full).bind _

include small inside ordered in
theorem lookIn_next (missed : nulAt ((strtab.drop curr).take k) = none)
    (whole : ¬ k < wantedAt strtab curr) :
    lookIn strtab curr scanned k s = scanString strtab (curr + k) (scanned + k) s := by
  obtain ⟨stop, chunk⟩ := chunk_runs (s := s) small inside
  have sum : Runs (Metered.lift (addU64 scanned k) : Inspection Nat) s (scanned + k) s :=
    runs_lift (addU64_of_lt (by omega)) s
  rw [lookIn, stop.bind_eq, chunk.bind_eq, missed]
  dsimp only
  rw [sum.bind_eq, if_neg whole]

end Round

/-- The rest of a scan whose first `k` bytes hold no NUL. -/
theorem ScansTo.further (inside : curr + k ≤ strtab.length)
    (missed : nulAt ((strtab.drop curr).take k) = none)
    (same : scanString strtab curr scanned s = scanString strtab (curr + k) (scanned + k) t)
    (paid : t.acc = s.acc.scanned k) (rest : ScansTo strtab (curr + k) (scanned + k) t) :
    ScansTo strtab curr scanned s := by
  have width : k ≤ (strtab.drop curr).length := by
    rw [List.length_drop]
    omega
  have further := nulAt_drop width missed
  rw [List.drop_drop] at further
  unfold ScansTo at rest ⊢
  unfold Runs Refuses at rest ⊢
  rw [further, same]
  cases place : nulAt (strtab.drop (curr + k)) with
  | none =>
    rw [place] at rest
    exact rest
  | some n =>
    rw [place, paid] at rest
    dsimp only at rest
    have room : (s.acc.scanned k).Room (n + 1) ↔ s.acc.Room (n + k + 1) := by
      rw [InputAccounting.room_scanned, show k + (n + 1) = n + k + 1 by omega]
    rw [room, InputAccounting.scanned_scanned, show k + (n + 1) = n + k + 1 by omega,
      show scanned + k + n = scanned + (n + k) by omega] at rest
    exact rest

/-- **The loop finds the first NUL.**  Induction on the bytes of the table that are left. -/
theorem scanString_exact (small : strtab.length < 2 ^ 63) :
    ∀ left curr scanned s, strtab.length - curr ≤ left → scanned ≤ curr →
      ScansTo strtab curr scanned s := by
  intro left
  induction left with
  | zero =>
    intro curr scanned s bound ordered
    have empty : strtab.drop curr = [] := List.drop_eq_nil_of_le (by omega)
    unfold ScansTo
    rw [empty, scanString, dif_neg (by omega)]
    exact .inr ⟨s, rfl⟩
  | succ left ih =>
    intro curr scanned s bound ordered
    by_cases inTable : curr < strtab.length
    · have wanted : 0 < wantedAt strtab curr ∧ wantedAt strtab curr ≤ strtab.length - curr ∧
          wantedAt strtab curr ≤ maxUint64 := by
        unfold wantedAt stringScanChunkSize maxUint64
        omega
      have allowance := s.acc.scanAllowance_le (wantedAt strtab curr)
      by_cases room : s.acc.Room 1
      · have one := room.le_scanAllowance wanted.1 wanted.2.2
        have paid := room.scanAllowance (wantedAt strtab curr)
        have greedy : s.acc.scanAllowance (wantedAt strtab curr) < wantedAt strtab curr →
            ¬ s.acc.Room (s.acc.scanAllowance (wantedAt strtab curr) + 1) := fun short more => by
          have := more.le_scanAllowance short wanted.2.2
          omega
        have round := scanString_eq (s := s) scanned inTable
        rw [if_neg (Nat.pos_iff_ne_zero.mp one)] at round
        generalize s.acc.scanAllowance (wantedAt strtab curr) = k at allowance one paid greedy round
        rw [((chargeStringScan_charges _).runs paid).bind_eq] at round
        have inside : curr + k ≤ strtab.length := by omega
        cases hit : nulAt ((strtab.drop curr).take k) with
        | some idx =>
          have within : idx < k := by
            have := (List.findIdx?_eq_some_iff_findIdx_eq.mp hit).1
            rw [List.length_take] at this
            omega
          obtain ⟨t, run, left⟩ := lookIn_hit (s := s.enter (s.acc.scanned k)) small inside ordered rfl hit within
          exact .found hit paid within (round.trans run) left
        | none =>
          by_cases short : k < wantedAt strtab curr
          · have full : ¬ (s.enter (s.acc.scanned k)).acc.Room 1 := fun more =>
              greedy short (InputAccounting.room_scanned.mp more)
            refine .refused (fun n found more => ?_) ?_
            · have behind := nulAt_behind (by rw [List.length_drop]; omega) hit found
              exact greedy short (more.mono (by omega))
            · rw [Refuses, round]
              exact lookIn_short small inside ordered hit short full
          · have next := lookIn_next (s := s.enter (s.acc.scanned k)) small inside ordered hit short
            exact .further inside hit (round.trans next) rfl (ih _ _ _ (by omega) (by omega))
      · refine .refused (fun n _ more => room (more.mono (by omega))) ?_
        rw [Refuses, scanString_eq scanned inTable]
        split
        · exact ((chargeStringScan_charges _).refuses room).bind _
        · exact ((chargeStringScan_charges _).refuses fun more => room (more.mono (by omega))).bind _
    · have empty : strtab.drop curr = [] := List.drop_eq_nil_of_le (by omega)
      unfold ScansTo
      rw [empty, scanString, dif_neg inTable]
      exact .inr ⟨s, rfl⟩

/-! ## The function -/

/-- The string at `off`: the bytes before the first NUL, if there is one in the table. -/
def cString (strtab : Bytes) (off : Nat) : Option Bytes :=
  (nulAt (strtab.drop off)).map fun n => (strtab.drop off).take n

/-- The accounts after a string of `n` bytes was read and kept. -/
def InputAccounting.withString (acc : InputAccounting) (n : Nat) : InputAccounting :=
  { acc.scanned (n + 1) with retainedStringBytes := acc.retainedStringBytes + n }

/-- The budgets admit a string of `n` bytes: its bytes and its NUL are looked at, and its
bytes are kept. -/
structure InputAccounting.Admits (acc : InputAccounting) (n : Nat) : Prop where
  scan : acc.Room (n + 1)
  retained : acc.retainedStringBytes + n ≤ acc.stringLimit

section Function

variable {strtab : Bytes} {off : Nat} {requireNonEmpty : Bool} {s : Ledger}

/-- The string the scan is to return. -/
structure Admitted (strtab : Bytes) (off : Nat) (requireNonEmpty : Bool) (s : Ledger) (str : Bytes) : Prop where
  naive : cString strtab off = some str
  admits : s.acc.Admits str.length
  nonempty : requireNonEmpty = true → str ≠ []

/-- What the scan does with a NUL `n` bytes behind `off` that the accounts paid for. -/
theorem scanBoundedCString_found (small : strtab.length < 2 ^ 63) (fieldName : String)
    (requireNonEmpty : Bool) (inside : off < strtab.length) (place : nulAt (strtab.drop off) = some n)
    (run : Runs (scanString strtab off 0) s (.found n) t) (paid : t.acc = s.acc.scanned (n + 1)) :
    ((requireNonEmpty = true → n ≠ 0) ∧ s.acc.retainedStringBytes + n ≤ s.acc.stringLimit →
      ∃ u, Runs (scanBoundedCString strtab off fieldName requireNonEmpty) s
        ((strtab.drop off).take n) u ∧ u.acc = s.acc.withString n) ∧
    (¬ ((requireNonEmpty = true → n ≠ 0) ∧ s.acc.retainedStringBytes + n ≤ s.acc.stringLimit) →
      Refuses (scanBoundedCString strtab off fieldName requireNonEmpty) s) := by
  have before : n < (strtab.drop off).length := (List.findIdx?_eq_some_iff_findIdx_eq.mp place).1
  rw [List.length_drop] at before
  have retained : t.acc.retainedStringBytes = s.acc.retainedStringBytes := by rw [paid]; rfl
  have limit : t.acc.stringLimit = s.acc.stringLimit := by rw [paid]; rfl
  have starts : decide (strtab.length ≤ off) = false := by simpa using inside
  constructor
  · rintro ⟨nonempty, fits⟩
    have wanted : (requireNonEmpty && n == 0) = false := by
      cases requireNonEmpty with
      | false => rfl
      | true => simpa using nonempty rfl
    have stop : (addU64 off n : Eval Err Nat) = .ok (off + n) := addU64_of_lt (by omega)
    have bytes : (slice strtab off (off + n) : Eval Err Bytes) = .ok ((strtab.drop off).take n) := by
      rw [slice_of_le (by omega) (by omega), Nat.add_sub_cancel_left]
    refine ⟨t.enter { t.acc with retainedStringBytes := t.acc.retainedStringBytes + n },
      (runs_guard _ starts s).bind (run.bind ?_), ?_⟩
    · refine (runs_guard _ wanted t).bind (((chargeString_charges _).runs (by omega)).bind ?_)
      exact (runs_lift stop _).bind (runs_lift bytes _)
    · change ({ t.acc with retainedStringBytes := t.acc.retainedStringBytes + n } : InputAccounting) = _
      rw [retained, paid]
      rfl
  · intro refused
    refine (runs_guard _ starts s).refuses (run.refuses ?_)
    by_cases empty : requireNonEmpty = true ∧ n = 0
    · exact (refuses_guard _ (by simp [empty.1, empty.2]) t).bind _
    · refine (runs_guard _ ?_ t).refuses (((chargeString_charges _).refuses fun fits => refused ?_).bind _)
      · cases requireNonEmpty with
        | false => rfl
        | true => simpa using fun zero => empty ⟨rfl, zero⟩
      · exact ⟨fun required zero => empty ⟨required, zero⟩, by omega⟩

/-- Either the naive string comes back and is paid for, or an error comes back and no
string is admitted. -/
theorem scanBoundedCString_outcome (small : strtab.length < 2 ^ 63) (fieldName : String) :
    (∃ str t, Runs (scanBoundedCString strtab off fieldName requireNonEmpty) s str t ∧
      Admitted strtab off requireNonEmpty s str ∧ t.acc = s.acc.withString str.length) ∨
    Refuses (scanBoundedCString strtab off fieldName requireNonEmpty) s ∧
      ∀ str, ¬ Admitted strtab off requireNonEmpty s str := by
  by_cases inside : off < strtab.length
  · have starts : decide (strtab.length ≤ off) = false := by simpa using inside
    have scan := scanString_exact small _ off 0 s le_rfl (Nat.zero_le off)
    unfold ScansTo at scan
    cases place : nulAt (strtab.drop off) with
    | none =>
      rw [place] at scan
      refine .inr ⟨(runs_guard _ starts s).refuses ?_, fun str admitted => ?_⟩
      · rcases scan with refuses | ⟨t, run⟩
        · exact refuses.bind _
        · exact run.refuses (refuses_fail _ t)
      · have naive := admitted.naive
        rw [cString, place] at naive
        cases naive
    | some n =>
      rw [place] at scan
      obtain ⟨found, refused⟩ := scan
      have width : ((strtab.drop off).take n).length = n := by
        have before := (List.findIdx?_eq_some_iff_findIdx_eq.mp place).1
        rw [List.length_take]
        omega
      have named : ∀ str, cString strtab off = some str ↔ str = (strtab.drop off).take n := by
        intro str
        rw [cString, place, Option.map_some, Option.some.injEq, eq_comm]
      have nonempty : (strtab.drop off).take n ≠ [] ↔ n ≠ 0 := by
        rw [ne_eq, ← List.length_eq_zero_iff, width]
      by_cases room : s.acc.Room (n + 1)
      · obtain ⟨t, run, paid⟩ := found room
        rw [Nat.zero_add] at run
        obtain ⟨kept, dropped⟩ := scanBoundedCString_found small fieldName requireNonEmpty
          inside place run paid
        by_cases fits : (requireNonEmpty = true → n ≠ 0) ∧
            s.acc.retainedStringBytes + n ≤ s.acc.stringLimit
        · obtain ⟨u, returns, accounts⟩ := kept fits
          refine .inl ⟨_, u, returns, ⟨(named _).mpr rfl, ?_, fun required => nonempty.mpr (fits.1 required)⟩, ?_⟩
          · rw [width]
            exact ⟨room, fits.2⟩
          · rw [width]
            exact accounts
        · refine .inr ⟨dropped fits, fun str admitted => fits ?_⟩
          have same := (named str).mp admitted.naive
          have admits := admitted.admits
          rw [same, width] at admits
          exact ⟨fun required => nonempty.mp (same ▸ admitted.nonempty required), admits.retained⟩
      · refine .inr ⟨(runs_guard _ starts s).refuses ((refused room).bind _), fun str admitted => room ?_⟩
        have admits := admitted.admits
        rw [(named str).mp admitted.naive, width] at admits
        exact admits.scan
  · refine .inr ⟨(refuses_guard _ (by simpa using inside) s).bind _, fun str admitted => ?_⟩
    have naive := admitted.naive
    rw [cString, List.drop_eq_nil_of_le (by omega)] at naive
    cases naive

end Function

/-- **The chunked scan is the naive one.**  A string comes back exactly when it is the
naive one, the budgets admit it, and it is not an empty one where that is asked; the
accounts then paid for its bytes and its NUL.  In every other case an error comes back. -/
theorem scanBoundedCString_exact (strtab : Bytes) (small : strtab.length < 2 ^ 63) (off : Nat)
    (fieldName : String) (requireNonEmpty : Bool) (s : Ledger) :
    (∀ str, ((scanBoundedCString strtab off fieldName requireNonEmpty s).1 = .ok str ↔
      cString strtab off = some str ∧ s.acc.Admits str.length ∧ (requireNonEmpty = true → str ≠ []))) ∧
    (∀ str t, scanBoundedCString strtab off fieldName requireNonEmpty s = (.ok str, t) →
      t.acc = s.acc.withString str.length) ∧
    ((∀ str, (scanBoundedCString strtab off fieldName requireNonEmpty s).1 ≠ .ok str) →
      ∃ e, (scanBoundedCString strtab off fieldName requireNonEmpty s).1 = .fail e) := by
  rcases scanBoundedCString_outcome small fieldName with ⟨str, t, run, admitted, accounts⟩ | ⟨refuses, none⟩
  · have returned : scanBoundedCString strtab off fieldName requireNonEmpty s = (.ok str, t) := run
    rw [returned]
    refine ⟨fun other => ⟨?_, ?_⟩, ?_, fun none => absurd rfl (none str)⟩
    · rintro ⟨⟩
      exact ⟨admitted.naive, admitted.admits, admitted.nonempty⟩
    · rintro ⟨naive, -, -⟩
      rw [admitted.naive, Option.some.injEq] at naive
      rw [naive]
    · rintro other u ⟨⟩
      exact accounts
  · refine ⟨fun str => ⟨fun returned => absurd returned (refuses.not_ok str), ?_⟩, ?_, fun _ => ?_⟩
    · rintro ⟨naive, admits, nonempty⟩
      exact absurd ⟨naive, admits, nonempty⟩ (none str)
    · intro str t returned
      exact absurd (congrArg Prod.fst returned) (refuses.not_ok str)
    · obtain ⟨e, t, failed⟩ := refuses
      exact ⟨e, by rw [failed]; rfl⟩

/-- A string of 70 bytes, which is longer than a chunk, behind another one. -/
def longTable : Bytes := 0 :: List.replicate 70 97 ++ [0, 109, 0]

/-- The shared account has `left` bytes left, and 20 were read for this input. -/
def sharing (left : Nat) : Ledger :=
  { acc := { shared := some ⟨100, 100 - left⟩, metadataBytesRead := 20 } }

/-- The shared account pays for the 70 bytes and the NUL or the scan fails. -/
theorem scanBoundedCString_exact_long :
    (scanBoundedCString longTable 1 "DT_NEEDED" true (sharing 71)).1 = .ok (List.replicate 70 97) ∧
      ∃ e, (scanBoundedCString longTable 1 "DT_NEEDED" true (sharing 70)).1 = .fail e := by
  have naive : cString longTable 1 = some (List.replicate 70 97) := by decide +kernel
  have enough := (scanBoundedCString_exact longTable (by decide) 1 "DT_NEEDED" true (sharing 71)).1
  obtain ⟨exact, -, failed⟩ := scanBoundedCString_exact longTable (by decide) 1 "DT_NEEDED" true (sharing 70)
  refine ⟨(enough _).mpr ⟨naive, ⟨⟨by decide, by decide, ?_⟩, by decide⟩, fun _ => by decide⟩,
    failed fun str returned => ?_⟩
  · rintro _ ⟨⟩
    decide
  · obtain ⟨same, admits, -⟩ := (exact str).mp returned
    rw [naive] at same
    cases same
    exact absurd (admits.scan.shared _ rfl) (by decide)

end Microfat.Pack
