/-
# Microfat.Pack.AbiBounds — the inspection stays inside its image

One lemma per function of `Pack.Abi`, bottom up.  Each says that the function
does not trap and what the values it returns satisfy.  A charge is described exactly:
`Charges` says which accounts pay it, what they are afterwards, and that the others refuse.
-/
import Microfat.Pack.Abi

namespace Microfat.Pack

open Theory Metered
open Eval (Traps Yields ok_bind yields_ite yields_ok)

set_option autoImplicit false

/-! ## Accounts -/

theorem withinBudget_ends (limit used n : Nat) (refusal : Err) :
    (withinBudget limit used n refusal).Ends (fun _ => used + n ≤ limit) fun e => e = refusal ∧ ¬ used + n ≤ limit := by
  refine .guarded (fun wide => ⟨rfl, by have := of_decide_eq_true wide; omega⟩) fun narrow => ?_
  have ordered : n ≤ limit := Nat.not_lt.mp (of_decide_eq_false narrow)
  rw [subU64_of_le ordered, ok_bind]
  refine (Eval.ends_guard _ refusal).mono (fun _ fits => ?_) fun _ full => ⟨full.1, ?_⟩
  · have := of_decide_eq_false fits
    omega
  · have := of_decide_eq_true full.2
    omega

theorem limitOr_lt (limit : UInt64) {fallback : Nat} (small : fallback < 2 ^ 64) :
    limitOr limit fallback < 2 ^ 64 := by
  unfold limitOr
  split
  · exact small
  · exact limit.toNat_lt

namespace InputAccounting

/-- The input and the shared account can pay for `n` bytes more. -/
structure Pays (acc : InputAccounting) (n : Nat) : Prop where
  input : acc.metadataBytesRead + n ≤ acc.metadataLimit
  shared : ∀ a ∈ acc.shared, a.usedBytes + n ≤ a.maxBytes.toNat

/-- A charge that passed its check. -/
def charged (acc : InputAccounting) (n : Nat) : InputAccounting :=
  { acc with
    metadataBytesRead := acc.metadataBytesRead + n
    shared := acc.shared.map fun a => { a with usedBytes := a.usedBytes + n } }

/-- The scan, the input and the shared account can pay for `n` bytes more. -/
structure Room (acc : InputAccounting) (n : Nat) : Prop where
  scan : acc.stringScanBytesRead + n ≤ acc.stringScanLimit
  input : acc.metadataBytesRead + n ≤ acc.metadataLimit
  shared : ∀ a ∈ acc.shared, a.usedBytes + n ≤ a.maxBytes.toNat

/-- The accounts after `n` bytes of a scan. -/
def scanned (acc : InputAccounting) (n : Nat) : InputAccounting :=
  { acc with
    stringScanBytesRead := acc.stringScanBytesRead + n
    metadataBytesRead := acc.metadataBytesRead + n
    shared := acc.shared.map fun a => { a with usedBytes := a.usedBytes + n } }

section

variable (acc : InputAccounting) (n : Nat)

theorem checkMetadata_ends : (acc.checkMetadata n).Ends (fun _ => acc.Pays n) fun _ => ¬ acc.Pays n := by
  refine ((withinBudget_ends _ _ _ _).mono (fun _ => id) fun _ full pays => full.2 pays.input).bind
    fun _ input => ?_
  cases account : acc.shared with
  | none => exact ⟨input, by rw [account]; nofun⟩
  | some shared =>
    refine (withinBudget_ends _ _ _ _).mono (fun _ room => ⟨input, fun a same => ?_⟩)
      fun _ full pays => full.2 (pays.shared shared account)
    cases account.symm.trans same
    exact room

theorem commitMetadata_of_pays {acc : InputAccounting} {n : Nat} (pays : acc.Pays n) :
    acc.commitMetadata n = .ok (acc.charged n) := by
  have limit : acc.metadataLimit < 2 ^ 64 := limitOr_lt _ (by decide)
  have input := pays.input
  unfold commitMetadata charged
  rw [addU64_of_lt (by omega), ok_bind]
  cases account : acc.shared with
  | none => rfl
  | some a =>
    have shared := pays.shared a account
    have small := a.maxBytes.toNat_lt
    simp only [ArtifactMetadataAccounting.commit]
    rw [addU64_of_lt (by omega)]
    rfl

theorem checkAndChargeStringScan_ends : (acc.checkAndChargeStringScan n).Ends
    (fun acc' => acc.Room n ∧ acc' = acc.scanned n) fun _ => ¬ acc.Room n := by
  have limit : acc.stringScanLimit < 2 ^ 64 := limitOr_lt _ (limitOr_lt _ (by decide))
  refine ((withinBudget_ends _ _ _ _).mono (fun _ => id) fun _ full room => full.2 room.scan).bind
    fun _ scan => ?_
  refine ((acc.checkMetadata_ends n).mono (fun _ => id) fun _ full room =>
    full ⟨room.input, room.shared⟩).bind fun _ pays => ?_
  rw [addU64_of_lt (by omega), ok_bind, commitMetadata_of_pays pays]
  exact ⟨⟨scan, pays.input, pays.shared⟩, rfl⟩

theorem scanAllowance_le (wantScan : Nat) : acc.scanAllowance wantScan ≤ wantScan := by
  unfold scanAllowance
  exact (min_le_left _ _).trans ((min_le_left _ _).trans (min_le_left _ _))

end

end InputAccounting

/-- The step is made exactly by accounts that can pay it, and is refused by the others. -/
def Charges (m : Inspection Unit) (pays : InputAccounting → Prop) (after : InputAccounting → InputAccounting) : Prop :=
  ∃ f, m = account f ∧ ∀ acc, (f acc).Ends (fun acc' => pays acc ∧ acc' = after acc) fun _ => ¬ pays acc

theorem Charges.sure {m : Inspection Unit} {pays : InputAccounting → Prop} {after : InputAccounting → InputAccounting}
    (charges : Charges m pays after) : Sure m fun _ => True := by
  obtain ⟨f, rfl, ends⟩ := charges
  exact sure_charge fun s => Eval.bind_safe (ends s.acc).safe fun _ _ => Eval.safe_ok _

theorem chargeMetadata_charges (n : Nat) : Charges (chargeMetadata n) (·.Pays n) (·.charged n) :=
  ⟨_, rfl, fun acc => (acc.checkMetadata_ends n).bind fun _ pays => by
    rw [InputAccounting.commitMetadata_of_pays pays]
    exact ⟨pays, rfl⟩⟩

theorem requireMetadata_charges (n : Nat) : Charges (requireMetadata n) (·.Pays n) id :=
  ⟨_, rfl, fun acc => (acc.checkMetadata_ends n).bind fun _ pays => ⟨pays, rfl⟩⟩

theorem chargeStringScan_charges (n : Nat) : Charges (chargeStringScan n) (·.Room n) (·.scanned n) :=
  ⟨_, rfl, fun acc => acc.checkAndChargeStringScan_ends n⟩

theorem chargeString_charges (n : Nat) : Charges (chargeString n)
    (fun acc => acc.retainedStringBytes + n ≤ acc.stringLimit)
    fun acc => { acc with retainedStringBytes := acc.retainedStringBytes + n } := by
  refine ⟨_, rfl, fun acc => ?_⟩
  have limit : acc.stringLimit < 2 ^ 64 := limitOr_lt _ (by decide)
  refine ((withinBudget_ends _ _ _ _).mono (fun _ => id) fun _ full => full.2).bind fun _ fits => ?_
  rw [addU64_of_lt (by omega)]
  exact ⟨fits, rfl⟩

theorem chargeVersionRecord_charges : Charges chargeVersionRecord
    (fun acc => acc.versionRecords < acc.versionRecordLimit)
    fun acc => { acc with versionRecords := acc.versionRecords + 1 } := by
  refine ⟨_, rfl, fun acc => ?_⟩
  have limit : acc.versionRecordLimit < 2 ^ 64 := limitOr_lt _ (by decide)
  refine .guarded (fun full => Nat.not_lt.mpr (of_decide_eq_true full)) fun below => ?_
  have below := Nat.not_le.mp (of_decide_eq_false below)
  rw [addU64_of_lt (by omega)]
  exact ⟨below, rfl⟩

theorem accounts_sure : Sure accounts fun _ => True :=
  sure_read.bind fun _ _ => sure_pure trivial

theorem reading_sure {x : Eval Err Bytes} {post : Bytes → Prop} (size : Nat) (h : Yields x post) :
    Sure (reading size x) post := by
  intro s
  unfold reading
  split <;> exact h

/-! ## Reading -/

variable {buf : Bytes} {lo hi : Nat} {image : Bytes} {size off : Nat}

theorem ByteOrder.uint_lt (order : ByteOrder) (bs : Bytes) : order.uint bs < 256 ^ bs.length := by
  cases order with
  | littleEndian => exact leNat_lt bs
  | bigEndian => simpa [ByteOrder.uint] using leNat_lt bs.reverse

/-- The bytes `lo..hi` of a buffer. -/
def piece (buf : Bytes) (lo hi : Nat) : Bytes := (buf.drop lo).take (hi - lo)

theorem piece_length (ordered : lo ≤ hi) (inside : hi ≤ buf.length) :
    (piece buf lo hi).length = hi - lo := by
  rw [piece, List.length_take, List.length_drop]
  omega

theorem piece_piece {start stop : Nat} (inside : start + hi ≤ stop) :
    piece (piece buf start stop) lo hi = piece buf (start + lo) (start + hi) := by
  simp only [piece, List.drop_take, List.take_take, List.drop_drop]
  congr 1
  omega

theorem yields_piece (ordered : lo ≤ hi) (inside : hi ≤ buf.length) :
    Yields (slice buf lo hi : Eval Err Bytes) fun bs => bs = piece buf lo hi := by
  rw [slice_of_le ordered inside]
  exact yields_ok rfl

theorem field_traps {allowed : Trap → Prop} (order : ByteOrder) (ordered : lo ≤ hi)
    (inside : ¬ allowed .bounds → hi ≤ buf.length) :
    Traps allowed (field order buf lo hi) fun v => v = order.uint (piece buf lo hi) ∧ v < 256 ^ (hi - lo) := by
  refine (Eval.traps_slice fun safe => ⟨ordered, inside safe⟩).bind fun bs cut => (yields_ok ?_).traps
  obtain ⟨-, inside, rfl⟩ := cut
  have bound := order.uint_lt (piece buf lo hi)
  rw [piece_length ordered inside] at bound
  exact ⟨rfl, bound⟩

theorem field_yields (order : ByteOrder) (ordered : lo ≤ hi) (inside : hi ≤ buf.length) :
    Yields (field order buf lo hi) fun v => v = order.uint (piece buf lo hi) ∧ v < 256 ^ (hi - lo) :=
  (field_traps order ordered fun _ => inside).yields

theorem checkRange_yields (off size : Nat) :
    Yields (checkRange off size) fun _ => off + size ≤ maxInt64 := by
  refine .guarded fun small => ?_
  simp only [Bool.or_eq_false_iff, decide_eq_false_iff_not] at small
  refine (yields_subU64 (by omega)).bind fun last last_eq => (Eval.yields_guard _ _).mono fun _ room => ?_
  rw [decide_eq_false_iff_not] at room
  omega

theorem readIntoAt_yields (inside : off + size ≤ image.length) :
    Yields (readIntoAt image size off) fun buf => buf = piece image off (off + size) := by
  refine yields_ite (fun empty => yields_ok ?_) fun _ => ?_
  · simp [piece, empty]
  · exact (checkRange_yields off size).bind fun _ _ => yields_piece (by omega) inside

theorem readExactAt_yields (inside : off + size ≤ image.length) :
    Yields (readExactAt image off size) fun buf => buf = piece image off (off + size) := by
  refine yields_ite (fun empty => yields_ok ?_) fun _ => ?_
  · simp [piece, empty]
  · exact (checkRange_yields off size).bind fun _ _ => readIntoAt_yields inside

/-! ## Strings -/

variable {strtab : Bytes}

theorem refundStringScan_sure (n : Nat) : Sure (refundStringScan n) fun _ => True :=
  sure_charge fun _ => Eval.safe_ok _

/-- A NUL found by the scan lies inside the table.  Induction on the bytes of the
table that are left; `off` is where the string started. -/
theorem scanString_sure (small : strtab.length < 2 ^ 64) (off : Nat) :
    ∀ left curr scanned, strtab.length - curr ≤ left → curr = off + scanned →
      Sure (scanString strtab curr scanned) fun r =>
        ∀ strLen, r = .found strLen → off + strLen < strtab.length := by
  intro left
  induction left with
  | zero =>
    intro curr scanned bound place
    rw [scanString, dif_neg (by omega)]
    exact sure_pure nofun
  | succ left ih =>
    intro curr scanned bound place
    rw [scanString]
    split
    · rename_i inTable
      refine .lift (yields_subU64 (by omega)) fun avail exact => ?_
      refine accounts_sure.bind fun acc _ => ?_
      have allowance := acc.scanAllowance_le (min stringScanChunkSize avail)
      dsimp only
      split
      · exact (chargeStringScan_charges 1).sure.bind fun _ _ => sure_pure nofun
      · rename_i some
        generalize acc.scanAllowance (min stringScanChunkSize avail) = toCharge at *
        have inside : curr + toCharge ≤ strtab.length := by omega
        refine (chargeStringScan_charges toCharge).sure.bind fun _ _ => ?_
        refine .lift (yields_addU64 (by omega)) fun stop same => ?_
        subst same
        refine .lift (yields_piece (by omega) inside) fun chunk same => ?_
        have width : chunk.length = toCharge := by
          rw [same, piece_length (by omega) inside]
          omega
        cases hit : chunk.findIdx? (· == 0) with
        | some idx =>
          have before := (List.findIdx?_eq_some_iff_findIdx_eq.mp hit).1
          refine (sure_ite (fun _ => refundStringScan_sure _)
            fun _ => sure_pure trivial).bind fun _ _ => ?_
          refine .lift (yields_addU64 (by omega)) fun sum same =>
            sure_pure ?_
          intro strLen found
          cases found
          omega
        | none =>
          refine .lift (yields_addU64 (by omega)) fun sum same => ?_
          refine sure_ite (fun _ => ?_) fun _ => ih _ _ (by omega) (by omega)
          exact (chargeStringScan_charges 1).sure.bind fun _ _ => sure_pure nofun
    · exact sure_pure nofun

theorem scanBoundedCString_sure (small : strtab.length < 2 ^ 64) (off : Nat) (fieldName : String)
    (requireNonEmpty : Bool) :
    Sure (scanBoundedCString strtab off fieldName requireNonEmpty) fun _ => True := by
  refine .refused fun inside => ?_
  refine (scanString_sure small off _ off 0 le_rfl rfl).bind fun result place => ?_
  cases result with
  | gaveUp => exact sure_pure trivial
  | unterminated => exact sure_fail _ _
  | found strLen =>
    have last := place strLen rfl
    refine .guarded fun _ => ?_
    refine (chargeString_charges _).sure.bind fun _ _ => ?_
    refine .lift (yields_addU64 (by omega)) fun stop same => ?_
    exact sure_lift ((yields_piece (by omega) (by omega)).mono fun _ _ => trivial)

/-! ## Preflight -/

variable {fileSize ePhentsize : Nat}

/-- The byte order an accepted header announces. -/
def headerOrder (header : Bytes) : ByteOrder :=
  if header[5]? = some 1 then .littleEndian else .bigEndian

theorem byteAt_yields {data : Bytes} {i : Nat} (inside : i < data.length) :
    Yields (byteAt data i : Eval Err UInt8) fun b => data[i]? = some b := by
  rw [byteAt_of_lt inside]
  exact yields_ok (List.getElem?_eq_getElem inside)

theorem validateELFHeaderMagicAndEncoding_yields {data : Bytes} (width : data.length = 64) :
    Yields (validateELFHeaderMagicAndEncoding data) fun order => order = headerOrder data := by
  refine .refused fun _ => ?_
  refine (yields_piece (by decide) (by rw [width]; decide)).bind fun header same => ?_
  have whole : header = data := by simp [same, piece, minELFHeaderSize, width]
  subst whole
  have reads : ∀ i, i < 64 → Yields (byteAt header i : Eval Err UInt8) fun b =>
      header[i]? = some b := fun i small => byteAt_yields (by omega)
  refine (reads 0 (by decide)).bind fun _ _ => (reads 1 (by decide)).bind fun _ _ =>
    (reads 2 (by decide)).bind fun _ _ => (reads 3 (by decide)).bind fun _ _ => ?_
  refine .guarded fun _ => (reads 4 (by decide)).bind fun _ _ => ?_
  refine .guarded fun _ => (reads 5 (by decide)).bind fun encoding here => ?_
  have chosen : Yields (dataEncoding encoding) fun order => order = headerOrder header := by
    refine yields_ite (fun little => yields_ok ?_) fun other =>
      yields_ite (fun _ => yields_ok ?_) fun _ => Eval.yields_fail _ _
    · rw [headerOrder, here, little, if_pos rfl]
    · rw [headerOrder, here, if_neg (by simpa using other)]
  refine chosen.bind fun order same => (reads 6 (by decide)).bind fun _ _ => ?_
  exact .guarded fun _ => yields_ok same

theorem validateProgramHeaderTable_sure {ePhoff ePhnum : Nat} (entry : ePhentsize < 65536)
    (count : ePhnum < 65536) :
    Sure (validateProgramHeaderTable fileSize ePhoff ePhentsize ePhnum) fun _ =>
      0 < ePhnum → 56 ≤ ePhentsize ∧ ePhoff + ePhnum * ePhentsize ≤ fileSize := by
  have product : ePhentsize * ePhnum < 2 ^ 64 :=
    lt_of_le_of_lt (Nat.mul_le_mul entry.le count.le) (by decide)
  refine .refused fun _ => ?_
  refine sure_ite (fun none => sure_pure fun some => absurd none some.ne') fun _ => ?_
  refine .refused fun wide => ?_
  refine .refused fun starts => ?_
  refine .lift (yields_mulU64 product) fun tableSize size => ?_
  refine .lift (yields_subU64 (by omega)) fun room left => ?_
  refine .refused fun fits => ?_
  refine (chargeMetadata_charges _).sure.mono fun _ _ _ => ⟨Nat.not_lt.mp wide, ?_⟩
  rw [Nat.mul_comm]
  omega

theorem validateExtendedSections_sure (order : ByteOrder) {eShoff eShentsize : Nat}
    (small : image.length ≤ maxInt64) (starts : eShoff ≤ image.length) (wide : 64 ≤ eShentsize)
    (entry : eShentsize < 65536) :
    Sure (validateExtendedSections image order image.length eShoff eShentsize)
      fun _ => True := by
  have top : maxInt64 < 2 ^ 63 := by decide
  refine .lift (yields_subU64 starts) fun room left => ?_
  refine .refused fun fits => ?_
  have inside : eShoff + sectionZeroShnumOff + sectionZeroShnumBytes ≤ image.length := by
    simp only [sectionZeroShnumOff, sectionZeroShnumBytes]
    omega
  refine .lift (yields_addU64 (by omega)) fun at0 same => ?_
  subst same
  refine (reading_sure _ (readIntoAt_yields inside)).bind fun buf same => ?_
  have width : buf.length = sectionZeroShnumBytes := by
    rw [same, piece_length (by omega) inside]
    omega
  refine .lift (field_yields order (Nat.zero_le _) width.ge) fun real _ => ?_
  refine .refused fun few => ?_
  refine sure_ite (fun _ => sure_pure trivial) fun _ => ?_
  have product : real * eShentsize < 2 ^ 64 :=
    lt_of_le_of_lt (Nat.mul_le_mul (Nat.not_lt.mp few) entry.le) (by decide)
  refine .lift (yields_mulU64 product) fun _ _ => ?_
  refine .lift (yields_subU64 starts) fun _ _ => ?_
  exact .refused fun _ => (chargeMetadata_charges _).sure

theorem validateSectionHeaderTableReaderAt_sure (order : ByteOrder) {eShoff eShentsize eShnum : Nat}
    (small : image.length ≤ maxInt64) (entry : eShentsize < 65536) (count : eShnum < 65536) :
    Sure (validateSectionHeaderTableReaderAt image order image.length eShoff eShentsize
      eShnum) fun _ => True := by
  refine sure_ite (fun _ => sure_pure trivial) fun _ => ?_
  refine .refused fun wide => ?_
  refine .refused fun starts => ?_
  refine sure_ite (fun _ => validateExtendedSections_sure order small (by omega)
    (Nat.not_lt.mp wide) entry) fun _ => ?_
  have product : eShnum * eShentsize < 2 ^ 64 :=
    lt_of_le_of_lt (Nat.mul_le_mul count.le entry.le) (by decide)
  refine .lift (yields_mulU64 product) fun _ _ => ?_
  refine .lift (yields_subU64 (by omega)) fun _ _ => ?_
  exact .refused fun _ => (chargeMetadata_charges _).sure

/-- A header field as the inspection reads it. -/
def headerField (header : Bytes) (lo hi : Nat) : Nat := (headerOrder header).uint (piece header lo hi)

section

variable {header : Bytes}

theorem headerField_yields (width : header.length = 64) (bounds : lo ≤ hi ∧ hi ≤ 64) :
    Yields (field (headerOrder header) header lo hi) fun v =>
      v = headerField header lo hi ∧ v < 256 ^ (hi - lo) :=
  field_yields _ bounds.1 (by omega)

theorem headerOrder_eq {encoding : UInt8} (here : header[5]? = some encoding) :
    (if encoding = 1 then ByteOrder.littleEndian else ByteOrder.bigEndian) = headerOrder header := by
  simp [headerOrder, here]

end

/-- The header at the front of an image says what the image says. -/
theorem headerOrder_front (image : Bytes) : headerOrder (piece image 0 64) = headerOrder image := by
  simp [headerOrder, piece]

theorem headerField_front (inside : hi ≤ 64) : headerField (piece image 0 64) lo hi = headerField image lo hi := by
  rw [headerField, headerField, headerOrder_front, piece_piece (by omega), Nat.zero_add, Nat.zero_add]

/-- A header that passed the preflight: it is the front of the image, and its program header
table is in the image. -/
structure Preflighted (image header : Bytes) : Prop where
  front : header = piece image 0 64
  width : header.length = 64
  table : 0 < headerField header 56 58 → 56 ≤ headerField header 54 56 ∧
    headerField header 32 40 + headerField header 56 58 * headerField header 54 56 ≤ image.length

theorem preflight_sure (small : image.length ≤ maxInt64) :
    Sure (preflightELFHeadersReaderAtWithAccounting image image.length)
      (Preflighted image) := by
  refine .refused fun long => (chargeMetadata_charges _).sure.bind fun _ _ => ?_
  have inside : 0 + minELFHeaderSize ≤ image.length := by omega
  refine (reading_sure _ (readIntoAt_yields inside)).bind fun header front => ?_
  have width : header.length = 64 := by rw [front, piece_length (by omega) inside]; rfl
  refine .lift (validateELFHeaderMagicAndEncoding_yields width)
    fun order same => ?_
  subst same
  have reads {lo hi : Nat} := @headerField_yields lo hi header width
  refine .lift (reads (by decide)) fun _ _ => ?_
  refine .guarded fun _ => ?_
  refine .lift (reads (by decide)) fun phoff offset => ?_
  refine .lift (reads (by decide)) fun phentsize entry => ?_
  refine .lift (reads (by decide)) fun phnum count => ?_
  refine (validateProgramHeaderTable_sure entry.2 count.2).bind fun _ table => ?_
  refine .lift (reads (by decide)) fun shoff _ => ?_
  refine .lift (reads (by decide)) fun shentsize entry' => ?_
  refine .lift (reads (by decide)) fun shnum count' => ?_
  refine (validateSectionHeaderTableReaderAt_sure _ small entry'.2 count'.2).bind fun _ _ => ?_
  rw [offset.1, entry.1, count.1] at table
  exact sure_pure ⟨front, width, table⟩

/-! ## Segments -/

variable {seg : LoadSegment}

namespace LoadSegment

/-- The segment's file-backed part is in the file. -/
def Backed (fileSize : Nat) (seg : LoadSegment) : Prop := seg.off + seg.filesz ≤ fileSize

/-- A PT_LOAD segment that was accepted: its addresses do not wrap either. -/
structure Loadable (fileSize : Nat) (seg : LoadSegment) : Prop where
  backed : seg.Backed fileSize
  addresses : seg.vaddr + seg.filesz < 2 ^ 64

/-- The file-backed part of the segment holds the address. -/
def Covers (seg : LoadSegment) (vaddr : Nat) : Prop :=
  seg.vaddr ≤ vaddr ∧ vaddr < seg.vaddr + seg.filesz

instance (seg : LoadSegment) (vaddr : Nat) : Decidable (seg.Covers vaddr) :=
  inferInstanceAs (Decidable (_ ∧ _))

theorem holds_eq (ok : seg.Loadable fileSize) (vaddr : Nat) :
    seg.holds vaddr = .ok (decide (seg.Covers vaddr)) := by
  unfold holds
  split
  · rw [decide_eq_false fun covers => by have := covers.1; omega]
  · rw [addU64_of_lt ok.addresses]
    exact congrArg Except.ok (decide_eq_decide.mpr ⟨fun lower => ⟨by omega, lower⟩, fun covers => covers.2⟩)

end LoadSegment

theorem beyondFile_yields (fileSize : Nat) (seg : LoadSegment) (err : Err) :
    Yields (beyondFile fileSize seg err) fun _ => seg.Backed fileSize := by
  refine .refused fun starts => ?_
  refine (yields_subU64 (by omega)).bind fun room left => ?_
  refine (Eval.yields_refuse _).mono fun _ fits => ?_
  unfold LoadSegment.Backed
  omega

/-- Program header `i` of a table: its type and its segment. -/
def headerAt (order : ByteOrder) (phTable : Bytes) (ePhentsize i : Nat) : Nat × LoadSegment :=
  let value := fun lo hi => order.uint (piece (phTable.drop (i * ePhentsize)) lo hi)
  (value 0 4, ⟨value 8 16, value 16 24, value 32 40, value 40 48⟩)

/-- The program headers of a table, from `i` on. -/
def headersFrom (order : ByteOrder) (phTable : Bytes) (ePhentsize i left : Nat) : List (Nat × LoadSegment) :=
  (List.range' i left).map (headerAt order phTable ePhentsize)

/-- The segments of one type. -/
def segmentsOf (pType : Nat) (headers : List (Nat × LoadSegment)) : List LoadSegment :=
  (headers.filter (·.1 = pType)).map (·.2)

variable {headers : List (Nat × LoadSegment)} {pType : Nat}

theorem segmentsOf_add (headers : List (Nat × LoadSegment)) (seg : LoadSegment) :
    segmentsOf pType (headers ++ [(pType, seg)]) = segmentsOf pType headers ++ [seg] := by
  simp [segmentsOf]

theorem segmentsOf_skip {other : Nat} (differs : other ≠ pType) (headers : List (Nat × LoadSegment))
    (seg : LoadSegment) : segmentsOf pType (headers ++ [(other, seg)]) = segmentsOf pType headers := by
  simp [segmentsOf, differs]

/-- What the program headers establish about the segments they collect: the loads are all
of type PT_LOAD and the dynamic segment is the last of type PT_DYNAMIC. -/
structure ProgramHeaders.InFile (fileSize : Nat) (headers : List (Nat × LoadSegment))
    (found : ProgramHeaders) : Prop where
  loads : ∀ seg ∈ found.loads, seg.Loadable fileSize
  interp : ∀ seg ∈ found.interpProg, seg.Backed fileSize
  dynamic : ∀ seg ∈ found.dynamicProg, seg.Backed fileSize
  loaded : found.loads = segmentsOf 1 headers
  last : found.dynamicProg = (segmentsOf 2 headers).getLast?

variable {found : ProgramHeaders}

section

variable (ok : found.InFile fileSize headers)

include ok

theorem addLoad_yields (address : seg.vaddr < 2 ^ 64) :
    Yields (addLoad fileSize found seg) (ProgramHeaders.InFile fileSize (headers ++ [(1, seg)])) := by
  refine .refused fun filled => ?_
  refine (beyondFile_yields _ _ _).bind fun _ backed => ?_
  have top : maxUint64 = 2 ^ 64 - 1 := rfl
  refine (yields_subU64 (by omega)).bind fun space left => ?_
  refine .refused fun fits => yields_ok ⟨?_, ok.interp, ok.dynamic, ?_, ?_⟩
  · exact List.forall_mem_append.mpr ⟨ok.loads, List.forall_mem_singleton.mpr ⟨backed, by omega⟩⟩
  · rw [segmentsOf_add, ok.loaded]
  · rw [segmentsOf_skip (by decide), ok.last]

theorem setInterp_yields (seg : LoadSegment) :
    Yields (setInterp fileSize found seg) (ProgramHeaders.InFile fileSize (headers ++ [(3, seg)])) := by
  refine .guarded fun _ => .guarded fun _ =>
    .guarded fun _ => (beyondFile_yields _ _ _).bind fun _ backed => ?_
  refine yields_ok ⟨ok.loads, ?_, ok.dynamic, ?_, ?_⟩
  · rintro other ⟨⟩
    exact backed
  · rw [segmentsOf_skip (by decide), ok.loaded]
  · rw [segmentsOf_skip (by decide), ok.last]

theorem setDynamic_yields (seg : LoadSegment) :
    Yields (setDynamic fileSize found seg) (ProgramHeaders.InFile fileSize (headers ++ [(2, seg)])) := by
  refine (beyondFile_yields _ _ _).bind fun _ backed => yields_ok ⟨ok.loads, ok.interp, ?_, ?_, ?_⟩
  · rintro other ⟨⟩
    exact backed
  · rw [segmentsOf_skip (by decide), ok.loaded]
  · rw [segmentsOf_add, List.getLast?_concat]

theorem programHeader_yields (pType : Nat) (address : seg.vaddr < 2 ^ 64) :
    Yields (programHeader fileSize found pType seg)
      (ProgramHeaders.InFile fileSize (headers ++ [(pType, seg)])) := by
  unfold programHeader
  split
  · exact addLoad_yields ok address
  · exact setDynamic_yields ok seg
  · exact setInterp_yields ok seg
  · rename_i notLoad notDynamic _
    refine yields_ok ⟨ok.loads, ok.interp, ok.dynamic, ?_, ?_⟩
    · rw [segmentsOf_skip notLoad, ok.loaded]
    · rw [segmentsOf_skip notDynamic, ok.last]

end

/-- The values that are read are those of the header. -/
theorem headerAt_eq {order : ByteOrder} {phTable ph : Bytes} {i off vaddr filesz memsz : Nat}
    (rest : ph = phTable.drop (i * ePhentsize)) (type : pType = order.uint (piece ph 0 4))
    (offset : off = order.uint (piece ph 8 16)) (address : vaddr = order.uint (piece ph 16 24))
    (stored : filesz = order.uint (piece ph 32 40)) (used : memsz = order.uint (piece ph 40 48)) :
    (pType, (⟨off, vaddr, filesz, memsz⟩ : LoadSegment)) = headerAt order phTable ePhentsize i := by
  rw [headerAt, ← rest, type, offset, address, stored, used]

theorem headersFrom_succ (order : ByteOrder) (phTable : Bytes) (ePhentsize i left : Nat) :
    headersFrom order phTable ePhentsize i (left + 1) =
      headerAt order phTable ePhentsize i :: headersFrom order phTable ePhentsize (i + 1) left := by
  rw [headersFrom, List.range'_succ, List.map_cons, headersFrom]

/-- The loop over the headers of a table of any shape.  The place of an entry is computed
without wrapping: the entry before it started in the table, and so did an entry one entry size
into the table.  In a table of whole entries each one is there. -/
theorem programHeaders_traps {phTable : Bytes} {allowed : Trap → Prop} (order : ByteOrder)
    (table : phTable.length ≤ maxInt64) (entry : ePhentsize < 2 ^ 64) :
    ∀ left i found headers, i * ePhentsize < 2 ^ 64 → ProgramHeaders.InFile fileSize headers found →
      (¬ allowed .bounds → 56 ≤ ePhentsize ∧ (i + left) * ePhentsize = phTable.length) →
      Traps allowed (programHeaders phTable ePhentsize fileSize order left i found)
        (ProgramHeaders.InFile fileSize (headers ++ headersFrom order phTable ePhentsize i left)) := by
  intro left
  induction left with
  | zero =>
    intro i found headers _ ok _
    rw [headersFrom, List.range'_zero, List.map_nil, List.append_nil]
    exact (yields_ok ok).traps
  | succ left ih =>
    intro i found headers place ok whole
    have room : ¬ allowed .bounds → i * ePhentsize + 56 ≤ phTable.length := fun safe => by
      obtain ⟨wide, size⟩ := whole safe
      have := Nat.mul_le_mul_right ePhentsize (show i + 1 ≤ i + (left + 1) by omega)
      rw [Nat.succ_mul] at this
      omega
    refine (yields_mulU64 place).traps.bind fun start same => ?_
    subst same
    refine (Eval.traps_slice fun safe => ⟨by have := room safe; omega, le_rfl⟩).bind fun ph cut => ?_
    have rest : ph = phTable.drop (i * ePhentsize) := by
      rw [cut.2.2, List.take_of_length_le (by rw [List.length_drop])]
    have next : (i + 1) * ePhentsize < 2 ^ 64 := by
      have top : maxInt64 = 2 ^ 63 - 1 := rfl
      rcases Nat.eq_zero_or_pos i with rfl | later
      · omega
      · have := Nat.le_mul_of_pos_left ePhentsize later
        rw [Nat.succ_mul]
        omega
    have reads : ∀ lo hi, lo ≤ hi ∧ hi ≤ 56 → Traps allowed (field order ph lo hi) fun v =>
        v = order.uint (piece ph lo hi) ∧ v < 256 ^ (hi - lo) := fun lo hi bounds =>
      field_traps order bounds.1 fun safe => by
        have := room safe
        rw [rest, List.length_drop]
        omega
    refine (reads 0 4 (by decide)).bind fun pType type => ?_
    refine (reads 8 16 (by decide)).bind fun off offset => ?_
    refine (reads 16 24 (by decide)).bind fun vaddr address => ?_
    refine (reads 32 40 (by decide)).bind fun filesz stored => ?_
    refine (reads 40 48 (by decide)).bind fun memsz used => ?_
    refine (programHeader_yields ok pType address.2).traps.bind fun found' ok' => ?_
    rw [headersFrom_succ, List.append_cons]
    rw [headerAt_eq rest type.1 offset.1 address.1 stored.1 used.1] at ok'
    refine ih (i + 1) found' _ next ok' fun safe => ?_
    rw [Nat.add_right_comm]
    exact whole safe

theorem parseABIProgramHeaders_traps (allowed : Trap → Prop) {phTable : Bytes} {ePhnum : Nat} (order : ByteOrder)
    (table : phTable.length ≤ maxInt64) (entry : ePhentsize < 2 ^ 64)
    (whole : ¬ allowed .bounds → 0 < ePhnum → 56 ≤ ePhentsize ∧ ePhnum * ePhentsize = phTable.length) :
    Traps allowed (parseABIProgramHeaders phTable ePhnum ePhentsize fileSize order)
      (ProgramHeaders.InFile fileSize (headersFrom order phTable ePhentsize 0 ePhnum)) := by
  have start : ProgramHeaders.InFile fileSize [] {} := ⟨nofun, nofun, nofun, rfl, rfl⟩
  rcases Nat.eq_zero_or_pos ePhnum with rfl | some
  · exact (yields_ok start).traps
  · exact programHeaders_traps order table entry ePhnum 0 {} [] (by omega) start fun safe => by
      rw [Nat.zero_add]
      exact whole safe some

/-! ## Addresses -/

variable {vaddr : Nat} {loads : List LoadSegment}

/-- The segments whose file-backed part holds an address. -/
def covering (loads : List LoadSegment) (vaddr : Nat) : List LoadSegment :=
  loads.filter fun seg => decide (seg.Covers vaddr)

theorem covering_cons_of (covers : seg.Covers vaddr) (loads : List LoadSegment) :
    covering (seg :: loads) vaddr = seg :: covering loads vaddr :=
  List.filter_cons_of_pos (by simpa using covers)

theorem covering_cons_of_not (misses : ¬ seg.Covers vaddr) (loads : List LoadSegment) :
    covering (seg :: loads) vaddr = covering loads vaddr :=
  List.filter_cons_of_neg (by simpa using misses)

theorem mem_covering :
    seg ∈ covering loads vaddr ↔ seg ∈ loads ∧ seg.Covers vaddr := by
  simp [covering]

/-- An address that exactly one segment covers, with `size` bytes of the segment
after it, and the file offset it is mapped to. -/
structure Mapped (loads : List LoadSegment) (vaddr size off : Nat) (seg : LoadSegment) : Prop where
  only : covering loads vaddr = [seg]
  place : off = seg.off + (vaddr - seg.vaddr)
  backed : vaddr - seg.vaddr + size ≤ seg.filesz

theorem Mapped.mem (h : Mapped loads vaddr size off seg) : seg ∈ loads ∧ seg.Covers vaddr :=
  mem_covering.mp (by simp [h.only])

theorem Mapped.inside (h : Mapped loads vaddr size off seg) (ok : ∀ s ∈ loads, s.Loadable fileSize) :
    off + size ≤ fileSize := by
  have backed : seg.off + seg.filesz ≤ fileSize := (ok seg h.mem.1).backed
  have place := h.place
  have room := h.backed
  omega

/-- The loop of `translateVaddr` over segments of which `found` cover the
address, started with `foundOffset` after `matchCount` matches. -/
structure Matches (found : List LoadSegment) (vaddr size foundOffset matchCount : Nat)
    (r : Nat × Nat) : Prop where
  count : r.2 = matchCount + found.length
  none : found = [] → r.1 = foundOffset
  one : ∀ seg, found = [seg] →
    r.1 = seg.off + (vaddr - seg.vaddr) ∧ vaddr - seg.vaddr + size ≤ seg.filesz

/-- The loop fails only where a segment that covers the address ends before the range. -/
theorem translateLoads_ends (small : fileSize < 2 ^ 64) (vaddr size : Nat) :
    ∀ (loads : List LoadSegment), (∀ seg ∈ loads, seg.Loadable fileSize) → ∀ foundOffset matchCount,
      (translateLoads fileSize vaddr size loads foundOffset matchCount).Ends
        (Matches (covering loads vaddr) vaddr size foundOffset matchCount)
        fun _ => ∃ seg ∈ covering loads vaddr, seg.filesz < vaddr - seg.vaddr + size := by
  intro loads
  induction loads with
  | nil => exact fun _ _ _ => ⟨rfl, fun _ => rfl, nofun⟩
  | cons head loads ih =>
    intro ok foundOffset matchCount
    rw [List.forall_mem_cons] at ok
    rw [translateLoads, LoadSegment.holds_eq ok.1]
    by_cases covers : head.Covers vaddr
    · rw [covering_cons_of covers]
      obtain ⟨first, last⟩ := covers
      have backed : head.off + head.filesz ≤ fileSize := ok.1.backed
      rw [if_neg (by omega), ok_bind, if_pos (by simpa using ⟨first, last⟩), subU64_of_le first, ok_bind,
        subU64_of_le (by omega)]
      refine .guarded (fun short => ⟨head, List.mem_cons_self, ?_⟩) fun enough => ?_
      · rw [decide_eq_true_eq] at short
        omega
      rw [decide_eq_false_iff_not] at enough
      rw [addU64_of_lt (by omega), ok_bind]
      dsimp only
      rw [Eval.guard_pass (by simpa using by omega), ok_bind, subU64_of_le (by omega), ok_bind,
        Eval.guard_pass (by simpa using by omega)]
      have later := ih ok.2 (head.off + (vaddr - head.vaddr)) (matchCount + 1)
      refine later.mono (fun r held => ⟨?_, nofun, fun seg only => ?_⟩) fun _ ⟨seg, mem, short⟩ =>
        ⟨seg, List.mem_cons_of_mem _ mem, short⟩
      · rw [held.count, List.length_cons]
        omega
      -- nothing after `head` covers the address, so `head` decided the offset
      · obtain ⟨rfl, none⟩ := List.cons.inj only
        exact ⟨held.none none, by omega⟩
    · rw [covering_cons_of_not covers]
      have later := ih ok.2 foundOffset matchCount
      split
      · exact later
      · rw [ok_bind, if_neg (by simpa using covers)]
        exact later

/-- An address is translated where `Mapped` says, and only a missing place is an error. -/
theorem translateVaddr_ends (small : fileSize < 2 ^ 64) (ok : ∀ seg ∈ loads, seg.Loadable fileSize)
    (vaddr size : Nat) :
    (translateVaddr loads fileSize vaddr size).Ends (fun off => ∃ seg, Mapped loads vaddr size off seg)
      fun _ => ∀ off seg, ¬ Mapped loads vaddr size off seg := by
  refine .guarded (fun large off seg mapped => ?_) fun _ => ?_
  · have inside := mapped.inside ok
    rw [decide_eq_true_eq] at large
    omega
  refine ((translateLoads_ends small vaddr size loads ok 0 0).mono (fun _ held => held) fun _ failed => ?_).bind
    fun r held => ?_
  · obtain ⟨seg, mem, short⟩ := failed
    intro off seg' mapped
    rw [mapped.only, List.mem_singleton] at mem
    subst mem
    exact absurd mapped.backed (by omega)
  have count := held.count
  refine .guarded (fun none off seg mapped => ?_) fun some => .guarded (fun many off seg mapped => ?_) fun single => ?_
  · rw [beq_iff_eq, count, mapped.only] at none
    cases none
  · rw [decide_eq_true_eq, count, mapped.only] at many
    exact absurd many (lt_irrefl 1)
  simp only [beq_eq_false_iff_ne, decide_eq_false_iff_not] at some single
  obtain ⟨seg, only⟩ := List.length_eq_one_iff.mp (show (covering loads vaddr).length = 1 by omega)
  exact ⟨seg, only, (held.one seg only).1, (held.one seg only).2⟩

theorem availableFrom_yields :
    ∀ loads : List LoadSegment, (∀ s ∈ loads, s.Loadable fileSize) →
      covering loads vaddr = [seg] →
      Yields (availableFrom vaddr loads) fun n => n = seg.filesz - (vaddr - seg.vaddr) := by
  intro loads
  induction loads with
  | nil => nofun
  | cons head loads ih =>
    intro ok only
    rw [availableFrom, LoadSegment.holds_eq (ok head List.mem_cons_self), ok_bind]
    by_cases covers : head.Covers vaddr
    · rw [if_pos (by simpa using covers)]
      rw [covering_cons_of covers] at only
      obtain ⟨rfl, -⟩ := List.cons.inj only
      have last := covers.2
      refine (yields_subU64 covers.1).bind fun inside same => ?_
      subst same
      exact yields_subU64 (by have := covers.1; omega)
    · rw [if_neg (by simpa using covers)]
      rw [covering_cons_of_not covers] at only
      exact ih (fun s member => ok s (List.mem_cons_of_mem _ member)) only

/-! ## The dynamic table -/

/-- Entry `i` of a dynamic table: its tag and its value. -/
def dynamicAt (order : ByteOrder) (dynBytes : Bytes) (i : Nat) : Nat × Nat :=
  (order.uint (piece dynBytes (i * 16) (i * 16 + 8)), order.uint (piece dynBytes (i * 16 + 8) (i * 16 + 16)))

/-- The entries of a dynamic table from `i` on, up to DT_NULL. -/
def dynamicFrom (order : ByteOrder) (dynBytes : Bytes) (i left : Nat) : List (Nat × Nat) :=
  ((List.range' i left).map (dynamicAt order dynBytes)).takeWhile (·.1 ≠ 0)

/-- A tag of the table has one value: the one that was kept, if it was seen. -/
def Tagged (entries : List (Nat × Nat)) (tag : Nat) (seen : Bool) (value : Nat) : Prop :=
  ∀ v, (tag, v) ∈ entries ↔ seen = true ∧ v = value

section

variable {entries : List (Nat × Nat)} {tag : Nat} {seen : Bool} {value : Nat} (tagged : Tagged entries tag seen value)

include tagged

theorem Tagged.skip {other : Nat} (differs : other ≠ tag) (v : Nat) :
    Tagged (entries ++ [(other, v)]) tag seen value := by
  intro v'
  rw [List.mem_append, tagged v', List.mem_singleton, Prod.mk.injEq]
  exact or_iff_left fun same => differs same.1.symm

theorem Tagged.add {v : Nat} (same : seen = true → value = v) : Tagged (entries ++ [(tag, v)]) tag true v := by
  intro v'
  rw [List.mem_append, tagged v', List.mem_singleton, Prod.mk.injEq]
  constructor
  · rintro (⟨before, rfl⟩ | ⟨-, rfl⟩)
    · exact ⟨rfl, same before⟩
    · exact ⟨rfl, rfl⟩
  · exact fun now => .inr ⟨rfl, now.2⟩

end

/-- The version tags are those of the entries. -/
structure DynamicTags.Of (entries : List (Nat × Nat)) (tags : DynamicTags) : Prop where
  verneed : Tagged entries 0x6ffffffe tags.hasVerneed tags.verneedVaddr
  verneedNum : Tagged entries 0x6fffffff tags.hasVerneedNum tags.verneedNum

theorem onlyValue_yields (seen : Bool) (old new : Nat) (name : String) (shown : Nat → List Part) :
    Yields (onlyValue seen old new name shown) fun _ => seen = true → old = new := by
  refine (Eval.yields_guard _ _).mono fun _ passed before => ?_
  simpa [before] using passed

variable {tags : DynamicTags} {entries : List (Nat × Nat)}

theorem dynamicEntry_yields (ok : tags.Of entries) (dTag dVal : Nat) :
    Yields (dynamicEntry tags dTag dVal) (DynamicTags.Of (entries ++ [(dTag, dVal)])) := by
  unfold dynamicEntry
  split
  · exact yields_ok ⟨ok.verneed.skip (by decide) _, ok.verneedNum.skip (by decide) _⟩
  · exact (onlyValue_yields _ _ _ _ _).bind fun _ _ =>
      yields_ok ⟨ok.verneed.skip (by decide) _, ok.verneedNum.skip (by decide) _⟩
  · exact (onlyValue_yields _ _ _ _ _).bind fun _ _ =>
      yields_ok ⟨ok.verneed.skip (by decide) _, ok.verneedNum.skip (by decide) _⟩
  · exact (onlyValue_yields _ _ _ _ _).bind fun _ same =>
      yields_ok ⟨ok.verneed.add same, ok.verneedNum.skip (by decide) _⟩
  · exact (onlyValue_yields _ _ _ _ _).bind fun _ same =>
      yields_ok ⟨ok.verneed.skip (by decide) _, ok.verneedNum.add same⟩
  · exact yields_ok ⟨ok.verneed.skip ‹_› _, ok.verneedNum.skip ‹_› _⟩

/-- The loop over the entries, which DT_NULL ends. -/
theorem dynamicEntries_yields {dynBytes : Bytes} (order : ByteOrder)
    (small : dynBytes.length < 2 ^ 64) :
    ∀ left i tags entries, (i + left) * dynamicEntrySize ≤ dynBytes.length → DynamicTags.Of entries tags →
      Yields (dynamicEntries dynBytes order left i tags) fun r =>
        r.1.Of (entries ++ dynamicFrom order dynBytes i left) := by
  intro left
  induction left with
  | zero =>
    intro i tags entries _ ok
    exact yields_ok (by simpa [dynamicFrom] using ok)
  | succ left ih =>
    intro i tags entries inside ok
    simp only [dynamicEntrySize] at inside
    simp only [dynamicEntries, dynamicEntrySize]
    refine (yields_mulU64 (by omega)).bind fun off same => ?_
    refine (yields_addU64 (by omega)).bind fun valOff same' => ?_
    refine (yields_addU64 (by omega)).bind fun stop same'' => ?_
    refine (field_yields order (by omega) (by omega)).bind fun dTag tag => ?_
    refine (field_yields order (by omega) (by omega)).bind fun dVal value => ?_
    have here : dynamicAt order dynBytes i = (dTag, dVal) := by
      rw [dynamicAt, tag.1, value.1, same', same'', same]
    rw [dynamicFrom, List.range'_succ, List.map_cons, here]
    refine yields_ite (fun null => yields_ok ?_) fun other => ?_
    · rw [List.takeWhile_cons_of_neg (by simpa using null), List.append_nil]
      exact ok
    · rw [List.takeWhile_cons_of_pos (by simpa using other), List.append_cons]
      refine (dynamicEntry_yields ok dTag dVal).bind fun tags' ok' => ?_
      exact ih (i + 1) tags' _ (by simp only [dynamicEntrySize]; omega) ok'

theorem scanDynamicEntriesBuf_yields {dynBytes : Bytes} {numDyn : Nat} (order : ByteOrder)
    (small : dynBytes.length < 2 ^ 64) (size : numDyn * dynamicEntrySize ≤ dynBytes.length) :
    Yields (scanDynamicEntriesBuf dynBytes numDyn order)
      (DynamicTags.Of (dynamicFrom order dynBytes 0 numDyn)) := by
  have start : DynamicTags.Of [] {} := ⟨fun _ => by simp, fun _ => by simp⟩
  refine (dynamicEntries_yields order small numDyn 0 {} [] (by rwa [Nat.zero_add]) start).bind fun _ ok => ?_
  exact .guarded fun _ => yields_ok ok

theorem clipStrtab_yields (strtab : Bytes) (strtabSize : Nat) :
    Yields (clipStrtab strtab strtabSize) fun clipped => clipped.length ≤ strtab.length := by
  refine yields_ite (fun longer => ?_) fun _ => yields_ok le_rfl
  refine (yields_piece (Nat.zero_le _) longer.le).mono fun clipped same => ?_
  rw [same, piece_length (Nat.zero_le _) longer.le]
  omega

theorem neededNames_sure (small : strtab.length < 2 ^ 64) :
    ∀ offs, Sure (neededNames strtab offs) fun _ => True := by
  intro offs
  induction offs with
  | nil => exact sure_pure trivial
  | cons off offs ih =>
    refine (scanBoundedCString_sure small off _ _).bind fun _ _ => ?_
    exact ih.bind fun _ _ => sure_pure trivial

theorem parseNeededDependencies_sure (small : strtab.length < 2 ^ 64) (strtabSize : Nat)
    (neededOffsets : List Nat) :
    Sure (parseNeededDependencies strtab strtabSize neededOffsets) fun _ => True := by
  refine .lift (clipStrtab_yields strtab strtabSize) fun clipped shorter => ?_
  refine .guarded fun _ => ?_
  exact neededNames_sure (by omega) neededOffsets

theorem resolveDynamicStrtabReaderAt_sure (small : image.length < 2 ^ 64)
    (ok : ∀ seg ∈ loads, seg.Loadable image.length) (tags : DynamicTags) :
    Sure (resolveDynamicStrtabReaderAt image loads image.length tags) fun strtab =>
      strtab.length ≤ image.length := by
  refine sure_ite (fun _ => sure_pure (Nat.zero_le _)) fun _ => ?_
  refine .guarded fun _ => .guarded fun _ =>
    (chargeMetadata_charges _).sure.bind fun _ _ => ?_
  refine .lift (translateVaddr_ends small ok _ _).yields.mapError fun off found => ?_
  obtain ⟨seg, mapped⟩ := found
  have inside := mapped.inside ok
  refine (reading_sure _ (readExactAt_yields inside)).mono fun strtab same => ?_
  rw [same, piece_length (by omega) inside]
  omega

end Microfat.Pack
