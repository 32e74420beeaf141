/-
# Microfat.Pack.AbiVersions — the version records an inspection visits

The version-needed records of an image form a chain, and each of them heads a
chain of auxiliary records; both are linked by relative offsets from the image,
which may point backwards.  A chain stays in the window its segment backs
because every step checks its place before it reads, it never returns to a place
because the places already read are kept, and it ends because the number of
steps is fixed beforehand by a count that the last record must agree with.

`inspectELFABI_visits` is the result: on every image the inspection returns
without leaving the image and without a 64-bit operation wrapping around, and a
report that calls the version metadata complete comes with exactly the declared
records, at the places their links lead to, which are distinct and inside the
segment that holds the first of them.
-/
import Mathlib.Data.List.Iterate
import Microfat.Pack.AbiBounds

namespace Microfat.Pack

open Theory Metered

set_option autoImplicit false

/-! ## Windows -/

variable {curr : Nat}

/-- Where a relative offset leads: it is a signed 32-bit number. -/
def relativePlace (off rel : Nat) : Nat :=
  ((off : Int) + Int.bmod rel (2 ^ 32)).toNat

/-- The place a record at `off` links to: `vn_next` and `vna_next` are its last four bytes. -/
def linkFrom (image : Bytes) (order : ByteOrder) (off : Nat) : Nat :=
  relativePlace off (order.uint (piece image (off + 12) (off + 16)))

theorem relativeTarget_yields {rel : Nat} (place : curr < 2 ^ 63) (narrow : rel < 2 ^ 32) :
    Eval.Yields (relativeTarget curr rel) fun off => off ≤ curr + 2 ^ 32 ∧ off = relativePlace curr rel := by
  unfold relativePlace
  refine Eval.yields_ite (fun forward => ?_) fun backward => ?_
  · refine (yields_addU64 (by omega)).mono fun _ same => ?_
    rw [Int.bmod_eq_of_le (by omega) (by omega)]
    omega
  · refine (yields_subU64 (by omega)).bind fun neg distance => .refused fun enough => ?_
    refine (yields_subU64 (by omega)).mono fun _ same => ?_
    rw [← Int.sub_bmod_right, Int.bmod_eq_of_le (by omega) (by omega)]
    omega

namespace Window

/-- A record of 16 bytes at `off` lies inside the window. -/
def Has (w : Window) (off : Nat) : Prop :=
  w.verneedOff ≤ off ∧ off + 16 ≤ w.verneedOff + w.availableBytes

/-- The window lies in the file and has room for a record. -/
structure InFile (fileSize : Nat) (w : Window) : Prop where
  room : 16 ≤ w.availableBytes
  inside : w.verneedOff + w.availableBytes ≤ fileSize

variable {w : Window} {fileSize : Nat}

theorem check_yields (ok : w.InFile fileSize) (small : fileSize < 2 ^ 64) (curr : Nat) (err : Err) :
    Eval.Yields (w.check curr 16 err) fun _ => w.Has curr := by
  have room := ok.room
  have inside := ok.inside
  refine (yields_addU64 (by omega)).bind fun stop same => ?_
  refine (yields_subU64 (by omega)).bind fun last same' => ?_
  refine (Eval.yields_guard _ _).mono fun _ passed => ?_
  simp only [Bool.or_eq_false_iff, decide_eq_false_iff_not] at passed
  unfold Has
  omega

theorem next_yields (ok : w.InFile fileSize) (small : fileSize ≤ maxInt64) {rel : Nat}
    (here : w.Has curr) (narrow : rel < 2 ^ 32) (isLast : Bool) (dress : Err → Err)
    (premature contradictory : Err) :
    Eval.Yields (w.next curr rel 16 isLast dress premature contradictory) fun next =>
      isLast = false → next = relativePlace curr rel := by
  have inside := ok.inside
  have place := here.2
  have top : maxInt64 < 2 ^ 63 := by decide
  refine Eval.yields_ite (fun last => ?_) fun _ => ?_
  · exact .guarded fun _ => Eval.yields_ok fun more => by simp [more] at last
  · refine .guarded fun _ => ?_
    refine (yields_addU64 (by omega)).bind fun stop _ => Eval.Yields.mapError ?_
    refine .guarded fun _ => ?_
    refine (relativeTarget_yields (by omega) narrow).bind fun off target => .guarded fun _ => ?_
    refine (yields_addU64 (by omega)).bind fun _ _ => ?_
    exact .guarded fun _ => Eval.yields_ok fun _ => target.2

end Window

/-! ## Auxiliary records -/

variable {image strtab : Bytes}

/-- The auxiliary records of the record at `parent`: inside the window, off their
parent, at distinct places. -/
structure AuxPlaces (w : Window) (parent : Nat) (visited : List Nat) : Prop where
  distinct : visited.Nodup
  inside : ∀ off ∈ visited, w.Has off
  apart : ∀ off ∈ visited, off + 16 ≤ parent ∨ parent + 16 ≤ off

/-- Step of the chain: a place that passed the checks joins the places visited. -/
theorem AuxPlaces.visit {w : Window} {parent : Nat} {visited : List Nat}
    (ok : AuxPlaces w parent visited) (here : w.Has curr)
    (apart : curr + 16 ≤ parent ∨ parent + 16 ≤ curr) (new : curr ∉ visited) :
    AuxPlaces w parent (visited ++ [curr]) where
  distinct := ok.distinct.append (List.nodup_singleton curr) (List.disjoint_singleton.mpr new)
  inside := List.forall_mem_append.mpr ⟨ok.inside, List.forall_mem_singleton.mpr here⟩
  apart := List.forall_mem_append.mpr ⟨ok.apart, List.forall_mem_singleton.mpr apart⟩

/-- A chain goes on where its first record links to; behind its last one nothing is read. -/
theorem iterate_linked {link : Nat → Nat} {next left : Nat} (linked : 0 < left → next = link curr) :
    curr :: List.iterate link next left = List.iterate link curr (left + 1) := by
  cases left with
  | zero => rfl
  | succ left => rw [linked left.succ_pos]; rfl

/-- What a chain of records is read from: an image a file offset can address, a
window in it, and a string table that was read from it. -/
structure ChainSource (image : Bytes) (w : Window) (strtab : Bytes) : Prop where
  small : image.length ≤ maxInt64
  window : w.InFile image.length
  strings : strtab.length < 2 ^ 64

theorem ChainSource.record {w : Window} (src : ChainSource image w strtab) (here : w.Has curr) :
    Eval.Yields (readIntoAt image 16 curr) fun buf =>
      buf = piece image curr (curr + 16) ∧ buf.length = 16 := by
  have inside : curr + 16 ≤ image.length := here.2.trans src.window.inside
  refine (readIntoAt_yields inside).mono fun buf same => ⟨same, ?_⟩
  rw [same, piece_length (by omega) inside]
  omega

theorem link_eq {order : ByteOrder} {buf : Bytes} (read : buf = piece image curr (curr + 16)) :
    relativePlace curr (order.uint (piece buf 12 16)) = linkFrom image order curr := by
  rw [read, piece_piece le_rfl, linkFrom]

theorem ChainSource.wide {w : Window} (src : ChainSource image w strtab) :
    image.length < 2 ^ 63 :=
  lt_of_le_of_lt src.small (by decide)

/-- Run of the chain, by induction on the records left. -/
theorem vernauxChain_sure {w : Window} (src : ChainSource image w strtab) (order : ByteOrder)
    {vnCnt parent : Nat} (parentHere : w.Has parent) (libName : Bytes) :
    ∀ left auxIdx curr visited reqs, auxIdx + left = vnCnt → AuxPlaces w parent visited →
      Sure (vernauxChain image order w vnCnt parent libName strtab left auxIdx curr visited
        reqs) fun r => AuxPlaces w parent r.2 ∧
          r.2 = visited ++ List.iterate (linkFrom image order) curr left := by
  have wide := src.wide
  have windowEnd := src.window.inside
  intro left
  induction left with
  | zero => exact fun _ _ _ _ _ ok => sure_pure ⟨ok, (List.append_nil _).symm⟩
  | succ left ih =>
    intro auxIdx curr visited reqs count ok
    refine chargeVersionRecord_charges.sure.bind fun _ _ => (chargeMetadata_charges _).sure.bind fun _ _ => ?_
    refine .lift (Window.check_yields src.window (by omega) curr _)
      fun _ here => ?_
    have place := here.2
    have parentEnd := parentHere.2
    refine .lift (yields_addU64 (b := 16) (by omega)) fun _ same => ?_
    refine .lift (yields_addU64 (b := 16) (by omega)) fun _ same' => ?_
    refine .guarded fun apart => ?_
    refine .guarded fun new => ?_
    refine (reading_sure _ (src.record here)).bind fun buf read => ?_
    refine .lift (field_yields order (by decide) (by omega)) fun _ _ => ?_
    refine .lift (field_yields order (by decide) (by omega)) fun _ _ => ?_
    refine .lift (field_yields order (by decide) (by omega))
      fun vnaNext narrow => ?_
    refine (scanBoundedCString_sure src.strings _ _ _).bind fun _ _ => ?_
    refine .lift (yields_subU64 (by omega)) fun _ lastIdx => ?_
    refine .lift (Window.next_yields src.window src.small here narrow.2 _ _ _ _)
      fun next linked => ?_
    simp only [Bool.and_eq_false_iff, decide_eq_false_iff_not] at apart
    refine (ih (auxIdx + 1) next (visited ++ [curr]) _ (by omega)
      (ok.visit here (by omega) (by simpa using new))).mono fun r held => ⟨held.1, ?_⟩
    rw [held.2, List.append_assoc, List.singleton_append, iterate_linked fun more => ?_]
    rw [linked (decide_eq_false (by omega)), narrow.1, link_eq read.1]

/-! ## Version-needed records -/

/-- Where the auxiliary records of a record at `off` lie: from the distance `vn_aux` on. -/
def auxChain (image : Bytes) (order : ByteOrder) (off count : Nat) : List Nat :=
  List.iterate (linkFrom image order) (off + order.uint (piece image (off + 8) (off + 12))) count

/-- A visited record: it lies in the window, its count is the one the image
declares, and the auxiliary records of that chain were visited. -/
structure RecordPlaces (image : Bytes) (order : ByteOrder) (w : Window) (r : VerneedRecord) :
    Prop where
  inside : w.Has r.off
  declared : r.count = order.uint (piece image (r.off + 2) (r.off + 4))
  visited : r.aux = auxChain image order r.off r.count
  aux : AuxPlaces w r.off r.aux

theorem auxRecords_sure {w : Window} (src : ChainSource image w strtab) (order : ByteOrder)
    {vnCnt vnAux : Nat} (here : w.Has curr) (narrow : vnAux < 2 ^ 32) (libName : Bytes)
    (reqs : List VersionRequirement) :
    Sure (auxRecords image order w vnCnt vnAux curr libName strtab reqs) fun r =>
      AuxPlaces w curr r.2 ∧ r.2 = List.iterate (linkFrom image order) (curr + vnAux) vnCnt := by
  have wide := src.wide
  have windowEnd := src.window.inside
  have place := here.2
  have start : AuxPlaces w curr [] := ⟨List.nodup_nil, nofun, nofun⟩
  refine sure_ite (fun none => sure_pure ⟨start, by rw [none]; rfl⟩) fun _ => ?_
  refine .lift (yields_addU64 (by omega)) fun first place => ?_
  refine .lift (clipStrtab_yields strtab strtab.length) fun clipped shorter => ?_
  have src' : ChainSource image w clipped := ⟨src.small, src.window, by have := src.strings; omega⟩
  rw [← place]
  exact vernauxChain_sure src' order here libName vnCnt 0 first [] reqs (by omega) start

theorem validateVerneedAuxOffset_yields {w : Window} {fileSize : Nat} (ok : w.InFile fileSize)
    (small : fileSize < 2 ^ 64) (here : w.Has curr) (vnCnt vnAux recordIdx : Nat) :
    Eval.Yields (validateVerneedAuxOffset w vnCnt vnAux recordIdx curr) fun _ => True := by
  have inside := ok.inside
  have place := here.2
  refine Eval.yields_ite (fun _ => Eval.yields_ok trivial) fun _ => ?_
  refine .guarded fun _ => ?_
  refine (yields_addU64 (by omega)).bind fun stop same => ?_
  refine (yields_subU64 (by omega)).bind fun rem same' => ?_
  refine .refused fun enough => ?_
  refine (yields_subU64 (by omega)).bind fun last _ => ?_
  exact (Eval.yields_guard _ _).mono fun _ _ => trivial

/-- The records read so far, at distinct places. -/
structure Records (image : Bytes) (order : ByteOrder) (w : Window) (records : List VerneedRecord) :
    Prop where
  distinct : (records.map (·.off)).Nodup
  each : ∀ r ∈ records, RecordPlaces image order w r

theorem Records.visit {order : ByteOrder} {w : Window} {records : List VerneedRecord}
    (ok : Records image order w records) {r : VerneedRecord} (here : RecordPlaces image order w r)
    (new : r.off ∉ records.map (·.off)) :
    Records image order w (records ++ [r]) where
  distinct := by
    rw [List.map_append]
    exact ok.distinct.append (List.nodup_singleton _) (List.disjoint_singleton.mpr new)
  each := List.forall_mem_append.mpr ⟨ok.each, List.forall_mem_singleton.mpr here⟩

/-- `after` is `before` with other version data and warnings. -/
def SameBinary (before after : VariantABIReport) : Prop :=
  after = { before with
    versionRequirements := after.versionRequirements
    completeness := after.completeness
    warnings := after.warnings }

/-- How a walk over version-needed records ends: all of them visited, or stopped
at one of an unsupported version. -/
structure Walked (image : Bytes) (order : ByteOrder) (w : Window) (places : List Nat)
    (report : VariantABIReport) (r : VariantABIReport × List VerneedRecord) : Prop where
  binary : SameBinary report r.1
  records : Records image order w r.2
  finished : r.1.completeness = .metadataUnsupported ∨
    r.1.completeness = report.completeness ∧ r.2.map (·.off) = places

theorem verneedChain_sure {w : Window} (src : ChainSource image w strtab) (order : ByteOrder)
    {verneedNum : Nat} :
    ∀ left recordIdx curr records report, recordIdx + left = verneedNum →
      Records image order w records →
      Sure (verneedChain image order w verneedNum strtab left recordIdx curr records report)
        (Walked image order w (records.map (·.off) ++ List.iterate (linkFrom image order) curr left)
          report) := by
  have wide := src.wide
  have windowEnd := src.window.inside
  intro left
  induction left with
  | zero => exact fun _ _ _ _ _ ok => sure_pure ⟨rfl, ok, .inr ⟨rfl, (List.append_nil _).symm⟩⟩
  | succ left ih =>
    intro recordIdx curr records report count ok
    refine chargeVersionRecord_charges.sure.bind fun _ _ => (chargeMetadata_charges _).sure.bind fun _ _ => ?_
    refine .lift (Window.check_yields src.window (by omega) curr _)
      fun _ here => ?_
    refine .guarded fun new => ?_
    refine (reading_sure _ (src.record here)).bind fun buf read => ?_
    refine .lift (field_yields order (by decide) (by omega)) fun version _ => ?_
    refine sure_ite (fun _ => ?_) fun _ => ?_
    · refine Sure.bind ((chargeString_charges _).sure.bind fun _ _ =>
        sure_pure (rfl : _ = _)) fun stopped same => ?_
      exact sure_pure ⟨by rw [← same]; rfl, ok, .inl (by rw [← same])⟩
    refine .lift (field_yields order (by decide) (by omega))
      fun vnCnt declared => ?_
    refine .lift (field_yields order (by decide) (by omega)) fun vnFile _ => ?_
    refine .lift (field_yields order (by decide) (by omega))
      fun vnAux auxNarrow => ?_
    refine .lift (field_yields order (by decide) (by omega))
      fun vnNext nextNarrow => ?_
    refine .lift (validateVerneedAuxOffset_yields src.window (by omega) here _ _
      _) fun _ _ => ?_
    refine (scanBoundedCString_sure src.strings _ _ _).bind fun libName _ => ?_
    refine (auxRecords_sure src order here auxNarrow.2 libName _).bind fun aux visited => ?_
    refine .lift ((yields_subU64 (by omega)).bind fun lastIdx same =>
      (Window.next_yields src.window src.small here nextNarrow.2 _ _ _ _).mono fun next linked =>
        show 0 < left → next = linkFrom image order curr from fun more => ?_) fun next linked => ?_
    · rw [linked (decide_eq_false (by omega)), nextNarrow.1, link_eq read.1]
    have added : Records image order w (records ++ [⟨curr, vnCnt, aux.2⟩]) := by
      refine ok.visit ⟨here, ?_, ?_, visited.1⟩ (by simpa using new)
      · rw [declared.1, read.1, piece_piece (by omega)]
      · rw [visited.2, auxNarrow.1, read.1, piece_piece (by omega), auxChain]
    refine (ih (recordIdx + 1) next _ { report with versionRequirements := aux.1 } (by omega)
      added).mono fun r walked => ⟨?_, walked.records, ?_⟩
    · rw [SameBinary, walked.binary]
    · have finished := walked.finished
      rw [List.map_append, List.map_singleton, List.append_assoc, List.singleton_append,
        iterate_linked linked] at finished
      exact finished

/-! ## The whole inspection -/

variable {report : VariantABIReport}

/-- The program headers of an image, as its header announces them. -/
def imageHeaders (image : Bytes) : List (Nat × LoadSegment) :=
  headersFrom (headerOrder image)
    (piece image (headerField image 32 40)
      (headerField image 32 40 + headerField image 56 58 * headerField image 54 56))
    (headerField image 54 56) 0 (headerField image 56 58)

/-- The entries of a PT_DYNAMIC segment of an image, up to DT_NULL. -/
def imageDynamic (image : Bytes) (seg : LoadSegment) : List (Nat × Nat) :=
  dynamicFrom (headerOrder image) (piece image seg.off (seg.off + seg.filesz)) 0 (seg.filesz / 16)

/-- What the image itself says of its version records: its byte order, its PT_LOAD segments,
and in the last PT_DYNAMIC segment the one value of DT_VERNEED and of DT_VERNEEDNUM. -/
structure VersionTrace.Declared (image : Bytes) (t : VersionTrace) : Prop where
  order : t.order = headerOrder image
  loads : t.loads = segmentsOf 1 (imageHeaders image)
  dynamic : ∃ seg, (segmentsOf 2 (imageHeaders image)).getLast? = some seg ∧
    (∀ vaddr, (0x6ffffffe, vaddr) ∈ imageDynamic image seg ↔ vaddr = t.verneedVaddr) ∧
    ∀ num, (0x6fffffff, num) ∈ imageDynamic image seg ↔ num = t.verneedNum

/-- Exactly the declared version records were visited: as many as DT_VERNEEDNUM
says, at distinct places, each with the auxiliary records it declares, at
distinct places off itself, and all of them in the file-backed part of the
segment that holds DT_VERNEED.  The first lies where that segment stores
DT_VERNEED, and every other one where the one before it links to. -/
structure VersionTrace.Visited (image : Bytes) (t : VersionTrace) : Prop where
  source : t.Declared image
  count : t.records.length = t.verneedNum
  distinct : (t.records.map (·.off)).Nodup
  declared : ∀ r ∈ t.records, r.count = t.order.uint (piece image (r.off + 2) (r.off + 4))
  auxCount : ∀ r ∈ t.records, r.aux.length = r.count
  auxLinked : ∀ r ∈ t.records, r.aux = auxChain image t.order r.off r.count
  auxDistinct : ∀ r ∈ t.records, r.aux.Nodup
  auxApart : ∀ r ∈ t.records, ∀ off ∈ r.aux,
    off + vernauxEntrySize ≤ r.off ∨ r.off + verneedEntrySize ≤ off
  segment : ∃ seg ∈ t.loads, seg.Covers t.verneedVaddr ∧ seg.off + seg.filesz ≤ image.length ∧
    t.records.map (·.off) = List.iterate (linkFrom image t.order)
      (seg.off + (t.verneedVaddr - seg.vaddr)) t.verneedNum ∧
    ∀ r ∈ t.records, ∀ off ∈ r.off :: r.aux, seg.off ≤ off ∧ off + 16 ≤ seg.off + seg.filesz

/-- What the version metadata of an image may do to its report. -/
structure VersionsRead (image : Bytes) (report : VariantABIReport)
    (r : VariantABIReport × Option VersionTrace) : Prop where
  binary : SameBinary report r.1
  completeness : r.1.completeness ≠ .metadataPartial ∧ r.1.completeness ≠ .metadataSkipped
  visited : r.1.completeness = .metadataComplete → ∃ t, r.2 = some t ∧ t.Visited image

theorem parseVerneedReaderAt_sure (small : image.length ≤ maxInt64)
    (strings : strtab.length ≤ image.length) {loads : List LoadSegment}
    (ok : ∀ seg ∈ loads, seg.Loadable image.length) {order : ByteOrder} {verneedVaddr verneedNum : Nat}
    (declared : ∀ records, VersionTrace.Declared image ⟨order, loads, verneedVaddr, verneedNum, records⟩)
    (report : VariantABIReport) :
    Sure (parseVerneedReaderAt image loads image.length order verneedVaddr verneedNum strtab
      report) fun r => VersionsRead image report (r.1, some r.2) := by
  have wide : image.length < 2 ^ 63 := lt_of_le_of_lt small (by decide)
  refine .guarded fun _ => ?_
  refine (sure_ite (fun _ => (requireMetadata_charges _).sure)
    fun _ => sure_pure trivial).bind fun _ _ => ?_
  refine .lift (translateVaddr_ends (by omega) ok _ _).yields.mapError
    fun off found => ?_
  obtain ⟨seg, mapped⟩ := found
  refine .lift (availableFrom_yields loads ok mapped.only) fun avail same => ?_
  have backed : seg.off + seg.filesz ≤ image.length := (ok seg mapped.mem.1).backed
  have place := mapped.place
  have room : verneedVaddr - seg.vaddr + 16 ≤ seg.filesz := mapped.backed
  have window : Window.InFile image.length ⟨off, avail⟩ :=
    ⟨show 16 ≤ avail by omega, show off + avail ≤ image.length by omega⟩
  refine (verneedChain_sure ⟨small, window, by omega⟩ order verneedNum 0 off [] report
    (by omega) ⟨List.nodup_nil, nofun⟩).bind fun r walked => ?_
  refine sure_ite (fun stopped => sure_pure ⟨walked.binary, ?_, ?_⟩) fun whole =>
    sure_pure ⟨?_, ?_, fun _ => ⟨_, rfl, ?_⟩⟩
  · simp [stopped]
  · simp [stopped]
  · rw [SameBinary, walked.binary]
  · simp
  · have each := walked.records.each
    have linked := (walked.finished.resolve_left whole).2
    refine ⟨declared _, ?_, walked.records.distinct, fun r member => (each r member).declared, ?_,
      fun r member => (each r member).visited, fun r member => (each r member).aux.distinct,
      fun r member => (each r member).aux.apart, seg, mapped.mem.1, mapped.mem.2, backed,
      mapped.place ▸ linked, ?_⟩
    · rw [← List.length_map, linked, List.map_nil, List.nil_append, List.length_iterate]
    · intro r member
      rw [(each r member).visited, auxChain, List.length_iterate]
    · intro r member off' here
      have has : Window.Has ⟨off, avail⟩ off' :=
        List.forall_mem_cons.mpr ⟨(each r member).inside, (each r member).aux.inside⟩ off' here
      have first : off ≤ off' := has.1
      have last : off' + 16 ≤ off + avail := has.2
      omega

theorem parseDynamicMetadataReaderAt_sure (small : image.length ≤ maxInt64) {dynamicProg : LoadSegment}
    (inFile : dynamicProg.Backed image.length) {loads : List LoadSegment}
    (ok : ∀ seg ∈ loads, seg.Loadable image.length) (loaded : loads = segmentsOf 1 (imageHeaders image))
    (last : (segmentsOf 2 (imageHeaders image)).getLast? = some dynamicProg) (report : VariantABIReport)
    (fresh : report.completeness = .metadataAbsent) :
    Sure (parseDynamicMetadataReaderAt image dynamicProg loads image.length (headerOrder image) report)
      fun r => ∃ deps, VersionsRead image { report with dependencies := deps } r := by
  have wide : image.length < 2 ^ 63 := lt_of_le_of_lt small (by decide)
  have absent : ∀ deps reqs, VersionsRead image { report with dependencies := deps }
      ({ report with dependencies := deps, versionRequirements := reqs }, none) := by
    intro deps reqs
    exact ⟨by simp [SameBinary], by simp [fresh], by simp [fresh]⟩
  refine .guarded fun whole => .guarded fun _ =>
    (chargeMetadata_charges _).sure.bind fun _ _ => ?_
  have exact : dynamicProg.filesz / dynamicEntrySize * dynamicEntrySize = dynamicProg.filesz :=
    Nat.div_mul_cancel (Nat.dvd_of_mod_eq_zero (by simpa using whole))
  refine (reading_sure _ (readExactAt_yields inFile)).bind fun dynBytes read => ?_
  have width : dynBytes.length = dynamicProg.filesz := by
    rw [read, piece_length (by omega) inFile]
    omega
  have bound : dynamicProg.off + dynamicProg.filesz ≤ image.length := inFile
  refine .lift (scanDynamicEntriesBuf_yields (headerOrder image) (by omega)
    (by rw [exact, width])) fun tags tagged => ?_
  rw [read] at tagged
  refine .lift ((Eval.yields_guard _ _).bind fun _ _ =>
    Eval.yields_guard _ _) fun _ _ => ?_
  refine (resolveDynamicStrtabReaderAt_sure (by omega) ok tags).bind fun strtab strings => ?_
  refine (parseNeededDependencies_sure (by omega) _ _).bind fun deps _ => ?_
  refine sure_ite (fun seen => ?_) fun _ => sure_pure ⟨deps, absent deps _⟩
  refine sure_ite (fun _ => sure_pure ⟨deps, absent deps []⟩) fun _ => ?_
  refine .guarded fun _ => ?_
  have declared : ∀ records, VersionTrace.Declared image
      ⟨headerOrder image, loads, tags.verneedVaddr, tags.verneedNum, records⟩ := fun _ =>
    ⟨rfl, loaded, dynamicProg, last, fun vaddr => (tagged.verneed vaddr).trans (and_iff_right seen.1),
      fun num => (tagged.verneedNum num).trans (and_iff_right seen.2)⟩
  exact (parseVerneedReaderAt_sure small strings ok declared _).bind
    fun r read => sure_pure ⟨deps, read⟩

/-- A report as an inspection leaves it. -/
structure VariantABIReport.Discovered (report : VariantABIReport) : Prop where
  linked : report.linkage ≠ .unset
  dynamic : report.linkage = .linkageDynamic ↔ report.hasInterpreter = true
  interpreter : report.hasInterpreter = false → report.interpreter = []
  completeness : report.completeness ≠ .metadataPartial ∧ report.completeness ≠ .metadataSkipped

theorem classifyLinkage_discovered (eType : Nat)
    (interpreter : report.hasInterpreter = false → report.interpreter = [])
    (completeness : report.completeness ≠ .metadataPartial ∧ report.completeness ≠ .metadataSkipped) :
    (classifyLinkage report eType).Discovered := by
  unfold classifyLinkage
  split
  · rename_i interp
    exact ⟨nofun, iff_of_true rfl interp, interpreter, completeness⟩
  · rename_i noInterp
    split
    · refine ⟨?_, iff_of_false ?_ noInterp, interpreter, ?_⟩
      · dsimp only
        split <;> nofun
      · dsimp only
        split <;> nofun
      · dsimp only
        split
        · exact ⟨nofun, nofun⟩
        · exact completeness
    · exact ⟨nofun, iff_of_false nofun noInterp, interpreter, completeness⟩

/-- Classifying can withdraw "complete", never grant it. -/
theorem classifyLinkage_complete {eType : Nat}
    (complete : (classifyLinkage report eType).completeness = .metadataComplete) :
    report.completeness = .metadataComplete := by
  unfold classifyLinkage at complete
  split at complete
  · exact complete
  · split at complete
    · dsimp only at complete
      split at complete
      · cases complete
      · exact complete
    · exact complete

theorem parseInterpreter_sure {seg : LoadSegment} (inFile : seg.Backed image.length) :
    Sure (parseInterpreter image seg) fun _ => True := by
  refine (chargeMetadata_charges _).sure.bind fun _ _ => ?_
  refine (reading_sure _ (readExactAt_yields inFile)).bind fun raw _ => ?_
  cases hit : raw.findIdx? (· == 0) with
  | none => exact sure_fail _ _
  | some nulIdx =>
    have inside := (List.findIdx?_eq_some_iff_findIdx_eq.mp hit).1
    refine .guarded fun _ => (chargeString_charges _).sure.bind fun _ _ => ?_
    exact sure_lift ((yields_piece (Nat.zero_le _) inside.le).mono fun _ _ => trivial)

theorem withInterpreter_sure {found : ProgramHeaders} (ok : found.InFile image.length (imageHeaders image))
    (none : report.hasInterpreter = false → report.interpreter = []) :
    Sure (withInterpreter image found report) fun r =>
      (r.hasInterpreter = false → r.interpreter = []) ∧ r.completeness = report.completeness := by
  unfold withInterpreter
  split
  · exact sure_pure ⟨none, rfl⟩
  · rename_i seg here
    refine (parseInterpreter_sure (ok.interp seg here)).bind fun _ _ => ?_
    exact sure_pure ⟨nofun, rfl⟩

theorem withDynamicMetadata_sure (small : image.length ≤ maxInt64) {found : ProgramHeaders}
    (ok : found.InFile image.length (imageHeaders image)) (fresh : report.completeness = .metadataAbsent) :
    Sure (withDynamicMetadata image image.length (headerOrder image) found report) fun r =>
      ∃ start, VersionsRead image start r ∧ start.hasInterpreter = report.hasInterpreter ∧
        start.interpreter = report.interpreter := by
  unfold withDynamicMetadata
  split
  · exact sure_pure ⟨report, ⟨rfl, by simp [fresh], by simp [fresh]⟩, rfl, rfl⟩
  · rename_i seg here
    refine (parseDynamicMetadataReaderAt_sure small (ok.dynamic seg here) ok.loads ok.loaded
      (ok.last.symm.trans here) { report with inspectionSource := lit "program_headers/dynamic_metadata" } fresh).mono
        fun r read => ?_
    obtain ⟨deps, versions⟩ := read
    exact ⟨_, versions, rfl, rfl⟩

/-- What one inspection returns. -/
structure Inspected (image : Bytes) (r : VariantABIReport × Option VersionTrace) : Prop where
  report : r.1.Discovered
  visited : r.1.completeness = .metadataComplete → ∃ t, r.2 = some t ∧ t.Visited image

section Inspect

variable [ElfNames] (S : SliceSort)

theorem inspectELFABIReaderAtWithAccounting_sure {header : Bytes} (small : image.length ≤ maxInt64)
    (ok : Preflighted image header) :
    Sure (inspectELFABIReaderAtWithAccounting S image image.length header)
      (Inspected image) := by
  have width := ok.width
  have wide : image.length < 2 ^ 63 := lt_of_le_of_lt small (by decide)
  refine Sure.bind (sure_ite (fun short => absurd short (by rw [width]; decide))
    fun _ => sure_pure (rfl : header = header)) fun _ same => ?_
  subst same
  refine .lift (byteAt_yields (by omega)) fun encoding here => ?_
  dsimp only
  rw [headerOrder_eq here]
  have reads {lo hi : Nat} := @headerField_yields lo hi header width
  refine .lift (reads (by decide)) fun eType _ => ?_
  refine .lift (reads (by decide)) fun eMachine _ => ?_
  refine .lift (reads (by decide)) fun ePhoff offset => ?_
  refine .lift (reads (by decide)) fun ePhentsize entry => ?_
  refine .lift (reads (by decide)) fun ePhnum count => ?_
  have table := ok.table
  rw [← offset.1, ← entry.1, ← count.1] at table
  have product : ePhnum * ePhentsize < 2 ^ 64 :=
    lt_of_le_of_lt (Nat.mul_le_mul count.2.le entry.2.le) (by decide)
  have headers : Eval.Yields (readProgramHeaderTable image ePhoff ePhentsize ePhnum) fun phTable =>
      phTable = piece image ePhoff (ePhoff + ePhnum * ePhentsize) ∧ phTable.length = ePhnum * ePhentsize := by
    refine Eval.yields_ite (fun some => ?_) fun none => Eval.yields_ok ?_
    · have inside := (table some).2
      refine (yields_mulU64 product).bind fun size same => ?_
      subst same
      refine (readExactAt_yields inside).mono fun bs same => ⟨same, ?_⟩
      rw [same, piece_length (by omega) inside]
      omega
    · simp [Nat.eq_zero_of_not_pos none, piece]
  refine (reading_sure _ headers).bind fun phTable read => ?_
  have inImage : phTable.length ≤ maxInt64 := by
    rcases Nat.eq_zero_or_pos ePhnum with none | some
    · rw [read.2, none, Nat.zero_mul]
      exact Nat.zero_le _
    · have := (table some).2
      omega
  refine .lift (parseABIProgramHeaders_traps _ _ inImage (by omega) fun _ some => ⟨(table some).1, read.2.symm⟩).yields
    fun found inFile => ?_
  -- the header is the front of the image, so these are the headers of the image
  rw [read.1, offset.1, entry.1, count.1, ok.front, headerOrder_front, headerField_front (by decide),
    headerField_front (by decide), headerField_front (by decide)] at inFile
  rw [ok.front, headerOrder_front]
  refine (withInterpreter_sure inFile fun _ => rfl).bind fun report interp => ?_
  refine (withDynamicMetadata_sure small inFile interp.2).bind fun r read => ?_
  obtain ⟨start, versions, hasSame, interpSame⟩ := read
  have binary := versions.binary
  have interpreter : r.1.hasInterpreter = false → r.1.interpreter = [] := by
    rw [binary, hasSame, interpSame]
    exact interp.1
  have discovered := classifyLinkage_discovered eType interpreter versions.completeness
  refine sure_pure ⟨⟨discovered.linked, discovered.dynamic, discovered.interpreter,
    discovered.completeness⟩, fun complete => ?_⟩
  exact versions.visited (classifyLinkage_complete complete)

theorem inspectELFABI_yields (small : image.length ≤ maxInt64)
    (shared : Option ArtifactMetadataAccounting) :
    Eval.Yields (inspectELFABI S image shared).1 (Inspected image) :=
  (preflight_sure small).bind (fun _ ok => inspectELFABIReaderAtWithAccounting_sure S small ok) _

/-- **Inspection is safe on every image.**  No slice and no read leaves its
buffer or the image, no 64-bit operation wraps around, and version metadata is
called complete only when exactly the declared records were visited. -/
theorem inspectELFABI_visits (image : Bytes) (small : image.length ≤ maxInt64)
    (shared : Option ArtifactMetadataAccounting) :
    (inspectELFABI S image shared).1.Safe ∧
    ∀ report trace, (inspectELFABI S image shared).1 = .ok (report, trace) →
      report.completeness = .metadataComplete → ∃ t, trace = some t ∧ t.Visited image := by
  have yields := inspectELFABI_yields S small shared
  exact ⟨yields.1, fun report trace returned => (yields.2 _ returned).visited⟩

end Inspect

section

local instance inspectNames : ElfNames := ⟨fun _ => [], fun _ => []⟩

/-- An Elf64 program header without flags and alignment, mapped where it is stored. -/
def programHeaderBytes (pType off filesz : Nat) : Bytes :=
  leBytes 8 pType ++ leBytes 8 off ++ leBytes 8 off ++ leBytes 8 0 ++ leBytes 8 filesz ++
    leBytes 8 filesz ++ leBytes 8 0

/-- A dynamic executable of 404 bytes.  Its one version-needed record has two
auxiliary records, and the second lies before the first. -/
def backwardImage : Bytes :=
  [0x7f, 69, 76, 70, 2, 1, 1] ++ List.replicate 9 0 ++ leBytes 2 2 ++ leBytes 2 62 ++ leBytes 4 1 ++
    leBytes 8 0 ++ leBytes 8 64 ++ leBytes 8 0 ++ leBytes 4 0 ++ leBytes 2 64 ++ leBytes 2 56 ++
    leBytes 2 3 ++ leBytes 2 0 ++ leBytes 2 0 ++ leBytes 2 0 ++
  programHeaderBytes 1 0 404 ++ programHeaderBytes 2 232 96 ++ programHeaderBytes 3 400 4 ++
  ([(1, 1), (5, 328), (10, 24), (0x6ffffffe, 352), (0x6fffffff, 1), (0, 0)].flatMap
    fun entry : Nat × Nat => leBytes 8 entry.1 ++ leBytes 8 entry.2) ++
  (0 :: lit "libc.so.6" ++ [0] ++ lit "GLIBC_2.2.5" ++ [0, 0]) ++
  (leBytes 2 1 ++ leBytes 2 2 ++ leBytes 4 1 ++ leBytes 4 32 ++ leBytes 4 0) ++
  (leBytes 4 0 ++ leBytes 2 0 ++ leBytes 2 2 ++ leBytes 4 11 ++ leBytes 4 0) ++
  (leBytes 4 0 ++ leBytes 2 0 ++ leBytes 2 3 ++ leBytes 4 11 ++ leBytes 4 (2 ^ 32 - 16)) ++
  (lit "/ld" ++ [0])

/-- Whether an inspection called the metadata complete and visited `records`. -/
def completeWith (records : List VerneedRecord) :
    Eval Err (VariantABIReport × Option VersionTrace) → Bool
  | .ok (report, some t) => report.completeness = .metadataComplete && t.records = records
  | _ => false

theorem completeWith_eq {records : List VerneedRecord}
    {x : Eval Err (VariantABIReport × Option VersionTrace)} (h : completeWith records x = true) :
    ∃ report t, x = .ok (report, some t) ∧
      report.completeness = .metadataComplete ∧ t.records = records := by
  unfold completeWith at h
  split at h
  · simp only [Bool.and_eq_true, decide_eq_true_eq] at h
    exact ⟨_, _, rfl, h⟩
  · cases h

theorem inspectELFABI_visits_backward :
    ∃ report t, (inspectELFABI insertionSlice backwardImage none).1 = .ok (report, some t) ∧
      t.records = [⟨352, 2, [384, 368]⟩] ∧ t.Visited backwardImage := by
  have run : completeWith [⟨352, 2, [384, 368]⟩]
      (inspectELFABI insertionSlice backwardImage none).1 = true := by decide +kernel
  obtain ⟨report, t, returned, complete, records⟩ := completeWith_eq run
  obtain ⟨t', same, visited⟩ := (inspectELFABI_visits insertionSlice backwardImage
    (by decide +kernel) none).2 report (some t) returned complete
  cases same
  exact ⟨report, t, returned, records, visited⟩

end

end Microfat.Pack
