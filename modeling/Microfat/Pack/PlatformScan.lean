/-
# Microfat.Pack.PlatformScan — the windows of a segment miss nothing

The search for Go build information moves a window over a segment.  Neighbouring windows
overlap in all but one byte of a header, each window starts at the first aligned place,
and the search goes on behind every match of the magic.  Here the three together visit
every candidate of the segment once: `scanWindow_visits` for one window, where it matters
that two matches of the magic never overlap, and `scanWindows_visits` for all of them.

`checkGoBuildInfoSegment_visits` compares the function with the search that takes the
candidates of the whole segment in order: it is the same, up to the window that cannot be
read.
-/
import Microfat.Pack.Platform

namespace Microfat.Pack

open Theory Metered

set_option autoImplicit false

/-! ## Candidates -/

/-- The magic stands at `o`, at an aligned address. -/
def IsCandidate (content : Bytes) (vaddr o : Nat) : Prop :=
  goBuildInfoMagic <+: content.drop o ∧ (vaddr + o) % 16 = 0

instance (content : Bytes) (vaddr o : Nat) : Decidable (IsCandidate content vaddr o) :=
  inferInstanceAs (Decidable (_ ∧ _))

/-- The candidates from `lo` up to `hi`. -/
def candidatesIn (content : Bytes) (vaddr lo hi : Nat) : List Nat :=
  (List.range' lo (hi - lo)).filter fun o => decide (IsCandidate content vaddr o)

/-- The candidates of a segment that have room for a header. -/
def candidates (content : Bytes) (vaddr : Nat) : List Nat :=
  candidatesIn content vaddr 0 (content.length + 1 - goBuildInfoHeaderSize)

section Ranges

variable {content : Bytes} {vaddr lo mid hi : Nat}

theorem candidatesIn_split (first : lo ≤ mid) (second : mid ≤ hi) :
    candidatesIn content vaddr lo hi =
      candidatesIn content vaddr lo mid ++ candidatesIn content vaddr mid hi := by
  have ranges : List.range' lo (hi - lo) = List.range' lo (mid - lo) ++ List.range' mid (hi - mid) := by
    rw [show hi - lo = (mid - lo) + (hi - mid) by omega, ← List.range'_append_1,
      show lo + (mid - lo) = mid by omega]
  rw [candidatesIn, ranges, List.filter_append]
  rfl

theorem candidatesIn_empty (none : ∀ o, lo ≤ o → o < hi → ¬ IsCandidate content vaddr o) :
    candidatesIn content vaddr lo hi = [] := by
  rw [candidatesIn, List.filter_eq_nil_iff]
  intro o mem
  rw [List.mem_range'_1] at mem
  rw [decide_eq_true_eq]
  exact none o mem.1 (by omega)

theorem candidatesIn_skip (first : lo ≤ mid)
    (none : ∀ o, lo ≤ o → o < mid → ¬ IsCandidate content vaddr o) :
    candidatesIn content vaddr lo hi = candidatesIn content vaddr mid hi := by
  by_cases second : mid ≤ hi
  · rw [candidatesIn_split first second, candidatesIn_empty none, List.nil_append]
  · rw [candidatesIn_empty fun o above below => none o above (by omega),
      candidatesIn_empty fun o above below => by omega]

theorem candidatesIn_cons (inside : lo < hi) (here : IsCandidate content vaddr lo) :
    candidatesIn content vaddr lo hi = lo :: candidatesIn content vaddr (lo + 1) hi := by
  rw [candidatesIn, show hi - lo = (hi - (lo + 1)) + 1 by omega, List.range'_succ,
    List.filter_cons_of_pos (by simpa using here)]
  rfl

end Ranges

theorem magic_length : goBuildInfoMagic.length = 14 := by decide

/-- Two matches of the magic do not overlap. -/
theorem magic_apart {text : Bytes} {i j : Nat} (here : goBuildInfoMagic <+: text.drop i)
    (there : goBuildInfoMagic <+: text.drop j) (less : i < j) : i + 14 ≤ j := by
  have borderless : (0xff : UInt8) ∉ lit " Go buildinf:" := by decide
  exact places_apart borderless here there less

/-- The candidates from a place on, where the next match of the magic is at `x`: it may be
one, and the search goes on behind it. -/
theorem candidatesIn_at {content : Bytes} {vaddr lo hi x : Nat} (first : lo ≤ x) (below : x < hi)
    (skipped : ∀ o, lo ≤ o → o < x → ¬ goBuildInfoMagic <+: content.drop o)
    (here : goBuildInfoMagic <+: content.drop x) :
    candidatesIn content vaddr lo hi =
      if (vaddr + x) % 16 = 0 then x :: candidatesIn content vaddr (x + 14) hi
      else candidatesIn content vaddr (x + 14) hi := by
  have upTo : candidatesIn content vaddr lo hi = candidatesIn content vaddr x hi :=
    candidatesIn_skip first fun o above less candidate => skipped o above less candidate.1
  have behind : ∀ o, x < o → o < x + 14 → ¬ IsCandidate content vaddr o := fun o above less candidate => by
    have := magic_apart here candidate.1 above
    omega
  rw [upTo]
  split
  · rename_i aligned
    have onward : candidatesIn content vaddr (x + 1) hi = candidatesIn content vaddr (x + 14) hi :=
      candidatesIn_skip (by omega) fun o above less => behind o (by omega) less
    rw [candidatesIn_cons below ⟨here, aligned⟩, onward]
  · rename_i unaligned
    refine candidatesIn_skip (by omega) fun o above less => ?_
    rcases Nat.eq_or_lt_of_le above with rfl | more
    · exact fun candidate => unaligned candidate.2
    · exact behind o more less

/-! ## One window -/

section Scan

variable [PlatformLibrary] (c : SegmentScan) (segEnd : Nat) (content : Bytes)

/-- Examine the candidate at `o` with the header that stands there. -/
def SegmentScan.examineAt (o : Nat) : Examining Bool :=
  c.examine segEnd o ((content.drop o).take goBuildInfoHeaderSize)

variable {content} {windowStart windowLen : Nat}

omit [PlatformLibrary] in
/-- What a window shows of the segment behind it. -/
theorem magic_in_window (j : Nat) :
    goBuildInfoMagic <+: ((content.drop windowStart).take windowLen).drop j ↔
      goBuildInfoMagic <+: content.drop (windowStart + j) ∧ 14 ≤ windowLen - j := by
  rw [List.drop_take, List.drop_drop, List.prefix_take_iff, magic_length]

omit [PlatformLibrary] in
/-- The header of a candidate is the same in the window and in the segment. -/
theorem slice_window {candRel : Nat} (room : candRel + goBuildInfoHeaderSize ≤ windowLen)
    (inside : windowStart + windowLen ≤ content.length) :
    (slice ((content.drop windowStart).take windowLen) candRel (candRel + goBuildInfoHeaderSize) : Eval Err Bytes) =
      .ok ((content.drop (windowStart + candRel)).take goBuildInfoHeaderSize) := by
  rw [slice_of_le (by omega) (by rw [List.length_take, List.length_drop]; omega), List.drop_take, List.drop_drop,
    List.take_take]
  congr 2
  omega

/-- **One window visits its candidates**, from any place in it on.  Induction on the
places left. -/
theorem scanWindow_visits (header : goBuildInfoHeaderSize ≤ windowLen)
    (inside : windowStart + windowLen ≤ content.length) : ∀ left rel,
    windowLen - goBuildInfoHeaderSize + 1 - rel ≤ left →
    c.scanWindow segEnd ((content.drop windowStart).take windowLen) windowStart
        (windowLen - goBuildInfoHeaderSize) rel =
      firstAccepted (c.examineAt segEnd content)
        (candidatesIn content c.p.vaddr (windowStart + rel)
          (windowStart + (windowLen - goBuildInfoHeaderSize) + 1)) := by
  simp only [goBuildInfoHeaderSize] at *
  intro left
  induction left with
  | zero =>
    intro rel bound
    rw [SegmentScan.scanWindow, dif_neg (by omega), candidatesIn_empty (fun o above below => by omega)]
    rfl
  | succ left ih =>
    intro rel bound
    by_cases inWindow : rel ≤ windowLen - 32
    · rw [SegmentScan.scanWindow, dif_pos inWindow]
      cases place : indexOf goBuildInfoMagic (((content.drop windowStart).take windowLen).drop rel) with
      | none =>
        -- a candidate of this window would have been found
        rw [candidatesIn_empty]
        · rfl
        · rintro o above below ⟨magic, -⟩
          have missed := indexOf_none (by decide) place (o - (windowStart + rel))
          rw [List.drop_drop, magic_in_window] at missed
          exact missed ⟨by rwa [show windowStart + (rel + (o - (windowStart + rel))) = o by omega], by omega⟩
      | some idx =>
        obtain ⟨here, before⟩ := indexOf_some place
        rw [List.drop_drop, magic_in_window] at here
        have skipped : ∀ o, windowStart + rel ≤ o → o < windowStart + (rel + idx) →
            o < windowStart + (windowLen - 32) + 1 → ¬ goBuildInfoMagic <+: content.drop o := by
          intro o above below inside magic
          have missed := before (o - (windowStart + rel)) (by omega)
          rw [List.drop_drop, magic_in_window] at missed
          exact missed ⟨by rwa [show windowStart + (rel + (o - (windowStart + rel))) = o by omega], by omega⟩
        dsimp only
        by_cases beyond : windowLen - 32 < rel + idx
        · rw [if_pos beyond, candidatesIn_empty fun o above below candidate =>
            skipped o above (by omega) below candidate.1]
          rfl
        · have address : (c.p.vaddr + (windowStart + (rel + idx))) % 2 ^ 64 % goBuildInfoAlignment =
              (c.p.vaddr + (windowStart + (rel + idx))) % 16 := Nat.mod_mod_of_dvd _ (by decide)
          have rest := ih (rel + idx + goBuildInfoMagic.length) (by rw [magic_length]; omega)
          rw [magic_length, show windowStart + (rel + idx + 14) = windowStart + (rel + idx) + 14 by omega] at rest
          rw [if_neg beyond, address, magic_length, rest, candidatesIn_at (x := windowStart + (rel + idx))
            (by omega) (by omega) (fun o above less => skipped o above less (by omega)) here.1]
          by_cases aligned : (c.p.vaddr + (windowStart + (rel + idx))) % 16 = 0
          · rw [if_neg (not_not.mpr aligned), if_pos aligned, slice_window (by rw [goBuildInfoHeaderSize]; omega) inside]
            rfl
          · rw [if_pos aligned, if_neg aligned]
    · rw [SegmentScan.scanWindow, dif_neg inWindow, candidatesIn_empty (fun o above below => by omega)]
      rfl

omit [PlatformLibrary] in
/-- Before the first aligned place of a window there is no candidate. -/
theorem unaligned_before {vaddr o : Nat} (above : windowStart ≤ o)
    (below : o < windowStart + (16 - (vaddr + windowStart) % 2 ^ 64 % 16) % 16) : (vaddr + o) % 16 ≠ 0 := by
  rw [Nat.mod_mod_of_dvd _ (by decide)] at below
  omega

/-! ## All windows -/

/-- The reader, where it succeeds, delivers the bytes of the segment. -/
def SegmentScan.Delivers (content : Bytes) : Prop :=
  c.p.filesz = content.length ∧ ∀ off size buf, c.r off size = .ok buf → c.p.off ≤ off →
    off + size ≤ c.p.off + c.p.filesz → buf = (content.drop (off - c.p.off)).take size

omit [PlatformLibrary] in
/-- A window that could be read is the one of the segment, and lies where int64 offsets
reach. -/
theorem readIntoAt_delivers (delivers : c.Delivers content) {window : Bytes} (some : windowLen ≠ 0)
    (inside : windowStart + windowLen ≤ content.length)
    (read : c.r.readIntoAt windowLen (c.p.off + windowStart) = .ok window) :
    window = (content.drop windowStart).take windowLen ∧ c.p.off + windowStart + windowLen ≤ maxInt64 := by
  obtain ⟨size, bytes⟩ := delivers
  rw [ReaderAt.readIntoAt, if_neg some] at read
  obtain ⟨_, ranged, read⟩ := Eval.bind_ok read
  refine ⟨?_, (checkRange_yields _ _).2 _ ranged⟩
  cases delivered : c.r (c.p.off + windowStart) windowLen with
  | error e =>
    rw [delivered] at read
    cases read
  | ok buf =>
    rw [delivered] at read
    cases read
    have same := bytes _ _ window delivered (by omega) (by omega)
    rwa [Nat.add_sub_cancel_left] at same

omit [PlatformLibrary] in
theorem readIntoAt_safe (r : ReaderAt) (size off : Nat) : (r.readIntoAt size off).Safe := by
  unfold ReaderAt.readIntoAt
  split
  · exact Eval.safe_ok _
  · refine Eval.bind_safe (checkRange_yields off size).1 fun _ _ => Eval.mapError_safe ?_
    cases r off size with
    | ok buf => exact Eval.safe_ok buf
    | error e => exact Eval.safe_fail e

/-- The window that the search reads at `start` of the segment. -/
def SegmentScan.windowAt (start : Nat) : Eval Err Bytes :=
  c.r.readIntoAt (min c.bufLen (c.p.filesz - start)) (c.p.off + start)

/-- The window at the place from which on the candidates `rest` lie cannot be read. -/
def SegmentScan.Unreadable (content : Bytes) (rest : List Nat) (e : Err) : Prop :=
  ∃ start, start + goBuildInfoHeaderSize ≤ c.p.filesz ∧ c.windowAt start = .error (.error e) ∧
    rest = candidatesIn content c.p.vaddr start (content.length + 1 - goBuildInfoHeaderSize)

section

variable (wide : goBuildInfoHeaderSize ≤ c.bufLen)

/-- One turn of the loop, where the window was read. -/
theorem scanWindows_turn (inSegment : windowStart < c.p.filesz)
    (long : ¬ c.p.filesz - windowStart < goBuildInfoHeaderSize)
    (width : windowLen = min c.bufLen (c.p.filesz - windowStart))
    (inside : windowStart + windowLen ≤ content.length) (header : goBuildInfoHeaderSize ≤ windowLen)
    (read : c.r.readIntoAt windowLen ((c.p.off + windowStart) % 2 ^ 64) =
      .ok ((content.drop windowStart).take windowLen)) :
    c.scanWindows wide segEnd windowStart = (do
      if ← firstAccepted (c.examineAt segEnd content) (candidatesIn content c.p.vaddr windowStart
          (windowStart + (windowLen - goBuildInfoHeaderSize) + 1)) then return true
      else if c.p.filesz ≤ windowStart + windowLen then return false
      else c.scanWindows wide segEnd (windowStart + (windowLen - (goBuildInfoHeaderSize - 1)))) := by
  rw [candidatesIn_skip (by omega) fun o above below candidate =>
      unaligned_before above below candidate.2,
    ← scanWindow_visits c segEnd header inside _ _ le_rfl]
  rw [SegmentScan.scanWindows, dif_pos inSegment, dif_neg long, ← width]
  dsimp only
  rw [read]
  rfl

/-- **All windows visit the candidates of the segment.**  Induction on the bytes of the
segment that are left; the next window starts one byte behind the last candidate that the
one before had room for. -/
theorem scanWindows_visits (delivers : c.Delivers content) :
    ∀ left windowStart, c.p.filesz - windowStart ≤ left → c.p.off + windowStart < 2 ^ 64 →
    Follows (c.examineAt segEnd content) (c.Unreadable content) (c.scanWindows wide segEnd windowStart)
      (candidatesIn content c.p.vaddr windowStart (content.length + 1 - goBuildInfoHeaderSize)) := by
  have size := delivers.1
  have header : goBuildInfoHeaderSize = 32 := rfl
  intro left
  induction left with
  | zero =>
    intro windowStart bound _ s
    left
    rw [SegmentScan.scanWindows, dif_neg (by omega), candidatesIn_empty (fun o above below => by omega)]
    rfl
  | succ left ih =>
    intro windowStart bound reach
    by_cases long : goBuildInfoHeaderSize ≤ c.p.filesz - windowStart
    · obtain ⟨windowLen, width⟩ : ∃ n, n = min c.bufLen (c.p.filesz - windowStart) := ⟨_, rfl⟩
      have start : (c.p.off + windowStart) % 2 ^ 64 = c.p.off + windowStart := Nat.mod_eq_of_lt reach
      cases read : c.r.readIntoAt windowLen (c.p.off + windowStart) with
      | error fault =>
        intro s
        cases fault with
        | trap trap => exact absurd read (readIntoAt_safe c.r windowLen _ trap)
        | error e =>
          refine .inr ⟨0, s, e, rfl, ⟨windowStart, by omega, by rw [SegmentScan.windowAt, ← width, read], rfl⟩, ?_⟩
          rw [SegmentScan.scanWindows, dif_pos (by omega), dif_neg (by omega), ← width, start, read]
          rfl
      | ok window =>
        have inside : windowStart + windowLen ≤ content.length := by omega
        obtain ⟨rfl, ranged⟩ := readIntoAt_delivers c delivers (by omega) inside read
        rw [scanWindows_turn c segEnd wide (by omega) (by omega) width inside (by omega)
          (by rw [start]; exact read)]
        by_cases last : c.p.filesz ≤ windowStart + windowLen
        · intro s
          left
          simp only [if_pos last]
          rw [accepted_or_false, show windowStart + (windowLen - goBuildInfoHeaderSize) + 1 =
            content.length + 1 - goBuildInfoHeaderSize by omega]
        · have next : windowStart + (windowLen - (goBuildInfoHeaderSize - 1)) =
              windowStart + (windowLen - goBuildInfoHeaderSize) + 1 := by omega
          have max : maxInt64 < 2 ^ 64 := by decide
          simp only [if_neg last]
          have first : windowStart ≤ windowStart + (windowLen - goBuildInfoHeaderSize) + 1 := by omega
          have second : windowStart + (windowLen - goBuildInfoHeaderSize) + 1 ≤
              content.length + 1 - goBuildInfoHeaderSize := by omega
          rw [next, candidatesIn_split first second]
          exact (ih (windowStart + (windowLen - goBuildInfoHeaderSize) + 1) (by omega) (by omega)).append
    · intro s
      left
      rw [candidatesIn_empty (fun o above below => by omega), SegmentScan.scanWindows]
      split
      · rw [dif_pos (by omega)]
        rfl
      · rfl

end

/-! ## The segment -/

omit [PlatformLibrary] in
theorem mem_candidates {vaddr o : Nat} :
    o ∈ candidates content vaddr ↔ o + goBuildInfoHeaderSize ≤ content.length ∧
      goBuildInfoMagic <+: content.drop o ∧ (vaddr + o) % 16 = 0 := by
  rw [candidates, candidatesIn, List.mem_filter, List.mem_range'_1, decide_eq_true_eq, IsCandidate,
    goBuildInfoHeaderSize]
  refine and_congr_left fun _ => ?_
  omega

omit [PlatformLibrary] in
theorem candidates_sorted (content : Bytes) (vaddr : Nat) :
    (candidates content vaddr).Pairwise (· < ·) :=
  List.Pairwise.filter _ List.pairwise_lt_range'

/-- The target check does not touch the log. -/
theorem checkGoBuildInfoTarget_examined (module targetOS : Bytes) (log : List Nat) :
    Triple (fun s => s.examined = log) (checkGoBuildInfoTarget module targetOS)
      (fun _ s => s.examined = log) (fun s => s.examined = log) := by
  have found : ∀ answer : Bool, Triple (fun s : Examination => s.examined = log)
      (pure answer : Examining Bool) (fun _ s => s.examined = log) (fun s => s.examined = log) :=
    fun _ => triple_pure fun _ held => held
  refine triple_ite (fun _ => found false) fun _ => triple_lift_bind (fun _ held => held) fun module _ => ?_
  refine triple_ite (fun _ => found false) fun _ => ?_
  have charged : Triple (fun s : Examination => s.examined = log)
      (Metered.charge fun s => do
        let accounting ← s.accounting.charge module
        return { s with accounting := accounting })
      (fun _ s => s.examined = log) (fun s => s.examined = log) := by
    refine triple_charge (fun _ held => held) fun s t held paid => ?_
    obtain ⟨accounting, -, paid⟩ := Eval.bind_ok paid
    cases paid
    exact held
  refine charged.bind fun _ => triple_ite (fun _ => found false) fun _ => ?_
  split
  · exact found false
  · exact triple_lift_bind (fun _ held => held) fun _ _ => found true

/-- Every candidate examined is logged. -/
theorem examineAt_examined (o : Nat) (s : Examination) :
    (c.examineAt segEnd content o s).2.examined = s.examined ++ [o] := by
  have rest : Triple (fun t => t.examined = s.examined ++ [o])
      (do
        let module ← Metered.lift (readGoBuildInfoModuleReaderAt c.r c.fileSize c.loads
          ((content.drop o).take goBuildInfoHeaderSize) ((c.p.off + o + goBuildInfoHeaderSize) % 2 ^ 64) segEnd)
        checkGoBuildInfoTarget module c.targetOS)
      (fun _ t => t.examined = s.examined ++ [o]) (fun t => t.examined = s.examined ++ [o]) :=
    triple_lift_bind (fun _ held => held) fun module _ => checkGoBuildInfoTarget_examined module c.targetOS _
  exact rest.after (s := { s with examined := s.examined ++ [o] }) rfl

/-- **The search through windows is the search through the segment.**  For a reader that
delivers the bytes of the segment where it succeeds, and any buffer that holds a header,
the function examines the candidates one after the other until one is accepted, the
examination of one fails or a window cannot be read, with the candidates before that
window all examined; it is that search where every window can be read.  The candidates
are the aligned places of the magic with room for a header, in increasing order; those
examined are the first of them, and all of them when the function reports that it found
nothing. -/
theorem checkGoBuildInfoSegment_visits (wide : goBuildInfoHeaderSize ≤ c.bufLen) (word : c.p.off < 2 ^ 64)
    (delivers : c.Delivers content) :
    Follows (c.examineAt ((c.p.off + c.p.filesz) % 2 ^ 64) content) (c.Unreadable content)
        (checkGoBuildInfoSegmentReaderAt c wide) (candidates content c.p.vaddr) ∧
      ((∀ start, start + goBuildInfoHeaderSize ≤ c.p.filesz → ∃ window, c.windowAt start = .ok window) →
        ∀ s, checkGoBuildInfoSegmentReaderAt c wide s =
          firstAccepted (c.examineAt ((c.p.off + c.p.filesz) % 2 ^ 64) content) (candidates content c.p.vaddr) s) ∧
      (∀ s, ∃ n, (checkGoBuildInfoSegmentReaderAt c wide s).2.examined =
          s.examined ++ (candidates content c.p.vaddr).take n ∧
        ((checkGoBuildInfoSegmentReaderAt c wide s).1 = .ok false →
          (candidates content c.p.vaddr).length ≤ n)) ∧
      (∀ o, o ∈ candidates content c.p.vaddr ↔ o + goBuildInfoHeaderSize ≤ c.p.filesz ∧
        goBuildInfoMagic <+: content.drop o ∧ (c.p.vaddr + o) % 16 = 0) ∧
      (candidates content c.p.vaddr).Pairwise (· < ·) := by
  have follows : Follows (c.examineAt ((c.p.off + c.p.filesz) % 2 ^ 64) content) (c.Unreadable content)
      (checkGoBuildInfoSegmentReaderAt c wide) (candidates content c.p.vaddr) :=
    scanWindows_visits c _ wide delivers c.p.filesz 0 (by omega) (by omega)
  refine ⟨follows, fun readable => follows.eq ?_, follows.trace (examineAt_examined c _), fun o => ?_,
    candidates_sorted content c.p.vaddr⟩
  · rintro rest e ⟨start, room, failed, -⟩
    obtain ⟨window, read⟩ := readable start room
    rw [read] at failed
    cases failed
  · rw [delivers.1, mem_candidates]

end Scan

/-- A library that parses no build information. -/
local instance platformWithout : PlatformLibrary where
  osabiString _ := []
  parseBuildInfo _ := none

/-- Two headers without a pointer size, back to back. -/
def markedSegment : Bytes :=
  goBuildInfoMagic ++ [0, 0] ++ goBuildInfoMagic ++ List.replicate 18 0

/-- A search of `markedSegment`, which is the whole file, through the smallest buffer. -/
def markedScan : SegmentScan where
  r off size := .ok ((markedSegment.drop off).take size)
  fileSize := 48
  loads := []
  p := ⟨0, 0x1000, 48, 48⟩
  targetOS := lit "linux"
  bufLen := 32

theorem checkGoBuildInfoSegment_visits_marked :
    (∀ s, checkGoBuildInfoSegmentReaderAt markedScan (by decide) s =
        firstAccepted (markedScan.examineAt 48 markedSegment) (candidates markedSegment 0x1000) s) ∧
      candidates markedSegment 0x1000 = [0, 16] := by
  have delivers : markedScan.Delivers markedSegment := by
    refine ⟨by decide, fun off size buf read _ _ => ?_⟩
    cases read
    rfl
  have windows : ∀ start ≤ 16, (markedScan.windowAt start).toOption.isSome = true := by decide +kernel
  refine ⟨(checkGoBuildInfoSegment_visits markedScan (by decide) (by decide) delivers).2.1 fun start room => ?_,
    by decide +kernel⟩
  obtain ⟨window, read⟩ := Option.isSome_iff_exists.mp (windows start (by
    have : start + 32 ≤ 48 := room
    omega))
  exact ⟨window, Eval.eq_ok_of_toOption read⟩

end Microfat.Pack
