/-
# Microfat.Theory.Buffer — writing and reading a buffer through a cursor

An encoder allocates a zeroed buffer of the exact size and stores one field
after the other at a moving offset; a decoder reads the same fields back at a
moving offset.  Two invariants carry both loops:

* `filled done rest`: a buffer that holds the fields written so far and zeros
  after them.  Storing a piece at `done.length` appends it (`putAt_filled`,
  `copyAt_filled`), so an in-place encoder computes a concatenation.
* `Reads data off piece`: the piece stands at the offset.  A concatenation
  splits into its parts at their offsets (`Reads.left`, `Reads.right`), so a
  decoder's correctness is one lemma per field.

A decoder of untrusted bytes should notice that they are cut.  `CutSafe` says so of
a loader on the prefixes of its data; the binds of a decoder compose
(`CutSafe.bind`), so this too is one lemma per field.
-/
import Microfat.Theory.Eval

namespace Microfat.Theory

set_option autoImplicit false

section Store

variable {E : Type}

/-- `binary.LittleEndian.PutUint64(buf[off:off+8], v)` and the like: the whole
piece must fit. -/
def putAt (buf : Bytes) (off : Nat) (piece : Bytes) : Eval E Bytes :=
  if off + piece.length ≤ buf.length then
    .ok (buf.take off ++ piece ++ buf.drop (off + piece.length))
  else .error (.trap .bounds)

/-- `copy(buf[off:], piece)`: stores as much of the piece as fits. -/
def copyAt (buf : Bytes) (off : Nat) (piece : Bytes) : Eval E Bytes :=
  if off ≤ buf.length then
    .ok (buf.take off ++ piece.take (buf.length - off) ++ buf.drop (off + piece.length))
  else .error (.trap .bounds)

/-- The buffer that holds `done`, then `rest` zero bytes. -/
def filled (done : Bytes) (rest : Nat) : Bytes := done ++ List.replicate rest 0

@[simp] theorem filled_zero (done : Bytes) : filled done 0 = done := by simp [filled]

theorem putAt_filled {done piece : Bytes} {off rest : Nat} (cursor : off = done.length)
    (room : piece.length ≤ rest) :
    (putAt (filled done rest) off piece : Eval E Bytes) =
      .ok (filled (done ++ piece) (rest - piece.length)) := by
  subst cursor
  rw [putAt, if_pos (by simp [filled]; omega)]
  simp [filled, List.drop_append, List.drop_eq_nil_of_le]

theorem copyAt_filled {done piece : Bytes} {off rest : Nat} (cursor : off = done.length)
    (room : piece.length ≤ rest) :
    (copyAt (filled done rest) off piece : Eval E Bytes) =
      .ok (filled (done ++ piece) (rest - piece.length)) := by
  subst cursor
  rw [copyAt, if_pos (by simp [filled]), List.take_of_length_le (l := piece) (by simp [filled]; omega)]
  simp [filled, List.drop_append, List.drop_eq_nil_of_le]

end Store

/-! ## Reading -/

/-- `piece` stands in `data` at offset `off`. -/
def Reads (data : Bytes) (off : Nat) (piece : Bytes) : Prop :=
  off ≤ data.length ∧ piece <+: data.drop off

namespace Reads

variable {data a b piece : Bytes} {off : Nat}

theorem left (h : Reads data off (a ++ b)) : Reads data off a :=
  ⟨h.1, (List.prefix_append a b).trans h.2⟩

theorem length_le (h : Reads data off piece) : off + piece.length ≤ data.length := by
  have := h.2.length_le
  rw [List.length_drop] at this
  have := h.1
  omega

theorem right (h : Reads data off (a ++ b)) : Reads data (off + a.length) b := by
  have total := h.length_le
  rw [List.length_append] at total
  refine ⟨by omega, ?_⟩
  obtain ⟨rest, same⟩ := h.2
  refine ⟨rest, ?_⟩
  rw [← List.drop_drop, ← same, List.append_assoc, List.drop_left]

theorem append {middle : Nat} (first : Reads data off a) (ends : middle = off + a.length)
    (second : Reads data middle b) : Reads data off (a ++ b) := by
  subst ends
  refine ⟨first.1, ?_⟩
  obtain ⟨rest, same⟩ := first.2
  have after := second.2
  rw [← List.drop_drop, ← same, List.drop_left] at after
  obtain ⟨rest', rfl⟩ := after
  exact ⟨rest', by rw [← same, List.append_assoc]⟩

theorem of_slice {E : Type} {stop : Nat} (h : (slice data off stop : Eval E Bytes) = .ok piece) :
    Reads data off piece ∧ off + piece.length = stop := by
  obtain ⟨rfl, ordered, inside⟩ := slice_eq_ok h
  refine ⟨⟨by omega, List.take_prefix _ _⟩, ?_⟩
  rw [List.length_take, List.length_drop]
  omega

theorem of_byteAt {E : Type} {c : UInt8} (h : (byteAt data off : Eval E UInt8) = .ok c) :
    Reads data off [c] := by
  unfold byteAt at h
  split at h
  · rename_i b found
    cases h
    obtain ⟨inside, rfl⟩ := List.getElem?_eq_some_iff.mp found
    exact ⟨inside.le, _, (List.drop_eq_getElem_cons inside).symm⟩
  · cases h

theorem take_eq (h : Reads data 0 piece) : data.take piece.length = piece := by
  obtain ⟨rest, same⟩ := h.2
  rw [List.drop_zero] at same
  rw [← same, List.take_left]

theorem slice_eq {E : Type} (h : Reads data off piece) {stop : Nat}
    (width : stop = off + piece.length) : (slice data off stop : Eval E Bytes) = .ok piece := by
  subst width
  rw [slice_of_le (by omega) h.length_le, Nat.add_sub_cancel_left]
  obtain ⟨rest, same⟩ := h.2
  rw [← same, List.take_left]

theorem byteAt_eq {E : Type} {c : UInt8} (h : Reads data off (c :: b)) :
    (byteAt data off : Eval E UInt8) = .ok c := by
  obtain ⟨rest, same⟩ := h.2
  have found : data[off]? = some c := by
    have := congrArg (·[0]?) same
    simpa using this.symm
  simp [byteAt, found]

end Reads

/-! ## Cut data -/

/-- On a prefix of the data that has at least `start` bytes, the loader returns `a`
when the first `stop` bytes are there, and reports a cut when they are not. -/
def CutSafe {E α : Type} (cut : E → Prop) (load : Bytes → Eval E α) (data : Bytes) (start stop : Nat) (a : α) :
    Prop :=
  ∀ n, start ≤ n → n ≤ data.length →
    (stop ≤ n → load (data.take n) = .ok a) ∧
      (n < stop → ∃ err, load (data.take n) = Eval.fail err ∧ cut err)

namespace CutSafe

variable {E α β : Type} {cut : E → Prop} {load : Bytes → Eval E α} {data : Bytes} {start middle stop : Nat} {a : α}

theorem bind {f : Bytes → α → Eval E β} {b : β} (first : CutSafe cut load data start middle a)
    (rest : CutSafe cut (fun d => f d a) data middle stop b) (le : middle ≤ stop) :
    CutSafe cut (fun d => load d >>= f d) data start stop b := by
  intro n enough inside
  dsimp only
  by_cases reached : middle ≤ n
  · rw [(first n enough inside).1 reached]
    exact rest n reached inside
  · obtain ⟨err, failed, isCut⟩ := (first n enough inside).2 (by omega)
    rw [failed]
    exact ⟨fun whole => absurd (le.trans whole) reached, fun _ => ⟨err, rfl, isCut⟩⟩

theorem mono (h : CutSafe cut load data start stop a) {start' : Nat} (le : start ≤ start') :
    CutSafe cut load data start' stop a := fun n enough => h n (le.trans enough)

/-- Where all the loader needs is known to be there. -/
theorem settled (h : CutSafe cut load data start stop a) {bound : Nat} (le : start ≤ bound) (le' : stop ≤ bound) :
    CutSafe cut load data bound bound a :=
  fun n enough inside => ⟨fun _ => (h n (le.trans enough) inside).1 (le'.trans enough), fun short => by omega⟩

/-- A step that does not look at the data. -/
theorem const {r : Eval E α} (same : r = .ok a) (bound : Nat) : CutSafe cut (fun _ => r) data bound bound a :=
  fun _ _ _ => ⟨fun _ => same, fun short => by omega⟩

theorem guard_lt {err : Bytes → E} (isCut : ∀ d, cut (err d)) (start stop : Nat) :
    CutSafe cut (fun d => Eval.guard (d.length < stop) (err d)) data start stop () := by
  intro n _ inside
  dsimp only
  rw [List.length_take, Nat.min_eq_left inside]
  refine ⟨fun whole => Eval.guard_pass (by simpa using whole), fun short => ⟨err (data.take n), ?_, isCut _⟩⟩
  rw [decide_eq_true short, Eval.guard, if_pos rfl]

theorem guard_le {err : E} (isCut : cut err) (start off : Nat) :
    CutSafe cut (fun d => Eval.guard (d.length ≤ off) err) data start (off + 1) () := by
  have strict : CutSafe cut (fun d => Eval.guard (d.length < off + 1) err) data start (off + 1) () :=
    guard_lt (fun _ => isCut) start (off + 1)
  simpa only [Nat.lt_succ_iff] using strict

theorem slice {piece : Bytes} {off : Nat} (h : (Theory.slice data off stop : Eval E Bytes) = .ok piece) :
    CutSafe cut (fun d => (Theory.slice d off stop : Eval E Bytes)) data stop stop piece := by
  obtain ⟨rfl, ordered, -⟩ := slice_eq_ok h
  intro n _ inside
  dsimp only
  refine ⟨fun whole => ?_, fun short => by omega⟩
  rw [slice_of_le ordered (by rw [List.length_take]; omega), List.drop_take, List.take_take]
  congr 2
  omega

theorem byteAt {c : UInt8} {off : Nat} (h : (Theory.byteAt data off : Eval E UInt8) = .ok c) :
    CutSafe cut (fun d => (Theory.byteAt d off : Eval E UInt8)) data (off + 1) (off + 1) c := by
  intro n _ inside
  refine ⟨fun whole => ?_, fun short => by omega⟩
  dsimp only
  rw [← h, Theory.byteAt, Theory.byteAt, List.getElem?_take_of_lt (by omega)]

end CutSafe

end Microfat.Theory
