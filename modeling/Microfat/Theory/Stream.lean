/-
# Microfat.Theory.Stream — writers, and copying a stream into one

A writer is a state machine that is handed pieces of bytes; each call reports
how many bytes it took and an optional error (`io.Writer`).  A reader is the
sequence of pieces it will deliver and how it ends (`ByteStream`), and `copy` is
`io.Copy`: it stops at the first failed or short write.

Two rules carry every use:

* `copy_ok`: a property that every complete write keeps holds after a copy that
  returned no error;
* `copy_sim`: two writers that answer alike and keep a relation end related, with
  the same error.  Code that streams into different writers is compared this way.

`bounded` and `multi` build a writer from writers; each has one lemma for what its
complete writes keep and one for the simulation.
-/
import Microfat.Theory.Bytes

namespace Microfat.Theory

set_option autoImplicit false

/-- The result of one `Write`: the new state, the bytes taken, the error. -/
structure Wrote (σ E : Type) where
  state : σ
  n : Nat
  err : Option E

abbrev ByteWriter (σ E : Type) := σ → Bytes → Wrote σ E

/-- A reader: the pieces it delivers, and the error it ends with (`none` is the
end of the stream). -/
structure ByteStream (E : Type) where
  chunks : List Bytes
  final : Option E

section

variable {σ τ E : Type}

/-- `bytes.Buffer`, and a hash: a writer that takes everything. -/
def buffer : ByteWriter Bytes E := fun stored piece => ⟨stored ++ piece, piece.length, none⟩

/-- `io.Copy`. -/
def copyChunks (short : E) (w : ByteWriter σ E) : σ → List Bytes → Option E → σ × Option E
  | s, [], final => (s, final)
  | s, c :: rest, final =>
    if c = [] then copyChunks short w s rest final
    else
      match (w s c).err with
      | some e => ((w s c).state, some e)
      | none =>
        if (w s c).n ≠ c.length then ((w s c).state, some short)
        else copyChunks short w (w s c).state rest final

def copy (short : E) (w : ByteWriter σ E) (s : σ) (r : ByteStream E) : σ × Option E :=
  copyChunks short w s r.chunks r.final

/-- `io.MultiWriter` of two writers. -/
def multi (short : E) (w : ByteWriter σ E) (v : ByteWriter τ E) : ByteWriter (σ × τ) E := fun (s, t) piece =>
  let r := w s piece
  match r.err with
  | some e => ⟨(r.state, t), r.n, some e⟩
  | none =>
    if r.n ≠ piece.length then ⟨(r.state, t), r.n, some short⟩
    else
      let q := v t piece
      match q.err with
      | some e => ⟨(r.state, q.state), q.n, some e⟩
      | none =>
        if q.n ≠ piece.length then ⟨(r.state, q.state), q.n, some short⟩
        else ⟨(r.state, q.state), piece.length, none⟩

/-- A writer that passes on at most `limit` bytes in all, and fails with `excess`
beyond that. -/
def bounded (excess : E) (limit : Nat) (w : ByteWriter σ E) : ByteWriter (σ × Nat) E :=
  fun (s, written) piece =>
    if piece = [] then ⟨(s, written), 0, none⟩
    else if limit ≤ written then ⟨(s, written), 0, some excess⟩
    else if limit - written < piece.length then
      let r := w s (piece.take (limit - written))
      ⟨(r.state, written + r.n), r.n, some (r.err.getD excess)⟩
    else
      let r := w s piece
      ⟨(r.state, written + r.n), r.n, r.err⟩

/-- Copying a stream that ends well into a buffer appends its bytes. -/
theorem copy_buffer (short : E) (chunks : List Bytes) (stored : Bytes) :
    copy short buffer stored ⟨chunks, none⟩ = (stored ++ chunks.flatten, none) := by
  show copyChunks short buffer stored chunks none = _
  induction chunks generalizing stored with
  | nil => simp [copyChunks]
  | cons c rest ih =>
    rw [copyChunks]
    split
    · rename_i empty
      rw [ih, empty, List.flatten_cons, List.nil_append]
    · simp [buffer, ih]

/-! ## What a successful copy keeps -/

variable {short : E} {w : ByteWriter σ E} {P : σ → Prop} {excess : E} {limit : Nat} {stored : σ → Bytes}
    {v : ByteWriter τ E}

/-- `P` is kept by every write that took its whole piece without an error. -/
def KeptBy (w : ByteWriter σ E) (P : σ → Prop) : Prop :=
  ∀ s piece, P s → (w s piece).err = none → (w s piece).n = piece.length → P (w s piece).state

theorem copyChunks_ok (kept : KeptBy w P) {chunks : List Bytes} {final : Option E} : ∀ {s : σ}, P s →
      (copyChunks short w s chunks final).2 = none → P (copyChunks short w s chunks final).1 := by
  induction chunks with
  | nil => exact fun start _ => start
  | cons c rest ih =>
    intro s start done
    rw [copyChunks] at done ⊢
    split
    · rename_i empty
      rw [if_pos empty] at done
      exact ih start done
    · rename_i nonempty
      rw [if_neg nonempty] at done
      cases failed : (w s c).err with
      | some e => rw [failed] at done; cases done
      | none =>
        rw [failed] at done
        by_cases whole : (w s c).n = c.length
        · simp only [whole, ne_eq, not_true_eq_false, if_false] at done ⊢
          exact ih (kept s c start failed whole) done
        · simp only [ne_eq, whole, not_false_eq_true, if_true] at done
          cases done

theorem copy_ok (kept : KeptBy w P) {s : σ} {r : ByteStream E} (start : P s)
    (done : (copy short w s r).2 = none) : P (copy short w s r).1 :=
  copyChunks_ok kept start done

/-- Complete writes store their piece. -/
def Keeps (w : ByteWriter σ E) (stored : σ → Bytes) : Prop :=
  ∀ s piece, (w s piece).err = none → (w s piece).n = piece.length →
    stored (w s piece).state = stored s ++ piece

/-- A complete write to a bounded writer is a complete write to the inner one. -/
theorem bounded_complete {s : σ × Nat} {piece : Bytes}
    (noError : (bounded excess limit w s piece).err = none)
    (whole : (bounded excess limit w s piece).n = piece.length) :
    piece = [] ∧ (bounded excess limit w s piece).state = s ∨
    (w s.1 piece).err = none ∧ (w s.1 piece).n = piece.length ∧
      (bounded excess limit w s piece).state = ((w s.1 piece).state, s.2 + piece.length) := by
  obtain ⟨s, written⟩ := s
  unfold bounded at noError whole ⊢
  dsimp only at noError whole ⊢
  by_cases empty : piece = []
  · rw [if_pos empty]
    exact .inl ⟨empty, rfl⟩
  · rw [if_neg empty] at noError whole ⊢
    by_cases full : limit ≤ written
    · rw [if_pos full] at noError
      cases noError
    · rw [if_neg full] at noError whole ⊢
      by_cases cut : limit - written < piece.length
      · rw [if_pos cut] at noError
        cases noError
      · rw [if_neg cut] at noError whole ⊢
        dsimp only at noError whole ⊢
        exact .inr ⟨noError, whole, by rw [whole]⟩

theorem bounded_kept (kept : KeptBy w P) : KeptBy (bounded excess limit w) fun s => P s.1 := by
  intro s piece holds noError whole
  rcases bounded_complete noError whole with ⟨-, same⟩ | ⟨inner, all, next⟩
  · rw [same]; exact holds
  · rw [next]; exact kept s.1 piece holds inner all

/-- The count of a bounded writer is the number of bytes stored through it. -/
theorem bounded_counts (keeps : Keeps w stored) (base : Nat) :
    KeptBy (bounded excess limit w) fun s => (stored s.1).length = base + s.2 := by
  intro s piece holds noError whole
  rcases bounded_complete noError whole with ⟨-, same⟩ | ⟨inner, all, next⟩
  · rw [same]; exact holds
  · rw [next]
    dsimp only
    rw [keeps s.1 piece inner all, List.length_append, holds, Nat.add_assoc]

/-- A complete write to a pair of writers is a complete write to both. -/
theorem multi_complete {s : σ × τ} {piece : Bytes} (noError : (multi short w v s piece).err = none) :
    (w s.1 piece).err = none ∧ (w s.1 piece).n = piece.length ∧
      (multi short w v s piece).state = ((w s.1 piece).state, (v s.2 piece).state) := by
  obtain ⟨s, t⟩ := s
  unfold multi at noError ⊢
  dsimp only at noError ⊢
  cases first : (w s piece).err with
  | some e => rw [first] at noError; cases noError
  | none =>
    rw [first] at noError
    by_cases all : (w s piece).n = piece.length
    · refine ⟨rfl, all, ?_⟩
      simp only [all, ne_eq, not_true_eq_false, if_false]
      cases (v t piece).err with
      | some e => rfl
      | none =>
        dsimp only
        split <;> rfl
    · simp only [all, ne_eq, not_false_eq_true, if_true] at noError
      cases noError

/-- The hash beside a writer has seen exactly what the writer stored. -/
theorem multi_kept (keeps : Keeps w stored) (base : Bytes) :
    KeptBy (multi short w buffer) fun s => stored s.1 = base ++ s.2 := by
  intro s piece holds noError whole
  obtain ⟨inner, all, next⟩ := multi_complete noError
  rw [next]
  show stored (w s.1 piece).state = base ++ (s.2 ++ piece)
  rw [keeps s.1 piece inner all, holds, List.append_assoc]

theorem multi_keeps (w : ByteWriter σ E) :
    Keeps (multi short w buffer) fun s => s.2 := by
  intro s piece noError whole
  obtain ⟨-, -, next⟩ := multi_complete noError
  rw [next]
  rfl

/-! ## Simulation -/

variable {R : σ → τ → Prop}

/-- The two writers answer alike on related states and stay related. -/
def Answers (w : ByteWriter σ E) (v : ByteWriter τ E) (R : σ → τ → Prop) : Prop :=
  ∀ s t piece, R s t →
    (w s piece).n = (v t piece).n ∧ (w s piece).err = (v t piece).err ∧
      R (w s piece).state (v t piece).state

theorem copyChunks_sim (same : Answers w v R) {chunks : List Bytes} {final : Option E} :
    ∀ {s : σ} {t : τ}, R s t →
      R (copyChunks short w s chunks final).1 (copyChunks short v t chunks final).1 ∧
        (copyChunks short w s chunks final).2 = (copyChunks short v t chunks final).2 := by
  induction chunks with
  | nil => exact fun related => ⟨related, rfl⟩
  | cons c rest ih =>
    intro s t related
    obtain ⟨count, error, next⟩ := same s t c related
    rw [copyChunks, copyChunks, count, error]
    split
    · exact ih related
    · split
      · exact ⟨next, rfl⟩
      · split
        · exact ⟨next, rfl⟩
        · exact ih next

theorem copy_sim (same : Answers w v R) {s : σ} {t : τ} {r : ByteStream E} (related : R s t) :
    R (copy short w s r).1 (copy short v t r).1 ∧
      (copy short w s r).2 = (copy short v t r).2 :=
  copyChunks_sim same related

theorem bounded_answers (same : Answers w v R) :
    Answers (bounded excess limit w) (bounded excess limit v)
      fun s t => R s.1 t.1 ∧ s.2 = t.2 := by
  rintro ⟨s, n⟩ ⟨t, m⟩ piece ⟨related, written⟩
  dsimp only at related written
  subst written
  obtain ⟨cutCount, cutError, cutNext⟩ := same s t (piece.take (limit - n)) related
  obtain ⟨count, error, next⟩ := same s t piece related
  unfold bounded
  dsimp only
  split
  · exact ⟨rfl, rfl, related, rfl⟩
  · split
    · exact ⟨rfl, rfl, related, rfl⟩
    · split
      · rw [cutCount, cutError]
        exact ⟨rfl, rfl, cutNext, rfl⟩
      · rw [count, error]
        exact ⟨rfl, rfl, next, rfl⟩

/-- A writer that takes everything and stores it. -/
structure Stores (w : ByteWriter σ E) (stored : σ → Bytes) : Prop where
  err : ∀ s piece, (w s piece).err = none
  n : ∀ s piece, (w s piece).n = piece.length
  state : ∀ s piece, stored (w s piece).state = stored s ++ piece

theorem buffer_stores : Stores (buffer : ByteWriter Bytes E) id :=
  ⟨fun _ _ => rfl, fun _ _ => rfl, fun _ _ => rfl⟩

theorem Stores.keeps (stores : Stores w stored) :
    Keeps w stored :=
  fun s piece _ _ => stores.state s piece

theorem multi_stores {kept : τ → Bytes} (first : Stores w stored) (second : Stores v kept) :
    Stores (multi short w v) (fun s => stored s.1) ∧
      Stores (multi short w v) (fun s => kept s.2) := by
  have both : ∀ s piece, multi short w v s piece =
      ⟨((w s.1 piece).state, (v s.2 piece).state), piece.length, none⟩ := by
    intro s piece
    simp [multi, first.err, first.n, second.err, second.n]
  constructor
  · exact ⟨fun s piece => by rw [both], fun s piece => by rw [both],
      fun s piece => by rw [both]; exact first.state s.1 piece⟩
  · exact ⟨fun s piece => by rw [both], fun s piece => by rw [both],
      fun s piece => by rw [both]; exact second.state s.2 piece⟩

end

end Microfat.Theory
