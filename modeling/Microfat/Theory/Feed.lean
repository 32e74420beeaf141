/-
# Microfat.Theory.Feed — code that writes a stream, and what a bounded writer lets through

A `Feed` is code that hands pieces to a writer and goes on with the answers: the `WriteTo`
of a decoder, or the loop of `io.Copy`.  `Conveys` says which stream it writes when every
write is complete, and that a failed write ends it with an error.  A write that comes back
short without an error is against the contract of a writer (`Honest`); a feed either
checks for it or relies on that contract.

`journaled` keeps a journal of the calls a writer received.  `run_bounded` is the result:
through a bounded writer, what the inner one is handed is the front of the stream up to the
bound, and the feed ends well exactly if the stream ends well, fits, and every call was
complete.
-/
import Microfat.Theory.Stream

namespace Microfat.Theory

set_option autoImplicit false

/-- Code that writes: it hands over a piece and goes on with the count and the error. -/
inductive Feed (E : Type) where
  | done (err : Option E)
  | write (piece : Bytes) (next : Nat → Option E → Feed E)

section Feeds

variable {σ E : Type}

def Feed.run (w : ByteWriter σ E) : Feed E → σ → σ × Option E
  | .done err, s => (s, err)
  | .write piece next, s => (next (w s piece).n (w s piece).err).run w (w s piece).state

variable {w : ByteWriter σ E}

/-- A feed cannot tell writers apart that answer alike.  Induction over its writes. -/
theorem Feed.run_sim {τ : Type} {v : ByteWriter τ E} {R : σ → τ → Prop} (same : Answers w v R)
    (f : Feed E) : ∀ {s : σ} {t : τ}, R s t →
      R (f.run w s).1 (f.run v t).1 ∧ (f.run w s).2 = (f.run v t).2 := by
  induction f with
  | done err => exact fun related => ⟨related, rfl⟩
  | write piece next ih =>
    intro s t related
    obtain ⟨count, error, after⟩ := same s t piece related
    rw [Feed.run, Feed.run, count, error]
    exact ih _ _ after

/-- The feed writes the stream in pieces and ends with `final`.  A write that failed ends
it with an error; so does one that was short without an error, where the feed `checks`. -/
inductive Feed.Conveys (checks : Prop) (final : Option E) : Feed E → Bytes → Prop
  | done : Conveys checks final (.done final) []
  | write {piece rest : Bytes} {next : Nat → Option E → Feed E}
      (complete : Conveys checks final (next piece.length none) rest)
      (failed : ∀ n e, ∃ e', next n (some e) = .done (some e'))
      (short : checks → ∀ n, n ≠ piece.length → ∃ e', next n none = .done (some e')) :
      Conveys checks final (.write piece next) (piece ++ rest)

/-! ## The loop of `io.Copy` -/

def copyFeed (short : E) (final : Option E) : List Bytes → Feed E
  | [] => .done final
  | c :: rest =>
    if c = [] then copyFeed short final rest
    else .write c fun n err =>
      match err with
      | some e => .done (some e)
      | none => if n ≠ c.length then .done (some short) else copyFeed short final rest

theorem conveys_copyFeed (short : E) (final : Option E) (chunks : List Bytes) :
    Feed.Conveys True final (copyFeed short final chunks) chunks.flatten := by
  induction chunks with
  | nil => exact .done
  | cons c rest ih =>
    rw [copyFeed, List.flatten_cons]
    split
    · rename_i empty
      rw [empty, List.nil_append]
      exact ih
    · refine .write ?_ (fun n e => ⟨e, rfl⟩) fun _ n other => ⟨short, if_pos other⟩
      dsimp only
      rw [if_neg (not_not.mpr rfl)]
      exact ih

/-! ## Readers -/

variable {checks : Prop} {final : Option E} {stream : Bytes}

/-- What `io.Copy` finds behind a reader: reads, or a `WriteTo` of its own. -/
inductive Reader (E : Type) where
  | reads (stream : ByteStream E)
  | writesTo (feed : Feed E)

def Reader.feed (short : E) : Reader E → Feed E
  | .reads r => copyFeed short r.final r.chunks
  | .writesTo feed => feed

/-- The reader delivers the stream and ends with `final`. -/
def Reader.Delivers (checks : Prop) (stream : Bytes) (final : Option E) : Reader E → Prop
  | .reads r => r.chunks.flatten = stream ∧ r.final = final
  | .writesTo feed => feed.Conveys checks final stream

theorem Feed.Conveys.weaken {f : Feed E} (h : f.Conveys True final stream) :
    f.Conveys checks final stream := by
  induction h with
  | done => exact .done
  | write complete failed short ih => exact .write ih failed fun _ => short trivial

theorem Reader.Delivers.conveys {r : Reader E} (delivers : r.Delivers checks stream final) (short : E) :
    (r.feed short).Conveys checks final stream := by
  cases r with
  | reads r =>
    obtain ⟨rfl, rfl⟩ := delivers
    exact (conveys_copyFeed short r.final r.chunks).weaken
  | writesTo feed => exact delivers

/-- `io.Copy` and `io.CopyBuffer`. -/
def ioCopy (short : E) (w : ByteWriter σ E) (s : σ) (r : Reader E) : σ × Option E :=
  (r.feed short).run w s

/-- Over a reader without a `WriteTo` this is `copy`.  Induction over the reads. -/
theorem ioCopy_reads (short : E) (w : ByteWriter σ E) (s : σ) (r : ByteStream E) :
    ioCopy short w s (.reads r) = copy short w s r := by
  obtain ⟨chunks, final⟩ := r
  show (copyFeed short final chunks).run w s = copyChunks short w s chunks final
  induction chunks generalizing s with
  | nil => rfl
  | cons c rest ih =>
    rw [copyFeed, copyChunks]
    split
    · exact ih s
    · dsimp only [Feed.run]
      cases (w s c).err with
      | some e => rfl
      | none =>
        dsimp only
        split
        · rfl
        · exact ih _

/-! ## The journal of a writer -/

/-- A call of `Write` and its answer. -/
structure Call (E : Type) where
  piece : Bytes
  n : Nat
  err : Option E

/-- The writer accepted every byte of the call. -/
def Call.Complete (c : Call E) : Prop := c.n = c.piece.length ∧ c.err = none

/-- The bytes the calls handed over. -/
def forwarded (calls : List (Call E)) : Bytes := (calls.map Call.piece).flatten

/-- The bytes of them the writer accepted. -/
def accepted (calls : List (Call E)) : Bytes := (calls.map fun c => c.piece.take c.n).flatten

theorem accepted_complete {calls : List (Call E)} (complete : ∀ c ∈ calls, c.Complete) :
    accepted calls = forwarded calls := by
  unfold accepted forwarded
  congr 1
  refine List.map_congr_left fun c mem => ?_
  rw [(complete c mem).1, List.take_length]

/-- The writer beside a journal of the calls it received. -/
def journaled (w : ByteWriter σ E) : ByteWriter (σ × List (Call E)) E := fun (s, calls) piece =>
  let r := w s piece
  ⟨(r.state, calls ++ [⟨piece, r.n, r.err⟩]), r.n, r.err⟩

theorem journaled_answers (w : ByteWriter σ E) : Answers (journaled w) w fun a s => a.1 = s := by
  rintro ⟨s, calls⟩ _ piece rfl
  exact ⟨rfl, rfl, rfl⟩

/-- The contract of `io.Writer`: no count beyond the piece, and an error with every short
one. -/
def Honest (w : ByteWriter σ E) : Prop :=
  ∀ s piece, (w s piece).n ≤ piece.length ∧ ((w s piece).n < piece.length → (w s piece).err ≠ none)

/-! ## Through a bounded writer -/

section Bounded

variable {excess : E} {limit : Nat} {w : ByteWriter σ E} {s : σ} {written : Nat} {piece : Bytes}

theorem bounded_empty : bounded excess limit w (s, written) [] = ⟨(s, written), 0, none⟩ := rfl

theorem bounded_full (some : piece ≠ []) (full : limit ≤ written) :
    bounded excess limit w (s, written) piece = ⟨(s, written), 0, Option.some excess⟩ := by
  rw [bounded, if_neg some, if_pos full]

section

variable (some : piece ≠ []) (open' : ¬ limit ≤ written)

include some open'

theorem bounded_cut (cut : limit - written < piece.length) :
    bounded excess limit w (s, written) piece =
      ⟨((w s (piece.take (limit - written))).state, written + (w s (piece.take (limit - written))).n),
        (w s (piece.take (limit - written))).n,
        Option.some ((w s (piece.take (limit - written))).err.getD excess)⟩ := by
  rw [bounded, if_neg some, if_neg open', if_pos cut]

theorem bounded_pass (fits : ¬ limit - written < piece.length) :
    bounded excess limit w (s, written) piece =
      ⟨((w s piece).state, written + (w s piece).n), (w s piece).n, (w s piece).err⟩ := by
  rw [bounded, if_neg some, if_neg open', if_neg fits]

end

end Bounded

/-- How a feed ends that wrote to a bounded, journaled writer. -/
structure Through (limit written : Nat) (stream : Bytes) (final : Option E) (calls : List (Call E))
    (result : ((σ × List (Call E)) × Nat) × Option E) (more : List (Call E)) : Prop where
  journal : result.1.1.2 = calls ++ more
  front : forwarded more <+: stream
  bound : written + (forwarded more).length ≤ limit
  ended : result.2 = none ↔ final = none ∧ written + stream.length ≤ limit ∧ ∀ c ∈ more, c.Complete
  whole : result.2 = none → forwarded more = stream ∧ result.1.2 = written + stream.length

namespace Through

variable {limit written : Nat} {piece rest stream : Bytes} {final : Option E} {calls more : List (Call E)}
  {result : ((σ × List (Call E)) × Nat) × Option E}

theorem forwarded_cons (c : Call E) (more : List (Call E)) :
    forwarded (c :: more) = c.piece ++ forwarded more := by
  rw [forwarded, List.map_cons, List.flatten_cons]
  rfl

/-- The feed was stopped: the stream is too long, or a call was not complete. -/
theorem stop {e : E} (failed : result.2 = some e) (journal : result.1.1.2 = calls ++ more)
    (front : forwarded more <+: stream) (bound : written + (forwarded more).length ≤ limit)
    (reason : written + stream.length ≤ limit → ¬ ∀ c ∈ more, c.Complete) :
    Through limit written stream final calls result more := by
  refine ⟨journal, front, bound, ?_, fun well => ?_⟩
  · rw [failed]
    exact ⟨fun well => (nomatch well), fun ⟨_, fits, complete⟩ => absurd complete (reason fits)⟩
  · rw [failed] at well
    cases well

/-- The first call was complete. -/
theorem step
    (through : Through limit (written + piece.length) rest final (calls ++ [⟨piece, piece.length, none⟩]) result more) :
    Through limit written (piece ++ rest) final calls result (⟨piece, piece.length, none⟩ :: more) := by
  refine ⟨?_, ?_, ?_, ?_, fun well => ?_⟩
  · rw [through.journal, List.append_assoc, List.singleton_append]
  · rw [forwarded_cons]
    exact (List.prefix_append_right_inj piece).mpr through.front
  · have := through.bound
    rw [forwarded_cons, List.length_append]
    dsimp only
    omega
  · rw [through.ended, List.forall_mem_cons, List.length_append, Nat.add_assoc]
    exact and_congr_right fun _ => and_congr_right fun _ => ⟨fun rest => ⟨⟨rfl, rfl⟩, rest⟩, And.right⟩
  · obtain ⟨same, count⟩ := through.whole well
    rw [forwarded_cons, same, count, List.length_append, Nat.add_assoc]
    exact ⟨rfl, rfl⟩

end Through

/-- A call that was not complete ends the feed with an error. -/
theorem stops_incomplete (careful : ¬ checks → Honest w) {s : σ} {piece : Bytes}
    {next : Nat → Option E → Feed E} (failed : ∀ n e, ∃ e', next n (some e) = .done (some e'))
    (short : checks → ∀ n, n ≠ piece.length → ∃ e', next n none = .done (some e'))
    (incomplete : ¬ ((w s piece).n = piece.length ∧ (w s piece).err = none)) :
    ∃ e', next (w s piece).n (w s piece).err = .done (some e') := by
  cases answer : (w s piece).err with
  | some e => exact failed _ e
  | none =>
    have other : (w s piece).n ≠ piece.length := fun same => incomplete ⟨same, answer⟩
    by_cases checked : checks
    · exact short checked _ other
    · obtain ⟨least, honest⟩ := careful checked s piece
      exact absurd answer (honest (by omega))

/-- **What a bounded writer lets through.**  Induction over the pieces the feed writes. -/
theorem run_bounded (careful : ¬ checks → Honest w) (excess : E) (limit : Nat) {f : Feed E}
    (conveys : f.Conveys checks final stream) :
    ∀ (s : σ) (calls : List (Call E)) (written : Nat), written ≤ limit →
      ∃ more, Through limit written stream final calls
        (f.run (bounded excess limit (journaled w)) ((s, calls), written)) more := by
  induction conveys with
  | done =>
    intro s calls written room
    refine ⟨[], ⟨(List.append_nil _).symm, List.nil_prefix, by simpa [forwarded] using room, ?_, ?_⟩⟩
    · simpa [Feed.run] using fun _ => room
    · exact fun _ => ⟨rfl, rfl⟩
  | @write piece rest next complete failed short ih =>
    intro s calls written room
    have one : ∀ c : Call E, forwarded [c] = c.piece := fun c => by
      rw [Through.forwarded_cons, show forwarded ([] : List (Call E)) = [] from rfl, List.append_nil]
    rw [Feed.run]
    by_cases empty : piece = []
    · subst empty
      rw [bounded_empty, List.nil_append]
      exact ih s calls written room
    · have positive : 0 < piece.length := List.length_pos_iff.mpr empty
      by_cases full : limit ≤ written
      · obtain ⟨e', stopped⟩ := failed 0 excess
        rw [bounded_full empty full]
        dsimp only
        rw [stopped]
        refine ⟨[], .stop rfl (List.append_nil _).symm List.nil_prefix room fun fits => ?_⟩
        rw [List.length_append] at fits
        omega
      · by_cases cut : limit - written < piece.length
        · -- the part that fits is handed on, and whatever the writer says the feed ends
          obtain ⟨e', stopped⟩ := failed (w s (piece.take (limit - written))).n
            ((w s (piece.take (limit - written))).err.getD excess)
          rw [bounded_cut empty full cut]
          dsimp only [journaled]
          rw [stopped]
          refine ⟨[_], .stop rfl rfl ?_ ?_ fun fits => ?_⟩
          · rw [one]
            exact (List.take_prefix _ _).trans (List.prefix_append _ _)
          · rw [one, List.length_take]
            omega
          · rw [List.length_append] at fits
            omega
        · rw [bounded_pass empty full cut]
          dsimp only [journaled]
          by_cases all : (w s piece).n = piece.length ∧ (w s piece).err = none
          · rw [all.1, all.2]
            obtain ⟨more, through⟩ := ih (w s piece).state (calls ++ [⟨piece, piece.length, none⟩])
              (written + piece.length) (by omega)
            exact ⟨_, through.step⟩
          · obtain ⟨e', stopped⟩ := stops_incomplete careful failed short all
            rw [stopped]
            refine ⟨[_], .stop rfl rfl ?_ ?_ fun _ complete => all (complete _ List.mem_cons_self)⟩
            · rw [one]
              exact List.prefix_append _ _
            · rw [one]
              dsimp only
              omega

end Feeds

end Microfat.Theory
