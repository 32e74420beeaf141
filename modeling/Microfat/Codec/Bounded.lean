/-
# Microfat.Codec.Bounded — every decoder, every way it delivers

`Microfat.Codec.Registry` has the decoders deliver their stream in reads.  The source hands
its bounded writer to `io.Copy`, and the readers of both libraries bring a `WriteTo` of
their own; so may the reader an uncompressed payload comes from.  Here the three codecs run
over any `Reader`, with both ways; with reads they are those of the registry
(`decompressWithOptionalDict_reads`).

`decompress_bounded` is the result, over the journal of the output writer.  Whatever the
declared size, nothing but the front of the stream up to that size reaches the writer.  A
decompression succeeds exactly if the size is in range, the decoder starts and ends well,
the stream has the declared length and the writer accepted every byte.
-/
import Microfat.Codec.Registry
import Microfat.Theory.Feed

namespace Microfat.Codec

open Theory

set_option autoImplicit false

/-- What the decoder libraries make of the reader of a frame. -/
structure Libraries where
  newZstdReader : (r : Reader Err) → (dict : Bytes) → Except Err (Reader Err)
  newLZ4Reader : (r : Reader Err) → Reader Err

section Codecs

variable {σ : Type} (w : ByteWriter σ Err)

/-- The common part of the three codecs. -/
def decompressReader (s : σ) (uncompressedSize : Int64) (opened : Except Err (Reader Err)) : σ × Option Err :=
  decompressCopied (ioCopy shortWrite (boundedWriter w uncompressedSize.toInt) (s, 0)) s uncompressedSize opened

/-- A reader with a `WriteTo` writes into the bounded writer; any other is copied through
the scratch buffer. -/
def NoneCodec.decompress (s : σ) (r : Reader Err) (uncompressedSize : Int64) : σ × Option Err :=
  decompressReader w s uncompressedSize (.ok r)

variable (L : Libraries)

def ZstdCodec.decompressWithDict (s : σ) (r : Reader Err) (uncompressedSize : Int64) (dict : Bytes) :
    σ × Option Err :=
  decompressReader w s uncompressedSize <|
    (L.newZstdReader r dict).mapError fun err =>
      .wrap [.cause, .text ": initializing zstd reader: ", .cause]
        [.sentinel .errDecompressionFailed, err]

def ZstdCodec.decompress (s : σ) (r : Reader Err) (uncompressedSize : Int64) : σ × Option Err :=
  ZstdCodec.decompressWithDict w L s r uncompressedSize []

def LZ4Codec.decompress (s : σ) (r : Reader Err) (uncompressedSize : Int64) : σ × Option Err :=
  decompressReader w s uncompressedSize (.ok (L.newLZ4Reader r))

/-- `Decompress`, or `DecompressWithDict` for the codec that takes a dictionary. -/
def Builtin.decompress (c : Builtin) (s : σ) (r : Reader Err) (uncompressedSize : Int64) (dict : Bytes) :
    σ × Option Err :=
  match c with
  | .zstd => ZstdCodec.decompressWithDict w L s r uncompressedSize dict
  | .lz4 => LZ4Codec.decompress w L s r uncompressedSize
  | .none => NoneCodec.decompress w s r uncompressedSize

/-- The reader the codec copies from, if its decoder starts. -/
def Builtin.start (c : Builtin) (r : Reader Err) (dict : Bytes) : Option (Reader Err) :=
  match c with
  | .zstd => (L.newZstdReader r dict).toOption
  | .lz4 => some (L.newLZ4Reader r)
  | .none => some r

end Codecs

/-! ## Decoders that deliver reads -/

section Reads

variable {σ : Type} {w : ByteWriter σ Err} {D : Decoders} {L : Libraries} {frame : Source} {r : Reader Err}

theorem decompressReader_reads (s : σ) (size : Int64) (opened : Except Err (ByteStream Err)) :
    decompressReader w s size (opened.map .reads) = decompressStream w s size opened := by
  unfold decompressReader decompressStream decompressCopied
  cases opened with
  | error err => rfl
  | ok reader =>
    dsimp only [Except.map]
    rw [ioCopy_reads]

/-- **The codecs of the registry are these**, where the frame is a section of the file and the
readers of the libraries are read from. -/
theorem decompressWithOptionalDict_reads
    (inReads : r = .reads ⟨pieces noneCopyBufferSize frame.bytes.length frame.bytes, frame.fault⟩)
    (zstd : ∀ dict, L.newZstdReader r dict = (D.zstd dict frame).map .reads)
    (lz4 : L.newLZ4Reader r = .reads (D.lz4 frame)) (c : Builtin) (s : σ) (size : Int64) (dict : Bytes) :
    decompressWithOptionalDict w D c s frame size dict = c.decompress w L s r size dict := by
  rw [decompressWithOptionalDict_eq, ← decompressReader_reads]
  cases c with
  | none => rw [inReads]; rfl
  | lz4 =>
    rw [Builtin.decompress, LZ4Codec.decompress, lz4]
    rfl
  | zstd =>
    rw [Builtin.decompress, ZstdCodec.decompressWithDict, zstd dict]
    unfold opened
    cases D.zstd dict frame with
    | error err => rfl
    | ok reader => rfl

end Reads

/-! ## The outcome -/

section Outcome

variable {σ : Type} {w : ByteWriter σ Err}

/-- The declared sizes that are decompressed at all. -/
def InRange (size : Int64) : Prop := 0 ≤ size.toInt ∧ size.toInt ≤ defaultMaxPayloadSize

theorem decompressReader_outside {s : σ} {size : Int64} (opened : Except Err (Reader Err))
    (outside : ¬ InRange size) : ∃ err, decompressReader w s size opened = (s, some err) := by
  unfold decompressReader decompressCopied
  by_cases negative : size.toInt < 0
  · exact ⟨_, if_pos negative⟩
  · rw [if_neg negative, if_pos (by unfold InRange at outside; omega)]
    exact ⟨_, rfl⟩

theorem decompressReader_unstarted (s : σ) (size : Int64) (err : Err) :
    ∃ err', decompressReader w s size (.error err) = (s, some err') := by
  by_cases inside : InRange size
  · obtain ⟨positive, small⟩ := inside
    unfold decompressReader decompressCopied
    rw [if_neg (by omega), if_neg (by omega)]
    exact ⟨err, rfl⟩
  · exact decompressReader_outside _ inside

/-- Inside the range the state is that of the copy, and success needs a clean copy of the
declared length. -/
theorem decompressReader_inside {s : σ} {size : Int64} {r : Reader Err} (inside : InRange size) :
    let result := ioCopy shortWrite (boundedWriter w size.toInt) (s, 0) r
    (decompressReader w s size (.ok r)).1 = result.1.1 ∧
      ((decompressReader w s size (.ok r)).2 = none ↔ result.2 = none ∧ (result.1.2 : Int) = size.toInt) := by
  obtain ⟨positive, small⟩ := inside
  unfold decompressReader decompressCopied
  rw [if_neg (by omega), if_neg (by omega)]
  dsimp only
  cases (ioCopy shortWrite (boundedWriter w size.toInt) (s, 0) r).2 with
  | some copyErr =>
    dsimp only
    split
    · exact ⟨rfl, by simp⟩
    · exact ⟨rfl, by simp⟩
  | none =>
    dsimp only
    split
    · rename_i other
      exact ⟨rfl, by simpa using other⟩
    · rename_i same
      exact ⟨rfl, by simpa using same⟩

/-- The outcome of a decompression that writes to `w`, told from the journal of `w`. -/
structure Bounded (size : Int64) (started : Prop) (stream : Bytes) (final : Option Err)
    (calls : List (Call Err)) (err : Option Err) : Prop where
  front : forwarded calls <+: stream
  bound : ((forwarded calls).length : Int) ≤ max 0 size.toInt
  refused : ¬ InRange size → calls = []
  success : err = none ↔ InRange size ∧ started ∧ final = none ∧ (stream.length : Int) = size.toInt ∧
    ∀ c ∈ calls, c.Complete
  output : err = none → accepted calls = stream

theorem bounded_untouched {size : Int64} {started : Prop} {stream : Bytes} {final : Option Err} {err : Err}
    (reason : InRange size → ¬ started) : Bounded size started stream final [] (some err) where
  front := List.nil_prefix
  bound := by
    change (0 : Int) ≤ _
    omega
  refused _ := rfl
  success := ⟨fun well => (nomatch well), fun fine => absurd fine.2.1 (reason fine.1)⟩
  output well := nomatch well

/-- The error of a write beyond the declared size. -/
def exceedsLimit (size : Int64) : Err :=
  .about .errSizeMismatch [.text "payload exceeds limit of ", .int size.toInt, .text " bytes"]

theorem boundedWriter_inside {size : Int64} (inside : InRange size) :
    boundedWriter w size.toInt = bounded (exceedsLimit size) size.toInt.toNat w := by
  obtain ⟨positive, small⟩ := inside
  have same : (if size.toInt < 0 || defaultMaxPayloadSize < size.toInt then defaultMaxPayloadSize else size.toInt) =
      size.toInt := if_neg (by simp only [Bool.or_eq_true, decide_eq_true_eq]; omega)
  unfold boundedWriter
  dsimp only
  rw [same]
  rfl

/-- The three codecs, once their reader is there. -/
theorem decompressReader_bounded {checks started : Prop} (careful : ¬ checks → Honest w) (s : σ) (size : Int64)
    {r : Reader Err} {stream : Bytes} {final : Option Err} (delivers : r.Delivers checks stream final)
    (begun : started) :
    Bounded size started stream final (decompressReader (journaled w) (s, []) size (.ok r)).1.2
      (decompressReader (journaled w) (s, []) size (.ok r)).2 := by
  by_cases inside : InRange size
  · obtain ⟨state, success⟩ := decompressReader_inside (w := journaled w) (s := (s, [])) (r := r) inside
    obtain ⟨calls, through⟩ := run_bounded careful (exceedsLimit size) size.toInt.toNat
      (delivers.conveys shortWrite) s [] 0 (Nat.zero_le _)
    rw [← boundedWriter_inside inside] at through
    change Through _ _ _ _ _ (ioCopy shortWrite _ _ r) _ at through
    have journal := congrArg Prod.snd state
    rw [through.journal, List.nil_append] at journal
    have positive := inside.1
    have bound := through.bound
    have ended := through.ended
    rw [journal]
    refine ⟨through.front, by omega, fun outside => absurd inside outside, ?_, fun well => ?_⟩
    · rw [success]
      constructor
      · rintro ⟨well, count⟩
        obtain ⟨-, all⟩ := through.whole well
        obtain ⟨clean, -, complete⟩ := ended.mp well
        exact ⟨inside, begun, clean, by omega, complete⟩
      · rintro ⟨-, -, clean, exact, complete⟩
        have well := ended.mpr ⟨clean, by omega, complete⟩
        obtain ⟨-, all⟩ := through.whole well
        exact ⟨well, by omega⟩
    · have clean := (success.mp well).1
      rw [accepted_complete (ended.mp clean).2.2]
      exact (through.whole clean).1
  · obtain ⟨err, refused⟩ := decompressReader_outside (w := journaled w) (s := (s, [])) (.ok r) inside
    rw [refused]
    exact bounded_untouched fun inside' => absurd inside' inside

/-- The outcome is the same for writers that answer alike. -/
theorem decompressReader_sim {τ : Type} {v : ByteWriter τ Err} {R : σ → τ → Prop} (same : Answers w v R) {s : σ}
    {t : τ} {size : Int64} {opened : Except Err (Reader Err)} (related : R s t) :
    R (decompressReader w s size opened).1 (decompressReader v t size opened).1 ∧
      (decompressReader w s size opened).2 = (decompressReader v t size opened).2 :=
  decompressCopied_sim related fun reader =>
    (reader.feed shortWrite).run_sim (bounded_answers same) (s := (s, 0)) (t := (t, 0)) ⟨related, rfl⟩

/-- Every codec checks the size, starts its decoder and copies. -/
theorem Builtin.decompress_eq (L : Libraries) (c : Builtin) (r : Reader Err) (dict : Bytes) :
    ∃ opened : Except Err (Reader Err), opened.toOption = c.start L r dict ∧
      ∀ {σ : Type} (w : ByteWriter σ Err) (s : σ) (size : Int64),
        c.decompress w L s r size dict = decompressReader w s size opened := by
  cases c with
  | none => exact ⟨.ok r, rfl, fun _ _ _ => rfl⟩
  | lz4 => exact ⟨.ok (L.newLZ4Reader r), rfl, fun _ _ _ => rfl⟩
  | zstd =>
    refine ⟨_, ?_, fun _ _ _ => rfl⟩
    unfold Builtin.start
    cases L.newZstdReader r dict with
    | ok reader => rfl
    | error err => rfl

/-- **Decompression is bounded and exact.**  For every codec, every declared size and every
way a decoder delivers its stream, with an output writer that keeps the contract of
`io.Writer` or a decoder that checks the counts. -/
theorem decompress_bounded (w : ByteWriter σ Err) (L : Libraries) (c : Builtin) (s : σ) (r : Reader Err)
    (size : Int64) (dict : Bytes) (checks : Prop) (stream : Bytes) (final : Option Err)
    (careful : ¬ checks → Honest w)
    (delivers : ∀ reader, c.start L r dict = some reader → reader.Delivers checks stream final) :
    Bounded size (c.start L r dict ≠ none) stream final
        (c.decompress (journaled w) L (s, []) r size dict).1.2
        (c.decompress (journaled w) L (s, []) r size dict).2 ∧
      (c.decompress (journaled w) L (s, []) r size dict).1.1 = (c.decompress w L s r size dict).1 ∧
      (c.decompress (journaled w) L (s, []) r size dict).2 = (c.decompress w L s r size dict).2 := by
  obtain ⟨opened, start, run⟩ := c.decompress_eq L r dict
  rw [run, run]
  refine ⟨?_, decompressReader_sim (journaled_answers w) rfl⟩
  cases opened with
  | ok reader =>
    have begun : c.start L r dict ≠ none := by
      rw [← start]
      exact nofun
    exact decompressReader_bounded careful s size (delivers reader start.symm) begun
  | error err =>
    obtain ⟨err', untouched⟩ := decompressReader_unstarted (w := journaled w) (s, []) size err
    rw [untouched]
    exact bounded_untouched fun _ started => started start.symm

/-- An uncompressed payload of three bytes, in reads of two, none and one. -/
theorem decompress_bounded_three :
    (Builtin.none.decompress buffer ⟨fun r _ => .ok r, id⟩ [] (.reads ⟨[[1, 2], [], [3]], none⟩) 3 []).2 = none ∧
      ((Builtin.none.decompress (journaled buffer) ⟨fun r _ => .ok r, id⟩ ([], [])
        (.reads ⟨[[1, 2], [], [3]], none⟩) 3 []).2 = none →
      accepted (Builtin.none.decompress (journaled buffer) ⟨fun r _ => .ok r, id⟩ ([], [])
        (.reads ⟨[[1, 2], [], [3]], none⟩) 3 []).1.2 = [1, 2, 3]) := by
  refine ⟨by decide +kernel, (decompress_bounded buffer ⟨fun r _ => .ok r, id⟩ .none []
    (.reads ⟨[[1, 2], [], [3]], none⟩) 3 [] True [1, 2, 3] none (absurd trivial) fun reader start => ?_).1.output⟩
  cases start
  exact ⟨rfl, rfl⟩

end Outcome

end Microfat.Codec
