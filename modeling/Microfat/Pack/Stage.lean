/-
# Microfat.Pack.Stage — compressing variants, one after the other and in parallel

The part of `Pack` that turns variant files into frames.  The sequential path
(`writeVariantPayload`) compresses straight into the output.  The parallel path
hands the plans to workers, each of which compresses into a staging file; when
all of them have returned, the caller looks for the first recorded error and
otherwise appends the staging files in the order of the plans.

The workers of `writeVariantPayloadsParallel` and of `stagePlanSubset` are one
program (`worker`), around the staging of one job.  The codec registry is a
parameter, and so is the hash.
-/
import Microfat.Pack.Files
import Microfat.Codec.Resolve

namespace Microfat.Pack

open Theory Format Codec Microarch

set_option autoImplicit false

/-! ## Options and plans -/

structure VariantCompressionOptions where
  profile : Bytes
  compression : Bytes
  level : Bytes

/-- The fields of `Options` that decide how a variant is compressed. -/
structure CompressionOptions where
  profile : Bytes
  compression : Bytes
  compressionLevel : Bytes
  variantCompression : List (Bytes × VariantCompressionOptions)

structure VariantWorkPlan where
  level : Bytes
  normalizedLvl : Bytes
  cleanPath : Bytes
  statSize : Int64
  codecImpl : Impl
  resolvedLevel : Bytes

section

variable [CaseTable] (registry : Registered)

def resolveVariantCompression (opts : CompressionOptions) (lvl : Bytes) (uncompressedSize : Int64) :
    Except Err (Impl × Bytes) :=
  let (profile, compAlgo, compLevel) :=
    match opts.variantCompression.lookup (normalize lvl) with
    | none => (opts.profile, opts.compression, opts.compressionLevel)
    | some varComp =>
      let profile := if varComp.profile ≠ [] then varComp.profile else opts.profile
      let (compAlgo, compLevel) :=
        if varComp.compression ≠ [] then
          let inlineLevel := (parseCompressionSpec varComp.compression).2
          -- an inline level of the variant outranks the level of all variants
          (varComp.compression, if inlineLevel ≠ [] then inlineLevel else opts.compressionLevel)
        else (opts.compression, opts.compressionLevel)
      (profile, compAlgo, if varComp.level ≠ [] then varComp.level else compLevel)
  (resolveCompression registry profile compAlgo compLevel uncompressedSize).mapError fun err =>
    .wrap [.text "resolving compression for variant ", .str lvl, .text ": ", .cause] [err]

/-- One round of `prepareVariantWorkPlans`, for a level and the path given for it. -/
def prepareVariantWorkPlan (opts : CompressionOptions) (lvl path : Bytes) :
    Program (Except Err VariantWorkPlan) := do
  match ← osStat (cleanPath path) with
  | .error err =>
    return .error (.wrap [.cause, .text ": ", .str (cleanPath path), .text " (", .cause, .text ")"]
      [.sentinel .errVariantNotFound, err])
  | .ok size =>
    match resolveVariantCompression registry opts lvl size with
    | .error err => return .error err
    | .ok (c, resolvedLevel) =>
      return .ok ⟨lvl, normalize lvl, cleanPath path, size, c, resolvedLevel⟩

def prepareVariantWorkPlans (opts : CompressionOptions) :
    List (Bytes × Bytes) → Program (Except Err (List VariantWorkPlan))
  | [] => return .ok []
  | (lvl, path) :: rest => do
      match ← prepareVariantWorkPlan registry opts lvl path with
      | .error err => return .error err
      | .ok plan =>
        match ← prepareVariantWorkPlans opts rest with
        | .error err => return .error err
        | .ok plans => return .ok (plan :: plans)

end

/-! ## Reading an input -/

/-- `inputfile.openRegular`, on the cleaned path. -/
def openRegular (target : Target) : Program (Option Err) := do
  match ← openFile target with
  | some err => return some err
  | none =>
    match ← fstat target with
    | .error err => return some (.wrap [.str target.text, .text ": ", .cause] [err])
    | .ok stat =>
      if !stat.regular || stat.size.toInt ≤ 0 then
        return some (.wrap [.str target.text, .text ": ", .cause] [.sentinel .errNotRegular])
      else return none

def openInput (path : Bytes) : Program (Option Err) := do
  match ← openRegular (.input (cleanPath path)) with
  | none => return none
  | some err =>
    if Err.is err .errNotRegular then return some (Err.wrapping .errInvalidELF ": " err)
    else return some err

def openBoundedReaderAt (path : Bytes) (limit : Int64) : Program (Except Err Int64) := do
  if limit.toInt ≤ 0 || maxPayloadSize < limit.toInt then
    return .error (.sentinel .errPayloadTooLarge)
  else
    match ← openInput path with
    | some err => return .error err
    | none =>
      match ← fstat (.input (cleanPath path)) with
      | .error err => return .error err
      | .ok stat =>
        if !stat.regular || stat.size.toInt ≤ 0 then
          return .error (.about .errInvalidELF [.text "empty or non-regular input"])
        else if limit.toInt < stat.size.toInt then
          return .error (.sentinel .errPayloadTooLarge)
        else return .ok stat.size

def sizeChanged : Err := .about .errSizeMismatch [.text "input size changed"]

def readBoundedFromFile (target : Target) (size limit : Int64) : Program (Except Err Bytes) := do
  match ← readFull target size with
  | .error err =>
    if Err.is err .ioEOF || Err.is err .ioErrUnexpectedEOF then return .error sizeChanged
    else return .error err
  | .ok data =>
    match ← readExtra target size with
    | .error extraErr =>
      if !Err.is extraErr .ioEOF then return .error extraErr
      else return .ok data
    | .ok extra =>
      if 0 < extra.length then
        if limit.toInt < data.length + extra.length then
          return .error (.sentinel .errPayloadTooLarge)
        else
          match ← fstat target with
          | .ok stat =>
            if limit.toInt < stat.size.toInt then return .error (.sentinel .errPayloadTooLarge)
            else return .error sizeChanged
          | .error _ => return .error sizeChanged
      else return .ok data

def readBoundedInput (path : Bytes) (limit : Int64) : Program (Except Err Bytes) := do
  match ← openBoundedReaderAt path limit with
  | .error err => return .error err
  | .ok size => readBoundedFromFile (.input (cleanPath path)) size limit

/-- `format.MaxPayloadSize` as the `int64` it is. -/
def payloadLimit : Int64 := 1024 * 1024 * 1024

/-- `ErrVariantNotFound` around a failed read. -/
def variantNotFound (path : Bytes) (err : Err) : Err :=
  .wrap [.cause, .text ": ", .str path, .text " (", .cause, .text ")"]
    [.sentinel .errVariantNotFound, err]

/-! ## Compressing -/

/-- The writers a variant is compressed into; `spooled` is a `spoolBoundedWriter`
around a staging file. -/
inductive VariantWriter where
  | plain (dest : Dest)
  | spooled (file : Nat) (limit : Int64)

def VariantWriter.dest : VariantWriter → Dest
  | .plain dest => dest
  | .spooled file _ => .stage file

def VariantWriter.write (piece : Bytes) : VariantWriter → Program (Option Err)
  | .plain dest => writeDest dest piece
  | .spooled file limit => do
      if piece = [] then return none
      else
        let total ← spoolAdd (Int64.ofNat piece.length)
        if limit.toInt < total.toInt then
          return some (.about .errSpoolBudgetExceeded [.text "staged bytes ", .int total.toInt,
            .text " exceed limit ", .int limit.toInt])
        else writeDest (.stage file) piece

/-- The writes of a codec; it stops at the first that fails. -/
def writeChunks (dst : VariantWriter) : List Bytes → Option Err → Program (Option Err)
  | [], final => return final
  | chunk :: rest, final => do
      match ← dst.write chunk with
      | some err => return some err
      | none => writeChunks dst rest final

/-- The error of a codec, with the variant it was compressing. -/
def reportCompression (lvl : Bytes) (c : Impl) (dict : Bytes) (codec : Program (Option Err)) :
    Program (Option Err) := do
  match ← codec with
  | none => return none
  | some err =>
    match c.withDict dict with
    | some _ =>
      return some (.wrap [.text "compressing variant ", .str lvl, .text " with dict: ", .cause] [err])
    | none =>
      return some (.wrap [.text "compressing variant ", .str lvl, .text " with codec ", .str c.name,
        .text ": ", .cause] [err])

def compressVariantIntoWriter (dst : VariantWriter) (lvl : Bytes) (c : Impl)
    (resolvedLevel variantBytes dict : Bytes) : Program (Option Err) :=
  let stream := c.encode variantBytes resolvedLevel dict
  reportCompression lvl c dict (writeChunks dst stream.chunks stream.final)

section

variable [CaseTable] (H : Sha256) (registry : Registered) (opts : CompressionOptions) (dictBytes : Bytes)

/-! ## The sequential path -/

def writeVariantPayload (lvl path : Bytes) (currentOffset : Int64) :
    Program (Except Err (VariantEntry × Int64)) := do
  let variantPath := cleanPath path
  match ← readBoundedInput variantPath payloadLimit with
  | .error err => return .error (variantNotFound variantPath err)
  | .ok variantBytes =>
    let rawHashHex := hexEncode (H.sum variantBytes)
    let uncompressedSize := Int64.ofNat variantBytes.length
    match resolveVariantCompression registry opts lvl uncompressedSize with
    | .error err => return .error err
    | .ok (c, resolvedLevel) =>
      match ← compressVariantIntoWriter (.plain .output) lvl c resolvedLevel variantBytes dictBytes with
      | some err => return .error err
      | none =>
        match ← seek .output with
        | .error err => return .error (.wrap [.text "seeking current file offset: ", .cause] [err])
        | .ok newOffset =>
          return .ok (⟨normalize lvl, currentOffset, newOffset - currentOffset,
            uncompressedSize, rawHashHex, c.name⟩, newOffset)

/-- The loop of `writeAllVariantPayloads` for a single worker. -/
def writeVariantPayloadsSequential :
    List VariantWorkPlan → Int64 → Program (Except Err (List VariantEntry × Int64))
  | [], offset => return .ok ([], offset)
  | plan :: rest, offset => do
      match ← writeVariantPayload H registry opts dictBytes plan.level plan.cleanPath offset with
      | .error writeErr => return .error writeErr
      | .ok (entry, nextOffset) =>
        match ← writeVariantPayloadsSequential rest nextOffset with
        | .error err => return .error err
        | .ok (entries, finish) => return .ok (entry :: entries, finish)

/-! ## Staging -/

/-- A result that carries an error. -/
def ParallelVariantResult.failed (stagedPath : Option StagePath) (err : Err) : ParallelVariantResult :=
  ⟨ParallelVariantResult.zero.entry, stagedPath, some err⟩

/-- `stageCompressedVariantBounded`, as the staging of a job; `tracker` is the limit
of the spool, and `compress` what the codec does with the writer it is given. -/
def stageVariantWith (compress : VariantWriter → Impl → (resolvedLevel variantBytes : Bytes) → Program (Option Err))
    (outDir : Bytes) (job : Nat) (plan : VariantWorkPlan) (tracker : Option Int64) :
    Program ParallelVariantResult := do
  match ← readBoundedInput plan.cleanPath payloadLimit with
  | .error err => return .failed none (variantNotFound plan.cleanPath err)
  | .ok variantBytes =>
    let rawHashHex := hexEncode (H.sum variantBytes)
    let uncompressedSize := Int64.ofNat variantBytes.length
    let resolved :=
      if uncompressedSize ≠ plan.statSize then
        resolveVariantCompression registry opts plan.level uncompressedSize
      else .ok (plan.codecImpl, plan.resolvedLevel)
    match resolved with
    | .error resolveErr => return .failed none resolveErr
    | .ok (c, resolvedLevel) =>
      match ← createTemp outDir job with
      | .error err =>
        return .failed none (.wrap
          [.text "creating variant staging file for ", .str plan.level, .text ": ", .cause] [err])
      | .ok stagePath =>
        let dst := match tracker with
          | some limit => .spooled stagePath.file limit
          | none => .plain (.stage stagePath.file)
        match ← compress dst c resolvedLevel variantBytes with
        | some compErr => do
            let _ ← close stagePath.file
            return .failed (some stagePath) compErr
        | none =>
          let sought ← seek (.stage stagePath.file)
          let closeErr ← close stagePath.file
          match sought, closeErr with
          | .error seekErr, _ =>
            return .failed (some stagePath) (.wrap
              [.text "seeking staged variant ", .str plan.level, .text " offset: ", .cause]
              [seekErr])
          | .ok _, some closeErr =>
            return .failed (some stagePath) (.wrap
              [.text "closing staged variant ", .str plan.level, .text ": ", .cause] [closeErr])
          | .ok compressedSize, none =>
            return ⟨⟨plan.normalizedLvl, 0, compressedSize, uncompressedSize, rawHashHex, c.name⟩,
              some stagePath, none⟩

def stageCompressedVariantBounded (outDir : Bytes) (job : Nat) (plan : VariantWorkPlan)
    (tracker : Option Int64) : Program ParallelVariantResult :=
  stageVariantWith H registry opts
    (fun dst c resolvedLevel variantBytes =>
      compressVariantIntoWriter dst plan.level c resolvedLevel variantBytes dictBytes)
    outDir job plan tracker

end

/-! ## Workers -/

/-- The goroutine of both parallel loops, around the staging of one job.  The
channel holds finitely many jobs, which bounds the number of rounds. -/
def worker (stage : Nat → Program ParallelVariantResult) : Nat → Program Unit
  | 0 => return ()
  | rounds + 1 => do
      match ← receive with
      | none => return ()
      | some job =>
        if ← ctxErr job then worker stage rounds
        else
          let res ← stage job
          store job res
          match res.err with
          | some _ => do
              cancel
              worker stage rounds
          | none => worker stage rounds

def sendJobs : List Nat → Program Unit
  | [] => return ()
  | job :: rest => do
      send job
      sendJobs rest

/-- Make the results, the context and the channel, and fill the channel. -/
def dispatch (jobs : Nat) : Program Unit := do
  makeJobs
  sendJobs (List.range jobs)

/-- The first error of the results. -/
def firstError : List Nat → Program (Option Err)
  | [] => return none
  | job :: rest => do
      let result ← load job
      match result.err with
      | some err => return some err
      | none => firstError rest

/-- The results of a round, and the first error among them. -/
def gather : List Nat → Program (List ParallelVariantResult × Option Err)
  | [] => return ([], none)
  | job :: rest => do
      let result ← load job
      let (results, err) ← gather rest
      return (result :: results, result.err.orElse fun _ => err)

/-! ## Collecting -/

def appendStagedVariantFrame (stagedPath : Option StagePath) (expectedBytes : Int64) :
    Program (Except Err Int64) := do
  match ← openRegular (.staged stagedPath) with
  | some err => return .error (.wrap [.text "opening staged variant frame: ", .cause] [err])
  | none =>
    match ← copyToOutput (.staged stagedPath) (expectedBytes + 1) with
    | .error err => return .error (.wrap [.text "copying staged variant frame: ", .cause] [err])
    | .ok copied =>
      if copied ≠ expectedBytes then
        return .error (.about .errSizeMismatch
          [.text "staged variant frame size changed (expected ", .int expectedBytes.toInt,
            .text ", got ", .int copied.toInt, .text ")"])
      else return .ok copied

/-- `os.Remove` of a staging file; there is nothing behind an empty path. -/
def removeStaged (stagedPath : Option StagePath) : Program Unit :=
  match stagedPath with
  | some path => remove path
  | none => return ()

def appendResults : List Nat → Int64 → Program (Except Err (List VariantEntry × Int64))
  | [], offset => return .ok ([], offset)
  | job :: rest, offset => do
      let result ← load job
      match ← appendStagedVariantFrame result.stagedPath
          result.entry.compressedSize with
      | .error copyErr => return .error copyErr
      | .ok copied =>
        removeStaged result.stagedPath
        clearPath job
        match ← appendResults rest (offset + copied) with
        | .error err => return .error err
        | .ok (entries, finish) =>
          return .ok ({ result.entry with offset := offset } :: entries, finish)

/-- The deferred clean-up: every staging file that is still recorded. -/
def removeRecorded : List Nat → Program Unit
  | [] => return ()
  | job :: rest => do
      let result ← load job
      removeStaged result.stagedPath
      removeRecorded rest

/-- The first recorded error, or the entries of the appended frames. -/
def collectResults (jobs : Nat) (currentOffset : Int64) :
    Program (Except Err (List VariantEntry × Int64)) := do
  match ← firstError (List.range jobs) with
  | some err => return .error err
  | none => appendResults (List.range jobs) currentOffset

/-- What `writeVariantPayloadsParallel` does after `wg.Wait()`, with its deferred
functions. -/
def collect (jobs : Nat) (currentOffset : Int64) : Program (Except Err (List VariantEntry × Int64)) := do
  let r ← collectResults jobs currentOffset
  cancel
  removeRecorded (List.range jobs)
  return r

/-! ## Runs of the parallel path -/

/-- One round of workers from `w` to `w'`: each takes jobs and stages them, in some
interleaving, until all have returned (`wg.Wait`).  Thread 0 is the caller. -/
def WorkersRun (stage : Nat → Program ParallelVariantResult) (jobs workers : Nat) (w w' : World) : Prop :=
  ∃ threads : Fin workers → Program Unit,
    PoolRun (fun i : Fin workers => step (i + 1)) (fun _ _ => False)
      ⟨fun _ => worker stage (jobs + 1), w⟩ ⟨threads, w'⟩ ∧ ∀ i, threads i = .ret ()

section

variable [CaseTable] (H : Sha256) (registry : Registered) (opts : CompressionOptions) (dictBytes : Bytes)

/-- The staging of the job of that number. -/
def stageJob (outDir : Bytes) (plans : List VariantWorkPlan) (tracker : Option Int64) (job : Nat) :
    Program ParallelVariantResult :=
  match plans[job]? with
  | some plan => stageCompressedVariantBounded H registry opts dictBytes outDir job plan tracker
  | none => return .zero

/-- A run of `writeVariantPayloadsParallel`: the caller fills the channel, the
workers run, the caller collects. -/
def ParallelRun (outDir : Bytes) (plans : List VariantWorkPlan) (currentOffset : Int64) (workers : Nat)
    (w : World) (r : Except Err (List VariantEntry × Int64)) (w' : World) : Prop :=
  ∃ (sent collected : List Choice) (u v : World),
    (dispatch plans.length).runWith (step 0) w sent = some ((), u) ∧
      WorkersRun (stageJob H registry opts dictBytes outDir plans none) plans.length workers u v ∧
      (collect plans.length currentOffset).runWith (step 0) v collected = some (r, w')

end

end Microfat.Pack
