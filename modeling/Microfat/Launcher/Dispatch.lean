/-
# Microfat.Launcher.Dispatch — how the launcher runs a variant

`executeVariant` has three modes.  The explicit ones run the variant from the cache
or from a sealed memory file.  The automatic one looks the variant up in the
existing cache first, read-only; on a miss, or when a hit cannot be executed, it
extracts into memory; and only when that failed for an eligible reason after a miss
does it write to the cache.  Which reason is eligible is decided by walking the
wrapped errors.

The programs below issue the calls of the source in its order.  `note` keeps the answer of
the lookup and the error of the memory attempt; it has no counterpart in the source.  The
child environment, the timing and the diagnostics on standard error are left out,
as is the descriptor of the cache directory itself.
-/
import Microfat.Cache.Materialize
import Microfat.Launcher.Extract

namespace Microfat.Launcher

open Theory Format Codec Posix Cache

set_option autoImplicit false

inductive ExecMode where
  | auto
  | cache
  | memfd
  deriving DecidableEq, Repr

/-- The two environment variables that select a mode. -/
structure ModeEnv where
  execMode : Bytes
  dispatchMode : Bytes

def resolveRequestedExecMode (env : ModeEnv) : ExecMode :=
  let requested := if env.execMode = [] then env.dispatchMode else env.execMode
  if equalFold requested (lit "cache") then .cache
  else if equalFold requested (lit "memfd") then .memfd
  else .auto

/-- The mode as it appears in messages. -/
def requestedModeText (env : ModeEnv) : Bytes :=
  let requested := if env.execMode = [] then env.dispatchMode else env.execMode
  if requested = [] then lit "auto" else requested

def isPayloadCorruptionOrDecompressionError (err : Err) : Bool :=
  Err.is err .errMemfdExtract || Err.is err .errPayloadCorrupted ||
    Err.is err .errDictionaryCorrupted || Err.is err .errInvalidDictionary ||
    Err.is err .errInvalidChecksum || Err.is err .errPayloadTooLarge ||
    Err.is err .errDecompressionFailed || Err.is err .errSizeMismatch ||
    Err.is err .errUnsupportedCodec

/-! ## Errors of a dispatch -/

def stageMemfdCreate : Bytes := lit "memfd_create"
def stageMemfdSeal : Bytes := lit "memfd_seal"
def stageMemfdExtract : Bytes := lit "extract_memfd"
def stageMemfdExec : Bytes := lit "execve_memfd"
def stageCacheDirInit : Bytes := lit "cache_dir_init"
def stageCacheCreateTemp : Bytes := lit "cache_create_temp"
def stageCacheExtract : Bytes := lit "cache_extract"
def stageCacheExec : Bytes := lit "execve_cache"

def memfdStage (primaryErr : Err) : Bytes :=
  if Err.is primaryErr .errExecve then stageMemfdExec
  else if Err.is primaryErr .errMemfdSealingFailed then stageMemfdSeal
  else if Err.is primaryErr .errMemfdExtract then stageMemfdExtract
  else stageMemfdCreate

/-- `buildCombinedDispatchError`: the message only prints the two attempts, but the
`Is` method of `DispatchError` sees the sentinel and both of them. -/
def buildCombinedDispatchError (sentinel : Sentinel) (requestedMode : Bytes) (primaryErr : Err)
    (cacheStage : Bytes) (cacheErr : Err) : Err :=
  .errorf
    [.shown, .text ": launcher execution failed in ", .str requestedMode, .text " mode: ",
      .text (if cacheStage = stageCacheExec then "cache fallback execve failed: " else ""),
      .text "(primary memfd error: ", .shown, .text ") [attempt 1: memfd/",
      .str (memfdStage primaryErr), .text ": ", .shown, .text "] [attempt 2: cache/",
      .str cacheStage, .text ": ", .shown, .text "]"]
    [.sentinel sentinel, primaryErr, cacheErr]
    [.sentinel sentinel, primaryErr, primaryErr, cacheErr]

/-- The combined error after a warm hit: the attempts the other way round and their
own summary. -/
def buildHitDispatchError (primaryErr cacheErr : Err) : Err :=
  .errorf
    [.text "launcher execution failed in auto mode: verified cache exec failed: ", .shown,
      .text "; memfd failed: ", .shown]
    [.sentinel .errExecve, cacheErr, primaryErr] [cacheErr, primaryErr]

def procPath (fd : Nat) : List Part := [.text "/proc/self/fd/", .int fd]

def handleCacheError (sentinel : Sentinel) (stage : Bytes) (err : Err) (primaryErr : Option Err)
    (requestedMode : Bytes) (details : List Part) : Err :=
  match primaryErr with
  | some primaryErr => buildCombinedDispatchError sentinel requestedMode primaryErr stage err
  | none =>
    if stage = stageCacheExec then
      .wrap (.cause :: .text ": cache execve failed (" :: details ++ [.text "): ", .cause])
        [.sentinel sentinel, err]
    else .wrap [.cause, .text ": ", .cause] [.sentinel sentinel, err]

/-! ## The memory budget -/

def copyBuffer : Int64 := 32 * 1024
def lz4Buffers : Int64 := 12 * 1024 * 1024
def defaultDecoderMaxMemory : Int64 := 512 * 1024 * 1024

def decoderMemory (compression : Bytes) : Int64 :=
  if compression = lit "none" then Int64.ofNat noneCopyBufferSize
  else if compression = algorithmZstd then copyBuffer + defaultDecoderMaxMemory
  else if compression = lit "lz4" then copyBuffer + lz4Buffers
  else copyBuffer

/-- `checkExtractionBudget` once the limits are read. -/
def admitExtraction (entry : VariantEntry) (dictionary : Int64)
    (limits : Except Err Cgroup.Limits) : Option Err :=
  match limits with
  | .error _ => none
  | .ok limits =>
    if limits.cgroupVersion = Cgroup.versionUnknown then none
    else
      let (limit, finite) := limits.effectiveMemoryLimit
      if !finite || Cgroup.unlimitedCgroupV1MemoryThreshold.toInt ≤ limit.toInt then none
      else
        match Cgroup.extractionMemory entry.uncompressedSize dictionary
            (decoderMemory entry.compression) Cgroup.defaultMinHeadroomBytes with
        | .error err => some err
        | .ok estimate =>
          if limit.toInt < estimate.toInt then
            some (.about .errMemoryBudget [.text "estimated extraction ", .int estimate.toInt,
              .text " bytes exceeds cgroup ceiling ", .int limit.toInt])
          else none

def checkExtractionBudget (entry : VariantEntry) (idx : Option Index) : Program (Option Err) := do
  if entry.uncompressedSize.toInt ≤ 0 || maxPayloadSize < entry.uncompressedSize.toInt then
    return some (.sentinel .errPayloadTooLarge)
  else
    let dictionary := (idx.map (·.dictionarySize)).getD 0
    if dictionary.toInt < 0 || maxDictionarySize < dictionary.toInt then
      return some (.sentinel .errInvalidDictionary)
    else
      let limits ← readCgroupLimits
      return admitExtraction entry dictionary limits

/-! ## The execution paths -/

/-- A writer that only remembers its pieces. -/
def recorder : ByteWriter (List Bytes) Err := fun written piece =>
  ⟨written ++ [piece], piece.length, none⟩

section

variable [CaseTable] (H : Sha256) (D : Decoders) (file : Bytes) (entry : VariantEntry)
  (idx : Option Index)

/-- What `decompressVariantToWriter` does with a writer: up to the first failed write
its pieces do not depend on the writer, and a failed write comes back through the
codec as a failed decompression. -/
def variantPayload : Payload :=
  let result := decompressVariantToWriter H D file entry idx recorder []
  { pieces := result.1
    final := match result.2 with
      | .ok () => none
      | .error (.error err) => some err
      | .error (.trap _) => some (.new "runtime error")
    refused := fun err => .wrap [.text "decompressing variant payload: ", .cause]
      [.wrap [.cause, .text ": ", .cause] [.sentinel .errDecompressionFailed, err]] }

/-- `memfd.CreateExecutable`. -/
def createExecutableMemfd : Program (Except Err Nat) := do
  match ← memfdCreate true with
  | .ok fd => return .ok fd
  | .error err =>
    if Err.is (errnoError err) (.errno Errno.einval) then
      match ← memfdCreate false with
      | .ok fd => return .ok fd
      | .error retryErr => return .error (errnoError retryErr)
    else return .error (errnoError err)

/-- Return an error after the deferred close. -/
def closeReturning (fd : Nat) (err : Err) : Program (Option Err) := do
  let _ ← close fd
  return some err

/-- From the open memory file on: extract, compare the digest, seal, execute. -/
def runMemfd (fd : Nat) : Program (Option Err) := do
  let extractFailed := fun err => Err.wrapping .errMemfdExtract ": decompressing into memfd: " err
  match ← writePayload fd (variantPayload H D file entry idx) with
  | (_, some err) => closeReturning fd (extractFailed err)
  | (hashed, none) =>
    let sum := hexEncode (H.sum hashed)
    if sum ≠ entry.sha256 then
      closeReturning fd (extractFailed (.about .errPayloadCorrupted
        [.text "expected ", .str entry.sha256, .text ", got ", .str sum]))
    else
      match ← addSeals fd with
      | some err =>
        closeReturning fd (Err.wrapping .errMemfdSealingFailed
          ": failed to seal memfd descriptor: " (errnoError err))
      | none =>
        match ← execve fd with
        | none => return none
        | some err =>
          closeReturning fd (.wrap (.cause :: .text ": execve on " :: procPath fd ++
            [.text " failed: ", .cause]) [.sentinel .errExecve, errnoError err])

def executeViaMemfd (env : ModeEnv) : Program (Option Err) := do
  match ← checkExtractionBudget entry idx with
  | some err => return some err
  | none =>
    match ← createExecutableMemfd with
    | .error err =>
      if equalFold (requestedModeText env) (lit "memfd") then
        return some (Err.wrapping .errMemfdCreate
          ": memfd_create failed (forced memfd mode): " err)
      else return some (Err.wrapping .errMemfdCreate ": memfd_create failed: " err)
    | .ok fd =>
      -- best effort: the extraction does not rely on it
      let _ ← ftruncate fd entry.uncompressedSize.toInt
      runMemfd H D file entry idx fd

/-- The three kinds of entry that are refused rather than replaced. -/
def isUnsafeEntryErr (err : Err) : Bool :=
  isSymlinkErr err || Err.is err .errNonRegularFile || Err.is err .errUnsafeFile

def executeExistingCache : Program (Bool × Option Err) := do
  if !validateChecksum entry.sha256 then
    note (.lookup .skipped)
    return (false, none)
  else
    match ← resolveExistingCacheDir with
    | .error _ =>
      note (.lookup .skipped)
      return (false, none)
    | .ok (dirFD, _) =>
      if dirFD < 0 then
        note (.lookup .skipped)
        return (false, none)
      else
        let answer ← openAndValidateVariantAtFD H entry.sha256 entry false
        note (.lookup (.opened answer))
        match answer with
        | .error err =>
          if isUnsafeEntryErr err then
            let err := if isSymlinkErr err then
              .wrap [.text "refusal to execute symlink: ", .cause] [err] else err
            return (false, some (handleCacheError .errCacheWrite stageCacheCreateTemp err none
              (lit "auto") [.text "refusal to execute unsafe cache entry"]))
          else return (false, none)
        | .ok fd =>
          match ← execve fd with
          | none => return (true, none)
          | some err =>
            let _ ← close fd
            return (true, some (handleCacheError .errExecve stageCacheExec (errnoError err)
              none (lit "auto") (procPath fd)))

/-- The last step of `executeViaCache`: run the verified descriptor. -/
def runCached (env : ModeEnv) (primaryErr : Option Err) (fd : Nat) : Program (Option Err) := do
  match ← execve fd with
  | none => return none
  | some err =>
    closeReturning fd (handleCacheError .errExecve stageCacheExec (errnoError err) primaryErr
      (requestedModeText env) (procPath fd))

/-- `executeViaCache` after a miss: admit, materialise, run. -/
def materializeAndRun (env : ModeEnv) (primaryErr : Option Err) (dirFD : Int) (cacheDir : Bytes) :
    Program (Option Err) := do
  match ← checkExtractionBudget entry idx with
  | some err => return some (Err.wrapping .errCacheExtract ": " err)
  | none =>
    match ← materializeAndOpenVariantAtFD H dirFD cacheDir (some entry)
        (some (variantPayload H D file entry idx)) with
    | .ok (_, fd) => runCached env primaryErr fd
    | .error matErr =>
      let extracting := !Err.is matErr .errCacheWrite &&
        (Err.is matErr .errCacheExtract || isPayloadCorruptionOrDecompressionError matErr)
      let (sentinel, stage) := if extracting then (.errCacheExtract, stageCacheExtract)
        else (.errCacheWrite, stageCacheCreateTemp)
      return some (handleCacheError sentinel stage matErr primaryErr (requestedModeText env)
        [.text "materializing cache binary failed"])

def executeViaCache (env : ModeEnv) (primaryErr : Option Err) : Program (Option Err) := do
  match ← resolveCacheDir with
  | .error err =>
    return some (handleCacheError .errCacheInit stageCacheDirInit err primaryErr
      (requestedModeText env) [.text "cache directory creation failed"])
  | .ok (dirFD, cacheDir) =>
    if dirFD < 0 then
      return some (.about .errCacheInit [.text "invalid cache directory descriptor"])
    else if !validateChecksum entry.sha256 || entry.sha256 = [] then
      return some (handleCacheError .errCacheWrite stageCacheCreateTemp
        (.errorf [.text "invalid variant sha256 checksum format ", .quoted entry.sha256] [] [])
        primaryErr (requestedModeText env) [.text "invalid cache filename"])
    else
      let cachedName := cleanPath entry.sha256
      match ← openAndValidateVariantAtFD H cachedName entry true with
      | .ok fd => runCached env primaryErr fd
      | .error openErr =>
        if isUnsafeEntryErr openErr then
          let reason := if isSymlinkErr openErr then "refusal to execute symlink"
            else "refusal to execute unsafe cache entry"
          return some (handleCacheError .errCacheWrite stageCacheCreateTemp
            (.wrap [.text reason, .text " at ", .str (joinPath cacheDir cachedName),
              .text ": ", .cause] [openErr])
            primaryErr (requestedModeText env) [.text "symlink detected in cache"])
        else materializeAndRun H D file entry idx env primaryErr dirFD cacheDir

/-- The automatic mode after the lookup: a miss, or a hit that could not be run. -/
def executeAfterLookup (env : ModeEnv) (hitErr : Option Err) : Program (Option Err) := do
  match ← executeViaMemfd H D file entry idx env with
  | none => return none
  | some err =>
    note (.memfdFailed err)
    match hitErr with
    | some cacheErr => return some (buildHitDispatchError err cacheErr)
    | none =>
      if Err.is err .errMemoryBudget || isPayloadCorruptionOrDecompressionError err then
        return some err
      else executeViaCache H D file entry idx env (some err)

/-- `executeVariant`; `none` is the success after which the process is another one. -/
def executeVariant (env : ModeEnv) : Program (Option Err) :=
  match resolveRequestedExecMode env with
  | .cache => executeViaCache H D file entry idx env none
  | .memfd => executeViaMemfd H D file entry idx env
  | .auto => do
      match ← executeExistingCache H entry with
      | (true, none) => return none
      | (false, none) => executeAfterLookup H D file entry idx env none
      | (hit, some cacheErr) =>
        if !Err.is cacheErr .errExecve then return some cacheErr
        else executeAfterLookup H D file entry idx env (if hit then some cacheErr else none)

end

end Microfat.Launcher
