/-
# Microfat.Cache.Materialize — publishing a file under its digest

`materializeAndOpenVariantAtFD` writes a payload into a temporary file, hashes what
it writes, renames the file to the entry's digest and verifies the published name
again.  Everything is a sequence of calls on the cache directory, so that other
processes can run, and this one can die, between any two of them.

The payload comes from a callback that is handed the file and hash together as one
writer.  `Payload` is such a callback as far as the writer can tell: the pieces it
hands over, what it returns after them, and what it returns when a write failed, at
which it stops.
-/
import Microfat.Cache.Open

namespace Microfat.Cache

open Theory Format Posix

set_option autoImplicit false

def privateExecMode : Nat := 0o700
def maxTempFileAttempts : Nat := 1000

/-- A `writePayload` callback that writes only through its writer and stops, with an
error, at a failed write. -/
structure Payload where
  pieces : List Bytes
  final : Option Err
  refused : Err → Err

/-- The callback run on `io.MultiWriter(tmpFile, hasher)`; the bytes hashed and its
error. -/
def writePieces (fd : Nat) (payload : Payload) : List Bytes → Bytes → Program (Bytes × Option Err)
  | [], hashed => return (hashed, payload.final)
  | piece :: rest, hashed => do
      match ← write fd piece with
      | (_, some err) => return (hashed, some (payload.refused (errnoError err)))
      | (n, none) =>
        if n ≠ piece.length then
          return (hashed, some (payload.refused (.sentinel .ioErrShortWrite)))
        else writePieces fd payload rest (hashed ++ piece)

def writePayload (fd : Nat) (payload : Payload) : Program (Bytes × Option Err) :=
  writePieces fd payload payload.pieces []

def validateCacheReplacementAt (name : Bytes) : Program (Option Err) := do
  match ← fstatat name with
  | .error err =>
    if isNotExistErr (errnoError err) then return none
    else
      return some (.wrap [.cause, .text ": cannot inspect cache replacement target ", .str name,
        .text ": ", .cause] [.sentinel .errUnsafeFile, errnoError err])
  | .ok stat =>
    let euid ← geteuid
    return validateCacheEntryMetadata euid stat name

def tempName (rnd : Bytes) : Bytes := lit ".exec-" ++ hexEncode rnd ++ lit ".tmp"

/-- `createTempFileAt`, with the attempts that are left. -/
def createTempFileAt : Nat → Program (Except Err (Nat × Bytes))
  | 0 => return .error (.new "failed to create temporary file in cache directory")
  | attempts + 1 => do
      match ← random with
      | .error err => return .error (.wrap [.text "generating random suffix: ", .cause] [err])
      | .ok rnd =>
        match ← createExcl (tempName rnd) privateExecMode with
        | .ok fd => return .ok (fd, tempName rnd)
        | .error err =>
          if !Err.is (errnoError err) (.errno Errno.eexist) then return .error (errnoError err)
          else createTempFileAt attempts

/-- The deferred cleanup of an open temporary file, on the way out with `err`. -/
def abandon {α : Type} (tmpFD : Nat) (tmpName : Bytes) (err : Err) : Program (Except Err α) := do
  let _ ← close tmpFD
  let _ ← unlinkat tmpName
  return .error err

/-- The deferred cleanup once the temporary file is closed; closing it again does
not reach the kernel. -/
def abandonClosed {α : Type} (tmpName : Bytes) (err : Err) : Program (Except Err α) := do
  let _ ← unlinkat tmpName
  return .error err

section

variable (H : Sha256) (dirPath : Bytes) (entry : VariantEntry)

/-- Publication after the rename: open, verify, and take the name back on failure. -/
def openPublished (cleanDir cachedName : Bytes) : Program (Except Err (Bytes × Nat)) := do
  match ← openAndValidateVariantAtFD H cachedName entry false with
  | .error openErr =>
    let _ ← unlinkat cachedName
    return .error (.wrap [.cause, .text ": opening verified cache file ",
      .str (joinPath cleanDir cachedName), .text ": ", .cause] [.sentinel .errCacheWrite, openErr])
  | .ok vfd => return .ok (joinPath cleanDir cachedName, vfd)

/-- From the complete temporary file to the published name. -/
def publishTemp (cleanDir cachedName : Bytes) (tmpFD : Nat) (tmpName : Bytes) :
    Program (Except Err (Bytes × Nat)) := do
  let tmpPath := joinPath cleanDir tmpName
  match ← fchmod tmpFD privateExecMode with
  | some err =>
    abandon tmpFD tmpName (.wrap [.cause, .text ": setting permissions on ", .str tmpPath,
      .text ": ", .cause] [.sentinel .errCacheWrite, errnoError err])
  | none =>
    match ← fsync tmpFD with
    | some err =>
      abandon tmpFD tmpName (.wrap [.cause, .text ": syncing temp cache file ", .str tmpPath,
        .text ": ", .cause] [.sentinel .errCacheWrite, errnoError err])
    | none =>
      match ← close tmpFD with
      | some err =>
        abandonClosed tmpName (.wrap [.cause, .text ": closing temp cache file ",
          .str tmpPath, .text ": ", .cause] [.sentinel .errCacheWrite, errnoError err])
      | none =>
        match ← renameat tmpName cachedName with
        | some err =>
          abandonClosed tmpName (.wrap [.cause, .text ": renaming temp cache file ",
            .str tmpPath, .text " to ", .str (joinPath cleanDir cachedName), .text ": ",
            .cause] [.sentinel .errCacheWrite, errnoError err])
        | none => openPublished H entry cleanDir cachedName

/-- `materializeAndOpenVariantAtFD` after its argument checks. -/
def materializeChecked (payload : Payload) : Program (Except Err (Bytes × Nat)) := do
  let cleanDir := cleanPath dirPath
  let cachedName := cleanPath entry.sha256
  match ← validateCacheReplacementAt cachedName with
  | some err =>
    return .error (.wrap [.cause, .text ": refusing cache replacement: ", .cause]
      [.sentinel .errCacheWrite, err])
  | none =>
    match ← createTempFileAt maxTempFileAttempts with
    | .error createErr =>
      return .error (.wrap [.cause, .text ": cannot create temp file in ", .str cleanDir,
        .text ": ", .cause] [.sentinel .errCacheWrite, createErr])
    | .ok (tmpFD, tmpName) =>
      match ← writePayload tmpFD payload with
      | (_, some err) =>
        abandon tmpFD tmpName (.wrap [.cause, .text ": writing variant payload: ", .cause]
          [.sentinel .errCacheExtract, err])
      | (hashed, none) =>
        let sum := hexEncode (H.sum hashed)
        if sum ≠ entry.sha256 then
          abandon tmpFD tmpName (.about .errPayloadCorrupted
            [.text "expected ", .str entry.sha256, .text ", got ", .str sum])
        else publishTemp H entry cleanDir cachedName tmpFD tmpName

end

/-- The argument checks, in order. -/
def checkMaterialize (dirFD : Int) (dirPath : Bytes) (entry : Option VariantEntry)
    (writePayload : Option Payload) : Except Err (VariantEntry × Payload) :=
  if dirFD < 0 then .error (.about .errCacheWrite [.text "invalid directory descriptor"])
  else if dirPath = [] then
    .error (.about .errCacheWrite [.text "invalid empty cache directory path"])
  else match entry with
    | none => .error (.new "nil variant entry")
    | some entry =>
      if entry.sha256 = [] || !validateChecksum entry.sha256 then
        .error (.about .errInvalidChecksum
          [.text "invalid variant checksum ", .quoted entry.sha256])
      else if entry.uncompressedSize.toInt ≤ 0 || maxPayloadSize < entry.uncompressedSize.toInt then
        .error (.about .errPayloadTooLarge
          [.text "invalid variant uncompressed size ", .int entry.uncompressedSize.toInt])
      else match writePayload with
        | none => .error (.new "nil writePayload function")
        | some payload => .ok (entry, payload)

def materializeAndOpenVariantAtFD (H : Sha256) (dirFD : Int) (dirPath : Bytes)
    (entry : Option VariantEntry) (writePayload : Option Payload) :
    Program (Except Err (Bytes × Nat)) :=
  match checkMaterialize dirFD dirPath entry writePayload with
  | .error err => return .error err
  | .ok (entry, payload) => materializeChecked H dirPath entry payload

theorem checkMaterialize_ok {dirFD : Int} {dirPath : Bytes} {entry : Option VariantEntry}
    {writePayload : Option Payload} {checked : VariantEntry} {payload : Payload}
    (passed : checkMaterialize dirFD dirPath entry writePayload = .ok (checked, payload)) :
    entry = some checked ∧ writePayload = some payload ∧ checked.sha256 ≠ [] ∧
      validateChecksum checked.sha256 = true ∧ 0 < checked.uncompressedSize.toInt ∧
      checked.uncompressedSize.toInt ≤ maxPayloadSize := by
  unfold checkMaterialize at passed
  split_ifs at passed
  cases entry with
  | none => cases passed
  | some entry =>
    dsimp only at passed
    split_ifs at passed with digest size
    cases writePayload with
    | none => cases passed
    | some given =>
      cases passed
      simp only [Bool.or_eq_true, decide_eq_true_eq, Bool.not_eq_true', not_or, Bool.not_eq_false, not_le,
        not_lt] at digest size
      exact ⟨rfl, rfl, digest.1, digest.2, size.1, size.2⟩

/-- A digest is a plain file name. -/
theorem cleanPath_digest {s : Bytes} (present : s ≠ []) (valid : validateChecksum s = true) :
    cleanPath s = s := by
  rcases validateChecksum_iff.mp valid with empty | ⟨width, hex⟩
  · exact absurd empty present
  · have short : ∀ t : Bytes, t.length ≠ 64 → s ≠ t := by
      intro t other same
      exact other (same ▸ width)
    refine cleanPath_plain ?_ present (short _ (by decide)) (short _ (by decide))
    intro mem
    exact absurd (hex slash mem) (by decide)

end Microfat.Cache
