/-
# Microfat.Sentinels — the error identities of the program

One constructor per package-level `errors.New` that the modelled code returns
or tests with `errors.Is`, and the system error numbers.  `cache.ErrChecksumMismatch`
and `pack.ErrSizeMismatch` are aliases in the source and have no constructor of
their own; `pack.ErrChecksumMismatch` is a distinct value.
-/
import Microfat.Theory.Errors

namespace Microfat

open Theory

set_option autoImplicit false

inductive Sentinel where
  -- internal/format
  | errBinaryTooSmall | errInvalidMagic | errTrailerRead | errUnsupportedVersion
  | errInvalidIndexOffset | errInvalidIndexSize | errIndexCorrupted | errOutOfBounds
  | errPayloadTooLarge | errOverlappingVariant | errTruncatedIndex | errDictionaryCorrupted
  | errPayloadCorrupted | errInvalidDictionary | errInvalidChecksum | errNoVariantsSpecified
  | errDuplicateVariant | errInvalidVariant
  | errMemfdCreate | errMemfdSealingFailed | errMemfdExtract | errExecve
  | errCacheInit | errInsecureCacheDir | errCacheWrite | errCacheExtract
  -- internal/codec
  | errUnsupportedCodec | errUnsupportedProfile | errInvalidCompressionLevel
  | errDecompressionFailed | errSizeMismatch
  -- internal/cache
  | errNonRegularFile | errUnsafeFile | errNotExecutable | errCacheSizeMismatch
  -- internal/cgroup
  | errMemoryBudget | errCgroupHierarchyNotFound | errCgroupLimitCorrupted
  -- internal/microarch
  | errNoMatchingVariant | errEmptyVariants | errIncompatibleForcedVariant | errVariantNotEmbedded
  -- internal/pack
  | errStubMissing | errVariantNotFound | errPackChecksumMismatch | errInvalidELF
  | errUnsupportedArch | errUnsupportedOS | errConflictingDictOptions | errSpoolBudgetExceeded
  | errABIMetadata | errABIResourceLimit | errABIMismatch
  -- internal/inputfile
  | errNotRegular
  -- internal/install
  | errOwnership | errChanged | errConflict | errCorrupt | errUnsupported
  -- internal/lifecycle
  | errInvalidMetadataPolicy | errInvalidPublicationIntent | errHardLinkDetected
  | errSourceModified | errConcurrentTransformation | errDestinationExists
  | errUnsafeCapabilities | errUnsafeIntegrityClaim | errUnsafeSetuidSetgid | errUnsupportedXattr
  | errOwnershipPreservation | errDurabilitySyncFailed | errReadbackVerification | errStagingFailed
  -- os and io
  | osErrNotExist | osErrExist | ioEOF | ioErrUnexpectedEOF | ioErrShortWrite | contextCanceled
  | errno (n : Nat)
  deriving DecidableEq, Repr

namespace Errno

def eperm : Nat := 1
def enoent : Nat := 2
def ebadf : Nat := 9
def eagain : Nat := 11
def eexist : Nat := 17
def enotdir : Nat := 20
def eisdir : Nat := 21
def einval : Nat := 22
def enosys : Nat := 38
def enotempty : Nat := 39
def eloop : Nat := 40
def enodata : Nat := 61
def enotsup : Nat := 95

end Errno

/-- `errors.Is` on two leaves: identity, or the `Is` method of `syscall.Errno`. -/
def Sentinel.same : Sentinel → Sentinel → Bool
  | .errno n, .osErrNotExist => n == Errno.enoent
  | .errno n, .osErrExist => n == Errno.eexist || n == Errno.enotempty
  | s, t => s == t

abbrev Err := GoError Sentinel

/-- `errors.Is(err, target)`. -/
def Err.is (e : Err) (target : Sentinel) : Bool := GoError.is Sentinel.same target e

/-- `fmt.Errorf("%w<text>%w", sentinel, err)`. -/
def Err.wrapping (sentinel : Sentinel) (text : String) (err : Err) : Err :=
  .wrap [.cause, .text text, .cause] [.sentinel sentinel, err]

end Microfat
