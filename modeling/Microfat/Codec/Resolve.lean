/-
# Microfat.Codec.Resolve — which codec and level a payload is compressed with

The packing side of the codec package.  A codec is a value of an interface, so
here it is arbitrary: `Impl` has the methods of `Codec` and, for a `DictCodec`,
the two methods with a dictionary.  What a method writes, and the error it ends
with, depends on its arguments only.

`resolveCompression` turns a profile, an `algo[:level]` text, a level and the
size of the payload into a registered codec and a level.
-/
import Microfat.Codec.Registry

namespace Microfat.Codec

open Theory

set_option autoImplicit false

/-- The methods a `DictCodec` has on top of those of a `Codec`. -/
structure DictMethods where
  compressWithDict : (src level dict : Bytes) → ByteStream Err
  decompressWithDict : (frame : Bytes) → (uncompressedSize : Int64) → (dict : Bytes) → Except Err Bytes

/-- A value of the `Codec` interface; `dictMethods` says whether it is a
`DictCodec`.  Compression is the sequence of its writes and its own error, if it
has one; decompression is what it wrote or its error. -/
structure Impl where
  name : Bytes
  compress : (src level : Bytes) → ByteStream Err
  decompress : (frame : Bytes) → (uncompressedSize : Int64) → Except Err Bytes
  dictMethods : Option DictMethods

namespace Impl

/-- The dictionary methods, when there is a dictionary to use them with. -/
def withDict (c : Impl) (dict : Bytes) : Option DictMethods :=
  if dict ≠ [] then c.dictMethods else none

/-- What a codec writes for a payload: with the dictionary if there is one and the
codec can use it. -/
def encode (c : Impl) (src level dict : Bytes) : ByteStream Err :=
  match c.withDict dict with
  | some dc => dc.compressWithDict src level dict
  | none => c.compress src level

end Impl

/-- The registry: `Register` puts a codec in front, so the last one of a name counts. -/
abbrev Registered := List Impl

section

variable [CaseTable]

/-- The key `Register` files a codec under. -/
def Impl.key (c : Impl) : Bytes := toLower (trimSpace c.name)

/-- `registry[cleanName]`. -/
def Registered.find (registry : Registered) (cleanName : Bytes) : Option Impl :=
  registry.find? fun c => c.key = cleanName

/-- `List`: the keys, sorted by their bytes. -/
def Registered.names (registry : Registered) : List Bytes :=
  (registry.map Impl.key).dedup.insertionSort fun a b => a.map UInt8.toNat ≤ b.map UInt8.toNat

/-- `Get`. -/
def Registered.get (registry : Registered) (name : Bytes) : Except Err Impl :=
  let cleanName := toLower (trimSpace name)
  let cleanName := if cleanName = [] then algorithmZstd else cleanName
  match registry.find cleanName with
  | some c => .ok c
  | none => .error (.about .errUnsupportedCodec
      [.quoted name, .text " (supported: ", .str ((lit ", ").intercalate registry.names), .text ")"])

def profileLatency : Bytes := lit "latency"
def profileBalanced : Bytes := lit "balanced"
def profileSize : Bytes := lit "size"

def algorithmLZ4 : Bytes := lit "lz4"
def algorithmNone : Bytes := lit "none"

def defaultLatencyUncompressedThreshold : Int := 512 * 1024

def colon : UInt8 := 58

/-- `ParseCompressionSpec`: the text before the first colon and the text after it. -/
def parseCompressionSpec (spec : Bytes) : Bytes × Bytes :=
  let spec := trimSpace spec
  if spec = [] then ([], [])
  else
    (toLower (trimSpace (spec.takeWhile (· ≠ colon))),
      match spec.dropWhile (· ≠ colon) with
      | [] => []
      | _ :: rest => trimSpace rest)

/-- The algorithm a profile falls back to when none is named. -/
def profileAlgorithm (profile : Bytes) (payloadSize : Int64) : Bytes :=
  if profile = profileLatency then
    if 0 < payloadSize.toInt && payloadSize.toInt < defaultLatencyUncompressedThreshold then
      algorithmNone
    else algorithmLZ4
  else algorithmZstd

/-- The level of a profile for `zstd` when none is given; the latency profile
leaves it empty. -/
def profileLevel (profile targetAlgo : Bytes) : Bytes :=
  if profile = profileLatency then []
  else if targetAlgo = algorithmZstd then
    if profile = profileSize then lit "best" else lit "better"
  else []

def resolveCompression (registry : Registered) (profile algorithm level : Bytes) (payloadSize : Int64) :
    Except Err (Impl × Bytes) :=
  let profile := toLower (trimSpace profile)
  let (algo, specLevel) := parseCompressionSpec algorithm
  let level := trimSpace level
  let level := if specLevel ≠ [] && level = [] then specLevel else level
  if profile ≠ [] && !(profile = profileLatency || profile = profileBalanced || profile = profileSize) then
    .error (.about .errUnsupportedProfile [.quoted profile, .text " (expected ", .str profileLatency,
      .text ", ", .str profileBalanced, .text ", or ", .str profileSize, .text ")"])
  else
    let targetAlgo := if algo = [] then profileAlgorithm profile payloadSize else algo
    let targetLevel := if level = [] then profileLevel profile targetAlgo else level
    match registry.get targetAlgo with
    | .error err => .error err
    | .ok c => .ok (c, targetLevel)

end

end Microfat.Codec
