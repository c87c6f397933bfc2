import MiningInfra.Relay.Body
import MiningInfra.Relay.Segment

/-!
# Objects from shards

The decoding side of the chunker: the shards of an object go through Reed-Solomon, and a
length in front of the content tells where the padding starts.
-/

namespace MiningInfra.Relay

open Coinbase

/-- The shards of an object, by number; none is one that has not come. -/
abbrev Shards := List (Option (List UInt8))

/-- What the relay takes from other crates: the hash functions, HMAC-SHA256 of a key and a
message, `ReedSolomon::new` for a number of data and parity shards, which gives its
`reconstruct`, and the validator of a proof of work. -/
structure Primitives where
  hashes : Hashes
  hmacSha256 : Bytes32 → List UInt8 → Bytes32
  reedSolomon : Nat → Nat → Except String (Shards → Except String Shards)
  validate : PowValidator

inductive FecError where
  | insufficientShards (required available : Nat)
  | invalidConfiguration (message : String)
  | encodingFailed (message : String)
  | decodingFailed (message : String)
  | dataTooLarge (size max : Nat)
  deriving DecidableEq, Repr

def FecError.asStr : FecError → String
  | insufficientShards required available =>
    s!"insufficient shards: need {required}, have {available}"
  | invalidConfiguration message => s!"invalid configuration: {message}"
  | encodingFailed message => s!"encoding failed: {message}"
  | decodingFailed message => s!"decoding failed: {message}"
  | dataTooLarge size max => s!"data too large: {size} bytes exceeds max {max} bytes"

structure FecDecoder where
  reconstruct : Shards → Except String Shards
  dataShards : Nat
  parityShards : Nat

namespace FecDecoder

/-- The encoder of the same shape is made under the same conditions. -/
def new (p : Primitives) (dataShards parityShards : Nat) : Except FecError FecDecoder :=
  if dataShards = 0 then .error (.invalidConfiguration "data_shards must be > 0")
  else if parityShards = 0 then .error (.invalidConfiguration "parity_shards must be > 0")
  else match p.reedSolomon dataShards parityShards with
    | .error error => .error (.invalidConfiguration error)
    | .ok reconstruct => .ok ⟨reconstruct, dataShards, parityShards⟩

/-- The data shards, one after the other. -/
def concatShards : Shards → Except FecError (List UInt8)
  | [] => .ok []
  | none :: _ => .error (.decodingFailed "shard remained None after reconstruction")
  | some shard :: rest => do return shard ++ (← concatShards rest)

def decode (d : FecDecoder) (shards : Shards) (originalLen : Nat) :
    Except FecError (List UInt8) := do
  let totalShards := d.dataShards + d.parityShards
  if shards.length ≠ totalShards then
    throw (.invalidConfiguration s!"expected {totalShards} shards, got {shards.length}")
  let available := (shards.filter Option.isSome).length
  if available < d.dataShards then throw (.insufficientShards d.dataShards available)
  let shards ← (d.reconstruct shards).mapError FecError.decodingFailed
  let data ← concatShards (shards.take d.dataShards)
  return data.take originalLen

end FecDecoder

def wrapLenPrefixed (content : List UInt8) : List UInt8 := leBytes 4 content.length ++ content

/-- The content behind its length. -/
def readLenPrefixed (data : List UInt8) : Except String (List UInt8) :=
  if data.length < 4 then .error "data too short for content length prefix"
  else
    let contentLen := leNat (data.take 4)
    if data.length < contentLen + 4 then
      .error s!"content length {contentLen} exceeds available data ({data.length - 4})"
    else .ok (slice data 4 contentLen)

/-- `split_shape`: the data and the parity shards of an object of `total` chunks. -/
def splitShape (dataShards total : Nat) : Except FecError (Nat × Nat) :=
  if dataShards = 0 then .error (.invalidConfiguration "data_shards must be > 0")
  else if total < dataShards then
    .error (.invalidConfiguration s!"data_shards {dataShards} exceeds total chunks {total}")
  else if total - dataShards = 0 then
    .error (.invalidConfiguration "at least one parity shard is required")
  else .ok (dataShards, total - dataShards)

section Code

variable (p : Primitives)

/-- Codecs are kept by their shape, so a codec that is found is the one that would be made. -/
def decodeWithShape (chunks : Shards) (originalLen dataShards parityShards : Nat) :
    Except FecError (List UInt8) := do
  let decoder ← FecDecoder.new p dataShards parityShards
  decoder.decode chunks originalLen

def decodeDataWithShards (chunks : Shards) (originalLen dataShards : Nat) :
    Except FecError (List UInt8) := do
  let (dataShards, parityShards) ← splitShape dataShards chunks.length
  decodeWithShape p chunks originalLen dataShards parityShards

def chunksToRawBlockSegmentWithShards (chunks : Shards) (originalLen dataShards : Nat) :
    Except FecError RawBlockSegment := do
  let data ← decodeDataWithShards p chunks originalLen dataShards
  let frame ← (readLenPrefixed data).mapError fun e =>
    FecError.decodingFailed s!"segment frame failed: {e}"
  (RawBlockSegment.decode p.hashes frame).mapError fun e =>
    FecError.decodingFailed s!"segment decode failed: {e.asStr}"

end Code

end MiningInfra.Relay
