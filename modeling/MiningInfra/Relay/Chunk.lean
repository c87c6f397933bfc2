import MiningInfra.Relay.Segment

/-!
# Chunks

The datagrams of the relay. A header names the object a chunk belongs to, its place in it and,
in version 3, the number of data shards of the object; both versions carry an HMAC.
-/

namespace MiningInfra.Relay

open Coinbase

/-- `CHUNK_MAGIC`, "ZCHR". -/
def chunkMagic : UInt32 := 0x5a434852

/-- `HEADER_SIZE_V1`: what the versions have in common. -/
def headerSizeV1 : Nat := 44

def headerSizeV2 : Nat := 76

def headerSizeV3 : Nat := 78

def maxAuthenticatedDatagramSize : Nat := 1200

def maxPayloadSize : Nat := maxAuthenticatedDatagramSize - headerSizeV2

def maxPayloadSizeV3 : Nat := maxAuthenticatedDatagramSize - headerSizeV3

def maxTotalChunks : UInt16 := 256

def headerSizeForVersion (version : UInt8) : Nat :=
  if version = 2 then headerSizeV2 else if version = 3 then headerSizeV3 else headerSizeV1

inductive MessageType where
  | block
  | keepalive
  | auth
  | rawBlockSegment
  | compactSkeleton
  deriving DecidableEq, Repr

namespace MessageType

def toByte : MessageType → UInt8
  | block => 0
  | keepalive => 1
  | auth => 2
  | rawBlockSegment => 3
  | compactSkeleton => 4

def tryFrom (value : UInt8) : Except String MessageType :=
  if value = 0 then .ok block
  else if value = 1 then .ok keepalive
  else if value = 2 then .ok auth
  else if value = 3 then .ok rawBlockSegment
  else if value = 4 then .ok compactSkeleton
  else .error s!"invalid message type: {value}"

/-- The messages that carry a part of an object. -/
def isData : MessageType → Bool
  | block | rawBlockSegment | compactSkeleton => true
  | keepalive | auth => false

end MessageType

/-- Big-endian bytes. -/
def u16BeBytes (n : UInt16) : List UInt8 := (leBytes 2 n.toNat).reverse

/-- The big-endian `u16` at this place. -/
def u16At (buf : List UInt8) (start : Nat) : UInt16 := UInt16.ofNat (beNat (slice buf start 2))

/-- `{:08x}`. -/
def hex8 (n : UInt32) : String := String.ofList ((Nat.toDigits 16 n.toNat).leftpad 8 '0')

structure ChunkHeader where
  magic : UInt32
  version : UInt8
  msgType : MessageType
  blockHash : Bytes32
  chunkId : UInt16
  totalChunks : UInt16
  payloadLen : UInt16
  /-- Zero in version 2. -/
  dataShards : UInt16
  hmac : Bytes32
  deriving DecidableEq

namespace ChunkHeader

def newAuthenticated (msgType : MessageType) (blockHash : Bytes32)
    (chunkId totalChunks payloadLen : UInt16) (hmac : Bytes32) : ChunkHeader :=
  ⟨chunkMagic, 2, msgType, blockHash, chunkId, totalChunks, payloadLen, 0, hmac⟩

def newBlockAuthenticated := newAuthenticated .block

def newRawBlockSegmentAuthenticated := newAuthenticated .rawBlockSegment

def newCompactSkeletonAuthenticated := newAuthenticated .compactSkeleton

def newV3 (msgType : MessageType) (blockHash : Bytes32)
    (chunkId totalChunks payloadLen dataShards : UInt16) (hmac : Bytes32) : ChunkHeader :=
  ⟨chunkMagic, 3, msgType, blockHash, chunkId, totalChunks, payloadLen, dataShards, hmac⟩

def newBlockAuthenticatedV3 := newV3 .block

def newRawBlockSegmentAuthenticatedV3 := newV3 .rawBlockSegment

def newCompactSkeletonAuthenticatedV3 := newV3 .compactSkeleton

/-- A buffer of `HEADER_SIZE_V3` bytes, whatever the version. -/
def toBytes (h : ChunkHeader) : List UInt8 :=
  (leBytes 4 h.magic.toNat).reverse ++ [h.version, h.msgType.toByte] ++ h.blockHash.toList
    ++ u16BeBytes h.chunkId ++ u16BeBytes h.totalChunks ++ u16BeBytes h.payloadLen
    ++ if h.version = 3 then u16BeBytes h.dataShards ++ h.hmac.toList else h.hmac.toList ++ [0, 0]

def fromBytes (buf : List UInt8) : Except String ChunkHeader := do
  if buf.length < headerSizeV1 then throw "buffer too small for chunk header"
  let magic := UInt32.ofNat (beNat (slice buf 0 4))
  if magic ≠ chunkMagic then
    throw s!"invalid magic: expected {hex8 chunkMagic}, got {hex8 magic}"
  let version := buf.getD 4 0
  -- the version without an HMAC is refused here
  if version ≠ 2 ∧ version ≠ 3 then throw s!"unsupported protocol version: {version}"
  if version = 2 ∧ buf.length < headerSizeV2 then
    throw "buffer too small for version 2 chunk header"
  if version = 3 ∧ buf.length < headerSizeV3 then
    throw "buffer too small for version 3 chunk header"
  let msgType ← MessageType.tryFrom (buf.getD 5 0)
  let blockHash := toBytes32 (slice buf 6 32)
  let chunkId := u16At buf 38
  let totalChunks := u16At buf 40
  if maxTotalChunks < totalChunks then
    throw s!"total_chunks {totalChunks} exceeds max {maxTotalChunks}"
  let payloadLen := u16At buf 42
  let maxPayload := if version = 3 then maxPayloadSizeV3 else maxPayloadSize
  if maxPayload < payloadLen.toNat then
    throw s!"payload_len {payloadLen} exceeds max {maxPayload}"
  if msgType.isData ∧ payloadLen = 0 then throw "payload_len must be > 0 for data messages"
  if version = 3 then
    let dataShards := u16At buf 44
    if dataShards = 0 ∨ totalChunks ≤ dataShards then
      throw s!"invalid v3 data_shards {dataShards} for total_chunks {totalChunks}"
    return ⟨magic, version, msgType, blockHash, chunkId, totalChunks, payloadLen, dataShards,
      toBytes32 (slice buf 46 32)⟩
  else
    return ⟨magic, version, msgType, blockHash, chunkId, totalChunks, payloadLen, 0,
      toBytes32 (slice buf 44 32)⟩

end ChunkHeader

structure Chunk where
  header : ChunkHeader
  payload : List UInt8
  deriving DecidableEq

namespace Chunk

def toBytes (c : Chunk) : List UInt8 :=
  c.header.toBytes.take (headerSizeForVersion c.header.version) ++ c.payload

def fromBytes (buf : List UInt8) : Except String Chunk := do
  if buf.length < headerSizeV1 then throw "buffer too small for chunk header"
  let version := buf.getD 4 0
  let headerSize := headerSizeForVersion version
  if buf.length < headerSize then throw s!"buffer too small for version {version} header"
  let header ← ChunkHeader.fromBytes buf
  if buf.length < headerSize + header.payloadLen.toNat then throw "buffer too small for payload"
  if buf.length ≠ headerSize + header.payloadLen.toNat then
    throw "buffer has trailing bytes beyond payload"
  return ⟨header, slice buf headerSize header.payloadLen.toNat⟩

end Chunk

end MiningInfra.Relay
