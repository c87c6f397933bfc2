import MiningInfra.Lib.Erasure
import MiningInfra.Relay.Datagram
import MiningInfra.Relay.Node
import MiningInfra.Relay.Serialize

/-!
# Objects to datagrams

The sending side of the chunker. The bytes of an object are cut into data shards of one size, the
last of them padded, and Reed-Solomon adds the parity shards. The fixed profile has the shape of
the configuration; the adaptive profile and the heavier one of skeletons take as many shards as
the length needs, and fall back to the fixed profile when those are too many. The client then
authenticates the chunks of version 2 or 3.
-/

namespace MiningInfra.Relay

open Lib Coinbase

/-! ## Shards -/

/-- `ReedSolomon::encode` for a number of data and of parity shards. It is given all shards, the
parity shards as zeros. -/
abbrev RsEncode := Nat → Nat → List (List UInt8) → Except String (List (List UInt8))

structure FecEncoder where
  rs : List (List UInt8) → Except String (List (List UInt8))
  dataShards : Nat
  parityShards : Nat

namespace FecEncoder

def new (p : Primitives) (rs : RsEncode) (dataShards parityShards : Nat) :
    Except FecError FecEncoder :=
  if dataShards = 0 then .error (.invalidConfiguration "data_shards must be > 0")
  else if parityShards = 0 then .error (.invalidConfiguration "parity_shards must be > 0")
  else match p.reedSolomon dataShards parityShards with
    | .error error => .error (.invalidConfiguration error)
    | .ok _ => .ok ⟨rs dataShards parityShards, dataShards, parityShards⟩

/-- `data.len().div_ceil(data_shards)`. -/
def shardSize (dataLen dataShards : Nat) : Nat := (dataLen + dataShards - 1) / dataShards

/-- Data shard `i`, padded with zeros. -/
def dataShard (data : List UInt8) (size i : Nat) : List UInt8 :=
  let start := i * size
  let stop := min (start + size) data.length
  if start < data.length then
    slice data start (stop - start) ++ List.replicate (size - (stop - start)) 0
  else List.replicate size 0

def encode (e : FecEncoder) (data : List UInt8) : Except FecError (List (List UInt8)) :=
  if data = [] then .error (.invalidConfiguration "data cannot be empty")
  else
    let size := shardSize data.length e.dataShards
    let shards := (List.range e.dataShards).map (dataShard data size)
      ++ List.replicate e.parityShards (List.replicate size 0)
    (e.rs shards).mapError FecError.encodingFailed

end FecEncoder

/-- `ADAPTIVE_PARITY_DIVISOR`. -/
def adaptiveParityDivisor : Nat := 8

/-- `SKELETON_PARITY_DIVISOR`. -/
def skeletonParityDivisor : Nat := 4

/-- `SKELETON_MIN_PARITY_SHARDS`. -/
def skeletonMinParityShards : Nat := 2

/-- As many data shards as the length needs, and a parity shard for every `divisor` of them, but
at least `floor`; none if the shards are too many. -/
def shardsFor (divisor floor dataLen maxPayload : Nat) : Option (Nat × Nat) :=
  if dataLen = 0 ∨ maxPayload = 0 then none
  else
    let dataShards := max ((dataLen + maxPayload - 1) / maxPayload) 1
    let parityShards := max ((dataShards + divisor - 1) / divisor) floor
    if maxTotalChunks.toNat < dataShards + parityShards then none
    else some (dataShards, parityShards)

def adaptiveShards : (dataLen maxPayload : Nat) → Option (Nat × Nat) :=
  shardsFor adaptiveParityDivisor 1

def adaptiveShardsSkeleton : (dataLen maxPayload : Nat) → Option (Nat × Nat) :=
  shardsFor skeletonParityDivisor skeletonMinParityShards

/-! ## Chunks -/

namespace ChunkHeader

/-- Version 2 with a placeholder for the HMAC. -/
def new (msgType : MessageType) (blockHash : Bytes32) (chunkId totalChunks payloadLen : UInt16) :
    ChunkHeader :=
  ⟨chunkMagic, 2, msgType, blockHash, chunkId, totalChunks, payloadLen, 0, fun _ => 0⟩

def newBlock := new .block

def newRawBlockSegment := new .rawBlockSegment

def newCompactSkeleton := new .compactSkeleton

/-- Version 3 with a placeholder for the HMAC. -/
def newUnauthenticatedV3 (msgType : MessageType) (blockHash : Bytes32)
    (chunkId totalChunks payloadLen dataShards : UInt16) : ChunkHeader :=
  newV3 msgType blockHash chunkId totalChunks payloadLen dataShards fun _ => 0

def newBlockV3 := newUnauthenticatedV3 .block

def newRawBlockSegmentV3 := newUnauthenticatedV3 .rawBlockSegment

def newCompactSkeletonV3 := newUnauthenticatedV3 .compactSkeleton

end ChunkHeader

/-- The header of a shard in version 2. -/
def dataHeader (msgType : MessageType) (objectHash : Bytes32)
    (chunkId totalChunks payloadLen : UInt16) : Except FecError ChunkHeader :=
  match msgType with
  | .block => .ok (.newBlock objectHash chunkId totalChunks payloadLen)
  | .rawBlockSegment => .ok (.newRawBlockSegment objectHash chunkId totalChunks payloadLen)
  | .compactSkeleton => .ok (.newCompactSkeleton objectHash chunkId totalChunks payloadLen)
  | .keepalive | .auth => .error (.encodingFailed "unsupported chunk data message type")

/-- The header of a shard in version 3. -/
def dataHeaderV3 (dataShards : UInt16) (msgType : MessageType) (objectHash : Bytes32)
    (chunkId totalChunks payloadLen : UInt16) : Except FecError ChunkHeader :=
  match msgType with
  | .block => .ok (.newBlockV3 objectHash chunkId totalChunks payloadLen dataShards)
  | .rawBlockSegment =>
    .ok (.newRawBlockSegmentV3 objectHash chunkId totalChunks payloadLen dataShards)
  | .compactSkeleton =>
    .ok (.newCompactSkeletonV3 objectHash chunkId totalChunks payloadLen dataShards)
  | .keepalive | .auth => .error (.encodingFailed "unsupported chunk data message type")

/-- A chunk for every shard, none of which may be larger than `maxPayload`. -/
def shardsToChunks (maxPayload : Nat) (tooLarge : String)
    (header : (chunkId totalChunks payloadLen : UInt16) → Except FecError ChunkHeader)
    (shards : List (List UInt8)) : Except FecError (List Chunk) :=
  shards.zipIdx.mapM fun shard => do
    if maxPayload < shard.1.length then
      throw (.encodingFailed s!"{tooLarge}: {shard.1.length} > {maxPayload}")
    let header ← header (UInt16.ofNat shard.2) (UInt16.ofNat shards.length)
      (UInt16.ofNat shard.1.length)
    return ⟨header, shard.1⟩

/-- The decoder is made anew from its shape. -/
structure BlockChunker where
  encoder : FecEncoder
  maxPayload : Nat

namespace BlockChunker

variable (p : Primitives) (rs : RsEncode)

def newWithMaxPayload (dataShards parityShards maxPayload : Nat) :
    Except FecError BlockChunker := do
  let encoder ← FecEncoder.new p rs dataShards parityShards
  let _ ← FecDecoder.new p dataShards parityShards
  return ⟨encoder, min maxPayload maxPayloadSize⟩

def new (dataShards parityShards : Nat) : Except FecError BlockChunker :=
  newWithMaxPayload p rs dataShards parityShards maxPayloadSize

def dataToChunks (c : BlockChunker) (msgType : MessageType) (objectHash : Bytes32)
    (data : List UInt8) : Except FecError (List Chunk) := do
  let shards ← c.encoder.encode data
  if maxTotalChunks.toNat < shards.length then
    throw (.encodingFailed "too many shards for protocol limit")
  shardsToChunks c.maxPayload "shard too large for payload" (dataHeader msgType objectHash) shards

/-- A codec that is kept is the one that would be made. -/
def encodeWithShape (c : BlockChunker) (data : List UInt8) (dataShards parityShards : Nat) :
    Except FecError (List (List UInt8)) :=
  if dataShards = c.encoder.dataShards ∧ parityShards = c.encoder.parityShards then
    c.encoder.encode data
  else do
    let encoder ← FecEncoder.new p rs dataShards parityShards
    let _ ← FecDecoder.new p dataShards parityShards
    encoder.encode data

def dataToChunksAdaptiveInner (c : BlockChunker) (msgType : MessageType) (objectHash : Bytes32)
    (data : List UInt8) (shards : Option (Nat × Nat)) : Except FecError (List Chunk) :=
  match shards with
  | none => c.dataToChunks msgType objectHash data
  | some (dataShards, parityShards) => do
    let shards ← c.encodeWithShape p rs data dataShards parityShards
    shardsToChunks maxPayloadSizeV3 "v3 shard too large for payload"
      (dataHeaderV3 (UInt16.ofNat dataShards) msgType objectHash) shards

def dataToChunksAdaptive (c : BlockChunker) (msgType : MessageType) (objectHash : Bytes32)
    (data : List UInt8) : Except FecError (List Chunk) :=
  c.dataToChunksAdaptiveInner p rs msgType objectHash data
    (adaptiveShards data.length maxPayloadSizeV3)

def dataToChunksAdaptiveSkeleton (c : BlockChunker) (objectHash : Bytes32) (data : List UInt8) :
    Except FecError (List Chunk) :=
  c.dataToChunksAdaptiveInner p rs .compactSkeleton objectHash data
    (adaptiveShardsSkeleton data.length maxPayloadSizeV3)

def compactBlockToChunks (c : BlockChunker) (compact : CompactBlock) (blockHash : Bytes32) :
    Except FecError (List Chunk) :=
  c.dataToChunks .block blockHash (serializeCompactBlock compact)

def compactBlockToChunksAdaptive (c : BlockChunker) (compact : CompactBlock)
    (blockHash : Bytes32) : Except FecError (List Chunk) :=
  c.dataToChunksAdaptive p rs .block (compactV3ObjectHash p.hashes blockHash)
    (serializeCompactBlock compact)

def compactBlockToChunksSkeleton (c : BlockChunker) (compact : CompactBlock)
    (objectHash : Bytes32) : Except FecError (List Chunk) :=
  c.dataToChunksAdaptiveSkeleton p rs objectHash (serializeCompactBlock compact)

def rawBlockSegmentToChunksAdaptive (c : BlockChunker) (segment : RawBlockSegment) :
    Except FecError (List Chunk) :=
  c.dataToChunksAdaptive p rs .rawBlockSegment
    (segmentObjectHash p.hashes segment.blockHash segment.segmentIndex)
    (wrapLenPrefixed segment.encode)

def rawBlockSegmentToChunks (c : BlockChunker) (segment : RawBlockSegment) :
    Except FecError (List Chunk) :=
  c.dataToChunks .rawBlockSegment
    (segmentObjectHash p.hashes segment.blockHash segment.segmentIndex)
    (wrapLenPrefixed segment.encode)

end BlockChunker

/-! ## Datagrams -/

/-- The header of an authenticated chunk in version 2. -/
def outgoingHeader (msgType : MessageType) (objectHash : Bytes32)
    (chunkId totalChunks payloadLen : UInt16) (hmac : Bytes32) :
    Except TransportError ChunkHeader :=
  match msgType with
  | .block => .ok (.newBlockAuthenticated objectHash chunkId totalChunks payloadLen hmac)
  | .rawBlockSegment =>
    .ok (.newRawBlockSegmentAuthenticated objectHash chunkId totalChunks payloadLen hmac)
  | .compactSkeleton =>
    .ok (.newCompactSkeletonAuthenticated objectHash chunkId totalChunks payloadLen hmac)
  | .keepalive | .auth => .error (.invalidChunk "unsupported outgoing chunk message type")

/-- The header of an authenticated chunk in version 3. -/
def outgoingHeaderV3 (msgType : MessageType) (objectHash : Bytes32)
    (chunkId totalChunks payloadLen dataShards : UInt16) (hmac : Bytes32) :
    Except TransportError ChunkHeader :=
  match msgType with
  | .block =>
    .ok (.newBlockAuthenticatedV3 objectHash chunkId totalChunks payloadLen dataShards hmac)
  | .rawBlockSegment =>
    .ok (.newRawBlockSegmentAuthenticatedV3 objectHash chunkId totalChunks payloadLen dataShards
      hmac)
  | .compactSkeleton =>
    .ok (.newCompactSkeletonAuthenticatedV3 objectHash chunkId totalChunks payloadLen dataShards
      hmac)
  | .keepalive | .auth => .error (.invalidChunk "unsupported outgoing chunk message type")

/-- A chunk under the key of the client. -/
def authenticateChunk (p : Primitives) (authKey : Bytes32) (chunk : Chunk) :
    Except TransportError Chunk := do
  let h := chunk.header
  let header ←
    if 0 < h.dataShards then
      outgoingHeaderV3 h.msgType h.blockHash h.chunkId h.totalChunks h.payloadLen h.dataShards
        (computeHmacV3 p authKey h.blockHash h.chunkId h.totalChunks h.payloadLen h.dataShards
          chunk.payload)
    else
      outgoingHeader h.msgType h.blockHash h.chunkId h.totalChunks h.payloadLen
        (computeHmac p authKey h.blockHash h.chunkId h.totalChunks h.payloadLen chunk.payload)
  return ⟨header, chunk.payload⟩

/-- `send_chunks_internal`: what goes to every relay. -/
def sendChunks (p : Primitives) (authKey : Bytes32) (chunks : List Chunk) :
    Except TransportError (List (List UInt8)) :=
  chunks.mapM fun chunk => Chunk.toBytes <$> authenticateChunk p authKey chunk

/-! ## What is assumed of Reed-Solomon -/

/-- The code of this shape can be made, keeps the data shards and restores all shards from as many
of them as there are data shards. Shards may not be empty. -/
def ReedSolomonCodes (p : Primitives) (rs : RsEncode) (dataShards parityShards : Nat) : Prop :=
  ∃ reconstruct, p.reedSolomon dataShards parityShards = .ok reconstruct ∧
    ∀ (size : Nat) (data : List (List UInt8)), 0 < size → data.length = dataShards →
      (∀ shard ∈ data, shard.length = size) →
      ∃ parity, parity.length = parityShards ∧ (∀ shard ∈ parity, shard.length = size) ∧
        rs dataShards parityShards
            (data ++ List.replicate parityShards (List.replicate size 0)) = .ok (data ++ parity) ∧
        Restores reconstruct dataShards (data ++ parity)

/-! ## The shards of some bytes -/

namespace FecEncoder

theorem length_dataShard (data : List UInt8) (size i : Nat) :
    (dataShard data size i).length = size := by
  rw [dataShard]
  split
  · rw [slice_min, List.length_append, List.length_take, List.length_drop, List.length_replicate]
    omega
  · exact List.length_replicate

variable {data : List UInt8}

/-- The shards are cut from the padded bytes. -/
theorem dataShard_eq {size count i : Nat} (hi : i < count) : dataShard data size i =
      ((data ++ List.replicate (count * size - data.length) 0).drop (i * size)).take size := by
  have hend : i * size + size ≤ count * size := by
    have := Nat.mul_le_mul_right size (Nat.succ_le_of_lt hi)
    rwa [Nat.succ_mul] at this
  rw [dataShard]
  split
  · rename_i hstart
    rw [slice_min, List.drop_append_of_le_length (Nat.le_of_lt hstart), List.take_append,
      List.length_drop, List.take_replicate]
    congr 2
    omega
  · rename_i hstart
    rw [List.drop_append, List.drop_eq_nil_of_le (Nat.le_of_not_lt hstart), List.nil_append,
      List.drop_replicate, List.take_replicate]
    congr 1
    omega

theorem flatten_dataShards {size count : Nat} (h : data.length ≤ count * size) :
    ((List.range count).map (dataShard data size)).flatten =
      data ++ List.replicate (count * size - data.length) 0 := by
  have hmap : (List.range count).map (dataShard data size) = (List.range count).map fun i =>
      ((data ++ List.replicate (count * size - data.length) 0).drop (i * size)).take size :=
    List.map_congr_left fun i hi => dataShard_eq (List.mem_range.mp hi)
  rw [hmap, ← List.flatMap_def, flatMap_range_take_drop, List.take_of_length_le]
  rw [List.length_append, List.length_replicate]
  omega

theorem le_mul_shardSize (dataLen : Nat) {dataShards : Nat} (h : 0 < dataShards) :
    dataLen ≤ dataShards * shardSize dataLen dataShards := by
  have hdiv := Nat.div_add_mod (dataLen + dataShards - 1) dataShards
  have hmod := Nat.mod_lt (dataLen + dataShards - 1) h
  rw [shardSize]
  omega

theorem shardSize_pos {dataLen dataShards : Nat} (hlen : 0 < dataLen) (h : 0 < dataShards) :
    0 < shardSize dataLen dataShards := by
  have := le_mul_shardSize dataLen h
  refine Nat.pos_of_ne_zero fun hzero => ?_
  rw [hzero] at this
  omega

theorem shardSize_le {dataLen dataShards bound : Nat} (h : 0 < dataShards)
    (hle : dataLen ≤ dataShards * bound) : shardSize dataLen dataShards ≤ bound := by
  rw [shardSize, ← Nat.lt_succ_iff, Nat.div_lt_iff_lt_mul h, Nat.succ_mul, Nat.mul_comm bound]
  omega

end FecEncoder

/-- The shards of some bytes: all of one size, the first of them the data, and any `dataShards` of
them enough. -/
structure Codeword (p : Primitives) (dataShards parityShards : Nat) (data : List UInt8)
    (codeword : List (List UInt8)) : Prop where
  length : codeword.length = dataShards + parityShards
  uniform : ∀ shard ∈ codeword, shard.length = FecEncoder.shardSize data.length dataShards
  systematic : codeword.take dataShards = (List.range dataShards).map
    (FecEncoder.dataShard data (FecEncoder.shardSize data.length dataShards))
  restores : ∃ reconstruct, p.reedSolomon dataShards parityShards = .ok reconstruct ∧
    Restores reconstruct dataShards codeword

section Codeword

variable {p : Primitives} {rs : RsEncode} {dataShards parityShards : Nat} {data : List UInt8}

theorem FecEncoder.encode_ok (hcodes : ReedSolomonCodes p rs dataShards parityShards)
    (hd : 0 < dataShards) (hne : data ≠ []) :
    ∃ codeword, Codeword p dataShards parityShards data codeword ∧
      (FecEncoder.mk (rs dataShards parityShards) dataShards parityShards).encode data
        = .ok codeword := by
  obtain ⟨reconstruct, hnew, hcode⟩ := hcodes
  have hlen : ((List.range dataShards).map (FecEncoder.dataShard data
      (FecEncoder.shardSize data.length dataShards))).length = dataShards := by
    rw [List.length_map, List.length_range]
  have huniform : ∀ shard ∈ (List.range dataShards).map (FecEncoder.dataShard data
      (FecEncoder.shardSize data.length dataShards)),
      shard.length = FecEncoder.shardSize data.length dataShards := by
    intro shard hshard
    obtain ⟨i, -, rfl⟩ := List.mem_map.mp hshard
    exact FecEncoder.length_dataShard data _ i
  have hpos := FecEncoder.shardSize_pos (List.length_pos_of_ne_nil hne) hd
  obtain ⟨parity, hparity, hsize, hencode, hrestores⟩ := hcode _ _ hpos hlen huniform
  refine ⟨_, ⟨?_, ?_, ?_, reconstruct, hnew, hrestores⟩, ?_⟩
  · rw [List.length_append, hlen, hparity]
  · intro shard hshard
    rcases List.mem_append.mp hshard with h | h
    · exact huniform shard h
    · exact hsize shard h
  · nth_rewrite 1 [← hlen]
    exact List.take_left
  · rw [FecEncoder.encode, if_neg hne]
    dsimp only
    rw [hencode]
    rfl

theorem FecDecoder.concatShards_map_some (shards : List (List UInt8)) :
    FecDecoder.concatShards (shards.map some) = .ok shards.flatten := by
  induction shards with
  | nil => rfl
  | cons shard shards ih =>
    rw [List.map_cons, FecDecoder.concatShards, ih, List.flatten_cons]
    rfl

/-- **Enough shards give the bytes back**, with the padding, when the length is estimated from the
size of a shard. -/
theorem Codeword.decode {codeword : List (List UInt8)}
    (h : Codeword p dataShards parityShards data codeword) (hd : 0 < dataShards)
    (hn : 0 < parityShards) {received : Shards} (hsurvives : Survives codeword received)
    (henough : dataShards ≤ (received.filter Option.isSome).length) :
    decodeDataWithShards p received
        (FecEncoder.shardSize data.length dataShards * dataShards) dataShards =
      .ok (data ++ List.replicate
        (dataShards * FecEncoder.shardSize data.length dataShards - data.length) 0) := by
  obtain ⟨reconstruct, hnew, hrestores⟩ := h.restores
  have hlen : received.length = dataShards + parityShards := hsurvives.1.trans h.length
  have hshape : splitShape dataShards received.length = .ok (dataShards, parityShards) := by
    rw [splitShape, hlen, if_neg (by omega), if_neg (by omega), Nat.add_sub_cancel_left,
      if_neg (by omega)]
  have hdecoder : FecDecoder.new p dataShards parityShards
      = .ok ⟨reconstruct, dataShards, parityShards⟩ := by
    rw [FecDecoder.new, if_neg (by omega), if_neg (by omega), hnew]
  have hbytes := FecEncoder.flatten_dataShards (FecEncoder.le_mul_shardSize data.length hd)
  have hconcat : FecDecoder.concatShards ((codeword.map some).take dataShards) =
      .ok (data ++ List.replicate
        (dataShards * FecEncoder.shardSize data.length dataShards - data.length) 0) := by
    rw [← List.map_take, FecDecoder.concatShards_map_some, h.systematic, hbytes]
  have hle := FecEncoder.le_mul_shardSize data.length hd
  have hdecode : (FecDecoder.mk reconstruct dataShards parityShards).decode received
      (FecEncoder.shardSize data.length dataShards * dataShards) =
      .ok (data ++ List.replicate
        (dataShards * FecEncoder.shardSize data.length dataShards - data.length) 0) := by
    simp only [FecDecoder.decode, hlen, ne_eq, not_true_eq_false, if_false,
      Nat.not_lt.mpr henough, hrestores received hsurvives henough, Except.mapError, bind,
      Except.bind, hconcat]
    rw [List.take_of_length_le]
    · rfl
    · rw [List.length_append, List.length_replicate, Nat.mul_comm _ dataShards]
      omega
  exact Results.bind_eq_ok.mpr ⟨(dataShards, parityShards), hshape,
    Results.bind_eq_ok.mpr ⟨_, hdecoder, hdecode⟩⟩

end Codeword

end MiningInfra.Relay
