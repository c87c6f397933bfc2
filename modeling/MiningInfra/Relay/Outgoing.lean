import MiningInfra.Relay.Collect

/-!
# What a client sends

A compact block, a segment of a raw block or a skeleton, each with one of the profiles, goes the
same way: its bytes behind their length become a codeword, and the shards of the codeword become
authenticated chunks. So whatever is sent is an object in the receiver's sense
(`Outgoing.exists_object`).
-/

namespace MiningInfra.Relay

open Lib Coinbase

/-- What a client sends, with the profile it is sent with. -/
inductive Outgoing where
  | compactBlock (adaptive : Bool) (block : CompactBlock)
  | rawBlockSegment (adaptive : Bool) (segment : RawBlockSegment)
  | compactSkeleton (block : CompactBlock)

namespace Outgoing

def payload : Outgoing → RelayPayload
  | compactBlock _ block => .compactBlock block
  | rawBlockSegment _ segment => .rawBlockSegment segment
  | compactSkeleton block => .compactSkeleton block

/-- The chunks, before they are authenticated. -/
def chunks (p : Primitives) (rs : RsEncode) (c : BlockChunker) :
    Outgoing → Except FecError (List Chunk)
  | compactBlock false block => c.compactBlockToChunks block (zcashBlockHash p.hashes block.header)
  | compactBlock true block =>
    c.compactBlockToChunksAdaptive p rs block (zcashBlockHash p.hashes block.header)
  | rawBlockSegment false segment => c.rawBlockSegmentToChunks p segment
  | rawBlockSegment true segment => c.rawBlockSegmentToChunksAdaptive p rs segment
  | compactSkeleton block =>
    c.compactBlockToChunksSkeleton p rs block
      (skeletonObjectHash p.hashes (zcashBlockHash p.hashes block.header))

/-- The decoder accepts the object. -/
def WithinLimits (hashes : Hashes) : Outgoing → Prop
  | compactBlock _ block | compactSkeleton block => block.WithinLimits
  | rawBlockSegment _ segment => segment.Accepted hashes

/-! ## One way to send -/

def msgType : Outgoing → MessageType
  | compactBlock _ _ => .block
  | rawBlockSegment _ _ => .rawBlockSegment
  | compactSkeleton _ => .compactSkeleton

def objectHash (hashes : Hashes) : Outgoing → Bytes32
  | compactBlock false block => zcashBlockHash hashes block.header
  | compactBlock true block => compactV3ObjectHash hashes (zcashBlockHash hashes block.header)
  | rawBlockSegment _ segment => segmentObjectHash hashes segment.blockHash segment.segmentIndex
  | compactSkeleton block => skeletonObjectHash hashes (zcashBlockHash hashes block.header)

/-- What is behind the length. -/
def content : Outgoing → List UInt8
  | compactBlock _ block | compactSkeleton block => block.content
  | rawBlockSegment _ segment => segment.encode

def data (out : Outgoing) : List UInt8 := wrapLenPrefixed out.content

/-- The shape of the profile, if it is not the fixed one. -/
def adaptiveShape (out : Outgoing) : Option (Nat × Nat) :=
  match out with
  | compactBlock false _ | rawBlockSegment false _ => none
  | compactBlock true _ | rawBlockSegment true _ => adaptiveShards out.data.length maxPayloadSizeV3
  | compactSkeleton _ => adaptiveShardsSkeleton out.data.length maxPayloadSizeV3

/-- The data and parity shards it is sent with. -/
def shape (config : ClientConfig) (out : Outgoing) : Nat × Nat :=
  out.adaptiveShape.getD (config.dataShards, config.parityShards)

variable {p : Primitives} {rs : RsEncode} {out : Outgoing}

theorem isData_msgType (out : Outgoing) : out.msgType.isData = true := by
  cases out <;> rfl

theorem chunks_eq (c : BlockChunker) (out : Outgoing) :
    out.chunks p rs c = c.dataToChunksAdaptiveInner p rs out.msgType (out.objectHash p.hashes)
      out.data out.adaptiveShape := by
  match out with
  | compactBlock false _ | compactBlock true _ | rawBlockSegment false _
  | rawBlockSegment true _ | compactSkeleton _ => rfl

theorem data_ne_nil (out : Outgoing) : out.data ≠ [] := by
  intro h
  have hlen := congrArg List.length h
  rw [data, wrapLenPrefixed, List.length_append, length_leBytes, List.length_nil] at hlen
  omega

/-- The object is read back from its bytes, whatever padding follows. -/
theorem decodePayload_eq (hlimits : out.WithinLimits p.hashes)
    (hlen : out.content.length < 2 ^ 32) {received : Shards} {originalLen dataShards : Nat}
    {padding : List UInt8}
    (hdata : decodeDataWithShards p received originalLen dataShards = .ok (out.data ++ padding)) :
    decodePayload p out.msgType received originalLen dataShards = some out.payload := by
  have hcompact : ∀ block : CompactBlock, block.WithinLimits → out.content = block.content →
      chunksToCompactBlockWithShards p received originalLen dataShards = .ok block := by
    intro block hblock hcontent
    have hback : deserializeCompactBlock (out.data ++ padding) = .ok block := by
      rw [data, hcontent]
      exact deserializeCompactBlock_serialize hblock (hcontent ▸ hlen) padding
    simp only [chunksToCompactBlockWithShards, hdata, bind, Except.bind, hback, Except.mapError]
  cases out with
  | compactBlock adaptive block | compactSkeleton block =>
    rw [msgType, decodePayload, hcompact block hlimits rfl]
    rfl
  | rawBlockSegment adaptive segment =>
    have hframe : readLenPrefixed ((rawBlockSegment adaptive segment).data ++ padding)
        = .ok segment.encode := readLenPrefixed_wrapLenPrefixed hlen padding
    have hshort : segment.payload.length < 2 ^ 32 := by
      have hlen' : segment.encode.length < 2 ^ 32 := hlen
      rw [RawBlockSegment.length_encode] at hlen'
      omega
    have hback := RawBlockSegment.decode_encode hshort hlimits.1 hlimits.2
    have hsegment : chunksToRawBlockSegmentWithShards p received originalLen dataShards
        = .ok segment := by
      simp only [chunksToRawBlockSegmentWithShards, hdata, bind, Except.bind, hframe, hback,
        Except.mapError]
    rw [msgType, decodePayload, hsegment]
    rfl

end Outgoing

/-! ## Chunks of a codeword -/

section Chunks

variable (msgType : MessageType) (objectHash : Bytes32) (total dataShards : UInt16)

/-- A shard with its number as a chunk that is not authenticated; version 3 if there are data
shards. -/
def bareChunk (shard : List UInt8 × Nat) : Chunk :=
  let chunkId := UInt16.ofNat shard.2
  let payloadLen := UInt16.ofNat shard.1.length
  { header :=
      if 0 < dataShards then
        .newUnauthenticatedV3 msgType objectHash chunkId total payloadLen dataShards
      else .new msgType objectHash chunkId total payloadLen
    payload := shard.1 }

variable {msgType objectHash total dataShards} in
theorem bareChunk_of_pos (h : 0 < dataShards) :
    bareChunk msgType objectHash total dataShards = fun shard =>
      ⟨.newUnauthenticatedV3 msgType objectHash (UInt16.ofNat shard.2) total
        (UInt16.ofNat shard.1.length) dataShards, shard.1⟩ := by
  funext shard
  rw [bareChunk, if_pos h]

/-- The same chunk under a key. -/
def sealedChunk (p : Primitives) (authKey : Bytes32) (shard : List UInt8 × Nat) : Chunk :=
  let chunkId := UInt16.ofNat shard.2
  let payloadLen := UInt16.ofNat shard.1.length
  { header :=
      if 0 < dataShards then
        .newV3 msgType objectHash chunkId total payloadLen dataShards
          (computeHmacV3 p authKey objectHash chunkId total payloadLen dataShards shard.1)
      else
        .newAuthenticated msgType objectHash chunkId total payloadLen
          (computeHmac p authKey objectHash chunkId total payloadLen shard.1)
    payload := shard.1 }

variable {msgType objectHash total dataShards} {p : Primitives} {authKey : Bytes32}

section

variable (h : msgType.isData = true)

include h

section

variable (chunkId totalChunks payloadLen : UInt16)

theorem outgoingHeader_eq (hmac : Bytes32) :
    outgoingHeader msgType objectHash chunkId totalChunks payloadLen hmac =
      .ok (.newAuthenticated msgType objectHash chunkId totalChunks payloadLen hmac) := by
  cases msgType <;> first | rfl | exact absurd h (by decide)

theorem outgoingHeaderV3_eq (dataShards : UInt16) (hmac : Bytes32) :
    outgoingHeaderV3 msgType objectHash chunkId totalChunks payloadLen dataShards hmac =
      .ok (.newV3 msgType objectHash chunkId totalChunks payloadLen dataShards hmac) := by
  cases msgType <;> first | rfl | exact absurd h (by decide)

theorem dataHeader_eq : dataHeader msgType objectHash chunkId totalChunks payloadLen =
      .ok (.new msgType objectHash chunkId totalChunks payloadLen) := by
  cases msgType <;> first | rfl | exact absurd h (by decide)

theorem dataHeaderV3_eq :
    dataHeaderV3 dataShards msgType objectHash chunkId totalChunks payloadLen =
      .ok (.newUnauthenticatedV3 msgType objectHash chunkId totalChunks payloadLen dataShards) := by
  cases msgType <;> first | rfl | exact absurd h (by decide)

end

theorem authenticateChunk_bareChunk (shard : List UInt8 × Nat) :
    authenticateChunk p authKey (bareChunk msgType objectHash total dataShards shard) =
      .ok (sealedChunk msgType objectHash total dataShards p authKey shard) := by
  by_cases hpos : 0 < dataShards
  · have hheader : (bareChunk msgType objectHash total dataShards shard).header =
        .newUnauthenticatedV3 msgType objectHash (UInt16.ofNat shard.2) total
          (UInt16.ofNat shard.1.length) dataShards := if_pos hpos
    simp only [authenticateChunk, hheader, ChunkHeader.newUnauthenticatedV3, ChunkHeader.newV3,
      if_pos hpos, outgoingHeaderV3_eq h, bind, Except.bind, pure, Except.pure, sealedChunk]
    rfl
  · have hheader : (bareChunk msgType objectHash total dataShards shard).header =
        .new msgType objectHash (UInt16.ofNat shard.2) total (UInt16.ofNat shard.1.length) :=
      if_neg hpos
    simp only [authenticateChunk, hheader, ChunkHeader.new, if_neg hpos, outgoingHeader_eq h, bind,
      Except.bind, pure, Except.pure, sealedChunk]
    rfl

end

theorem verify_sealedChunk (shard : List UInt8 × Nat) :
    verifyDataChunkHmac p authKey
      (sealedChunk msgType objectHash total dataShards p authKey shard) = true := by
  by_cases hpos : 0 < dataShards
  · simp [sealedChunk, hpos, verifyDataChunkHmac, ChunkHeader.newV3, verifyHmacV3]
  · simp [sealedChunk, hpos, verifyDataChunkHmac, ChunkHeader.newAuthenticated, verifyHmac]

/-- The fields that do not depend on the version. -/
theorem sealedChunk_header (shard : List UInt8 × Nat) :
    let h := (sealedChunk msgType objectHash total dataShards p authKey shard).header
    h.magic = chunkMagic ∧ h.msgType = msgType ∧ h.blockHash = objectHash ∧
      h.chunkId = UInt16.ofNat shard.2 ∧ h.totalChunks = total ∧
      h.payloadLen = UInt16.ofNat shard.1.length ∧ h.dataShards = dataShards ∧
      h.version = if 0 < dataShards then 3 else 2 := by
  by_cases hpos : 0 < dataShards
  · rw [sealedChunk, if_pos hpos, if_pos hpos]
    exact ⟨rfl, rfl, rfl, rfl, rfl, rfl, rfl, rfl⟩
  · have hzero : dataShards = 0 := by
      rw [UInt16.pos_iff_ne_zero] at hpos
      exact not_not.mp hpos
    rw [sealedChunk, if_neg hpos, if_neg hpos]
    exact ⟨rfl, rfl, rfl, rfl, rfl, rfl, hzero.symm, rfl⟩

theorem sendable_sealedChunk {shard : List UInt8 × Nat} (hmsg : msgType.isData = true)
    (htotal : total ≤ maxTotalChunks) (hshards : 0 < dataShards → dataShards < total)
    (hlen : shard.1.length ≤ if 0 < dataShards then maxPayloadSizeV3 else maxPayloadSize)
    (hne : shard.1 ≠ []) :
    (sealedChunk msgType objectHash total dataShards p authKey shard).Sendable := by
  have hheader := @sealedChunk_header msgType objectHash total dataShards p authKey shard
  obtain ⟨hmagic, htype, -, -, htot, hplen, hds, hversion⟩ := hheader
  have hshort : shard.1.length < 2 ^ 16 := by
    refine Nat.lt_of_le_of_lt hlen ?_
    split <;> decide
  refine ⟨hmagic, ?_, (congrArg MessageType.isData htype).trans hmsg, ?_, ?_, hne⟩
  · by_cases hpos : 0 < dataShards
    · rw [if_pos hpos] at hlen hversion
      rw [hds, htot]
      exact Or.inr ⟨hversion, hlen, hpos, hshards hpos⟩
    · rw [if_neg hpos] at hlen hversion
      rw [hds]
      exact Or.inl ⟨hversion, not_not.mp (UInt16.pos_iff_ne_zero.not.mp hpos), hlen⟩
  · rw [htot]
    exact htotal
  · rw [hplen, UInt16.toNat_ofNat_of_lt' hshort]
    rfl

theorem sendChunks_bareChunk (h : msgType.isData = true) (shards : List (List UInt8 × Nat)) :
    sendChunks p authKey (shards.map (bareChunk msgType objectHash total dataShards)) =
      .ok (shards.map fun shard =>
        (sealedChunk msgType objectHash total dataShards p authKey shard).toBytes) := by
  induction shards with
  | nil => rfl
  | cons shard shards ih =>
    rw [sendChunks] at ih ⊢
    rw [List.map_cons, List.mapM_cons, authenticateChunk_bareChunk h, ih]
    rfl

/-- Every shard is small enough, and each becomes a chunk. -/
theorem shardsToChunks_eq_ok {maxPayload : Nat} {tooLarge : String}
    {header : UInt16 → UInt16 → UInt16 → Except FecError ChunkHeader}
    {g : UInt16 → UInt16 → UInt16 → ChunkHeader}
    (hheader : ∀ chunkId totalChunks payloadLen, header chunkId totalChunks payloadLen =
      .ok (g chunkId totalChunks payloadLen)) {shards : List (List UInt8)} {chunks : List Chunk} :
    shardsToChunks maxPayload tooLarge header shards = .ok chunks ↔
      (∀ shard ∈ shards, shard.length ≤ maxPayload) ∧ chunks = shards.zipIdx.map fun shard =>
        ⟨g (UInt16.ofNat shard.2) (UInt16.ofNat shards.length) (UInt16.ofNat shard.1.length),
          shard.1⟩ := by
  have hall : (∀ shard ∈ shards, shard.length ≤ maxPayload) ↔
      ∀ shard ∈ shards.zipIdx, shard.1.length ≤ maxPayload := by
    conv_lhs => rw [← List.zipIdx_map_fst 0 shards]
    exact List.forall_mem_map
  rw [hall, shardsToChunks]
  refine Results.mapM_eq_ok (fun shard hle => ?_) fun shard chunk hok => ?_
  · simp only [if_neg (Nat.not_lt.mpr hle), hheader, bind, Except.bind, pure, Except.pure]
  · refine Nat.le_of_not_lt fun hlt => ?_
    rw [if_pos hlt] at hok
    cases hok

end Chunks

/-! ## What is sent -/

/-- How many data shards the header names. -/
def headerShards (adaptiveShape : Option (Nat × Nat)) : UInt16 :=
  (adaptiveShape.map fun shape => UInt16.ofNat shape.1).getD 0

/-- The largest shard of a profile. -/
def payloadLimit (adaptiveShape : Option (Nat × Nat)) : Nat :=
  if adaptiveShape.isSome then maxPayloadSizeV3 else maxPayloadSize

section Shape

variable {p : Primitives} {rs : RsEncode}

variable {maxPayload d n dataShards parityShards : Nat} {config : ClientConfig} {shape : Nat × Nat}

theorem shardsFor_spec {divisor floor dataLen : Nat} (hfloor : 0 < floor)
    (h : shardsFor divisor floor dataLen maxPayload = some shape) :
    0 < shape.1 ∧ 0 < shape.2 ∧ shape.1 + shape.2 ≤ maxTotalChunks.toNat ∧
      dataLen ≤ shape.1 * maxPayload := by
  rw [shardsFor] at h
  split at h
  · cases h
  · rename_i hne
    obtain ⟨hle, rfl⟩ := of_guard_not h
    have hpos : 0 < maxPayload := Nat.pos_of_ne_zero fun hzero => hne (Or.inr hzero)
    have hdiv := Nat.div_add_mod (dataLen + maxPayload - 1) maxPayload
    have hmod := Nat.mod_lt (dataLen + maxPayload - 1) hpos
    refine ⟨?_, ?_, Nat.le_of_not_lt hle, ?_⟩
    · exact Nat.lt_of_lt_of_le Nat.zero_lt_one (Nat.le_max_right _ _)
    · exact Nat.lt_of_lt_of_le hfloor (Nat.le_max_right _ _)
    · refine Nat.le_trans ?_ (Nat.mul_le_mul_right maxPayload (Nat.le_max_left _ 1))
      rw [Nat.mul_comm]
      omega

theorem ClientConfig.validate_ok (h : config.validate = .ok ()) :
    0 < config.dataShards ∧ 0 < config.parityShards ∧
      config.dataShards + config.parityShards ≤ maxTotalChunks.toNat := by
  rw [ClientConfig.validate] at h
  by_cases hd : config.dataShards = 0
  · rw [if_pos hd] at h
    cases h
  by_cases hn : config.parityShards = 0
  · rw [if_neg hd, if_pos hn] at h
    cases h
  by_cases htotal : RelayConfig.maxTotalShards < config.dataShards + config.parityShards
  · rw [if_neg hd, if_neg hn, if_pos htotal] at h
    cases h
  · exact ⟨Nat.pos_of_ne_zero hd, Nat.pos_of_ne_zero hn, Nat.le_of_not_lt htotal⟩

theorem BlockChunker.new_eq_ok {c : BlockChunker} (h : BlockChunker.new p rs d n = .ok c) :
    c = ⟨⟨rs d n, d, n⟩, maxPayloadSize⟩ := by
  rw [new, newWithMaxPayload] at h
  obtain ⟨encoder, hencoder, h⟩ := Results.bind_eq_ok.mp h
  obtain ⟨decoder, -, h⟩ := Results.bind_eq_ok.mp h
  have hshape : encoder = ⟨rs d n, d, n⟩ := by
    rw [FecEncoder.new] at hencoder
    split at hencoder
    · cases hencoder
    split at hencoder
    · cases hencoder
    split at hencoder
    · cases hencoder
    · exact (Except.ok.inj hencoder).symm
  rw [hshape, Nat.min_self] at h
  exact (Except.ok.inj h).symm

theorem Outgoing.adaptiveShape_spec {out : Outgoing} (h : out.adaptiveShape = some shape) :
    0 < shape.1 ∧ 0 < shape.2 ∧ shape.1 + shape.2 ≤ maxTotalChunks.toNat ∧
      out.data.length ≤ shape.1 * maxPayloadSizeV3 := by
  match out with
  | compactBlock true _ | rawBlockSegment true _ => exact shardsFor_spec Nat.one_pos h
  | compactSkeleton _ => exact shardsFor_spec Nat.two_pos h

theorem Outgoing.shape_spec (hconfig : config.validate = .ok ()) (out : Outgoing) :
    0 < (out.shape config).1 ∧ 0 < (out.shape config).2 ∧
      (out.shape config).1 + (out.shape config).2 ≤ maxTotalChunks.toNat := by
  rw [shape]
  cases h : out.adaptiveShape with
  | none => exact ClientConfig.validate_ok hconfig
  | some shape =>
    obtain ⟨hd, hn, htotal, -⟩ := adaptiveShape_spec h
    exact ⟨hd, hn, htotal⟩

/-- A codec that is kept or one that is made: the shards are those of the shape. -/
theorem BlockChunker.encodeWithShape_eq (hcodes : ReedSolomonCodes p rs dataShards parityShards)
    (hd : 0 < dataShards) (hn : 0 < parityShards) (data : List UInt8) :
    (BlockChunker.mk ⟨rs d n, d, n⟩ maxPayload).encodeWithShape p rs data dataShards parityShards =
      (FecEncoder.mk (rs dataShards parityShards) dataShards parityShards).encode data := by
  obtain ⟨reconstruct, hnew, -⟩ := hcodes
  rw [encodeWithShape]
  split
  · rename_i hsame
    rw [hsame.1, hsame.2]
  · simp only [FecEncoder.new, FecDecoder.new, if_neg (Nat.ne_of_gt hd), if_neg (Nat.ne_of_gt hn),
      hnew, bind, Except.bind]

theorem u16OfNat_pos (hpos : 0 < n) (hlt : n < 2 ^ 16) : 0 < UInt16.ofNat n := by
  rw [UInt16.lt_iff_toNat_lt, UInt16.toNat_ofNat_of_lt' hlt]
  exact hpos

/-- **Chunking makes a codeword**, if its shards are small enough. -/
theorem BlockChunker.inner_eq_ok {msgType : MessageType} {objectHash : Bytes32} {data : List UInt8}
    {adaptiveShape : Option (Nat × Nat)}
    (hshape : adaptiveShape.getD (d, n) = (dataShards, parityShards))
    (hcodes : ReedSolomonCodes p rs dataShards parityShards) (hd : 0 < dataShards)
    (hn : 0 < parityShards) (htotal : dataShards + parityShards ≤ maxTotalChunks.toNat)
    (hne : data ≠ []) (hmsg : msgType.isData = true) :
    ∃ codeword, Codeword p dataShards parityShards data codeword ∧ ∀ chunks,
      (BlockChunker.mk ⟨rs d n, d, n⟩ maxPayloadSize).dataToChunksAdaptiveInner p rs msgType
          objectHash data adaptiveShape = .ok chunks ↔
        FecEncoder.shardSize data.length dataShards ≤ payloadLimit adaptiveShape ∧
          chunks = codeword.zipIdx.map (bareChunk msgType objectHash
            (UInt16.ofNat codeword.length) (headerShards adaptiveShape)) := by
  obtain ⟨codeword, hcodeword, hencode⟩ := FecEncoder.encode_ok hcodes hd hne
  -- all shards are of one size
  have hsmall : ∀ limit, (∀ shard ∈ codeword, shard.length ≤ limit) ↔
      FecEncoder.shardSize data.length dataShards ≤ limit := by
    intro limit
    constructor
    · intro hall
      have hlen := hcodeword.length
      cases hcons : codeword with
      | nil => rw [hcons, List.length_nil] at hlen; omega
      | cons shard rest =>
        have hmem : shard ∈ codeword := hcons ▸ List.mem_cons_self
        rw [← hcodeword.uniform shard hmem]
        exact hall shard hmem
    · intro hle shard hmem
      rw [hcodeword.uniform shard hmem]
      exact hle
  refine ⟨codeword, hcodeword, fun chunks => ?_⟩
  cases adaptiveShape with
  | none =>
    obtain ⟨rfl, rfl⟩ := Prod.mk.inj hshape
    have hfew : ¬ maxTotalChunks.toNat < codeword.length := by
      rw [hcodeword.length]
      exact Nat.not_lt.mpr htotal
    have hchunks : shardsToChunks maxPayloadSize "shard too large for payload"
        (dataHeader msgType objectHash) codeword = .ok chunks ↔ _ :=
      shardsToChunks_eq_ok (dataHeader_eq hmsg)
    rw [hsmall] at hchunks
    simp only [dataToChunksAdaptiveInner, dataToChunks, hencode, bind, Except.bind, if_neg hfew]
    exact hchunks
  | some shape =>
    obtain rfl : shape = (dataShards, parityShards) := hshape
    have hpos : 0 < UInt16.ofNat dataShards := by
      refine u16OfNat_pos hd ?_
      have : maxTotalChunks.toNat = 256 := rfl
      omega
    have hchunks : shardsToChunks maxPayloadSizeV3 "v3 shard too large for payload"
        (dataHeaderV3 (UInt16.ofNat dataShards) msgType objectHash) codeword = .ok chunks ↔ _ :=
      shardsToChunks_eq_ok (dataHeaderV3_eq hmsg)
    rw [hsmall, ← bareChunk_of_pos hpos] at hchunks
    simp only [dataToChunksAdaptiveInner, encodeWithShape_eq hcodes hd hn, hencode, bind,
      Except.bind]
    exact hchunks

end Shape

/-- What a sender makes of an object is an object in the receiver's sense. -/
structure Outgoing.Sent {p : Primitives} {config : ClientConfig} (out : Outgoing)
    (o : RelayObject p config) (datagrams : List (List UInt8)) : Prop where
  objectHash : o.objectHash = out.objectHash p.hashes
  payload : o.payload = out.payload
  need : o.need = (out.shape config).1
  total : o.total.toNat = (out.shape config).1 + (out.shape config).2
  length : datagrams.length = o.total.toNat
  chunk : ∀ i bytes, datagrams[i]? = some bytes → ∃ chunk : Chunk, chunk.toBytes = bytes ∧
    chunk.Sendable ∧ o.Genuine chunk ∧ chunk.header.chunkId.toNat = i

/-- There is a first chunk. -/
theorem Outgoing.Sent.first {p : Primitives} {config : ClientConfig} {out : Outgoing}
    {o : RelayObject p config} {datagrams : List (List UInt8)} (h : out.Sent o datagrams)
    (hpos : 0 < (out.shape config).1) :
    ∃ chunk : Chunk, datagrams[0]? = some chunk.toBytes ∧ chunk.Sendable ∧ o.Genuine chunk := by
  have hlen : 0 < datagrams.length := by
    rw [h.length, h.total]
    exact Nat.add_pos_left hpos _
  obtain ⟨chunk, hbytes, hsendable, hgenuine, -⟩ :=
    h.chunk 0 _ (List.getElem?_eq_getElem hlen)
  exact ⟨chunk, hbytes ▸ List.getElem?_eq_getElem hlen, hsendable, hgenuine⟩

theorem headerShards_spec {config : ClientConfig} {adaptiveShape : Option (Nat × Nat)}
    {dataShards parityShards : Nat}
    (hshape : adaptiveShape.getD (config.dataShards, config.parityShards) =
      (dataShards, parityShards))
    (hd : 0 < dataShards) (htotal : dataShards + parityShards ≤ maxTotalChunks.toNat) :
    config.need (headerShards adaptiveShape) = dataShards ∧
      payloadLimit adaptiveShape =
        (if 0 < headerShards adaptiveShape then maxPayloadSizeV3 else maxPayloadSize) ∧
      (0 < headerShards adaptiveShape → (headerShards adaptiveShape).toNat = dataShards) ∧
      (headerShards adaptiveShape = 0 →
        dataShards = config.dataShards ∧ parityShards = config.parityShards) := by
  have hmax : maxTotalChunks.toNat = 256 := rfl
  cases adaptiveShape with
  | none =>
    obtain ⟨rfl, rfl⟩ := Prod.mk.inj hshape
    exact ⟨rfl, rfl, fun h => absurd h (by decide), fun _ => ⟨rfl, rfl⟩⟩
  | some shape =>
    obtain rfl : shape = (dataShards, parityShards) := hshape
    have hlt : dataShards < 2 ^ 16 := by omega
    have hpos : 0 < headerShards (some (dataShards, parityShards)) := u16OfNat_pos hd hlt
    have htoNat : (headerShards (some (dataShards, parityShards))).toNat = dataShards :=
      UInt16.toNat_ofNat_of_lt' hlt
    refine ⟨?_, ?_, fun _ => htoNat, fun hzero => ?_⟩
    · rw [ClientConfig.need, if_pos hpos, htoNat]
    · rw [if_pos hpos]
      rfl
    · rw [hzero] at hpos
      exact absurd hpos (by decide)

section Sent

variable {p : Primitives} {rs : RsEncode} {config : ClientConfig} {chunker : BlockChunker}
  {out : Outgoing}

/-- When an object is cut into chunks, and into which. -/
theorem Outgoing.chunks_eq_ok (hconfig : config.validate = .ok ())
    (hchunker : BlockChunker.new p rs config.dataShards config.parityShards = .ok chunker)
    (hcodes : ReedSolomonCodes p rs (out.shape config).1 (out.shape config).2) :
    ∃ codeword, Codeword p (out.shape config).1 (out.shape config).2 out.data codeword ∧
      ∀ chunks, out.chunks p rs chunker = .ok chunks ↔
        FecEncoder.shardSize out.data.length (out.shape config).1 ≤
            payloadLimit out.adaptiveShape ∧
          chunks = codeword.zipIdx.map (bareChunk out.msgType (out.objectHash p.hashes)
            (UInt16.ofNat codeword.length) (headerShards out.adaptiveShape)) := by
  obtain ⟨hd, hn, htotal⟩ := out.shape_spec hconfig
  rw [BlockChunker.new_eq_ok hchunker, chunks_eq]
  exact BlockChunker.inner_eq_ok rfl hcodes hd hn htotal out.data_ne_nil out.isData_msgType

/-- Shards that fit into datagrams are short enough for the length in front of the object. -/
theorem Outgoing.length_content_lt (hd : 0 < (out.shape config).1)
    (htotal : (out.shape config).1 + (out.shape config).2 ≤ maxTotalChunks.toNat)
    (hsize : FecEncoder.shardSize out.data.length (out.shape config).1 ≤
      payloadLimit out.adaptiveShape) : out.content.length < 2 ^ 32 := by
  have hdata : out.data.length = 4 + out.content.length := by
    rw [data, wrapLenPrefixed, List.length_append, length_leBytes]
  have hlimit : payloadLimit out.adaptiveShape ≤ 1124 := by
    rw [payloadLimit]
    split <;> decide
  have hmax : maxTotalChunks.toNat = 256 := rfl
  have hmul : (out.shape config).1 * FecEncoder.shardSize out.data.length (out.shape config).1 ≤
      256 * 1124 := Nat.mul_le_mul (by omega) (hsize.trans hlimit)
  have hle := FecEncoder.le_mul_shardSize out.data.length hd
  omega

/-- **What is sent is an object.** -/
theorem Outgoing.exists_object {chunks : List Chunk}
    (hconfig : config.validate = .ok ())
    (hchunker : BlockChunker.new p rs config.dataShards config.parityShards = .ok chunker)
    (hcodes : ReedSolomonCodes p rs (out.shape config).1 (out.shape config).2)
    (hlimits : out.WithinLimits p.hashes) (hchunks : out.chunks p rs chunker = .ok chunks) :
    ∃ (o : RelayObject p config) (datagrams : List (List UInt8)),
      sendChunks p config.authKey chunks = .ok datagrams ∧ out.Sent o datagrams := by
  obtain ⟨hd, hn, htotal⟩ := out.shape_spec hconfig
  obtain ⟨codeword, hcodeword, hiff⟩ := chunks_eq_ok hconfig hchunker hcodes
  obtain ⟨hsize, rfl⟩ := (hiff chunks).mp hchunks
  obtain ⟨hneed, hlimit, hnamed, hfixed⟩ := headerShards_spec
    (show _ = ((out.shape config).1, (out.shape config).2) from rfl) hd htotal
  have hlength : (UInt16.ofNat codeword.length).toNat =
      (out.shape config).1 + (out.shape config).2 := by
    rw [hcodeword.length]
    exact UInt16.toNat_ofNat_of_lt' (Nat.lt_of_le_of_lt htotal (by decide))
  have hsizepos := FecEncoder.shardSize_pos (List.length_pos_of_ne_nil out.data_ne_nil) hd
  have htotal' : UInt16.ofNat codeword.length ≤ maxTotalChunks := by
    rw [UInt16.le_iff_toNat_le, hlength]
    exact htotal
  let o : RelayObject p config :=
    { objectHash := out.objectHash p.hashes
      msgType := out.msgType
      total := UInt16.ofNat codeword.length
      dataShards := headerShards out.adaptiveShape
      codeword := codeword
      size := FecEncoder.shardSize out.data.length (out.shape config).1
      payload := out.payload
      isData := out.isData_msgType
      total_le := htotal'
      profile := fun hzero => by rw [hlength, (hfixed hzero).1, (hfixed hzero).2]
      length_codeword := hcodeword.length.trans hlength.symm
      uniform := hcodeword.uniform
      size_pos := hsizepos
      need_pos := by rw [hneed]; exact hd
      decodes := by
        rw [hneed]
        intro received hsurvives henough
        exact decodePayload_eq hlimits (out.length_content_lt hd htotal hsize)
          (hcodeword.decode hd hn hsurvives henough) }
  refine ⟨o, _, sendChunks_bareChunk out.isData_msgType _, rfl, rfl, hneed, hlength, ?_, ?_⟩
  · rw [List.length_map, List.length_zipIdx]
    exact o.length_codeword
  · intro i bytes hbytes
    rw [List.getElem?_map, List.getElem?_zipIdx, Option.map_map] at hbytes
    obtain ⟨shard, hshard, rfl⟩ := Option.map_eq_some_iff.mp hbytes
    have hmem := List.mem_of_getElem? hshard
    have hi : i < (out.shape config).1 + (out.shape config).2 := by
      rw [← hcodeword.length]
      exact (List.getElem?_eq_some_iff.mp hshard).1
    have hid : (UInt16.ofNat (0 + i)).toNat = i := by
      rw [Nat.zero_add]
      exact UInt16.toNat_ofNat_of_lt' (Nat.lt_trans (Nat.lt_of_lt_of_le hi htotal) (by decide))
    have hheader := @sealedChunk_header out.msgType (out.objectHash p.hashes) o.total o.dataShards p
      config.authKey (shard, 0 + i)
    obtain ⟨-, htype, hhash, hchunkId, htot, -, hds, hversion⟩ := hheader
    refine ⟨_, rfl, sendable_sealedChunk out.isData_msgType htotal' ?_ ?_ ?_, ?_, ?_⟩
    · intro hpos
      rw [UInt16.lt_iff_toNat_lt, hnamed hpos, hlength]
      omega
    · rw [← hlimit, hcodeword.uniform shard hmem]
      exact hsize
    · refine List.ne_nil_of_length_pos ?_
      rw [hcodeword.uniform shard hmem]
      exact hsizepos
    · refine ⟨hhash, htype, htot, hds, fun hne => ?_, verify_sealedChunk _, ?_⟩
      · exact hversion.trans (if_pos (UInt16.pos_iff_ne_zero.mpr hne))
      · rw [hchunkId, hid]
        exact hshard
    · rw [hchunkId, hid]

end Sent

end MiningInfra.Relay
