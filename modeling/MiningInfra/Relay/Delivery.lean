import MiningInfra.Relay.Outgoing

/-!
# From sender to receiver

A receiver that gets nothing but the datagrams of one object delivers that object and nothing
else. It does so as soon as no more chunks are missing than there are parity shards, in whatever
order and how often the others come.

`Alone` is what is known of such a receiver beside `CollectInv`: there is no other assembly, so
there is always room for the one of the object.
-/

namespace MiningInfra.Relay

open Lib Coinbase

/-- Nothing comes but these datagrams. -/
def Only (datagrams : List (List UInt8)) (_ : RelayClient) : ClientEvent → Prop
  | .datagram _ bytes => bytes ∈ datagrams
  | .other _ => True

instance (datagrams : List (List UInt8)) (c : RelayClient) (e : ClientEvent) :
    Decidable (Only datagrams c e) :=
  match e with
  | .datagram _ bytes => inferInstanceAs (Decidable (bytes ∈ datagrams))
  | .other _ => .isTrue trivial

/-- A datagram has come, at most the timeout of an assembly after the first that came. -/
def RelayClient.GotInTime (c : RelayClient) (bytes : List UInt8) : Prop :=
  ∃ a ∈ c.journal, Chunk.fromBytes bytes = .ok a.2 ∧
    ∀ b ∈ c.journal, a.1 ≤ b.1 + c.config.recvTimeout

instance (c : RelayClient) (bytes : List UInt8) : Decidable (c.GotInTime bytes) :=
  inferInstanceAs (Decidable (∃ a ∈ c.journal, Chunk.fromBytes bytes = .ok a.2 ∧
    ∀ b ∈ c.journal, a.1 ≤ b.1 + c.config.recvTimeout))

namespace RelayObject

variable {p : Primitives} {config : ClientConfig} {o : RelayObject p config} {c c' : RelayClient}

/-- The client knows of no other object. -/
structure Alone (o : RelayObject p config) (c : RelayClient) : Prop where
  collect : o.CollectInv c
  delivered : ∀ payload ∈ c.delivered, payload = o.payload
  pending : ∀ objectHash, objectHash ≠ o.objectHash → c.pending.lookup objectHash = none

theorem Alone.room (h : o.Alone c) : (c.pending.lookup o.objectHash).isSome = true ∨
    c.pending.entries.length < maxPendingBlocksClient := by
  cases hlookup : c.pending.lookup o.objectHash with
  | some entry => exact Or.inl rfl
  | none =>
    -- then there is no assembly at all
    have hnone : ∀ objectHash, c.pending.lookup objectHash = none := by
      intro objectHash
      by_cases hid : objectHash = o.objectHash
      · rw [hid, hlookup]
      · exact h.pending objectHash hid
    have hempty : c.pending.entries = [] := by
      refine List.eq_nil_iff_forall_not_mem.mpr fun entry hentry => ?_
      have hsome := Table.mem_entries.mp hentry
      rw [hnone] at hsome
      cases hsome
    rw [hempty]
    exact Or.inr (by decide)

theorem Alone.tick (h : o.Alone c) (elapsed : Nat) :
    o.Alone { c with now := c.now + elapsed } :=
  ⟨h.collect.tick elapsed, h.delivered, h.pending⟩

theorem Alone.cleanup (h : o.Alone c) : o.Alone c.cleanup := by
  refine ⟨h.collect.cleanup, ?_, ?_⟩
  · rw [RelayClient.cleanup]
    split <;> exact h.delivered
  · intro objectHash hid
    rw [RelayClient.cleanup]
    split
    · exact h.pending objectHash hid
    · show (c.pending.retain _).lookup objectHash = none
      rw [Table.lookup_retain, h.pending objectHash hid]
      rfl

theorem Alone.genuine (h : o.Alone c) {chunk : Chunk} (hgenuine : o.Genuine chunk) :
    o.Alone ((c.record chunk).handleIncomingChunk p chunk) := by
  refine ⟨h.collect.genuine hgenuine h.room, ?_, ?_⟩
  all_goals
    rcases h.collect.handled hgenuine h.room with ⟨-, hsame⟩ | ⟨assembly, hadded, -⟩
  · rw [hsame]
    exact h.delivered
  · generalize (c.record chunk).handleIncomingChunk p chunk = c' at hadded
    cases hadded with
    | kept => exact h.delivered
    | delivered =>
      intro payload hpayload
      rcases List.mem_cons.mp hpayload with rfl | hpayload
      · rfl
      · exact h.delivered payload hpayload
  · rw [hsame]
    exact h.pending
  · generalize (c.record chunk).handleIncomingChunk p chunk = c' at hadded
    intro objectHash hid
    cases hadded with
    | kept => exact (AList.lookup_insert_ne hid).trans (h.pending objectHash hid)
    | delivered => exact (AList.lookup_erase_ne hid).trans (h.pending objectHash hid)

/-- **One turn of the loop.** -/
theorem Alone.next {datagrams : List (List UInt8)} {e : ClientEvent} (h : o.Alone c)
    (hchunks : ∀ bytes ∈ datagrams, ∃ chunk,
      Chunk.fromBytes (bytes.take recvBufSize) = .ok chunk ∧ o.Genuine chunk)
    (honly : Only datagrams c e) (hnext : c.next p e = some c') : o.Alone c' := by
  cases e with
  | other elapsed =>
    obtain rfl := Option.some.inj hnext
    exact (h.tick elapsed).cleanup
  | datagram elapsed bytes =>
    obtain rfl := Option.some.inj hnext
    obtain ⟨chunk, hchunk, hgenuine⟩ := hchunks bytes honly
    rw [RelayClient.receive, hchunk]
    exact ((h.tick elapsed).genuine hgenuine).cleanup

theorem Alone.start (h : RelayClient.Start config c) : o.Alone c := by
  refine ⟨.start h, ?_, ?_⟩
  all_goals
    rw [RelayClient.Start] at h
    rw [h]
  · exact fun payload hpayload => absurd hpayload (by simp)
  · exact fun objectHash _ => rfl

end RelayObject

section Delivery

variable {p : Primitives} {config : ClientConfig} {out : Outgoing} {o : RelayObject p config}
  {datagrams : List (List UInt8)} {c : RelayClient}

/-- A datagram is shorter than the buffer it is read into. -/
theorem Chunk.Sendable.fromBytes_take {chunk : Chunk} (h : chunk.Sendable) :
    Chunk.fromBytes (chunk.toBytes.take recvBufSize) = .ok chunk := by
  rw [List.take_of_length_le (Nat.le_trans h.framed.length_le (by decide))]
  exact h.framed.fromBytes_toBytes

section

variable (h : out.Sent o datagrams)
  (hreach : Reach (RelayClient.next p) (Only datagrams) (RelayClient.Start config) c)

include h hreach

theorem Outgoing.Sent.alone : o.Alone c := by
  refine Reach.invariant (I := o.Alone) (fun _ => .start) ?_ hreach
  intro s e s' hs honly hnext
  refine hs.next (fun bytes hbytes => ?_) honly hnext
  obtain ⟨i, hi, hget⟩ := List.getElem_of_mem hbytes
  obtain ⟨chunk, rfl, hsendable, hgenuine, -⟩ :=
    h.chunk i bytes (List.getElem?_eq_some_iff.mpr ⟨hi, hget⟩)
  exact ⟨chunk, hsendable.fromBytes_take, hgenuine⟩

/-- **Few are lost, so the object is delivered.** -/
theorem Outgoing.Sent.delivered {lost : List Nat} (hlost : lost.length ≤ (out.shape config).2)
    (hgot : ∀ i bytes, datagrams[i]? = some bytes → i ∉ lost → c.GotInTime bytes) :
    out.payload ∈ c.delivered := by
  have halone := h.alone hreach
  have hnodup : ((List.range o.total.toNat).filter fun i => i ∉ lost).Nodup :=
    List.nodup_range.filter _
  rw [← h.payload]
  refine halone.collect.delivered hnodup (fun i hi => ?_) ?_
  · obtain ⟨hrange, hkept⟩ := List.mem_filter.mp hi
    have hget : datagrams[i]? = some (datagrams.get ⟨i, by
        rw [h.length]; exact List.mem_range.mp hrange⟩) := List.getElem?_eq_getElem _
    obtain ⟨chunk, hbytes, hsendable, hgenuine, hid⟩ := h.chunk i _ hget
    obtain ⟨a, ha, hparse, htime⟩ := hgot i _ hget (by simpa using hkept)
    rw [← hbytes, hsendable.framed.fromBytes_toBytes] at hparse
    obtain hchunk := Except.ok.inj hparse
    refine ⟨a, ha, hchunk ▸ hgenuine, hchunk ▸ hid, fun b hb _ => ?_⟩
    rw [← halone.collect.config]
    exact htime b hb
  · have hkept := length_le_kept o.total.toNat lost
    rw [h.need]
    rw [h.total] at hkept ⊢
    omega

end

variable {rs : RsEncode} {chunker : BlockChunker}

/-- A segment that is cut with the budget of the fixed profile fits into its shards. -/
theorem chunks_of_split (hconfig : config.validate = .ok ())
    (hchunker : BlockChunker.new p rs config.dataShards config.parityShards = .ok chunker)
    {adaptive : Bool} {segment : RawBlockSegment}
    (hcodes : ReedSolomonCodes p rs ((Outgoing.rawBlockSegment adaptive segment).shape config).1
      ((Outgoing.rawBlockSegment adaptive segment).shape config).2)
    (hlen : segment.encode.length ≤ config.dataShards * maxPayloadSize - 4)
    (hbudget : 4 ≤ config.dataShards * maxPayloadSize) :
    ∃ chunks, (Outgoing.rawBlockSegment adaptive segment).chunks p rs chunker = .ok chunks := by
  generalize hout : Outgoing.rawBlockSegment adaptive segment = out at hcodes ⊢
  obtain ⟨codeword, -, hiff⟩ := Outgoing.chunks_eq_ok hconfig hchunker hcodes
  refine ⟨_, (hiff _).mpr ⟨FecEncoder.shardSize_le (out.shape_spec hconfig).1 ?_, rfl⟩⟩
  rw [Outgoing.shape, payloadLimit]
  cases hshape : out.adaptiveShape with
  | none =>
    have hdata : out.data.length = 4 + segment.encode.length := by
      rw [← hout, Outgoing.data, wrapLenPrefixed, List.length_append, length_leBytes]
      rfl
    show out.data.length ≤ config.dataShards * maxPayloadSize
    omega
  | some shape => exact (Outgoing.adaptiveShape_spec hshape).2.2.2

/-- **End-to-end delivery.** The datagrams of an object are small and parse; a receiver of the same
profile delivers the object and nothing else, once no more chunks are missing than there are parity
shards. Segments cut with the budget of the profile can always be sent. -/
theorem sent_delivered (hconfig : config.validate = .ok ())
    (hchunker : BlockChunker.new p rs config.dataShards config.parityShards = .ok chunker) :
    (∀ (out : Outgoing) (chunks : List Chunk),
      ReedSolomonCodes p rs (out.shape config).1 (out.shape config).2 →
      out.WithinLimits p.hashes → out.chunks p rs chunker = .ok chunks →
      ∃ datagrams, sendChunks p config.authKey chunks = .ok datagrams ∧
        (∀ bytes ∈ datagrams, bytes.length ≤ 1200 ∧
          ∃ chunk, Chunk.fromBytes bytes = .ok chunk ∧ (chunk.header.version = 3 →
            1 ≤ chunk.header.dataShards.toNat ∧
              chunk.header.dataShards.toNat < chunk.header.totalChunks.toNat ∧
              chunk.header.totalChunks.toNat ≤ 256)) ∧
        ∀ c, Reach (RelayClient.next p) (Only datagrams) (RelayClient.Start config) c →
          (∀ payload ∈ c.delivered, payload = out.payload) ∧
          ∀ lost : List Nat, lost.length ≤ (out.shape config).2 →
            (∀ i bytes, datagrams[i]? = some bytes → i ∉ lost → c.GotInTime bytes) →
            out.payload ∈ c.delivered) ∧
    (∀ (blockHash : Bytes32) (rawBlock : List UInt8) (segments : List RawBlockSegment),
      splitRawBlock p.hashes blockHash rawBlock (config.dataShards * maxPayloadSize - 4)
        = .ok segments →
      ∀ segment ∈ segments, ∀ adaptive : Bool,
        ReedSolomonCodes p rs ((Outgoing.rawBlockSegment adaptive segment).shape config).1
            ((Outgoing.rawBlockSegment adaptive segment).shape config).2 →
          ∃ chunks,
            (Outgoing.rawBlockSegment adaptive segment).chunks p rs chunker = .ok chunks) ∧
    -- the limits of a segment hold for all there are
    (∀ (blockHash : Bytes32) (rawBlock : List UInt8) (maxFrameLen : Nat)
      (segments : List RawBlockSegment),
      splitRawBlock p.hashes blockHash rawBlock maxFrameLen = .ok segments →
      ∀ segment ∈ segments, segment.Accepted p.hashes) ∧
    ∀ (frame : List UInt8) (segment : RawBlockSegment),
      RawBlockSegment.decode p.hashes frame = .ok segment → segment.Accepted p.hashes := by
  refine ⟨?_, ?_, ?_, fun frame segment => RawBlockSegment.accepted_of_decode⟩
  · intro out chunks hcodes hlimits hchunks
    obtain ⟨o, datagrams, hsend, hsent⟩ :=
      Outgoing.exists_object hconfig hchunker hcodes hlimits hchunks
    refine ⟨datagrams, hsend, fun bytes hbytes => ?_, fun c hreach => ⟨?_, fun lost hlost hgot => ?_⟩⟩
    · obtain ⟨i, hi, hget⟩ := List.getElem_of_mem hbytes
      obtain ⟨chunk, rfl, hsendable, -⟩ :=
        hsent.chunk i bytes (List.getElem?_eq_some_iff.mpr ⟨hi, hget⟩)
      refine ⟨hsendable.framed.length_le, chunk, hsendable.framed.fromBytes_toBytes, fun hversion => ?_⟩
      rcases hsendable.version with ⟨hv, -⟩ | ⟨-, -, hpos, hlt⟩
      · exact absurd (hversion.symm.trans hv) (by decide)
      · exact ⟨UInt16.lt_iff_toNat_lt.mp hpos, UInt16.lt_iff_toNat_lt.mp hlt,
          UInt16.le_iff_toNat_le.mp hsendable.total⟩
    · rw [← hsent.payload]
      exact (hsent.alone hreach).delivered
    · exact hsent.delivered hreach hlost hgot
  · intro blockHash rawBlock segments hsplit segment hsegment adaptive hcodes
    obtain ⟨hbudget, count, -, -, -, rfl⟩ := splitRawBlock_eq_ok hsplit
    obtain ⟨index, -, rfl⟩ := List.mem_map.mp hsegment
    refine chunks_of_split hconfig hchunker hcodes ?_ (by omega)
    rw [RawBlockSegment.length_encode, segmentOf, List.length_take]
    omega
  · intro blockHash rawBlock maxFrameLen segments hsplit segment hsegment
    obtain ⟨-, count, -, hcount, -, rfl⟩ := splitRawBlock_eq_ok hsplit
    obtain ⟨index, hindex, rfl⟩ := List.mem_map.mp hsegment
    exact segmentOf_accepted (List.mem_range.mp hindex) hcount

end Delivery

/-! ### One data shard, sent twice -/

/-- All shards are the same, so any of them is enough. -/
def repeatShard (received : Shards) : Except String Shards :=
  match (received.filterMap id).head? with
  | some shard => .ok (received.map fun _ => some shard)
  | none => .error "TooFewShardsPresent"

/-- The code with one data shard is repetition. -/
def repetition : Primitives where
  hashes := ⟨fun _ => toBytes32 (List.replicate 32 0), fun _ _ => toBytes32 (List.replicate 32 0)⟩
  hmacSha256 _ _ := fun _ => 0
  reedSolomon dataShards _ := if dataShards = 1 then .ok repeatShard else .error "TooManyShards"
  validate _ := .valid

def repetitionEncode : RsEncode := fun _ _ shards => .ok (shards.map fun _ => shards.headD [])

theorem repetition_codes {p : Primitives} {parityShards : Nat}
    (h : p.reedSolomon 1 parityShards = .ok repeatShard) :
    ReedSolomonCodes p repetitionEncode 1 parityShards := by
  refine ⟨repeatShard, h, fun size data _ hlen hsize => ?_⟩
  obtain ⟨shard, rfl⟩ := List.length_eq_one_iff.mp hlen
  refine ⟨List.replicate parityShards shard, List.length_replicate, fun s hs => ?_, ?_, ?_⟩
  · rw [List.eq_of_mem_replicate hs]
    exact hsize shard List.mem_cons_self
  · simp [repetitionEncode]
  · intro received hsurvives henough
    -- there is a shard, and all are the same
    obtain ⟨x, hx⟩ := List.exists_mem_of_length_pos henough
    obtain ⟨hmem, hsome⟩ := List.mem_filter.mp hx
    obtain ⟨i, hi, hget⟩ := List.getElem_of_mem hmem
    obtain ⟨b, hb⟩ := Option.isSome_iff_exists.mp hsome
    have hfilled : received.getD i none = some b := by
      rw [List.getD_eq_getElem?_getD, List.getElem?_eq_getElem hi, hget, Option.getD_some, hb]
    obtain ⟨first, hhead, hfirst⟩ := hsurvives.head_filled hfilled
    have hsame : first = shard := by
      rcases List.mem_append.mp hfirst with h | h
      · exact List.mem_singleton.mp h
      · exact List.eq_of_mem_replicate h
    have hall : received.map (fun _ => some shard) =
        ([shard] ++ List.replicate parityShards shard).map some := by
      rw [List.map_const', hsurvives.1]
      simp [List.replicate_succ]
    rw [repeatShard, hhead, hsame]
    exact congrArg Except.ok hall

def repetitionConfig : ClientConfig where
  relayAddrs := [⟨[127, 0, 0, 1], 8333⟩]
  authKey _ := 1
  dataShards := 1
  parityShards := 1
  recvTimeout := 5000
  authRequired := true
  sendBurstPackets := 1
  sendBurstDelay := 0
  adaptiveFec := true

/-- A compact block with one transaction, in the adaptive profile. -/
def smallBlock : Outgoing :=
  .compactBlock true ⟨List.replicate 140 7, 9, [fun _ => 3], []⟩

def repetitionChunker : BlockChunker := ⟨⟨repetitionEncode 1 1, 1, 1⟩, maxPayloadSize⟩

def smallBlockDatagrams : List (List UInt8) :=
  ((smallBlock.chunks repetition repetitionEncode repetitionChunker).toOption.bind fun chunks =>
    (sendChunks repetition repetitionConfig.authKey chunks).toOption).getD []

/-- Only the parity shard came, twice. -/
def parityCame (c : RelayClient) : Bool :=
  c.journal.map (fun a => (a.1, a.2.header.chunkId)) = [(3, 1), (1, 1)] &&
    c.GotInTime (smallBlockDatagrams.getD 1 [])

theorem lost_shard_delivered :
    ∃ chunks, smallBlock.chunks repetition repetitionEncode repetitionChunker = .ok chunks ∧
      ∃ c, Reach (RelayClient.next repetition) (Only smallBlockDatagrams)
          (RelayClient.Start repetitionConfig) c ∧
        parityCame c = true ∧ smallBlock.payload ∈ c.delivered := by
  have hshape : smallBlock.shape repetitionConfig = (1, 1) := by decide +kernel
  have hcodes : ReedSolomonCodes repetition repetitionEncode (smallBlock.shape repetitionConfig).1
      (smallBlock.shape repetitionConfig).2 := by
    rw [hshape]
    exact repetition_codes rfl
  have hlimits : smallBlock.WithinLimits repetition.hashes :=
    ⟨by decide +kernel, by decide +kernel, by decide, by decide,
      fun tx htx => absurd htx (by simp), by decide⟩
  have hchunks : ∃ chunks,
      smallBlock.chunks repetition repetitionEncode repetitionChunker = .ok chunks := by
    have hok : (smallBlock.chunks repetition repetitionEncode repetitionChunker).isOk = true := by
      decide +kernel
    generalize smallBlock.chunks repetition repetitionEncode repetitionChunker = result at hok
    cases result with
    | error e => exact absurd hok (by simp [Except.isOk, Except.toBool])
    | ok chunks => exact ⟨chunks, rfl⟩
  obtain ⟨chunks, hchunks⟩ := hchunks
  have hconfig : repetitionConfig.validate = .ok () := by decide +kernel
  obtain ⟨datagrams, hsend, -, hrun⟩ :=
    (sent_delivered hconfig rfl).1 smallBlock chunks hcodes hlimits hchunks
  have hdatagrams : smallBlockDatagrams = datagrams := by
    simp only [smallBlockDatagrams, hchunks, Except.toOption, Option.bind_some, hsend,
      Option.getD_some]
  have hexec : (exec (RelayClient.next repetition) (fun c e => decide (Only smallBlockDatagrams c e))
      ⟨repetitionConfig, 0, ∅, ∅, 0, [], []⟩
      [.datagram 1 (smallBlockDatagrams.getD 1 []),
        .datagram 2 (smallBlockDatagrams.getD 1 [])]).any parityCame = true := by
    decide +kernel
  have hstart : RelayClient.Start repetitionConfig ⟨repetitionConfig, 0, ∅, ∅, 0, [], []⟩ := rfl
  obtain ⟨c, hreach, hcame⟩ :=
    Reach.exists_of_exec _ (fun _ _ => of_decide_eq_true) _ hstart _ hexec
  refine ⟨chunks, hchunks, c, hreach, hcame, ?_⟩
  have hlength : smallBlockDatagrams.length = 2 := by decide +kernel
  rw [hdatagrams] at hreach
  refine (hrun c hreach).2 [0] (by rw [hshape]; decide) fun i bytes hget hlost => ?_
  rw [← hdatagrams] at hget
  have hi : i = 1 := by
    have hlt := (List.getElem?_eq_some_iff.mp hget).1
    have hne : i ≠ 0 := by simpa using hlost
    omega
  subst hi
  rw [parityCame, Bool.and_eq_true, decide_eq_true_iff] at hcame
  have hgot := of_decide_eq_true hcame.2
  rwa [List.getD_eq_getElem?_getD, hget] at hgot

end MiningInfra.Relay
