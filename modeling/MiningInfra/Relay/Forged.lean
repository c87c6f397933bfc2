import MiningInfra.Relay.Delivery

/-!
# Two bodies under one header

The id of a segment is made from the hash of the header and the number of the segment, so the
segments of another body with the same header have the same ids. The client has one assembly for
each id and ignores an id once something was delivered under it. So a segment is delivered when
enough of its chunks come, as long as no other chunk came under its id before that
(`Unforged`); when one did, the segment can be lost for good.
-/

namespace MiningInfra.Relay

open Lib Coinbase

section Unforged

variable (p : Primitives) (config : ClientConfig)

/-- The id of the object a segment is sent as. -/
def RawBlockSegment.objectHash (hashes : Hashes) (segment : RawBlockSegment) : Bytes32 :=
  segmentObjectHash hashes segment.blockHash segment.segmentIndex

/-- An authenticated chunk under the id of a segment. -/
def RawBlockSegment.IsUnder (segment : RawBlockSegment) (chunk : Chunk) : Prop :=
  chunk.header.blockHash = segment.objectHash p.hashes ∧
    verifyDataChunkHmac p config.authKey chunk = true

/-- Until a segment is delivered, the authenticated chunks under its id are its own, and there is
room for its assembly. -/
def Unforged (segments : List RawBlockSegment) (datagrams : RawBlockSegment → List (List UInt8))
    (c : RelayClient) : ClientEvent → Prop
  | .datagram _ bytes => ∀ chunk ∈ (Chunk.fromBytes (bytes.take recvBufSize)).toOption,
      ∀ segment ∈ segments, .rawBlockSegment segment ∉ c.delivered →
        segment.IsUnder p config chunk →
        bytes ∈ datagrams segment ∧
          ((c.pending.lookup (segment.objectHash p.hashes)).isSome = true ∨
            c.pending.entries.length < maxPendingBlocksClient)
  | .other _ => True

instance (segments : List RawBlockSegment) (datagrams : RawBlockSegment → List (List UInt8))
    (c : RelayClient) (e : ClientEvent) : Decidable (Unforged p config segments datagrams c e) := by
  unfold Unforged RawBlockSegment.IsUnder
  cases e <;> infer_instance

/-- A datagram of the segment has come, at most the timeout of an assembly after the first chunk
under its id. -/
def RawBlockSegment.CameInTime (segment : RawBlockSegment) (c : RelayClient)
    (bytes : List UInt8) : Prop :=
  ∃ a ∈ c.journal, Chunk.fromBytes bytes = .ok a.2 ∧
    ∀ b ∈ c.journal, segment.IsUnder p config b.2 → a.1 ≤ b.1 + config.recvTimeout

instance (segment : RawBlockSegment) (c : RelayClient) (bytes : List UInt8) :
    Decidable (segment.CameInTime p config c bytes) := by
  unfold RawBlockSegment.CameInTime RawBlockSegment.IsUnder
  infer_instance

end Unforged

section Delivered

variable {p : Primitives} {rs : RsEncode} {config : ClientConfig} {chunker : BlockChunker}
  {segments : List RawBlockSegment} {datagrams : RawBlockSegment → List (List UInt8)}
  {segment : RawBlockSegment} {adaptive : Bool} {o : RelayObject p config} {c : RelayClient}

theorem Outgoing.Sent.undisturbed {e : ClientEvent}
    (h : (Outgoing.rawBlockSegment adaptive segment).Sent o (datagrams segment))
    (hsegment : segment ∈ segments) (hnot : o.payload ∉ c.delivered)
    (hunforged : Unforged p config segments datagrams c e) : o.Undisturbed c e := by
  cases e with
  | other elapsed => trivial
  | datagram elapsed bytes =>
    intro chunk hchunk hid hauth
    have hunder : segment.IsUnder p config chunk := ⟨hid.trans h.objectHash, hauth⟩
    have hnot' : RelayPayload.rawBlockSegment segment ∉ c.delivered := by
      rw [h.payload] at hnot
      exact hnot
    have hparsed : chunk ∈ (Chunk.fromBytes (bytes.take recvBufSize)).toOption := by
      rw [hchunk]
      rfl
    obtain ⟨hmem, hroom⟩ := hunforged chunk hparsed segment hsegment hnot' hunder
    obtain ⟨i, hi, hget⟩ := List.getElem_of_mem hmem
    obtain ⟨own, rfl, hsendable, hgenuine, -⟩ :=
      h.chunk i bytes (List.getElem?_eq_some_iff.mpr ⟨hi, hget⟩)
    obtain rfl := Except.ok.inj (hsendable.fromBytes_take.symm.trans hchunk)
    refine ⟨hgenuine, ?_⟩
    rw [h.objectHash]
    exact hroom

/-- A run keeps the state of a segment, or delivers it. -/
theorem Outgoing.Sent.delivered_or_collecting
    (h : (Outgoing.rawBlockSegment adaptive segment).Sent o (datagrams segment))
    (hsegment : segment ∈ segments)
    (hreach : Reach (RelayClient.next p) (Unforged p config segments datagrams)
      (RelayClient.Start config) c) : o.payload ∈ c.delivered ∨ o.CollectInv c := by
  refine Reach.invariant (I := fun c => o.payload ∈ c.delivered ∨ o.CollectInv c)
    (fun _ hstart => Or.inr (.start hstart)) ?_ hreach
  intro s e s' hs hunforged hnext
  by_cases hmem : o.payload ∈ s.delivered
  · exact Or.inl (RelayClient.delivered_next hnext hmem)
  · have hcollect := hs.resolve_left hmem
    exact Or.inr (hcollect.next (h.undisturbed hsegment hmem hunforged) hnext)

/-- **Every segment is delivered** in a run in which no other chunk comes under its id before. -/
theorem segments_delivered (hconfig : config.validate = .ok ())
    (hchunker : BlockChunker.new p rs config.dataShards config.parityShards = .ok chunker)
    {blockHash : Bytes32} {rawBlock : List UInt8} {maxFrameLen : Nat}
    (hsplit : splitRawBlock p.hashes blockHash rawBlock maxFrameLen = .ok segments)
    (hcodes : ∀ segment ∈ segments,
      ReedSolomonCodes p rs ((Outgoing.rawBlockSegment adaptive segment).shape config).1
        ((Outgoing.rawBlockSegment adaptive segment).shape config).2)
    (hsent : ∀ segment ∈ segments, ∃ chunks,
      (Outgoing.rawBlockSegment adaptive segment).chunks p rs chunker = .ok chunks ∧
        sendChunks p config.authKey chunks = .ok (datagrams segment))
    (hreach : Reach (RelayClient.next p) (Unforged p config segments datagrams)
      (RelayClient.Start config) c)
    (hcame : ∀ segment ∈ segments, ∃ ids : List Nat, ids.Nodup ∧
      ((Outgoing.rawBlockSegment adaptive segment).shape config).1 ≤ ids.length ∧
      ∀ i ∈ ids, ∃ bytes, (datagrams segment)[i]? = some bytes ∧
        segment.CameInTime p config c bytes) :
    ∀ segment ∈ segments, .rawBlockSegment segment ∈ c.delivered := by
  intro segment hsegment
  obtain ⟨-, count, -, hcount, -, hsegments⟩ := splitRawBlock_eq_ok hsplit
  have haccepted : segment.Accepted p.hashes := by
    rw [hsegments] at hsegment
    obtain ⟨index, hindex, rfl⟩ := List.mem_map.mp hsegment
    exact segmentOf_accepted (List.mem_range.mp hindex) hcount
  obtain ⟨chunks, hchunks, hsend⟩ := hsent segment hsegment
  obtain ⟨o, sent, hsend', hobject⟩ := Outgoing.exists_object hconfig hchunker
    (hcodes segment hsegment) haccepted hchunks
  obtain rfl := Except.ok.inj (hsend.symm.trans hsend')
  rw [show RelayPayload.rawBlockSegment segment = o.payload from hobject.payload.symm]
  rcases hobject.delivered_or_collecting hsegment hreach with hdelivered | hcollect
  · exact hdelivered
  obtain ⟨ids, hnodup, henough, hids⟩ := hcame segment hsegment
  refine hcollect.delivered hnodup (fun i hi => ?_) (hobject.need ▸ henough)
  obtain ⟨bytes, hget, a, ha, hparse, htime⟩ := hids i hi
  obtain ⟨chunk, rfl, hsendable, hgenuine, hid⟩ := hobject.chunk i bytes hget
  obtain rfl := Except.ok.inj (hsendable.framed.fromBytes_toBytes.symm.trans hparse)
  refine ⟨a, ha, hgenuine, hid, fun b hb hgb => htime b hb ⟨?_, hgb.authentic⟩⟩
  exact hgb.objectHash.trans hobject.objectHash

end Delivered

/-! ## When a forged segment comes first -/

section Hidden

variable {p : Primitives} {config : ClientConfig} {o : RelayObject p config} {chunk : Chunk}
  {c : RelayClient}

/-- If one shard is enough, so is the first chunk that comes. -/
theorem RelayObject.Genuine.delivers (hconfig : c.config = config) (hgenuine : o.Genuine chunk)
    (hneed : o.need = 1) (hpending : c.pending.lookup o.objectHash = none)
    (hroom : c.pending.entries.length < maxPendingBlocksClient)
    (hrecent : c.recentlyDelivered o.objectHash = false) :
    c.handleIncomingChunk p chunk =
      { c with
        delivered := o.payload :: c.delivered
        recentDelivered := c.recentDelivered.insert o.objectHash c.now
        pending := c.pending.erase o.objectHash } := by
  have hnone : ∀ entry, c.pending.lookup o.objectHash = some entry → o.Holds entry := by
    intro entry hentry
    exact absurd (hpending.symm.trans hentry) (by simp)
  rw [hgenuine.handle hconfig hrecent]
  obtain ⟨assembly, hadded, -⟩ :=
    hgenuine.collect hconfig hnone (Or.inr hroom) (hgenuine.msgType ▸ o.isData)
  generalize c.collect p chunk (hgenuine.msgType ▸ o.isData) = c' at hadded
  cases hadded with
  | delivered => rfl
  | @kept entry hholds _ _ hhas =>
    -- it has a chunk, and none is not enough
    have hfew := hholds.few
    have hone : [chunk.header.chunkId.toNat].length ≤ entry.1.receivedCount :=
      length_le_filled (List.nodup_singleton _) fun i hi => List.mem_singleton.mp hi ▸ hhas
    rw [List.length_singleton] at hone
    omega

/-- A client at time zero with nothing pending, early enough that it cleans nothing up. -/
def quiet (config : ClientConfig) (recent : Table Bytes32 Nat) (turns : Nat)
    (delivered : List RelayPayload) (journal : List (Nat × Chunk)) : RelayClient :=
  ⟨config, 0, ∅, recent, turns, delivered, journal⟩

variable {recent : Table Bytes32 Nat} {turns : Nat} {delivered : List RelayPayload}
  {journal : List (Nat × Chunk)}

theorem quiet_next (hsendable : chunk.Sendable) (hturns : turns + 1 < 100)
    {recent' : Table Bytes32 Nat} {delivered' : List RelayPayload}
    (hhandle : (quiet config recent turns delivered ((0, chunk) :: journal)).handleIncomingChunk p
      chunk = quiet config recent' turns delivered' ((0, chunk) :: journal)) :
    (quiet config recent turns delivered journal).next p (.datagram 0 chunk.toBytes) =
      some (quiet config recent' (turns + 1) delivered' ((0, chunk) :: journal)) := by
  have hcleanup : (quiet config recent' turns delivered' ((0, chunk) :: journal)).cleanup =
      quiet config recent' (turns + 1) delivered' ((0, chunk) :: journal) := if_pos hturns
  rw [RelayClient.next, RelayClient.receive, hsendable.fromBytes_take, ← hcleanup, ← hhandle]
  rfl

theorem quiet_delivers (hgenuine : o.Genuine chunk) (hneed : o.need = 1)
    (hrecent : recent.lookup o.objectHash = none) :
    (quiet config recent turns delivered journal).handleIncomingChunk p chunk =
      quiet config (recent.insert o.objectHash 0) turns (o.payload :: delivered) journal := by
  have hnot : (quiet config recent turns delivered journal).recentlyDelivered o.objectHash
      = false := by
    rw [RelayClient.recentlyDelivered, quiet, hrecent]
    rfl
  exact hgenuine.delivers rfl hneed rfl (Nat.zero_lt_succ 63) hnot

theorem quiet_ignores (hgenuine : o.Genuine chunk)
    (hrecent : recent.lookup o.objectHash = some 0) :
    (quiet config recent turns delivered journal).handleIncomingChunk p chunk =
      quiet config recent turns delivered journal := by
  have hyes : (quiet config recent turns delivered journal).recentlyDelivered o.objectHash
      = true := by
    rw [RelayClient.recentlyDelivered, quiet, hrecent]
    rfl
  rw [RelayClient.handleIncomingChunk, hgenuine.objectHash, if_pos hyes]

/-- A segment, then one of another body under a second id, then its own under that id. -/
theorem hidden_of_forged_first {real₀ real₁ forged₁ : RelayObject p config}
    {chunk₀ chunk₁ chunk : Chunk} {datagrams : List (List UInt8)}
    (h₀ : real₀.Genuine chunk₀) (h₁ : real₁.Genuine chunk₁) (hf : forged₁.Genuine chunk)
    (hs₀ : chunk₀.Sendable) (hs₁ : chunk₁.Sendable) (hsf : chunk.Sendable)
    (hneed₀ : real₀.need = 1) (hneedf : forged₁.need = 1)
    (hne : forged₁.objectHash ≠ real₀.objectHash) (hsame : real₁.objectHash = forged₁.objectHash)
    (hsent : [chunk₀.toBytes, chunk.toBytes, chunk₁.toBytes] ⊆ datagrams) :
    ∃ c, Reach (RelayClient.next p) (Only datagrams) (RelayClient.Start config) c ∧
      c.journal = [(0, chunk₁), (0, chunk), (0, chunk₀)] ∧
      c.delivered = [forged₁.payload, real₀.payload] := by
  have hempty : (∅ : Table Bytes32 Nat).lookup real₀.objectHash = none := AList.lookup_empty _
  have hother : ((∅ : Table Bytes32 Nat).insert real₀.objectHash 0).lookup forged₁.objectHash
      = none := (AList.lookup_insert_ne hne).trans (AList.lookup_empty _)
  have hthere : (((∅ : Table Bytes32 Nat).insert real₀.objectHash 0).insert
      forged₁.objectHash 0).lookup real₁.objectHash = some 0 := by
    rw [hsame]
    exact AList.lookup_insert _
  have hstart : RelayClient.Start config (quiet config ∅ 0 [] []) := rfl
  refine ⟨_, (((Reach.init hstart).tail ?_
      (quiet_next hs₀ (by decide) (quiet_delivers h₀ hneed₀ hempty))).tail ?_
      (quiet_next hsf (by decide) (quiet_delivers hf hneedf hother))).tail ?_
      (quiet_next hs₁ (by decide) (quiet_ignores h₁ hthere)), rfl, rfl⟩
  · exact hsent List.mem_cons_self
  · exact hsent (List.mem_cons_of_mem _ List.mem_cons_self)
  · exact hsent (List.mem_cons_of_mem _ (List.mem_cons_of_mem _ List.mem_cons_self))

end Hidden

/-! ### A short block

It comes first, and a forged one of the same length after it. -/

def shortHash : Bytes32 := toBytes32 (List.replicate 32 5)

def shortSegment (rawBlock : List UInt8) : RawBlockSegment :=
  segmentOf repetition.hashes shortHash rawBlock 3 1 0

def shortChunks (segment : RawBlockSegment) : List Chunk :=
  ((Outgoing.rawBlockSegment false segment).chunks repetition repetitionEncode
    repetitionChunker).toOption.getD []

def shortDatagrams (segment : RawBlockSegment) : List (List UInt8) :=
  (sendChunks repetition repetitionConfig.authKey (shortChunks segment)).toOption.getD []

/-- The second chunk came in time, and a forged one after it. -/
def secondCame (c : RelayClient) : Bool :=
  (shortDatagrams (shortSegment [1, 2, 3]))[1]?.any (fun bytes =>
      (shortSegment [1, 2, 3]).CameInTime repetition repetitionConfig c bytes) &&
    c.journal.length = 2

theorem short_segment_delivered :
    ∃ c, Reach (RelayClient.next repetition)
        (Unforged repetition repetitionConfig [shortSegment [1, 2, 3]] shortDatagrams)
        (RelayClient.Start repetitionConfig) c ∧ c.journal.length = 2 ∧
      ∀ segment ∈ [shortSegment [1, 2, 3]], .rawBlockSegment segment ∈ c.delivered := by
  have hexec : (exec (RelayClient.next repetition)
      (fun c e => decide (Unforged repetition repetitionConfig [shortSegment [1, 2, 3]]
        shortDatagrams c e))
      ⟨repetitionConfig, 0, ∅, ∅, 0, [], []⟩
      [.datagram 1 ((shortDatagrams (shortSegment [1, 2, 3])).getD 1 []),
        .datagram 1 ((shortDatagrams (shortSegment [1, 2, 4])).getD 0 [])]).any secondCame
        = true := by
    decide +kernel
  have hstart : RelayClient.Start repetitionConfig ⟨repetitionConfig, 0, ∅, ∅, 0, [], []⟩ := rfl
  obtain ⟨c, hreach, hcame⟩ :=
    Reach.exists_of_exec _ (fun _ _ => of_decide_eq_true) _ hstart _ hexec
  rw [secondCame, Bool.and_eq_true, decide_eq_true_iff] at hcame
  obtain ⟨bytes, hbytes, htime⟩ := (Option.any_eq_true _ _).mp hcame.1
  have hconfig : repetitionConfig.validate = .ok () := by decide +kernel
  have hchunker : BlockChunker.new repetition repetitionEncode 1 1 = .ok repetitionChunker := rfl
  have hsplit : splitRawBlock repetition.hashes shortHash [1, 2, 3]
      (3 + RawBlockSegment.headerLen) = .ok [shortSegment [1, 2, 3]] :=
    splitRawBlock_single rfl (by decide)
  have hsent : ∀ segment ∈ [shortSegment [1, 2, 3]], ∃ chunks,
      (Outgoing.rawBlockSegment false segment).chunks repetition repetitionEncode
          repetitionChunker = .ok chunks ∧
        sendChunks repetition repetitionConfig.authKey chunks = .ok (shortDatagrams segment) := by
    intro segment hsegment
    rw [List.mem_singleton.mp hsegment]
    exact ⟨shortChunks (shortSegment [1, 2, 3]), by decide +kernel, by decide +kernel⟩
  refine ⟨c, hreach, hcame.2, segments_delivered hconfig hchunker hsplit
    (fun _ _ => repetition_codes rfl) hsent hreach fun segment hsegment => ?_⟩
  refine ⟨[1], List.nodup_singleton 1, Nat.le_refl 1, fun i hi => ?_⟩
  rw [List.mem_singleton.mp hi, List.mem_singleton.mp hsegment]
  exact ⟨bytes, hbytes, of_decide_eq_true htime⟩

/-! ### Two bodies of one block

There is one data shard, so a single chunk is enough. A body has two segments. -/

def bodiesHeader : List UInt8 := [4, 0, 0, 0] ++ List.replicate 1483 0xab

def realBlock : List UInt8 := bodiesHeader ++ [1, 1]

def forgedBlock : List UInt8 := bodiesHeader ++ [1, 2]

/-- The digests of the bodies, of the payloads of their segments and of what makes the ids of the
segments, told apart by their length and their last byte. -/
def bodiesDigests : List ((Nat × UInt8) × Bytes32) :=
  [((1489, 1), toBytes32 [0x26, 0xd8, 0x9f, 0xae, 0xa0, 0x4d, 0xb8, 0x79, 0x33, 0x6d, 0xfd, 0xb0,
     0x02, 0x88, 0xd9, 0x52, 0xcb, 0x92, 0xd8, 0x97, 0x13, 0x7b, 0x57, 0xc0, 0x48, 0xa6, 0x70,
     0x05, 0x6a, 0x10, 0xed, 0x2a]),
   ((1489, 2), toBytes32 [0x45, 0xab, 0xb8, 0x56, 0xac, 0x70, 0x30, 0x8d, 0x66, 0x3c, 0x07, 0x18,
     0xd0, 0xe9, 0x83, 0x7e, 0xdc, 0xd2, 0x07, 0x2f, 0xa3, 0x33, 0x08, 0xaa, 0xe5, 0x9b, 0x2d,
     0x2e, 0xb1, 0xf4, 0x18, 0x71]),
   ((1002, 0xab), toBytes32 [0xe6, 0x8c, 0x58, 0xe4, 0x37, 0x96, 0xdf, 0xd9, 0x19, 0x9e, 0x5a,
     0xeb, 0xdd, 0x22, 0x8e, 0xcd, 0x5a, 0xe9, 0xb1, 0x1f, 0x39, 0xa0, 0x06, 0xa6, 0x6c, 0x4a,
     0xc6, 0xd3, 0x56, 0xfd, 0x66, 0x48]),
   ((487, 1), toBytes32 [0x7e, 0x9d, 0x9c, 0xbe, 0xa6, 0x39, 0x90, 0x9f, 0x1e, 0x97, 0xdf, 0x72,
     0xcf, 0x3d, 0xff, 0xad, 0xc3, 0xd7, 0x49, 0x36, 0x3d, 0xe9, 0x9a, 0xdd, 0xd6, 0x97, 0x76,
     0x4a, 0xce, 0x89, 0xe6, 0x49]),
   ((487, 2), toBytes32 [0xcd, 0xd3, 0xc5, 0x25, 0x1f, 0x2e, 0xdc, 0x6d, 0xf2, 0xa7, 0xa8, 0xcd,
     0x05, 0x62, 0x46, 0xe0, 0x6c, 0xc8, 0x66, 0x8a, 0xaa, 0x3c, 0x81, 0x2f, 0x5c, 0xaf, 0x93,
     0xa6, 0x5e, 0x1e, 0xc3, 0xff]),
   ((60, 0), toBytes32 [0x58, 0xc1, 0x09, 0x96, 0x7e, 0x69, 0xb1, 0x7c, 0xfb, 0x7b, 0xbe, 0xfe,
     0xc8, 0x18, 0x5f, 0x04, 0x44, 0xea, 0x5b, 0x09, 0xfb, 0x14, 0xcd, 0xc2, 0x9f, 0xe6, 0xf5,
     0x6a, 0xfb, 0x1e, 0xe2, 0xa5]),
   ((60, 1), toBytes32 [0x03, 0xfd, 0x10, 0xfe, 0x6d, 0xa1, 0x0f, 0xaa, 0x86, 0xef, 0x61, 0xa3,
     0x60, 0x42, 0x02, 0x23, 0x76, 0x9f, 0xca, 0x51, 0xd5, 0x97, 0x28, 0x2f, 0xb7, 0x8d, 0x7a,
     0x33, 0xa0, 0x6b, 0x7c, 0x94])]

/-- The relay with the hashes of these bodies and of their header. -/
def bodiesPrimitives : Primitives :=
  { repetition with
    hashes :=
      { sha256 := fun data => (bodiesDigests.lookup (data.length, data.getLastD 0)).getD fun _ => 0
        blake2b := fun _ _ =>
          toBytes32 [0xd6, 0x10, 0x9f, 0x48, 0x98, 0x43, 0x11, 0x97, 0xef, 0xc9, 0xb8, 0x4f, 0x93,
            0x58, 0xee, 0x25, 0x0c, 0xc8, 0x2e, 0xd1, 0x6c, 0xff, 0xbc, 0x98, 0xb8, 0x88, 0xbe,
            0x12, 0x82, 0x7f, 0x89, 0xb7] } }

/-- Segment `index` of a body with this header. -/
def bodySegment (rawBlock : List UInt8) (index : Nat) : RawBlockSegment :=
  segmentOf bodiesPrimitives.hashes (zcashBlockHash bodiesPrimitives.hashes bodiesHeader) rawBlock
    1002 2 index

def bodyDatagrams (segment : RawBlockSegment) : List (List UInt8) :=
  (((Outgoing.rawBlockSegment false segment).chunks bodiesPrimitives repetitionEncode
    repetitionChunker).toOption.bind fun chunks =>
      (sendChunks bodiesPrimitives repetitionConfig.authKey chunks).toOption).getD []

theorem split_body (rawBlock : List UInt8) (h : rawBlock.length = 1489) :
    splitRawBlock bodiesPrimitives.hashes (zcashBlockHash bodiesPrimitives.hashes bodiesHeader)
        rawBlock (repetitionConfig.dataShards * maxPayloadSize - 4) =
      .ok [bodySegment rawBlock 0, bodySegment rawBlock 1] := by
  have hcount : max ((rawBlock.length + 1002 - 1) / 1002) 1 = 2 := by
    rw [h]
    rfl
  have hbudget : repetitionConfig.dataShards * maxPayloadSize - 4 =
      1002 + RawBlockSegment.headerLen := rfl
  rw [hbudget, splitRawBlock_of_count (by decide) hcount (by decide)]
  rfl

theorem objectHash_body (rawBlock : List UInt8) (index : Nat) :
    (Outgoing.rawBlockSegment false (bodySegment rawBlock index)).objectHash
        bodiesPrimitives.hashes =
      segmentObjectHash bodiesPrimitives.hashes
        (zcashBlockHash bodiesPrimitives.hashes bodiesHeader) (UInt16.ofNat index) := rfl

/-- A segment of a body is sent as an object, and each of its chunks is enough. -/
theorem sent_body (rawBlock : List UInt8) {index : Nat} (hindex : index < 2) :
    (∃ chunks, (Outgoing.rawBlockSegment false (bodySegment rawBlock index)).chunks
          bodiesPrimitives repetitionEncode repetitionChunker = .ok chunks ∧
        sendChunks bodiesPrimitives repetitionConfig.authKey chunks =
          .ok (bodyDatagrams (bodySegment rawBlock index))) ∧
      ∃ o : RelayObject bodiesPrimitives repetitionConfig,
        (Outgoing.rawBlockSegment false (bodySegment rawBlock index)).Sent o
          (bodyDatagrams (bodySegment rawBlock index)) := by
  have hconfig : repetitionConfig.validate = .ok () := by decide +kernel
  have hchunker : BlockChunker.new bodiesPrimitives repetitionEncode 1 1
      = .ok repetitionChunker := rfl
  have hlimits : (Outgoing.rawBlockSegment false (bodySegment rawBlock index)).WithinLimits
      bodiesPrimitives.hashes := segmentOf_accepted hindex (by decide)
  have hlen : (bodySegment rawBlock index).encode.length ≤
      repetitionConfig.dataShards * maxPayloadSize - 4 := by
    have hpayload : (bodySegment rawBlock index).payload.length ≤ 1002 := by
      rw [bodySegment, segmentOf, List.length_take]
      exact Nat.min_le_left _ _
    rw [RawBlockSegment.length_encode]
    exact Nat.add_le_add_left hpayload 118
  obtain ⟨chunks, hchunks⟩ : ∃ chunks,
      (Outgoing.rawBlockSegment false (bodySegment rawBlock index)).chunks bodiesPrimitives
        repetitionEncode repetitionChunker = .ok chunks :=
    chunks_of_split hconfig hchunker (repetition_codes rfl) hlen (by decide)
  obtain ⟨o, datagrams, hsend, hsent⟩ :=
    Outgoing.exists_object hconfig hchunker (repetition_codes rfl) hlimits hchunks
  have hdatagrams : bodyDatagrams (bodySegment rawBlock index) = datagrams := by
    simp only [bodyDatagrams, hchunks, Except.toOption, Option.bind_some, hsend, Option.getD_some]
  rw [hdatagrams]
  exact ⟨⟨chunks, hchunks, hsend⟩, o, hsent⟩

/-- **A forged segment hides the real one**: every segment of the real body comes in time, and
one of them is not delivered. -/
theorem forged_body_hides_real :
    realBlock ≠ forgedBlock ∧
      (∀ rawBlock ∈ [realBlock, forgedBlock],
        splitRawBlock bodiesPrimitives.hashes (zcashBlockHash bodiesPrimitives.hashes bodiesHeader)
            rawBlock (repetitionConfig.dataShards * maxPayloadSize - 4) =
          .ok [bodySegment rawBlock 0, bodySegment rawBlock 1] ∧
        ∀ segment ∈ [bodySegment rawBlock 0, bodySegment rawBlock 1], ∃ chunks,
          (Outgoing.rawBlockSegment false segment).chunks bodiesPrimitives repetitionEncode
              repetitionChunker = .ok chunks ∧
            sendChunks bodiesPrimitives repetitionConfig.authKey chunks =
              .ok (bodyDatagrams segment)) ∧
      ∃ c, Reach (RelayClient.next bodiesPrimitives)
          (Only ([bodySegment realBlock 0, bodySegment realBlock 1, bodySegment forgedBlock 0,
            bodySegment forgedBlock 1].flatMap bodyDatagrams))
          (RelayClient.Start repetitionConfig) c ∧
        (∀ segment ∈ [bodySegment realBlock 0, bodySegment realBlock 1],
          ∃ ids : List Nat, ids.Nodup ∧
            ((Outgoing.rawBlockSegment false segment).shape repetitionConfig).1 ≤ ids.length ∧
            ∀ i ∈ ids, ∃ bytes, (bodyDatagrams segment)[i]? = some bytes ∧
              segment.CameInTime bodiesPrimitives repetitionConfig c bytes) ∧
        .rawBlockSegment (bodySegment realBlock 1) ∉ c.delivered := by
  obtain ⟨-, real₀, hreal₀⟩ := sent_body realBlock (show 0 < 2 by decide)
  obtain ⟨-, real₁, hreal₁⟩ := sent_body realBlock (show 1 < 2 by decide)
  obtain ⟨-, forged₁, hforged₁⟩ := sent_body forgedBlock (show 1 < 2 by decide)
  obtain ⟨chunk₀, hget₀, hs₀, hg₀⟩ := hreal₀.first Nat.one_pos
  obtain ⟨chunk₁, hget₁, hs₁, hg₁⟩ := hreal₁.first Nat.one_pos
  obtain ⟨chunk, hget, hs, hg⟩ := hforged₁.first Nat.one_pos
  have hne : forged₁.objectHash ≠ real₀.objectHash := by
    rw [hforged₁.objectHash, hreal₀.objectHash, objectHash_body, objectHash_body]
    decide +kernel
  have hsame : real₁.objectHash = forged₁.objectHash := by
    rw [hforged₁.objectHash, hreal₁.objectHash, objectHash_body, objectHash_body]
  have hmem : ∀ segment bytes, (bodyDatagrams segment)[0]? = some bytes →
      segment ∈ [bodySegment realBlock 0, bodySegment realBlock 1, bodySegment forgedBlock 0,
        bodySegment forgedBlock 1] →
      bytes ∈ [bodySegment realBlock 0, bodySegment realBlock 1, bodySegment forgedBlock 0,
        bodySegment forgedBlock 1].flatMap bodyDatagrams :=
    fun segment bytes hget hsegment =>
      List.mem_flatMap.mpr ⟨segment, hsegment, List.mem_of_getElem? hget⟩
  have hsent : [chunk₀.toBytes, chunk.toBytes, chunk₁.toBytes] ⊆
      [bodySegment realBlock 0, bodySegment realBlock 1, bodySegment forgedBlock 0,
        bodySegment forgedBlock 1].flatMap bodyDatagrams := by
    intro bytes hbytes
    simp only [List.mem_cons, List.not_mem_nil, or_false] at hbytes
    rcases hbytes with rfl | rfl | rfl
    · exact hmem _ _ hget₀ List.mem_cons_self
    · exact hmem _ _ hget (by simp)
    · exact hmem _ _ hget₁ (by simp)
  obtain ⟨c, hreach, hjournal, hdelivered⟩ :=
    hidden_of_forged_first hg₀ hg₁ hg hs₀ hs₁ hs hreal₀.need hforged₁.need hne hsame hsent
  -- all chunks came at the same time
  have hcame : ∀ segment bytes, (bodyDatagrams segment)[0]? = some bytes →
      (∃ a ∈ c.journal, Chunk.fromBytes bytes = .ok a.2) →
      ∃ ids : List Nat, ids.Nodup ∧
        ((Outgoing.rawBlockSegment false segment).shape repetitionConfig).1 ≤ ids.length ∧
        ∀ i ∈ ids, ∃ bytes, (bodyDatagrams segment)[i]? = some bytes ∧
          segment.CameInTime bodiesPrimitives repetitionConfig c bytes := by
    rintro segment bytes hget ⟨a, ha, hparse⟩
    have htimes : ∀ b ∈ c.journal, b.1 = 0 := by
      rw [hjournal]
      simp
    refine ⟨[0], List.nodup_singleton 0, Nat.le_refl 1, fun i hi => ?_⟩
    rw [List.mem_singleton.mp hi]
    exact ⟨bytes, hget, a, ha, hparse, fun b _ _ => by rw [htimes a ha]; exact Nat.zero_le _⟩
  refine ⟨by decide +kernel, fun rawBlock hraw => ⟨split_body rawBlock ?_, ?_⟩, c, hreach, ?_, ?_⟩
  · simp only [List.mem_cons, List.not_mem_nil, or_false] at hraw
    rcases hraw with rfl | rfl <;> decide +kernel
  · intro segment hsegment
    simp only [List.mem_cons, List.not_mem_nil, or_false] at hsegment
    rcases hsegment with rfl | rfl
    · exact (sent_body rawBlock (by decide)).1
    · exact (sent_body rawBlock (by decide)).1
  · intro segment hsegment
    simp only [List.mem_cons, List.not_mem_nil, or_false] at hsegment
    rcases hsegment with rfl | rfl
    · exact hcame _ _ hget₀ ⟨(0, chunk₀), by rw [hjournal]; simp, hs₀.framed.fromBytes_toBytes⟩
    · exact hcame _ _ hget₁ ⟨(0, chunk₁), by rw [hjournal]; simp, hs₁.framed.fromBytes_toBytes⟩
  · rw [hdelivered, hforged₁.payload, hreal₀.payload]
    show RelayPayload.rawBlockSegment _ ∉ [.rawBlockSegment _, .rawBlockSegment _]
    simp only [List.mem_cons, RelayPayload.rawBlockSegment.injEq, List.not_mem_nil, or_false]
    decide +kernel

end MiningInfra.Relay
