import MiningInfra.Relay.Forward

/-!
# Under which name an object goes out

An object travels under an id that is derived from its block: the hash of the block or a hash of
it in a domain of its own. Receivers key their assemblies and what they have delivered by that id.
The node compares the id with the contents in one place only, when a raw segment is judged. A
compact block or a skeleton is let through on its header alone, and a later segment that failed
this check is let through a moment later by the refresh, which does not make it.
-/

namespace MiningInfra.Relay

open Lib Coinbase

section Spec

variable (p : Primitives) (config : RelayConfig)

/-- The id of an assembly belongs to what the assembly decodes to. Of a segment zero this is not
asked: the node checks it. -/
def Named (a : BlockAssembly) : Prop :=
  match a.msgType with
  | .block => ∀ header ∈ decodeHeaderFromAssembly p config a,
      a.blockHash = zcashBlockHash p.hashes header ∨
        a.blockHash = compactV3ObjectHash p.hashes (zcashBlockHash p.hashes header)
  | .compactSkeleton => ∀ header ∈ decodeHeaderFromAssembly p config a,
      a.blockHash = skeletonObjectHash p.hashes (zcashBlockHash p.hashes header)
  | .rawBlockSegment => ∀ segment ∈ decodeRawSegmentFromAssembly p config a,
      segment.segmentIndex ≠ 0 →
      a.blockHash = segmentObjectHash p.hashes segment.blockHash segment.segmentIndex
  | .keepalive | .auth => True

/-- The objects the node holds after the step are under their own names. -/
def SendersName (w : World) (e : Event) : Prop :=
  ∀ w', w.next p e = some w' → ∀ src session, w'.sessions.lookup src = some session →
    ∀ h a, session.pendingBlocks.lookup h = some a → Named p config a

/-- The block an object goes out for is the block of its contents: the source had sent an object
of that type and under that id which decoded to a header with a valid proof of work, and the id
belongs to the hash of that header; or it decoded to a segment the id belongs to, and a segment
zero came with a header that has a valid proof of work and hashes to the same block. -/
def Identified (journal : List Entry) (src : SocketAddr) (ready : ReadyChunks) : Prop :=
  ∃ a, Entry.promoted src a ∈ journal ∧ a.blockHash = ready.blockHash ∧ a.msgType = ready.msgType ∧
    match ready.msgType with
    | .block => ∃ header, decodeHeaderFromAssembly p config a = some header ∧
        p.validate header = .valid ∧
        (ready.blockHash = zcashBlockHash p.hashes header ∨
          ready.blockHash = compactV3ObjectHash p.hashes (zcashBlockHash p.hashes header))
    | .compactSkeleton => ∃ header, decodeHeaderFromAssembly p config a = some header ∧
        p.validate header = .valid ∧
        ready.blockHash = skeletonObjectHash p.hashes (zcashBlockHash p.hashes header)
    | .rawBlockSegment => ∃ segment, decodeRawSegmentFromAssembly p config a = some segment ∧
        ready.blockHash = segmentObjectHash p.hashes segment.blockHash segment.segmentIndex ∧
        ∃ src' z zero, Entry.promoted src' z ∈ journal ∧
          decodeRawSegmentFromAssembly p config z = some zero ∧ zero.segmentIndex = 0 ∧
          p.validate (zero.payload.take zcashFullHeaderSize) = .valid ∧
          zcashBlockHash p.hashes (zero.payload.take zcashFullHeaderSize) = segment.blockHash
    | .keepalive | .auth => False

instance (a : BlockAssembly) : Decidable (Named p config a) := by
  unfold Named
  split <;> infer_instance

end Spec

variable {p : Primitives} {config : RelayConfig}

/-! ## What is let through is held -/

variable {w : World} {e : Event} {src : SocketAddr} {ready : ReadyChunks}

/-- An object that is let through is one of the session of its source after the step. -/
theorem promoted_next {w' : World} (h : w.next p e = some w') {a : BlockAssembly}
    (hmem : Entry.promoted src a ∈ w'.journal) :
    Entry.promoted src a ∈ w.journal ∨ ∃ session, w'.sessions.lookup src = some session ∧
      ∃ k, session.pendingBlocks.lookup k = some a := by
  have greeted : ∀ {src' : SocketAddr} {verify : Bytes32 → Bool} {w₁ : World}
      {session : RelaySession}, World.Authenticated w src' verify w₁ session →
      Entry.promoted src a ∈ w₁.journal → Entry.promoted src a ∈ w.journal := by
    intro src' verify w₁ session hknown hmem
    cases hknown with
    | known | unkeyed => exact hmem
    | keyed =>
      rcases List.mem_cons.mp hmem with heq | hmem
      · cases heq
      · exact hmem
  cases World.Step.of_next h with
  | elapse | refused | swapKeys | evict | cleanup => exact Or.inl hmem
  | @packet _ src' _ _ _ hhandled =>
    cases hhandled with
    | kept hknown => exact Or.inl (greeted hknown hmem)
    | @delivered chunk isData w₁ session hknown =>
      rcases List.mem_append.mp hmem with hmem | hmem
      · obtain ⟨a', ha', heq⟩ := List.mem_map.mp hmem
        injection heq with hsrc heq
        subst hsrc heq
        obtain ⟨k, hlookup, -⟩ := mem_promotions.mp ha'
        exact Or.inr ⟨_, AList.lookup_insert _, k, hlookup⟩
      · rcases List.mem_cons.mp hmem with heq | hmem
        · cases heq
        · exact Or.inl (greeted hknown hmem)
  | forward =>
    rcases List.mem_cons.mp hmem with heq | hmem
    · cases heq
    · exact Or.inl hmem

/-- Senders that name what they send. -/
theorem named_of_reach (h : Reach (World.next p) (SendersName p config) (World.Start p config) w) :
    ∀ src a, Entry.promoted src a ∈ w.journal → Named p config a := by
  refine h.invariant (I := fun w => ∀ src a, Entry.promoted src a ∈ w.journal → Named p config a)
    ?_ ?_
  · intro w hstart src a hmem
    rw [hstart.eq] at hmem
    cases hmem
  · intro w e w' hw hname hnext src a hmem
    rcases promoted_next hnext hmem with hold | ⟨session, hlookup, k, ha⟩
    · exact hw src a hold
    · exact hname w' hnext src session hlookup k a ha

/-- **Under its own name.** As long as the objects the node is sent are under their own names, so
is every object it forwards. -/
theorem forwarded_objects_identified (hauth : config.authRequired = true) {w : World}
    (hw : Reach (World.next p) (SendersName p config) (World.Start p config) w)
    {later earlier : List Entry} {src : SocketAddr} {ready : ReadyChunks}
    {outbound : List (SocketAddr × List (List UInt8))}
    (hjournal : w.journal = later ++ .forwarded src ready outbound :: earlier) :
    Identified p config earlier src ready := by
  have hnamed := named_of_reach hw
  have hsound := (forwardInv_reach hauth (hw.mono fun _ _ _ => trivial)).sound
  rw [hjournal] at hnamed hsound
  obtain ⟨hvouched, -⟩ := hsound.holds
  obtain ⟨a, hmem, hhash, hmsg, hpass⟩ := hvouched.letThrough
  have ha : Named p config a :=
    hnamed src a (List.mem_append_right _ (List.mem_cons_of_mem _ hmem))
  refine ⟨a, hmem, hhash, hmsg, ?_⟩
  rw [← hhash, ← hmsg]
  unfold Named at ha
  cases hpass with
  | @compact header hraw hheader hpow =>
    split at ha
    · exact ⟨header, hheader, hpow, ha header hheader⟩
    · exact ⟨header, hheader, hpow, ha header hheader⟩
    · rename_i hmsg'; exact absurd hmsg' hraw
    · rename_i hmsg'; exact absurd a.isData (by simp [hmsg', MessageType.isData])
    · rename_i hmsg'; exact absurd a.isData (by simp [hmsg', MessageType.isData])
  | @zero segment hzero =>
    rw [hzero.msgType]
    refine ⟨segment, hzero.decoded, hzero.named.symm, src, a, segment, hmem, hzero.decoded,
      hzero.index, hzero.pow, hzero.hash⟩
  | @later segment hraw hdecoded hindex hannounced =>
    rw [hraw] at ha ⊢
    obtain ⟨src', z, zero, hmem', hzero, hsame, -⟩ := hannounced
    exact ⟨segment, hdecoded, ha segment hdecoded hindex, src', z, zero, hmem', hzero.decoded,
      hzero.index, hzero.pow, hzero.hash.trans hsame⟩

/-! ## Objects under their own id -/

/-- Are the objects the node holds after the step under their own names? -/
def sendersName (p : Primitives) (config : RelayConfig) (w : World) (e : Event) : Bool :=
  (w.next p e).all fun w' => w'.sessions.entries.all fun s =>
    s.2.pendingBlocks.entries.all fun o => decide (Named p config o.2)

theorem SendersName.of_test (h : sendersName p config w e = true) : SendersName p config w e := by
  intro w' hnext src session hsession k a ha
  rw [sendersName, hnext, Option.all_some, List.all_eq_true] at h
  have h := h ⟨src, session⟩ (Table.mem_entries.mpr hsession)
  rw [List.all_eq_true] at h
  exact of_decide_eq_true (h ⟨k, a⟩ (Table.mem_entries.mpr ha))

theorem short_object_identified :
    ∃ w, Reach (World.next shortPrimitives) (SendersName shortPrimitives shortConfig)
        (World.Start shortPrimitives shortConfig) w ∧
      ∃ src ready outbound earlier, w.journal = [] ++ .forwarded src ready outbound :: earlier ∧
        Identified shortPrimitives shortConfig earlier src ready := by
  have hrun : (exec (World.next shortPrimitives) (sendersName shortPrimitives shortConfig) shortStart
      shortRun).any justSent = true := by decide +kernel
  obtain ⟨w, hw, htest⟩ := Reach.exists_of_exec _ (fun _ _ h => SendersName.of_test h) _
    start_shortStart _ hrun
  unfold justSent at htest
  split at htest
  · rename_i src ready peer sent rest others earlier hjournal
    have hsplit : w.journal = [] ++ .forwarded src ready _ :: earlier := hjournal
    exact ⟨w, hw, src, ready, _, earlier, hsplit, forwarded_objects_identified rfl hw hsplit⟩
  · cases htest

/-! ## Objects under the id of another block -/

/-- An object of this type went out that is not the one of its id. -/
def ForwardsMisnamed (p : Primitives) (config : RelayConfig) (w : World) (msgType : MessageType) :
    Prop :=
  ∃ later src ready outbound earlier,
    w.journal = later ++ .forwarded src ready outbound :: earlier ∧ ready.msgType = msgType ∧
      ¬ Identified p config earlier src ready

theorem Identified.named {journal : List Entry} (h : Identified p config journal src ready) :
    ∃ a, Entry.promoted src a ∈ journal ∧ a.blockHash = ready.blockHash ∧ Named p config a := by
  obtain ⟨a, hmem, hhash, hmsg, hcase⟩ := h
  refine ⟨a, hmem, hhash, ?_⟩
  rw [← hhash, ← hmsg] at hcase
  unfold Named
  split at hcase
  · obtain ⟨header, hheader, -, hid⟩ := hcase
    rintro header' hheader'
    obtain rfl := Option.some.inj (hheader.symm.trans hheader')
    exact hid
  · obtain ⟨header, hheader, -, hid⟩ := hcase
    rintro header' hheader'
    obtain rfl := Option.some.inj (hheader.symm.trans hheader')
    exact hid
  · obtain ⟨segment, hsegment, hid, -⟩ := hcase
    rintro segment' hsegment' -
    obtain rfl := Option.some.inj (hsegment.symm.trans hsegment')
    exact hid
  · exact hcase.elim
  · exact hcase.elim

/-- What was forwarded, each with the journal before it. -/
def forwards : List Entry → List (SocketAddr × ReadyChunks × List Entry)
  | [] => []
  | .forwarded src ready _ :: earlier => (src, ready, earlier) :: forwards earlier
  | _ :: earlier => forwards earlier

theorem mem_forwards {earlier : List Entry} :
    ∀ {journal : List Entry}, (src, ready, earlier) ∈ forwards journal →
      ∃ later outbound, journal = later ++ .forwarded src ready outbound :: earlier
  | [], h => absurd h (by simp [forwards])
  | e :: journal, h => by
    have skip : (src, ready, earlier) ∈ forwards journal →
        ∃ later outbound, e :: journal = later ++ .forwarded src ready outbound :: earlier := by
      intro h
      obtain ⟨later, outbound, heq⟩ := mem_forwards h
      exact ⟨e :: later, outbound, congrArg (e :: ·) heq⟩
    cases e with
    | admitted | received | promoted => exact skip h
    | forwarded src' ready' outbound' =>
      rcases List.mem_cons.mp h with heq | h
      · injection heq with hsrc heq
        injection heq with hready hearlier
        subst hsrc hready hearlier
        exact ⟨[], outbound', rfl⟩
      · exact skip h

/-- Was an object of this type forwarded of which no assembly of that id has its own name? -/
def forwardsMisnamed (p : Primitives) (config : RelayConfig) (msgType : MessageType) (w : World) :
    Bool :=
  (forwards w.journal).any fun (src, ready, earlier) =>
    ready.msgType = msgType ∧ earlier.all fun
      | .promoted src' a => !decide (src' = src ∧ a.blockHash = ready.blockHash ∧ Named p config a)
      | _ => true

theorem ForwardsMisnamed.of_test {msgType : MessageType}
    (h : forwardsMisnamed p config msgType w = true) : ForwardsMisnamed p config w msgType := by
  obtain ⟨⟨src, ready, earlier⟩, hmem, h⟩ := List.any_eq_true.mp h
  obtain ⟨hmsg, hall⟩ := of_decide_eq_true h
  obtain ⟨later, outbound, heq⟩ := mem_forwards hmem
  refine ⟨later, src, ready, outbound, earlier, heq, hmsg, fun hid => ?_⟩
  obtain ⟨a, ha, hhash, hnamed⟩ := hid.named
  have hnot := List.all_eq_true.mp hall _ ha
  simp [hhash, hnamed] at hnot

/-- A header of full size that the validator accepts. -/
def longHeader : List UInt8 := shortHeader ++ List.replicate 1483 0xab

/-- What follows it in its block. -/
def longRest : List UInt8 := List.replicate 10 0xcd

def longHeaderHash : Bytes32 :=
  toBytes32 [0xd6, 0x10, 0x9f, 0x48, 0x98, 0x43, 0x11, 0x97, 0xef, 0xc9, 0xb8, 0x4f, 0x93, 0x58,
    0xee, 0x25, 0x0c, 0xc8, 0x2e, 0xd1, 0x6c, 0xff, 0xbc, 0x98, 0xb8, 0x88, 0xbe, 0x12, 0x82,
    0x7f, 0x89, 0xb7]

def longBlockDigest : Bytes32 :=
  toBytes32 [0x0b, 0xb8, 0x4a, 0x75, 0x92, 0xdb, 0x98, 0x0f, 0xb9, 0x7c, 0x5c, 0x32, 0x92, 0x60,
    0x73, 0xbf, 0x8d, 0xf9, 0x64, 0x94, 0xa3, 0x47, 0x89, 0xc5, 0x0d, 0xbe, 0xf0, 0xa2, 0x76,
    0x28, 0xca, 0x3f]

def longHeaderDigest : Bytes32 :=
  toBytes32 [0xe2, 0x3e, 0x5a, 0x58, 0x84, 0x66, 0x01, 0x28, 0x00, 0x91, 0xb2, 0x46, 0x9d, 0x50,
    0xae, 0xdd, 0xc3, 0xcb, 0xb8, 0xad, 0x4c, 0xd5, 0x25, 0xd3, 0x90, 0x09, 0x57, 0x5f, 0xc7,
    0x1a, 0x7a, 0xfe]

def longRestDigest : Bytes32 :=
  toBytes32 [0xf3, 0xa7, 0x50, 0x97, 0x0a, 0x12, 0xbb, 0xde, 0xbd, 0x71, 0xcd, 0x0c, 0xb0, 0x05,
    0x35, 0xb3, 0x2d, 0xee, 0xa9, 0x57, 0x04, 0xa8, 0xa3, 0xa0, 0x85, 0x00, 0x81, 0x6b, 0x00,
    0xc6, 0x7e, 0x5c]

/-- The object id of the segment with the header. -/
def longZeroId : Bytes32 :=
  toBytes32 [0x58, 0xc1, 0x09, 0x96, 0x7e, 0x69, 0xb1, 0x7c, 0xfb, 0x7b, 0xbe, 0xfe, 0xc8, 0x18,
    0x5f, 0x04, 0x44, 0xea, 0x5b, 0x09, 0xfb, 0x14, 0xcd, 0xc2, 0x9f, 0xe6, 0xf5, 0x6a, 0xfb,
    0x1e, 0xe2, 0xa5]

/-- That of the other one. -/
def longRestId : Bytes32 :=
  toBytes32 [0x03, 0xfd, 0x10, 0xfe, 0x6d, 0xa1, 0x0f, 0xaa, 0x86, 0xef, 0x61, 0xa3, 0x60, 0x42,
    0x02, 0x23, 0x76, 0x9f, 0xca, 0x51, 0xd5, 0x97, 0x28, 0x2f, 0xb7, 0x8d, 0x7a, 0x33, 0xa0,
    0x6b, 0x7c, 0x94]

/-- The id of the adaptive compact block of the short header. -/
def shortCompactV3Id : Bytes32 :=
  toBytes32 [0x64, 0xd8, 0xec, 0xa3, 0xb8, 0x05, 0x93, 0x2f, 0x79, 0x55, 0x86, 0x67, 0x4d, 0x4b,
    0x34, 0x9d, 0xed, 0xb2, 0xba, 0xee, 0x1d, 0xf4, 0x7d, 0x46, 0xef, 0x0b, 0xf1, 0x27, 0x93,
    0x08, 0xc6, 0x35]

def longZero : RawBlockSegment :=
  ⟨longHeaderHash, 0, 2, 1497, longBlockDigest, longHeaderDigest, longHeader⟩

def longLater : RawBlockSegment :=
  ⟨longHeaderHash, 1, 2, 1497, longBlockDigest, longRestDigest, longRest⟩

/-- One of the two data shards of an object. -/
def halfOf (content : List UInt8) (i : Nat) : List UInt8 :=
  let data := wrapLenPrefixed content
  let size := (data.length + 1) / 2
  (slice data (i * size) size).rightpad size 0

/-- A chunk of an object of two data and one parity shard. -/
def halfChunk (msgType : MessageType) (id : Bytes32) (content : List UInt8) (i : Nat)
    (mac : Bytes32) : Chunk :=
  let payload := halfOf content i
  ⟨.newAuthenticated msgType id (UInt16.ofNat i) 3 (UInt16.ofNat payload.length) mac, payload⟩

def zeroChunks : List Chunk :=
  [halfChunk .rawBlockSegment longZeroId longZero.encode 0
      (toBytes32 [0xa5, 0xa9, 0x98, 0x63, 0x1d, 0xab, 0xeb, 0x09, 0x04, 0xb0, 0x10, 0x2c, 0x30,
        0xd0, 0x20, 0xf5, 0xf8, 0x63, 0x58, 0xf4, 0x41, 0xd6, 0xf4, 0x1d, 0xdc, 0x8f, 0x76, 0xb1,
        0xb5, 0x0b, 0x37, 0xc2]),
    halfChunk .rawBlockSegment longZeroId longZero.encode 1
      (toBytes32 [0x44, 0x02, 0x35, 0x6f, 0xd0, 0xe5, 0x56, 0x26, 0x21, 0x7b, 0x4b, 0xbf, 0x20,
        0x9d, 0xb6, 0x74, 0xdc, 0xea, 0x98, 0x47, 0xf5, 0x7f, 0x47, 0x0f, 0xee, 0xeb, 0x12, 0x01,
        0x98, 0x9b, 0xfb, 0x17])]

/-- The id is not the one of the segment. -/
def misnamedLaterChunks : List Chunk :=
  [halfChunk .rawBlockSegment (toBytes32 (List.replicate 32 0x11)) longLater.encode 0
      (toBytes32 [0xc0, 0x28, 0xd0, 0x0c, 0x99, 0xc3, 0x5c, 0x8e, 0xa1, 0x45, 0x01, 0xb1, 0x25,
        0x2d, 0xac, 0x24, 0x27, 0xf9, 0xff, 0x04, 0x0f, 0xc7, 0x8b, 0x91, 0x85, 0x60, 0xc0, 0x66,
        0x0d, 0xd4, 0xb5, 0x1f]),
    halfChunk .rawBlockSegment (toBytes32 (List.replicate 32 0x11)) longLater.encode 1
      (toBytes32 [0xb3, 0x26, 0xf7, 0x94, 0x03, 0x3e, 0xe0, 0x41, 0x84, 0xc1, 0xb4, 0xdd, 0x52,
        0x2a, 0x87, 0x5a, 0xd7, 0x16, 0xd9, 0x9b, 0x37, 0xae, 0x51, 0x56, 0x4d, 0xb6, 0xaa, 0x23,
        0x07, 0xcf, 0x57, 0x40])]

/-- The id is not the one of the compact block. -/
def misnamedCompactChunks : List Chunk :=
  [halfChunk .block (toBytes32 (List.replicate 32 0x22)) (shortCompact.drop 4) 0
      (toBytes32 [0x4d, 0x83, 0xbc, 0x44, 0x4e, 0x6c, 0xc6, 0xc3, 0xc3, 0x97, 0xc3, 0xc1, 0x98,
        0x92, 0x1f, 0x04, 0xd5, 0x4c, 0x7e, 0x3d, 0x97, 0xfa, 0xf8, 0x85, 0xbf, 0xa1, 0x96, 0xb4,
        0x23, 0xcb, 0x0b, 0x75]),
    halfChunk .block (toBytes32 (List.replicate 32 0x22)) (shortCompact.drop 4) 1
      (toBytes32 [0x68, 0xd5, 0x00, 0xa3, 0x0d, 0xc8, 0xdb, 0xca, 0x8b, 0xb8, 0x73, 0xcd, 0x1f,
        0x9f, 0xb1, 0x68, 0xe2, 0x6f, 0x1c, 0x37, 0xae, 0x33, 0xef, 0xc6, 0x75, 0x7e, 0xda, 0xad,
        0xa3, 0x5e, 0x68, 0xd8])]

/-- The HMACs of these chunks under this key. -/
def macsOf (key : AuthKey) (chunks : List Chunk) : List ((Bytes32 × List UInt8) × Bytes32) :=
  chunks.map fun c => ((key.key, c.header.blockHash.toList ++ u16BeBytes c.header.chunkId
    ++ u16BeBytes c.header.totalChunks ++ u16BeBytes c.header.payloadLen ++ c.payload),
    c.header.hmac)

/-- The data shards all come, so nothing has to be reconstructed. An HMAC that no one checks is
left at zero. -/
def longPrimitives (macs : List ((Bytes32 × List UInt8) × Bytes32)) : Primitives where
  hashes := .ofTables
    [(longHeader, longHeaderDigest), (longRest, longRestDigest),
      (longHeader ++ longRest, longBlockDigest),
      (segmentDomain ++ longHeaderHash.toList ++ [0, 0], longZeroId),
      (segmentDomain ++ longHeaderHash.toList ++ [0, 1], longRestId),
      (compactV3Domain ++ shortHeaderHash.toList, shortCompactV3Id)]
    [((blockHashPersonalization, longHeader), longHeaderHash),
      ((blockHashPersonalization, shortHeader), shortHeaderHash)]
  hmacSha256 key message :=
    ((((peerKey.key, keepaliveMessage), peerKeepaliveMac) :: macs).lookup (key, message)).getD
      fun _ => 0
  reedSolomon _ _ := .ok .ok
  validate := shortPrimitives.validate

def longConfig : RelayConfig := { shortConfig with dataShards := 2 }

def longStart : World := ⟨longConfig, 0, [fleetKey, peerKey], ∅, ∅, [], ∅, []⟩

def packetsFrom (src : SocketAddr) (chunks : List Chunk) : List Event :=
  chunks.map fun c => .packet c.toBytes src true

def misnamedPrimitives : Primitives :=
  longPrimitives (macsOf fleetKey (zeroChunks ++ misnamedLaterChunks ++ misnamedCompactChunks))

theorem start_longStart : World.Start misnamedPrimitives longConfig longStart := rfl

/-- A raw segment goes out under the id of another one, and a compact block under the id of another
block. -/
theorem misnamed_objects_forwarded :
    ∃ w, Reach (World.next misnamedPrimitives) Any (World.Start misnamedPrimitives longConfig) w ∧
      ForwardsMisnamed misnamedPrimitives longConfig w .rawBlockSegment ∧
      ForwardsMisnamed misnamedPrimitives longConfig w .block := by
  have hrun : (exec (World.next misnamedPrimitives) (fun _ _ => true) longStart
      (.packet (keepalivePacket peerKeepaliveMac) peerAddr true ::
        packetsFrom fleetAddr zeroChunks ++ [.forward]
          ++ packetsFrom fleetAddr misnamedLaterChunks ++ [.forward]
          ++ packetsFrom fleetAddr misnamedCompactChunks ++ [.forward])).any (fun w =>
      forwardsMisnamed misnamedPrimitives longConfig .rawBlockSegment w &&
        forwardsMisnamed misnamedPrimitives longConfig .block w) = true := by decide +kernel
  obtain ⟨w, hw, htest⟩ := Reach.any_of_exec _ start_longStart _ hrun
  rw [Bool.and_eq_true] at htest
  exact ⟨w, hw, .of_test htest.1, .of_test htest.2⟩

end MiningInfra.Relay
