import MiningInfra.Relay.Client

/-!
# Objects the client collects

A relay object is a codeword with the header fields its chunks share. As long as every
authenticated chunk that comes under its id is one of its own, the client delivers it as soon as
enough different chunks have come within the timeout of its assembly, whatever else comes.

`Waiting` is the state of the object before that: it says which chunks the assembly has while it
lasts, and that too few have come in time. One step keeps it or delivers (`CollectInv.next`).
-/

namespace MiningInfra.Relay

open Lib Coinbase

/-- How many shards are enough. -/
def ClientConfig.need (config : ClientConfig) (dataShards : UInt16) : Nat :=
  if 0 < dataShards then dataShards.toNat else config.dataShards

/-- An object in shards, as its receiver sees it. -/
structure RelayObject (p : Primitives) (config : ClientConfig) where
  objectHash : Bytes32
  msgType : MessageType
  total : UInt16
  /-- Zero in version 2. -/
  dataShards : UInt16
  codeword : List (List UInt8)
  /-- The size of a shard. -/
  size : Nat
  payload : RelayPayload
  isData : msgType.isData = true
  total_le : total ≤ maxTotalChunks
  profile : dataShards = 0 → total.toNat = config.dataShards + config.parityShards
  length_codeword : codeword.length = total.toNat
  uniform : ∀ shard ∈ codeword, shard.length = size
  size_pos : 0 < size
  need_pos : 0 < config.need dataShards
  /-- Enough shards decode, with the length estimated from one of them. -/
  decodes : ∀ received, Survives codeword received →
    config.need dataShards ≤ (received.filter Option.isSome).length →
    decodePayload p msgType received (size * config.need dataShards) (config.need dataShards)
      = some payload

namespace RelayObject

variable {p : Primitives} {config : ClientConfig}

def need (o : RelayObject p config) : Nat := config.need o.dataShards

/-- An authenticated chunk of this object. -/
structure Genuine (o : RelayObject p config) (chunk : Chunk) : Prop where
  objectHash : chunk.header.blockHash = o.objectHash
  msgType : chunk.header.msgType = o.msgType
  total : chunk.header.totalChunks = o.total
  dataShards : chunk.header.dataShards = o.dataShards
  version : o.dataShards ≠ 0 → chunk.header.version = 3
  authentic : verifyDataChunkHmac p config.authKey chunk = true
  payload : o.codeword[chunk.header.chunkId.toNat]? = some chunk.payload

/-- The assembly of the object holds shards of it, and not enough of them. -/
structure Holds (o : RelayObject p config) (entry : BlockAssembly × Nat) : Prop where
  total : entry.1.totalChunks = o.total.toNat
  msgType : entry.1.msgType = o.msgType
  dataShards : entry.1.dataShards = o.dataShards
  survives : Survives o.codeword entry.1.chunks
  originalLen : entry.2 = o.size * o.need
  few : entry.1.receivedCount < o.need

/-- A chunk that is authenticated under the id of the object is one of its own, and there is room
for its assembly. -/
def Undisturbed (o : RelayObject p config) (c : RelayClient) : ClientEvent → Prop
  | .datagram _ bytes => ∀ chunk, Chunk.fromBytes (bytes.take recvBufSize) = .ok chunk →
      chunk.header.blockHash = o.objectHash → verifyDataChunkHmac p config.authKey chunk = true →
      o.Genuine chunk ∧
        ((c.pending.lookup o.objectHash).isSome = true ∨
          c.pending.entries.length < maxPendingBlocksClient)
  | .other _ => True

/-! ## One chunk -/

variable {o : RelayObject p config} {chunk : Chunk} {c : RelayClient} {entry : BlockAssembly × Nat}

theorem Genuine.chunkId_lt (h : o.Genuine chunk) : chunk.header.chunkId.toNat < o.total.toNat := by
  rw [← o.length_codeword]
  exact (List.getElem?_eq_some_iff.mp h.payload).1

/-- What adding a chunk of the object to its assembly comes to. -/
inductive Added (o : RelayObject p config) (c : RelayClient) (chunk : Chunk)
    (assembly : BlockAssembly) : RelayClient → Prop where
  /-- The assembly has the chunk. -/
  | kept {entry : BlockAssembly × Nat} (holds : o.Holds entry)
      (startedAt : entry.1.startedAt = assembly.startedAt)
      (grows : ∀ i, (assembly.chunk i).isSome = true → (entry.1.chunk i).isSome = true)
      (has : (entry.1.chunk chunk.header.chunkId.toNat).isSome = true) :
      Added o c chunk assembly { c with pending := c.pending.insert o.objectHash entry }
  | delivered : Added o c chunk assembly
      { c with
        delivered := o.payload :: c.delivered
        recentDelivered := c.recentDelivered.insert o.objectHash c.now
        pending := c.pending.erase o.objectHash }

/-- A chunk the assembly has already. -/
theorem Holds.addChunk_duplicate (hholds : o.Holds entry) (hgenuine : o.Genuine chunk)
    (hdup : (entry.1.chunk chunk.header.chunkId.toNat).isSome = true) :
    o.Added c chunk entry.1 (c.addChunk p chunk entry) := by
  have hcapture : entry.1.captureDataShards chunk.header.dataShards = some entry.1 := by
    rw [hgenuine.dataShards, BlockAssembly.captureDataShards, hholds.dataShards]
    split
    · rfl
    · rw [if_neg (by simp)]
  have hmeta : ¬ (entry.1.totalChunks ≠ chunk.header.totalChunks.toNat ∨
      entry.1.msgType ≠ chunk.header.msgType) := by
    rw [hholds.total, hholds.msgType, hgenuine.total, hgenuine.msgType]
    simp
  rw [RelayClient.addChunk]
  rw [if_neg hmeta, hcapture]
  dsimp only
  rw [if_pos hdup, hgenuine.objectHash]
  exact .kept hholds rfl (fun _ h => h) hdup

/-- An assembly takes over the number of data shards from the chunk, or has it already. -/
theorem captureDataShards_spec {a : BlockAssembly}
    (h : a.dataShards = 0 ∨ a.dataShards = o.dataShards) :
    ∃ a', a.captureDataShards o.dataShards = some a' ∧ a'.dataShards = o.dataShards ∧
      a'.totalChunks = a.totalChunks ∧ a'.msgType = a.msgType ∧ a'.chunks = a.chunks ∧
      a'.startedAt = a.startedAt := by
  rw [BlockAssembly.captureDataShards]
  split
  · rename_i hzero
    refine ⟨a, rfl, ?_, rfl, rfl, rfl, rfl⟩
    rcases h with h | h
    · rw [h, hzero]
    · exact h
  · split
    · exact ⟨_, rfl, rfl, rfl, rfl, rfl, rfl⟩
    · rename_i hzero hne
      have heq := h.resolve_left hne
      rw [if_neg (not_not.mpr heq)]
      exact ⟨a, rfl, heq, rfl, rfl, rfl, rfl⟩

variable (hconfig : c.config = config) (hgenuine : o.Genuine chunk)

include hconfig hgenuine

/-- A chunk the assembly has not: it is kept, or it is the one that was missing. -/
theorem addChunk_first (htotal : entry.1.totalChunks = o.total.toNat)
    (hmsg : entry.1.msgType = o.msgType)
    (hshards : entry.1.dataShards = 0 ∨ entry.1.dataShards = o.dataShards)
    (hsurvives : Survives o.codeword entry.1.chunks)
    (hlen : entry.2 = 0 ∨ entry.2 = o.size * o.need)
    (hfirst : (entry.1.chunk chunk.header.chunkId.toNat).isSome = false) :
    o.Added c chunk entry.1 (c.addChunk p chunk entry) := by
  obtain ⟨a, hcapture, hds, htot, htype, hchunks, hstarted⟩ := captureDataShards_spec hshards
  have hmeta : ¬ (entry.1.totalChunks ≠ chunk.header.totalChunks.toNat ∨
      entry.1.msgType ≠ chunk.header.msgType) := by
    rw [htotal, hmsg, hgenuine.total, hgenuine.msgType]
    simp
  have hfirst' : ¬ (a.chunk chunk.header.chunkId.toNat).isSome = true := by
    rw [BlockAssembly.chunk, hchunks]
    rw [BlockAssembly.chunk] at hfirst
    rw [hfirst]
    simp
  have hneed : (a.addChunk chunk.header.chunkId.toNat chunk.payload).effectiveDataShards
      c.config.dataShards = o.need := by
    rw [BlockAssembly.effectiveDataShards, hconfig]
    show (if 0 < a.dataShards then a.dataShards.toNat else config.dataShards) = o.need
    rw [hds]
    rfl
  -- the shards are still those of the codeword, and the new one is there
  have hsurvives' : Survives o.codeword
      (a.addChunk chunk.header.chunkId.toNat chunk.payload).chunks := by
    show Survives o.codeword (a.chunks.set _ _)
    rw [hchunks]
    exact hsurvives.set hgenuine.payload
  have hhas : (a.addChunk chunk.header.chunkId.toNat chunk.payload).chunks.getD
      chunk.header.chunkId.toNat none = some chunk.payload := by
    show (a.chunks.set _ _).getD _ none = _
    have hlt : chunk.header.chunkId.toNat < a.chunks.length := by
      rw [a.length_chunks, htot, htotal]
      exact hgenuine.chunkId_lt
    rw [List.getD_eq_getElem?_getD, List.getElem?_set, if_pos rfl, if_pos hlt]
    rfl
  obtain ⟨shard, hhead, hshard⟩ := hsurvives'.head_filled hhas
  have hpos : 0 < o.size * o.need := Nat.mul_pos o.size_pos o.need_pos
  have hlen' : (if entry.2 = 0 then
      (((a.addChunk chunk.header.chunkId.toNat chunk.payload).chunks.filterMap id).head?.map
        fun shard => shard.length * o.need).getD 0 else entry.2) = o.size * o.need := by
    split
    · rw [hhead, Option.map_some, Option.getD_some, o.uniform shard hshard]
    · rename_i hne
      exact hlen.resolve_left hne
  rw [RelayClient.addChunk]
  rw [if_neg hmeta, hgenuine.dataShards, hcapture]
  dsimp only
  rw [if_neg hfirst', hneed, hlen', RelayClient.settle, hgenuine.objectHash, hgenuine.msgType]
  split
  · rename_i henough
    have hdecode : decodePayload p o.msgType
        (a.addChunk chunk.header.chunkId.toNat chunk.payload).chunks (o.size * o.need) o.need
        = some o.payload := o.decodes _ hsurvives' henough.1
    rw [hdecode]
    exact .delivered
  · rename_i hfew
    refine .kept ⟨htot.trans htotal, htype.trans hmsg, hds, hsurvives', rfl, ?_⟩ hstarted ?_ ?_
    · exact Nat.lt_of_not_le fun hle => hfew ⟨hle, hpos⟩
    · intro i hi
      show ((a.chunks.set _ _).getD i none).isSome = true
      rw [BlockAssembly.chunk, ← hchunks] at hi
      rw [List.getD_eq_getElem?_getD, List.getElem?_set]
      split
      · rename_i heq
        subst heq
        exact absurd hi hfirst'
      · rw [List.getD_eq_getElem?_getD] at hi
        exact hi
    · exact (congrArg Option.isSome hhas).trans rfl

theorem Holds.addChunk (hholds : o.Holds entry) :
    o.Added c chunk entry.1 (c.addChunk p chunk entry) := by
  by_cases hdup : (entry.1.chunk chunk.header.chunkId.toNat).isSome = true
  · exact hholds.addChunk_duplicate hgenuine hdup
  · exact addChunk_first hconfig hgenuine hholds.total hholds.msgType (Or.inr hholds.dataShards)
      hholds.survives (Or.inr hholds.originalLen) (by simpa using hdup)

/-- A chunk of the object passes all checks of its header. -/
theorem Genuine.handle (hrecent : c.recentlyDelivered o.objectHash = false) :
    c.handleIncomingChunk p chunk = c.collect p chunk (hgenuine.msgType ▸ o.isData) := by
  have hid : ¬ (chunk.header.totalChunks = 0 ∨ chunk.header.totalChunks ≤ chunk.header.chunkId) := by
    have hlt := hgenuine.chunkId_lt
    rw [hgenuine.total]
    rintro (hzero | hle)
    · rw [hzero] at hlt
      exact absurd hlt (Nat.not_lt_zero _)
    · exact absurd hlt (Nat.not_lt.mpr hle)
  have hprofile : ¬ (chunk.header.version ≠ 3 ∧
      chunk.header.totalChunks.toNat ≠ c.config.dataShards + c.config.parityShards) := by
    rintro ⟨hversion, htotal⟩
    rw [hgenuine.total, hconfig] at htotal
    refine htotal (o.profile ?_)
    by_contra hne
    exact hversion (hgenuine.version hne)
  have hversion : ¬ (c.config.authRequired = true ∧ chunk.header.version ≠ 2 ∧
      chunk.header.version ≠ 3) := by
    rintro ⟨-, h2, h3⟩
    have hauth := hgenuine.authentic
    rw [verifyDataChunkHmac, if_neg h2, if_neg h3] at hauth
    cases hauth
  rw [RelayClient.handleIncomingChunk, hgenuine.objectHash, hrecent, if_neg (by simp),
    dif_pos (hgenuine.msgType ▸ o.isData), if_neg hid, hgenuine.total,
    if_neg (UInt16.not_lt.mpr o.total_le)]
  rw [hgenuine.total] at hprofile
  rw [if_neg hprofile, if_neg hversion, hconfig, hgenuine.authentic, if_neg (by simp)]

/-- **A chunk of the object is put into its assembly.** -/
theorem Genuine.collect
    (hholds : ∀ entry, c.pending.lookup o.objectHash = some entry → o.Holds entry)
    (hroom : (c.pending.lookup o.objectHash).isSome = true ∨
      c.pending.entries.length < maxPendingBlocksClient)
    (isData : chunk.header.msgType.isData = true) :
    ∃ assembly, o.Added c chunk assembly (c.collect p chunk isData) ∧
      ((∃ entry, c.pending.lookup o.objectHash = some entry ∧ assembly = entry.1) ∨
        c.pending.lookup o.objectHash = none ∧ assembly.startedAt = c.now) := by
  rw [RelayClient.collect, hgenuine.objectHash]
  cases hlookup : c.pending.lookup o.objectHash with
  | some entry =>
    exact ⟨entry.1, (hholds entry hlookup).addChunk hconfig hgenuine, Or.inl ⟨entry, rfl, rfl⟩⟩
  | none =>
    rw [hlookup] at hroom
    have hroom' := hroom.resolve_left (by simp)
    rw [if_neg (Nat.not_le.mpr hroom')]
    refine ⟨_, addChunk_first hconfig hgenuine ?_ hgenuine.msgType (Or.inl rfl) ?_ (Or.inl rfl) ?_,
      Or.inr ⟨rfl, rfl⟩⟩
    · exact congrArg UInt16.toNat hgenuine.total
    · show Survives o.codeword (List.replicate chunk.header.totalChunks.toNat none)
      rw [hgenuine.total, ← o.length_codeword]
      exact Survives.replicate_none _
    · rw [BlockAssembly.chunk_newForMessage]
      rfl

end RelayObject

/-! ## The rest of the client -/

/-- What a chunk under another id leaves alone. -/
structure RelayClient.Apart (objectHash : Bytes32) (c c' : RelayClient) : Prop where
  config : c'.config = c.config
  now : c'.now = c.now
  journal : c'.journal = c.journal
  pending : c'.pending.lookup objectHash = c.pending.lookup objectHash
  recent : c'.recentDelivered.lookup objectHash = c.recentDelivered.lookup objectHash
  delivered : c.delivered ⊆ c'.delivered

namespace RelayClient

variable {p : Primitives} {objectHash : Bytes32} {c : RelayClient} {chunk : Chunk}

theorem Apart.refl (objectHash : Bytes32) (c : RelayClient) : Apart objectHash c c :=
  ⟨rfl, rfl, rfl, rfl, rfl, fun _ h => h⟩

section

variable (hne : chunk.header.blockHash ≠ objectHash)

include hne

theorem Apart.insert (entry : BlockAssembly × Nat) :
    Apart objectHash c { c with pending := c.pending.insert chunk.header.blockHash entry } :=
  ⟨rfl, rfl, rfl, AList.lookup_insert_ne hne.symm, rfl, fun _ h => h⟩

theorem apart_settle (assembly : BlockAssembly) (originalLen dataShards : Nat) :
    Apart objectHash c (c.settle p chunk.header assembly originalLen dataShards) := by
  rw [settle]
  split
  · split
    · exact ⟨rfl, rfl, rfl, AList.lookup_erase_ne hne.symm, AList.lookup_insert_ne hne.symm,
        List.subset_cons_self _ _⟩
    · exact .insert hne _
  · exact .insert hne _

theorem apart_addChunk (entry : BlockAssembly × Nat) :
    Apart objectHash c (c.addChunk p chunk entry) := by
  rw [addChunk]
  split
  · exact .refl _ _
  · split
    · exact .refl _ _
    · split
      · exact .insert hne _
      · exact apart_settle hne _ _ _

theorem apart_handleIncomingChunk : Apart objectHash c (c.handleIncomingChunk p chunk) := by
  rw [handleIncomingChunk]
  split
  · exact .refl _ _
  split
  · split
    · exact .refl _ _
    split
    · exact .refl _ _
    split
    · exact .refl _ _
    split
    · exact .refl _ _
    split
    · exact .refl _ _
    rw [collect]
    split
    · exact apart_addChunk hne _
    · split
      · exact .refl _ _
      · exact apart_addChunk hne _
  · exact .refl _ _

end

/-- What has been delivered stays delivered, as any chunk is apart from some id. -/
theorem delivered_handleIncomingChunk (c : RelayClient) (chunk : Chunk) :
    c.delivered ⊆ (c.handleIncomingChunk p chunk).delivered := by
  have hne : chunk.header.blockHash ≠ fun i => chunk.header.blockHash i + 1 := by
    intro h
    have hzero := congrFun h 0
    simp at hzero
  exact (apart_handleIncomingChunk hne).delivered

theorem delivered_next {c' : RelayClient} {e : ClientEvent} (h : c.next p e = some c') :
    c.delivered ⊆ c'.delivered := by
  have hcleanup : ∀ c : RelayClient, c.cleanup.delivered = c.delivered := by
    intro c
    rw [cleanup]
    split <;> rfl
  cases e with
  | other elapsed =>
    obtain rfl := Option.some.inj h
    rw [hcleanup]
    exact fun _ h => h
  | datagram elapsed bytes =>
    obtain rfl := Option.some.inj h
    rw [hcleanup, receive]
    split
    · rename_i chunk _
      exact delivered_handleIncomingChunk ({ c with now := c.now + elapsed }.record chunk) chunk
    · exact fun _ h => h

/-- A chunk that is not authenticated changes nothing. -/
theorem handleIncomingChunk_of_not_authentic
    (h : verifyDataChunkHmac p c.config.authKey chunk = false) :
    c.handleIncomingChunk p chunk = c := by
  rw [handleIncomingChunk]
  simp only [h, if_true, ite_self, dite_eq_ite]

end RelayClient

/-! ## Runs -/

namespace RelayObject

variable {p : Primitives} {config : ClientConfig}

/-- Chunk `i` of the object has come, at most the timeout of an assembly after `first`. -/
def CameBy (o : RelayObject p config) (c : RelayClient) (first i : Nat) : Prop :=
  ∃ a ∈ c.journal, o.Genuine a.2 ∧ a.2.header.chunkId.toNat = i ∧ a.1 ≤ first + config.recvTimeout

/-- The object has begun to come at `first` and is not there yet. -/
structure Begun (o : RelayObject p config) (c : RelayClient) (first : Nat) : Prop where
  came : ∃ a ∈ c.journal, o.Genuine a.2 ∧ a.1 = first
  earliest : ∀ a ∈ c.journal, o.Genuine a.2 → first ≤ a.1
  few : ∀ ids : List Nat, ids.Nodup → (∀ i ∈ ids, o.CameBy c first i) → ids.length < o.need
  assembly : c.now ≤ first + config.recvTimeout →
    ∃ entry, c.pending.lookup o.objectHash = some entry ∧ entry.1.startedAt = first ∧
      ∀ a ∈ c.journal, o.Genuine a.2 → (entry.1.chunk a.2.header.chunkId.toNat).isSome = true

/-- The object has not been delivered. -/
def Waiting (o : RelayObject p config) (c : RelayClient) : Prop :=
  ((∀ a ∈ c.journal, ¬ o.Genuine a.2) ∧ c.pending.lookup o.objectHash = none) ∨
    ∃ first, o.Begun c first

structure CollectInv (o : RelayObject p config) (c : RelayClient) : Prop where
  config : c.config = config
  times : ∀ a ∈ c.journal, a.1 ≤ c.now
  holds : ∀ entry, c.pending.lookup o.objectHash = some entry → o.Holds entry
  recent : ∀ t, c.recentDelivered.lookup o.objectHash = some t → o.payload ∈ c.delivered
  progress : o.payload ∈ c.delivered ∨ o.Waiting c

variable {o : RelayObject p config} {c c' : RelayClient} {chunk : Chunk}

/-- What is known of an object is known of a client that agrees about it, unless time has passed
over its assembly. -/
theorem Begun.congr {first : Nat} (h : o.Begun c first) (hnow : c.now ≤ c'.now)
    (hjournal : ∀ a, o.Genuine a.2 → (a ∈ c'.journal ↔ a ∈ c.journal))
    (hpending : c'.now ≤ first + config.recvTimeout → ∀ entry,
      c.pending.lookup o.objectHash = some entry → entry.1.startedAt = first →
        c'.pending.lookup o.objectHash = some entry) : o.Begun c' first := by
  obtain ⟨a, ha, hgenuine, hfirst⟩ := h.came
  refine ⟨⟨a, (hjournal a hgenuine).mpr ha, hgenuine, hfirst⟩, ?_, ?_, ?_⟩
  · exact fun b hb hg => h.earliest b ((hjournal b hg).mp hb) hg
  · intro ids hnodup hids
    refine h.few ids hnodup fun i hi => ?_
    obtain ⟨b, hb, hg, hid, htime⟩ := hids i hi
    exact ⟨b, (hjournal b hg).mp hb, hg, hid, htime⟩
  · intro htime
    obtain ⟨entry, hlookup, hstarted, hchunks⟩ := h.assembly (Nat.le_trans hnow htime)
    exact ⟨entry, hpending htime entry hlookup hstarted, hstarted,
      fun b hb hg => hchunks b ((hjournal b hg).mp hb) hg⟩

section

variable (h : o.CollectInv c)

include h

theorem CollectInv.tick (elapsed : Nat) : o.CollectInv { c with now := c.now + elapsed } := by
  refine ⟨h.config, fun a ha => Nat.le_trans (h.times a ha) (Nat.le_add_right _ _), h.holds,
    h.recent, h.progress.imp_right fun hwaiting => hwaiting.imp_right ?_⟩
  rintro ⟨first, hbegun⟩
  exact ⟨first, hbegun.congr (Nat.le_add_right _ _) (fun _ _ => Iff.rfl) fun _ _ h _ => h⟩

/-- A chunk under another id, or one that is not authenticated. -/
theorem CollectInv.apart (hapart : RelayClient.Apart o.objectHash c c') : o.CollectInv c' := by
  refine ⟨hapart.config.trans h.config, ?_, ?_, ?_, ?_⟩
  · rw [hapart.journal, hapart.now]
    exact h.times
  · rw [hapart.pending]
    exact h.holds
  · rw [hapart.recent]
    exact fun t ht => hapart.delivered (h.recent t ht)
  · refine h.progress.imp (fun hmem => hapart.delivered hmem) fun hwaiting => ?_
    rcases hwaiting with ⟨hnone, hpending⟩ | ⟨first, hbegun⟩
    · refine Or.inl ⟨?_, hapart.pending.trans hpending⟩
      rw [hapart.journal]
      exact hnone
    · refine Or.inr ⟨first, hbegun.congr (Nat.le_of_eq hapart.now.symm) ?_ ?_⟩
      · rw [hapart.journal]
        exact fun _ _ => Iff.rfl
      · rw [hapart.pending]
        exact fun _ _ h _ => h

theorem CollectInv.cleanup : o.CollectInv c.cleanup := by
  rw [RelayClient.cleanup]
  split
  · exact h.apart ⟨rfl, rfl, rfl, rfl, rfl, fun _ h => h⟩
  · have hlookup : ∀ entry, (c.pending.retain fun _ entry =>
        !entry.1.isExpired c.config.recvTimeout c.now).lookup o.objectHash = some entry →
        c.pending.lookup o.objectHash = some entry :=
      fun entry hentry => (Table.of_lookup_retain hentry).1
    refine ⟨h.config, h.times, fun entry hentry => h.holds entry (hlookup entry hentry), ?_, ?_⟩
    · intro t ht
      have ht' : (c.recentDelivered.retain fun _ seenAt =>
        c.now - seenAt ≤ recentDeliveredTtl).lookup o.objectHash = some t := ht
      rw [Table.lookup_retain] at ht'
      exact h.recent t (Option.filter_eq_some_iff.mp ht').1
    · refine h.progress.imp_right fun hwaiting => ?_
      rcases hwaiting with ⟨hnone, hpending⟩ | ⟨first, hbegun⟩
      · refine Or.inl ⟨hnone, ?_⟩
        show (c.pending.retain _).lookup o.objectHash = none
        rw [Table.lookup_retain, hpending]
        rfl
      · -- an assembly that began at `first` is not too old yet
        refine Or.inr ⟨first, hbegun.congr (Nat.le_refl _) (fun _ _ => Iff.rfl) ?_⟩
        intro htime entry hentry hstarted
        have htime' : c.now ≤ first + config.recvTimeout := htime
        show (c.pending.retain _).lookup o.objectHash = some entry
        rw [Table.lookup_retain, hentry, h.config, Option.filter_some, BlockAssembly.isExpired,
          hstarted, if_pos]
        rw [Bool.not_eq_true', decide_eq_false_iff_not]
        omega

theorem CollectInv.times_cons (chunk : Chunk) : ∀ a ∈ (c.now, chunk) :: c.journal, a.1 ≤ c.now := by
  intro a ha
  rcases List.mem_cons.mp ha with rfl | ha
  · exact Nat.le_refl _
  · exact h.times a ha

/-- The record of a chunk that is none of the object. -/
theorem CollectInv.record (hnot : ¬ o.Genuine chunk) : o.CollectInv (c.record chunk) := by
  have hjournal : ∀ a : Nat × Chunk, o.Genuine a.2 →
      (a ∈ (c.now, chunk) :: c.journal ↔ a ∈ c.journal) := by
    intro a ha
    refine ⟨fun hmem => ?_, List.mem_cons_of_mem _⟩
    rcases List.mem_cons.mp hmem with rfl | hmem
    · exact absurd ha hnot
    · exact hmem
  refine ⟨h.config, h.times_cons chunk, h.holds, h.recent, h.progress.imp_right fun hwaiting => ?_⟩
  rcases hwaiting with ⟨hnone, hpending⟩ | ⟨first, hbegun⟩
  · exact Or.inl ⟨fun a ha hg => hnone a ((hjournal a hg).mp ha) hg, hpending⟩
  · exact Or.inr ⟨first, hbegun.congr (Nat.le_refl _) hjournal fun _ _ h _ => h⟩

end

variable {entry : BlockAssembly × Nat}

/-- All chunks that came are in the assembly, so too few have come. -/
theorem Holds.few_came (hholds : o.Holds entry) (hchunks : ∀ a ∈ c.journal, o.Genuine a.2 →
      (entry.1.chunk a.2.header.chunkId.toNat).isSome = true) (first : Nat) (ids : List Nat)
    (hnodup : ids.Nodup) (hids : ∀ i ∈ ids, o.CameBy c first i) : ids.length < o.need := by
  refine Nat.lt_of_le_of_lt (length_le_filled hnodup fun i hi => ?_) hholds.few
  obtain ⟨a, ha, hgenuine, hid, -⟩ := hids i hi
  have hsome := hchunks a ha hgenuine
  rwa [hid] at hsome

section Entry

variable (hjournal : c'.journal = (c.now, chunk) :: c.journal)
  (hlookup : c'.pending.lookup o.objectHash = some entry) (hholds : o.Holds entry)
  (hhas : (entry.1.chunk chunk.header.chunkId.toNat).isSome = true)

include hjournal hlookup hholds hhas

/-- The first chunk of the object begins its assembly. -/
theorem Begun.start (hnone : ∀ a ∈ c.journal, ¬ o.Genuine a.2) (hgenuine : o.Genuine chunk)
    (hstarted : entry.1.startedAt = c.now) : o.Begun c' c.now := by
  have honly : ∀ a ∈ c'.journal, o.Genuine a.2 → a = (c.now, chunk) := by
    intro a ha hg
    rw [hjournal] at ha
    rcases List.mem_cons.mp ha with rfl | ha
    · rfl
    · exact absurd hg (hnone a ha)
  have hchunks : ∀ a ∈ c'.journal, o.Genuine a.2 →
      (entry.1.chunk a.2.header.chunkId.toNat).isSome = true := by
    intro a ha hg
    rw [honly a ha hg]
    exact hhas
  refine ⟨⟨(c.now, chunk), ?_, hgenuine, rfl⟩, ?_, hholds.few_came hchunks _, ?_⟩
  · rw [hjournal]
    exact List.mem_cons_self
  · intro a ha hg
    rw [honly a ha hg]
  · exact fun _ => ⟨entry, hlookup, hstarted, hchunks⟩

/-- One more chunk of the object that is not enough. -/
theorem Begun.add {first : Nat} {assembly : BlockAssembly} (h : o.Begun c first)
    (hnow : c'.now = c.now)
    (hassembly : (∃ entry, c.pending.lookup o.objectHash = some entry ∧ assembly = entry.1) ∨
      c.pending.lookup o.objectHash = none ∧ assembly.startedAt = c.now)
    (hstarted : entry.1.startedAt = assembly.startedAt)
    (hgrows : ∀ i, (assembly.chunk i).isSome = true → (entry.1.chunk i).isSome = true)
    (hlate : first ≤ c.now) : o.Begun c' first := by
  obtain ⟨a, ha, hgenuine, hfirst⟩ := h.came
  have hmem : ∀ b ∈ c'.journal, b = (c.now, chunk) ∨ b ∈ c.journal := by
    rw [hjournal]
    exact fun b hb => List.mem_cons.mp hb
  -- in time the assembly has all that came
  have hall : c.now ≤ first + config.recvTimeout → entry.1.startedAt = first ∧
      ∀ b ∈ c'.journal, o.Genuine b.2 → (entry.1.chunk b.2.header.chunkId.toNat).isSome = true := by
    intro htime
    obtain ⟨old, hold, hbegan, hchunks⟩ := h.assembly htime
    have hold' : assembly = old.1 := by
      rcases hassembly with ⟨e, he, rfl⟩ | ⟨hnone, -⟩
      · rw [Option.some.inj (he.symm.trans hold)]
      · exact absurd (hnone.symm.trans hold) (by simp)
    refine ⟨by rw [hstarted, hold', hbegan], fun b hb hg => ?_⟩
    rcases hmem b hb with rfl | hb
    · exact hhas
    · exact hgrows _ (hold' ▸ hchunks b hb hg)
  refine ⟨⟨a, by rw [hjournal]; exact List.mem_cons_of_mem _ ha, hgenuine, hfirst⟩, ?_, ?_, ?_⟩
  · intro b hb hg
    rcases hmem b hb with rfl | hb
    · exact hlate
    · exact h.earliest b hb hg
  · by_cases htime : c.now ≤ first + config.recvTimeout
    · exact hholds.few_came (hall htime).2 first
    · -- too late to count
      intro ids hnodup hids
      refine h.few ids hnodup fun i hi => ?_
      obtain ⟨b, hb, hg, hid, hcame⟩ := hids i hi
      rcases hmem b hb with rfl | hb
      · exact absurd hcame htime
      · exact ⟨b, hb, hg, hid, hcame⟩
  · intro htime
    rw [hnow] at htime
    exact ⟨entry, hlookup, hall htime⟩

end Entry

section Genuine

variable (h : o.CollectInv c) (hgenuine : o.Genuine chunk)
  (hroom : (c.pending.lookup o.objectHash).isSome = true ∨
    c.pending.entries.length < maxPendingBlocksClient)

include h hgenuine hroom

/-- What the client does with a chunk of the object: the id is ignored, as the object has been
delivered, or the chunk is put into the assembly. -/
theorem CollectInv.handled :
    (o.payload ∈ c.delivered ∧ (c.record chunk).handleIncomingChunk p chunk = c.record chunk) ∨
      ∃ assembly, o.Added (c.record chunk) chunk assembly
          ((c.record chunk).handleIncomingChunk p chunk) ∧
        ((∃ entry, c.pending.lookup o.objectHash = some entry ∧ assembly = entry.1) ∨
          c.pending.lookup o.objectHash = none ∧ assembly.startedAt = c.now) := by
  by_cases hrecent : c.recentlyDelivered o.objectHash = true
  · left
    refine ⟨?_, ?_⟩
    · obtain ⟨t, ht, -⟩ := (Option.any_eq_true _ _).mp hrecent
      exact h.recent t ht
    · rw [RelayClient.handleIncomingChunk, hgenuine.objectHash]
      exact if_pos hrecent
  · right
    have hrecent' : (c.record chunk).recentlyDelivered o.objectHash = false :=
      Bool.not_eq_true _ ▸ hrecent
    have hconfig : (c.record chunk).config = config := h.config
    rw [hgenuine.handle hconfig hrecent']
    exact hgenuine.collect hconfig h.holds hroom (hgenuine.msgType ▸ o.isData)

/-- A chunk of the object. -/
theorem CollectInv.genuine : o.CollectInv ((c.record chunk).handleIncomingChunk p chunk) := by
  rcases h.handled hgenuine hroom with ⟨hdelivered, hsame⟩ | ⟨assembly, hadded, hassembly⟩
  · rw [hsame]
    exact ⟨h.config, h.times_cons chunk, h.holds, h.recent, Or.inl hdelivered⟩
  generalize (c.record chunk).handleIncomingChunk p chunk = c' at hadded ⊢
  cases hadded with
  | delivered =>
    refine ⟨h.config, h.times_cons chunk, fun entry hentry => ?_, fun _ _ => ?_, Or.inl ?_⟩
    · exact absurd (hentry.symm.trans (AList.lookup_erase _ _)) (by simp)
    · exact List.mem_cons_self
    · exact List.mem_cons_self
  | @kept entry hholds hstarted hgrows hhas =>
    have hlookup : (c.pending.insert o.objectHash entry).lookup o.objectHash = some entry :=
      AList.lookup_insert _
    refine ⟨h.config, h.times_cons chunk, fun entry' hentry => ?_, h.recent,
      h.progress.imp_right fun hwaiting => ?_⟩
    · rwa [← Option.some.inj (hlookup.symm.trans hentry)]
    · right
      rcases hwaiting with ⟨hnone, hpending⟩ | ⟨first, hbegun⟩
      · refine ⟨c.now, Begun.start rfl hlookup hholds hhas hnone hgenuine ?_⟩
        rcases hassembly with ⟨e, he, -⟩ | ⟨-, hnow⟩
        · exact absurd (hpending.symm.trans he) (by simp)
        · exact hstarted.trans hnow
      · obtain ⟨a, ha, -, hfirst⟩ := hbegun.came
        exact ⟨first, hbegun.add rfl hlookup hholds hhas rfl hassembly hstarted hgrows
          (hfirst ▸ h.times a ha)⟩

end Genuine

/-- **One turn of the loop.** -/
theorem CollectInv.next {e : ClientEvent} (h : o.CollectInv c)
    (hundisturbed : o.Undisturbed c e) (hnext : c.next p e = some c') : o.CollectInv c' := by
  cases e with
  | other elapsed =>
    obtain rfl := Option.some.inj hnext
    exact (h.tick elapsed).cleanup
  | datagram elapsed bytes =>
    obtain rfl := Option.some.inj hnext
    refine CollectInv.cleanup ?_
    have htick := h.tick elapsed
    rw [RelayClient.receive]
    split
    · rename_i chunk hchunk
      by_cases hid : chunk.header.blockHash = o.objectHash
      · cases hauth : verifyDataChunkHmac p config.authKey chunk with
        | true =>
          obtain ⟨hgenuine, hroom⟩ := hundisturbed chunk hchunk hid hauth
          exact htick.genuine hgenuine hroom
        | false =>
          have hnot : ¬ o.Genuine chunk := fun hg => by
            rw [hg.authentic] at hauth
            cases hauth
          rw [RelayClient.handleIncomingChunk_of_not_authentic]
          · exact htick.record hnot
          · show verifyDataChunkHmac p c.config.authKey chunk = false
            rw [h.config, hauth]
      · exact (htick.record fun hg => hid hg.objectHash).apart
          (RelayClient.apart_handleIncomingChunk hid)
    · exact htick

theorem CollectInv.start (h : RelayClient.Start config c) : o.CollectInv c := by
  rw [RelayClient.Start] at h
  rw [h]
  refine ⟨rfl, fun a ha => absurd ha (by simp), fun _ hentry => absurd hentry (by simp),
    fun _ ht => absurd ht (by simp), Or.inr (Or.inl ⟨fun a ha => absurd ha (by simp), rfl⟩)⟩

/-- Chunk `i` has come, within the timeout of an assembly from the first chunk that came. -/
def CameInTime (o : RelayObject p config) (c : RelayClient) (i : Nat) : Prop :=
  ∃ a ∈ c.journal, o.Genuine a.2 ∧ a.2.header.chunkId.toNat = i ∧
    ∀ b ∈ c.journal, o.Genuine b.2 → a.1 ≤ b.1 + config.recvTimeout

/-- **An object is delivered** once enough of its chunks have come in time. -/
theorem CollectInv.delivered (h : o.CollectInv c) {ids : List Nat} (hnodup : ids.Nodup)
    (hcame : ∀ i ∈ ids, o.CameInTime c i) (henough : o.need ≤ ids.length) :
    o.payload ∈ c.delivered := by
  rcases h.progress with hdelivered | ⟨hnone, -⟩ | ⟨first, hbegun⟩
  · exact hdelivered
  · -- nothing has come
    exfalso
    cases ids with
    | nil => exact absurd o.need_pos (Nat.not_lt.mpr henough)
    | cons i ids =>
      obtain ⟨a, ha, hg, -⟩ := hcame i List.mem_cons_self
      exact hnone a ha hg
  · obtain ⟨b, hb, hgb, hfirst⟩ := hbegun.came
    refine absurd henough (Nat.not_le.mpr (hbegun.few ids hnodup fun i hi => ?_))
    obtain ⟨a, ha, hg, hid, htime⟩ := hcame i hi
    exact ⟨a, ha, hg, hid, hfirst ▸ htime b hb hgb⟩

end RelayObject

end MiningInfra.Relay
