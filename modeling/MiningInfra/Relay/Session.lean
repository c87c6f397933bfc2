import MiningInfra.Lib.Replay
import MiningInfra.Relay.Chunk
import MiningInfra.Relay.Chunker

/-!
# Sessions

A peer of the relay is an address with the key its first packet was authenticated with. A session
collects the chunks of the objects the peer sends, and remembers the chunks it saw lately.

Times are in milliseconds on one clock that does not run backwards.
-/

namespace MiningInfra.Relay

open Lib Coinbase

structure SocketAddr where
  /-- Four or sixteen bytes. -/
  ip : List UInt8
  port : UInt16
  deriving DecidableEq, Repr

inductive KeyRole where
  | full
  | receiveOnly
  deriving DecidableEq, Repr

structure AuthKey where
  id : String
  key : Bytes32
  role : KeyRole
  deriving DecidableEq

/-! ## Authentication -/

section Mac

variable (p : Primitives)

/-- The HMAC of version 2. -/
def computeHmac (authKey blockHash : Bytes32) (chunkId totalChunks payloadLen : UInt16)
    (payload : List UInt8) : Bytes32 :=
  p.hmacSha256 authKey (blockHash.toList ++ u16BeBytes chunkId ++ u16BeBytes totalChunks
    ++ u16BeBytes payloadLen ++ payload)

/-- The HMAC of version 3 covers the number of data shards, too. -/
def computeHmacV3 (authKey blockHash : Bytes32)
    (chunkId totalChunks payloadLen dataShards : UInt16) (payload : List UInt8) : Bytes32 :=
  p.hmacSha256 authKey (blockHash.toList ++ u16BeBytes chunkId ++ u16BeBytes totalChunks
    ++ u16BeBytes payloadLen ++ u16BeBytes dataShards ++ payload)

def verifyHmac (authKey : Bytes32) (chunk : Chunk) : Bool :=
  let h := chunk.header
  computeHmac p authKey h.blockHash h.chunkId h.totalChunks h.payloadLen chunk.payload = h.hmac

def verifyHmacV3 (authKey : Bytes32) (chunk : Chunk) : Bool :=
  let h := chunk.header
  computeHmacV3 p authKey h.blockHash h.chunkId h.totalChunks h.payloadLen h.dataShards
    chunk.payload = h.hmac

/-- The key is all that is read of the session. -/
def verifyDataChunkHmac (authKey : Bytes32) (chunk : Chunk) : Bool :=
  if chunk.header.version = 2 then verifyHmac p authKey chunk
  else if chunk.header.version = 3 then verifyHmacV3 p authKey chunk
  else false

end Mac

/-! ## Assemblies -/

structure BlockAssembly where
  blockHash : Bytes32
  msgType : MessageType
  totalChunks : Nat
  /-- Zero until a chunk of version 3 has come. -/
  dataShards : UInt16
  chunks : Shards
  startedAt : Nat
  powValidated : Bool
  forwarded : List Bool
  /-- It comes from a `u16`. -/
  totalChunks_lt : totalChunks < 2 ^ 16
  isData : msgType.isData = true
  length_chunks : chunks.length = totalChunks
  length_forwarded : forwarded.length = totalChunks
  deriving DecidableEq

namespace BlockAssembly

/-- The callers have checked the type of the message. -/
def newForMessage (blockHash : Bytes32) (totalChunks : UInt16) {msgType : MessageType}
    (isData : msgType.isData = true) (now : Nat) : BlockAssembly where
  blockHash
  msgType
  totalChunks := totalChunks.toNat
  dataShards := 0
  chunks := List.replicate totalChunks.toNat none
  startedAt := now
  powValidated := false
  forwarded := List.replicate totalChunks.toNat false
  totalChunks_lt := totalChunks.toNat_lt
  isData
  length_chunks := List.length_replicate
  length_forwarded := List.length_replicate

/-- The payload in this slot. -/
def chunk (a : BlockAssembly) (idx : Nat) : Option (List UInt8) := a.chunks.getD idx none

/-- Has this slot gone out? -/
def sent (a : BlockAssembly) (idx : Nat) : Bool := a.forwarded.getD idx false

def effectiveDataShards (a : BlockAssembly) (fixed : Nat) : Nat :=
  if 0 < a.dataShards then a.dataShards.toNat else fixed

/-- A slot that is taken is written over. A number beyond the total changes nothing. -/
def addChunk (a : BlockAssembly) (chunkId : Nat) (payload : List UInt8) : BlockAssembly :=
  { a with
    chunks := a.chunks.set chunkId (some payload)
    length_chunks := List.length_set.trans a.length_chunks }

def receivedCount (a : BlockAssembly) : Nat := (a.chunks.filter Option.isSome).length

def isComplete (a : BlockAssembly) : Bool := a.receivedCount = a.totalChunks

def isExpired (a : BlockAssembly) (timeout now : Nat) : Bool := timeout < now - a.startedAt

/-- The slots that are filled and have not gone out. -/
def unforwarded (a : BlockAssembly) : List (UInt16 × List UInt8) :=
  (List.range a.totalChunks).filterMap fun idx =>
    if a.sent idx then none else (a.chunk idx).map fun data => (UInt16.ofNat idx, data)

/-- Every slot that is filled has gone out. -/
def markForwarded (a : BlockAssembly) : BlockAssembly :=
  { a with
    forwarded := List.zipWith (fun payload sent => sent || payload.isSome) a.chunks a.forwarded
    length_forwarded := by simp [a.length_chunks, a.length_forwarded] }

theorem chunk_newForMessage (blockHash : Bytes32) (totalChunks : UInt16) {msgType : MessageType}
    (isData : msgType.isData = true) (now idx : Nat) :
    (newForMessage blockHash totalChunks isData now).chunk idx = none := by
  simp only [newForMessage, chunk, List.getD_eq_getElem?_getD, List.getElem?_replicate]
  split <;> rfl

variable {a : BlockAssembly} {data : List UInt8}

theorem chunk_addChunk {chunkId idx : Nat} {payload : List UInt8}
    (h : (a.addChunk chunkId payload).chunk idx = some data) :
    a.chunk idx = some data ∨ idx = chunkId ∧ data = payload := by
  simp only [addChunk, chunk, List.getD_eq_getElem?_getD, List.getElem?_set] at h ⊢
  split at h
  · rename_i heq
    split at h
    · injection h with h
      exact Or.inr ⟨heq.symm, h.symm⟩
    · cases h
  · exact Or.inl h

theorem sent_markForwarded (a : BlockAssembly) (idx : Nat) :
    a.markForwarded.sent idx = (a.sent idx || (a.chunk idx).isSome) := by
  simp only [markForwarded, sent, chunk, List.getD_eq_getElem?_getD, List.getElem?_zipWith]
  have hlen : a.chunks.length = a.forwarded.length := a.length_chunks.trans a.length_forwarded.symm
  by_cases hidx : idx < a.chunks.length
  · rw [List.getElem?_eq_getElem hidx, List.getElem?_eq_getElem (hlen ▸ hidx)]
    rfl
  · rw [List.getElem?_eq_none (Nat.le_of_not_lt hidx),
      List.getElem?_eq_none (hlen ▸ Nat.le_of_not_lt hidx)]
    rfl

theorem lt_of_chunk {idx : Nat} (h : a.chunk idx = some data) : idx < a.totalChunks := by
  rw [← a.length_chunks]
  refine Nat.lt_of_not_le fun hle => ?_
  rw [chunk, List.getD_eq_getElem?_getD, List.getElem?_eq_none hle] at h
  cases h

/-- The numbers that go out are those of slots: `as u16` loses nothing. -/
theorem mem_unforwarded {id : UInt16} :
    (id, data) ∈ a.unforwarded ↔ a.sent id.toNat = false ∧ a.chunk id.toNat = some data := by
  simp only [unforwarded, List.mem_filterMap, List.mem_range]
  constructor
  · rintro ⟨idx, hidx, h⟩
    split at h
    · cases h
    · rename_i hsent
      obtain ⟨data', hdata, heq⟩ := Option.map_eq_some_iff.mp h
      injection heq with hid heq
      subst hid heq
      rw [UInt16.toNat_ofNat_of_lt' (Nat.lt_trans hidx a.totalChunks_lt)]
      exact ⟨by simpa using hsent, hdata⟩
  · rintro ⟨hsent, hdata⟩
    refine ⟨id.toNat, lt_of_chunk hdata, ?_⟩
    rw [hsent, hdata]
    simp

end BlockAssembly

/-! ## Sessions -/

/-- `MAX_PENDING_BLOCKS`. -/
def maxPendingBlocks : Nat := 64

/-- `MAX_RECENT_CHUNKS`. -/
def maxRecentChunks : Nat := 4096

/-- `RECENT_CHUNK_TTL`. -/
def recentChunkTtl : Nat := 120 * 1000

structure ChunkKey where
  blockHash : Bytes32
  chunkId : UInt16
  deriving DecidableEq

def Chunk.key (chunk : Chunk) : ChunkKey := ⟨chunk.header.blockHash, chunk.header.chunkId⟩

structure RelaySession where
  peerAddr : SocketAddr
  keyId : String
  authenticated : Bool
  role : KeyRole
  authKey : Bytes32
  lastSeen : Nat
  pendingBlocks : Table Bytes32 BlockAssembly
  /-- `recent_chunks` and `recent_order`. -/
  recent : Replay ChunkKey

namespace RelaySession

def newWithRole (peerAddr : SocketAddr) (keyId : String) (authKey : Bytes32) (role : KeyRole)
    (now : Nat) : RelaySession :=
  ⟨peerAddr, keyId, true, role, authKey, now, ∅, .empty⟩

def newUnauthenticated (peerAddr : SocketAddr) (keyId : String) (now : Nat) : RelaySession :=
  ⟨peerAddr, keyId, false, .full, fun _ => 0, now, ∅, .empty⟩

/-- What the session was bound to when it was made. -/
def binding (s : RelaySession) : AuthKey := ⟨s.keyId, s.authKey, s.role⟩

def matchesAuthorization (s : RelaySession) (key : AuthKey) : Bool :=
  s.keyId = key.id ∧ s.role = key.role ∧ s.authKey = key.key

def touch (s : RelaySession) (now : Nat) : RelaySession := { s with lastSeen := now }

def isExpired (s : RelaySession) (timeout now : Nat) : Bool := timeout < now - s.lastSeen

def markChunkSeen (s : RelaySession) (key : ChunkKey) (now : Nat) : Bool × RelaySession :=
  let (fresh, recent) := s.recent.mark maxRecentChunks recentChunkTtl key now
  (fresh, { s with recent })

/-- The assembly, and the session that has it. -/
def getOrCreateAssemblyForMessage (s : RelaySession) (blockHash : Bytes32) (totalChunks : UInt16)
    {msgType : MessageType} (isData : msgType.isData = true) (now : Nat) :
    Option (BlockAssembly × RelaySession) :=
  match s.pendingBlocks.lookup blockHash with
  | some assembly =>
    if assembly.totalChunks ≠ totalChunks.toNat ∨ assembly.msgType ≠ msgType then none
    else some (assembly, s)
  | none =>
    if maxPendingBlocks ≤ s.pendingBlocks.entries.length then none
    else
      let assembly := BlockAssembly.newForMessage blockHash totalChunks isData now
      some (assembly, { s with pendingBlocks := s.pendingBlocks.insert blockHash assembly })

/-- Complete assemblies go as well as expired ones. -/
def cleanupAssemblies (s : RelaySession) (assemblyTimeout now : Nat) : RelaySession :=
  { s with pendingBlocks := s.pendingBlocks.retain fun _ assembly =>
      !assembly.isExpired assemblyTimeout now && !assembly.isComplete }

def cleanupRecent (s : RelaySession) (now : Nat) : RelaySession :=
  { s with recent := s.recent.cleanup recentChunkTtl now }

end RelaySession

end MiningInfra.Relay
