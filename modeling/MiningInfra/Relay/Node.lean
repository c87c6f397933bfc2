import MiningInfra.Lib.Reach
import MiningInfra.Lib.Results
import MiningInfra.Relay.Ingest

/-!
# The relay node

One task receives packets, forwards what they completed and cleans up, one after the other;
another task changes the keys. A packet is handled under the lock of the sessions up to the point
where it is known what to forward; each object is then forwarded under a lock of its own, so keys
can change in between. `apply_active_keys` swaps the set first and evicts sessions afterwards.

The journal is the record of what happened, newest first; no step reads it. Metrics, pacing and
failed sends are left out: none of them decides what is sent. The verdict of the rate limiter
comes with the packet.
-/

namespace MiningInfra.Relay

open Lib Coinbase

inductive TransportError where
  | io (message : String)
  | fec (error : FecError)
  | invalidChunk (message : String)
  | authenticationFailed
  | timeout
  | incompleteBlock (received total : Nat)
  | invalidPow
  | connectionRefused (message : String)
  deriving DecidableEq, Repr

def TransportError.asStr : TransportError → String
  | io message => s!"IO error: {message}"
  | fec error => s!"FEC error: {error.asStr}"
  | invalidChunk message => s!"invalid chunk: {message}"
  | authenticationFailed => "authentication failed"
  | timeout => "session timeout"
  | incompleteBlock received total =>
    s!"block assembly incomplete: received {received}/{total} chunks"
  | invalidPow => "PoW validation failed"
  | connectionRefused message => s!"connection refused: {message}"

/-! ## Configuration -/

namespace RelayConfig

/-- `MAX_TOTAL_SHARDS`. -/
def maxTotalShards : Nat := 256

def validate (c : RelayConfig) : Except TransportError Unit := do
  if c.dataShards = 0 then throw (.invalidChunk "data_shards must be > 0")
  if c.parityShards = 0 then throw (.invalidChunk "parity_shards must be > 0")
  if maxTotalShards < c.dataShards + c.parityShards then
    throw (.invalidChunk
      s!"total shards ({c.dataShards + c.parityShards}) exceeds maximum ({maxTotalShards})")
  if c.chunkSize = 0 then throw (.invalidChunk "chunk_size must be > 0")
  if maxPayloadSize < c.chunkSize then
    throw (.invalidChunk
      s!"chunk_size ({c.chunkSize}) exceeds max payload size ({maxPayloadSize})")
  if c.maxSessions = 0 then throw (.invalidChunk "max_sessions must be > 0")
  if c.forwardBurstPackets = 0 ∧ c.forwardBurstDelay ≠ 0 then
    throw (.invalidChunk "forward_burst_packets must be > 0 when forward_burst_delay is set")
  if c.authorizedKeys = [] ∧ c.allowUnauthenticatedPeers = false then
    throw (.connectionRefused
      "authorized_keys required unless unauthenticated peers are explicitly allowed")

end RelayConfig

/-! ## Forwarding -/

def authenticatedDataHeader (msgType : MessageType) (objectHash : Bytes32)
    (chunkId totalChunks payloadLen : UInt16) (hmac : Bytes32) :
    Except TransportError ChunkHeader :=
  match msgType with
  | .block => .ok (.newBlockAuthenticated objectHash chunkId totalChunks payloadLen hmac)
  | .rawBlockSegment =>
    .ok (.newRawBlockSegmentAuthenticated objectHash chunkId totalChunks payloadLen hmac)
  | .compactSkeleton =>
    .ok (.newCompactSkeletonAuthenticated objectHash chunkId totalChunks payloadLen hmac)
  | .keepalive | .auth => .error (.invalidChunk "unsupported forwarded chunk message type")

def authenticatedDataHeaderV3 (msgType : MessageType) (objectHash : Bytes32)
    (chunkId totalChunks payloadLen dataShards : UInt16) (hmac : Bytes32) :
    Except TransportError ChunkHeader :=
  match msgType with
  | .block =>
    .ok (.newBlockAuthenticatedV3 objectHash chunkId totalChunks payloadLen dataShards hmac)
  | .rawBlockSegment =>
    .ok (.newRawBlockSegmentAuthenticatedV3 objectHash chunkId totalChunks payloadLen dataShards
      hmac)
  | .compactSkeleton =>
    .ok (.newCompactSkeletonAuthenticatedV3 objectHash chunkId totalChunks payloadLen dataShards
      hmac)
  | .keepalive | .auth => .error (.invalidChunk "unsupported forwarded chunk message type")

section Forward

variable (p : Primitives)

/-- One chunk for a session, under the key of that session. -/
def forwardChunk (session : RelaySession) (ready : ReadyChunks) (chunk : UInt16 × List UInt8) :
    Except TransportError (List UInt8) := do
  let (chunkId, data) := chunk
  let payloadLen := UInt16.ofNat data.length
  let header ←
    if 0 < ready.dataShards then
      authenticatedDataHeaderV3 ready.msgType ready.blockHash chunkId ready.totalChunks payloadLen
        ready.dataShards (computeHmacV3 p session.authKey ready.blockHash chunkId
          ready.totalChunks payloadLen ready.dataShards data)
    else
      authenticatedDataHeader ready.msgType ready.blockHash chunkId ready.totalChunks payloadLen
        (computeHmac p session.authKey ready.blockHash chunkId ready.totalChunks payloadLen data)
  return (Chunk.mk header data).toBytes

/-- What goes to each peer. -/
def forwardToPeers (sessions : Table SocketAddr RelaySession) (src : SocketAddr)
    (ready : ReadyChunks) : Except TransportError (List (SocketAddr × List (List UInt8))) := do
  let outbound ← (sessions.entries.filter fun e => e.1 ≠ src).mapM fun e => do
    return (e.1, ← ready.chunks.mapM (forwardChunk p e.2 ready))
  return outbound.filter fun o => !o.2.isEmpty

/-- The datagram of a chunk under a key. -/
def datagram (authKey : Bytes32) (ready : ReadyChunks) (chunk : UInt16 × List UInt8) : List UInt8 :=
  let payloadLen := UInt16.ofNat chunk.2.length
  Chunk.toBytes
    { header :=
        if 0 < ready.dataShards then
          .newV3 ready.msgType ready.blockHash chunk.1 ready.totalChunks payloadLen
            ready.dataShards (computeHmacV3 p authKey ready.blockHash chunk.1 ready.totalChunks
              payloadLen ready.dataShards chunk.2)
        else
          .newAuthenticated ready.msgType ready.blockHash chunk.1 ready.totalChunks payloadLen
            (computeHmac p authKey ready.blockHash chunk.1 ready.totalChunks payloadLen chunk.2)
      payload := chunk.2 }

/-- Everyone but the sender gets every chunk, under the key of the session. -/
def outboundTo (sessions : Table SocketAddr RelaySession) (src : SocketAddr)
    (ready : ReadyChunks) : List (SocketAddr × List (List UInt8)) :=
  ((sessions.entries.filter fun e => e.1 ≠ src).map fun e =>
    (e.1, ready.chunks.map (datagram p e.2.authKey ready))).filter fun o => !o.2.isEmpty

end Forward

variable {p : Primitives}

theorem forwardChunk_eq (session : RelaySession) (ready : ReadyChunks)
    (chunk : UInt16 × List UInt8) :
    forwardChunk p session ready chunk = .ok (datagram p session.authKey ready chunk) := by
  have hdata := ready.isData
  unfold forwardChunk datagram
  cases hmsg : ready.msgType with
  | keepalive | auth => rw [hmsg] at hdata; exact absurd hdata (by simp [MessageType.isData])
  | block | rawBlockSegment | compactSkeleton => dsimp only; split <;> rfl

theorem mapM_ok {α β ε : Type} {f : α → Except ε β} {g : α → β} (h : ∀ x, f x = .ok (g x))
    (l : List α) : l.mapM f = .ok (l.map g) := by
  induction l with
  | nil => rfl
  | cons x l ih => rw [List.mapM_cons, h x, ih]; rfl

/-- Objects are of a type that is forwarded, so no header is refused. -/
theorem forwardToPeers_eq (sessions : Table SocketAddr RelaySession) (src : SocketAddr)
    (ready : ReadyChunks) :
    forwardToPeers p sessions src ready = .ok (outboundTo p sessions src ready) := by
  unfold forwardToPeers
  rw [mapM_ok (g := fun e => (e.1, ready.chunks.map (datagram p e.2.authKey ready))) fun e => ?_]
  · rfl
  · rw [mapM_ok (forwardChunk_eq e.2 ready)]
    rfl

/-! ## The node and its steps -/

inductive Entry where
  /-- A session was made under a key of the set that was active. -/
  | admitted (src : SocketAddr) (key : AuthKey) (active : List AuthKey)
  /-- A chunk came to the session bound to `key`; `previous` is the entry the session had for it
  among its recent chunks. -/
  | received (src : SocketAddr) (key : AuthKey) (chunk : Chunk) (time : Nat) (previous : Option Nat)
  /-- The object of a session was let through. -/
  | promoted (src : SocketAddr) (assembly : BlockAssembly)
  /-- `forward_to_peers` was called for an object, and sent this. -/
  | forwarded (src : SocketAddr) (ready : ReadyChunks)
      (outbound : List (SocketAddr × List (List UInt8)))

structure World where
  config : RelayConfig
  clock : Nat
  activeKeys : List AuthKey
  sessions : Table SocketAddr RelaySession
  validatedRawBlocks : ValidatedCache
  /-- What the packet in hand still has to forward, with its sender. -/
  outgoing : List (SocketAddr × ReadyChunks)
  /-- The sets of the calls of `apply_active_keys` that have swapped and not evicted. -/
  rotations : Table Nat (List AuthKey)
  journal : List Entry

inductive Event where
  | elapse (duration : Nat)
  /-- A packet, with the verdict of the rate limiter should it be asked. -/
  | packet (data : List UInt8) (src : SocketAddr) (allowed : Bool)
  /-- The next object of the packet in hand. -/
  | forward
  /-- The first half of `apply_active_keys`. -/
  | swapKeys (id : Nat) (keys : List AuthKey)
  /-- The second half. -/
  | evict (id : Nat)
  /-- `cleanup_expired_sessions`. -/
  | cleanup

/-- The assemblies that are let through now and were not before. -/
def promotions (before after : Table Bytes32 BlockAssembly) : List BlockAssembly :=
  after.entries.filterMap fun e =>
    if e.2.powValidated ∧ (before.lookup e.1).all (fun a => !a.powValidated) then some e.2 else none

namespace World

/-- `with_validator`. -/
def withValidator (p : Primitives) (config : RelayConfig) : Except FecError World :=
  match config.validate with
  | .error error => .error (.invalidConfiguration s!"config error: {error.asStr}")
  | .ok () => do
    let _ ← FecDecoder.new p config.dataShards config.parityShards
    return ⟨config, 0, config.authorizedKeys, ∅, ∅, [], ∅, []⟩

def log (w : World) (entry : Entry) : World := { w with journal := entry :: w.journal }

/-- `UNAUTHENTICATED_KEY_ID`. -/
def unauthenticatedKeyId : String := "unauthenticated"

/-- The session of a source: the one it has, or a new one under the first active key that verifies
the packet. `supported` is what a keepalive checks of its version before that. -/
def authenticate (w : World) (src : SocketAddr) (allowed supported : Bool)
    (verify : Bytes32 → Bool) : Except TransportError (World × RelaySession) :=
  match w.sessions.lookup src with
  | some session =>
    if w.config.authRequired ∧ supported = false then .error .authenticationFailed
    else if w.config.authRequired ∧ verify session.authKey = false then
      .error .authenticationFailed
    else .ok (w, session.touch w.clock)
  | none =>
    if w.config.maxSessions ≤ w.sessions.entries.length then
      .error (.connectionRefused "relay session limit reached")
    else if w.config.authRequired = false then
      .ok (w, .newUnauthenticated src unauthenticatedKeyId w.clock)
    else if supported = false then .error .authenticationFailed
    else if allowed = false then
      .error (.connectionRefused "unauthenticated source rate limited")
    else match w.activeKeys.find? fun key => verify key.key with
      | some key => .ok (w.log (.admitted src key w.activeKeys),
          .newWithRole src key.id key.key key.role w.clock)
      | none => .error .authenticationFailed

/-- The session has the chunk. What it completed is forwarded unless the role of the session is
to receive only. -/
def deliver (p : Primitives) (w : World) (src : SocketAddr) (session : RelaySession) (chunk : Chunk)
    (isData : chunk.header.msgType.isData = true) : World :=
  let r := processChunkForSession p w.config w.clock w.validatedRawBlocks session chunk isData
  { w with
    sessions := w.sessions.insert src r.session
    validatedRawBlocks := r.cache
    outgoing := if session.role = .receiveOnly then [] else r.ready.map fun ready => (src, ready)
    journal := (promotions session.pendingBlocks r.session.pendingBlocks).map (.promoted src)
      ++ .received src session.binding chunk w.clock (session.recent.seen.lookup chunk.key)
        :: w.journal }

def handleKeepalive (p : Primitives) (w : World) (src : SocketAddr) (chunk : Chunk)
    (allowed : Bool) : Except TransportError World :=
  let h := chunk.header
  if h.blockHash ≠ (fun _ => 0) ∨ h.chunkId ≠ 0 ∨ h.totalChunks ≠ 0 ∨ h.payloadLen ≠ 0 ∨
      chunk.payload ≠ [] then
    .error (.invalidChunk "invalid keepalive framing")
  else do
    let (w, session) ← w.authenticate src allowed (h.version = 2) fun key => verifyHmac p key chunk
    return { w with sessions := w.sessions.insert src session }

/-- The checks of a data chunk before its session is looked up. Only version 2 is bound to the fixed
number of chunks. -/
def checkTotals (config : RelayConfig) (h : ChunkHeader) : Except TransportError Unit :=
  let expectedTotal := UInt16.ofNat (config.dataShards + config.parityShards)
  if h.totalChunks = 0 ∨ maxTotalChunks < h.totalChunks then
    .error (.invalidChunk s!"invalid total_chunks: {h.totalChunks}")
  else if h.version ≠ 3 ∧ h.totalChunks ≠ expectedTotal then
    .error (.invalidChunk
      s!"unexpected total_chunks: got {h.totalChunks}, expected {expectedTotal}")
  else if h.totalChunks ≤ h.chunkId then
    .error (.invalidChunk s!"chunk_id {h.chunkId} >= total_chunks {h.totalChunks}")
  else .ok ()

/-- The part of `handle_packet` up to the first forward. -/
def handlePacket (p : Primitives) (w : World) (data : List UInt8) (src : SocketAddr)
    (allowed : Bool) : Except TransportError World := do
  let chunk ← (Chunk.fromBytes data).mapError .io
  if chunk.header.msgType = .keepalive then w.handleKeepalive p src chunk allowed
  else if isData : chunk.header.msgType.isData = true then
    checkTotals w.config chunk.header
    let (w, session) ← w.authenticate src allowed true fun key => verifyDataChunkHmac p key chunk
    return w.deliver p src session chunk isData
  else .error (.invalidChunk "unsupported message type: Auth")

/-- The key of an id that is named twice is the last one. -/
def evictSessionsNotIn (w : World) (keys : List AuthKey) : World :=
  { w with sessions := w.sessions.retain fun _ session =>
      !session.authenticated ||
        (keys.reverse.find? fun key => key.id = session.keyId).any session.matchesAuthorization }

def cleanupExpiredSessions (w : World) : World :=
  { w with
    sessions := w.sessions.pass fun _ session =>
      if session.isExpired w.config.sessionTimeout w.clock then none
      else some ((session.cleanupAssemblies w.config.assemblyTimeout w.clock).cleanupRecent w.clock)
    validatedRawBlocks := w.validatedRawBlocks.cleanup w.clock }

def next (p : Primitives) (w : World) : Event → Option World
  | .elapse duration => some { w with clock := w.clock + duration }
  | .packet data src allowed =>
    if w.outgoing.isEmpty then
      match w.handlePacket p data src allowed with
      | .ok w' => some w'
      | .error _ => some w
    else none
  | .forward =>
    match w.outgoing with
    | [] => none
    | (src, ready) :: rest =>
      match forwardToPeers p w.sessions src ready with
      | .ok outbound => some ({ w with outgoing := rest }.log (.forwarded src ready outbound))
      | .error _ => some { w with outgoing := [] }
  | .swapKeys id keys =>
    if (w.rotations.lookup id).isNone then
      some { w with activeKeys := keys, rotations := w.rotations.insert id keys }
    else none
  | .evict id => do
    let keys ← w.rotations.lookup id
    some { w.evictSessionsNotIn keys with rotations := w.rotations.erase id }
  | .cleanup => if w.outgoing.isEmpty then some w.cleanupExpiredSessions else none

/-- The node as it comes up under this configuration. -/
def Start (p : Primitives) (config : RelayConfig) (w : World) : Prop :=
  withValidator p config = .ok w

variable {w w' : World} {src : SocketAddr} {allowed : Bool}

theorem Start.eq {config : RelayConfig} (h : Start p config w) :
    w = ⟨config, 0, config.authorizedKeys, ∅, ∅, [], ∅, []⟩ := by
  rw [Start, withValidator] at h
  split at h
  · cases h
  · obtain ⟨_, -, h⟩ := Results.bind_eq_ok.mp h
    injection h with h
    exact h.symm

/-! ## What a packet does -/

/-- The session a packet goes to. -/
inductive Authenticated (w : World) (src : SocketAddr) (verify : Bytes32 → Bool) :
    World → RelaySession → Prop where
  | known {session : RelaySession} : w.sessions.lookup src = some session →
      (w.config.authRequired = true → verify session.authKey = true) →
      Authenticated w src verify w (session.touch w.clock)
  | unkeyed : w.sessions.lookup src = none → w.config.authRequired = false →
      Authenticated w src verify w (.newUnauthenticated src unauthenticatedKeyId w.clock)
  | keyed {key : AuthKey} : w.sessions.lookup src = none → w.config.authRequired = true →
      key ∈ w.activeKeys → verify key.key = true →
      Authenticated w src verify (w.log (.admitted src key w.activeKeys))
        (.newWithRole src key.id key.key key.role w.clock)

theorem Authenticated.of_ok {w₁ : World} {supported : Bool} {verify : Bytes32 → Bool}
    {session : RelaySession} (h : w.authenticate src allowed supported verify = .ok (w₁, session)) :
    Authenticated w src verify w₁ session := by
  unfold authenticate at h
  split at h
  · rename_i session₀ hlookup
    split at h
    · cases h
    split at h
    · cases h
    rename_i hverify
    injection h with h
    injection h with h₁ h₂
    subst h₁ h₂
    refine .known hlookup fun hauth => ?_
    cases hv : verify session₀.authKey with
    | true => rfl
    | false => exact absurd ⟨hauth, hv⟩ hverify
  · rename_i hlookup
    split at h
    · cases h
    split at h
    · rename_i hopen
      injection h with h
      injection h with h₁ h₂
      subst h₁ h₂
      exact .unkeyed hlookup hopen
    rename_i hclosed
    split at h
    · cases h
    split at h
    · cases h
    split at h
    · rename_i key hfind
      injection h with h
      injection h with h₁ h₂
      subst h₁ h₂
      exact .keyed hlookup (by simpa using hclosed) (List.mem_of_find?_eq_some hfind)
        (List.find?_some (p := fun k : AuthKey => verify k.key) hfind)
    · cases h

inductive Handled (p : Primitives) (w : World) (src : SocketAddr) : World → Prop where
  | kept {chunk : Chunk} {w₁ : World} {session : RelaySession} :
      Authenticated w src (fun key => verifyHmac p key chunk) w₁ session →
      Handled p w src { w₁ with sessions := w₁.sessions.insert src session }
  | delivered {chunk : Chunk} (isData : chunk.header.msgType.isData = true) {w₁ : World}
      {session : RelaySession} :
      Authenticated w src (fun key => verifyDataChunkHmac p key chunk) w₁ session →
      Handled p w src (w₁.deliver p src session chunk isData)

theorem Handled.of_keepalive {chunk : Chunk} (h : w.handleKeepalive p src chunk allowed = .ok w') :
    Handled p w src w' := by
  unfold handleKeepalive at h
  dsimp only at h
  split at h
  · cases h
  · obtain ⟨⟨w₁, session⟩, hauth, h⟩ := Results.bind_eq_ok.mp h
    cases h
    exact .kept (.of_ok hauth)

theorem Handled.of_ok {data : List UInt8} (h : w.handlePacket p data src allowed = .ok w') :
    Handled p w src w' := by
  obtain ⟨chunk, -, h⟩ := Results.bind_eq_ok.mp h
  split at h
  · exact .of_keepalive h
  split at h
  · rename_i isData
    obtain ⟨_, -, h⟩ := Results.bind_eq_ok.mp h
    obtain ⟨⟨w₁, session⟩, hauth, h⟩ := Results.bind_eq_ok.mp h
    cases h
    exact .delivered isData (.of_ok hauth)
  · cases h

/-- The steps, each with what it needs. -/
inductive Step (p : Primitives) (w : World) : Event → World → Prop where
  | elapse (duration : Nat) : Step p w (.elapse duration) { w with clock := w.clock + duration }
  | refused {data : List UInt8} {src : SocketAddr} {allowed : Bool} :
      Step p w (.packet data src allowed) w
  | packet {data : List UInt8} {src : SocketAddr} {allowed : Bool} {w' : World} :
      w.outgoing = [] → Handled p w src w' → Step p w (.packet data src allowed) w'
  | forward {src : SocketAddr} {ready : ReadyChunks} {rest : List (SocketAddr × ReadyChunks)} :
      w.outgoing = (src, ready) :: rest →
      Step p w .forward ({ w with outgoing := rest }.log
        (.forwarded src ready (outboundTo p w.sessions src ready)))
  | swapKeys {id : Nat} {keys : List AuthKey} : w.rotations.lookup id = none →
      Step p w (.swapKeys id keys)
        { w with activeKeys := keys, rotations := w.rotations.insert id keys }
  | evict {id : Nat} {keys : List AuthKey} : w.rotations.lookup id = some keys →
      Step p w (.evict id) { w.evictSessionsNotIn keys with rotations := w.rotations.erase id }
  | cleanup : w.outgoing = [] → Step p w .cleanup w.cleanupExpiredSessions

theorem Step.of_next {e : Event} (h : w.next p e = some w') : Step p w e w' := by
  cases e with
  | elapse duration => injection h with h; exact h ▸ .elapse duration
  | packet data src allowed =>
    rw [next] at h
    split at h
    · rename_i hidle
      split at h
      · rename_i w₁ hhandled
        injection h with h
        exact h ▸ .packet (List.isEmpty_iff.mp hidle) (.of_ok hhandled)
      · injection h with h
        exact h ▸ .refused
    · cases h
  | forward =>
    rw [next] at h
    split at h
    · cases h
    · rename_i src ready rest houtgoing
      rw [forwardToPeers_eq] at h
      injection h with h
      exact h ▸ .forward houtgoing
  | swapKeys id keys =>
    obtain ⟨hfree, rfl⟩ := of_guard h
    exact .swapKeys (Option.isNone_iff_eq_none.mp hfree)
  | evict id =>
    obtain ⟨keys, hkeys, h⟩ := Option.bind_eq_some_iff.mp h
    injection h with h
    exact h ▸ .evict hkeys
  | cleanup =>
    obtain ⟨hidle, rfl⟩ := of_guard h
    exact .cleanup (List.isEmpty_iff.mp hidle)

end World

end MiningInfra.Relay
