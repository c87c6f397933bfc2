import MiningInfra.Relay.Sender

/-!
# The relay client

The receiving side of a client. One loop takes a datagram, a keepalive tick or an outgoing payload
at a time; objects are collected by the id of their chunks and delivered once they decode. An id is
then ignored for a while. Every hundred turns of the loop drop what is too old.

The journal is the record of the chunks that came, newest first; no step reads it. Whoever takes
the payloads is taken to be there.
-/

namespace MiningInfra.Relay

open Lib Coinbase

/-- `MAX_PENDING_BLOCKS_CLIENT`. -/
def maxPendingBlocksClient : Nat := 64

/-- `RECENT_DELIVERED_TTL`. -/
def recentDeliveredTtl : Nat := 120 * 1000

/-- The size of `recv_buf`: a longer datagram is cut. -/
def recvBufSize : Nat := 2048

structure ClientConfig where
  relayAddrs : List SocketAddr
  authKey : Bytes32
  dataShards : Nat
  parityShards : Nat
  recvTimeout : Nat
  authRequired : Bool
  sendBurstPackets : Nat
  sendBurstDelay : Nat
  adaptiveFec : Bool

def ClientConfig.validate (c : ClientConfig) : Except TransportError Unit := do
  if c.dataShards = 0 then throw (.invalidChunk "data_shards must be > 0")
  if c.parityShards = 0 then throw (.invalidChunk "parity_shards must be > 0")
  let total := c.dataShards + c.parityShards
  if RelayConfig.maxTotalShards < total then
    throw (.invalidChunk
      s!"total shards ({total}) exceeds maximum ({RelayConfig.maxTotalShards})")
  if c.relayAddrs = [] then throw (.invalidChunk "relay_addrs must not be empty")
  if c.authRequired = true ∧ c.authKey = fun _ => 0 then
    throw (.invalidChunk "auth_required set but auth_key is all zeros")
  if c.sendBurstPackets = 0 ∧ c.sendBurstDelay ≠ 0 then
    throw (.invalidChunk "send_burst_packets must be > 0 when send_burst_delay is set")

inductive RelayPayload where
  | compactBlock (block : CompactBlock)
  | rawBlockSegment (segment : RawBlockSegment)
  | compactSkeleton (block : CompactBlock)
  deriving DecidableEq

section Code

variable (p : Primitives)

def chunksToCompactBlockWithShards (chunks : Shards) (originalLen dataShards : Nat) :
    Except FecError CompactBlock := do
  let data ← decodeDataWithShards p chunks originalLen dataShards
  (deserializeCompactBlock data).mapError fun e =>
    FecError.decodingFailed s!"deserialization failed: {e}"

def decodePayload (msgType : MessageType) (chunks : Shards) (originalLen dataShards : Nat) :
    Option RelayPayload :=
  match msgType with
  | .block =>
    (chunksToCompactBlockWithShards p chunks originalLen dataShards).toOption.map .compactBlock
  | .rawBlockSegment =>
    (chunksToRawBlockSegmentWithShards p chunks originalLen dataShards).toOption.map
      .rawBlockSegment
  | .compactSkeleton =>
    (chunksToCompactBlockWithShards p chunks originalLen dataShards).toOption.map .compactSkeleton
  | .keepalive | .auth => none

structure RelayClient where
  config : ClientConfig
  now : Nat
  /-- Each assembly with the estimate of its length, zero until there is one. -/
  pending : Table Bytes32 (BlockAssembly × Nat)
  recentDelivered : Table Bytes32 Nat
  cleanupCounter : Nat
  delivered : List RelayPayload
  journal : List (Nat × Chunk)

namespace RelayClient

/-- Deliver the object of an assembly if it decodes, or keep the assembly. -/
def settle (c : RelayClient) (h : ChunkHeader) (assembly : BlockAssembly)
    (originalLen dataShards : Nat) : RelayClient :=
  let kept := { c with pending := c.pending.insert h.blockHash (assembly, originalLen) }
  if dataShards ≤ assembly.receivedCount ∧ 0 < originalLen then
    match decodePayload p h.msgType assembly.chunks originalLen dataShards with
    | some payload =>
      { c with
        delivered := payload :: c.delivered
        recentDelivered := c.recentDelivered.insert h.blockHash c.now
        pending := c.pending.erase h.blockHash }
    | none => kept
  else kept

/-- Put the chunk into its assembly. -/
def addChunk (c : RelayClient) (chunk : Chunk) (entry : BlockAssembly × Nat) : RelayClient :=
  let h := chunk.header
  if entry.1.totalChunks ≠ h.totalChunks.toNat ∨ entry.1.msgType ≠ h.msgType then c
  else match entry.1.captureDataShards h.dataShards with
    | none => c
    | some assembly =>
      if (assembly.chunk h.chunkId.toNat).isSome then
        { c with pending := c.pending.insert h.blockHash (assembly, entry.2) }
      else
        let assembly := assembly.addChunk h.chunkId.toNat chunk.payload
        let dataShards := assembly.effectiveDataShards c.config.dataShards
        let originalLen :=
          if entry.2 = 0 then ((assembly.chunks.filterMap id).head?.map fun shard =>
            shard.length * dataShards).getD 0
          else entry.2
        c.settle p h assembly originalLen dataShards

/-- Get or create the assembly. -/
def collect (c : RelayClient) (chunk : Chunk) (isData : chunk.header.msgType.isData = true) :
    RelayClient :=
  let h := chunk.header
  match c.pending.lookup h.blockHash with
  | some entry => c.addChunk p chunk entry
  | none =>
    if maxPendingBlocksClient ≤ c.pending.entries.length then c
    else c.addChunk p chunk (.newForMessage h.blockHash h.totalChunks isData c.now, 0)

def recentlyDelivered (c : RelayClient) (objectHash : Bytes32) : Bool :=
  (c.recentDelivered.lookup objectHash).any fun seenAt => c.now - seenAt ≤ recentDeliveredTtl

def handleIncomingChunk (c : RelayClient) (chunk : Chunk) : RelayClient :=
  let h := chunk.header
  if c.recentlyDelivered h.blockHash then c
  else if isData : h.msgType.isData = true then
    if h.totalChunks = 0 ∨ h.totalChunks ≤ h.chunkId then c
    else if maxTotalChunks < h.totalChunks then c
    -- only version 2 has the shape of the configuration
    else if h.version ≠ 3 ∧ h.totalChunks.toNat ≠ c.config.dataShards + c.config.parityShards then c
    else if c.config.authRequired = true ∧ h.version ≠ 2 ∧ h.version ≠ 3 then c
    else if verifyDataChunkHmac p c.config.authKey chunk = false then c
    else c.collect p chunk isData
  else c

/-- Write down that a chunk has come. -/
def record (c : RelayClient) (chunk : Chunk) : RelayClient :=
  { c with journal := (c.now, chunk) :: c.journal }

def receive (c : RelayClient) (datagram : List UInt8) : RelayClient :=
  match Chunk.fromBytes (datagram.take recvBufSize) with
  | .ok chunk => (c.record chunk).handleIncomingChunk p chunk
  | .error _ => c

/-- What follows every turn of the loop. -/
def cleanup (c : RelayClient) : RelayClient :=
  if c.cleanupCounter + 1 < 100 then { c with cleanupCounter := c.cleanupCounter + 1 }
  else
    { c with
      cleanupCounter := 0
      pending := c.pending.retain fun _ entry => !entry.1.isExpired c.config.recvTimeout c.now
      recentDelivered :=
        c.recentDelivered.retain fun _ seenAt => c.now - seenAt ≤ recentDeliveredTtl }

end RelayClient

/-- One turn of the loop, some time after the last. -/
inductive ClientEvent where
  | datagram (elapsed : Nat) (bytes : List UInt8)
  /-- A keepalive or an outgoing payload. -/
  | other (elapsed : Nat)

def RelayClient.next (c : RelayClient) : ClientEvent → Option RelayClient
  | .datagram elapsed bytes => some (({ c with now := c.now + elapsed }.receive p bytes).cleanup)
  | .other elapsed => some ({ c with now := c.now + elapsed }.cleanup)

/-- A client as it starts to run. -/
def RelayClient.Start (config : ClientConfig) (c : RelayClient) : Prop :=
  c = ⟨config, c.now, ∅, ∅, 0, [], []⟩

end Code

end MiningInfra.Relay
