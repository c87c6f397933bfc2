import Mathlib.Data.List.MinMax
import MiningInfra.Relay.Compact
import MiningInfra.Relay.Session

/-!
# A chunk in its session

What a session does with a chunk: store it, judge the object as soon as it decodes, and hand out
what may be forwarded. A compact block or a skeleton is judged by its header. A raw block comes in
segments and only segment zero has the header, so its metadata is cached for the segments after
it; all sessions share that cache.

Metrics and the log of arrivals are left out.
-/

namespace MiningInfra.Relay

open Lib Coinbase

structure RelayConfig where
  listenAddr : SocketAddr
  dataShards : Nat
  parityShards : Nat
  chunkSize : Nat
  sessionTimeout : Nat
  assemblyTimeout : Nat
  authorizedKeys : List AuthKey
  allowUnauthenticatedPeers : Bool
  maxSessions : Nat
  forwardBurstPackets : Nat
  forwardBurstDelay : Nat

def RelayConfig.authRequired (c : RelayConfig) : Bool := !c.allowUnauthenticatedPeers

structure ReadyChunks where
  msgType : MessageType
  blockHash : Bytes32
  totalChunks : UInt16
  dataShards : UInt16
  chunks : List (UInt16 × List UInt8)
  isData : msgType.isData = true

/-! ## The cache of validated raw blocks -/

/-- `MAX_VALIDATED_RAW_BLOCKS`. -/
def maxValidatedRawBlocks : Nat := 4096

/-- `VALIDATED_RAW_BLOCK_TTL`. -/
def validatedRawBlockTtl : Nat := 120 * 1000

structure ValidatedRawBlock where
  segmentCount : UInt16
  rawBlockLen : UInt64
  rawBlockDigest : Bytes32
  validatedAt : Nat
  deriving DecidableEq

namespace ValidatedRawBlock

def fromSegmentZero (segment : RawBlockSegment) (now : Nat) : ValidatedRawBlock :=
  ⟨segment.segmentCount, segment.rawBlockLen, segment.rawBlockDigest, now⟩

def matchesSegment (v : ValidatedRawBlock) (segment : RawBlockSegment) : Bool :=
  v.segmentCount = segment.segmentCount ∧ v.rawBlockLen = segment.rawBlockLen ∧
    v.rawBlockDigest = segment.rawBlockDigest

end ValidatedRawBlock

abbrev ValidatedCache := Table Bytes32 ValidatedRawBlock

namespace ValidatedCache

/-- `cleanup_validated_raw_blocks_locked`. -/
def cleanup (now : Nat) (cache : ValidatedCache) : ValidatedCache :=
  Table.retain (fun _ entry => now - entry.validatedAt ≤ validatedRawBlockTtl) cache

/-- `evict_oldest_validated_raw_block`. -/
def evictOldest (cache : ValidatedCache) : ValidatedCache :=
  match cache.entries.argmin fun e => e.2.validatedAt with
  | none => cache
  | some oldest => cache.erase oldest.1

/-- `record_validated_raw_block`. -/
def record (now : Nat) (cache : ValidatedCache) (segmentZero : RawBlockSegment) : ValidatedCache :=
  let cache := cleanup now cache
  let cache := if maxValidatedRawBlocks ≤ cache.entries.length then evictOldest cache else cache
  cache.insert segmentZero.blockHash (.fromSegmentZero segmentZero now)

/-- `raw_segment_matches_validated_segment_zero`. -/
def matchesSegmentZero (now : Nat) (cache : ValidatedCache) (segment : RawBlockSegment) :
    Bool × ValidatedCache :=
  let cache := cleanup now cache
  ((cache.lookup segment.blockHash).any fun entry => entry.matchesSegment segment, cache)

end ValidatedCache

/-! ## Decoding and judging an assembly -/

section Code

variable (p : Primitives) (config : RelayConfig) (now : Nat)

def estimateOriginalLen (assembly : BlockAssembly) : Option Nat :=
  (assembly.chunks.filterMap id).head?.map fun shard =>
    shard.length * assembly.effectiveDataShards config.dataShards

def decodeRawSegmentFromAssembly (assembly : BlockAssembly) : Option RawBlockSegment := do
  let estLen ← estimateOriginalLen config assembly
  let dataShards := assembly.effectiveDataShards config.dataShards
  (chunksToRawBlockSegmentWithShards p assembly.chunks estLen dataShards).toOption

/-- The header in the bytes of a compact block, read without the rest of it. -/
def headerOfCompactBytes (data : List UInt8) : Option (List UInt8) :=
  if data.length < 4 then none
  else
    let contentLen := leNat (data.take 4)
    if contentLen < 4 ∨ data.length < 4 + contentLen then none
    else
      let content := slice data 4 contentLen
      let headerLen := leNat (content.take 4)
      if headerLen = 0 ∨ content.length < 4 + headerLen then none
      else some (slice content 4 headerLen)

def decodeHeaderFromAssembly (assembly : BlockAssembly) : Option (List UInt8) := do
  let estLen ← estimateOriginalLen config assembly
  let dataShards := assembly.effectiveDataShards config.dataShards
  let data ← (decodeDataWithShards p assembly.chunks estLen dataShards).toOption
  headerOfCompactBytes data

/-- Nothing is said of a header that is too short to tell. -/
def PowResult.verdict : PowResult → Option Bool
  | .valid => some true
  | .invalid => some false
  | .indeterminate => none

/-- `validate_compact_block_pow_with_identity`. The object hash of the assembly is not looked
at. -/
def validateCompactBlockPow (assembly : BlockAssembly) : Option Bool := do
  let header ← decodeHeaderFromAssembly p config assembly
  (p.validate header).verdict

/-- `validate_raw_block_segment_with_identity`. -/
def validateRawBlockSegment (cache : ValidatedCache) (assembly : BlockAssembly) :
    Option Bool × ValidatedCache :=
  match decodeRawSegmentFromAssembly p config assembly with
  | none => (none, cache)
  | some segment =>
    if segmentObjectHash p.hashes segment.blockHash segment.segmentIndex ≠ assembly.blockHash then
      (some false, cache)
    else if segment.segmentIndex ≠ 0 then
      let (isMatch, cache) := cache.matchesSegmentZero now segment
      (some isMatch, cache)
    else if segment.payload.length < zcashFullHeaderSize then (none, cache)
    else
      let header := segment.payload.take zcashFullHeaderSize
      if zcashBlockHash p.hashes header ≠ segment.blockHash then (some false, cache)
      else match p.validate header with
        | .valid => (some true, cache.record now segment)
        | .invalid => (some false, cache)
        | .indeterminate => (none, cache)

/-- `validate_pow_with_identity`. -/
def validatePow (cache : ValidatedCache) (assembly : BlockAssembly) :
    Option Bool × ValidatedCache :=
  match assembly.msgType with
  | .block | .compactSkeleton => (validateCompactBlockPow p config assembly, cache)
  | .rawBlockSegment => validateRawBlockSegment p config now cache assembly
  | .keepalive | .auth => (none, cache)

/-! ## Processing a chunk -/

/-- The number of data shards an object is bound to with its first chunk of version 3. -/
def BlockAssembly.captureDataShards (a : BlockAssembly) (dataShards : UInt16) :
    Option BlockAssembly :=
  if dataShards = 0 then some a
  else if a.dataShards = 0 then some { a with dataShards }
  else if a.dataShards ≠ dataShards then none
  else some a

/-- An undecided object keeps the verdict it has. -/
def judge (cache : ValidatedCache) (assembly : BlockAssembly) : BlockAssembly × ValidatedCache :=
  match validatePow p config now cache assembly with
  | (some valid, cache) => ({ assembly with powValidated := valid }, cache)
  | (none, cache) => (assembly, cache)

/-- A later segment whose segment zero was validated is let through. Its object hash is not
compared with its contents here. -/
def refreshCachedRawSegment (state : RelaySession × ValidatedCache) (objectHash : Bytes32) :
    RelaySession × ValidatedCache :=
  let (session, cache) := state
  match session.pendingBlocks.lookup objectHash with
  | none => (session, cache)
  | some assembly =>
    match decodeRawSegmentFromAssembly p config assembly with
    | none => (session, cache)
    | some segment =>
      if segment.segmentIndex = 0 then (session, cache)
      else
        let (isMatch, cache) := cache.matchesSegmentZero now segment
        if isMatch then
          ({ session with pendingBlocks :=
              session.pendingBlocks.insert objectHash { assembly with powValidated := true } },
            cache)
        else (session, cache)

def refreshCachedRawSegmentAssemblies (session : RelaySession) (cache : ValidatedCache) :
    RelaySession × ValidatedCache :=
  let objectHashes := session.pendingBlocks.entries.filterMap fun e =>
    if e.2.msgType = .rawBlockSegment ∧ e.2.powValidated = false then some e.1 else none
  objectHashes.foldl (refreshCachedRawSegment p config now) (session, cache)

end Code

/-- What an assembly has to forward. -/
def BlockAssembly.ready (a : BlockAssembly) : Option ReadyChunks :=
  if a.powValidated = false ∨ a.unforwarded = [] then none
  else some ⟨a.msgType, a.blockHash, UInt16.ofNat a.totalChunks, a.dataShards, a.unforwarded, a.isData⟩

/-- The assembly after that. -/
def BlockAssembly.collected (a : BlockAssembly) : BlockAssembly :=
  if a.powValidated then a.markForwarded else a

def collectReadyChunks (session : RelaySession) : List ReadyChunks × RelaySession :=
  (session.pendingBlocks.entries.filterMap fun e => e.2.ready,
    { session with pendingBlocks := session.pendingBlocks.pass fun _ a => some a.collected })

structure Processed where
  ready : List ReadyChunks
  session : RelaySession
  cache : ValidatedCache

section Code

variable (p : Primitives) (config : RelayConfig) (now : Nat)

/-- The chunk is in its assembly: judge it, and see what can go out. -/
def settleAssembly (cache : ValidatedCache) (session : RelaySession) (objectHash : Bytes32)
    (assembly : BlockAssembly) (isNew : Bool) : Processed :=
  let (assembly, cache) :=
    if isNew ∧ assembly.powValidated = false then judge p config now cache assembly
    else (assembly, cache)
  let session :=
    { session with pendingBlocks := session.pendingBlocks.insert objectHash assembly }
  let (session, cache) :=
    if assembly.msgType = .rawBlockSegment then
      refreshCachedRawSegmentAssemblies p config now session cache
    else (session, cache)
  let (ready, session) := collectReadyChunks session
  ⟨ready, session, cache⟩

/-- A chunk counts as seen before anything else is checked. -/
def processChunkForSession (cache : ValidatedCache) (session : RelaySession) (chunk : Chunk)
    (isData : chunk.header.msgType.isData = true) : Processed :=
  match session.markChunkSeen chunk.key now with
  | (false, session) => ⟨[], session, cache⟩
  | (true, session) =>
    match session.getOrCreateAssemblyForMessage chunk.header.blockHash chunk.header.totalChunks
        isData now with
    | none => ⟨[], session, cache⟩
    | some (assembly, session) =>
      if assembly.msgType ≠ chunk.header.msgType ∨
          assembly.totalChunks ≠ chunk.header.totalChunks.toNat then ⟨[], session, cache⟩
      else match assembly.captureDataShards chunk.header.dataShards with
        | none => ⟨[], session, cache⟩
        | some assembly =>
          let chunkId := chunk.header.chunkId.toNat
          settleAssembly p config now cache session chunk.header.blockHash
            (assembly.addChunk chunkId chunk.payload) (assembly.chunk chunkId).isNone

end Code

/-! ## The cache up to what has expired

Every read of the cache drops first what has expired, so two caches that differ only in that
cannot be told apart. -/

namespace ValidatedCache

theorem lookup_cleanup (now : Nat) (cache : ValidatedCache) (h : Bytes32) :
    (cleanup now cache).lookup h
      = (cache.lookup h).filter fun entry => now - entry.validatedAt ≤ validatedRawBlockTtl :=
  Table.lookup_retain _ cache h

theorem cleanup_cleanup (now : Nat) (cache : ValidatedCache) :
    cleanup now (cleanup now cache) = cleanup now cache := by
  refine AList.ext ?_
  simp only [cleanup, Table.entries_retain, List.filter_filter, Bool.and_self]

variable {now : Nat} {cache : ValidatedCache} {h : Bytes32} {entry : ValidatedRawBlock}

theorem of_lookup_cleanup (hlookup : (cleanup now cache).lookup h = some entry) :
    cache.lookup h = some entry := by
  rw [lookup_cleanup] at hlookup
  exact (Option.filter_eq_some_iff.mp hlookup).1

/-- Equal but for what has expired. -/
def Agree (now : Nat) (cache cache' : ValidatedCache) : Prop :=
  cleanup now cache = cleanup now cache'

theorem Agree.cleanup (now : Nat) (cache : ValidatedCache) :
    Agree now (ValidatedCache.cleanup now cache) cache := cleanup_cleanup now cache

theorem of_lookup_record {zero : RawBlockSegment}
    (hlookup : (record now cache zero).lookup h = some entry) :
    cache.lookup h = some entry ∨ h = zero.blockHash ∧ entry = .fromSegmentZero zero now := by
  rcases Table.of_lookup_insert hlookup with ⟨rfl, rfl⟩ | hlookup
  · exact Or.inr ⟨rfl, rfl⟩
  · left
    split at hlookup
    · rw [evictOldest] at hlookup
      split at hlookup
      · exact of_lookup_cleanup hlookup
      · exact of_lookup_cleanup (Table.of_lookup_erase hlookup)
    · exact of_lookup_cleanup hlookup

end ValidatedCache

end MiningInfra.Relay
