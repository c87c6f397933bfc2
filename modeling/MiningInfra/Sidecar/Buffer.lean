import MiningInfra.Lib.Table
import MiningInfra.Relay.Segment

/-!
# The buffer of raw segments

Segments wait here until their block is complete. The lengths and the counts are what the sender
says, so they are bounded before a slot is made for them. A payload is charged with its length:
the vectors come from `to_vec`, which allocates no more. Failed allocations are left out.
-/

namespace MiningInfra.Sidecar

open Lib Coinbase Relay

structure RawSegmentBufferConfig where
  maxIncompleteBlocks : Nat
  maxTotalPayloadBytes : Nat
  /-- In milliseconds. -/
  ttl : Nat
  /-- `size_of::<Option<RawBlockSegment>>()`. -/
  slotSize : Nat
  /-- `size_of::<([u8; 32], RawSegmentEntry)>()`. -/
  entrySize : Nat
  deriving DecidableEq, Repr

structure RawSegmentEntry where
  firstSeen : Nat
  bytes : Nat
  bufferedBytes : Nat
  segments : List (Option RawBlockSegment)
  deriving DecidableEq

structure RawSegmentBuffer where
  config : RawSegmentBufferConfig
  entries : Table Bytes32 RawSegmentEntry
  totalPayloadBytes : Nat
  totalBufferedBytes : Nat

inductive RawSegmentInsert where
  | pending
  | complete (segments : List RawBlockSegment) (firstSeen : Nat)
  | dropped (reason : String)

namespace RawSegmentBuffer

def new (config : RawSegmentBufferConfig) : RawSegmentBuffer := ⟨config, ∅, 0, 0⟩

def removeEntry (b : RawSegmentBuffer) (blockHash : Bytes32) : RawSegmentBuffer :=
  match b.entries.lookup blockHash with
  | none => b
  | some entry => { b with
      entries := b.entries.erase blockHash
      totalPayloadBytes := b.totalPayloadBytes - entry.bytes
      totalBufferedBytes := b.totalBufferedBytes - entry.bufferedBytes }

def expire (b : RawSegmentBuffer) (now : Nat) : RawSegmentBuffer :=
  let expired := b.entries.entries.filter fun e =>
    e.2.firstSeen ≤ now ∧ b.config.ttl ≤ now - e.2.firstSeen
  (expired.map (·.1)).foldl removeEntry b

/-- The entry that was seen first. Among several it is the first of the table. -/
def oldest (b : RawSegmentBuffer) : Option Bytes32 :=
  (b.entries.entries.foldl (fun best e =>
    match best with
    | none => some (e.1, e.2.firstSeen)
    | some (hash, seen) =>
      if e.2.firstSeen < seen then some (e.1, e.2.firstSeen) else some (hash, seen)) none).map (·.1)

/-- One turn for each entry is enough: with none left the loop breaks. -/
def evictOldest : Nat → RawSegmentBuffer → RawSegmentBuffer
  | 0, b => b
  | turns + 1, b =>
    if b.entries.entries.length < b.config.maxIncompleteBlocks then b
    else match b.oldest with
      | none => b
      | some blockHash => evictOldest turns (b.removeEntry blockHash)

/-- Make room for a block and open its entry, if it has none yet. -/
def openEntry (b : RawSegmentBuffer) (segment : RawBlockSegment) (metadataBytes now : Nat) :
    Except String Unit × RawSegmentBuffer :=
  if (b.entries.lookup segment.blockHash).isSome then (.ok (), b)
  else
    let b := b.evictOldest b.entries.entries.length
    if b.config.maxIncompleteBlocks ≤ b.entries.entries.length then
      (.error "raw segment block limit exhausted", b)
    else if b.config.maxTotalPayloadBytes
        < b.totalBufferedBytes + metadataBytes + segment.payload.length then
      (.error "raw segment byte limit exhausted", b)
    else
      let entry : RawSegmentEntry :=
        ⟨now, 0, metadataBytes, List.replicate segment.segmentCount.toNat none⟩
      (.ok (), { b with
        entries := b.entries.insert segment.blockHash entry
        totalBufferedBytes := b.totalBufferedBytes + metadataBytes })

/-- Does the segment describe another block than those that are there? -/
def inconsistent (entry : RawSegmentEntry) (segment : RawBlockSegment) : Bool :=
  entry.segments.length ≠ segment.segmentCount.toNat ||
    (entry.segments.filterMap id).head?.any fun first =>
      first.rawBlockLen ≠ segment.rawBlockLen || first.rawBlockDigest ≠ segment.rawBlockDigest

/-- Put the segment into its slot, and take the block out when it was the last. -/
def fill (b : RawSegmentBuffer) (entry : RawSegmentEntry) (segment : RawBlockSegment) :
    RawSegmentInsert × RawSegmentBuffer :=
  let blockHash := segment.blockHash
  if inconsistent entry segment then
    (.dropped "inconsistent raw segment metadata", b.removeEntry blockHash)
  else if (entry.segments.getD segment.segmentIndex.toNat none).isSome then (.pending, b)
  else if b.config.maxTotalPayloadBytes < b.totalBufferedBytes + segment.payload.length ∨
      segment.rawBlockLen.toNat < entry.bytes + segment.payload.length then
    (.dropped "raw segment byte limit exhausted", b.removeEntry blockHash)
  else
    let entry := { entry with
      bytes := entry.bytes + segment.payload.length
      bufferedBytes := entry.bufferedBytes + segment.payload.length
      segments := entry.segments.set segment.segmentIndex.toNat (some segment) }
    let b := { b with
      entries := b.entries.insert blockHash entry
      totalPayloadBytes := b.totalPayloadBytes + segment.payload.length
      totalBufferedBytes := b.totalBufferedBytes + segment.payload.length }
    if entry.segments.all Option.isSome then
      (.complete (entry.segments.filterMap id) entry.firstSeen, b.removeEntry blockHash)
    else (.pending, b)

def insert (b : RawSegmentBuffer) (segment : RawBlockSegment) (now : Nat) :
    RawSegmentInsert × RawSegmentBuffer :=
  let b := b.expire now
  let limit := b.config.maxTotalPayloadBytes
  let rawLen := segment.rawBlockLen.toNat
  let count := segment.segmentCount.toNat
  let metadataBytes := count * b.config.slotSize + b.config.entrySize
  if count = 0 ∨ count ≤ segment.segmentIndex.toNat then
    (.dropped "invalid segment metadata", b.removeEntry segment.blockHash)
  else if limit < rawLen then
    (.dropped "raw block length exceeds raw segment byte limit", b.removeEntry segment.blockHash)
  else if max rawLen 1 < count ∨ rawLen < segment.payload.length then
    (.dropped "invalid raw block length or segment count", b.removeEntry segment.blockHash)
  else if limit < metadataBytes + segment.payload.length then
    (.dropped "raw segment metadata exceeds byte limit", b.removeEntry segment.blockHash)
  else match b.openEntry segment metadataBytes now with
    | (.error reason, b) => (.dropped reason, b)
    | (.ok (), b) =>
      match b.entries.lookup segment.blockHash with
      | none => (.dropped "raw segment entry unavailable", b)
      | some entry => b.fill entry segment

end RawSegmentBuffer

end MiningInfra.Sidecar
