import Mathlib.Algebra.Group.Nat.Defs
import MiningInfra.Coinbase.AuthDigest
import Mathlib.Data.List.Sort

/-!
# Raw blocks in segments

A raw block too large for one object goes out in segments, each with the metadata of the
whole. The object id of a segment, of a skeleton and of an adaptive compact block is derived
from the hash of the block, each in a domain of its own.
-/

namespace MiningInfra.Relay

open Coinbase

structure RawBlockSegment where
  blockHash : Bytes32
  segmentIndex : UInt16
  segmentCount : UInt16
  rawBlockLen : UInt64
  rawBlockDigest : Bytes32
  payloadDigest : Bytes32
  payload : List UInt8
  deriving DecidableEq

inductive SegmentedBlockError where
  | segmentPayloadTooSmall
  | tooManySegments (segmentCount : Nat)
  | frameTooShort
  | invalidMagic
  | unsupportedVersion (version : UInt8)
  | lengthMismatch
  | invalidSegmentIndex (segmentIndex segmentCount : UInt16)
  | duplicateSegment (segmentIndex : UInt16)
  | missingSegment (segmentIndex : UInt16)
  | inconsistentMetadata
  | digestMismatch
  deriving DecidableEq, Repr

namespace SegmentedBlockError

def asStr : SegmentedBlockError → String
  | segmentPayloadTooSmall => "segment frame budget leaves no payload room"
  | tooManySegments segmentCount => s!"raw block requires too many segments: {segmentCount}"
  | frameTooShort => "segment frame too short"
  | invalidMagic => "invalid segment magic"
  | unsupportedVersion version => s!"unsupported segment version: {version}"
  | lengthMismatch => "segment payload length does not match frame length"
  | invalidSegmentIndex segmentIndex segmentCount =>
    s!"segment index {segmentIndex} is outside segment count {segmentCount}"
  | duplicateSegment segmentIndex => s!"duplicate segment index {segmentIndex}"
  | missingSegment segmentIndex => s!"missing segment index {segmentIndex}"
  | inconsistentMetadata => "segments do not describe the same raw block"
  | digestMismatch => "segment digest mismatch"

end SegmentedBlockError

/-- A big-endian number. -/
def beNat (bs : List UInt8) : Nat := leNat bs.reverse

/-- The bytes `start..start + len`. -/
def slice (bs : List UInt8) (start len : Nat) : List UInt8 := (bs.drop start).take len

namespace RawBlockSegment

/-- `SEGMENT_MAGIC`, "FRSG". -/
def segmentMagic : Nat := 0x46525347

/-- `SEGMENT_VERSION`. -/
def segmentVersion : UInt8 := 1

/-- `HEADER_LEN`. -/
def headerLen : Nat := 4 + 1 + 1 + 2 + 2 + 4 + 8 + 32 + 32 + 32

def encode (s : RawBlockSegment) : List UInt8 :=
  (leBytes 4 segmentMagic).reverse ++ [segmentVersion, 0]
    ++ (leBytes 2 s.segmentIndex.toNat).reverse ++ (leBytes 2 s.segmentCount.toNat).reverse
    ++ (leBytes 4 s.payload.length).reverse ++ (leBytes 8 s.rawBlockLen.toNat).reverse
    ++ s.blockHash.toList ++ s.rawBlockDigest.toList ++ s.payloadDigest.toList ++ s.payload

def decode (hashes : Hashes) (frame : List UInt8) : Except SegmentedBlockError RawBlockSegment :=
  if frame.length < headerLen then .error .frameTooShort
  else if beNat (slice frame 0 4) ≠ segmentMagic then .error .invalidMagic
  else if frame.getD 4 0 ≠ segmentVersion then .error (.unsupportedVersion (frame.getD 4 0))
  else
    let segmentIndex := UInt16.ofNat (beNat (slice frame 6 2))
    let segmentCount := UInt16.ofNat (beNat (slice frame 8 2))
    let payloadLen := beNat (slice frame 10 4)
    let rawBlockLen := UInt64.ofNat (beNat (slice frame 14 8))
    let blockHash := toBytes32 (slice frame 22 32)
    let rawBlockDigest := toBytes32 (slice frame 54 32)
    let payloadDigest := toBytes32 (slice frame 86 32)
    if frame.length ≠ headerLen + payloadLen then .error .lengthMismatch
    else if segmentCount = 0 ∨ segmentCount ≤ segmentIndex then
      .error (.invalidSegmentIndex segmentIndex segmentCount)
    else
      let payload := frame.drop headerLen
      if hashes.sha256 payload ≠ payloadDigest then .error .digestMismatch
      else .ok ⟨blockHash, segmentIndex, segmentCount, rawBlockLen, rawBlockDigest, payloadDigest,
        payload⟩

end RawBlockSegment

/-! ## Reassembly -/

section Code

variable (hashes : Hashes)

/-- The checks of each segment against the first, with the sum of the payload lengths. -/
def checkSegments (first : RawBlockSegment) :
    (payloadLen : Nat) → List RawBlockSegment → Except SegmentedBlockError Nat
  | payloadLen, [] => .ok payloadLen
  | payloadLen, segment :: rest =>
    if segment.blockHash ≠ first.blockHash ∨ segment.segmentCount ≠ first.segmentCount ∨
        segment.rawBlockLen ≠ first.rawBlockLen ∨
        segment.rawBlockDigest ≠ first.rawBlockDigest then
      .error .inconsistentMetadata
    else if first.segmentCount ≤ segment.segmentIndex then
      .error (.invalidSegmentIndex segment.segmentIndex segment.segmentCount)
    else if hashes.sha256 segment.payload ≠ segment.payloadDigest then .error .digestMismatch
    else if 2 ^ 64 ≤ payloadLen + segment.payload.length then .error .lengthMismatch
    else checkSegments first (payloadLen + segment.payload.length) rest

/-- The sorted segments must be the indexes from `index` on, without a gap or a repeat. -/
def checkOrder : (index : Nat) → (previous : Option UInt16) → List RawBlockSegment →
    Except SegmentedBlockError Unit
  | _, _, [] => .ok ()
  | index, previous, segment :: rest =>
    if previous = some segment.segmentIndex then .error (.duplicateSegment segment.segmentIndex)
    else if segment.segmentIndex.toNat ≠ index then .error (.missingSegment (UInt16.ofNat index))
    else checkOrder (index + 1) (some segment.segmentIndex) rest

def reassembleRawBlock (segments : List RawBlockSegment) :
    Except SegmentedBlockError (List UInt8) :=
  match segments with
  | [] => .error (.missingSegment 0)
  | first :: _ =>
    if first.segmentCount = 0 then .error (.invalidSegmentIndex 0 0)
    else if first.segmentCount.toNat < segments.length then .error .inconsistentMetadata
    else do
      let payloadLen ← checkSegments hashes first 0 segments
      let ordered := segments.insertionSort fun a b => a.segmentIndex ≤ b.segmentIndex
      checkOrder 0 none ordered
      if ordered.length < first.segmentCount.toNat then
        .error (.missingSegment (UInt16.ofNat ordered.length))
      else if payloadLen ≠ first.rawBlockLen.toNat then .error .lengthMismatch
      else
        let rawBlock := ordered.flatMap RawBlockSegment.payload
        if hashes.sha256 rawBlock ≠ first.rawBlockDigest then .error .digestMismatch
        else .ok rawBlock

/-! ## Object ids -/

/-- `b"FORGE raw block segment v1"`. -/
def segmentDomain : List UInt8 :=
  [0x46, 0x4f, 0x52, 0x47, 0x45, 0x20, 0x72, 0x61, 0x77, 0x20, 0x62, 0x6c, 0x6f, 0x63, 0x6b, 0x20,
   0x73, 0x65, 0x67, 0x6d, 0x65, 0x6e, 0x74, 0x20, 0x76, 0x31]

/-- `b"FORGE compact skeleton v1"`. -/
def skeletonDomain : List UInt8 :=
  [0x46, 0x4f, 0x52, 0x47, 0x45, 0x20, 0x63, 0x6f, 0x6d, 0x70, 0x61, 0x63, 0x74, 0x20, 0x73, 0x6b,
   0x65, 0x6c, 0x65, 0x74, 0x6f, 0x6e, 0x20, 0x76, 0x31]

/-- `b"FORGE compact adaptive v3"`. -/
def compactV3Domain : List UInt8 :=
  [0x46, 0x4f, 0x52, 0x47, 0x45, 0x20, 0x63, 0x6f, 0x6d, 0x70, 0x61, 0x63, 0x74, 0x20, 0x61, 0x64,
   0x61, 0x70, 0x74, 0x69, 0x76, 0x65, 0x20, 0x76, 0x33]

def segmentObjectHash (blockHash : Bytes32) (segmentIndex : UInt16) : Bytes32 :=
  hashes.sha256 (segmentDomain ++ blockHash.toList ++ (leBytes 2 segmentIndex.toNat).reverse)

def skeletonObjectHash (blockHash : Bytes32) : Bytes32 :=
  hashes.sha256 (skeletonDomain ++ blockHash.toList)

def compactV3ObjectHash (blockHash : Bytes32) : Bytes32 :=
  hashes.sha256 (compactV3Domain ++ blockHash.toList)

end Code

end MiningInfra.Relay
