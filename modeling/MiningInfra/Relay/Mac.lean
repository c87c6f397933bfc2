import MiningInfra.Relay.Datagram
import MiningInfra.Relay.Session

/-!
# What the HMAC of a chunk covers

Two chunks that verify with the same HMAC have the same input of the HMAC, unless it collides.
The input says everything about a chunk but its message type, and by its length the version.
-/

namespace MiningInfra.Relay

open Lib Coinbase

/-- What is authenticated. -/
def Chunk.macInput (c : Chunk) : List UInt8 :=
  let h := c.header
  h.blockHash.toList ++ u16BeBytes h.chunkId ++ u16BeBytes h.totalChunks ++ u16BeBytes h.payloadLen
    ++ (if h.version = 3 then u16BeBytes h.dataShards else []) ++ c.payload

@[simp] theorem length_u16BeBytes (n : UInt16) : (u16BeBytes n).length = 2 := by
  rw [u16BeBytes, List.length_reverse, length_leBytes]

theorem u16BeBytes_inj {m n : UInt16} (h : u16BeBytes m = u16BeBytes n) : m = n := by
  have hnat := congrArg leNat (List.reverse_injective h)
  rw [leNat_leBytes m.toNat_lt, leNat_leBytes n.toNat_lt] at hnat
  exact UInt16.toNat_inj.mp hnat

variable {p : Primitives} {key : Bytes32} {a b : Chunk}

theorem Chunk.Framed.verify_iff (h : a.Framed) :
    verifyDataChunkHmac p key a = true ↔ p.hmacSha256 key a.macInput = a.header.hmac := by
  rcases h.version with ⟨hv, -⟩ | ⟨hv, -⟩
  · simp [verifyDataChunkHmac, verifyHmac, computeHmac, Chunk.macInput, hv]
  · simp [verifyDataChunkHmac, verifyHmacV3, computeHmacV3, Chunk.macInput, hv]

/-- All fields but the message type, and the payload. -/
def Chunk.SameButType (a b : Chunk) : Prop :=
  { a.header with msgType := b.header.msgType } = b.header ∧ a.payload = b.payload

/-- **The input determines all but the message type.** The lengths of the payloads stand in it, so
the two bytes of the data shards are in both inputs or in none. -/
theorem Chunk.Framed.sameButType (ha : a.Framed) (hb : b.Framed) (h : a.macInput = b.macInput)
    (hmac : a.header.hmac = b.header.hmac) : a.SameButType b := by
  simp only [macInput, List.append_assoc] at h
  obtain ⟨hhash, h⟩ := List.append_inj h (List.length_ofFn.trans List.length_ofFn.symm)
  obtain ⟨hid, h⟩ := List.append_inj h (by rw [length_u16BeBytes, length_u16BeBytes])
  obtain ⟨htotal, h⟩ := List.append_inj h (by rw [length_u16BeBytes, length_u16BeBytes])
  obtain ⟨hlen, h⟩ := List.append_inj h (by rw [length_u16BeBytes, length_u16BeBytes])
  have hplen := u16BeBytes_inj hlen
  have hpayload : a.payload.length = b.payload.length := by
    rw [← ha.payloadLen, ← hb.payloadLen, hplen]
  obtain ⟨hshards, hpayload⟩ := List.append_inj' h hpayload
  have hrest : a.header.version = b.header.version ∧ a.header.dataShards = b.header.dataShards := by
    rcases ha.version with ⟨hva, -⟩ | ⟨hva, -⟩ <;> rcases hb.version with ⟨hvb, -⟩ | ⟨hvb, -⟩
    · exact ⟨hva.trans hvb.symm, (ha.noShards hva).trans (hb.noShards hvb).symm⟩
    · have := congrArg List.length hshards
      simp [hva, hvb] at this
    · have := congrArg List.length hshards
      simp [hva, hvb] at this
    · rw [if_pos hva, if_pos hvb] at hshards
      exact ⟨hva.trans hvb.symm, u16BeBytes_inj hshards⟩
  refine ⟨?_, hpayload⟩
  rw [ChunkHeader.mk.injEq]
  exact ⟨ha.magic.trans hb.magic.symm, hrest.1, rfl, List.ofFn_injective hhash, u16BeBytes_inj hid,
    u16BeBytes_inj htotal, hplen, hrest.2, hmac⟩

/-- **Chunks that verify with one HMAC are the same up to the message type**, unless the HMAC
collides on their inputs. -/
theorem authenticated_same {buf buf' : List UInt8} (ha : Chunk.fromBytes buf = .ok a)
    (hb : Chunk.fromBytes buf' = .ok b) (hmac : a.header.hmac = b.header.hmac)
    (hinj : p.hmacSha256 key a.macInput = p.hmacSha256 key b.macInput → a.macInput = b.macInput)
    (hva : verifyDataChunkHmac p key a = true) (hvb : verifyDataChunkHmac p key b = true) :
    a.SameButType b := by
  have hfa := Chunk.framed_of_fromBytes ha
  have hfb := Chunk.framed_of_fromBytes hb
  refine hfa.sameButType hfb (hinj ?_) hmac
  rw [hfa.verify_iff.mp hva, hfb.verify_iff.mp hvb, hmac]

/-- A chunk of one byte with the HMAC it needs, as a message of this type. -/
def sealedByte (p : Primitives) (key : Bytes32) (msgType : MessageType) : Chunk :=
  ⟨.newAuthenticated msgType (fun _ => 0) 0 2 1 (computeHmac p key (fun _ => 0) 0 2 1 [7]), [7]⟩

theorem framed_sealedByte (msgType : MessageType) : (sealedByte p key msgType).Framed where
  magic := rfl
  version := .inl ⟨rfl, show 1 ≤ maxPayloadSize by decide⟩
  total := show 2 ≤ maxTotalChunks by decide
  payloadLen := rfl
  nonempty _ := by simp [sealedByte]
  noShards _ := rfl

theorem sealedByte_accepted (msgType : MessageType) :
    Chunk.fromBytes (sealedByte p key msgType).toBytes = .ok (sealedByte p key msgType) ∧
      verifyDataChunkHmac p key (sealedByte p key msgType) = true := by
  refine ⟨(framed_sealedByte msgType).fromBytes_toBytes, ?_⟩
  simp [verifyDataChunkHmac, verifyHmac, sealedByte, ChunkHeader.newAuthenticated]

def zeroMac : Primitives where
  hashes := twoSegmentHashes
  hmacSha256 _ _ := fun _ => 0
  reedSolomon _ _ := .error ""
  validate _ := .valid

theorem sealed_bytes_same :
    (sealedByte zeroMac (fun _ => 0) .block).SameButType
      (sealedByte zeroMac (fun _ => 0) .rawBlockSegment) := by
  obtain ⟨hparse, hverify⟩ := @sealedByte_accepted zeroMac (fun _ => 0) .block
  obtain ⟨hparse', hverify'⟩ := @sealedByte_accepted zeroMac (fun _ => 0) .rawBlockSegment
  exact authenticated_same hparse hparse' rfl (fun _ => rfl) hverify hverify'

/-- **The message type is not covered**: a chunk of a block and one of a raw block segment have the
same input and verify with the same HMAC. They do so under every HMAC and key. -/
theorem message_type_not_covered :
    ∃ buf buf' a b, Chunk.fromBytes buf = .ok a ∧ Chunk.fromBytes buf' = .ok b ∧
      a.header.hmac = b.header.hmac ∧ a.macInput = b.macInput ∧
      verifyDataChunkHmac zeroMac (fun _ => 0) a = true ∧
      verifyDataChunkHmac zeroMac (fun _ => 0) b = true ∧
      a.header.msgType ≠ b.header.msgType := by
  obtain ⟨hparse, hverify⟩ := @sealedByte_accepted zeroMac (fun _ => 0) .block
  obtain ⟨hparse', hverify'⟩ := @sealedByte_accepted zeroMac (fun _ => 0) .rawBlockSegment
  exact ⟨_, _, _, _, hparse, hparse', rfl, rfl, hverify, hverify', by simp [sealedByte,
    ChunkHeader.newAuthenticated]⟩

end MiningInfra.Relay
