import MiningInfra.Relay.Chunk
import MiningInfra.Relay.Reassembly

/-!
# Datagrams

A chunk that keeps the rules of its version is read back from its datagram, and a datagram that is
read was made by such a chunk: nothing of it is passed over. The number of data shards is not on
the wire in version 2, so there it has to be zero.
-/

namespace MiningInfra.Relay

open Lib Coinbase

/-- What the parser checks of a data chunk. -/
structure Chunk.Sendable (c : Chunk) : Prop where
  magic : c.header.magic = chunkMagic
  version : c.header.version = 2 ∧ c.header.dataShards = 0 ∧ c.payload.length ≤ maxPayloadSize ∨
    c.header.version = 3 ∧ c.payload.length ≤ maxPayloadSizeV3 ∧ 0 < c.header.dataShards ∧
      c.header.dataShards < c.header.totalChunks
  isData : c.header.msgType.isData = true
  total : c.header.totalChunks ≤ maxTotalChunks
  payloadLen : c.header.payloadLen.toNat = c.payload.length
  nonempty : c.payload ≠ []

/-- What the parser checks of a chunk, on the wire. -/
structure Chunk.MeetsRules (c : Chunk) : Prop where
  magic : c.header.magic = chunkMagic
  version : c.header.version = 2 ∧ c.payload.length ≤ maxPayloadSize ∨
    c.header.version = 3 ∧ c.payload.length ≤ maxPayloadSizeV3 ∧ 0 < c.header.dataShards ∧
      c.header.dataShards < c.header.totalChunks
  total : c.header.totalChunks ≤ maxTotalChunks
  payloadLen : c.header.payloadLen.toNat = c.payload.length
  nonempty : c.header.msgType.isData = true → c.payload ≠ []

/-- A chunk that its datagram says everything about. -/
structure Chunk.Framed (c : Chunk) : Prop extends c.MeetsRules where
  noShards : c.header.version = 2 → c.header.dataShards = 0

theorem Chunk.Sendable.framed {c : Chunk} (h : c.Sendable) : c.Framed where
  magic := h.magic
  version := by
    rcases h.version with ⟨hv, -, hlen⟩ | hv
    · exact Or.inl ⟨hv, hlen⟩
    · exact Or.inr hv
  total := h.total
  payloadLen := h.payloadLen
  nonempty := fun _ => h.nonempty
  noShards := by
    intro hv2
    rcases h.version with ⟨-, hzero, -⟩ | ⟨hv3, -⟩
    · exact hzero
    · rw [hv2] at hv3
      cases hv3

theorem MessageType.tryFrom_toByte (t : MessageType) : tryFrom t.toByte = .ok t := by
  cases t <;> rfl

namespace Chunk

variable {c : Chunk}

/-- The fields of a datagram, in order. -/
def fields (c : Chunk) : List (List UInt8) :=
  [(leBytes 4 c.header.magic.toNat).reverse, [c.header.version], [c.header.msgType.toByte],
    c.header.blockHash.toList, u16BeBytes c.header.chunkId, u16BeBytes c.header.totalChunks,
    u16BeBytes c.header.payloadLen,
    if c.header.version = 3 then u16BeBytes c.header.dataShards else [],
    c.header.hmac.toList, c.payload]

theorem toBytes_of_v3 (h : c.header.version = 3) : c.toBytes = c.fields.flatten := by
  have hlen : c.header.toBytes.length = headerSizeV3 := by
    simp [ChunkHeader.toBytes, h, length_leBytes, Bytes32.toList, u16BeBytes, headerSizeV3]
  have hsize : headerSizeForVersion c.header.version = headerSizeV3 := by
    rw [h]
    rfl
  rw [toBytes, hsize, List.take_of_length_le (Nat.le_of_eq hlen)]
  simp [ChunkHeader.toBytes, fields, h]

/-- The two bytes behind the HMAC are cut off. -/
theorem toBytes_of_v2 (h : c.header.version = 2) : c.toBytes = c.fields.flatten := by
  have hsize : headerSizeForVersion c.header.version = headerSizeV2 := by
    rw [h]
    rfl
  have hne : c.header.version ≠ 3 := by
    rw [h]
    decide
  have hsplit : c.header.toBytes = (c.fields.take 9).flatten ++ [0, 0] := by
    simp [ChunkHeader.toBytes, fields, hne]
  have hlen : (c.fields.take 9).flatten.length = headerSizeV2 := by
    simp [fields, hne, length_leBytes, Bytes32.toList, u16BeBytes, headerSizeV2]
  rw [toBytes, hsize, hsplit, ← hlen, List.take_left]
  simp [fields, hne]

theorem MeetsRules.toBytes (h : c.MeetsRules) : c.toBytes = c.fields.flatten := by
  rcases h.version with hv | hv
  · exact toBytes_of_v2 hv.1
  · exact toBytes_of_v3 hv.1

theorem MeetsRules.length_toBytes (h : c.MeetsRules) :
    c.toBytes.length = headerSizeForVersion c.header.version + c.payload.length := by
  rw [h.toBytes]
  rcases h.version with ⟨hv, -⟩ | ⟨hv, -⟩ <;>
    simp [fields, hv, length_leBytes, Bytes32.toList, u16BeBytes, headerSizeForVersion,
      headerSizeV2, headerSizeV3] <;>
    omega

theorem MeetsRules.length_le (h : c.MeetsRules) : c.toBytes.length ≤ maxAuthenticatedDatagramSize := by
  rw [h.length_toBytes]
  rcases h.version with ⟨hv, hlen⟩ | ⟨hv, hlen, -⟩
  · rw [hv]
    simp only [headerSizeForVersion, maxPayloadSize, maxAuthenticatedDatagramSize, headerSizeV2]
      at hlen ⊢
    simp
    omega
  · rw [hv]
    simp only [headerSizeForVersion, maxPayloadSizeV3, maxAuthenticatedDatagramSize, headerSizeV3]
      at hlen ⊢
    simp
    omega

theorem u16At_eq {buf : List UInt8} {start : Nat} {n : UInt16}
    (h : select buf (start, start + 2) = u16BeBytes n) : u16At buf start = n := by
  have hslice : slice buf start 2 = u16BeBytes n := (slice_eq_select _ _ _).trans h
  rw [u16At, hslice, u16BeBytes, beNat, List.reverse_reverse, leNat_leBytes n.toNat_lt,
    UInt16.ofNat_toNat]

/-- Where the fields are. -/
theorem cuts_fields (c : Chunk) :
    cuts 0 c.fields =
      let tail := if c.header.version = 3 then 46 else 44
      [(0, 4), (4, 5), (5, 6), (6, 38), (38, 40), (40, 42), (42, 44), (44, tail),
        (tail, tail + 32), (tail + 32, tail + 32 + c.payload.length)] := by
  by_cases h : c.header.version = 3 <;>
    simp [cuts, fields, h, length_leBytes, Bytes32.toList, u16BeBytes]

theorem MeetsRules.map_select (h : c.MeetsRules) :
    (cuts 0 c.fields).map (select c.toBytes) = c.fields := by
  refine map_select_cuts (show c.toBytes.drop 0 = c.fields.flatten ++ [] from ?_)
  rw [List.drop_zero, List.append_nil, h.toBytes]

/-- Where the HMAC is. -/
def hmacStart (c : Chunk) : Nat := if c.header.version = 3 then 46 else 44

theorem MeetsRules.headerSize_eq (h : c.MeetsRules) :
    headerSizeForVersion c.header.version = c.hmacStart + 32 := by
  rcases h.version with ⟨hv, -⟩ | ⟨hv, -⟩ <;> rw [hmacStart, hv] <;> rfl

/-- What the parser finds in each place of a datagram. -/
theorem MeetsRules.found (h : c.MeetsRules) :
    UInt32.ofNat (beNat (slice c.toBytes 0 4)) = c.header.magic ∧
      c.toBytes.getD 4 0 = c.header.version ∧ c.toBytes.getD 5 0 = c.header.msgType.toByte ∧
      toBytes32 (slice c.toBytes 6 32) = c.header.blockHash ∧
      u16At c.toBytes 38 = c.header.chunkId ∧ u16At c.toBytes 40 = c.header.totalChunks ∧
      u16At c.toBytes 42 = c.header.payloadLen ∧
      (c.header.version = 3 → u16At c.toBytes 44 = c.header.dataShards) ∧
      toBytes32 (slice c.toBytes c.hmacStart 32) = c.header.hmac ∧
      slice c.toBytes (c.hmacStart + 32) c.payload.length = c.payload := by
  have hfields := h.map_select
  rw [cuts_fields] at hfields
  simp only [List.map_cons, List.map_nil, fields, List.cons.injEq, and_true] at hfields
  obtain ⟨hmagic, hversion, htype, hhash, hid, htot, hplen, hds, hmac, hpayload⟩ := hfields
  refine ⟨?_, getD_eq_of_select hversion, getD_eq_of_select htype,
    (congrArg toBytes32 hhash).trans (toBytes32_ofFn _), u16At_eq hid, u16At_eq htot,
    u16At_eq hplen, ?_, ?_, (slice_eq_select _ _ _).trans hpayload⟩
  · have hslice : slice c.toBytes 0 4 = (leBytes 4 c.header.magic.toNat).reverse := hmagic
    rw [hslice, beNat_reverse_leBytes c.header.magic.toNat_lt, UInt32.ofNat_toNat]
  · intro hv
    rw [hv] at hds
    exact u16At_eq hds
  · rw [slice_eq_select]
    exact (congrArg toBytes32 hmac).trans (toBytes32_ofFn _)

theorem Framed.header_fromBytes (h : c.Framed) :
    ChunkHeader.fromBytes c.toBytes = .ok c.header := by
  obtain ⟨hmagic, hversion, htype, hhash, hid, htot, hplen, hds, hmac, -⟩ := h.found
  have hlength := h.length_toBytes
  rw [h.headerSize_eq] at hlength
  have htotal : ¬ maxTotalChunks < c.header.totalChunks := UInt16.not_lt.mpr h.total
  have hdata : ¬ (c.header.msgType.isData = true ∧ c.header.payloadLen = 0) := by
    rintro ⟨hdata, hzero⟩
    have hlen := h.payloadLen
    rw [hzero] at hlen
    exact h.nonempty hdata (List.length_eq_zero_iff.mp hlen.symm)
  have hV1 : ¬ c.hmacStart + 32 + c.payload.length < headerSizeV1 := by
    rw [← h.headerSize_eq, headerSizeForVersion]
    split_ifs <;> simp only [headerSizeV1, headerSizeV2, headerSizeV3] <;> omega
  simp only [ChunkHeader.fromBytes, hmagic, hversion, htype, MessageType.tryFrom_toByte, hhash,
    hid, htot, hplen, h.payloadLen, hlength]
  rw [if_neg hV1, if_neg (not_not.mpr h.magic)]
  rcases h.version with ⟨hv, hmax⟩ | ⟨hv, hmax, hpos, hlt⟩
  · have hds0 := h.noShards hv
    have hstart : c.hmacStart = 44 := by
      rw [hmacStart, hv]
      rfl
    rw [hstart] at hmac
    have hV2 : ¬ 44 + 32 + c.payload.length < headerSizeV2 := by
      rw [headerSizeV2]
      omega
    have hheader : { c.header with version := 2, dataShards := 0 } = c.header := by
      rw [← hv, ← hds0]
    simp [bind, Except.bind, pure, Except.pure, hv, hstart, hV2, htotal, hdata, hmac, hmax.not_gt,
      hheader]
  · have hstart : c.hmacStart = 46 := by
      rw [hmacStart, hv]
      rfl
    rw [hstart] at hmac
    have hV3 : ¬ 46 + 32 + c.payload.length < headerSizeV3 := by
      rw [headerSizeV3]
      omega
    have hshards : ¬ (c.header.dataShards = 0 ∨ c.header.totalChunks ≤ c.header.dataShards) := by
      rintro (hzero | hle)
      · rw [hzero] at hpos
        exact absurd hpos (by decide)
      · exact absurd hlt (UInt16.not_lt.mpr hle)
    have hheader : { c.header with version := 3 } = c.header := by
      rw [← hv]
    simp [bind, Except.bind, pure, Except.pure, hv, hstart, hV3, htotal, hdata, hmac, hmax.not_gt,
      hds hv, hshards, hheader]

/-- **A chunk is read back from its datagram.** -/
theorem Framed.fromBytes_toBytes (h : c.Framed) : fromBytes c.toBytes = .ok c := by
  obtain ⟨-, hversion, -, -, -, -, -, -, -, hpayload⟩ := h.found
  have hlength := h.length_toBytes
  have hV1 : headerSizeV1 ≤ headerSizeForVersion c.header.version := by
    unfold headerSizeForVersion
    split_ifs <;> decide
  rw [← h.headerSize_eq] at hpayload
  simp only [fromBytes, hversion, h.header_fromBytes, hlength]
  rw [if_neg (by omega), if_neg (by omega)]
  simp [bind, Except.bind, pure, Except.pure, h.payloadLen, hpayload]

end Chunk

/-! ## What a datagram says -/

theorem MessageType.toByte_of_tryFrom {value : UInt8} {t : MessageType}
    (h : tryFrom value = .ok t) : t.toByte = value := by
  unfold tryFrom at h
  split_ifs at h with h0 h1 h2 h3 h4
  all_goals
    obtain rfl := Except.ok.inj h
    exact Eq.symm (by assumption)

variable {bs buf : List UInt8} {width start : Nat}

theorem length_slice {len : Nat} (h : start + len ≤ bs.length) :
    (slice bs start len).length = len := by
  rw [slice, List.length_take, List.length_drop]
  omega

/-- Bytes that were read as a big-endian number are written again. -/
theorem reverse_leBytes_beNat (h : bs.length = width) :
    (leBytes width (beNat bs)).reverse = bs := by
  have hrev := leBytes_leNat bs.reverse
  rw [List.length_reverse, h] at hrev
  rw [beNat, hrev, List.reverse_reverse]

theorem beNat_lt (h : bs.length = width) : beNat bs < span width := by
  have hlt := leNat_lt_span bs.reverse
  rwa [List.length_reverse, h] at hlt

theorem u16BeBytes_u16At (h : start + 2 ≤ buf.length) :
    u16BeBytes (u16At buf start) = select buf (start, start + 2) := by
  have hlen := length_slice h
  rw [u16BeBytes, u16At, UInt16.toNat_ofNat_of_lt' (beNat_lt hlen), reverse_leBytes_beNat hlen,
    slice_eq_select]

theorem magicBytes_eq (h : 4 ≤ buf.length) :
    (leBytes 4 (UInt32.ofNat (beNat (slice buf 0 4))).toNat).reverse = select buf (0, 4) := by
  have hlen : (slice buf 0 4).length = 4 := length_slice (by omega)
  rw [UInt32.toNat_ofNat_of_lt' (beNat_lt hlen), reverse_leBytes_beNat hlen, slice_eq_select]

theorem singleton_getD {i : Nat} (h : i < buf.length) : [buf.getD i 0] = select buf (i, i + 1) := by
  rw [select, Nat.add_sub_cancel_left, List.drop_eq_getElem_cons h, List.take_succ_cons,
    List.take_zero, List.getD_eq_getElem?_getD, List.getElem?_eq_getElem h]
  rfl

/-- What the parser of the header found and checked. -/
structure ChunkHeader.FoundIn (h : ChunkHeader) (buf : List UInt8) : Prop where
  magic : h.magic = UInt32.ofNat (beNat (slice buf 0 4))
  isMagic : h.magic = chunkMagic
  version : h.version = buf.getD 4 0
  msgType : MessageType.tryFrom (buf.getD 5 0) = .ok h.msgType
  blockHash : h.blockHash = toBytes32 (slice buf 6 32)
  chunkId : h.chunkId = u16At buf 38
  totalChunks : h.totalChunks = u16At buf 40
  total : h.totalChunks ≤ maxTotalChunks
  payloadLen : h.payloadLen = u16At buf 42
  nonempty : h.msgType.isData = true → h.payloadLen ≠ 0
  layout : h.version = 2 ∧ headerSizeV2 ≤ buf.length ∧ h.payloadLen.toNat ≤ maxPayloadSize ∧
      h.dataShards = 0 ∧ h.hmac = toBytes32 (slice buf 44 32) ∨
    h.version = 3 ∧ headerSizeV3 ≤ buf.length ∧ h.payloadLen.toNat ≤ maxPayloadSizeV3 ∧
      h.dataShards = u16At buf 44 ∧ 0 < h.dataShards ∧ h.dataShards < h.totalChunks ∧
      h.hmac = toBytes32 (slice buf 46 32)

theorem ChunkHeader.foundIn_of_fromBytes {h : ChunkHeader}
    (hok : ChunkHeader.fromBytes buf = .ok h) : h.FoundIn buf := by
  simp only [ChunkHeader.fromBytes, bind, Except.bind, pure, Except.pure, throw, throwThe,
    MonadExceptOf.throw] at hok
  split at hok
  · cases hok
  split at hok
  · cases hok
  rename_i hmagic
  split at hok
  · cases hok
  rename_i hversion
  split at hok
  · cases hok
  rename_i hsize2
  split at hok
  · cases hok
  rename_i hsize3
  split at hok
  · cases hok
  rename_i msgType htype
  split at hok
  · cases hok
  rename_i htotal
  rw [not_not] at hmagic
  by_cases hv : buf.getD 4 0 = 3
  · rw [if_pos hv, if_pos hv] at hok
    split at hok
    · cases hok
    rename_i hmax
    split at hok
    · cases hok
    rename_i hdata
    split at hok
    · cases hok
    rename_i hshards
    obtain rfl := Except.ok.inj hok
    refine ⟨rfl, hmagic, rfl, htype, rfl, rfl, rfl, UInt16.not_lt.mp htotal, rfl,
      fun hd hz => hdata ⟨hd, hz⟩, Or.inr ⟨hv, Nat.not_lt.mp fun hlt => hsize3 ⟨hv, hlt⟩,
        Nat.not_lt.mp hmax, rfl, ?_, ?_, rfl⟩⟩
    · exact UInt16.pos_iff_ne_zero.mpr fun hz => hshards (Or.inl hz)
    · exact UInt16.not_le.mp fun hle => hshards (Or.inr hle)
  · rw [if_neg hv, if_neg hv] at hok
    split at hok
    · cases hok
    rename_i hmax
    split at hok
    · cases hok
    rename_i hdata
    obtain rfl := Except.ok.inj hok
    have hv2 : buf.getD 4 0 = 2 := by
      by_contra hne
      exact hversion ⟨hne, hv⟩
    exact ⟨rfl, hmagic, rfl, htype, rfl, rfl, rfl, UInt16.not_lt.mp htotal, rfl,
      fun hd hz => hdata ⟨hd, hz⟩, Or.inl ⟨hv2, Nat.not_lt.mp fun hlt => hsize2 ⟨hv2, hlt⟩,
        Nat.not_lt.mp hmax, rfl, rfl⟩⟩

namespace Chunk

variable {c : Chunk}

/-- A datagram that is read is the header, where the parser looked for it, and the payload. -/
theorem foundIn_of_fromBytes (hok : fromBytes buf = .ok c) : c.header.FoundIn buf ∧
      buf.length = headerSizeForVersion c.header.version + c.header.payloadLen.toNat ∧
      c.payload = slice buf (headerSizeForVersion c.header.version) c.header.payloadLen.toNat := by
  simp only [fromBytes, bind, Except.bind, pure, Except.pure, throw, throwThe,
    MonadExceptOf.throw] at hok
  split at hok
  · cases hok
  split at hok
  · cases hok
  split at hok
  · cases hok
  rename_i header hheader
  split at hok
  · cases hok
  split at hok
  · cases hok
  rename_i hlength
  obtain rfl := Except.ok.inj hok
  have hfound := ChunkHeader.foundIn_of_fromBytes hheader
  rw [hfound.version]
  exact ⟨hfound, not_not.mp hlength, rfl⟩

/-- What was read keeps the rules. -/
theorem framed_of_fromBytes (hok : fromBytes buf = .ok c) : c.Framed := by
  obtain ⟨hfound, hlength, hpayload⟩ := foundIn_of_fromBytes hok
  have hlen : c.header.payloadLen.toNat = c.payload.length := by
    rw [hpayload, length_slice (Nat.le_of_eq hlength.symm)]
  refine ⟨⟨hfound.isMagic, ?_, hfound.total, hlen, ?_⟩, ?_⟩
  · rw [← hlen]
    rcases hfound.layout with ⟨hv, -, hmax, -⟩ | ⟨hv, -, hmax, -, hpos, hlt, -⟩
    · exact Or.inl ⟨hv, hmax⟩
    · exact Or.inr ⟨hv, hmax, hpos, hlt⟩
  · intro hdata hnil
    rw [hnil] at hlen
    exact hfound.nonempty hdata (UInt16.toNat_inj.mp hlen)
  · intro hv2
    rcases hfound.layout with ⟨-, -, -, hzero, -⟩ | ⟨hv3, -⟩
    · exact hzero
    · rw [hv2] at hv3
      cases hv3

theorem hash_eq_select (h : start + 32 ≤ buf.length) :
    (toBytes32 (slice buf start 32)).toList = select buf (start, start + 32) := by
  rw [toList_toBytes32 (length_slice h), slice_eq_select]

/-- Every field of a chunk that was read is found in its place. -/
theorem fields_of_fromBytes (hok : fromBytes buf = .ok c) :
    c.fields = (cuts 0 c.fields).map (select buf) := by
  obtain ⟨hfound, hlength, hpayload⟩ := foundIn_of_fromBytes hok
  have hlen : c.payload.length = c.header.payloadLen.toNat := by
    rw [hpayload, length_slice (Nat.le_of_eq hlength.symm)]
  have hlong : 76 ≤ buf.length := by
    rcases hfound.layout with ⟨-, hsize, -⟩ | ⟨-, hsize, -⟩
    · exact hsize
    · exact Nat.le_trans (by decide) hsize
  have hmagic : (leBytes 4 c.header.magic.toNat).reverse = select buf (0, 4) := by
    rw [hfound.magic]
    exact magicBytes_eq (by omega)
  have hversion : [c.header.version] = select buf (4, 5) := by
    rw [hfound.version]
    exact singleton_getD (by omega)
  have htype : [c.header.msgType.toByte] = select buf (5, 6) := by
    rw [MessageType.toByte_of_tryFrom hfound.msgType]
    exact singleton_getD (by omega)
  have hhash : c.header.blockHash.toList = select buf (6, 38) := by
    rw [hfound.blockHash]
    exact hash_eq_select (by omega)
  have hid : u16BeBytes c.header.chunkId = select buf (38, 40) := by
    rw [hfound.chunkId]
    exact u16BeBytes_u16At (by omega)
  have htotal : u16BeBytes c.header.totalChunks = select buf (40, 42) := by
    rw [hfound.totalChunks]
    exact u16BeBytes_u16At (by omega)
  have hplen : u16BeBytes c.header.payloadLen = select buf (42, 44) := by
    rw [hfound.payloadLen]
    exact u16BeBytes_u16At (by omega)
  rw [cuts_fields]
  simp only [List.map_cons, List.map_nil, fields, List.cons.injEq, and_true]
  refine ⟨hmagic, hversion, htype, hhash, hid, htotal, hplen, ?_⟩
  rw [hlen]
  rcases hfound.layout with ⟨hv, -, -, -, hmac⟩ | ⟨hv, hsize, -, hshards, -, -, hmac⟩
  · rw [hpayload, hmac, hv]
    refine ⟨?_, hash_eq_select (by omega), slice_eq_select _ _ _⟩
    simp [select]
  · have hsize : 78 ≤ buf.length := hsize
    rw [hpayload, hmac, hv, hshards]
    exact ⟨u16BeBytes_u16At (by omega), hash_eq_select (by omega), slice_eq_select _ _ _⟩

/-- Nothing of a datagram that is read is passed over. -/
theorem toBytes_of_fromBytes (hok : fromBytes buf = .ok c) : c.toBytes = buf := by
  obtain ⟨-, hlength, -⟩ := foundIn_of_fromBytes hok
  have hrules := (framed_of_fromBytes hok).toMeetsRules
  have htiles := tiles_cuts 0 c.fields
  have hwhole : c.fields.flatten.length = buf.length := by
    rw [← hrules.toBytes, hrules.length_toBytes, ← hrules.payloadLen, hlength]
  rw [hwhole] at htiles
  rw [hrules.toBytes, fields_of_fromBytes hok, flatten_map_select htiles, select]
  simp

/-- **The parser of datagrams is exact.** What it accepts is what chunks that keep the rules
serialize to; what it accepted serializes to the datagram; and such a chunk is what its datagram
is read as. -/
theorem fromBytes_exact :
    (∀ buf, (∃ c, fromBytes buf = .ok c) ↔ ∃ c : Chunk, c.Framed ∧ c.toBytes = buf) ∧
      (∀ buf c, fromBytes buf = .ok c → c.toBytes = buf) ∧
      ∀ c : Chunk, c.Framed → fromBytes c.toBytes = .ok c := by
  refine ⟨fun buf => ⟨?_, ?_⟩, fun _ _ => toBytes_of_fromBytes, fun _ h => h.fromBytes_toBytes⟩
  · rintro ⟨c, hok⟩
    exact ⟨c, framed_of_fromBytes hok, toBytes_of_fromBytes hok⟩
  · rintro ⟨c, hframed, rfl⟩
    exact ⟨c, hframed.fromBytes_toBytes⟩

/-- A version 2 chunk without a payload, and a number of data shards that is not sent. -/
def shardedKeepalive (dataShards : UInt16) : Chunk where
  header := { ChunkHeader.newAuthenticated .keepalive (fun _ => 0) 0 0 0 (fun _ => 0) with
    dataShards := dataShards }
  payload := []

theorem meetsRules_shardedKeepalive (dataShards : UInt16) :
    (shardedKeepalive dataShards).MeetsRules where
  magic := rfl
  version := Or.inl ⟨rfl, Nat.zero_le _⟩
  total := show (0 : UInt16) ≤ maxTotalChunks by decide
  payloadLen := rfl
  nonempty := fun h => by cases h

theorem version2_loses_data_shards :
    ∃ c : Chunk, c.MeetsRules ∧ fromBytes c.toBytes ≠ .ok c := by
  refine ⟨shardedKeepalive 1, meetsRules_shardedKeepalive 1, fun hok => ?_⟩
  have hframed : (shardedKeepalive 0).Framed := ⟨meetsRules_shardedKeepalive 0, fun _ => rfl⟩
  have hsame : (shardedKeepalive 1).toBytes = (shardedKeepalive 0).toBytes := rfl
  rw [hsame, hframed.fromBytes_toBytes] at hok
  exact absurd (congrArg (fun c => c.header.dataShards) (Except.ok.inj hok)) (by decide)

end Chunk

end MiningInfra.Relay
