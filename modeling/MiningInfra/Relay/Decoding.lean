import MiningInfra.Lib.Metered
import MiningInfra.Relay.Serialize

/-!
# Decoding hostile bytes

`deserialize_compact_block` again, with the operations that can panic and the memory it allocates.
It gives the answer of the reader without memory on every input, and all it allocates is paid for
by the input up to the limits: the two vectors that are reserved for counts from the wire, and one
transaction whose bytes may turn out not to be there.

The round trip needs one more thing than the limits of the decoder. The length in front of the
content has four bytes, and the limits allow for more content than that.
-/

namespace MiningInfra.Relay

open Lib Coinbase

variable {compact : CompactBlock}

theorem deserializeCompactBlock_of_ok {data content rest : List UInt8}
    (hcontent : readLenPrefixed data = .ok content)
    (hread : readCompactBlock content = .ok (compact, rest)) :
    deserializeCompactBlock data = if rest = [] then .ok compact
      else .error "trailing bytes after compact block payload" := by
  simp only [deserializeCompactBlock, hcontent, bind, Except.bind, hread]
  by_cases hrest : rest = []
  · rw [if_neg (not_not_intro hrest), if_pos hrest]
    rfl
  · rw [if_pos hrest, if_neg hrest]
    rfl

theorem deserializeCompactBlock_of_error {data content : List UInt8} {e : String}
    (hcontent : readLenPrefixed data = .ok content) (hread : readCompactBlock content = .error e) :
    deserializeCompactBlock data = .error e := by
  simp only [deserializeCompactBlock, hcontent, bind, Except.bind, hread]

namespace Run

/-- The length in front of the content, and the content. -/
def readLenPrefixed (data : List UInt8) : Outcome String (List UInt8) := do
  Outcome.failIf (data.length < 4) "data too short for content length prefix"
  let b0 ← Outcome.index data 0
  let b1 ← Outcome.index data 1
  let b2 ← Outcome.index data 2
  let b3 ← Outcome.index data 3
  let contentLen := leNat [b0, b1, b2, b3]
  let needed ← Outcome.add contentLen 4
  Outcome.failIf (data.length < needed)
    s!"content length {contentLen} exceeds available data ({data.length - 4})"
  let stop ← Outcome.add 4 contentLen
  if stop ≤ data.length then .ok (slice data 4 contentLen) else .panic

section Code

/- The bytes of an error, whatever they are. -/
variable (errorBytes : Nat)

def readExact (n : Nat) : Metered String (List UInt8) :=
  Metered.readExact errorBytes n "failed to fill whole buffer"

/-- `vec![0u8; n]`, filled with `read_exact`. -/
def readBuffer (n : Nat) : Metered String (List UInt8) := do
  Metered.allocate n 1
  readExact errorBytes n

def readLe (width : Nat) : Metered String Nat := do
  let bytes ← readExact errorBytes width
  pure (leNat bytes)

def readShortIds : (count : Nat) → Metered String (List ShortId)
  | 0 => pure []
  | count + 1 => do
    let bytes ← readExact errorBytes 6
    let shortIds ← readShortIds count
    pure ((fun i => bytes.getD i 0) :: shortIds)

def readPrefilledTxs : (count : Nat) → Metered String (List PrefilledTx)
  | 0 => pure []
  | count + 1 => do
    let index ← readLe errorBytes 2
    let txLen ← readLe errorBytes 4
    Metered.failIf errorBytes (maxTxDataSize < txLen) s!"transaction data too large: {txLen} bytes"
    let txData ← readBuffer errorBytes txLen
    let prefilledTxs ← readPrefilledTxs count
    pure (⟨UInt16.ofNat index, txData⟩ :: prefilledTxs)

/-- The bytes of a `ShortId`. -/
def shortIdSize : Nat := 6

/-- The bytes of a `PrefilledTx`: a vector and a `u16`, aligned. -/
def prefilledTxSize : Nat := 32

def readCompactBlock : Metered String CompactBlock := do
  let headerLen ← readLe errorBytes 4
  Metered.failIf errorBytes (headerLen = 0) "header length must be > 0"
  Metered.failIf errorBytes (maxHeaderSize < headerLen) s!"header too large: {headerLen} bytes"
  let header ← readBuffer errorBytes headerLen
  Metered.failIf errorBytes (header.length < 140) "header too short for Zcash"
  let nonce ← readLe errorBytes 8
  let shortIdCount ← readLe errorBytes 4
  Metered.failIf errorBytes (maxShortIds < shortIdCount) s!"too many short IDs: {shortIdCount}"
  Metered.allocate shortIdCount shortIdSize
  let shortIds ← readShortIds errorBytes shortIdCount
  let prefilledCount ← readLe errorBytes 4
  Metered.failIf errorBytes (maxPrefilledTxs < prefilledCount)
    s!"too many prefilled transactions: {prefilledCount}"
  Metered.allocate prefilledCount prefilledTxSize
  let prefilledTxs ← readPrefilledTxs errorBytes prefilledCount
  let totalTxs := shortIds.length + prefilledTxs.length
  Metered.failIf errorBytes (maxTxCount < totalTxs) s!"too many total transactions: {totalTxs}"
  pure ⟨header, UInt64.ofNat nonce, shortIds, prefilledTxs⟩

/-- The answer, and the bytes allocated for it. -/
def deserializeCompactBlock (data : List UInt8) : Outcome String CompactBlock × Nat :=
  match readLenPrefixed data with
  | .err e => (.err e, errorBytes)
  | .panic => (.panic, 0)
  | .ok content =>
    match readCompactBlock errorBytes ⟨content, 0⟩ with
    | (.ok compact, t) =>
      if t.rest ≠ [] then
        (.err "trailing bytes after compact block payload", t.allocated + errorBytes)
      else (.ok compact, t.allocated)
    | (.err e, t) => (.err e, t.allocated)
    | (.panic, t) => (.panic, t.allocated)

end Code

/-! ## The same answers -/

theorem readLenPrefixed_eq (data : List UInt8) :
    readLenPrefixed data = Outcome.ofExcept (Relay.readLenPrefixed data) := by
  rcases data with _ | ⟨b0, _ | ⟨b1, _ | ⟨b2, _ | ⟨b3, rest⟩⟩⟩⟩
  · rfl
  · rfl
  · rfl
  · rfl
  have hlong : ¬ (b0 :: b1 :: b2 :: b3 :: rest).length < 4 := by
    simp only [List.length_cons]
    omega
  have hlen : leNat [b0, b1, b2, b3] < span 4 := leNat_lt_span [b0, b1, b2, b3]
  have hspan : span 4 + 4 ≤ UInt64.size := by decide
  have htake : (b0 :: b1 :: b2 :: b3 :: rest).take 4 = [b0, b1, b2, b3] := rfl
  rw [readLenPrefixed, Outcome.failIf, if_neg hlong]
  simp only [Outcome.ok_bind, Outcome.index, List.getElem?_cons_zero, List.getElem?_cons_succ,
    Outcome.add_eq_ok (Nat.lt_of_lt_of_le (Nat.add_lt_add_right hlen 4) hspan)]
  rw [Relay.readLenPrefixed, if_neg hlong]
  by_cases hfits : (b0 :: b1 :: b2 :: b3 :: rest).length < leNat [b0, b1, b2, b3] + 4
  · rw [Outcome.failIf, if_pos hfits, if_pos (by rw [htake]; exact hfits)]
    rfl
  · rw [Outcome.failIf, if_neg hfits, if_neg (by rw [htake]; exact hfits), Outcome.ok_bind,
      Outcome.add_eq_ok (by omega), Outcome.ok_bind, if_pos (by omega)]
    rfl

section Meters

variable {errorBytes : Nat}

theorem meters_readExact (n : Nat) :
    Meters 0 errorBytes (readExact errorBytes n) (Relay.readExact n) :=
  Meters.readExact errorBytes n _

theorem meters_readLe (width : Nat) :
    Meters 0 errorBytes (readLe errorBytes width) (Relay.readLe width) :=
  (meters_readExact width).map leNat

theorem meters_readBuffer {n limit : Nat} (h : n ≤ limit) (hlimit : limit ≤ isizeMax) :
    Meters 0 (limit + errorBytes) (readBuffer errorBytes n) (Relay.readExact n) :=
  (Meters.buffer (Nat.le_trans h hlimit) _).mono (Nat.le_refl _) (Nat.add_le_add_right h _)

theorem meters_readShortIds (count : Nat) :
    Meters 0 errorBytes (readShortIds errorBytes count) (Relay.readShortIds count) := by
  induction count with
  | zero => exact Meters.ret _ _
  | succ count ih =>
    rw [readShortIds, Relay.readShortIds]
    refine (meters_readExact 6).bind (fun bytes => ?_) (Nat.le_refl _)
    exact ih.bind (fun shortIds => Meters.ret _ _) (Nat.le_refl _)

/-- Only the transaction at which the bytes run out is not paid for. -/
theorem meters_readPrefilledTxs (count : Nat) :
    Meters 0 (maxTxDataSize + errorBytes) (readPrefilledTxs errorBytes count)
      (Relay.readPrefilledTxs count) := by
  have herror : errorBytes ≤ maxTxDataSize + errorBytes := Nat.le_add_left _ _
  induction count with
  | zero => exact Meters.ret _ _
  | succ count ih =>
    rw [readPrefilledTxs, Relay.readPrefilledTxs]
    refine (meters_readLe 2).bind (fun index => ?_) herror
    refine (meters_readLe 4).bind (fun txLen => ?_) herror
    refine Meters.guard (fun hsize => ?_) herror
    refine (meters_readBuffer (Nat.not_lt.mp hsize) (by decide)).bind (fun txData => ?_)
      (Nat.le_refl _)
    exact ih.bind (fun txs => Meters.ret _ _) (Nat.le_refl _)

/-- What the counts from the wire can reserve. -/
def reservedMax : Nat := maxShortIds * shortIdSize + maxPrefilledTxs * prefilledTxSize

theorem meters_readCompactBlock :
    Meters reservedMax (reservedMax + maxTxDataSize + errorBytes) (readCompactBlock errorBytes)
      Relay.readCompactBlock := by
  have herror : errorBytes ≤ reservedMax + maxTxDataSize + errorBytes := Nat.le_add_left _ _
  have hheader : maxHeaderSize + errorBytes ≤ reservedMax + maxTxDataSize + errorBytes :=
    Nat.add_le_add_right (by decide) _
  rw [readCompactBlock, Relay.readCompactBlock]
  refine (meters_readLe 4).bind (fun headerLen => ?_) herror
  refine Meters.guard (fun _ => ?_) herror
  refine Meters.guard (fun hlen => ?_) herror
  refine (meters_readBuffer (Nat.not_lt.mp hlen) (by decide)).bind (fun header => ?_) hheader
  refine Meters.guard (fun _ => ?_) herror
  refine (meters_readLe 8).bind (fun nonce => ?_) herror
  refine (meters_readLe 4).bind (fun shortIdCount => ?_) herror
  refine Meters.guard (fun hids => ?_) herror
  have hfee : reservedMax = maxShortIds * shortIdSize + (maxPrefilledTxs * prefilledTxSize + 0) :=
    rfl
  have hdebt : reservedMax + maxTxDataSize + errorBytes = maxShortIds * shortIdSize +
      (maxPrefilledTxs * prefilledTxSize + (maxTxDataSize + errorBytes)) := by
    simp only [reservedMax]
    omega
  rw [hdebt, hfee]
  refine Meters.allocate (Nat.mul_le_mul_right _ (Nat.not_lt.mp hids)) (by decide) ?_
  refine (meters_readShortIds shortIdCount).bind (fun shortIds => ?_) (by omega)
  refine (meters_readLe 4).bind (fun prefilledCount => ?_) (by omega)
  refine Meters.guard (fun hprefilled => ?_) (by omega)
  refine Meters.allocate (Nat.mul_le_mul_right _ (Nat.not_lt.mp hprefilled)) (by decide) ?_
  refine (meters_readPrefilledTxs prefilledCount).bind (fun prefilledTxs => ?_) (Nat.le_refl _)
  exact Meters.guard (fun _ => Meters.ret _ _) (Nat.le_add_left _ _)

theorem length_of_readLenPrefixed {data content : List UInt8}
    (h : Relay.readLenPrefixed data = .ok content) : content.length ≤ data.length := by
  unfold Relay.readLenPrefixed at h
  split at h
  · cases h
  · dsimp only at h
    split at h
    · cases h
    · cases h
      rw [slice, List.length_take, List.length_drop]
      omega

/-- A failed decode pays for its error, and for all it allocated before. -/
theorem deserializeCompactBlock_metered (data : List UInt8) :
    (deserializeCompactBlock errorBytes data).1 =
        Outcome.ofExcept (Relay.deserializeCompactBlock data) ∧
      (deserializeCompactBlock errorBytes data).2 ≤
        data.length + reservedMax + maxTxDataSize + errorBytes := by
  rw [deserializeCompactBlock, readLenPrefixed_eq]
  cases hcontent : Relay.readLenPrefixed data with
  | error e =>
    rw [Relay.deserializeCompactBlock, hcontent]
    exact ⟨rfl, Nat.le_add_left _ _⟩
  | ok content =>
    have hlen : content.length ≤ data.length := length_of_readLenPrefixed hcontent
    have hmeters := @meters_readCompactBlock errorBytes ⟨content, 0⟩
    dsimp only [Outcome.ofExcept] at hmeters ⊢
    rcases hmeters with ⟨compact, t, hcode, hread, hpaid⟩ | ⟨e, t, hcode, hread, hpaid⟩
    · rw [hcode, deserializeCompactBlock_of_ok hcontent hread]
      dsimp only
      by_cases hrest : t.rest = []
      · rw [if_neg (not_not_intro hrest), if_pos hrest]
        exact ⟨rfl, by dsimp only; omega⟩
      · rw [if_pos hrest, if_neg hrest]
        exact ⟨rfl, by dsimp only; omega⟩
    · rw [hcode, deserializeCompactBlock_of_error hcontent hread]
      exact ⟨rfl, by dsimp only; omega⟩

end Meters

end Run

/-! ## Content that its length cannot say -/

theorem stable_readLe (width : Nat) : Stable (readLe width) :=
  (Stable.readExact width "failed to fill whole buffer").map leNat

theorem stable_readShortIds (count : Nat) : Stable (readShortIds count) := by
  induction count with
  | zero => exact Stable.ret _
  | succ count ih =>
    rw [readShortIds]
    refine (Stable.readExact 6 "failed to fill whole buffer").bind fun bytes => ?_
    exact ih.bind fun shortIds => Stable.ret _

theorem stable_readPrefilledTxs (count : Nat) : Stable (readPrefilledTxs count) := by
  induction count with
  | zero => exact Stable.ret _
  | succ count ih =>
    rw [readPrefilledTxs]
    refine (stable_readLe 2).bind fun index => (stable_readLe 4).bind fun txLen => ?_
    refine Stable.guard ?_
    refine (Stable.readExact txLen "failed to fill whole buffer").bind fun txData => ?_
    exact ih.bind fun txs => Stable.ret _

theorem stable_readCompactBlock : Stable readCompactBlock := by
  rw [readCompactBlock]
  refine (stable_readLe 4).bind fun headerLen => Stable.guard (Stable.guard ?_)
  refine (Stable.readExact headerLen "failed to fill whole buffer").bind fun header => ?_
  refine Stable.guard ((stable_readLe 8).bind fun nonce => ?_)
  refine (stable_readLe 4).bind fun shortIdCount => Stable.guard ?_
  refine (stable_readShortIds shortIdCount).bind fun shortIds => ?_
  refine (stable_readLe 4).bind fun prefilledCount => Stable.guard ?_
  refine (stable_readPrefilledTxs prefilledCount).bind fun prefilledTxs => ?_
  exact Stable.guard (Stable.ret _)

/-- Past four bytes of length the decoder stops inside the content, and fails there. -/
theorem deserializeCompactBlock_serialize_huge (h : compact.WithinLimits)
    (hlen : 2 ^ 32 ≤ compact.content.length) (padding : List UInt8) :
    deserializeCompactBlock (serializeCompactBlock compact ++ padding) ≠ .ok compact := by
  have hcontent := readLenPrefixed_append compact.content padding
  have hlt := leNat_lt_span (leBytes 4 compact.content.length)
  rw [length_leBytes] at hlt
  have hmore : compact.content.drop (leNat (leBytes 4 compact.content.length)) ≠ [] :=
    List.ne_nil_of_length_pos (by
      rw [List.length_drop]
      exact Nat.sub_pos_of_lt (Nat.lt_of_lt_of_le hlt hlen))
  have hall := readCompactBlock_content h
  rw [← List.take_append_drop (leNat (leBytes 4 compact.content.length)) compact.content] at hall
  cases hread : readCompactBlock
      (compact.content.take (leNat (leBytes 4 compact.content.length))) with
  | error e =>
    rw [serializeCompactBlock, deserializeCompactBlock_of_error hcontent hread]
    simp
  | ok r => exact absurd hread (stable_readCompactBlock.not_ok_of_append hall hmore)

/-- **Decoding**. A compact block within the limits comes back from under any padding exactly when
the four bytes of its length can say how much content it has. On any bytes the code answers as the
reader without memory, so it does not panic, and it allocates no more than it was sent, the two
vectors at their limits, one transaction at its limit and the error. -/
theorem decode_within_limits (compact : CompactBlock) (h : compact.WithinLimits)
    (padding : List UInt8) (errorBytes : Nat) (data : List UInt8) :
    (deserializeCompactBlock (serializeCompactBlock compact ++ padding) = .ok compact ↔
      compact.content.length < 2 ^ 32) ∧
    (Run.deserializeCompactBlock errorBytes data).1 =
      Outcome.ofExcept (deserializeCompactBlock data) ∧
    (Run.deserializeCompactBlock errorBytes data).2 ≤ data.length +
      (6 * maxShortIds + 32 * maxPrefilledTxs + maxTxDataSize) + errorBytes := by
  have hmetered := @Run.deserializeCompactBlock_metered errorBytes data
  have hreserved : Run.reservedMax = 6 * maxShortIds + 32 * maxPrefilledTxs := rfl
  refine ⟨⟨fun hok => ?_, fun hlen => deserializeCompactBlock_serialize h hlen padding⟩,
    hmetered.1, by omega⟩
  by_contra hlen
  exact deserializeCompactBlock_serialize_huge h (Nat.not_lt.mp hlen) padding hok

/-- Prefilled transactions of the largest size, `count` of them. -/
def fullTxs (count : Nat) : CompactBlock :=
  ⟨List.replicate 140 0, 0, [], List.replicate count ⟨0, List.replicate maxTxDataSize 0⟩⟩

theorem withinLimits_fullTxs {count : Nat} (h : count ≤ maxPrefilledTxs) :
    (fullTxs count).WithinLimits where
  headerMin := by simp [fullTxs]
  headerMax := by simp [fullTxs, maxHeaderSize]
  shortIds := Nat.zero_le _
  prefilled := by simpa [fullTxs] using h
  txData tx htx := by
    rw [List.eq_of_mem_replicate htx, List.length_replicate]
  total := by
    have : maxPrefilledTxs ≤ maxTxCount := by decide
    simp only [CompactBlock.txCount, fullTxs, List.length_replicate, List.length_nil]
    omega

theorem length_content_fullTxs (count : Nat) :
    (fullTxs count).content.length = 160 + count * (6 + maxTxDataSize) := by
  simp only [CompactBlock.content, fullTxs, u64Bytes, List.length_append, length_leBytes,
    List.length_replicate, List.flatMap_nil, List.length_nil, List.length_flatMap,
    List.map_replicate, List.sum_replicate_nat, PrefilledTx.bytes]

theorem full_transaction_decoded :
    deserializeCompactBlock (serializeCompactBlock (fullTxs 1) ++ [0, 0, 0]) = .ok (fullTxs 1) := by
  have hlimits := withinLimits_fullTxs (show 1 ≤ maxPrefilledTxs by decide)
  refine (decode_within_limits (fullTxs 1) hlimits [0, 0, 0] 0 []).1.mpr ?_
  rw [length_content_fullTxs, maxTxDataSize]
  decide

/-- A block within every limit of the decoder that its own encoding loses: 2148 transactions of
2 000 000 bytes are more than 4 GiB. -/
theorem full_transactions_lost :
    (fullTxs 2148).WithinLimits ∧
      deserializeCompactBlock (serializeCompactBlock (fullTxs 2148) ++ []) ≠
        .ok (fullTxs 2148) := by
  have hlimits := withinLimits_fullTxs (show 2148 ≤ maxPrefilledTxs by decide)
  refine ⟨hlimits, deserializeCompactBlock_serialize_huge hlimits ?_ []⟩
  rw [length_content_fullTxs, maxTxDataSize]
  decide

end MiningInfra.Relay
