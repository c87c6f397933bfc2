import MiningInfra.Relay.Chunker
import MiningInfra.Relay.Compact

/-!
# Compact blocks as bytes

A compact block is serialized behind the length of its content, so that the padding of the last
shard can be told from it. The decoder has limits of its own and leaves no byte of the content
unread.
-/

namespace MiningInfra.Relay

open Coinbase

def maxHeaderSize : Nat := 3000

def maxShortIds : Nat := 50000

def maxPrefilledTxs : Nat := 10000

def maxTxCount : Nat := 100000

def maxTxDataSize : Nat := 2000000

def PrefilledTx.bytes (tx : PrefilledTx) : List UInt8 :=
  leBytes 2 tx.index.toNat ++ leBytes 4 tx.txData.length ++ tx.txData

/-- The content of a compact block, without its length. -/
def CompactBlock.content (compact : CompactBlock) : List UInt8 :=
  leBytes 4 compact.header.length ++ compact.header ++ u64Bytes compact.nonce
    ++ leBytes 4 compact.shortIds.length ++ compact.shortIds.flatMap List.ofFn
    ++ leBytes 4 compact.prefilledTxs.length ++ compact.prefilledTxs.flatMap PrefilledTx.bytes

def serializeCompactBlock (compact : CompactBlock) : List UInt8 := wrapLenPrefixed compact.content

/-- The cursor over the content. -/
abbrev ContentReader := StateT (List UInt8) (Except String)

/-- `read_exact`. -/
def readExact (n : Nat) : ContentReader (List UInt8) := fun rest =>
  if rest.length < n then .error "failed to fill whole buffer"
  else .ok (rest.take n, rest.drop n)

def readLe (width : Nat) : ContentReader Nat := leNat <$> readExact width

def readShortIds : (count : Nat) → ContentReader (List ShortId)
  | 0 => pure []
  | count + 1 => do
    let bytes ← readExact 6
    let shortIds ← readShortIds count
    return (fun i => bytes.getD i 0) :: shortIds

def readPrefilledTxs : (count : Nat) → ContentReader (List PrefilledTx)
  | 0 => pure []
  | count + 1 => do
    let index ← readLe 2
    let txLen ← readLe 4
    if maxTxDataSize < txLen then throw s!"transaction data too large: {txLen} bytes"
    let txData ← readExact txLen
    let prefilledTxs ← readPrefilledTxs count
    return ⟨UInt16.ofNat index, txData⟩ :: prefilledTxs

def readCompactBlock : ContentReader CompactBlock := do
  let headerLen ← readLe 4
  if headerLen = 0 then throw "header length must be > 0"
  if maxHeaderSize < headerLen then throw s!"header too large: {headerLen} bytes"
  let header ← readExact headerLen
  if header.length < 140 then throw "header too short for Zcash"
  let nonce ← readLe 8
  let shortIdCount ← readLe 4
  if maxShortIds < shortIdCount then throw s!"too many short IDs: {shortIdCount}"
  let shortIds ← readShortIds shortIdCount
  let prefilledCount ← readLe 4
  if maxPrefilledTxs < prefilledCount then
    throw s!"too many prefilled transactions: {prefilledCount}"
  let prefilledTxs ← readPrefilledTxs prefilledCount
  let totalTxs := shortIds.length + prefilledTxs.length
  if maxTxCount < totalTxs then throw s!"too many total transactions: {totalTxs}"
  return ⟨header, UInt64.ofNat nonce, shortIds, prefilledTxs⟩

/-- Whatever follows the content is padding. -/
def deserializeCompactBlock (data : List UInt8) : Except String CompactBlock := do
  let content ← readLenPrefixed data
  let (compact, rest) ← readCompactBlock content
  if rest ≠ [] then throw "trailing bytes after compact block payload"
  return compact

/-- The limits of the decoder. -/
structure CompactBlock.WithinLimits (compact : CompactBlock) : Prop where
  headerMin : 140 ≤ compact.header.length
  headerMax : compact.header.length ≤ maxHeaderSize
  shortIds : compact.shortIds.length ≤ maxShortIds
  prefilled : compact.prefilledTxs.length ≤ maxPrefilledTxs
  txData : ∀ tx ∈ compact.prefilledTxs, tx.txData.length ≤ maxTxDataSize
  total : compact.txCount ≤ maxTxCount

theorem readExact_append (bs rest : List UInt8) :
    readExact bs.length (bs ++ rest) = .ok (bs, rest) := by
  rw [readExact, if_neg (by simp), List.take_left, List.drop_left]

theorem readLe_leBytes {width n : Nat} (h : n < span width) (rest : List UInt8) :
    readLe width (leBytes width n ++ rest) = .ok (n, rest) := by
  have hread := readExact_append (leBytes width n) rest
  rw [length_leBytes] at hread
  show (leNat <$> readExact width : ContentReader Nat).run (leBytes width n ++ rest) = _
  rw [StateT.run_map]
  show (fun x : List UInt8 × List UInt8 => (leNat x.1, x.2)) <$> readExact width _ = _
  rw [hread]
  show Except.ok (leNat (leBytes width n), rest) = _
  rw [leNat_leBytes h]

/-- A step that reads what it expects leaves the rest to the next one. -/
theorem ContentReader.bind_ok {α β : Type} {x : ContentReader α} {f : α → ContentReader β}
    {bs rest : List UInt8} {a : α} (h : x bs = .ok (a, rest)) : (x >>= f) bs = f a rest := by
  show (x bs >>= fun r => f r.1 r.2) = _
  rw [h]
  rfl

theorem readShortIds_append (shortIds : List ShortId) (rest : List UInt8) :
    readShortIds shortIds.length (shortIds.flatMap List.ofFn ++ rest) = .ok (shortIds, rest) := by
  induction shortIds with
  | nil => rfl
  | cons shortId shortIds ih =>
    have hread := readExact_append (List.ofFn shortId) (shortIds.flatMap List.ofFn ++ rest)
    rw [List.length_ofFn] at hread
    have hback : (fun i : Fin 6 => (List.ofFn shortId).getD i 0) = shortId := by
      funext i
      rw [List.getD_eq_getElem?_getD, List.getElem?_ofFn, dif_pos i.isLt, Option.getD_some]
    rw [List.length_cons, readShortIds, List.flatMap_cons, List.append_assoc,
      ContentReader.bind_ok hread, ContentReader.bind_ok ih, hback]
    rfl

theorem readPrefilledTxs_append {prefilledTxs : List PrefilledTx}
    (h : ∀ tx ∈ prefilledTxs, tx.txData.length ≤ maxTxDataSize) (rest : List UInt8) :
    readPrefilledTxs prefilledTxs.length (prefilledTxs.flatMap PrefilledTx.bytes ++ rest)
      = .ok (prefilledTxs, rest) := by
  induction prefilledTxs with
  | nil => rfl
  | cons tx txs ih =>
    rw [List.forall_mem_cons] at h
    have hsize : tx.txData.length < span 4 := Nat.lt_of_le_of_lt h.1 (by decide)
    rw [List.length_cons, readPrefilledTxs, List.flatMap_cons, PrefilledTx.bytes]
    simp only [List.append_assoc]
    rw [ContentReader.bind_ok (readLe_leBytes tx.index.toNat_lt _),
      ContentReader.bind_ok (readLe_leBytes hsize _), if_neg (Nat.not_lt.mpr h.1),
      ContentReader.bind_ok (readExact_append _ _), ContentReader.bind_ok (ih h.2),
      UInt16.ofNat_toNat]
    rfl

variable {compact : CompactBlock}

theorem readCompactBlock_content (h : compact.WithinLimits) :
    readCompactBlock compact.content = .ok (compact, []) := by
  obtain ⟨hmin, hmax, hshort, hprefilled, htx, htotal⟩ := h
  have hheader : compact.header.length < span 4 := Nat.lt_of_le_of_lt hmax (by decide)
  have hids : compact.shortIds.length < span 4 := Nat.lt_of_le_of_lt hshort (by decide)
  have htxs : compact.prefilledTxs.length < span 4 := Nat.lt_of_le_of_lt hprefilled (by decide)
  have hlast := readPrefilledTxs_append htx []
  rw [List.append_nil] at hlast
  rw [readCompactBlock, CompactBlock.content, u64Bytes]
  simp only [List.append_assoc]
  rw [ContentReader.bind_ok (readLe_leBytes hheader _), if_neg (by omega),
    if_neg (Nat.not_lt.mpr hmax), ContentReader.bind_ok (readExact_append _ _),
    if_neg (Nat.not_lt.mpr hmin), ContentReader.bind_ok (readLe_leBytes compact.nonce.toNat_lt _),
    ContentReader.bind_ok (readLe_leBytes hids _), if_neg (Nat.not_lt.mpr hshort),
    ContentReader.bind_ok (readShortIds_append _ _), ContentReader.bind_ok (readLe_leBytes htxs _),
    if_neg (Nat.not_lt.mpr hprefilled), ContentReader.bind_ok hlast]
  rw [CompactBlock.txCount] at htotal
  rw [if_neg (Nat.not_lt.mpr htotal), UInt64.ofNat_toNat]
  rfl

/-- The four bytes of a length never say more than it. -/
theorem leNat_leBytes_four_le (n : Nat) : leNat (leBytes 4 n) ≤ n := by
  by_cases h : n < span 4
  · exact Nat.le_of_eq (leNat_leBytes h)
  · have hlt := leNat_lt_span (leBytes 4 n)
    rw [length_leBytes] at hlt
    exact Nat.le_of_lt (Nat.lt_of_lt_of_le hlt (Nat.not_lt.mp h))

/-- As much of the content is read as its length says in four bytes. -/
theorem readLenPrefixed_append (content padding : List UInt8) :
    readLenPrefixed (wrapLenPrefixed content ++ padding)
      = .ok (content.take (leNat (leBytes 4 content.length))) := by
  have hlen := length_leBytes 4 content.length
  have hle := leNat_leBytes_four_le content.length
  have htake : (wrapLenPrefixed content ++ padding).take 4 = leBytes 4 content.length := by
    rw [wrapLenPrefixed, List.append_assoc]
    nth_rewrite 1 [← hlen]
    exact List.take_left
  have hdrop : (wrapLenPrefixed content ++ padding).drop 4 = content ++ padding := by
    rw [wrapLenPrefixed, List.append_assoc]
    nth_rewrite 1 [← hlen]
    exact List.drop_left
  have hlength : (wrapLenPrefixed content ++ padding).length
      = 4 + content.length + padding.length := by
    rw [wrapLenPrefixed, List.length_append, List.length_append, hlen]
  rw [readLenPrefixed, if_neg (by omega), htake]
  rw [if_neg (by omega), slice, hdrop, List.take_append_of_le_length hle]

theorem readLenPrefixed_wrapLenPrefixed {content : List UInt8} (h : content.length < 2 ^ 32)
    (padding : List UInt8) :
    readLenPrefixed (wrapLenPrefixed content ++ padding) = .ok content := by
  rw [readLenPrefixed_append, leNat_leBytes h, List.take_length]

/-- **A compact block is read back**, whatever padding follows it. -/
theorem deserializeCompactBlock_serialize (h : compact.WithinLimits)
    (hlen : compact.content.length < 2 ^ 32) (padding : List UInt8) :
    deserializeCompactBlock (serializeCompactBlock compact ++ padding) = .ok compact := by
  rw [deserializeCompactBlock, serializeCompactBlock, readLenPrefixed_wrapLenPrefixed hlen padding]
  simp only [bind, Except.bind, readCompactBlock_content h, ne_eq, not_true_eq_false, if_false]
  rfl

end MiningInfra.Relay
