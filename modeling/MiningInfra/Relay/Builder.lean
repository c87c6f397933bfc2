import MiningInfra.Relay.Reconstruct

/-!
# Compact blocks from full blocks

Two builders make compact blocks: the relay's own, for a peer whose mempool is known, and the
one of the ingress, which sends by short id whatever it can name. Both write the coinbase and
what they do not name into the block, each with the gap from the one before, and both are the
same loop. A receiver that has what was sent by short id gets the block back.
-/

namespace MiningInfra.Relay

open Lib Coinbase

/-- Transactions in block order from `index` on, each with its short id if it is sent by one. The
gap to the prefilled transaction before is cut to 16 bits. -/
def compactLoop : (index : Nat) → (lastPrefilledIndex : Int) →
    List (Option ShortId × List UInt8) → List ShortId × List PrefilledTx
  | _, _, [] => ([], [])
  | index, last, (some shortId, _) :: rest =>
    let built := compactLoop (index + 1) last rest
    (shortId :: built.1, built.2)
  | index, last, (none, txData) :: rest =>
    let built := compactLoop (index + 1) index rest
    (built.1, ⟨UInt16.ofInt (index - last - 1), txData⟩ :: built.2)

/-- The compact block of transactions with their short ids. -/
def compactOf (header : List UInt8) (nonce : UInt64)
    (items : List (Option ShortId × List UInt8)) : CompactBlock :=
  let built := compactLoop 0 (-1) items
  ⟨header, nonce, built.1, built.2⟩

section Code

variable (hashes : Hashes) (sip : SipHash)

structure CompactBlockBuilder where
  header : List UInt8
  nonce : UInt64
  transactions : List (WtxId × List UInt8)

/-- How a transaction is sent to a peer: the coinbase and what the peer does not have is
prefilled. -/
def CompactBlockBuilder.item (b : CompactBlockBuilder) (peerMempool : Mempool)
    (blockIndex : Nat) (tx : WtxId × List UInt8) : Option ShortId × List UInt8 :=
  let isCoinbase := blockIndex = 0
  let inPeerMempool := tx.1 ∈ peerMempool.wtxids
  if isCoinbase ∨ ¬ inPeerMempool then (none, tx.2)
  else (some (ShortId.compute sip tx.1 (zcashBlockHash hashes b.header) b.nonce), tx.2)

def CompactBlockBuilder.build (b : CompactBlockBuilder) (peerMempool : Mempool) : CompactBlock :=
  compactOf b.header b.nonce (b.transactions.mapIdx (b.item hashes sip peerMempool))

/-- `too many transactions for relay prefilled indices`. -/
def checkPrefilledIndexRange (txCount : Nat) : Except String Unit :=
  if 0xffff + 1 < txCount then
    .error s!"too many transactions for relay prefilled indices: {txCount}"
  else .ok ()

/-- How the ingress sends a transaction: by short id if it has a wtxid for it, except the
coinbase. What a caller resolves may depend on the call, so `resolveWtxid` gets the index too. -/
def ingressItem (header : List UInt8) (resolveWtxid : Nat → List UInt8 → Option WtxId)
    (index : Nat) (txData : List UInt8) : Option ShortId × List UInt8 :=
  if 0 < index then
    ((resolveWtxid index txData).map fun wtxid =>
      ShortId.compute sip wtxid (zcashBlockHash hashes header) 0, txData)
  else (none, txData)

def compactBlockFromTransactions (header : List UInt8) (transactions : List (List UInt8))
    (resolveWtxid : Nat → List UInt8 → Option WtxId) : Except String CompactBlock := do
  checkPrefilledIndexRange transactions.length
  pure (compactOf header 0 (transactions.mapIdx (ingressItem hashes sip header resolveWtxid)))

end Code

/-! ## The loop and its inverse -/

/-- The slot of a transaction once the prefilled ones are in. -/
def slotOf (item : Option ShortId × List UInt8) : Option (List UInt8) :=
  if item.1.isSome then none else some item.2

theorem toNat_ofInt {gap : Nat} (h : gap < 65536) : (UInt16.ofInt gap).toNat = gap := by
  have hmod : ((gap : Int) % 2 ^ 16).toNat = gap := by omega
  rw [UInt16.ofInt, hmod, UInt16.toNat_ofNat_of_lt' h]

theorem fst_compactLoop (items : List (Option ShortId × List UInt8)) :
    ∀ (index : Nat) (last : Int), (compactLoop index last items).1 = items.filterMap Prod.fst := by
  induction items with
  | nil => exact fun _ _ => rfl
  | cons item items ih =>
    intro index last
    obtain ⟨_ | shortId, tx⟩ := item
    · exact ih (index + 1) index
    · exact congrArg (shortId :: ·) (ih (index + 1) last)

theorem length_compactLoop (items : List (Option ShortId × List UInt8)) :
    ∀ (index : Nat) (last : Int), (compactLoop index last items).1.length +
      (compactLoop index last items).2.length = items.length := by
  induction items with
  | nil => exact fun _ _ => rfl
  | cons item items ih =>
    intro index last
    obtain ⟨_ | shortId, tx⟩ := item
    · rw [compactLoop]
      exact congrArg Nat.succ (ih (index + 1) index)
    · rw [compactLoop]
      exact (Nat.succ_add _ _).trans (congrArg Nat.succ (ih (index + 1) last))

/-- The prefilled transactions go back to their places. `done` are the slots before, and the one
before `offset` is the last that was prefilled. -/
theorem fillPrefilled_compactLoop {items : List (Option ShortId × List UInt8)} :
    ∀ {offset : Nat} {done : List (Option (List UInt8))}, offset ≤ done.length →
      done.length + items.length ≤ 0x10000 →
      fillPrefilled (done.length + items.length) offset
          (done ++ List.replicate items.length none)
          (compactLoop done.length (offset - 1) items).2 = .ok (done ++ items.map slotOf) := by
  induction items with
  | nil => exact fun _ _ => rfl
  | cons item items ih =>
    intro offset done hle hcount
    rw [List.length_cons] at hcount ⊢
    obtain ⟨_ | shortId, tx⟩ := item
    · -- prefilled: the gap leads to the next slot, which is empty
      have hgap : (done.length : Int) - (offset - 1) - 1 = (done.length - offset : Nat) := by
        omega
      have hposition : offset + (UInt16.ofInt ((done.length : Int) - (offset - 1) - 1)).toNat =
          done.length := by
        rw [hgap, toNat_ofInt (by omega)]
        omega
      have hset : (done ++ List.replicate (items.length + 1) none).set done.length (some tx) =
          (done ++ [some tx]) ++ List.replicate items.length none := by
        rw [List.set_append_right _ _ (Nat.le_refl _), Nat.sub_self, List.replicate_succ,
          List.set_cons_zero, List.append_assoc]
        rfl
      have hslot : (done ++ List.replicate (items.length + 1) none).getD done.length none =
          (none : Option (List UInt8)) := by
        rw [List.getD_append_right _ _ _ _ (Nat.le_refl _), Nat.sub_self, List.replicate_succ,
          List.getD_cons_zero]
      have hdone : (done ++ [some tx]).length = done.length + 1 := by simp
      have hrest := @ih (done.length + 1) (done ++ [some tx]) (by omega) (by omega)
      have hlast : ((done.length + 1 : Nat) : Int) - 1 = done.length := by omega
      rw [hdone, hlast, List.append_assoc _ _ (items.map slotOf),
        Nat.add_right_comm, Nat.add_assoc] at hrest
      rw [compactLoop, fillPrefilled, hposition, if_pos (by omega), hslot, hset]
      exact hrest
    · -- sent by short id: the next slot stays empty
      have hdone : (done ++ [none]).length = done.length + 1 := by simp
      have hrest := @ih offset (done ++ [none]) (by omega) (by omega)
      rw [hdone, List.append_assoc, List.append_assoc, Nat.add_right_comm, Nat.add_assoc] at hrest
      rw [compactLoop]
      exact hrest

variable {mempool : Mempool} {hashes : Hashes} {reader : TxReader} {header : List UInt8}
  {map : Table ShortId (Option WtxId)} {items : List (Option ShortId × List UInt8)}

section Resolved

variable (h : ∀ shortId tx, (some shortId, tx) ∈ items →
    ∃ wtxid, map.lookup shortId = some (some wtxid) ∧ mempool.txData wtxid = some tx)

include h

/-- The short ids go to the slots that are left. -/
theorem resolveSlots_items :
    resolveSlots mempool map (items.map slotOf) (items.filterMap Prod.fst) =
      .ok ⟨items.map fun item => some item.2, [], [], []⟩ := by
  induction items with
  | nil => rfl
  | cons item items ih =>
    have hrest := ih fun shortId tx hmem => h shortId tx (List.mem_cons_of_mem _ hmem)
    obtain ⟨_ | shortId, tx⟩ := item
    · change resolveSlots mempool map (some tx :: items.map slotOf)
        (items.filterMap Prod.fst) = _
      rw [resolveSlots, hrest]
      rfl
    · obtain ⟨wtxid, hlookup, hdata⟩ := h shortId tx List.mem_cons_self
      change resolveSlots mempool map (none :: items.map slotOf)
        (shortId :: items.filterMap Prod.fst) = _
      rw [resolveSlots, hrest]
      simp only [hlookup, hdata, bind, Except.bind]
      rfl

/-- **A receiver that resolves the short ids gets the block back.** -/
theorem reconstruct_compactOf (nonce : UInt64) (hcount : items.length ≤ 0x10000)
    (hcut : WellCut hashes reader header (items.map Prod.snd)) :
    reconstruct hashes reader mempool map (compactOf header nonce items) =
      .complete (items.map Prod.snd) := by
  have htotal : (compactOf header nonce items).txCount = items.length :=
    length_compactLoop items 0 (-1)
  have hfill : fillPrefilled items.length 0 (List.replicate items.length none)
      (compactOf header nonce items).prefilledTxs = .ok (items.map slotOf) := by
    have hstart := @fillPrefilled_compactLoop items 0 [] (Nat.le_refl _) (by simpa using hcount)
    simpa [compactOf] using hstart
  have hids : (compactOf header nonce items).shortIds = items.filterMap Prod.fst :=
    fst_compactLoop items 0 (-1)
  have hall : (items.map fun item => some item.2).all Option.isSome = true := by simp
  have hfilled : (items.map fun item => some item.2).filterMap id = items.map Prod.snd := by
    rw [List.filterMap_map, ← List.filterMap_eq_map]
    rfl
  rw [reconstruct, htotal, hfill, hids]
  dsimp only
  rw [resolveSlots_items h]
  dsimp only
  rw [if_neg (by simp), assemble, if_pos hall]
  dsimp only
  rw [hfilled, show (compactOf header nonce items).header = header from rfl,
    validateBlockTransactions_eq_ok.mpr ⟨rfl, hcut⟩]

end Resolved

/-! ## What the receiver has -/

/-- The receiver has a transaction under its wtxid, and no other of its wtxids has the same short
id under the key of the block. -/
structure Resolves (sip : SipHash) (mempool : Mempool) (headerHash : Bytes32) (nonce : UInt64)
    (wtxid : WtxId) (tx : List UInt8) : Prop where
  listed : wtxid ∈ mempool.wtxids
  data : mempool.txData wtxid = some tx
  alone : ∀ other ∈ mempool.wtxids,
    ShortId.compute sip other headerHash nonce = ShortId.compute sip wtxid headerHash nonce →
    other = wtxid

theorem Resolves.lookup {sip : SipHash} {headerHash : Bytes32} {nonce : UInt64} {wtxid : WtxId}
    {tx : List UInt8} (hkeys : mempool.wtxids.Nodup)
    (h : Resolves sip mempool headerHash nonce wtxid tx) :
    (prepare sip mempool headerHash nonce).lookup
      (ShortId.compute sip wtxid headerHash nonce) = some (some wtxid) := by
  have hone : candidates sip mempool headerHash nonce
      (ShortId.compute sip wtxid headerHash nonce) = [wtxid] := by
    rw [candidates, ← List.perm_singleton]
    refine (List.perm_ext_iff_of_nodup (hkeys.filter _) (List.nodup_singleton _)).mpr fun other => ?_
    rw [List.mem_filter, List.mem_singleton, decide_eq_true_eq]
    constructor
    · exact fun hother => h.alone other hother.1 hother.2
    · rintro rfl
      exact ⟨h.listed, rfl⟩
  rw [lookup_prepare, hone]
  rfl

theorem reconstruct_mapIdx {α : Type} (nonce : UInt64) {l : List α}
    {item : Nat → α → Option ShortId × List UInt8} {tx : α → List UInt8}
    (hitem : ∀ i a, (item i a).2 = tx a) (hcount : l.length ≤ 0x10000)
    (hcut : WellCut hashes reader header (l.map tx))
    (h : ∀ i a shortId, l[i]? = some a → (item i a).1 = some shortId →
      ∃ wtxid, map.lookup shortId = some (some wtxid) ∧ mempool.txData wtxid = some (tx a)) :
    reconstruct hashes reader mempool map (compactOf header nonce (l.mapIdx item)) =
      .complete (l.map tx) := by
  have hsnd : (l.mapIdx item).map Prod.snd = l.map tx := by
    refine List.ext_getElem? fun i => ?_
    rw [List.getElem?_map, List.getElem?_mapIdx, List.getElem?_map]
    cases l[i]? with
    | none => rfl
    | some a => exact congrArg some (hitem i a)
  rw [← hsnd]
  refine reconstruct_compactOf ?_ nonce (by rwa [List.length_mapIdx]) (hsnd ▸ hcut)
  intro shortId data hmem
  obtain ⟨i, hi, heq⟩ := List.mem_mapIdx.mp hmem
  obtain ⟨wtxid, hlookup, hdata⟩ :=
    h i l[i] shortId (List.getElem?_eq_getElem hi) (congrArg Prod.fst heq)
  refine ⟨wtxid, hlookup, hdata.trans (congrArg some ?_)⟩
  exact (hitem i l[i]).symm.trans (congrArg Prod.snd heq)

/-- **Compact blocks come back whole.** A block of at most 65536 transactions that its header
commits to is reconstructed from what either builder makes of it, in the same order, by every
receiver that has the transactions that were sent by short id. The mempool lists a wtxid once. -/
theorem built_reconstructs {hashes : Hashes} {reader : TxReader} {sip : SipHash}
    {mempool : Mempool} {header : List UInt8} {txs : List (List UInt8)}
    (hkeys : mempool.wtxids.Nodup) (hcut : WellCut hashes reader header txs)
    (hcount : txs.length ≤ 0x10000) :
    (∀ (b : CompactBlockBuilder) (peerMempool : Mempool),
      b.header = header → b.transactions.map Prod.snd = txs →
      (∀ i wtxid tx, 0 < i → b.transactions[i]? = some (wtxid, tx) →
        wtxid ∈ peerMempool.wtxids →
        Resolves sip mempool (zcashBlockHash hashes header) b.nonce wtxid tx) →
      reconstruct hashes reader mempool
          (prepare sip mempool (zcashBlockHash hashes header) b.nonce)
          (b.build hashes sip peerMempool) = .complete txs) ∧
    ∀ resolveWtxid : Nat → List UInt8 → Option WtxId,
      (∀ i wtxid tx, 0 < i → txs[i]? = some tx → resolveWtxid i tx = some wtxid →
        Resolves sip mempool (zcashBlockHash hashes header) 0 wtxid tx) →
      ∃ compact, compactBlockFromTransactions hashes sip header txs resolveWtxid = .ok compact ∧
        reconstruct hashes reader mempool
          (prepare sip mempool (zcashBlockHash hashes header) 0) compact = .complete txs := by
  constructor
  · intro b peerMempool hheader htxs hhas
    subst hheader htxs
    rw [List.length_map] at hcount
    refine reconstruct_mapIdx b.nonce (fun i tx => ?_) hcount hcut fun i tx shortId hi hid => ?_
    · rw [CompactBlockBuilder.item]
      split <;> rfl
    · rw [CompactBlockBuilder.item] at hid
      split at hid
      · cases hid
      · rename_i hsent
        rw [not_or, not_not] at hsent
        have hresolves := hhas i tx.1 tx.2 (Nat.pos_of_ne_zero hsent.1) hi hsent.2
        obtain rfl := Option.some.inj hid
        exact ⟨tx.1, hresolves.lookup hkeys, hresolves.data⟩
  · intro resolveWtxid hhas
    have hrange : checkPrefilledIndexRange txs.length = .ok () :=
      if_neg (Nat.not_lt.mpr hcount)
    refine ⟨_, by rw [compactBlockFromTransactions, hrange]; rfl, ?_⟩
    have hcut' : WellCut hashes reader header (txs.map id) := by rwa [List.map_id]
    conv_rhs => rw [← List.map_id txs]
    refine reconstruct_mapIdx 0 (fun i tx => ?_) hcount hcut' fun i tx shortId hi hid => ?_
    · rw [ingressItem]
      split <;> rfl
    · rw [ingressItem] at hid
      split at hid
      · rename_i hpos
        obtain ⟨wtxid, hwtxid, rfl⟩ := Option.map_eq_some_iff.mp hid
        have hresolves := hhas i wtxid tx hpos hi hwtxid
        exact ⟨wtxid, hresolves.lookup hkeys, hresolves.data⟩
      · cases hid

/-- A mempool with the one transaction `02`, under the wtxid `02..02`. -/
def secondMempool : Mempool where
  wtxids := [⟨fun _ => 2, fun _ => 2⟩]
  txData wtxid := if wtxid = ⟨fun _ => 2, fun _ => 2⟩ then some [2] else none

theorem second_by_short_id :
    ∃ compact, compactBlockFromTransactions threeHashes (fun _ _ _ => 5) twoHeader [[1], [2]]
        (fun _ _ => some ⟨fun _ => 2, fun _ => 2⟩) = .ok compact ∧
      compact.shortIds.length = 1 ∧ compact.prefilledTxs = [⟨0, [1]⟩] ∧
      reconstruct threeHashes byteReader secondMempool
        (prepare (fun _ _ _ => 5) secondMempool (zcashBlockHash threeHashes twoHeader) 0) compact =
          .complete [[1], [2]] := by
  have hcut : WellCut threeHashes byteReader twoHeader [[1], [2]] :=
    (validateBlockTransactions_eq_ok.mp
      (show validateBlockTransactions threeHashes byteReader twoHeader [[1], [2]] = .ok 2 by
        decide +kernel)).2
  have hkeys : secondMempool.wtxids.Nodup := List.nodup_singleton _
  obtain ⟨compact, hbuilt, hwhole⟩ :=
    (@built_reconstructs threeHashes byteReader (fun _ _ _ => 5) secondMempool twoHeader
      [[1], [2]] hkeys hcut (by decide)).2 (fun _ _ => some ⟨fun _ => 2, fun _ => 2⟩) (by
        intro i wtxid tx hpos hi hwtxid
        obtain rfl := Option.some.inj hwtxid
        obtain rfl : i = 1 := by
          have := (List.getElem?_eq_some_iff.mp hi).1
          simp only [List.length_cons, List.length_nil] at this
          omega
        obtain rfl := Option.some.inj hi
        exact ⟨List.mem_cons_self, by simp [secondMempool], fun other hmem _ => List.mem_singleton.mp hmem⟩)
  refine ⟨compact, hbuilt, ?_, ?_, hwhole⟩
  · obtain rfl := Except.ok.inj hbuilt
    rfl
  · obtain rfl := Except.ok.inj hbuilt
    rfl

end MiningInfra.Relay
