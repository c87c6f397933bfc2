import Mathlib.Data.Finset.Card
import MiningInfra.Coinbase.AuthDigest
import MiningInfra.Lib.Reach

/-!
# The txids the pool knows

The validator keeps the txids of the pool's mempool. Before a batch for which there is no room it
drops half of what it has, and it then takes the whole batch. The half is enough for a single
txid, but not for a batch that is larger than what was dropped.
-/

namespace MiningInfra.Jd.KnownTxids

open Lib Coinbase

/-- `MAX_KNOWN_TXIDS`. -/
def maxKnownTxids : Nat := 100000

/-- Remove all but the first half, in the order in which the set is iterated. -/
def evictHalf (known : Finset Bytes32) (order : List Bytes32) : Finset Bytes32 :=
  known \ (order.drop (known.card / 2)).toFinset

def updateKnownTxids (known : Finset Bytes32) (order txids : List Bytes32) : Finset Bytes32 :=
  (if maxKnownTxids < known.card + txids.length then evictHalf known order else known)
    ∪ txids.toFinset

def addKnownTxid (known : Finset Bytes32) (order : List Bytes32) (txid : Bytes32) :
    Finset Bytes32 :=
  insert txid (if maxKnownTxids ≤ known.card then evictHalf known order else known)

/-- The calls. The order in which a set is iterated may be another one at every call. -/
inductive Event where
  | update (order txids : List Bytes32)
  | add (order : List Bytes32) (txid : Bytes32)
  | clear

def next (known : Finset Bytes32) : Event → Option (Finset Bytes32)
  | .update order txids =>
    if order.Nodup ∧ order.toFinset = known then some (updateKnownTxids known order txids) else none
  | .add order txid =>
    if order.Nodup ∧ order.toFinset = known then some (addKnownTxid known order txid) else none
  | .clear => some ∅

/-- With half of what is known there is room for the batch. -/
def LeavesRoom (known : Finset Bytes32) : Event → Prop
  | .update _ txids => known.card / 2 + txids.length ≤ maxKnownTxids
  | _ => True

variable {known known' : Finset Bytes32} {order txids : List Bytes32} {e : Event}

theorem next_update : next known (.update order txids) = some known' ↔
    (order.Nodup ∧ order.toFinset = known) ∧ updateKnownTxids known order txids = known' := by
  rw [next, Option.ite_none_right_eq_some, Option.some.injEq]

theorem first_update (txids : List Bytes32) :
    next ∅ (.update [] txids) = some (updateKnownTxids ∅ [] txids) :=
  next_update.mpr ⟨⟨List.nodup_nil, List.toFinset_nil⟩, rfl⟩

theorem card_evictHalf (h : order.toFinset = known) :
    (evictHalf known order).card ≤ known.card / 2 := by
  have hkept : evictHalf known order ⊆ (order.take (known.card / 2)).toFinset := by
    intro txid htxid
    obtain ⟨hknown, hdropped⟩ := Finset.mem_sdiff.mp htxid
    have hsplit := List.take_append_drop (known.card / 2) order
    rw [← h, List.mem_toFinset, ← hsplit, List.mem_append] at hknown
    rw [List.mem_toFinset] at hdropped ⊢
    exact hknown.resolve_right hdropped
  have hfirst := (List.toFinset_card_le _).trans (List.length_take_le (known.card / 2) order)
  exact (Finset.card_le_card hkept).trans hfirst

/-- A call that leaves room keeps the bound. -/
theorem bounded_step (h : known.card ≤ maxKnownTxids) (hroom : LeavesRoom known e)
    (hnext : next known e = some known') : known'.card ≤ maxKnownTxids := by
  cases e with
  | update order txids =>
    obtain ⟨⟨-, horder⟩, rfl⟩ := next_update.mp hnext
    have hhalf := card_evictHalf horder
    have hbatch := List.toFinset_card_le txids
    have hroom : known.card / 2 + txids.length ≤ maxKnownTxids := hroom
    refine (Finset.card_union_le _ _).trans ?_
    split <;> omega
  | add order txid =>
    rw [next, Option.ite_none_right_eq_some] at hnext
    obtain ⟨⟨-, horder⟩, ⟨⟩⟩ := hnext
    have hhalf := card_evictHalf horder
    have hpos : 1 < maxKnownTxids := by decide
    refine (Finset.card_insert_le _ _).trans ?_
    split <;> omega
  | clear =>
    cases hnext
    exact Nat.zero_le _

/-- The number in little-endian order. -/
def numbered (n : Nat) : Bytes32 := toBytes32 (leBytes 32 n)

theorem numbered_inj {m n : Nat} (hm : m < span 32) (hn : n < span 32)
    (h : numbered m = numbered n) : m = n := by
  have hbytes := congrArg Bytes32.toList h
  rw [numbered, numbered, toList_toBytes32 (length_leBytes _ _),
    toList_toBytes32 (length_leBytes _ _)] at hbytes
  rw [← leNat_leBytes hm, ← leNat_leBytes hn, hbytes]

end MiningInfra.Jd.KnownTxids
