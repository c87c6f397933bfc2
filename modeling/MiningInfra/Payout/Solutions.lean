import Mathlib.Data.Fintype.Pi
import MiningInfra.Coinbase.AuthDigest
import MiningInfra.Lib.BoundedSet
import MiningInfra.Payout.Tracker

/-!
# Crediting a solution once

`try_record_share_once` and `clear_cross_path_solutions`: the gate both share paths go
through, with the set of solutions credited since the last new block. What `record_share`
does to the tracker is taken as one step here.

`BoundedSolutionSet` is a hash set and a queue. They hold the same keys in every run, so it does
what one bounded set does, and that is what the ledger has.
-/

namespace MiningInfra.Payout

open Lib Coinbase

/-! ## The set of solutions -/

/-- `BoundedSolutionSet`: a hash set and the queue that says which key goes first. -/
structure BoundedSolutionSet where
  seen : Finset Bytes32
  order : List Bytes32
  capacity : Nat

namespace BoundedSolutionSet

def new (capacity : Nat) : BoundedSolutionSet := ⟨∅, [], max capacity 1⟩

/-- The eviction in front of an insertion: there is no result where the `expect` fires. -/
def makeRoom (s : BoundedSolutionSet) : Option BoundedSolutionSet :=
  if s.capacity ≤ s.seen.card then
    match s.order with
    | [] => none
    | oldest :: order => some { s with seen := s.seen.erase oldest, order }
  else some s

def insertIfNew (s : BoundedSolutionSet) (key : Bytes32) : Option (BoundedSolutionSet × Bool) :=
  if key ∈ s.seen then some (s, false)
  else do
    let s ← s.makeRoom
    pure ({ s with seen := insert key s.seen, order := s.order ++ [key] }, true)

/-- One more call, with the keys for which it returned `true`, in order. -/
def call (r : BoundedSolutionSet × List Bytes32) (key : Bytes32) :
    Option (BoundedSolutionSet × List Bytes32) := do
  let (s, new) ← r.1.insertIfNew key
  pure (s, if new then r.2 ++ [key] else r.2)

/-- The hash set and the queue of a bounded set. -/
def ofBoundedSet (b : BoundedSet Bytes32) : BoundedSolutionSet :=
  ⟨b.order.toFinset, b.order, b.capacity⟩

variable {b : BoundedSet Bytes32} {n : Nat} {r : BoundedSolutionSet × List Bytes32}

theorem makeRoom_ofBoundedSet (hpos : 0 < b.capacity) :
    (ofBoundedSet b).makeRoom = some ⟨b.kept.toFinset, b.kept, b.capacity⟩ := by
  obtain ⟨order, capacity, hnodup⟩ := b
  unfold makeRoom ofBoundedSet BoundedSet.kept
  dsimp only at hpos ⊢
  rw [List.toFinset_card_of_nodup hnodup]
  split
  · rename_i hfull
    cases order with
    | nil => exact absurd hfull (Nat.not_le_of_lt hpos)
    | cons oldest order =>
      rw [List.nodup_cons, ← List.mem_toFinset] at hnodup
      dsimp only [List.tail_cons]
      rw [List.toFinset_cons, Finset.erase_insert hnodup.1]
  · rfl

/-- **The code does what the bounded set does**: the queue has a key whenever one has to go. -/
theorem insertIfNew_ofBoundedSet (hpos : 0 < b.capacity) (key : Bytes32) :
    (ofBoundedSet b).insertIfNew key =
      some (ofBoundedSet (b.insertIfNew key).1, (b.insertIfNew key).2) := by
  have hseen : key ∈ (ofBoundedSet b).seen ↔ key ∈ b.order := List.mem_toFinset
  unfold insertIfNew BoundedSet.insertIfNew
  by_cases hk : key ∈ b.order
  · rw [if_pos (hseen.mpr hk), dif_pos hk]
  · rw [if_neg (mt hseen.mp hk), dif_neg hk, makeRoom_ofBoundedSet hpos, ofBoundedSet,
      List.toFinset_append, Finset.union_comm]
    rfl

/-- The set holds the last keys for which a call returned `true`. -/
def Recalls (n : Nat) (r : BoundedSolutionSet × List Bytes32) : Prop :=
  ∃ b : BoundedSet Bytes32,
    r.1 = ofBoundedSet b ∧ b.capacity = max n 1 ∧ b.order = r.2.rtake b.capacity

theorem Recalls.call (h : Recalls n r) (key : Bytes32) :
    ∃ r', BoundedSolutionSet.call r key = some r' ∧ Recalls n r' := by
  obtain ⟨s, accepted⟩ := r
  obtain ⟨b, rfl, hcap, horder⟩ := h
  have hpos : 0 < b.capacity := by omega
  refine ⟨_, by rw [BoundedSolutionSet.call, insertIfNew_ofBoundedSet hpos]; rfl, _, rfl,
    (b.capacity_insertIfNew key).trans hcap, ?_⟩
  rw [BoundedSet.capacity_insertIfNew, BoundedSet.insertIfNew_snd]
  by_cases hk : key ∈ b.order
  · simpa [BoundedSet.insertIfNew_of_mem hk, hk] using horder
  · simpa [hk] using BoundedSet.insertIfNew_eq_rtake horder hpos hk

theorem Recalls.calls (h : Recalls n r) (keys : List Bytes32) :
    ∃ r', keys.foldlM BoundedSolutionSet.call r = some r' ∧ Recalls n r' := by
  induction keys generalizing r with
  | nil => exact ⟨r, rfl, h⟩
  | cons key keys ih =>
    obtain ⟨r₁, hcall, h₁⟩ := h.call key
    obtain ⟨r', hcalls, h'⟩ := ih h₁
    exact ⟨r', by rw [List.foldlM_cons, hcall]; exact hcalls, h'⟩

end BoundedSolutionSet

open BoundedSolutionSet in
/-- **A repeat is told from the last keys.** However many calls there were, none panics, the set
and the queue hold the same keys, and the next call returns `false` for the last distinct keys for
which a call returned `true`. -/
theorem boundedSolutionSet_recalls (capacity : Nat) (keys : List Bytes32) :
    ∃ s accepted, keys.foldlM call (.new capacity, []) = some (s, accepted) ∧
      s.order.Nodup ∧ s.seen = s.order.toFinset ∧ s.order.length ≤ max capacity 1 ∧
      ∀ key, (s.insertIfNew key).map Prod.snd =
        some (decide (key ∉ accepted.dedup.rtake (max capacity 1))) := by
  have hnew : Recalls capacity (.new capacity, []) :=
    ⟨.new capacity, rfl, rfl, (List.rtake_nil _).symm⟩
  obtain ⟨⟨s, accepted⟩, hcalls, b, rfl, hcap, horder⟩ := hnew.calls keys
  refine ⟨_, accepted, hcalls, b.nodup, rfl, ?_, fun key => ?_⟩
  · show b.order.length ≤ _
    rw [horder, List.rtake, List.length_drop]
    omega
  · rw [insertIfNew_ofBoundedSet (by omega), Option.map_some, BoundedSet.insertIfNew_snd,
      BoundedSet.order_eq_dedup_rtake horder, hcap]

/-! ## The ledger -/

/-- `MAX_CROSS_PATH_SOLUTIONS`. -/
def maxCrossPathSolutions : Nat := 500000

variable {F : Type}

/-- A tracker and its `seen_solutions`. -/
structure Ledger (F : Type) where
  tracker : Tracker F
  seenSolutions : BoundedSet Bytes32

def Ledger.new (persistent : Bool) : Ledger F :=
  ⟨{ Tracker.new with persistent }, .new maxCrossPathSolutions⟩

def Ledger.clearCrossPathSolutions (l : Ledger F) : Ledger F :=
  { l with seenSolutions := .new maxCrossPathSolutions }

variable [Float64 F]

/-- `record_share` on a valid difficulty. -/
def Tracker.recordShare (t : Tracker F) (id : MinerId) (difficulty : F) (now : Nat) : Tracker F :=
  let credited := (t.openWindow now).creditMiner id difficulty now
  (if t.persistent then credited.touchSettlement id now else credited).markDirty

def Ledger.tryRecordShareOnce (hashes : Hashes) (l : Ledger F) (minerId : MinerId) (difficulty : F)
    (solution : List UInt8) (now : Nat) : Ledger F × Bool :=
  if validDifficulty difficulty then
    let inserted := l.seenSolutions.insertIfNew (hashes.sha256 solution)
    (⟨if inserted.2 then l.tracker.recordShare minerId difficulty now else l.tracker, inserted.1⟩,
      inserted.2)
  else (l, false)

section

variable (l : Ledger F) (minerId : MinerId) (difficulty : F) (hashes : Hashes)
  (solution : List UInt8) (now : Nat)

/-- What a credit does to the set: nothing, or the key is tried. -/
theorem Ledger.tryRecordShareOnce_cases :
    ((l.tryRecordShareOnce hashes minerId difficulty solution now).1.seenSolutions = l.seenSolutions
      ∧ (l.tryRecordShareOnce hashes minerId difficulty solution now).2 = false)
    ∨ ((l.tryRecordShareOnce hashes minerId difficulty solution now).1.seenSolutions
        = (l.seenSolutions.insertIfNew (hashes.sha256 solution)).1
      ∧ hashes.sha256 solution ∉ l.seenSolutions.order
      ∧ (l.tryRecordShareOnce hashes minerId difficulty solution now).2 = true) := by
  unfold Ledger.tryRecordShareOnce
  split
  · by_cases hk : hashes.sha256 solution ∈ l.seenSolutions.order
    · left
      simp only [BoundedSet.insertIfNew_of_mem hk, and_self]
    · refine .inr ⟨rfl, hk, ?_⟩
      simp only [BoundedSet.insertIfNew, dif_neg hk]
  · exact .inl ⟨rfl, rfl⟩

/-- A share is credited when its difficulty counts and its solution is new. -/
theorem Ledger.tryRecordShareOnce_iff :
    (l.tryRecordShareOnce hashes minerId difficulty solution now).2 = true ↔
      validDifficulty difficulty = true ∧ hashes.sha256 solution ∉ l.seenSolutions.order := by
  unfold Ledger.tryRecordShareOnce
  by_cases hvalid : validDifficulty difficulty = true
  · simp [hvalid, BoundedSet.insertIfNew_snd]
  · simp [hvalid]

end

end MiningInfra.Payout
