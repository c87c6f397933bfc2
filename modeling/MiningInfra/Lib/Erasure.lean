import Mathlib.Data.List.Nodup
import Mathlib.Data.List.Perm.Subperm

/-!
# Erasure codes

A codeword is sent in pieces and some of them are lost. What has come is a list with a gap for
every piece that has not; a code restores the codeword when enough has come. The number of pieces
that came is counted from their numbers, so order and repeats do not matter.
-/

namespace MiningInfra.Lib

variable {α ε : Type}

/-- What has come of a codeword: a piece of it, or nothing, in every place. -/
def Survives (codeword : List α) (received : List (Option α)) : Prop :=
  received.length = codeword.length ∧ ∀ i a, received.getD i none = some a → codeword[i]? = some a

/-- The code restores the whole codeword from any `need` pieces of it. -/
def Restores (reconstruct : List (Option α) → Except ε (List (Option α))) (need : Nat)
    (codeword : List α) : Prop :=
  ∀ received, Survives codeword received → need ≤ (received.filter Option.isSome).length →
    reconstruct received = .ok (codeword.map some)

theorem Survives.replicate_none (codeword : List α) :
    Survives codeword (List.replicate codeword.length none) := by
  refine ⟨List.length_replicate, fun i a h => ?_⟩
  rw [List.getD_eq_getElem?_getD, List.getElem?_replicate] at h
  split at h <;> cases h

variable {codeword : List α} {received : List (Option α)} {i : Nat} {a : α}

theorem Survives.set (h : Survives codeword received) (ha : codeword[i]? = some a) :
    Survives codeword (received.set i (some a)) := by
  refine ⟨List.length_set.trans h.1, fun j b hb => ?_⟩
  rw [List.getD_eq_getElem?_getD, List.getElem?_set] at hb
  split at hb
  · rename_i hij
    subst hij
    split at hb
    · rw [← Option.some.inj hb]
      exact ha
    · cases hb
  · exact h.2 j b (by rw [List.getD_eq_getElem?_getD]; exact hb)

/-- The first piece that has come is one of the codeword. -/
theorem Survives.head_filled (h : Survives codeword received) (ha : received.getD i none = some a) :
    ∃ b, (received.filterMap id).head? = some b ∧ b ∈ codeword := by
  have hmem : ∀ b ∈ received.filterMap id, b ∈ codeword := by
    intro b hb
    obtain ⟨x, hx, hxb⟩ := List.mem_filterMap.mp hb
    obtain ⟨j, hj, hget⟩ := List.getElem_of_mem hx
    refine List.mem_of_getElem? (h.2 j b ?_)
    rw [List.getD_eq_getElem?_getD, List.getElem?_eq_getElem hj, hget]
    exact hxb
  have ha' : a ∈ received.filterMap id := by
    rw [List.getD_eq_getElem?_getD] at ha
    cases hget : received[i]? with
    | none => rw [hget] at ha; cases ha
    | some x =>
      rw [hget] at ha
      exact List.mem_filterMap.mpr ⟨x, List.mem_of_getElem? hget, ha⟩
  cases hlist : received.filterMap id with
  | nil => rw [hlist] at ha'; cases ha'
  | cons b rest => exact ⟨b, rfl, hmem b (by rw [hlist]; exact List.mem_cons_self)⟩

/-- The filled places are counted one by one. -/
theorem length_filter_isSome (received : List (Option α)) :
    (received.filter Option.isSome).length =
      ((List.range received.length).filter fun i => (received.getD i none).isSome).length := by
  have hmap : (List.range received.length).map (fun i => received.getD i none) = received := by
    apply List.ext_getElem
    · simp
    · intro i hi hi'
      rw [List.getElem_map, List.getElem_range, List.getD_eq_getElem?_getD,
        List.getElem?_eq_getElem hi', Option.getD_some]
  conv_lhs => rw [← hmap]
  rw [List.filter_map, List.length_map]
  rfl

/-- Pieces with different numbers have come, so at least that many have. -/
theorem length_le_filled {ids : List Nat} (hnodup : ids.Nodup)
    (h : ∀ i ∈ ids, (received.getD i none).isSome = true) :
    ids.length ≤ (received.filter Option.isSome).length := by
  rw [length_filter_isSome]
  refine (hnodup.subperm fun i hi => ?_).length_le
  have hsome := h i hi
  refine List.mem_filter.mpr ⟨List.mem_range.mpr ?_, hsome⟩
  refine Nat.lt_of_not_le fun hle => ?_
  rw [List.getD_eq_getElem?_getD, List.getElem?_eq_none hle] at hsome
  cases hsome

/-- When few are lost, many have different numbers. -/
theorem length_le_kept (total : Nat) (lost : List Nat) :
    total ≤ ((List.range total).filter fun i => i ∉ lost).length + lost.length := by
  have hsub : List.range total ⊆ ((List.range total).filter fun i => i ∉ lost) ++ lost := by
    intro i hi
    by_cases hlost : i ∈ lost
    · exact List.mem_append_right _ hlost
    · exact List.mem_append_left _ (List.mem_filter.mpr ⟨hi, by simpa using hlost⟩)
  have hlen := (List.nodup_range.subperm hsub).length_le
  rwa [List.length_range, List.length_append] at hlen

end MiningInfra.Lib
