import Mathlib.Data.List.Dedup
import Mathlib.Data.List.DropRight
import Mathlib.Data.List.Perm.Subperm

/-!
# Bounded sets

A set of keys with a capacity that forgets its oldest key when a new one does not fit.
The hash set and the queue of a FIFO eviction hold the same keys, so one list without
repetition stands for both. What it holds are the last keys that came in. The last lemma says when
such a set can be relied on: as long as every key comes from few enough sources, nothing is ever
forgotten.
-/

namespace MiningInfra.Lib

/-- The keys, oldest first. -/
structure BoundedSet (κ : Type) where
  order : List κ
  capacity : Nat
  nodup : order.Nodup

namespace BoundedSet

variable {κ α : Type}

/-- An empty set with room for at least one key. -/
def new (capacity : Nat) : BoundedSet κ := ⟨[], max capacity 1, List.nodup_nil⟩

/-- The keys that stay when one more comes in. -/
def kept (s : BoundedSet κ) : List κ :=
  if s.capacity ≤ s.order.length then s.order.tail else s.order

theorem kept_sublist (s : BoundedSet κ) : s.kept.Sublist s.order := by
  unfold kept
  split
  · exact List.tail_sublist _
  · exact List.Sublist.refl _

variable {k k' : κ} {s : BoundedSet κ}

theorem nodup_kept_append (s : BoundedSet κ) (hk : k ∉ s.order) : (s.kept ++ [k]).Nodup := by
  refine List.nodup_append.mpr ⟨s.kept_sublist.nodup s.nodup, List.nodup_singleton k, ?_⟩
  intro a ha b hb hab
  rw [List.mem_singleton.mp hb] at hab
  exact hk (hab ▸ s.kept_sublist.subset ha)

variable {accepted : List κ}

/-- Of the last keys all but the first stay, if they fill the set. -/
theorem kept_eq_rtake (h : s.order = accepted.rtake s.capacity) (hpos : 0 < s.capacity) :
    s.kept = accepted.rtake (s.capacity - 1) := by
  rw [kept, h, List.rtake, List.rtake, List.length_drop, List.tail_drop]
  split <;> congr 1 <;> omega

variable [DecidableEq κ]

/-- Add a key, and say whether it is new. -/
def insertIfNew (s : BoundedSet κ) (k : κ) : BoundedSet κ × Bool :=
  if h : k ∈ s.order then (s, false)
  else (⟨s.kept ++ [k], s.capacity, s.nodup_kept_append h⟩, true)

theorem insertIfNew_of_mem (h : k ∈ s.order) :
    s.insertIfNew k = (s, false) := dif_pos h

theorem insertIfNew_snd (s : BoundedSet κ) (k : κ) :
    (s.insertIfNew k).2 = decide (k ∉ s.order) := by
  unfold insertIfNew
  split <;> simp [*]

@[simp] theorem capacity_insertIfNew (s : BoundedSet κ) (k : κ) :
    (s.insertIfNew k).1.capacity = s.capacity := by
  unfold insertIfNew
  split <;> rfl

theorem mem_insertIfNew_self (s : BoundedSet κ) (k : κ) : k ∈ (s.insertIfNew k).1.order := by
  unfold insertIfNew
  split
  · assumption
  · exact List.mem_append_right _ (List.mem_singleton_self k)

theorem mem_of_mem_insertIfNew (h : k' ∈ (s.insertIfNew k).1.order) : k' = k ∨ k' ∈ s.order := by
  unfold insertIfNew at h
  split at h
  · exact .inr h
  · rcases List.mem_append.mp h with h | h
    · exact .inr (s.kept_sublist.subset h)
    · exact .inl (List.mem_singleton.mp h)

/-- A key is kept while there is room. -/
theorem mem_insertIfNew_of_lt (hroom : s.order.length < s.capacity) (h : k' ∈ s.order) :
    k' ∈ (s.insertIfNew k).1.order := by
  unfold insertIfNew
  split
  · exact h
  · refine List.mem_append_left _ ?_
    rw [kept, if_neg (by omega)]
    exact h

/-- **The set holds the last keys that came in.** -/
theorem insertIfNew_eq_rtake (h : s.order = accepted.rtake s.capacity) (hpos : 0 < s.capacity)
    (hk : k ∉ s.order) : (s.insertIfNew k).1.order = (accepted ++ [k]).rtake s.capacity := by
  obtain ⟨n, hn⟩ := Nat.exists_eq_succ_of_ne_zero hpos.ne'
  rw [insertIfNew, dif_neg hk, hn, List.rtake_concat_succ]
  exact congrArg (· ++ [k]) ((kept_eq_rtake h hpos).trans (by rw [hn]; rfl))

/-- They are the last distinct ones: `dedup` leaves every key where it stands last. -/
theorem order_eq_dedup_rtake (h : s.order = accepted.rtake s.capacity) :
    s.order = accepted.dedup.rtake s.capacity := by
  by_cases hlen : accepted.length ≤ s.capacity
  · rw [List.rtake, Nat.sub_eq_zero_of_le hlen, List.drop_zero] at h
    rw [← h, s.nodup.dedup, List.rtake, h, Nat.sub_eq_zero_of_le hlen, List.drop_zero]
  · have hfull : s.order.length = s.capacity := by
      rw [h, List.rtake, List.length_drop]
      omega
    have hsplit : accepted.rdrop s.capacity ++ s.order = accepted := by
      rw [h]
      exact List.take_append_drop _ _
    rw [← hsplit, List.dedup_append, s.nodup.dedup]
    -- what `dedup` takes out stands before the keys of the set
    obtain ⟨older, holder⟩ := List.suffix_union_right (accepted.rdrop s.capacity) s.order
    rw [← holder, List.rtake, ← hfull, List.length_append, Nat.add_sub_cancel, List.drop_left]

omit [DecidableEq κ] in
/-- **Keys from few sources leave room**: when each key is the image of one of the sources, and so
is one that is not there yet, there is room as long as the distinct sources fit. -/
theorem length_lt_of_sources [DecidableEq α] {f : α → κ} {sources : List α}
    (hsources : ∀ k' ∈ k :: s.order, ∃ a ∈ sources, f a = k') (hk : k ∉ s.order) :
    s.order.length < sources.dedup.length := by
  have hnodup : (k :: s.order).Nodup := List.nodup_cons.mpr ⟨hk, s.nodup⟩
  have hsub : k :: s.order ⊆ sources.dedup.map f := by
    intro k' hk'
    obtain ⟨a, ha, rfl⟩ := hsources k' hk'
    exact List.mem_map_of_mem (List.mem_dedup.mpr ha)
  have hlen := (List.subperm_of_subset hnodup hsub).length_le
  rw [List.length_cons, List.length_map] at hlen
  exact hlen

end BoundedSet

end MiningInfra.Lib
