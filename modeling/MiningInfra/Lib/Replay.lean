import MiningInfra.Lib.Table

/-!
# A table of what was seen lately

Keys with the time each was last marked, and a queue of the marks in the order they were made.
A key counts as seen for `ttl`, even though its entry stays until a cleanup or until the table is
over its capacity and the queue has come to the mark.
-/

namespace MiningInfra.Lib

structure Replay (κ : Type) where
  seen : Table κ Nat
  order : List (κ × Nat)

namespace Replay

variable {κ : Type} [DecidableEq κ]

def empty : Replay κ := ⟨∅, []⟩

/-- Pop marks until the table is within its capacity. A mark that is not the last one of its key
takes nothing with it. -/
def evict (capacity : Nat) : Table κ Nat → List (κ × Nat) → Replay κ
  | seen, [] => ⟨seen, []⟩
  | seen, (k, t) :: order =>
    if capacity < seen.entries.length then
      evict capacity (if seen.lookup k = some t then seen.erase k else seen) order
    else ⟨seen, (k, t) :: order⟩

/-- Was the key not seen lately? If so it is now. -/
def mark (capacity ttl : Nat) (r : Replay κ) (k : κ) (now : Nat) : Bool × Replay κ :=
  if (r.seen.lookup k).any fun t => now - t ≤ ttl then (false, r)
  else (true, evict capacity (r.seen.insert k now) (r.order ++ [(k, now)]))

def cleanup (ttl : Nat) (r : Replay κ) (now : Nat) : Replay κ :=
  let seen := r.seen.retain fun _ t => now - t ≤ ttl
  ⟨seen, r.order.filter fun e => seen.lookup e.1 = some e.2⟩

/-- A mark succeeds exactly on a key whose entry is gone or too old. -/
theorem mark_fst (capacity ttl : Nat) (r : Replay κ) (k : κ) (now : Nat) :
    (r.mark capacity ttl k now).1 = true ↔ ∀ t, r.seen.lookup k = some t → ttl < now - t := by
  unfold mark
  split
  · rename_i h
    obtain ⟨t, ht, hage⟩ := (Option.any_eq_true _ _).mp h
    refine ⟨fun hf => absurd hf (by simp), fun hold => ?_⟩
    exact absurd (hold t ht) (Nat.not_lt.mpr (of_decide_eq_true hage))
  · rename_i h
    refine ⟨fun _ t ht => ?_, fun _ => rfl⟩
    refine Nat.lt_of_not_le fun hage => h ?_
    rw [ht]
    exact decide_eq_true hage

end Replay

end MiningInfra.Lib
