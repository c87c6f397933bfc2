import Mathlib.Algebra.BigOperators.Fin
import Mathlib.Algebra.Order.BigOperators.Group.Finset

/-!
# Finitely many parties

A step of one party replaces its own local state and nobody else's. A quantity summed over the
parties then changes by what that one party's share changes.
-/

namespace MiningInfra.Lib

variable {n : Nat} {π : Type}

theorem sum_shares_update (g : Fin n → π → Nat) (f : Fin n → π) (i : Fin n) (p : π) :
    ∑ j, g j (Function.update f i p j) + g i (f i) = ∑ j, g j (f j) + g i p := by
  have hrest : ∑ j ∈ Finset.univ.erase i, g j (Function.update f i p j)
      = ∑ j ∈ Finset.univ.erase i, g j (f j) := by
    refine Finset.sum_congr rfl fun j hj => ?_
    rw [Function.update_of_ne (Finset.ne_of_mem_erase hj)]
  rw [← Finset.add_sum_erase Finset.univ _ (Finset.mem_univ i), hrest, Function.update_self,
    ← Finset.add_sum_erase Finset.univ (fun j => g j (f j)) (Finset.mem_univ i)]
  omega

/-- A sum over the parties decreases when the share of the party that moved does. -/
theorem sum_shares_lt {g : Fin n → π → Nat} {f : Fin n → π} {i : Fin n} {p : π}
    (h : g i p < g i (f i)) : ∑ j, g j (Function.update f i p j) < ∑ j, g j (f j) := by
  have := sum_shares_update g f i p
  omega

theorem sum_shares_le {f : Fin n → Nat} {k : Nat} (h : ∀ i, f i ≤ k) : ∑ i, f i ≤ n * k := by
  have hsum := Finset.sum_le_card_nsmul Finset.univ f k (fun i _ => h i)
  rwa [Finset.card_univ, Fintype.card_fin, smul_eq_mul] at hsum

end MiningInfra.Lib
