import Mathlib.Data.List.Nodup
import Mathlib.Data.List.Range

/-!
# Positions as gaps

Ascending positions are written as the gaps between them: each gap counts from one beyond the
position before. The empty places of a list of slots are such positions.
-/

namespace MiningInfra.Lib

/-- The positions are not before `start` and each is beyond the one before. -/
def Ascends : (start : Nat) → List Nat → Prop
  | _, [] => True
  | start, position :: rest => start ≤ position ∧ Ascends (position + 1) rest

/-- The positions with these gaps. -/
def positionsFrom : (start : Nat) → (gaps : List Nat) → List Nat
  | _, [] => []
  | start, gap :: rest => (start + gap) :: positionsFrom (start + gap + 1) rest

variable {positions : List Nat} {start : Nat}

section

variable (h : Ascends start positions)

include h

theorem Ascends.mono {start' : Nat} (hle : start' ≤ start) : Ascends start' positions := by
  cases positions with
  | nil => trivial
  | cons position rest => exact ⟨Nat.le_trans hle h.1, h.2⟩

theorem Ascends.le : ∀ position ∈ positions, start ≤ position := by
  induction positions generalizing start with
  | nil => exact fun position hmem => absurd hmem (by simp)
  | cons position rest ih =>
    intro other hmem
    rcases List.mem_cons.mp hmem with rfl | hmem
    · exact h.1
    · exact Nat.le_trans (Nat.le_succ_of_le h.1) (ih h.2 other hmem)

theorem Ascends.filter (p : Nat → Bool) : Ascends start (positions.filter p) := by
  induction positions generalizing start with
  | nil => trivial
  | cons position rest ih =>
    rw [List.filter_cons]
    split
    · exact ⟨h.1, ih h.2⟩
    · exact (ih h.2).mono (Nat.le_succ_of_le h.1)

end

theorem ascends_range' (start length : Nat) : Ascends start (List.range' start length) := by
  induction length generalizing start with
  | zero => trivial
  | succ length ih => exact ⟨Nat.le_refl _, ih _⟩

/-! ## Empty slots -/

section Slots

variable {α : Type}

/-- The positions of the empty slots, the first slot being at `start`. -/
def emptyFrom : (start : Nat) → List (Option α) → List Nat
  | _, [] => []
  | start, none :: rest => start :: emptyFrom (start + 1) rest
  | start, some _ :: rest => emptyFrom (start + 1) rest

theorem emptyFrom_eq_filter (start : Nat) (slots : List (Option α)) :
    emptyFrom start slots = (List.range' start slots.length).filter
      fun i => (slots.getD (i - start) none).isNone := by
  induction slots generalizing start with
  | nil => rfl
  | cons slot rest ih =>
    -- a later slot is one place nearer in the rest
    have hrest : ((List.range' (start + 1) rest.length).filter
          fun i => ((slot :: rest).getD (i - start) none).isNone) =
        emptyFrom (start + 1) rest := by
      rw [ih]
      refine List.filter_congr fun i hi => ?_
      have hlt : start + 1 ≤ i := (ascends_range' (start + 1) rest.length).le i hi
      rw [show i - start = i - (start + 1) + 1 by omega, List.getD_cons_succ]
    rw [List.length_cons, List.range'_succ, List.filter_cons, hrest, Nat.sub_self,
      List.getD_cons_zero]
    cases slot with
    | none => rfl
    | some a => rfl

theorem emptyFrom_zero (slots : List (Option α)) :
    emptyFrom 0 slots = (List.range slots.length).filter fun i => (slots.getD i none).isNone := by
  rw [emptyFrom_eq_filter, List.range_eq_range']
  rfl

theorem ascends_emptyFrom (start : Nat) (slots : List (Option α)) :
    Ascends start (emptyFrom start slots) := by
  rw [emptyFrom_eq_filter]
  exact (ascends_range' start slots.length).filter _

end Slots

end MiningInfra.Lib
