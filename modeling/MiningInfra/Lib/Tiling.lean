import Mathlib.Data.List.Basic

/-!
# Ranges that cut a list

A list that is the concatenation of parts can be kept whole, with the ranges of its parts
beside it. `cuts` are those ranges; they tile the list, and selecting by them gives the parts
back.
-/

namespace MiningInfra.Lib

variable {α : Type*} {ranges : List (Nat × Nat)} {start stop : Nat}

/-- Half-open ranges that follow one another from `start` to `stop`. -/
def Tiles : (start stop : Nat) → List (Nat × Nat) → Prop
  | start, stop, [] => start = stop
  | start, stop, range :: ranges =>
    range.1 = start ∧ range.1 ≤ range.2 ∧ Tiles range.2 stop ranges

/-- The ranges of parts that are laid out one after another from `start`. -/
def cuts : (start : Nat) → (parts : List (List α)) → List (Nat × Nat)
  | _, [] => []
  | start, part :: parts => (start, start + part.length) :: cuts (start + part.length) parts

/-- The elements of a range. -/
def select (whole : List α) (range : Nat × Nat) : List α :=
  (whole.drop range.1).take (range.2 - range.1)

theorem length_cuts (start : Nat) (parts : List (List α)) :
    (cuts start parts).length = parts.length := by
  induction parts generalizing start with
  | nil => rfl
  | cons part parts ih => rw [cuts, List.length_cons, List.length_cons, ih]

theorem Tiles.le (h : Tiles start stop ranges) : start ≤ stop := by
  induction ranges generalizing start with
  | nil => exact Nat.le_of_eq h
  | cons range ranges ih =>
    obtain ⟨rfl, hle, htiles⟩ := h
    exact Nat.le_trans hle (ih htiles)

theorem tiles_cuts (start : Nat) (parts : List (List α)) :
    Tiles start (start + parts.flatten.length) (cuts start parts) := by
  induction parts generalizing start with
  | nil => rfl
  | cons part parts ih =>
    refine ⟨rfl, Nat.le_add_right _ _, ?_⟩
    rw [List.flatten_cons, List.length_append, ← Nat.add_assoc]
    exact ih _

/-- Selecting by the cuts gives the parts. -/
theorem map_select_cuts {whole rest : List α} {parts : List (List α)}
    (h : whole.drop start = parts.flatten ++ rest) :
    (cuts start parts).map (select whole) = parts := by
  induction parts generalizing start with
  | nil => rfl
  | cons part parts ih =>
    rw [List.flatten_cons, List.append_assoc] at h
    have hpart : select whole (start, start + part.length) = part := by
      rw [select, h, Nat.add_sub_cancel_left, List.take_left]
    have hrest : whole.drop (start + part.length) = parts.flatten ++ rest := by
      rw [← List.drop_drop, h, List.drop_left]
    rw [cuts, List.map_cons, hpart, ih hrest]

/-- The parts that tile a list are all of it. -/
theorem flatten_map_select {whole : List α} (h : Tiles start stop ranges) :
    (ranges.map (select whole)).flatten = select whole (start, stop) := by
  induction ranges generalizing start with
  | nil =>
    obtain rfl : start = stop := h
    simp [select]
  | cons range ranges ih =>
    obtain ⟨rfl, hle, htiles⟩ := h
    have hstop : range.2 ≤ stop := htiles.le
    rw [List.map_cons, List.flatten_cons, ih htiles, select, select, select]
    have hlen : stop - range.1 = (range.2 - range.1) + (stop - range.2) := by omega
    have hdrop : whole.drop range.2 = (whole.drop range.1).drop (range.2 - range.1) := by
      rw [List.drop_drop, Nat.add_sub_cancel' hle]
    rw [hlen, List.take_add, hdrop]

/-- Pieces of one size, the last of which may be short. -/
theorem flatMap_range_take_drop (whole : List α) (count size : Nat) :
    ((List.range count).flatMap fun i => (whole.drop (i * size)).take size)
      = whole.take (count * size) := by
  induction count with
  | zero => simp
  | succ count ih =>
    rw [List.range_succ, List.flatMap_append, ih, List.flatMap_singleton, Nat.succ_mul,
      List.take_add]

end MiningInfra.Lib
