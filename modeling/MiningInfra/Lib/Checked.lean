import MiningInfra.Lib.Cursor
import Mathlib.Data.UInt

/-!
# Operations that can panic

Machine code that adds, indexes, unwraps or reserves memory does not return when the operation
is not defined. A model of such code in `Outcome` shows that it returns, and what.
-/

namespace MiningInfra.Lib.Outcome

variable {ε α β : Type} {xs : List α}

/-- An addition of two `usize`. An overflow panics. -/
def add (a b : Nat) : Outcome ε Nat := if a + b < UInt64.size then .ok (a + b) else .panic

/-- `xs[i]`. -/
def index (xs : List α) (i : Nat) : Outcome ε α :=
  match xs[i]? with
  | some a => .ok a
  | none => .panic

/-- `xs[start..stop]`. -/
def slice (xs : List α) (start stop : Nat) : Outcome ε (List α) :=
  if start ≤ stop ∧ stop ≤ xs.length then .ok ((xs.drop start).take (stop - start)) else .panic

def unwrap : Option α → Outcome ε α
  | some a => .ok a
  | none => .panic

/-- Memory for `count` elements of `size` bytes. More than `isize::MAX` bytes panics. -/
def allocate (count size : Nat) : Outcome ε Unit :=
  if count * size ≤ isizeMax then .ok () else .panic

def ofExcept : Except ε α → Outcome ε α
  | .ok a => .ok a
  | .error e => .err e

theorem add_eq_ok {a b : Nat} (h : a + b < UInt64.size) : (add a b : Outcome ε Nat) = .ok (a + b) :=
  if_pos h

theorem index_eq_ok {i : Nat} (h : i < xs.length) : (index xs i : Outcome ε α) = .ok xs[i] := by
  rw [index, List.getElem?_eq_getElem h]

theorem slice_eq_ok {start stop : Nat} (h : start ≤ stop ∧ stop ≤ xs.length) :
    (slice xs start stop : Outcome ε (List α)) = .ok ((xs.drop start).take (stop - start)) :=
  if_pos h

theorem allocate_eq_ok {count size : Nat} (h : count * size ≤ isizeMax) :
    (allocate count size : Outcome ε Unit) = .ok () :=
  if_pos h

@[simp] theorem ok_bind (a : α) (f : α → Outcome ε β) : (ok a >>= f) = f a := rfl

theorem bind_ne_panic {o : Outcome ε α} {f : α → Outcome ε β} (ho : o ≠ .panic)
    (hf : ∀ a, o = .ok a → f a ≠ .panic) : (o >>= f) ≠ .panic := by
  cases o with
  | ok a => exact hf a rfl
  | err e => exact fun h => by cases h
  | panic => exact absurd rfl ho

theorem failIf_ne_panic (c : Prop) [Decidable c] (e : ε) : failIf c e ≠ .panic := by
  unfold failIf
  split <;> exact fun h => by cases h

theorem ofExcept_ne_panic (x : Except ε α) : ofExcept x ≠ .panic := by
  cases x <;> exact fun h => by cases h

theorem ofExcept_bind (x : Except ε α) (f : α → Except ε β) :
    ofExcept (x >>= f) = ofExcept x >>= fun a => ofExcept (f a) := by
  cases x with
  | error e => rfl
  | ok a => rfl

/-- `.map(|x| x.unwrap()).collect()`. -/
def unwrapAll : List (Option α) → Outcome ε (List α)
  | [] => .ok []
  | x :: xs => do
    let a ← unwrap x
    let as ← unwrapAll xs
    pure (a :: as)

theorem unwrapAll_eq_ok {xs : List (Option α)} (h : xs.all Option.isSome = true) :
    (unwrapAll xs : Outcome ε (List α)) = .ok (xs.filterMap id) := by
  induction xs with
  | nil => rfl
  | cons x xs ih =>
    rw [List.all_cons, Bool.and_eq_true] at h
    cases x with
    | none => exact absurd h.1 (by simp)
    | some a =>
      rw [unwrapAll, ih h.2]
      rfl

/-- What code returned, early or at its end. -/
def returned : Outcome α α → Option α
  | .ok a => some a
  | .err a => some a
  | .panic => none

end MiningInfra.Lib.Outcome
