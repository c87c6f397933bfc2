import Mathlib

/-!
# Sums of binary64 numbers that are not negative

`Float` unpacks into a sign, a mantissa and an exponent, computes there, and packs the
rounded result. A sum of two numbers that are not below zero is packed with a positive
sign, whatever the rounding did, or is a zero or a NaN; none of these is below zero.
-/

namespace MiningInfra.Lib.Binary64

open Float.Model Float.Model.UnpackedFloat

/-- Not an infinity or a finite number with a negative sign. -/
def NotNegative : UnpackedFloat → Prop
  | .infinity s => s = .positive
  | .notANumber => True
  | .zero _ => True
  | .finite s _ _ _ => s = .positive

theorem lt_zero_eq_false_iff (u : UnpackedFloat) (s : Sign) :
    u.lt (.zero s) = false ↔ NotNegative u := by
  cases u with
  | infinity s' | finite s' m e h =>
    cases s' <;> simp [UnpackedFloat.lt, UnpackedFloat.compare, NotNegative]
  | notANumber | zero s' => simp [UnpackedFloat.lt, UnpackedFloat.compare, NotNegative]

/-! ## Rounding keeps the sign -/

theorem notNegative_round (spec : Format) (m : Nat) (e : Int) :
    NotNegative (UnpackedFloat.round spec .positive m e) := by
  unfold UnpackedFloat.round roundWithAccuracy
  dsimp only
  split <;> trivial

theorem notNegative_normalize (spec : Format) {m : Int} (hm : 0 ≤ m) (e : Int) (s : Sign) :
    NotNegative (UnpackedFloat.normalize spec m e s) := by
  unfold UnpackedFloat.normalize
  split
  · rename_i hlt
    have := Int.compare_eq_lt.mp hlt
    omega
  · trivial
  · exact notNegative_round spec _ e

theorem notNegative_add (spec : Format) {a b : UnpackedFloat} (ha : NotNegative a)
    (hb : NotNegative b) : NotNegative (UnpackedFloat.add spec a b) := by
  cases a with
  | notANumber => trivial
  | infinity s =>
    cases b with
    | infinity s' =>
      obtain rfl : s = .positive := ha
      obtain rfl : s' = .positive := hb
      rfl
    | notANumber => trivial
    | zero s' | finite s' m e h => exact ha
  | zero s =>
    cases b with
    | infinity s' | finite s' m e h => exact hb
    | notANumber => trivial
    | zero s' =>
      simp only [UnpackedFloat.add]
      split <;> trivial
  | finite s m e h =>
    cases b with
    | infinity s' => exact hb
    | notANumber => trivial
    | zero s' => exact ha
    | finite s' m' e' h' =>
      obtain rfl : s = .positive := ha
      obtain rfl : s' = .positive := hb
      refine notNegative_normalize spec ?_ _ _
      exact Int.add_nonneg (Int.natCast_nonneg _) (Int.natCast_nonneg _)

/-! ## Packing keeps the sign -/

theorem notNegative_unpack {spec : Format} {b : BitVec spec.numBits} (hb : unpackSign b = 0#1) :
    NotNegative (UnpackedFloat.unpack spec b) := by
  have hsign : Sign.ofBitVec (unpackSign b) = .positive := by rw [hb]; rfl
  unfold UnpackedFloat.unpack
  dsimp only
  repeat' split
  all_goals first | exact hsign | trivial

theorem notNegative_unpack_pack {u : UnpackedFloat} (hu : NotNegative u) :
    NotNegative (UnpackedFloat.unpack .binary64 (UnpackedFloat.pack .binary64 u)) := by
  cases u with
  | notANumber => exact notNegative_unpack (unpackSign_packComponents _ _ _)
  | infinity s =>
    obtain rfl : s = .positive := hu
    exact notNegative_unpack (unpackSign_packComponents _ _ _)
  | zero s =>
    -- the sign of a zero survives, and neither zero is below zero
    have hzero : UnpackedFloat.unpack .binary64 (packedZero .binary64 s) = .zero s := by
      cases s <;> rfl
    rw [UnpackedFloat.pack, hzero]
    trivial
  | finite s m e h =>
    obtain rfl : s = .positive := hu
    unfold UnpackedFloat.pack
    dsimp only
    repeat' split
    all_goals exact notNegative_unpack (unpackSign_packComponents _ _ _)

/-- Zero, the number a total starts from. -/
def zero : Float := .ofBits 0

theorem lt_zero_iff (x : Float) : x.lt zero = false ↔ NotNegative x.toModel.unpack := by
  have hlt : x.lt zero = x.toModel.unpack.lt (.zero .positive) := Bool.decide_eq_true
  rw [hlt, lt_zero_eq_false_iff]

/-- **A sum of two numbers that are not below zero is not below zero.** -/
theorem not_add_lt_zero {x y : Float} (hx : x.lt zero = false) (hy : y.lt zero = false) :
    (x + y).lt zero = false := by
  rw [lt_zero_iff] at hx hy ⊢
  exact notNegative_unpack_pack (notNegative_add .binary64 hx hy)

theorem not_zero_lt_zero : zero.lt zero = false := by
  rw [lt_zero_iff]
  trivial

/-- A positive number is not below zero. -/
theorem not_lt_zero_of_not_le {x : Float} (h : x.le zero = false) : x.lt zero = false := by
  have hle : x.le zero = x.toModel.unpack.le (.zero .positive) := Bool.decide_eq_true
  rw [lt_zero_iff]
  rw [hle] at h
  cases hu : x.toModel.unpack with
  | notANumber | zero s => trivial
  | infinity s | finite s m e hm =>
    cases s <;> simp_all [UnpackedFloat.le, UnpackedFloat.compare, NotNegative]

end MiningInfra.Lib.Binary64
