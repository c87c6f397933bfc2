import MiningInfra.Equihash.Validator
import Mathlib.Tactic.Ring

/-!
# Targets as numbers

A hash and a target are 32 bytes, read as a little-endian number. The three loops that compare
them from the most significant byte down compare these numbers, and `compact_to_target` places
three bytes where multiplication by a power of 256 would.
-/

namespace MiningInfra.Equihash

open Coinbase

/-- The number that 32 bytes stand for. -/
def value (h : Bytes32) : Nat := leNat h.toList

theorem span_eq_pow (width : Nat) : span width = 256 ^ width := by
  induction width with
  | zero => rfl
  | succ width ih => rw [span, ih, Nat.pow_succ']

theorem value_lt (h : Bytes32) : value h < 256 ^ 32 := by
  have hlt := leNat_lt_span h.toList
  rwa [length_toList, span_eq_pow] at hlt

theorem leNat_append (as bs : List UInt8) :
    leNat (as ++ bs) = leNat as + 256 ^ as.length * leNat bs := by
  induction as with
  | nil => simp [leNat]
  | cons a as ih =>
    rw [List.cons_append, leNat, leNat, ih, List.length_cons, Nat.pow_succ']
    ring

theorem leNat_replicate_zero (n : Nat) : leNat (List.replicate n 0) = 0 := by
  induction n with
  | zero => rfl
  | succ n ih => rw [List.replicate_succ, leNat, ih]; rfl

variable {n pos e m : Nat} {as bs : List UInt8}

theorem leNat_take (bs : List UInt8) (h : n ≤ bs.length) :
    leNat (bs.take n) = leNat bs % 256 ^ n := by
  have hlen : (bs.take n).length = n := List.length_take_of_le h
  have hlt := leNat_lt_span (bs.take n)
  rw [hlen, span_eq_pow] at hlt
  conv_rhs => rw [← List.take_append_drop n bs, leNat_append, hlen]
  rw [Nat.add_mul_mod_self_left, Nat.mod_eq_of_lt hlt]

theorem value_injective : Function.Injective value := by
  intro a b h
  have ha := leBytes_leNat a.toList
  have hb := leBytes_leNat b.toList
  rw [length_toList] at ha hb
  refine List.ofFn_injective ?_
  change a.toList = b.toList
  rw [← ha, ← hb]
  exact congrArg (leBytes 32) h

theorem value_zero : value (fun _ => 0) = 0 := by decide

/-! ## Comparing from the top -/

/-- `Ord::cmp` of targets, from the most significant byte down. -/
def cmpFrom : List UInt8 → List UInt8 → Ordering
  | a :: as, b :: bs =>
    match compare a b with
    | .eq => cmpFrom as bs
    | other => other
  | _, _ => .eq

/-- The loop of `is_met_by`. -/
def metFrom : List UInt8 → List UInt8 → Bool
  | a :: as, b :: bs =>
    match compare a b with
    | .lt => true
    | .gt => false
    | .eq => metFrom as bs
  | _, _ => true

/-- Lists of bytes, most significant first. -/
theorem leNat_reverse_cons (a : UInt8) (as : List UInt8) :
    leNat (a :: as).reverse = leNat as.reverse + 256 ^ as.length * a.toNat := by
  rw [List.reverse_cons, leNat_append, List.length_reverse]
  rfl

theorem leNat_reverse_lt (as : List UInt8) : leNat as.reverse < 256 ^ as.length := by
  have h := leNat_lt_span as.reverse
  rwa [List.length_reverse, span_eq_pow] at h

/-- The first byte that differs decides. -/
theorem leNat_reverse_cons_lt {a b : UInt8} (hlen : as.length = bs.length) (h : a < b) :
    leNat (a :: as).reverse < leNat (b :: bs).reverse := by
  rw [leNat_reverse_cons, leNat_reverse_cons, ← hlen]
  have hrest := leNat_reverse_lt as
  have hstep : 256 ^ as.length * (a.toNat + 1) ≤ 256 ^ as.length * b.toNat :=
    Nat.mul_le_mul_left _ (UInt8.lt_iff_toNat_lt.mp h)
  rw [Nat.mul_add, Nat.mul_one] at hstep
  omega

theorem cmpFrom_eq_compare (hlen : as.length = bs.length) :
    cmpFrom as bs = compare (leNat as.reverse) (leNat bs.reverse) := by
  induction as generalizing bs with
  | nil =>
    obtain rfl := List.length_eq_zero_iff.mp hlen.symm
    rfl
  | cons a as ih =>
    obtain ⟨b, bs, rfl⟩ := List.exists_cons_of_length_eq_add_one hlen.symm
    have hlen' : as.length = bs.length := Nat.succ.inj hlen
    rw [cmpFrom, UInt8.compare_eq_toNat_compare_toNat]
    rcases Nat.lt_trichotomy a.toNat b.toNat with hab | hab | hab
    · rw [compare_lt_iff_lt.mpr hab, compare_lt_iff_lt.mpr
        (leNat_reverse_cons_lt hlen' (UInt8.lt_iff_toNat_lt.mpr hab))]
    · rw [compare_eq_iff_eq.mpr hab, leNat_reverse_cons, leNat_reverse_cons, ← hlen', hab,
        ih hlen']
      rcases Nat.lt_trichotomy (leNat as.reverse) (leNat bs.reverse) with h | h | h
      · rw [compare_lt_iff_lt.mpr h, compare_lt_iff_lt.mpr (Nat.add_lt_add_right h _)]
      · rw [h, compare_eq_iff_eq.mpr rfl, compare_eq_iff_eq.mpr rfl]
      · rw [compare_gt_iff_gt.mpr h, compare_gt_iff_gt.mpr (Nat.add_lt_add_right h _)]
    · rw [compare_gt_iff_gt.mpr hab, compare_gt_iff_gt.mpr
        (leNat_reverse_cons_lt hlen'.symm (UInt8.lt_iff_toNat_lt.mpr hab))]

/-- The other two loops say whether this comparison is not above. -/
theorem metFrom_eq (as bs : List UInt8) : metFrom as bs = (cmpFrom as bs).isLE := by
  induction as generalizing bs with
  | nil => rfl
  | cons a as ih =>
    cases bs with
    | nil => rfl
    | cons b bs =>
      rw [metFrom, cmpFrom]
      cases compare a b with
      | lt => rfl
      | eq => exact ih bs
      | gt => rfl

theorem atMost_eq (as bs : List UInt8) : EquihashValidator.atMost as bs = (cmpFrom as bs).isLE := by
  induction as generalizing bs with
  | nil => rfl
  | cons a as ih =>
    cases bs with
    | nil => rfl
    | cons b bs =>
      rw [EquihashValidator.atMost, cmpFrom, UInt8.compare_eq_toNat_compare_toNat]
      rcases Nat.lt_trichotomy a.toNat b.toNat with hab | hab | hab
      · rw [if_pos (UInt8.lt_iff_toNat_lt.mpr hab), compare_lt_iff_lt.mpr hab]
        rfl
      · have hlt : ¬ a < b := by rw [UInt8.lt_iff_toNat_lt]; omega
        have hgt : ¬ b < a := by rw [UInt8.lt_iff_toNat_lt]; omega
        rw [if_neg hlt, if_neg hgt, compare_eq_iff_eq.mpr hab]
        exact ih bs
      · have hlt : ¬ a < b := by rw [UInt8.lt_iff_toNat_lt]; omega
        rw [if_neg hlt, if_pos (UInt8.lt_iff_toNat_lt.mpr hab), compare_gt_iff_gt.mpr hab]
        rfl

namespace Target

def cmp (a b : Bytes32) : Ordering := cmpFrom a.toList.reverse b.toList.reverse

def isMetBy (target hash : Bytes32) : Bool := metFrom hash.toList.reverse target.toList.reverse

theorem cmp_eq_compare (a b : Bytes32) : cmp a b = compare (value a) (value b) := by
  rw [cmp, cmpFrom_eq_compare (by simp [length_toList]), List.reverse_reverse, List.reverse_reverse]
  rfl

theorem isMetBy_iff (target hash : Bytes32) :
    isMetBy target hash = true ↔ value hash ≤ value target := by
  rw [isMetBy, metFrom_eq]
  change (cmp hash target).isLE = true ↔ _
  rw [cmp_eq_compare, Nat.isLE_compare]

end Target

theorem EquihashValidator.meetsTarget_iff (hash target : Bytes32) :
    meetsTarget hash target = true ↔ value hash ≤ value target := by
  rw [meetsTarget, atMost_eq]
  change (Target.cmp hash target).isLE = true ↔ _
  rw [Target.cmp_eq_compare, Nat.isLE_compare]

/-! ## The compact encoding -/

/-- The sign flag of an encoding is not set. -/
def signClear (compact : UInt32) : Prop := compact.toNat % 0x1000000 < 0x800000

instance (compact : UInt32) : Decidable (signClear compact) :=
  inferInstanceAs (Decidable (_ < _))

/-- The number an encoding stands for: `mantissa * 256 ^ (exponent - 3)`, rounded down. -/
def compactValue (compact : UInt32) : Nat :=
  compact.toNat % 0x1000000 * 256 ^ (compact.toNat / 0x1000000) / 256 ^ 3

theorem getElem_leBytes {width i : Nat} (h : i < (leBytes width n).length) :
    (leBytes width n)[i] = UInt8.ofNat (n / 256 ^ i) := by
  induction width generalizing n i with
  | zero => exact absurd h (by simp [leBytes])
  | succ width ih =>
    cases i with
    | zero => simp [leBytes]
    | succ i =>
      simp only [leBytes, List.getElem_cons_succ]
      rw [ih, Nat.div_div_eq_div_mul, Nat.pow_succ']

/-- Placed bytes are the bytes of the shifted value, without what does not fit. -/
theorem toList_placeBytes (hpos : pos ≤ 32) (v : Nat) : (placeBytes pos v).toList
      = (List.replicate pos 0 ++ (leBytes 3 v ++ List.replicate 32 0)).take 32 := by
  refine List.ext_getElem ?_ ?_
  · simp only [length_toList, List.length_take, List.length_append, List.length_replicate,
      length_leBytes]
    omega
  · intro i hi₁ hi₂
    have hlt : i < 32 := by rwa [length_toList] at hi₁
    have hplaced : (placeBytes pos v).toList[i] = placeBytes pos v ⟨i, hlt⟩ := List.getElem_ofFn _
    refine hplaced.trans ?_
    rw [List.getElem_take]
    simp only [placeBytes]
    by_cases hbelow : i < pos
    · rw [if_neg (by omega), List.getElem_append_left (by simpa using hbelow),
        List.getElem_replicate]
    · rw [List.getElem_append_right (by simpa using hbelow)]
      simp only [List.length_replicate]
      by_cases hin : i < pos + 3
      · rw [if_pos (by omega), List.getElem_append_left (by rw [length_leBytes]; omega),
          getElem_leBytes, Nat.shiftRight_eq_div_pow, Nat.pow_mul]
        refine UInt8.toNat_inj.mp ?_
        simp
      · rw [if_neg (by omega), List.getElem_append_right (by rw [length_leBytes]; omega),
          List.getElem_replicate]

theorem value_placeBytes {v : Nat} (hpos : pos ≤ 32) (hv : v < 256 ^ 3) :
    value (placeBytes pos v) = v * 256 ^ pos % 256 ^ 32 := by
  rw [value, toList_placeBytes hpos, leNat_take, leNat_append, leNat_append, leNat_replicate_zero,
    leNat_replicate_zero, leNat_leBytes (by rwa [span_eq_pow]), List.length_replicate]
  · congr 1
    ring
  · simp only [List.length_append, List.length_replicate, length_leBytes]
    omega

theorem mul_pow_div_of_le (m : Nat) (he : 3 ≤ e) : m * 256 ^ e / 256 ^ 3 = m * 256 ^ (e - 3) := by
  rw [show 256 ^ e = 256 ^ (e - 3) * 256 ^ 3 by rw [← Nat.pow_add, Nat.sub_add_cancel he],
    ← Nat.mul_assoc, Nat.mul_div_cancel _ (Nat.pow_pos (by decide))]

theorem mul_pow_div_of_lt (m : Nat) (he : e ≤ 3) : m * 256 ^ e / 256 ^ 3 = m / 256 ^ (3 - e) := by
  rw [show 256 ^ 3 = 256 ^ (3 - e) * 256 ^ e by rw [← Nat.pow_add, Nat.sub_add_cancel he],
    Nat.mul_div_mul_right _ _ (Nat.pow_pos (by decide))]

/-- The three guards against overflow. -/
def overflows (e m : Nat) : Prop :=
  34 < e ∨ (33 < e ∧ 0xff < m) ∨ (32 < e ∧ 0xffff < m)

/-- What the guards refuse does not fit in 32 bytes, or is zero. -/
theorem le_of_overflows (h : overflows e m) (hm : m ≠ 0) : 256 ^ 32 ≤ m * 256 ^ e / 256 ^ 3 := by
  have he : 32 < e := by
    rcases h with h | h | h
    · omega
    · omega
    · exact h.1
  rw [mul_pow_div_of_le m (by omega)]
  -- what is needed of the mantissa depends on the exponent
  have hfits : 256 ^ (35 - e) ≤ m := by
    rcases h with h | ⟨h, hm'⟩ | ⟨h, hm'⟩
    · rw [show 35 - e = 0 by omega]
      omega
    · have hle : 256 ^ (35 - e) ≤ 256 ^ 1 := Nat.pow_le_pow_right (by decide) (by omega)
      omega
    · have hle : 256 ^ (35 - e) ≤ 256 ^ 2 := Nat.pow_le_pow_right (by decide) (by omega)
      omega
  calc 256 ^ 32 ≤ 256 ^ (35 - e + (e - 3)) := Nat.pow_le_pow_right (by decide) (by omega)
    _ = 256 ^ (35 - e) * 256 ^ (e - 3) := Nat.pow_add _ _ _
    _ ≤ m * 256 ^ (e - 3) := Nat.mul_le_mul_right _ hfits

/-- What the guards let through fits. -/
theorem lt_of_not_overflows (h : ¬ overflows e m) (hm : m < 0x800000) :
    m * 256 ^ e / 256 ^ 3 < 256 ^ 32 := by
  rw [overflows] at h
  rcases Nat.le_total e 3 with hsmall | hlarge
  · rw [mul_pow_div_of_lt m hsmall]
    have hdiv := Nat.div_le_self m (256 ^ (3 - e))
    omega
  · rw [mul_pow_div_of_le m hlarge]
    have hfits : m < 256 ^ (35 - e) := by
      rcases Nat.lt_or_ge 32 e with he | he
      · have hcase : e = 33 ∨ e = 34 := by omega
        rcases hcase with rfl | rfl
        · omega
        · omega
      · have hle : 256 ^ 3 ≤ 256 ^ (35 - e) := Nat.pow_le_pow_right (by decide) (by omega)
        omega
    calc m * 256 ^ (e - 3) < 256 ^ (35 - e) * 256 ^ (e - 3) :=
        Nat.mul_lt_mul_of_pos_right hfits (Nat.pow_pos (by decide))
      _ = 256 ^ 32 := by rw [← Nat.pow_add, show 35 - e + (e - 3) = 32 by omega]

/-- **`compact_to_target` computes the value of the encoding.** -/
theorem value_compactToTarget (compact : UInt32) :
    value (compactToTarget compact)
      = if signClear compact ∧ compactValue compact < 256 ^ 32 then compactValue compact else 0 := by
  obtain ⟨e, he⟩ : ∃ e, compact.toNat / 0x1000000 = e := ⟨_, rfl⟩
  obtain ⟨m, hm⟩ : ∃ m, compact.toNat % 0x1000000 = m := ⟨_, rfl⟩
  have hmantissa : m < 256 ^ 3 := hm ▸ Nat.mod_lt _ (by decide)
  have hclear : signClear compact ↔ m < 0x800000 := by rw [← hm]; rfl
  simp only [compactToTarget, compactValue, he, hm, hclear]
  by_cases hsign : 0x800000 ≤ m
  · rw [if_pos (.inl hsign), if_neg (by omega), value_zero]
  · by_cases hover : overflows e m
    · rw [if_pos (.inr hover), value_zero]
      by_cases hzero : m = 0
      · rw [hzero]
        simp
      · rw [if_neg fun h => Nat.not_lt.mpr (le_of_overflows hover hzero) h.2]
    · have hfits := lt_of_not_overflows hover (by omega)
      have hguards : ¬ (0x800000 ≤ m ∨ 34 < e ∨ (33 < e ∧ 0xff < m) ∨ (32 < e ∧ 0xffff < m)) :=
        not_or.mpr ⟨hsign, hover⟩
      have hin : m < 0x800000 ∧ m * 256 ^ e / 256 ^ 3 < 256 ^ 32 := ⟨by omega, hfits⟩
      rw [if_neg hguards, if_pos hin]
      split
      · rename_i hsmall
        have hshift : m >>> (8 * (3 - e)) = m / 256 ^ (3 - e) := by
          rw [Nat.shiftRight_eq_div_pow, Nat.pow_mul]
        have hle := Nat.div_le_self m (256 ^ (3 - e))
        rw [hshift, value_placeBytes (by decide) (by omega), mul_pow_div_of_lt m hsmall,
          Nat.pow_zero, Nat.mul_one]
        exact Nat.mod_eq_of_lt (by omega)
      · rename_i hlarge
        have hpos : e - 3 ≤ 32 := by
          rw [overflows] at hover
          omega
        rw [mul_pow_div_of_le m (by omega)] at hfits ⊢
        rw [value_placeBytes hpos hmantissa]
        exact Nat.mod_eq_of_lt hfits

end MiningInfra.Equihash
