import MiningInfra.Equihash.Target
import MiningInfra.Relay.Compact

/-!
# The target a header states

`header_meets_stated_target` of the relay: does the hash of a header meet the target of the
header's own nBits, within the limit of the network? The validator answers the same question
with another loop, after it has put the header together from its parts.
-/

namespace MiningInfra.Relay

open Coinbase Equihash

inductive TargetCheck where
  | met
  | notMet
  | badTarget
  deriving DecidableEq, Repr

/-- nBits, at offset 104. -/
def statedBits (header : List UInt8) : UInt32 := UInt32.ofNat (leNat ((header.drop 104).take 4))

def headerMeetsStatedTarget (hashes : Hashes) (header : List UInt8) (powLimit : Bytes32) :
    TargetCheck :=
  if header.length < zcashFullHeaderSize then .badTarget
  else
    let header := header.take zcashFullHeaderSize
    let bits := statedBits header
    if bits &&& 0x00800000 ≠ 0 ∨ bits &&& 0x007fffff = 0 then .badTarget
    else
      let target := compactToTarget bits
      if (target = fun _ => 0) ∨ Target.cmp target powLimit = .gt then .badTarget
      else if Target.isMetBy target (consensusBlockHash hashes header) then .met
      else .notMet

/-! ## What the two tests on the bits say -/

theorem and_sign_eq_zero_iff (bits : UInt32) : bits &&& 0x00800000 = 0 ↔ signClear bits := by
  rw [← UInt32.toNat_inj, UInt32.toNat_and]
  change bits.toNat &&& 2 ^ 23 = 0 ↔ _
  rw [Nat.and_two_pow, signClear, Nat.testBit_eq_decide_div_mod_eq]
  simp
  omega

/-- The second test refuses nothing but a zero mantissa. -/
theorem compactValue_of_and_eq_zero {bits : UInt32} (hsign : signClear bits)
    (h : bits &&& 0x007fffff = 0) : compactValue bits = 0 := by
  have hmod : bits.toNat % 2 ^ 23 = 0 := by
    rw [← UInt32.toNat_inj, UInt32.toNat_and] at h
    rwa [← Nat.and_two_pow_sub_one_eq_mod]
  have hzero : bits.toNat % 0x1000000 = 0 := by
    rw [signClear] at hsign
    omega
  rw [compactValue, hzero, Nat.zero_mul, Nat.zero_div]

/-- The header has the full size, and its nBits a clear sign, a value above zero and a value
within the limit. -/
structure WellStated (header : List UInt8) (powLimit : Bytes32) : Prop where
  size : zcashFullHeaderSize ≤ header.length
  sign : signClear (statedBits header)
  positive : 0 < compactValue (statedBits header)
  limit : compactValue (statedBits header) ≤ value powLimit

variable {header : List UInt8} {powLimit : Bytes32}

theorem statedBits_take : statedBits (header.take zcashFullHeaderSize) = statedBits header := by
  rw [statedBits, statedBits, List.drop_take, List.take_take]
  rfl

theorem WellStated.value_target (h : WellStated header powLimit) :
    value (compactToTarget (statedBits header)) = compactValue (statedBits header) := by
  rw [value_compactToTarget, if_pos ⟨h.sign, Nat.lt_of_le_of_lt h.limit (value_lt powLimit)⟩]

/-- The check on a header whose target is in range. -/
theorem WellStated.check (h : WellStated header powLimit) (hashes : Hashes) :
    headerMeetsStatedTarget hashes header powLimit
      = if value (consensusBlockHash hashes (header.take zcashFullHeaderSize))
          ≤ compactValue (statedBits header) then .met else .notMet := by
  have hbits : ¬ (statedBits header &&& 0x00800000 ≠ 0 ∨ statedBits header &&& 0x007fffff = 0) := by
    rintro (hsign | hzero)
    · exact hsign ((and_sign_eq_zero_iff _).mpr h.sign)
    · exact Nat.ne_of_gt h.positive (compactValue_of_and_eq_zero h.sign hzero)
  have htarget : ¬ ((compactToTarget (statedBits header) = fun _ => 0)
      ∨ Target.cmp (compactToTarget (statedBits header)) powLimit = .gt) := by
    rintro (hzero | habove)
    · have hvalue := h.value_target
      rw [hzero, value_zero] at hvalue
      exact Nat.ne_of_lt h.positive hvalue
    · rw [Target.cmp_eq_compare, compare_gt_iff_gt, h.value_target] at habove
      exact Nat.not_lt.mpr h.limit habove
  simp only [headerMeetsStatedTarget, statedBits_take]
  rw [if_neg (Nat.not_lt.mpr h.size), if_neg hbits, if_neg htarget]
  simp only [Target.isMetBy_iff, h.value_target]

/-- The check on any other header. -/
theorem check_of_not_wellStated (h : ¬ WellStated header powLimit) (hashes : Hashes) :
    headerMeetsStatedTarget hashes header powLimit = .badTarget := by
  simp only [headerMeetsStatedTarget, statedBits_take]
  split
  · rfl
  · rename_i hsize
    split
    · rfl
    · rename_i hbits
      obtain ⟨hsign, -⟩ := not_or.mp hbits
      have hclear := (and_sign_eq_zero_iff _).mp (not_not.mp hsign)
      rw [if_pos]
      -- the size and the sign are right, so the value is not
      by_contra hgood
      obtain ⟨hne, hle⟩ := not_or.mp hgood
      have hvalue := value_compactToTarget (statedBits header)
      have hpositive : value (compactToTarget (statedBits header)) ≠ 0 := fun hz =>
        hne (value_injective (hz.trans value_zero.symm))
      by_cases hfits : signClear (statedBits header) ∧ compactValue (statedBits header) < 256 ^ 32
      · rw [if_pos hfits] at hvalue
        rw [Target.cmp_eq_compare, compare_gt_iff_gt, hvalue] at hle
        rw [hvalue] at hpositive
        exact h ⟨Nat.not_lt.mp hsize, hclear, Nat.pos_of_ne_zero hpositive, Nat.not_lt.mp hle⟩
      · rw [if_neg hfits] at hvalue
        exact hpositive hvalue

/-! ## The validator -/

/-- The full header of a block: the length of the solution is canonical. -/
def CanonicalPrefix (header : List UInt8) : Prop := (header.drop 140).take 3 = [0xfd, 0x40, 0x05]

instance (header : List UInt8) : Decidable (CanonicalPrefix header) :=
  inferInstanceAs (Decidable (_ = _))

/-- The solution of a full header. -/
def solutionOf (header : List UInt8) : List UInt8 := (header.drop 143).take 1344

theorem full_header_parts (hsize : zcashFullHeaderSize ≤ header.length)
    (hcanonical : CanonicalPrefix header) :
    header.take zcashFullHeaderSize = header.take 140 ++ scriptBytes (solutionOf header)
      ∧ (solutionOf header).length = 1344 := by
  have hlen : (solutionOf header).length = 1344 := by
    rw [solutionOf, List.length_take, List.length_drop]
    simp only [zcashFullHeaderSize] at hsize
    omega
  have hsplit : header.take zcashFullHeaderSize
      = header.take 140 ++ ((header.drop 140).take 3 ++ ((header.drop 140).drop 3).take 1344) := by
    rw [← List.take_add, ← List.take_add]
    rfl
  refine ⟨?_, hlen⟩
  rw [hsplit, hcanonical, List.drop_drop, scriptBytes, hlen]
  rfl

/-- **The stated target, in numbers.** `compact_to_target` is the value of the encoding where it
has one that fits. A header meets its target exactly when its size, its nBits and the number its
hash stands for are right, and is bad exactly when the size or nBits is not. On every other header
with a canonical prefix and a valid solution, the validator agrees. -/
theorem stated_target_exact :
    (∀ compact, value (compactToTarget compact)
      = if signClear compact ∧ compactValue compact < 2 ^ 256 then compactValue compact else 0)
    ∧ ∀ (v : EquihashValidator) (header : List UInt8) (powLimit : Bytes32),
      (headerMeetsStatedTarget v.hashes header powLimit = .met ↔ WellStated header powLimit
        ∧ value (consensusBlockHash v.hashes (header.take zcashFullHeaderSize))
          ≤ compactValue (statedBits header))
      ∧ (headerMeetsStatedTarget v.hashes header powLimit = .badTarget
        ↔ ¬ WellStated header powLimit)
      ∧ (WellStated header powLimit → CanonicalPrefix header →
        v.isValidSolution (header.take 108) ((header.drop 108).take 32) (solutionOf header) = true →
        v.verifyShare (header.take 140) (solutionOf header) (compactToTarget (statedBits header))
          = if headerMeetsStatedTarget v.hashes header powLimit = .met
            then .ok (consensusBlockHash v.hashes (header.take zcashFullHeaderSize))
            else .error .targetNotMet) := by
  refine ⟨fun compact => ?_, fun v header powLimit => ⟨?_, ?_, ?_⟩⟩
  · have hpow : 2 ^ 256 = 256 ^ 32 := by decide
    rw [hpow]
    exact value_compactToTarget compact
  · by_cases h : WellStated header powLimit
    · rw [h.check]
      simp [h]
    · rw [check_of_not_wellStated h]
      simp [h]
  · by_cases h : WellStated header powLimit
    · rw [h.check]
      simp only [h, not_true_eq_false, iff_false]
      split <;> simp
    · rw [check_of_not_wellStated h]
      simp [h]
  · intro h hcanonical hvalid
    obtain ⟨hparts, hlen⟩ := full_header_parts h.size hcanonical
    have hlong : (header.take 140).length = 140 := by
      have hsize := h.size
      simp only [zcashFullHeaderSize] at hsize
      rw [List.length_take]
      omega
    have hinput : (header.take 140).take 108 = header.take 108 := by rw [List.take_take]; rfl
    have hnonce : (header.take 140).drop 108 = (header.drop 108).take 32 := by
      rw [List.drop_take]
    have hsolution : v.verifySolution (header.take 140) (solutionOf header) = .ok () := by
      rw [EquihashValidator.verifySolution, if_neg (not_not.mpr hlong), if_neg (not_not.mpr hlen),
        hinput, hnonce, if_pos hvalid]
    have hhash : v.computeSolutionHash (header.take 140) (solutionOf header)
        = consensusBlockHash v.hashes (header.take zcashFullHeaderSize) := by
      rw [hparts]
      rfl
    rw [EquihashValidator.verifyShare, hsolution, hhash, h.check]
    simp only [EquihashValidator.meetsTarget_iff, h.value_target]
    split <;> simp

/-- A full header with the easiest nBits of the main network, and zero bytes otherwise. -/
def easyHeader : List UInt8 :=
  List.replicate 104 0 ++ [0xff, 0xff, 0x07, 0x1f] ++ List.replicate 32 0 ++ [0xfd, 0x40, 0x05]
    ++ List.replicate 1344 0

/-- The limit of the main network, `2 ^ 243 - 1`. -/
def mainnetPowLimit : Bytes32 := toBytes32 (List.replicate 30 0xff ++ [7])

/-- A validator whose hash is zero everywhere. -/
def zeroValidator : EquihashValidator := ⟨⟨fun _ _ => 0, fun _ _ _ => 0⟩, fun _ _ _ => true⟩

theorem wellStated_easyHeader : WellStated easyHeader mainnetPowLimit :=
  ⟨by decide +kernel, by decide +kernel, by decide +kernel, by decide +kernel⟩

theorem easy_header_met :
    headerMeetsStatedTarget zeroValidator.hashes easyHeader mainnetPowLimit = .met
      ∧ zeroValidator.verifyShare (easyHeader.take 140) (solutionOf easyHeader)
          (compactToTarget (statedBits easyHeader)) = .ok fun _ => 0 := by
  have hmet : headerMeetsStatedTarget zeroValidator.hashes easyHeader mainnetPowLimit = .met := by
    refine (stated_target_exact.2 zeroValidator easyHeader mainnetPowLimit).1.mpr
      ⟨wellStated_easyHeader, ?_⟩
    have hzero : value (consensusBlockHash zeroValidator.hashes
        (easyHeader.take zcashFullHeaderSize)) = 0 := value_zero
    rw [hzero]
    exact Nat.zero_le _
  refine ⟨hmet, ?_⟩
  rw [(stated_target_exact.2 zeroValidator easyHeader mainnetPowLimit).2.2 wellStated_easyHeader
    (by decide +kernel) rfl, if_pos hmet]
  rfl

end MiningInfra.Relay
