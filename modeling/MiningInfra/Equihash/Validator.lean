import Mathlib.Data.Fintype.Pi
import MiningInfra.Coinbase.AuthDigest

/-!
# Headers and shares

The 140 bytes of a block header, which the pool and the job declaration server build in the
same way, and `verify_share` on them. The Equihash verifier is a library and stays a
parameter.
-/

namespace MiningInfra.Equihash

open Coinbase

/-- The header without its solution. -/
def headerBytes (version : UInt32) (prevHash merkleRoot blockCommitments : Bytes32)
    (time bits : UInt32) (nonce : List UInt8) : List UInt8 :=
  u32Bytes version ++ prevHash.toList ++ merkleRoot.toList ++ blockCommitments.toList
    ++ u32Bytes time ++ u32Bytes bits ++ nonce

/-- Bytes 100 to 103 replaced by another time. -/
def setTime (header : List UInt8) (time : UInt32) : List UInt8 :=
  header.take 100 ++ u32Bytes time ++ header.drop 104

/-- The block a header builds on, bytes 4 to 35. -/
def headerPrevHash (header : List UInt8) : Bytes32 := toBytes32 ((header.drop 4).take 32)

theorem length_toList (h : Bytes32) : h.toList.length = 32 := List.length_ofFn

theorem length_u32Bytes (v : UInt32) : (u32Bytes v).length = 4 := length_leBytes 4 _

section

variable (version : UInt32) (prevHash merkleRoot blockCommitments : Bytes32)

theorem length_headerBytes (time bits : UInt32) (nonce : List UInt8) :
    (headerBytes version prevHash merkleRoot blockCommitments time bits nonce).length
      = 108 + nonce.length := by
  simp only [headerBytes, List.length_append, length_u32Bytes, length_toList]

theorem setTime_headerBytes (time bits time' : UInt32) (nonce : List UInt8) :
    setTime (headerBytes version prevHash merkleRoot blockCommitments time bits nonce) time'
      = headerBytes version prevHash merkleRoot blockCommitments time' bits nonce := by
  have hfront : (u32Bytes version ++ prevHash.toList ++ merkleRoot.toList
      ++ blockCommitments.toList).length = 100 := by
    simp only [List.length_append, length_u32Bytes, length_toList]
  have hback : (u32Bytes version ++ prevHash.toList ++ merkleRoot.toList
      ++ blockCommitments.toList ++ u32Bytes time).length = 104 := by
    rw [List.length_append, hfront, length_u32Bytes]
  rw [setTime, headerBytes, headerBytes]
  rw [show (104 : Nat) = _ from hback.symm]
  simp only [List.append_assoc _ (u32Bytes bits) nonce, List.drop_left]
  rw [List.append_assoc _ (u32Bytes time), ← hfront, List.take_left]

theorem headerPrevHash_headerBytes (time bits : UInt32) (nonce : List UInt8) :
    headerPrevHash (headerBytes version prevHash merkleRoot blockCommitments time bits nonce)
      = prevHash := by
  have hlen := length_u32Bytes version
  have hprev := length_toList prevHash
  rw [headerPrevHash, headerBytes]
  simp only [List.append_assoc]
  rw [← hlen, List.drop_left, ← hprev, List.take_left]
  exact toBytes32_ofFn prevHash

end

/-! ## `verify_share` -/

inductive ValidationError where
  | invalidHeaderLength (length : Nat)
  | invalidSolutionLength (length : Nat)
  | invalidSolution
  | targetNotMet
  deriving DecidableEq, Repr

/-- The hash functions, and the library's verifier on the header up to the nonce, the nonce and
the solution. -/
structure EquihashValidator where
  hashes : Hashes
  isValidSolution : List UInt8 → List UInt8 → List UInt8 → Bool

namespace EquihashValidator

variable (v : EquihashValidator)

def verifySolution (header solution : List UInt8) : Except ValidationError Unit :=
  if header.length ≠ 140 then .error (.invalidHeaderLength header.length)
  else if solution.length ≠ 1344 then .error (.invalidSolutionLength solution.length)
  else if v.isValidSolution (header.take 108) (header.drop 108) solution then .ok ()
  else .error .invalidSolution

/-- `consensus_block_hash_parts`. -/
def computeSolutionHash (header solution : List UInt8) : Bytes32 :=
  v.hashes.sha256d (header ++ scriptBytes solution)

/-- Compare from the most significant byte down. -/
def atMost : List UInt8 → List UInt8 → Bool
  | a :: as, b :: bs => if a < b then true else if b < a then false else atMost as bs
  | _, _ => true

def meetsTarget (hash target : Bytes32) : Bool := atMost hash.toList.reverse target.toList.reverse

def verifyShare (header solution : List UInt8) (target : Bytes32) :
    Except ValidationError Bytes32 :=
  match v.verifySolution header solution with
  | .error e => .error e
  | .ok () =>
    if meetsTarget (v.computeSolutionHash header solution) target then
      .ok (v.computeSolutionHash header solution)
    else .error .targetNotMet

theorem atMost_max : ∀ (as bs : List UInt8), (∀ b ∈ bs, b = 0xff) → atMost as bs = true
  | [], _, _ => rfl
  | _ :: _, [], _ => rfl
  | a :: as, b :: bs, h => by
    have hb : b = 0xff := h b List.mem_cons_self
    have hle : ¬ b < a := by
      subst hb
      exact UInt8.not_lt.mpr (UInt8.le_iff_toNat_le.mpr (Nat.le_of_lt_succ a.toNat_lt))
    rw [atMost, if_neg hle]
    split
    · rfl
    · exact atMost_max as bs fun b hb => h b (List.mem_cons_of_mem _ hb)

/-- Every hash meets the highest target. -/
theorem meetsTarget_max (hash : Bytes32) : meetsTarget hash (fun _ => 0xff) = true := by
  refine atMost_max _ _ fun b hb => ?_
  rw [List.mem_reverse, Bytes32.toList, List.mem_ofFn] at hb
  obtain ⟨i, hi⟩ := hb
  exact hi.symm

end EquihashValidator

/-- Three bytes of a value, least significant first, from position `pos` on. -/
def placeBytes (pos value : Nat) : Bytes32 := fun i =>
  if pos ≤ i.val ∧ i.val < pos + 3 then UInt8.ofNat (value >>> (8 * (i.val - pos)) % 256) else 0

/-- The target a compact difficulty stands for, zero for an encoding that is not valid. -/
def compactToTarget (compact : UInt32) : Bytes32 :=
  let exponent := compact.toNat / 0x1000000
  let mantissa := compact.toNat % 0x1000000
  if 0x800000 ≤ mantissa ∨ 34 < exponent ∨ (33 < exponent ∧ 0xff < mantissa)
      ∨ (32 < exponent ∧ 0xffff < mantissa) then fun _ => 0
  else if exponent ≤ 3 then placeBytes 0 (mantissa >>> (8 * (3 - exponent)))
  else placeBytes (exponent - 3) mantissa

/-- The acceptance window of a share's time: a minute back, two hours forward, saturating. -/
def timeInRange (jobTime time : UInt32) : Bool :=
  jobTime.toNat - 60 ≤ time.toNat && time.toNat ≤ min (jobTime.toNat + 7200) 0xffffffff

end MiningInfra.Equihash
