import MiningInfra.Coinbase.Layout
import MiningInfra.Lib.Merkle

/-!
# Digests and commitments

The auth digest of a coinbase, the auth data root of a block and the block commitments
hash. SHA-256 and BLAKE2b are parameters; what is known of them is what a theorem
assumes.
-/

namespace MiningInfra.Coinbase

open Lib

/-- The hash functions. `blake2b` takes the personalization, then the data. -/
structure Hashes where
  sha256 : List UInt8 → Bytes32
  blake2b : List UInt8 → List UInt8 → Bytes32

/-- The bytes of a digest. -/
def Bytes32.toList (h : Bytes32) : List UInt8 := List.ofFn h

theorem toList_toBytes32 {bs : List UInt8} (h : bs.length = 32) : (toBytes32 bs).toList = bs := by
  refine List.ext_getElem (by rw [Bytes32.toList, List.length_ofFn, h]) fun i hi hi' => ?_
  simp only [Bytes32.toList, List.getElem_ofFn]
  rw [toBytes32, List.getD_eq_getElem?_getD, List.getElem?_eq_getElem hi', Option.getD_some]

/-- `b"ZTxAuthTransHash"`. -/
def transparentAuthPersonalization : List UInt8 :=
  [0x5a, 0x54, 0x78, 0x41, 0x75, 0x74, 0x68, 0x54, 0x72, 0x61, 0x6e, 0x73, 0x48, 0x61, 0x73, 0x68]

/-- `b"ZTxAuthSapliHash"`. -/
def saplingAuthPersonalization : List UInt8 :=
  [0x5a, 0x54, 0x78, 0x41, 0x75, 0x74, 0x68, 0x53, 0x61, 0x70, 0x6c, 0x69, 0x48, 0x61, 0x73, 0x68]

/-- `b"ZTxAuthOrchaHash"`. -/
def orchardAuthPersonalization : List UInt8 :=
  [0x5a, 0x54, 0x78, 0x41, 0x75, 0x74, 0x68, 0x4f, 0x72, 0x63, 0x68, 0x61, 0x48, 0x61, 0x73, 0x68]

/-- `b"ZcashAuthDatHash"`. -/
def authDataHashPersonalization : List UInt8 :=
  [0x5a, 0x63, 0x61, 0x73, 0x68, 0x41, 0x75, 0x74, 0x68, 0x44, 0x61, 0x74, 0x48, 0x61, 0x73, 0x68]

/-- `b"ZTxAuthHash_"`. -/
def txAuthPersonalizationPrefix : List UInt8 :=
  [0x5a, 0x54, 0x78, 0x41, 0x75, 0x74, 0x68, 0x48, 0x61, 0x73, 0x68, 0x5f]

/-- `b"ZcashBlockCommit"`. -/
def blockCommitPersonalization : List UInt8 :=
  [0x5a, 0x63, 0x61, 0x73, 0x68, 0x42, 0x6c, 0x6f, 0x63, 0x6b, 0x43, 0x6f, 0x6d, 0x6d, 0x69, 0x74]

def noAuthData : List UInt8 := List.replicate 32 0

namespace Hashes

/-- Double SHA-256. -/
def sha256d (h : Hashes) (data : List UInt8) : Bytes32 := h.sha256 (h.sha256 data).toList

def computeTransparentAuthDigest (h : Hashes) (scriptSigs : List UInt8) : Bytes32 :=
  h.blake2b transparentAuthPersonalization scriptSigs

/-- What the auth digest of a coinbase is the hash of. -/
def coinbaseAuthData (h : Hashes) (transparentScriptSigs : List UInt8) : List UInt8 :=
  (h.computeTransparentAuthDigest transparentScriptSigs).toList
    ++ (h.blake2b saplingAuthPersonalization noAuthData).toList
    ++ (h.blake2b orchardAuthPersonalization noAuthData).toList

/-- The prefix and the branch id. -/
def authPersonalization (consensusBranchId : UInt32) : List UInt8 :=
  txAuthPersonalizationPrefix ++ u32Bytes consensusBranchId

def computeCoinbaseAuthDigest (h : Hashes) (transparentScriptSigs : List UInt8)
    (consensusBranchId : UInt32) : Bytes32 :=
  h.blake2b (authPersonalization consensusBranchId) (h.coinbaseAuthData transparentScriptSigs)

/-- A node of the auth data tree. -/
def authNode (h : Hashes) (left right : Bytes32) : Bytes32 :=
  h.blake2b authDataHashPersonalization (left.toList ++ right.toList)

end Hashes

/-- Double `p` until `n` fits. -/
def doubleUntil (n : Nat) : Nat → Nat → Nat
  | 0, p => p
  | fuel + 1, p => if n ≤ p then p else doubleUntil n fuel (2 * p)

/-- `usize::next_power_of_two`. -/
def nextPowerOfTwo (n : Nat) : Nat := doubleUntil n n 1

/-- The leaves of the auth data tree: the digests, and the last one up to a power of two. -/
def padLeaves (digests : List Bytes32) (last : Bytes32) : List Bytes32 :=
  digests ++ List.replicate (nextPowerOfTwo digests.length - digests.length) last

namespace Hashes

/-- `compute_auth_data_root`; none is its assertion that there is a digest. A level of a power of
two leaves no node over, so its chunks of two are the pairs. -/
def computeAuthDataRoot (h : Hashes) (txAuthDigests : List Bytes32) : Option Bytes32 :=
  match txAuthDigests.getLast? with
  | none => none
  | some last => Merkle.root h.authNode (padLeaves txAuthDigests last)

/-- What the block commitments are the hash of, with the terminator. -/
def commitmentsData (historyRoot authDataRoot : Bytes32) : List UInt8 :=
  historyRoot.toList ++ authDataRoot.toList ++ List.replicate 32 0

def calculateBlockCommitmentsHash (h : Hashes) (historyRoot authDataRoot : Bytes32) : Bytes32 :=
  h.blake2b blockCommitPersonalization (commitmentsData historyRoot authDataRoot)

theorem computeAuthDataRoot_singleton (h : Hashes) (digest : Bytes32) :
    h.computeAuthDataRoot [digest] = some digest := rfl

/-- Hash functions known on finitely many inputs, and zero elsewhere. -/
def ofTables (sha256 : List (List UInt8 × Bytes32))
    (blake2b : List ((List UInt8 × List UInt8) × Bytes32)) : Hashes where
  sha256 data := (sha256.lookup data).getD fun _ => 0
  blake2b personal data := (blake2b.lookup (personal, data)).getD fun _ => 0

/-! ## The root of ZIP 244 -/

/-- The root of the tree whose leaves are filled up with zeros. -/
def zip244AuthDataRoot (h : Hashes) (digests : List Bytes32) : Option Bytes32 :=
  Merkle.root h.authNode (padLeaves digests fun _ => 0)

theorem padLeaves_of_full {digests : List Bytes32}
    (hfull : nextPowerOfTwo digests.length = digests.length) (last : Bytes32) :
    padLeaves digests last = digests := by
  rw [padLeaves, hfull, Nat.sub_self]
  exact List.append_nil _

theorem computeAuthDataRoot_of_full (h : Hashes) {digests : List Bytes32} (hne : digests ≠ [])
    (hfull : nextPowerOfTwo digests.length = digests.length) :
    h.computeAuthDataRoot digests = Merkle.root h.authNode digests := by
  rw [computeAuthDataRoot, List.getLast?_eq_some_getLast hne]
  dsimp only
  rw [padLeaves_of_full hfull]

/-- A checksum in the place of the hashes. -/
def checksums : Hashes :=
  ⟨fun _ _ => 0, fun _ data _ => data.foldl (fun sum b => sum * sum + b) 7⟩

end Hashes

end MiningInfra.Coinbase
