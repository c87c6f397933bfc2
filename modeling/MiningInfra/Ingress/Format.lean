import MiningInfra.Coinbase.Layout

/-!
# Transactions of every version

What consensus writes for a transaction of the versions 1 to 6, field by field: transparent
inputs and outputs, Sprout joinsplits, the Sapling parts of version 4 and of version 5, and
Orchard bundles, of which version 6 has two. The parts that a transaction has only if it has
items of a kind are here written under that condition.
-/

namespace MiningInfra.Ingress

open Coinbase

/-- A field of `n` bytes. -/
abbrev Field (n : Nat) := { bytes : List UInt8 // bytes.length = n }

@[simp] theorem Field.length {n : Nat} (field : Field n) : field.1.length = n := field.2

/-- A list behind its length. -/
def countedBytes {α : Type} (encode : α → List UInt8) (items : List α) : List UInt8 :=
  pushCompactSize (UInt64.ofNat items.length) ++ items.flatMap encode

/-! ## Sprout -/

/-- The proof takes 296 bytes with BCTV14 and 192 with Groth16. -/
structure JoinSplit (proofSize : Nat) where
  vpubOld : Field 8
  vpubNew : Field 8
  anchor : Field 32
  nullifiers : Field 32 × Field 32
  commitments : Field 32 × Field 32
  ephemeralKey : Field 32
  randomSeed : Field 32
  vmacs : Field 32 × Field 32
  zkproof : Field proofSize
  encCiphertexts : Field 601 × Field 601

def JoinSplit.bytes {proofSize : Nat} (x : JoinSplit proofSize) : List UInt8 :=
  x.vpubOld.1 ++ x.vpubNew.1 ++ x.anchor.1 ++ x.nullifiers.1.1 ++ x.nullifiers.2.1
    ++ x.commitments.1.1 ++ x.commitments.2.1 ++ x.ephemeralKey.1 ++ x.randomSeed.1
    ++ x.vmacs.1.1 ++ x.vmacs.2.1 ++ x.zkproof.1 ++ x.encCiphertexts.1.1 ++ x.encCiphertexts.2.1

structure JoinSplits (proofSize : Nat) where
  joinSplits : List (JoinSplit proofSize)
  pubKey : Field 32
  sig : Field 64

def JoinSplits.bytes {proofSize : Nat} (x : JoinSplits proofSize) : List UInt8 :=
  countedBytes JoinSplit.bytes x.joinSplits
    ++ if x.joinSplits = [] then [] else x.pubKey.1 ++ x.sig.1

/-! ## Sapling -/

structure SaplingSpend where
  cv : Field 32
  anchor : Field 32
  nullifier : Field 32
  rk : Field 32
  zkproof : Field 192
  spendAuthSig : Field 64

structure SaplingOutput where
  cv : Field 32
  cmu : Field 32
  ephemeralKey : Field 32
  encCiphertext : Field 580
  outCiphertext : Field 80
  zkproof : Field 192

/-- A spend as version 4 has it. -/
def SaplingSpend.bytes (x : SaplingSpend) : List UInt8 :=
  x.cv.1 ++ x.anchor.1 ++ x.nullifier.1 ++ x.rk.1 ++ x.zkproof.1 ++ x.spendAuthSig.1

/-- A spend as version 5 has it: the anchor is shared, the proof and the signature come later. -/
def SaplingSpend.prefixBytes (x : SaplingSpend) : List UInt8 := x.cv.1 ++ x.nullifier.1 ++ x.rk.1

/-- An output as version 5 has it, without the proof. -/
def SaplingOutput.prefixBytes (x : SaplingOutput) : List UInt8 :=
  x.cv.1 ++ x.cmu.1 ++ x.ephemeralKey.1 ++ x.encCiphertext.1 ++ x.outCiphertext.1

def SaplingOutput.bytes (x : SaplingOutput) : List UInt8 := x.prefixBytes ++ x.zkproof.1

/-- The Sapling part. Version 5 has one anchor for all spends. -/
structure Sapling where
  spends : List SaplingSpend
  outputs : List SaplingOutput
  valueBalance : Field 8
  anchor : Field 32
  bindingSig : Field 64

/-- Whether there is something for the binding signature to bind. -/
def Sapling.isEmpty (x : Sapling) : Bool := x.spends.isEmpty && x.outputs.isEmpty

/-- The Sapling and Sprout parts of version 4. The balance is always there, and the binding
signature comes after the joinsplits. -/
def Sapling.v4Bytes (x : Sapling) (joinSplits : JoinSplits 192) : List UInt8 :=
  x.valueBalance.1 ++ countedBytes SaplingSpend.bytes x.spends
    ++ countedBytes SaplingOutput.bytes x.outputs ++ joinSplits.bytes
    ++ if x.isEmpty then [] else x.bindingSig.1

/-- The Sapling part of version 5. -/
def Sapling.v5Bytes (x : Sapling) : List UInt8 :=
  countedBytes SaplingSpend.prefixBytes x.spends ++ countedBytes SaplingOutput.prefixBytes x.outputs
    ++ if x.isEmpty then [] else x.valueBalance.1 ++ (if x.spends = [] then [] else x.anchor.1)
      ++ x.spends.flatMap (fun spend => spend.zkproof.1)
      ++ x.spends.flatMap (fun spend => spend.spendAuthSig.1)
      ++ x.outputs.flatMap (fun output => output.zkproof.1) ++ x.bindingSig.1

/-! ## Orchard -/

structure OrchardAction where
  cv : Field 32
  nullifier : Field 32
  rk : Field 32
  cmx : Field 32
  ephemeralKey : Field 32
  encCiphertext : Field 580
  outCiphertext : Field 80
  spendAuthSig : Field 64

def OrchardAction.bytes (x : OrchardAction) : List UInt8 :=
  x.cv.1 ++ x.nullifier.1 ++ x.rk.1 ++ x.cmx.1 ++ x.ephemeralKey.1 ++ x.encCiphertext.1
    ++ x.outCiphertext.1

structure Orchard where
  actions : List OrchardAction
  flags : UInt8
  valueBalance : Field 8
  anchor : Field 32
  proofs : List UInt8
  bindingSig : Field 64

def Orchard.bytes (x : Orchard) : List UInt8 :=
  countedBytes OrchardAction.bytes x.actions
    ++ if x.actions = [] then [] else x.flags :: x.valueBalance.1 ++ x.anchor.1
      ++ scriptBytes x.proofs ++ x.actions.flatMap (fun action => action.spendAuthSig.1)
      ++ x.bindingSig.1

/-! ## Transactions -/

structure Transparent where
  inputs : List TxIn
  outputs : List TxOut

def Transparent.bytes (x : Transparent) : List UInt8 :=
  countedBytes TxIn.bytes x.inputs ++ countedBytes TxOut.bytes x.outputs

inductive ConsensusTx where
  | v1 (transparent : Transparent) (lockTime : UInt32)
  | v2 (transparent : Transparent) (lockTime : UInt32) (joinSplits : JoinSplits 296)
  | v3 (transparent : Transparent) (lockTime expiryHeight : UInt32) (joinSplits : JoinSplits 296)
  | v4 (transparent : Transparent) (lockTime expiryHeight : UInt32) (sapling : Sapling)
      (joinSplits : JoinSplits 192)
  | v5 (consensusBranchId lockTime expiryHeight : UInt32) (transparent : Transparent)
      (sapling : Sapling) (orchard : Orchard)
  | v6 (consensusBranchId lockTime expiryHeight : UInt32) (transparent : Transparent)
      (sapling : Sapling) (orchard ironwood : Orchard)

/-- The consensus serialization. The top bit of the first word marks the versions since
Overwinter, which have a version group id. -/
def ConsensusTx.bytes : ConsensusTx → List UInt8
  | .v1 transparent lockTime => u32Bytes 1 ++ transparent.bytes ++ u32Bytes lockTime
  | .v2 transparent lockTime joinSplits =>
    u32Bytes 2 ++ transparent.bytes ++ u32Bytes lockTime ++ joinSplits.bytes
  | .v3 transparent lockTime expiryHeight joinSplits =>
    u32Bytes 0x80000003 ++ u32Bytes 0x03c48270 ++ transparent.bytes ++ u32Bytes lockTime
      ++ u32Bytes expiryHeight ++ joinSplits.bytes
  | .v4 transparent lockTime expiryHeight sapling joinSplits =>
    u32Bytes 0x80000004 ++ u32Bytes 0x892f2085 ++ transparent.bytes ++ u32Bytes lockTime
      ++ u32Bytes expiryHeight ++ sapling.v4Bytes joinSplits
  | .v5 consensusBranchId lockTime expiryHeight transparent sapling orchard =>
    u32Bytes 0x80000005 ++ u32Bytes 0x26a7270a ++ u32Bytes consensusBranchId ++ u32Bytes lockTime
      ++ u32Bytes expiryHeight ++ transparent.bytes ++ sapling.v5Bytes ++ orchard.bytes
  | .v6 consensusBranchId lockTime expiryHeight transparent sapling orchard ironwood =>
    u32Bytes 0x80000006 ++ u32Bytes 0xd884b698 ++ u32Bytes consensusBranchId ++ u32Bytes lockTime
      ++ u32Bytes expiryHeight ++ transparent.bytes ++ sapling.v5Bytes ++ orchard.bytes
      ++ ironwood.bytes

/-! ## Sizes of the items -/

theorem JoinSplit.length_bytes {proofSize : Nat} (x : JoinSplit proofSize) :
    x.bytes.length = 1506 + proofSize := by
  simp only [JoinSplit.bytes, List.length_append, Field.length]
  omega

theorem SaplingSpend.length_bytes (x : SaplingSpend) : x.bytes.length = 384 := by
  simp only [SaplingSpend.bytes, List.length_append, Field.length]

theorem SaplingSpend.length_prefixBytes (x : SaplingSpend) : x.prefixBytes.length = 96 := by
  simp only [SaplingSpend.prefixBytes, List.length_append, Field.length]

theorem SaplingOutput.length_prefixBytes (x : SaplingOutput) : x.prefixBytes.length = 756 := by
  simp only [SaplingOutput.prefixBytes, List.length_append, Field.length]

theorem SaplingOutput.length_bytes (x : SaplingOutput) : x.bytes.length = 948 := by
  rw [SaplingOutput.bytes, List.length_append, x.length_prefixBytes, Field.length]

theorem OrchardAction.length_bytes (x : OrchardAction) : x.bytes.length = 820 := by
  simp only [OrchardAction.bytes, List.length_append, Field.length]

end MiningInfra.Ingress
