import MiningInfra.Coinbase.TxParse

/-!
# Transactions as consensus writes them

Version 4 puts the transparent part right behind the version group id and the lock
time and expiry height behind that. Version 5 (ZIP 225) starts with the branch id, the
lock time and the expiry height and has the transparent part behind them. What follows
(the Sapling, Sprout and Orchard parts) is kept as bytes.
-/

namespace MiningInfra.Coinbase

open Lib

inductive Format where
  | v4
  | v5 (consensusBranchId : UInt32)
  deriving DecidableEq, Repr

structure Transaction where
  format : Format
  inputs : List TxIn
  outputs : List TxOut
  lockTime : UInt32
  expiryHeight : UInt32
  shielded : List UInt8

namespace Transaction

/-- The transparent inputs and outputs, each list behind its length. -/
def transparent (tx : Transaction) : List UInt8 :=
  pushCompactSize (UInt64.ofNat tx.inputs.length) ++ tx.inputs.flatMap TxIn.bytes
    ++ pushCompactSize (UInt64.ofNat tx.outputs.length) ++ tx.outputs.flatMap TxOut.bytes

def serialize (tx : Transaction) : List UInt8 :=
  match tx.format with
  | .v4 =>
    u32Bytes 0x80000004 ++ u32Bytes 0x892f2085 ++ tx.transparent
      ++ u32Bytes tx.lockTime ++ u32Bytes tx.expiryHeight ++ tx.shielded
  | .v5 consensusBranchId =>
    u32Bytes 0x80000005 ++ u32Bytes 0x26a7270a ++ u32Bytes consensusBranchId
      ++ u32Bytes tx.lockTime ++ u32Bytes tx.expiryHeight ++ tx.transparent ++ tx.shielded

end Transaction

/-- A transaction that a message can carry: its length is sent as a `u32`. -/
structure WireTransaction extends Transaction where
  fits : toTransaction.serialize.length < UInt32.size

/-- A message is small next to the address space. -/
theorem WireTransaction.length_mul_le (tx : WireTransaction) :
    tx.serialize.length * 8 ≤ isizeMax := by
  have hfits := tx.fits
  have hsize : UInt32.size * 8 ≤ isizeMax := by decide
  omega

/-- Some output carries the script with at least the minimum. -/
def PaysPool (script : List UInt8) (minimum : UInt64) (outputs : List TxOut) : Prop :=
  ∃ o ∈ outputs, o.scriptPubkey = script ∧ minimum ≤ o.value

instance (script : List UInt8) (minimum : UInt64) (outputs : List TxOut) :
    Decidable (PaysPool script minimum outputs) :=
  inferInstanceAs (Decidable (∃ o ∈ outputs, _))

/-! ## Version 4 reads back -/

variable {α : Type} {f : α → List UInt8} {as : List α}

theorem length_le_length_flatMap {a : α} (ha : a ∈ as) : (f a).length ≤ (as.flatMap f).length := by
  induction as with
  | nil => cases ha
  | cons b as ih =>
    rw [List.flatMap_cons, List.length_append]
    rcases List.mem_cons.mp ha with rfl | ha
    · omega
    · have := ih ha
      omega

theorem length_le_of_nonempty (hf : ∀ a, 0 < (f a).length) (as : List α) :
    as.length ≤ (as.flatMap f).length := by
  induction as with
  | nil => simp
  | cons a as ih =>
    have := hf a
    rw [List.flatMap_cons, List.length_append, List.length_cons]
    omega

theorem TxIn.length_bytes (x : TxIn) : x.scriptSig.length < x.bytes.length := by
  simp [TxIn.bytes, scriptBytes, u32Bytes, length_leBytes]
  omega

theorem TxOut.length_bytes (x : TxOut) : x.scriptPubkey.length < x.bytes.length := by
  simp [TxOut.bytes, scriptBytes, u64Bytes, length_leBytes]
  omega

/-- A list of items with a script each is read back when it is short enough for its length. -/
theorem times_list (as : List α) {d : Decoder α} {script : α → List UInt8}
    (hscript : ∀ a, (script a).length < (f a).length)
    (hd : ∀ a, (script a).length < UInt64.size → ∀ bs, d (f a ++ bs) = some (a, bs))
    (hfits : (as.flatMap f).length < UInt64.size) (rest : List UInt8) :
    Decoder.times (UInt64.ofNat as.length).toNat d (as.flatMap f ++ rest) = some (as, rest) := by
  have hlen := length_le_of_nonempty (fun a => Nat.zero_lt_of_lt (hscript a)) as
  rw [UInt64.toNat_ofNat_of_lt' (Nat.lt_of_le_of_lt hlen hfits)]
  refine Decoder.times_flatMap fun a ha => hd a ?_
  have hle := length_le_length_flatMap (f := f) ha
  have hlt := hscript a
  omega

theorem ifOverwinter_u32Bytes (v : UInt32) (rest : List UInt8) :
    ifOverwinter true (u32Bytes v ++ rest) = some (some v, rest) := by
  simp [ifOverwinter, Decoder.bind_run, u32_u32Bytes, Decoder.pure_run]

/-- Bytes in version 4 order: a header, its group, the transparent part, lock time, expiry
height. -/
def v4Layout (header group : UInt32) (inputs : List TxIn) (outputs : List TxOut)
    (lockTime expiryHeight : UInt32) (rest : List UInt8) : List UInt8 :=
  u32Bytes header ++ (u32Bytes group
    ++ (pushCompactSize (UInt64.ofNat inputs.length) ++ (inputs.flatMap TxIn.bytes
    ++ (pushCompactSize (UInt64.ofNat outputs.length) ++ (outputs.flatMap TxOut.bytes
    ++ (u32Bytes lockTime ++ (u32Bytes expiryHeight ++ rest)))))))

/-- **What is written in version 4 order is read back in that order**, for both versions. -/
theorem v4Order_layout {header group : UInt32} {inputs : List TxIn} {outputs : List TxOut}
    {lockTime expiryHeight : UInt32} {rest : List UInt8} (hbit : header >>> 31 = 1)
    (hversion : header &&& 0x7fffffff = 4 ∨ header &&& 0x7fffffff = 5)
    (hfits : (v4Layout header group inputs outputs lockTime expiryHeight rest).length
      < UInt32.size) (raw : List UInt8) :
    ∃ p, v4Order raw (v4Layout header group inputs outputs lockTime expiryHeight rest)
        = some (p, rest) ∧ p.inputs = inputs ∧ p.outputs = outputs := by
  have hsize : UInt32.size < UInt64.size := by decide
  simp only [v4Layout, List.length_append] at hfits
  have hinputs := times_list inputs TxIn.length_bytes (fun _ h => txIn_bytes h) (by omega)
    (pushCompactSize (UInt64.ofNat outputs.length) ++ (outputs.flatMap TxOut.bytes
      ++ (u32Bytes lockTime ++ (u32Bytes expiryHeight ++ rest))))
  have houtputs := times_list outputs TxOut.length_bytes (fun _ h => txOut_bytes h) (by omega)
    (u32Bytes lockTime ++ (u32Bytes expiryHeight ++ rest))
  have hover : decide (header >>> 31 = 1) = true := by simpa using hbit
  refine ⟨{
    version := header &&& 0x7fffffff, isOverwinterPlus := header >>> 31 = 1
    versionGroupId := some group, inputs, outputs, lockTime, expiryHeight := some expiryHeight, raw
    trailingDataOffset := if raw.length - rest.length < raw.length then
      some (raw.length - rest.length) else none }, ?_, rfl, rfl⟩
  refine Decoder.bind_eq_some_iff.mpr ⟨header, _, u32_u32Bytes _ _, ?_⟩
  refine Decoder.bind_eq_some_iff.mpr ⟨(), _, Decoder.failIf_neg (by tauto) _, ?_⟩
  refine Decoder.bind_eq_some_iff.mpr ⟨_, _, hover ▸ ifOverwinter_u32Bytes _ _, ?_⟩
  refine Decoder.bind_eq_some_iff.mpr ⟨_, _, compactSize_pushCompactSize _ _, ?_⟩
  refine Decoder.bind_eq_some_iff.mpr ⟨_, _, hinputs, ?_⟩
  refine Decoder.bind_eq_some_iff.mpr ⟨_, _, compactSize_pushCompactSize _ _, ?_⟩
  refine Decoder.bind_eq_some_iff.mpr ⟨_, _, houtputs, ?_⟩
  refine Decoder.bind_eq_some_iff.mpr ⟨_, _, u32_u32Bytes _ _, ?_⟩
  exact Decoder.bind_eq_some_iff.mpr ⟨_, _, hover ▸ ifOverwinter_u32Bytes _ _, rfl⟩

/-- **A version 4 transaction read in version 4 order is itself.** -/
theorem v4Order_serialize (tx : WireTransaction) (hv : tx.format = .v4) :
    ∃ p, v4Order tx.serialize tx.serialize = some (p, tx.shielded) ∧ p.inputs = tx.inputs
      ∧ p.outputs = tx.outputs := by
  have hs : tx.serialize = v4Layout 0x80000004 0x892f2085 tx.inputs tx.outputs tx.lockTime
      tx.expiryHeight tx.shielded := by
    simp only [Transaction.serialize, hv, Transaction.transparent, v4Layout, List.append_assoc]
  obtain ⟨p, hp, hin, hout⟩ := v4Order_layout (by decide) (.inl (by decide)) (hs ▸ tx.fits)
    tx.serialize
  exact ⟨p, (congrArg (v4Order tx.serialize) hs).trans hp, hin, hout⟩

end MiningInfra.Coinbase
