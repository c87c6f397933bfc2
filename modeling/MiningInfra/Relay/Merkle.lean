import MiningInfra.Jd.Declare

/-!
# The merkle root of a declared job and the relay's

`sovright-relay` computes a block's merkle root from the wire bytes of its transactions:
double SHA-256 for version 4, the ZIP 244 txid for version 5. The declaration server
hashes the coinbase bytes whatever their version. The two trees are the same tree, so
the roots agree exactly when the coinbase leaves do.
-/

namespace MiningInfra.Relay

open Lib Coinbase Jd

/-! ## The code -/

inductive TxVersion where
  | sprout (version : UInt32)
  | v3
  | v4
  | v5
  | v6
  deriving DecidableEq, Repr

/-- A transaction that was read, with the position of the cursor behind it. -/
structure ReadTransaction where
  version : TxVersion
  txid : Bytes32
  position : Nat

/-- `zcash_primitives::transaction::Transaction::read`, as far as it is relied on: it knows a
version 4 transaction for one, and of a standard version 5 transaction it returns the ZIP 244
txid and leaves nothing over. `Standard` are the transactions with a known branch id and
well-formed shielded parts. -/
structure TxReader where
  read : List UInt8 → Option ReadTransaction
  zip244Txid : Transaction → Bytes32
  Standard : Transaction → Prop
  read_v4 : ∀ tx : WireTransaction, Standard tx.toTransaction → tx.format = .v4 →
    ∀ r, read tx.serialize = some r → r.version ≠ .v5 ∧ r.version ≠ .v6
  read_v5 : ∀ (tx : WireTransaction) (branchId : UInt32), Standard tx.toTransaction →
    tx.format = .v5 branchId →
    read tx.serialize = some ⟨.v5, zip244Txid tx.toTransaction, tx.serialize.length⟩

section Code

variable (hashes : Hashes) (reader : TxReader)

def txidFromTxBytes (txBytes : List UInt8) : Bytes32 :=
  match reader.read txBytes with
  | some tx =>
    if tx.position = txBytes.length ∧ (tx.version = .v5 ∨ tx.version = .v6) then tx.txid
    else hashes.sha256d txBytes
  | none => hashes.sha256d txBytes

def node (left right : Bytes32) : Bytes32 := hashes.sha256d (left.toList ++ right.toList)

def merkleRoot (txids : List Bytes32) : Option Bytes32 :=
  if txids = [] then none
  else (Merkle.collapse (Merkle.chunkLevel (node hashes)) txids.length txids).head?

/-- The root the relay computes for a block. -/
def blockMerkleRoot (transactions : List (List UInt8)) : Option Bytes32 :=
  merkleRoot hashes (transactions.map (txidFromTxBytes hashes reader))

end Code

/-! ## Two trees -/

variable {hashes : Hashes} {reader : TxReader} {txids : List Bytes32}

/-- The txid consensus gives a transaction. -/
def consensusTxid (hashes : Hashes) (reader : TxReader) (tx : Transaction) : Bytes32 :=
  match tx.format with
  | .v4 => hashes.sha256d tx.serialize
  | .v5 _ => reader.zip244Txid tx

theorem txidFromTxBytes_serialize {tx : WireTransaction} (h : reader.Standard tx.toTransaction) :
    txidFromTxBytes hashes reader tx.serialize = consensusTxid hashes reader tx.toTransaction := by
  unfold txidFromTxBytes consensusTxid
  cases hf : tx.format with
  | v4 =>
    cases hr : reader.read tx.serialize with
    | none => rfl
    | some r =>
      obtain ⟨h5, h6⟩ := reader.read_v4 tx h hf r hr
      simp [h5, h6]
  | v5 branchId => simp [reader.read_v5 tx branchId h hf]

/-- **Both programs build the same tree.** -/
theorem merkleRoot_eq_root (h : txids ≠ []) :
    merkleRoot hashes txids = Merkle.root (txidNode hashes) txids := by
  rw [merkleRoot, if_neg h, Merkle.chunkLevel_eq]
  rfl

theorem merkleRootFromTxids_eq_root (h : txids ≠ []) :
    Merkle.root (txidNode hashes) txids = some (merkleRootFromTxids hashes txids) := by
  obtain ⟨r, hr⟩ := Merkle.root_isSome (txidNode hashes) h
  rw [merkleRootFromTxids, Merkle.indexLevel_eq]
  rw [Merkle.root] at hr ⊢
  rw [hr]
  rfl

/-- No two of the nodes that are hashed for the two lists of leaves collide. -/
def CollisionFree (hashes : Hashes) (leaves leaves' : List Bytes32) : Prop :=
  ∀ p ∈ Merkle.hashed (txidNode hashes) leaves, ∀ q ∈ Merkle.hashed (txidNode hashes) leaves',
    hashes.sha256d (p.1.toList ++ p.2.toList) = hashes.sha256d (q.1.toList ++ q.2.toList) → p = q

section Root

variable {config : JdServerConfig} {s : JdState} {now : Nat} {request : SetCustomMiningJob}
  {job : DeclaredJobInfo} {t : TemplateContext} {coinbase : WireTransaction}
  {txs : List WireTransaction}

/-- The merkle root of an accepted job is the root over the hash of the coinbase bytes and the
txids of the template. -/
theorem accepted_merkleRoot (htemplate : s.currentTemplate = some t)
    (haccepted : acceptedJob hashes config s now request = some job) :
    Merkle.root (txidNode hashes) (hashes.sha256d request.coinbaseTx :: t.txids)
      = some job.merkleRoot := by
  obtain ⟨token, jobId, rfl, -, hvalid⟩ := acceptedJob_eq_some haccepted
  rw [htemplate] at hvalid
  have hroot := (validateCustomJobRequest_some_iff.mp hvalid).1.merkleRoot
  unfold computeMerkleRoot at hroot
  split at hroot
  · cases hroot
  · rw [merkleRootFromTxids_eq_root (by simp)]
    exact hroot

end Root

/-! ## A version 5 coinbase that is accepted -/

/-- A version 5 coinbase of the NU6 branch. Its one output has a long script; read in version 4
order the bytes are 85 inputs and an output of 100 zatoshi to the script `51`. -/
def craftedCoinbase : Transaction where
  format := .v5 0xc8e71055
  inputs := [⟨fun _ => 0, 0xffffffff, [0x02, 0x10, 0x27] ++ List.replicate 97 0, 0xffffffff⟩]
  outputs := [⟨125000000, List.replicate 3320 0 ++ [0x01] ++ u64Bytes 100 ++ [0x01, 0x51]
    ++ List.replicate 8 0⟩]
  lockTime := 0
  expiryHeight := 10000
  shielded := [0, 0, 0]

/-- The inputs it reads as. -/
def craftedInputs : List TxIn :=
  [⟨toBytes32 ([0x10, 0xe7, 0xc8, 0, 0, 0, 0, 0x10, 0x27, 0, 0, 0x01]), 0, [], 0⟩,
    ⟨toBytes32 [0, 0, 0, 0xff, 0xff, 0xff, 0xff, 0x64, 0x02, 0x10, 0x27], 0, [], 0⟩,
    ⟨fun _ => 0, 0, [], 0⟩,
    ⟨toBytes32 (List.replicate 26 0 ++ [0xff, 0xff, 0xff, 0xff, 0x01, 0x40]), 0x77359, [],
      0xbfd0000⟩,
    ⟨toBytes32 [0x0d], 0, [], 0⟩] ++ List.replicate 80 ⟨fun _ => 0, 0, [], 0⟩

theorem crafted_layout :
    craftedCoinbase.serialize = v4Layout 0x80000005 0x26a7270a craftedInputs [⟨100, [0x51]⟩] 0 0
      [0, 0, 0] := by
  decide +kernel

def craftedWire : WireTransaction := ⟨craftedCoinbase, by decide +kernel⟩

/-- Without other transactions the root is the coinbase leaf. -/
theorem sampleJob_merkleRoot (hashes : Hashes) (data : List UInt8) (inputs : List TxIn) :
    (sampleJob hashes [] data inputs).merkleRoot = hashes.sha256d data := rfl

/-- The server takes the crafted coinbase, whatever the hash functions are. -/
theorem crafted_accepted (hashes : Hashes) :
    acceptedJob hashes sampleConfig (sampleServer (sampleTemplate [])) 0
        (sampleRequest hashes [] craftedCoinbase.serialize craftedInputs)
      = some (sampleJob hashes [] craftedCoinbase.serialize craftedInputs) := by
  obtain ⟨p, hp, hinputs, houtputs⟩ := v4Order_layout (by decide) (.inr (by decide))
    (crafted_layout ▸ craftedWire.fits) craftedCoinbase.serialize
  have hdecodes := (congrArg (v4Order craftedCoinbase.serialize) crafted_layout).trans hp
  have hlen : craftedCoinbase.serialize.length ≤ 4296 := by decide +kernel
  have haccepted : acceptedJob hashes sampleConfig (sampleServer (sampleTemplate [])) 0
      (sampleRequest hashes [] craftedCoinbase.serialize p.inputs)
        = some (sampleJob hashes [] craftedCoinbase.serialize p.inputs) :=
    acceptedJob_requestFor (Nat.le_trans (Nat.mul_le_mul_right 8 hlen) (by decide)) hlen (by decide)
      hdecodes (by rw [hinputs]; simp [craftedInputs]) (by rw [houtputs]; decide) rfl (by decide)
      (by decide) rfl rfl rfl
  rw [hinputs] at haccepted
  exact haccepted

/-- The ZIP 244 txid of the crafted coinbase. -/
def craftedTxid : Bytes32 :=
  toBytes32 [0xf7, 0x0c, 0x02, 0xfb, 0x07, 0x20, 0x50, 0x96, 0x7a, 0xcd, 0x3c, 0x5c, 0x5e, 0xbf,
    0x0c, 0x6c, 0x75, 0x7b, 0x01, 0xca, 0x18, 0xf5, 0xb4, 0x55, 0xaa, 0xbf, 0x0a, 0xb5, 0x0a, 0xef,
    0xc3, 0xdf]

/-- The first and the second SHA-256 of the crafted coinbase. -/
def craftedDigests : Bytes32 × Bytes32 :=
  (toBytes32 [0x79, 0xa7, 0x60, 0xb5, 0xcf, 0x09, 0x43, 0x6c, 0x69, 0x3a, 0x7a, 0xc1, 0xf8, 0x80,
    0x3e, 0x0f, 0x30, 0xc4, 0xe2, 0xfe, 0xbe, 0xf3, 0xe9, 0x26, 0x1e, 0x1a, 0xf6, 0x6f, 0x7d, 0x18,
    0xc4, 0x99],
  toBytes32 [0x06, 0x60, 0x95, 0xe1, 0x61, 0x5c, 0xe1, 0xd6, 0x6d, 0xb1, 0x6b, 0x11, 0x86, 0xa7,
    0xe8, 0x62, 0x11, 0x6e, 0x2b, 0x56, 0x43, 0x67, 0x4c, 0xbc, 0x6c, 0x3e, 0xa8, 0x73, 0x32, 0xc8,
    0xcb, 0x7c])

/-- The same of the node over the second digest and the txid of the crafted transaction. -/
def nodeDigests : Bytes32 × Bytes32 :=
  (toBytes32 [0xa3, 0x35, 0x54, 0x3f, 0xc1, 0x42, 0x22, 0x52, 0x35, 0x55, 0x01, 0xb3, 0x77, 0xe2,
    0xf5, 0x93, 0x84, 0x99, 0x6a, 0xdc, 0x33, 0x0f, 0x55, 0xfb, 0x0a, 0xdb, 0x48, 0x13, 0xda, 0x5b,
    0xa9, 0x9f],
  toBytes32 [0xa1, 0x49, 0x30, 0x3e, 0xbd, 0x5a, 0x53, 0xdb, 0xa6, 0xef, 0xf1, 0x16, 0x73, 0x8c,
    0x20, 0xe9, 0x60, 0x95, 0xc2, 0x93, 0xfd, 0xc5, 0x96, 0x64, 0xd1, 0x3d, 0xc4, 0xd5, 0x29, 0x44,
    0x7c, 0x25])

/-- BLAKE2b of the empty signature scripts that the crafted coinbase is read with, the digest
with it, and the commitments over that. -/
def craftedAuthDigests : Bytes32 × Bytes32 × Bytes32 :=
  (toBytes32 [0xe9, 0x88, 0x2b, 0xce, 0x1c, 0xf1, 0x35, 0x69, 0x02, 0xc6, 0xe2, 0x58, 0xc5, 0x67,
    0xeb, 0xc0, 0xd9, 0x92, 0x88, 0x67, 0xde, 0x9a, 0x35, 0x89, 0xbb, 0xbd, 0x31, 0x0e, 0xb6, 0x89,
    0x04, 0xe5],
  toBytes32 [0x63, 0x95, 0x81, 0x92, 0x6b, 0x12, 0x2a, 0x7c, 0xd6, 0x6d, 0x59, 0x80, 0xed, 0x44,
    0x08, 0x21, 0xb6, 0x2b, 0xea, 0x10, 0x37, 0x57, 0x20, 0x47, 0x12, 0xff, 0x98, 0xa1, 0x9b, 0x71,
    0x2d, 0xb5],
  toBytes32 [0xfd, 0xdf, 0x26, 0xf8, 0xe7, 0x06, 0x2d, 0x6d, 0x76, 0x7c, 0xe7, 0xc8, 0x6d, 0x5d,
    0x25, 0xf4, 0xd0, 0x18, 0xd3, 0xda, 0x23, 0x8c, 0xf3, 0xd5, 0x31, 0x17, 0xae, 0xc4, 0x15, 0xd6,
    0x21, 0x70])

/-- The hash functions on what is hashed for the two coinbases. -/
def sampleHashes : Hashes :=
  .ofTables (plainSha256 ++ [(craftedCoinbase.serialize, craftedDigests.1),
      (craftedDigests.1.toList, craftedDigests.2),
      (plainDigests.2.toList ++ craftedTxid.toList, nodeDigests.1),
      (nodeDigests.1.toList, nodeDigests.2)])
    (plainBlake2b ++ [((transparentAuthPersonalization, []), craftedAuthDigests.1),
      ((Hashes.authPersonalization 0xc8e71055, craftedAuthDigests.1.toList
        ++ plainPartDigests.2.1.toList ++ plainPartDigests.2.2.toList), craftedAuthDigests.2.1),
      ((blockCommitPersonalization, Hashes.commitmentsData (fun _ => 1) craftedAuthDigests.2.1),
        craftedAuthDigests.2.2)])

theorem plain_ne_crafted : plainWire.serialize ≠ craftedCoinbase.serialize := by
  decide +kernel

/-- The reader on the two transactions. -/
def sampleReader : TxReader where
  read data :=
    if data = craftedCoinbase.serialize then
      some ⟨.v5, craftedTxid, craftedCoinbase.serialize.length⟩
    else if data = plainWire.serialize then some ⟨.v4, plainDigests.2, plainWire.serialize.length⟩
    else none
  zip244Txid _ := craftedTxid
  Standard tx := tx = craftedCoinbase ∨ tx = plainWire.toTransaction
  read_v4 tx hstd hf r hr := by
    rcases hstd with h | h
    · rw [h] at hf
      exact absurd hf (by decide)
    · rw [h, if_neg plain_ne_crafted, if_pos rfl] at hr
      cases hr
      exact ⟨by decide, by decide⟩
  read_v5 tx branchId hstd hf := by
    rcases hstd with h | h
    · rw [h, if_pos rfl]
    · rw [h] at hf
      exact absurd hf (by simp [plainWire, sampleCoinbase])

end MiningInfra.Relay
