import MiningInfra.Relay.Merkle

/-!
# The body of a block

`validate_block_body` reads a serialized block, `validate_block_transactions` checks
transactions that come with their own boundaries. Both read every transaction with
`zcash_primitives` and check the txids against the merkle root of the header.
-/

namespace MiningInfra.Relay

open Lib Coinbase

/-- `ZCASH_FULL_HEADER_SIZE`: the header, the length of the solution and the solution. -/
def zcashFullHeaderSize : Nat := 140 + 3 + 1344

/-- `MAX_BLOCK_BYTES`. -/
def maxBlockBytes : Nat := 2000000

inductive PowResult where
  | valid
  | invalid
  /-- The header is too short to tell. -/
  | indeterminate
  deriving DecidableEq, Repr

/-- The `validate` of a `PowValidator`. -/
abbrev PowValidator := List UInt8 → PowResult

/-- Why a body was refused. `HeaderTarget` is not reported by the validators. -/
inductive BlockBodyError where
  | tooLarge (bytes : Nat)
  | invalidHeaderLength
  | headerTarget
  | invalidCount
  | emptyTransactions
  | transaction (index : Nat)
  | transactionBoundary (index : Nat)
  | trailingBytes (bytes : Nat)
  | duplicateTxid (index : Nat)
  | merkleMismatch
  deriving DecidableEq, Repr

/-- The smallest number of a compact size of this width that has no shorter form. -/
def compactSizeFloor : Nat → Nat
  | 2 => 253
  | 4 => 0x10000
  | _ => 0x100000000

/-- `zcash_encoding::CompactSize::read`: the shortest form only, and at most
`MAX_COMPACT_SIZE`. -/
def readCompactSizeStrict : List UInt8 → Option (Nat × List UInt8)
  | [] => none
  | first :: rest =>
    if first < 253 then some (first.toNat, rest)
    else
      let width := compactWidth first
      if rest.length < width then none
      else
        let value := leNat (rest.take width)
        if value < compactSizeFloor width ∨ 0x02000000 < value then none
        else some (value, rest.drop width)

/-- `CompactSize::serialized_size`. -/
def compactSizeSerializedSize (value : Nat) : Nat :=
  if value < 253 then 1 else if value ≤ 0xffff then 3 else if value ≤ 0xffffffff then 5 else 9

/-- The root a header commits to, if the header is long enough to have one. -/
def headerMerkleRoot (header : List UInt8) : Option Bytes32 :=
  if 68 ≤ header.length then some (toBytes32 ((header.drop 36).take 32)) else none

/-- The position of the first txid that repeats an earlier one. -/
def firstRepeatedFrom (seen : List Bytes32) : List Bytes32 → Option Nat
  | [] => none
  | txid :: rest =>
    if txid ∈ seen then some seen.length else firstRepeatedFrom (seen ++ [txid]) rest

def firstRepeatedTxid (txids : List Bytes32) : Option Nat := firstRepeatedFrom [] txids

section Code

variable (hashes : Hashes) (reader : TxReader)

def checkTxids (header : List UInt8) (txids : List Bytes32) : Except BlockBodyError Unit :=
  match firstRepeatedTxid txids with
  | some index => .error (.duplicateTxid index)
  | none =>
    let root := merkleRoot hashes txids
    if root = none ∨ root ≠ headerMerkleRoot header then .error .merkleMismatch else .ok ()

/-- The transactions of a serialized block: `count` more from the bytes `rest`, which begin at
`start`. The txids and the boundaries read so far come along for the error. -/
def readTransactions (txids : List Bytes32) (boundaries : List (Nat × Nat)) :
    (count start : Nat) → (rest : List UInt8) →
      Except BlockBodyError (List Bytes32 × List (Nat × Nat) × List UInt8)
  | 0, _, rest => .ok (txids, boundaries, rest)
  | count + 1, start, rest =>
    match reader.read rest with
    | none =>
      -- a repeat already read is a finding about the body and is reported first
      .error (match firstRepeatedTxid txids with
        | some index => .duplicateTxid index
        | none => .transaction txids.length)
    | some tx =>
      readTransactions (txids ++ [tx.txid]) (boundaries ++ [(start, start + tx.position)])
        count (start + tx.position) (rest.drop tx.position)

/-- `read_checked`, with the boundaries of the transactions. -/
def readChecked (rawBlock : List UInt8) : Except BlockBodyError (List (Nat × Nat)) :=
  if maxBlockBytes < rawBlock.length then .error (.tooLarge rawBlock.length)
  else if rawBlock.length < zcashFullHeaderSize then .error .invalidHeaderLength
  else
    let header := rawBlock.take zcashFullHeaderSize
    let body := rawBlock.drop zcashFullHeaderSize
    match readCompactSizeStrict body with
    | none => .error .invalidCount
    | some (count, rest) =>
      if count = 0 then .error .emptyTransactions
      else do
        let start := rawBlock.length - rest.length
        let (txids, boundaries, rest) ← readTransactions reader [] [] count start rest
        checkTxids hashes header txids
        if rest = [] then .ok boundaries else .error (.trailingBytes rest.length)

def validateBlockBody (rawBlock : List UInt8) : Except BlockBodyError Nat :=
  (readChecked hashes reader rawBlock).map List.length

/-- The txids of slices that must each be exactly one transaction. `bytes` is the size of the
block up to here. -/
def readSlices (index bytes : Nat) : List (List UInt8) → Except BlockBodyError (List Bytes32)
  | [] => .ok []
  | slice :: rest =>
    if maxBlockBytes < bytes + slice.length then .error (.tooLarge (bytes + slice.length))
    else match reader.read slice with
      | none => .error (.transaction index)
      | some tx =>
        if tx.position ≠ slice.length then .error (.transactionBoundary index)
        else (tx.txid :: ·) <$> readSlices (index + 1) (bytes + slice.length) rest

def validateBlockTransactions (header : List UInt8) (transactions : List (List UInt8)) :
    Except BlockBodyError Nat :=
  if header.length ≠ zcashFullHeaderSize then .error .invalidHeaderLength
  else if transactions = [] then .error .emptyTransactions
  else do
    let bytes := header.length + compactSizeSerializedSize transactions.length
    let txids ← readSlices reader 0 bytes transactions
    checkTxids hashes header txids
    pure txids.length

end Code

/-! ## The header commits to one list -/

theorem firstRepeatedFrom_eq_none {rest : List Bytes32} : ∀ {seen : List Bytes32}, seen.Nodup →
      (firstRepeatedFrom seen rest = none ↔ (seen ++ rest).Nodup) := by
  induction rest with
  | nil => intro seen hseen; simpa [firstRepeatedFrom] using hseen
  | cons txid rest ih =>
    intro seen hseen
    rw [firstRepeatedFrom]
    split
    · rename_i hmem
      -- a repeat is found, and it is one
      refine ⟨fun h => absurd h (by simp), fun h => ?_⟩
      exact absurd rfl ((List.nodup_append.mp h).2.2 txid hmem txid List.mem_cons_self)
    · rename_i hmem
      have hseen' : (seen ++ [txid]).Nodup := by
        refine List.nodup_append.mpr ⟨hseen, by simp, fun a ha b hb heq => hmem ?_⟩
        rwa [← List.mem_singleton.mp hb, ← heq]
      rw [ih hseen', List.append_assoc]
      rfl

variable {txids : List Bytes32} {hashes : Hashes}

theorem firstRepeatedTxid_eq_none : firstRepeatedTxid txids = none ↔ txids.Nodup :=
  firstRepeatedFrom_eq_none List.nodup_nil

theorem merkleRoot_cons (hashes : Hashes) (h : txids ≠ []) :
    merkleRoot hashes txids = Merkle.root (node hashes) txids := by
  rw [merkleRoot, if_neg h, Merkle.chunkLevel_eq]
  rfl

theorem merkleRoot_eq_none : merkleRoot hashes txids = none ↔ txids = [] := by
  constructor
  · intro h
    by_contra hne
    obtain ⟨r, hr⟩ := Merkle.root_isSome (node hashes) hne
    rw [merkleRoot_cons hashes hne, hr] at h
    cases h
  · rintro rfl
    rfl

theorem checkTxids_eq_ok {header : List UInt8} : checkTxids hashes header txids = .ok ()
      ↔ txids.Nodup ∧ txids ≠ [] ∧ merkleRoot hashes txids = headerMerkleRoot header := by
  unfold checkTxids
  rw [← firstRepeatedTxid_eq_none]
  cases firstRepeatedTxid txids with
  | some index => simp
  | none =>
    dsimp only
    split
    · rename_i hbad
      rw [merkleRoot_eq_none] at hbad
      refine ⟨fun h => absurd h (by simp), fun ⟨_, hne, hroot⟩ => ?_⟩
      exact absurd hroot (hbad.resolve_left hne)
    · rename_i hgood
      rw [not_or, not_not, merkleRoot_eq_none] at hgood
      exact ⟨fun _ => ⟨rfl, hgood⟩, fun _ => rfl⟩

/-- Double SHA-256 does not collide on the pairs that are hashed for the two lists. (On all pairs
of digests every function to digests does.) -/
def PairHashInjective (hashes : Hashes) (txids txids' : List Bytes32) : Prop :=
  ∀ p ∈ Merkle.hashed (node hashes) txids ++ Merkle.hashed (node hashes) txids',
    ∀ q ∈ Merkle.hashed (node hashes) txids ++ Merkle.hashed (node hashes) txids',
      node hashes p.1 p.2 = node hashes q.1 q.2 → p = q

theorem merkleRoot_inj {txids' : List Bytes32}
    (hheight : Nat.clog 2 txids.length = Nat.clog 2 txids'.length) (hnodup : txids.Nodup)
    (hnodup' : txids'.Nodup) (hinj : PairHashInjective hashes txids txids')
    (hroot : merkleRoot hashes txids = merkleRoot hashes txids') : txids = txids' := by
  by_cases hne : txids = []
  · rw [merkleRoot_eq_none.mpr hne] at hroot
    rw [hne, merkleRoot_eq_none.mp hroot.symm]
  · have hne' : txids' ≠ [] := by
      intro h
      rw [merkleRoot_eq_none.mpr h] at hroot
      exact hne (merkleRoot_eq_none.mp hroot)
    rw [merkleRoot_cons hashes hne, merkleRoot_cons hashes hne'] at hroot
    exact Merkle.root_inj_of_nodup hheight hnodup hnodup' hinj hroot

/-- **A root commits to one list.** Two lists of txids of one height without repeats that have the
same merkle root are equal; and a list that `check_txids` accepts for a header is the only list of
its height without repeats the header commits to. -/
theorem merkleRoot_commits (hashes : Hashes) {txids txids' : List Bytes32}
    (hheight : Nat.clog 2 txids.length = Nat.clog 2 txids'.length) (hnodup' : txids'.Nodup)
    (hinj : PairHashInjective hashes txids txids') :
    (txids.Nodup → merkleRoot hashes txids = merkleRoot hashes txids' → txids = txids') ∧
      ∀ header, checkTxids hashes header txids = .ok () →
        merkleRoot hashes txids' = headerMerkleRoot header → txids' = txids := by
  constructor
  · exact fun hnodup hroot => merkleRoot_inj hheight hnodup hnodup' hinj hroot
  · intro header hok hroot'
    obtain ⟨hnodup, -, hroot⟩ := checkTxids_eq_ok.mp hok
    exact (merkleRoot_inj hheight hnodup hnodup' hinj (hroot.trans hroot'.symm)).symm

/-- Three txids, with the first and the second SHA-256 of the three pairs above them. -/
def threeTxids : List Bytes32 := [fun _ => 1, fun _ => 2, fun _ => 3]

def threeDigests : List (Bytes32 × Bytes32) :=
  [(toBytes32 [0xf8, 0x18, 0xaf, 0xd3, 0x7a, 0x6d, 0xc3, 0xbc, 0x92, 0xfb, 0x44, 0x73, 0x10, 0x11,
    0x27, 0x70, 0x06, 0xdb, 0x4e, 0xfa, 0x6e, 0x90, 0x23, 0xcd, 0x74, 0x68, 0xc0, 0x23, 0x35,
    0xd2, 0x2a, 0x4d],
    toBytes32 [0x39, 0xce, 0x20, 0xbe, 0xde, 0x82, 0xc9, 0x6b, 0x89, 0x08, 0xbe, 0xc4, 0xa1, 0x57,
    0xb0, 0x9c, 0x54, 0x9b, 0x3d, 0xb9, 0x0b, 0x9b, 0x47, 0x4b, 0xda, 0x9a, 0xe9, 0xb9, 0x03,
    0x03, 0x10, 0xb4]),
   (toBytes32 [0x6a, 0xa5, 0x6c, 0x4b, 0xcd, 0x20, 0x89, 0x11, 0x79, 0x2a, 0xd2, 0x4c, 0x76, 0x81,
    0xfe, 0xfb, 0x93, 0xbe, 0xd5, 0x19, 0x03, 0xaf, 0xc5, 0x48, 0x60, 0xc9, 0xbd, 0x37, 0xe4,
    0x1e, 0x5a, 0x31],
    toBytes32 [0x64, 0x3d, 0x4b, 0x7e, 0x36, 0x99, 0xd2, 0xb3, 0xd8, 0xc9, 0x37, 0x4b, 0x36, 0x00,
    0xbd, 0xf1, 0xf5, 0x73, 0xb7, 0x99, 0xd2, 0xa5, 0x68, 0x86, 0x23, 0x65, 0x51, 0xa0, 0x16,
    0xb4, 0x2d, 0xdf]),
   (toBytes32 [0x01, 0xb0, 0x0e, 0x31, 0xa2, 0xf0, 0xd7, 0xd5, 0x66, 0xb6, 0xd5, 0xa5, 0x67, 0xba,
    0x07, 0x90, 0xb9, 0x0a, 0x5f, 0xe0, 0xb8, 0xfb, 0x27, 0xe4, 0x13, 0xce, 0xc1, 0xf3, 0x54,
    0x38, 0xcd, 0x23],
    toBytes32 [0x22, 0x3e, 0x02, 0x3f, 0xad, 0xf1, 0xf0, 0x53, 0xdf, 0x26, 0x98, 0x88, 0x71, 0xf8,
    0x93, 0xc8, 0x21, 0xc2, 0x8e, 0xdf, 0x77, 0xd6, 0x4a, 0x95, 0x5e, 0x6c, 0x2a, 0x02, 0xd5,
    0x47, 0xbd, 0xac])]

def threeHashes : Hashes :=
  let left := threeDigests.getD 0 (fun _ => 0, fun _ => 0)
  let right := threeDigests.getD 1 (fun _ => 0, fun _ => 0)
  let top := threeDigests.getD 2 (fun _ => 0, fun _ => 0)
  .ofTables [(List.replicate 32 1 ++ List.replicate 32 2, left.1), (left.1.toList, left.2),
    (List.replicate 32 3 ++ List.replicate 32 3, right.1), (right.1.toList, right.2),
    (left.2.toList ++ right.2.toList, top.1), (top.1.toList, top.2)] []

/-- A header with their root. -/
def threeHeader : List UInt8 :=
  List.replicate 36 0 ++ (threeDigests.getD 2 (fun _ => 0, fun _ => 0)).2.toList

/-- The pairs that are hashed for them. -/
def threePairs : List (Bytes32 × Bytes32) :=
  [(fun _ => 1, fun _ => 2), (fun _ => 3, fun _ => 3),
    ((threeDigests.getD 0 (fun _ => 0, fun _ => 0)).2,
      (threeDigests.getD 1 (fun _ => 0, fun _ => 0)).2)]

theorem three_commits :
    checkTxids threeHashes threeHeader threeTxids = .ok () ∧
      [fun _ => 3, fun _ => 2, fun _ => 1].reverse = threeTxids := by
  have hok : checkTxids threeHashes threeHeader threeTxids = .ok () := by decide +kernel
  have hpairs : Merkle.hashed (node threeHashes) threeTxids = threePairs := by decide +kernel
  have hinj : PairHashInjective threeHashes threeTxids
      [fun _ => 3, fun _ => 2, fun _ => 1].reverse := by
    show ∀ p ∈ Merkle.hashed (node threeHashes) threeTxids
        ++ Merkle.hashed (node threeHashes) threeTxids, _
    rw [hpairs]
    have hnodes : ((threePairs ++ threePairs).all fun p => (threePairs ++ threePairs).all fun q =>
        decide (node threeHashes p.1 p.2 = node threeHashes q.1 q.2 → p = q)) = true := by
      decide +kernel
    intro p hp q hq
    exact of_decide_eq_true (List.all_eq_true.mp (List.all_eq_true.mp hnodes p hp) q hq)
  have hroot : merkleRoot threeHashes [fun _ => 3, fun _ => 2, fun _ => 1].reverse
      = headerMerkleRoot threeHeader := by decide +kernel
  exact ⟨hok, (merkleRoot_commits threeHashes rfl (by decide +kernel) hinj).2 threeHeader hok hroot⟩

end MiningInfra.Relay
