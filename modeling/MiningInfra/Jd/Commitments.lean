import MiningInfra.Jd.Declare

/-!
# What an accepted job commits to

The merkle root of a declared job covers the coinbase and every transaction of the
template. Its block commitments are recomputed from the coinbase alone: the auth data
root is taken over one digest, and the template the server holds has no auth digests to
take the others from. So the commitments are those of the block exactly when the
template has no transactions.
-/

namespace MiningInfra.Jd

open Lib Coinbase

/-- A template with the auth digests of its transactions, which the server is not given. -/
structure BlockTemplate where
  context : TemplateContext
  authDigests : List Bytes32
  length_eq : authDigests.length = context.txids.length

section Spec

variable (hashes : Hashes)

/-- The auth digest of a coinbase, as the server computes it. -/
def coinbaseDigest (coinbaseTx : List UInt8) (consensusBranchId : UInt32) : Option Bytes32 :=
  match (Coinbase.parseTransaction coinbaseTx .init).1 with
  | .ok parsed => some (hashes.computeCoinbaseAuthDigest (parsed.inputs.flatMap TxIn.scriptSig)
      consensusBranchId)
  | _ => none

/-- The commitments of the block: over the digest of the coinbase and those of all
transactions. -/
def blockCommitments (b : BlockTemplate) (coinbaseTx : List UInt8) : Option Bytes32 := do
  let digest ← coinbaseDigest hashes coinbaseTx b.context.consensusBranchId
  let root ← hashes.computeAuthDataRoot (digest :: b.authDigests)
  pure (hashes.calculateBlockCommitmentsHash b.context.chainHistoryRoot root)

/-- What BLAKE2b is applied to last for the commitments over the coinbase and for those of the
block, with the personalizations: the two commitments, the digest, the nodes of the tree. -/
def hashedFor (b : BlockTemplate) (scriptSigs : List UInt8) : List (List UInt8 × List UInt8) :=
  let digest := hashes.computeCoinbaseAuthDigest scriptSigs b.context.consensusBranchId
  let leaves := padLeaves (digest :: b.authDigests) (b.authDigests.getLast?.getD digest)
  [(blockCommitPersonalization, Hashes.commitmentsData b.context.chainHistoryRoot digest),
    (blockCommitPersonalization, Hashes.commitmentsData b.context.chainHistoryRoot
      ((Merkle.root hashes.authNode leaves).getD digest)),
    (Hashes.authPersonalization b.context.consensusBranchId, hashes.coinbaseAuthData scriptSigs)]
  ++ (Merkle.hashed hashes.authNode leaves).map fun p =>
    (authDataHashPersonalization, p.1.toList ++ p.2.toList)

/-- No two of them collide. -/
def CommitmentsCollisionFree (b : BlockTemplate) (coinbaseTx : List UInt8) : Prop :=
  ∀ parsed, (Coinbase.parseTransaction coinbaseTx .init).1 = .ok parsed →
    ∀ x ∈ hashedFor hashes b (parsed.inputs.flatMap TxIn.scriptSig),
    ∀ y ∈ hashedFor hashes b (parsed.inputs.flatMap TxIn.scriptSig),
      hashes.blake2b x.1 x.2 = hashes.blake2b y.1 y.2 → x = y

end Spec

variable {hashes : Hashes} {config : JdServerConfig}

variable {a : Bytes32} {b : BlockTemplate}

theorem Bytes32.toList_inj {b : Bytes32} (h : a.toList = b.toList) : a = b :=
  List.ofFn_injective h

theorem commitmentsData_inj {root b : Bytes32}
    (h : Hashes.commitmentsData root a = Hashes.commitmentsData root b) : a = b := by
  unfold Hashes.commitmentsData at h
  exact Bytes32.toList_inj (List.append_cancel_left (List.append_cancel_right h))

/-- A coinbase digest and a node of the auth data tree are hashes under two personalizations. -/
theorem authPersonalization_ne (branchId : UInt32) :
    Hashes.authPersonalization branchId ≠ authDataHashPersonalization := by
  intro h
  have := congrArg (·[1]?) h
  simp [Hashes.authPersonalization, txAuthPersonalizationPrefix, authDataHashPersonalization] at this

/-- An accepted job carries the commitments over its coinbase alone. -/
theorem accepted_commitments {s : JdState} {now : Nat} {request : SetCustomMiningJob}
    {job : DeclaredJobInfo} {t : TemplateContext} (htemplate : s.currentTemplate = some t)
    (haccepted : acceptedJob hashes config s now request = some job) :
    ∃ parsed, (Coinbase.parseTransaction request.coinbaseTx .init).1 = .ok parsed
      ∧ job.blockCommitments = hashes.calculateBlockCommitmentsHash t.chainHistoryRoot
        (hashes.computeCoinbaseAuthDigest (parsed.inputs.flatMap TxIn.scriptSig)
          t.consensusBranchId) := by
  obtain ⟨token, jobId, rfl, -, hvalid⟩ := acceptedJob_eq_some haccepted
  rw [htemplate] at hvalid
  have hc := (validateCustomJobRequest_some_iff.mp hvalid).1.commitments
  simp only [recomputeCoinbaseOnlyBlockCommitments, Outcome.bind_eq_ok, Outcome.mapErr_eq_ok,
    Hashes.computeAuthDataRoot_singleton, Outcome.ok.injEq] at hc
  obtain ⟨parsed, hparse, _, -, hc⟩ := hc
  exact ⟨parsed, hparse, hc.symm⟩

theorem computeAuthDataRoot_cons (digest : Bytes32) (digests : List Bytes32) :
    hashes.computeAuthDataRoot (digest :: digests)
      = Merkle.root hashes.authNode
        (padLeaves (digest :: digests) (digests.getLast?.getD digest)) := by
  rw [Hashes.computeAuthDataRoot, List.getLast?_cons]

/-- The commitments over one digest are not those over several, unless something collides. -/
theorem commitments_ne {scriptSigs : List UInt8} (hb : b.authDigests ≠ [])
    (hfree : ∀ x ∈ hashedFor hashes b scriptSigs, ∀ y ∈ hashedFor hashes b scriptSigs,
      hashes.blake2b x.1 x.2 = hashes.blake2b y.1 y.2 → x = y) {root : Bytes32}
    (hroot : hashes.computeAuthDataRoot (hashes.computeCoinbaseAuthDigest scriptSigs
      b.context.consensusBranchId :: b.authDigests) = some root) :
    hashes.calculateBlockCommitmentsHash b.context.chainHistoryRoot root
      ≠ hashes.calculateBlockCommitmentsHash b.context.chainHistoryRoot
        (hashes.computeCoinbaseAuthDigest scriptSigs b.context.consensusBranchId) := by
  rw [computeAuthDataRoot_cons] at hroot
  unfold hashedFor at hfree
  simp only [hroot, Option.getD_some] at hfree
  generalize hdigest : hashes.computeCoinbaseAuthDigest scriptSigs b.context.consensusBranchId
    = digest at *
  intro heq
  -- the two commitments hash the same data, so the root is the digest
  have hdata := hfree _ (List.mem_append_left _ (List.mem_cons_of_mem _ List.mem_cons_self)) _
    (List.mem_append_left _ List.mem_cons_self) heq
  have hsame : root = digest := commitmentsData_inj (Prod.mk.inj hdata).2
  -- but the root is a node of the tree
  have hlong : 1 < (padLeaves (digest :: b.authDigests)
      (b.authDigests.getLast?.getD digest)).length := by
    have := List.length_pos_iff.mpr hb
    rw [padLeaves, List.length_append, List.length_cons]
    omega
  obtain ⟨p, hp, hnode⟩ := Merkle.root_eq_node hashes.authNode hlong
  rw [hroot, hsame, Option.some.injEq] at hnode
  have hpersonal := hfree _ (List.mem_append_left _ (List.mem_cons_of_mem _ (List.mem_cons_of_mem _
    List.mem_cons_self))) _ (List.mem_append_right _ (List.mem_map_of_mem hp))
    (hdigest.trans hnode)
  exact authPersonalization_ne _ (Prod.mk.inj hpersonal).1

theorem blockCommitments_ne {coinbaseTx : List UInt8} {parsed : ParsedTx} (hb : b.authDigests ≠ [])
    (hfree : CommitmentsCollisionFree hashes b coinbaseTx)
    (hparse : (Coinbase.parseTransaction coinbaseTx .init).1 = .ok parsed) :
    blockCommitments hashes b coinbaseTx
      ≠ some (hashes.calculateBlockCommitmentsHash b.context.chainHistoryRoot
        (hashes.computeCoinbaseAuthDigest (parsed.inputs.flatMap TxIn.scriptSig)
          b.context.consensusBranchId)) := by
  intro h
  obtain ⟨root, hroot⟩ : ∃ root, hashes.computeAuthDataRoot
      (hashes.computeCoinbaseAuthDigest (parsed.inputs.flatMap TxIn.scriptSig)
        b.context.consensusBranchId :: b.authDigests) = some root := by
    rw [computeAuthDataRoot_cons]
    exact Merkle.root_isSome _ (by simp [padLeaves])
  simp only [blockCommitments, coinbaseDigest, hparse, hroot, Option.bind_eq_bind,
    Option.bind_some, pure, Option.some.injEq] at h
  exact commitments_ne hb (hfree parsed hparse) hroot h

/-- Templates that differ only in the auth digests of their transactions do not get the
commitments of this job. -/
def DigestsMatter (hashes : Hashes) (config : JdServerConfig) (b : BlockTemplate)
    (job : DeclaredJobInfo) : Prop :=
  ∀ b' : BlockTemplate, b'.context = b.context → b'.authDigests ≠ b.authDigests →
    ∀ s now request job', s.currentTemplate = some b'.context →
      acceptedJob hashes config s now request = some job' →
      job'.blockCommitments ≠ job.blockCommitments

theorem exists_other_digests (hb : b.authDigests ≠ []) :
    ∃ b' : BlockTemplate, b'.context = b.context ∧ b'.authDigests ≠ b.authDigests := by
  obtain ⟨digest, rest, hd⟩ := List.exists_cons_of_ne_nil hb
  have hlen := b.length_eq
  rw [hd] at hlen
  refine ⟨⟨b.context, (fun i => digest i + 1) :: rest, hlen⟩, rfl, ?_⟩
  rw [hd]
  intro h
  have hzero := congrFun (List.cons.inj h).1 0
  simp at hzero

/-- **An accepted job commits to the block exactly when the template has no transactions.** -/
theorem commitments_of_block_iff {b : BlockTemplate} {s : JdState} {now : Nat}
    {request : SetCustomMiningJob} {job : DeclaredJobInfo}
    (hfree : CommitmentsCollisionFree hashes b request.coinbaseTx)
    (htemplate : s.currentTemplate = some b.context)
    (haccepted : acceptedJob hashes config s now request = some job) :
    (blockCommitments hashes b request.coinbaseTx = some job.blockCommitments
        ↔ b.context.txids = [])
      ∧ (DigestsMatter hashes config b job ↔ b.context.txids = []) := by
  obtain ⟨parsed, hparse, hjob⟩ := accepted_commitments htemplate haccepted
  have hempty : b.authDigests = [] ↔ b.context.txids = [] := by
    rw [← List.length_eq_zero_iff, b.length_eq, List.length_eq_zero_iff]
  rw [← hempty]
  refine ⟨⟨?_, ?_⟩, ?_, ?_⟩
  · intro h
    by_contra hb
    exact blockCommitments_ne hb hfree hparse (hjob ▸ h)
  · intro hb
    simp only [blockCommitments, coinbaseDigest, hparse, hb, Hashes.computeAuthDataRoot_singleton,
      Option.bind_eq_bind, Option.bind_some, pure, hjob]
  · intro hmatter
    by_contra hb
    obtain ⟨b', hcontext, hne⟩ := exists_other_digests hb
    exact hmatter b' hcontext hne s now request job (hcontext ▸ htemplate) haccepted rfl
  · intro hb b' hcontext hne
    have hlen := b'.length_eq
    rw [hcontext, hempty.mp hb] at hlen
    exact absurd (List.length_eq_zero_iff.mp hlen) (hb ▸ hne)

/-! ## Templates with and without a transaction -/

/-- The node over that digest and a transaction's `22…22`, and the commitments over it. -/
def sampleBlockDigests : Bytes32 × Bytes32 :=
  (toBytes32 [0x65, 0xcf, 0xd8, 0x75, 0xad, 0xef, 0x34, 0xb8, 0x49, 0xc6, 0x79, 0x79, 0x21, 0x67,
    0xf1, 0x4e, 0xc7, 0xd3, 0xf4, 0x5c, 0x02, 0x16, 0xb7, 0x4b, 0x93, 0x55, 0x7a, 0x9c, 0xf2, 0x6a,
    0x1c, 0xa4],
  toBytes32 [0x87, 0xea, 0xad, 0x0b, 0x1b, 0x5a, 0xad, 0x00, 0x4b, 0x32, 0xbf, 0x6f, 0x8e, 0x96,
    0x61, 0xa1, 0x05, 0xc6, 0x2a, 0x9f, 0x55, 0x0d, 0xb1, 0x19, 0x49, 0x5e, 0xcf, 0xe7, 0x47, 0xf9,
    0xd9, 0x9e])

/-- SHA-256 and double SHA-256 of the node over the plain coinbase's txid and `05…05`. -/
def sampleNodeDigests : Bytes32 × Bytes32 :=
  (toBytes32 [0xb4, 0xcd, 0x16, 0xf5, 0x92, 0x56, 0xe4, 0xc1, 0x78, 0x56, 0x37, 0xe6, 0x2c, 0xd3,
    0x91, 0xb0, 0x9c, 0x53, 0xd5, 0x49, 0x80, 0x9a, 0x98, 0x89, 0x34, 0x12, 0xb7, 0x05, 0xb2, 0x00,
    0xc0, 0x8f],
  toBytes32 [0x6d, 0x7c, 0xb6, 0xbf, 0x1b, 0x44, 0x14, 0x8a, 0x02, 0x0f, 0x52, 0x9c, 0x8a, 0x94,
    0xd3, 0xb2, 0xa3, 0x91, 0x6e, 0x8f, 0x05, 0xc7, 0x4d, 0x3b, 0x54, 0xb1, 0x9c, 0x2c, 0x21, 0x3e,
    0x10, 0x3a])

/-- The digests of a block with the plain coinbase, with and without that transaction. -/
def commitmentHashes : Hashes :=
  .ofTables (plainSha256 ++ [(plainDigests.2.toList ++ List.replicate 32 0x05, sampleNodeDigests.1),
      (sampleNodeDigests.1.toList, sampleNodeDigests.2)])
    (plainBlake2b ++ [
      ((authDataHashPersonalization, plainCoinbaseDigests.1.toList ++ List.replicate 32 0x22),
        sampleBlockDigests.1),
      ((blockCommitPersonalization, Hashes.commitmentsData (fun _ => 1) sampleBlockDigests.1),
        sampleBlockDigests.2)])

/-- A template without transactions, and one with a transaction. -/
def emptyBlock : BlockTemplate := ⟨sampleTemplate [], [], rfl⟩

def oneTxBlock : BlockTemplate := ⟨sampleTemplate [fun _ => 5], [fun _ => 0x22], rfl⟩

theorem plain_parses :
    ∃ parsed, (Coinbase.parseTransaction plainWire.serialize .init).1 = .ok parsed
      ∧ parsed.inputs.flatMap TxIn.scriptSig = [0x02, 0x10, 0x27] := by
  obtain ⟨p, hp, hinputs, -⟩ := v4Order_serialize plainWire rfl
  refine ⟨p, (parseTransaction_ok_iff plainWire.length_mul_le p).mpr ⟨_, hp⟩, ?_⟩
  rw [hinputs]
  rfl

theorem collisionFree_of_decide (h : ∀ x ∈ hashedFor commitmentHashes b [0x02, 0x10, 0x27],
      ∀ y ∈ hashedFor commitmentHashes b [0x02, 0x10, 0x27],
      commitmentHashes.blake2b x.1 x.2 = commitmentHashes.blake2b y.1 y.2 → x = y) :
    CommitmentsCollisionFree commitmentHashes b plainWire.serialize := by
  obtain ⟨p, hp, hsigs⟩ := plain_parses
  intro parsed hparsed
  rw [hp, Outcome.ok.injEq] at hparsed
  rw [← hparsed, hsigs]
  exact h

theorem commitments_of_block_iff_empty :
    blockCommitments commitmentHashes emptyBlock
        (sampleRequest commitmentHashes [] plainWire.serialize plainWire.inputs).coinbaseTx
      = some (sampleJob commitmentHashes [] plainWire.serialize plainWire.inputs).blockCommitments := by
  have hfree : CommitmentsCollisionFree commitmentHashes emptyBlock
      (sampleRequest commitmentHashes [] plainWire.serialize plainWire.inputs).coinbaseTx :=
    collisionFree_of_decide (by decide +kernel)
  exact (commitments_of_block_iff hfree rfl (plain_accepted commitmentHashes [])).1.mpr rfl

/-- With a transaction in the template the accepted commitments are not those of the block. -/
theorem one_tx_commitments_differ :
    ¬ ∀ (hashes : Hashes) (config : JdServerConfig) (b : BlockTemplate) (s : JdState) (now : Nat)
      (request : SetCustomMiningJob) (job : DeclaredJobInfo),
      CommitmentsCollisionFree hashes b request.coinbaseTx →
      s.currentTemplate = some b.context →
      acceptedJob hashes config s now request = some job →
      blockCommitments hashes b request.coinbaseTx = some job.blockCommitments
        ∧ DigestsMatter hashes config b job := by
  intro h
  have hfree : CommitmentsCollisionFree commitmentHashes oneTxBlock
      (sampleRequest commitmentHashes [fun _ => 5] plainWire.serialize plainWire.inputs).coinbaseTx :=
    collisionFree_of_decide (by decide +kernel)
  have haccepted := plain_accepted commitmentHashes [fun _ => 5]
  obtain ⟨parsed, hparse, hjob⟩ := accepted_commitments rfl haccepted
  have hblock := (h _ _ oneTxBlock _ _ _ _ hfree rfl haccepted).1
  exact blockCommitments_ne (by simp [oneTxBlock]) hfree hparse (hjob ▸ hblock)

end MiningInfra.Jd
