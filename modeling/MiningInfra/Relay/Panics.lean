import MiningInfra.Lib.Checked
import MiningInfra.Relay.Reconstruct

/-!
# The reconstructor does not panic

The reconstructor as it runs: an addition that overflows, an index out of range, a failed
`unwrap` and a reservation that is too large end it. For every compact block that a process can
hold, whatever its indexes say, none of them happens and the result is that of `reconstruct`.
-/

namespace MiningInfra.Relay

open Lib Coinbase

/-- Virtual addresses have at most 57 bits. -/
def addressSpace : Nat := 2 ^ 57

/-- What a process can hold. A short id takes 6 bytes and a prefilled transaction 32 besides its
data; the data of a transaction is a vector, which has at most `isize::MAX` bytes. -/
structure InMemory (mempool : Mempool) (compact : CompactBlock) : Prop where
  block : 6 * compact.shortIds.length + 32 * compact.prefilledTxs.length ≤ addressSpace
  prefilled : ∀ prefilled ∈ compact.prefilledTxs, prefilled.txData.length ≤ isizeMax
  mempool : ∀ wtxid tx, mempool.txData wtxid = some tx → tx.length ≤ isizeMax

/-! ## The code as it runs -/

namespace Run

open Outcome

def fillPrefilled (total : Nat) : (offset : Nat) → (slots : List (Option (List UInt8))) →
    List PrefilledTx → Outcome String (List (Option (List UInt8)))
  | _, slots, [] => .ok slots
  | offset, slots, prefilled :: rest => do
    let position ← add offset prefilled.index.toNat
    if position < total then
      let slot ← index slots position
      if slot.isSome then .err s!"duplicate prefilled position {position}"
      else
        let next ← add position 1
        fillPrefilled total next (slots.set position (some prefilled.txData)) rest
    else .err s!"prefilled index {position} out of bounds for {total} txs"

/-- `prefilled_positions`, for the log. -/
def prefilledPositions {ε : Type} : (offset : Nat) → List PrefilledTx → Outcome ε (List Nat)
  | _, [] => .ok []
  | offset, prefilled :: rest => do
    let position ← add offset prefilled.index.toNat
    let next ← add position 1
    let positions ← prefilledPositions next rest
    pure (position :: positions)

section Code

variable (hashes : Hashes) (reader : TxReader)

/-- The level above, and the copy of the last node. -/
def merkleLevel {ε : Type} (level : List Bytes32) : Outcome ε (List Bytes32) := do
  let padded ← if level.length % 2 = 1 then do
      let last ← index level (level.length - 1)
      pure (level ++ [last])
    else pure level
  allocate (padded.length / 2) 32
  pure ((Merkle.chunks padded).map fun p => node hashes p.1 p.2)

def merkleLevels {ε : Type} : Nat → List Bytes32 → Outcome ε (List Bytes32)
  | 0, level => .ok level
  | fuel + 1, level =>
    if 1 < level.length then do
      let next ← merkleLevel hashes level
      merkleLevels fuel next
    else .ok level

def merkleRoot {ε : Type} (txids : List Bytes32) : Outcome ε (Option Bytes32) :=
  if txids = [] then .ok none
  else do
    let level ← merkleLevels hashes txids.length txids
    let root ← index level 0
    pure (some root)

def checkTxids (header : List UInt8) (txids : List Bytes32) : Outcome BlockBodyError Unit :=
  match firstRepeatedTxid txids with
  | some index => .err (.duplicateTxid index)
  | none => do
    let root ← merkleRoot hashes txids
    if root = none ∨ root ≠ headerMerkleRoot header then .err .merkleMismatch else .ok ()

def readSlices (index bytes : Nat) : List (List UInt8) → Outcome BlockBodyError (List Bytes32)
  | [] => .ok []
  | slice :: rest => do
    let bytes ← add bytes slice.length
    if maxBlockBytes < bytes then .err (.tooLarge bytes)
    else match reader.read slice with
      | none => .err (.transaction index)
      | some tx =>
        if tx.position ≠ slice.length then .err (.transactionBoundary index)
        else do
          let txids ← readSlices (index + 1) bytes rest
          pure (tx.txid :: txids)

def validateBlockTransactions (header : List UInt8) (transactions : List (List UInt8)) :
    Outcome BlockBodyError Nat :=
  if header.length ≠ zcashFullHeaderSize then .err .invalidHeaderLength
  else if transactions = [] then .err .emptyTransactions
  else do
    let bytes ← add header.length (compactSizeSerializedSize transactions.length)
    allocate transactions.length 32
    let txids ← readSlices reader 0 bytes transactions
    checkTxids hashes header txids
    pure txids.length

/-- `log_invalid_assembly`, without the texts. -/
def logInvalidAssembly {ε : Type} (compact : CompactBlock) (filled : List (List UInt8)) :
    BlockBodyError → Outcome ε Unit
  | .merkleMismatch => do
    allocate compact.prefilledTxs.length 8
    let _ ← prefilledPositions 0 compact.prefilledTxs
    let _ ← merkleRoot hashes (filled.map (txidFromTxBytes hashes reader))
    pure ()
  | _ => do
    allocate compact.prefilledTxs.length 8
    let _ ← prefilledPositions 0 compact.prefilledTxs
    pure ()

def assemble (compact : CompactBlock) (r : Resolved) :
    Outcome ReconstructionResult ReconstructionResult :=
  if r.slots.all Option.isSome then do
    let filled ← unwrapAll r.slots
    match validateBlockTransactions hashes reader compact.header filled with
    | .panic => .panic
    | .err error => do
      logInvalidAssembly hashes reader compact filled error
      .err (.invalidBody error)
    | .ok _ => .ok (.complete filled)
  else .ok (.incomplete r.slots r.missingWtxids r.unresolvedShortIds)

def reconstruct (mempool : Mempool) (map : Table ShortId (Option WtxId))
    (compact : CompactBlock) : Option ReconstructionResult :=
  returned do
    let total ← add compact.shortIds.length compact.prefilledTxs.length
    allocate total 24
    let slots ← (fillPrefilled total 0 (List.replicate total none) compact.prefilledTxs).mapErr
      .invalid
    let r ← (ofExcept (resolveSlots mempool map slots compact.shortIds)).mapErr .invalid
    failIf (r.leftOver ≠ []) (.invalid "too many short IDs for available slots")
    assemble hashes reader compact r

end Code

/-! ## It returns what `reconstruct` returns -/

variable {prefilled : List PrefilledTx} {ε : Type} {txids : List Bytes32}
  {slices : List (List UInt8)} {compact : CompactBlock}

theorem fillPrefilled_eq {total : Nat} (htotal : total + 65536 < UInt64.size) :
    ∀ {offset : Nat} {slots : List (Option (List UInt8))}, slots.length = total →
      offset ≤ total →
      fillPrefilled total offset slots prefilled =
        ofExcept (Relay.fillPrefilled total offset slots prefilled) := by
  induction prefilled with
  | nil => exact fun _ _ => rfl
  | cons tx prefilled ih =>
    intro offset slots hlen hle
    have hindex : tx.index.toNat < 65536 := tx.index.toNat_lt
    rw [fillPrefilled, Relay.fillPrefilled, add_eq_ok (by omega), ok_bind]
    by_cases hlt : offset + tx.index.toNat < total
    · have hslot : offset + tx.index.toNat < slots.length := hlen ▸ hlt
      rw [if_pos hlt, if_pos hlt, index_eq_ok hslot, ok_bind, List.getD_eq_getElem _ _ hslot]
      split
      · rfl
      · rw [add_eq_ok (by omega), ok_bind]
        exact ih (by rw [List.length_set, hlen]) hlt
    · rw [if_neg hlt, if_neg hlt]
      rfl

theorem prefilledPositions_eq :
    ∀ {offset total : Nat}, total < UInt64.size →
      (∀ position ∈ positionsFrom offset (prefilled.map fun p => p.index.toNat),
        position < total) →
      (prefilledPositions offset prefilled : Outcome ε (List Nat)) =
        .ok (positionsFrom offset (prefilled.map fun p => p.index.toNat)) := by
  induction prefilled with
  | nil => exact fun _ _ => rfl
  | cons tx prefilled ih =>
    intro offset total htotal hlt
    have hposition : offset + tx.index.toNat < total := hlt _ List.mem_cons_self
    rw [prefilledPositions, add_eq_ok (by omega), ok_bind, add_eq_ok (by omega), ok_bind,
      ih htotal fun position hmem => hlt position (List.mem_cons_of_mem _ hmem)]
    rfl

variable (hashes : Hashes) (reader : TxReader)

theorem merkleLevel_eq {level : List Bytes32} (hlevel : level.length ≤ isizeMax / 32) :
    (merkleLevel hashes level : Outcome ε (List Bytes32)) =
      .ok (Merkle.chunkLevel (node hashes) level) := by
  rw [merkleLevel, Merkle.chunkLevel]
  split
  · rename_i hodd
    have hlast : level.length - 1 < level.length := by omega
    have hgetLast : level.getLast?.toList = [level[level.length - 1]] := by
      rw [List.getLast?_eq_getElem?, List.getElem?_eq_getElem hlast]
      rfl
    have hroom : (level ++ [level[level.length - 1]]).length / 2 * 32 ≤ isizeMax := by
      rw [List.length_append, List.length_singleton]
      omega
    rw [index_eq_ok hlast, hgetLast]
    change allocate _ _ >>= _ = _
    rw [allocate_eq_ok hroom]
    rfl
  · have hroom : level.length / 2 * 32 ≤ isizeMax := by omega
    change allocate _ _ >>= _ = _
    rw [allocate_eq_ok hroom]
    rfl

theorem merkleLevels_eq : ∀ (fuel : Nat) {level : List Bytes32}, level.length ≤ isizeMax / 32 →
      (merkleLevels hashes fuel level : Outcome ε (List Bytes32)) =
        .ok (Merkle.collapse (Merkle.chunkLevel (node hashes)) fuel level) := by
  intro fuel
  induction fuel with
  | zero => exact fun _ => rfl
  | succ fuel ih =>
    intro level hlevel
    rw [merkleLevels, Merkle.collapse]
    split
    · rename_i hmore
      have hnext : (Merkle.chunkLevel (node hashes) level).length ≤ isizeMax / 32 := by
        rw [Merkle.chunkLevel_eq, Merkle.length_pairUp]
        omega
      rw [merkleLevel_eq hashes hlevel, ok_bind, ih hnext]
    · rfl

theorem merkleRoot_eq (htxids : txids.length ≤ isizeMax / 32) :
    (merkleRoot hashes txids : Outcome ε (Option Bytes32)) =
      .ok (Relay.merkleRoot hashes txids) := by
  rw [merkleRoot]
  split
  · rename_i hnil
    rw [hnil]
    rfl
  · rename_i hne
    have hroot : (Relay.merkleRoot hashes txids).isSome := by
      rw [Option.isSome_iff_ne_none]
      exact fun hnone => hne (merkleRoot_eq_none.mp hnone)
    rw [Relay.merkleRoot, if_neg hne] at hroot ⊢
    rw [merkleLevels_eq hashes _ htxids, ok_bind]
    -- the last level is not empty
    generalize Merkle.collapse _ _ _ = level at hroot ⊢
    cases level with
    | nil => cases hroot
    | cons root rest => rfl

theorem checkTxids_eq (header : List UInt8) (htxids : txids.length ≤ isizeMax / 32) :
    checkTxids hashes header txids = ofExcept (Relay.checkTxids hashes header txids) := by
  rw [checkTxids, Relay.checkTxids]
  cases firstRepeatedTxid txids with
  | some index => rfl
  | none =>
    dsimp only
    rw [merkleRoot_eq hashes htxids, ok_bind]
    split
    · rfl
    · rfl

theorem readSlices_eq : ∀ {index bytes : Nat}, bytes ≤ maxBlockBytes →
      (∀ slice ∈ slices, slice.length ≤ isizeMax) →
      readSlices reader index bytes slices =
        ofExcept (Relay.readSlices reader index bytes slices) := by
  induction slices with
  | nil => exact fun _ _ => rfl
  | cons slice slices ih =>
    intro index bytes hbytes hslices
    have hslice : slice.length ≤ isizeMax := hslices slice List.mem_cons_self
    have hadd : bytes + slice.length < UInt64.size := by
      have hmax : maxBlockBytes + isizeMax < UInt64.size := by decide
      omega
    rw [readSlices, Relay.readSlices, add_eq_ok hadd, ok_bind]
    split
    · rfl
    · rename_i hle
      cases reader.read slice with
      | none => rfl
      | some tx =>
        dsimp only
        split
        · rfl
        · rw [ih (by omega) fun s hs => hslices s (List.mem_cons_of_mem _ hs)]
          cases Relay.readSlices reader (index + 1) (bytes + slice.length) slices with
          | error e => rfl
          | ok txids => rfl

theorem validateBlockTransactions_eq (header : List UInt8) (hcount : slices.length ≤ isizeMax / 32)
    (hslices : ∀ slice ∈ slices, slice.length ≤ isizeMax) :
    validateBlockTransactions hashes reader header slices =
      ofExcept (Relay.validateBlockTransactions hashes reader header slices) := by
  rw [validateBlockTransactions, Relay.validateBlockTransactions]
  split
  · rfl
  · rename_i hheader
    split
    · rfl
    · have hbytes := bytes_le_maxBlockBytes (not_not.mp hheader) slices.length
      have hadd : header.length + compactSizeSerializedSize slices.length < UInt64.size :=
        Nat.lt_of_le_of_lt hbytes (by decide)
      have hroom : slices.length * 32 ≤ isizeMax :=
        Nat.le_trans (Nat.mul_le_mul_right 32 hcount) (Nat.div_mul_le_self _ _)
      rw [add_eq_ok hadd, ok_bind, allocate_eq_ok hroom, ok_bind,
        readSlices_eq reader hbytes hslices]
      change _ = ofExcept (Relay.readSlices reader 0 _ slices >>= fun txids =>
        Relay.checkTxids hashes header txids >>= fun _ => pure txids.length)
      rw [ofExcept_bind]
      cases hread : Relay.readSlices reader 0 _ slices with
      | error e => rfl
      | ok txids =>
        have hlen : txids.length = slices.length :=
          ((readSlices_eq_ok hbytes).mp hread).1.length_eq.symm
        change checkTxids hashes header txids >>= _ = ofExcept (_ >>= _)
        rw [checkTxids_eq hashes header (hlen ▸ hcount), ofExcept_bind]
        rfl

theorem logInvalidAssembly_eq {filled : List (List UInt8)}
    (hprefilled : compact.prefilledTxs.length * 8 ≤ isizeMax)
    (hcount : filled.length ≤ isizeMax / 32)
    (hpositions : ∀ position ∈ Relay.prefilledPositions compact, position < filled.length)
    (error : BlockBodyError) :
    (logInvalidAssembly hashes reader compact filled error : Outcome ε Unit) = .ok () := by
  have hsize : filled.length < UInt64.size := Nat.lt_of_le_of_lt hcount (by decide)
  have hrun : ∀ f : List Nat → Outcome ε Unit,
      (allocate compact.prefilledTxs.length 8 >>= fun _ =>
        prefilledPositions 0 compact.prefilledTxs >>= f) = f (Relay.prefilledPositions compact) := by
    intro f
    rw [allocate_eq_ok hprefilled, ok_bind, prefilledPositions_eq hsize hpositions]
    rfl
  cases error with
  | merkleMismatch =>
    rw [logInvalidAssembly, hrun, merkleRoot_eq hashes (by rwa [List.length_map])]
    rfl
  | _ => exact hrun _

theorem assemble_eq {r : Resolved} (hprefilled : compact.prefilledTxs.length * 8 ≤ isizeMax)
    (hcount : r.slots.length ≤ isizeMax / 32)
    (hpositions : ∀ position ∈ Relay.prefilledPositions compact, position < r.slots.length)
    (hdata : ∀ tx, some tx ∈ r.slots → tx.length ≤ isizeMax) :
    (assemble hashes reader compact r).returned =
      some (Relay.assemble hashes reader compact.header r) := by
  rw [assemble, Relay.assemble]
  split
  · rename_i hall
    have hlen : (r.slots.filterMap id).length = r.slots.length := by
      rw [List.length_filterMap_eq_countP, List.countP_eq_length]
      exact fun slot hmem => List.all_eq_true.mp hall slot hmem
    have hslices : ∀ slice ∈ r.slots.filterMap id, slice.length ≤ isizeMax := by
      intro slice hmem
      obtain ⟨slot, hslot, rfl⟩ := List.mem_filterMap.mp hmem
      exact hdata slice hslot
    rw [unwrapAll_eq_ok hall, ok_bind,
      validateBlockTransactions_eq hashes reader compact.header (hlen ▸ hcount) hslices]
    dsimp only
    cases Relay.validateBlockTransactions hashes reader compact.header (r.slots.filterMap id) with
    | ok count => rfl
    | error error =>
      change (logInvalidAssembly hashes reader compact _ error >>= _).returned = _
      rw [logInvalidAssembly_eq hashes reader hprefilled (hlen ▸ hcount) (hlen ▸ hpositions)]
      rfl
  · rfl

end Run

/-- **The reconstructor does not panic.** -/
theorem reconstruct_returns (hashes : Hashes) (reader : TxReader) {mempool : Mempool}
    (map : Table ShortId (Option WtxId)) {compact : CompactBlock}
    (hfits : InMemory mempool compact) :
    Run.reconstruct hashes reader mempool map compact =
      some (reconstruct hashes reader mempool map compact) := by
  have hblock := hfits.block
  have hmax : addressSpace * 6 + 65536 ≤ isizeMax := by decide
  have hsize : isizeMax < UInt64.size := by decide
  have htotal : compact.shortIds.length + compact.prefilledTxs.length = compact.txCount := rfl
  have hcount : compact.txCount ≤ isizeMax / 32 := by omega
  rw [Run.reconstruct, Outcome.add_eq_ok (by omega), Outcome.ok_bind, htotal,
    Outcome.allocate_eq_ok (by omega), Outcome.ok_bind,
    Run.fillPrefilled_eq (by omega) List.length_replicate (Nat.zero_le _), reconstruct]
  cases hfill : fillPrefilled compact.txCount 0 (List.replicate compact.txCount none)
      compact.prefilledTxs with
  | error reason => rfl
  | ok slots =>
    dsimp only
    obtain ⟨hslots, hpositions, -⟩ := fillPrefilled_start hfill
    have hprefilled : ∀ tx, some tx ∈ slots → tx.length ≤ isizeMax :=
      fillPrefilled_data hfits.prefilled (fun tx hmem => by simp at hmem) hfill
    change Outcome.returned (Outcome.mapErr _ (Outcome.ofExcept
      (resolveSlots mempool map slots compact.shortIds)) >>= _) = _
    cases hresolve : resolveSlots mempool map slots compact.shortIds with
    | error reason => rfl
    | ok r =>
      obtain ⟨hlen, -, -, -⟩ := resolveSlots_spec 0 hresolve
      have hdata : ∀ tx, some tx ∈ r.slots → tx.length ≤ isizeMax :=
        resolveSlots_data hfits.mempool hprefilled hresolve
      have hlength : r.slots.length = compact.txCount := hlen.trans hslots
      change Outcome.returned (Outcome.failIf _ _ >>= _) = _
      rw [Outcome.failIf]
      dsimp only
      split
      · rfl
      · rw [Outcome.ok_bind]
        exact Run.assemble_eq hashes reader (by omega) (hlength ▸ hcount)
          (hlength ▸ hpositions) hdata

end MiningInfra.Relay
