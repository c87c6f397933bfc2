import MiningInfra.Relay.Panics
import MiningInfra.Sidecar.Candidate

/-!
# Requests for missing transactions

A compact block that could not be filled is followed by a request for the positions that are
still empty. The request has the gaps between the positions, each in 16 bits.
-/

namespace MiningInfra.Sidecar

open Lib Coinbase Relay

/-- The positions a request asks for. The indexes are decoded as those of prefilled
transactions. -/
def requestedPositions (request : GetBlockTxn) : List Nat :=
  positionsFrom 0 (request.indexes.map UInt16.toNat)

/-- The free positions whose short id does not resolve. -/
def unfilledPositions (sip : SipHash) (mempool : Mempool) (headerHash : Bytes32) (nonce : UInt64)
    (compact : CompactBlock) : List Nat :=
  (((freePositions compact).zip compact.shortIds).filter fun slot =>
    (resolution sip mempool headerHash nonce slot.2).isNone).map Prod.fst

/-! ## The gaps -/

variable {positions : List Nat}

theorem positionsFrom_differentialIndexes : ∀ {prev : Nat} {indexes : List UInt16},
      differentialIndexes prev positions = .ok indexes →
      positionsFrom prev (indexes.map UInt16.toNat) = positions := by
  induction positions with
  | nil =>
    intro prev indexes h
    obtain rfl := Except.ok.inj h
    rfl
  | cons position rest ih =>
    intro prev indexes h
    rw [differentialIndexes] at h
    split at h
    · cases h
    · split at h
      · cases h
      · rename_i hle hgap
        obtain ⟨gaps, hgaps, rfl⟩ := Results.fmap_eq_ok.mp h
        have hindex : prev + (UInt16.ofNat (position - prev)).toNat = position := by
          rw [UInt16.toNat_ofNat_of_lt' (Nat.lt_of_le_of_lt (Nat.not_lt.mp hgap) (by decide))]
          omega
        rw [List.map_cons, positionsFrom, hindex, ih hgaps]

theorem exists_differentialIndexes :
    ∀ {prev : Nat}, Ascends prev positions → (∀ position ∈ positions, position ≤ 0xffff) →
      ∃ indexes, differentialIndexes prev positions = .ok indexes := by
  induction positions with
  | nil => exact fun _ _ => ⟨[], rfl⟩
  | cons position rest ih =>
    intro prev hascends hle
    have hposition : position ≤ 0xffff := hle position List.mem_cons_self
    obtain ⟨gaps, hgaps⟩ := ih hascends.2 fun p hp => hle p (List.mem_cons_of_mem _ hp)
    refine ⟨UInt16.ofNat (position - prev) :: gaps, ?_⟩
    rw [differentialIndexes, if_neg (Nat.not_lt.mpr hascends.1), if_neg (by omega), hgaps]
    rfl

theorem missingIndexes_eq (slots : List (Option (List UInt8))) :
    missingIndexes slots = emptyFrom 0 slots :=
  (emptyFrom_zero slots).symm

/-- A request asks for the positions it was built from. -/
theorem requestedPositions_fromMissingIndexes {blockHash : Bytes32} {missing : List Nat}
    {request : GetBlockTxn} (h : GetBlockTxn.fromMissingIndexes blockHash missing = .ok request) :
    requestedPositions request = missing := by
  obtain ⟨indexes, hindexes, rfl⟩ := Results.map_eq_ok.mp h
  exact positionsFrom_differentialIndexes hindexes

/-- With at most 65536 slots the gaps fit. -/
theorem exists_request {slots : List (Option (List UInt8))} (h : slots.length ≤ 0x10000)
    (blockHash : Bytes32) :
    ∃ request, GetBlockTxn.fromMissingIndexes blockHash (missingIndexes slots) = .ok request := by
  have hle : ∀ position ∈ missingIndexes slots, position ≤ 0xffff := by
    intro position hmem
    have hlt := List.mem_range.mp (List.mem_of_mem_filter hmem)
    omega
  rw [missingIndexes_eq] at hle ⊢
  obtain ⟨indexes, hindexes⟩ := exists_differentialIndexes (ascends_emptyFrom 0 slots) hle
  exact ⟨⟨blockHash, indexes⟩, Results.map_eq_ok.mpr ⟨indexes, hindexes, rfl⟩⟩

/-! ## Whatever the block says -/

/-- **Every reconstruction is accounted for.** The reconstructor returns for every compact block
and mempool. A complete block passed the check of its body with the list that is returned. The
empty slots of an incomplete one are the free positions whose short id has not exactly one wtxid
in the mempool with its transaction; there are as many as missing and unresolved entries; and a
request for them decodes to the same positions. -/
theorem reconstruct_accounted (hashes : Hashes) (reader : TxReader) (sip : SipHash)
    (mempool : Mempool) (headerHash : Bytes32) (nonce : UInt64) (compact : CompactBlock)
    (hfits : InMemory mempool compact) :
    let map := prepare sip mempool headerHash nonce
    ∃ result, Run.reconstruct hashes reader mempool map compact = some result ∧
      result = reconstruct hashes reader mempool map compact ∧
      (∀ txs, result = .complete txs →
        ∃ count, validateBlockTransactions hashes reader compact.header txs = .ok count) ∧
      ∀ slots missing unresolved, result = .incomplete slots missing unresolved →
        (freePositions compact).length = compact.shortIds.length ∧
        missingIndexes slots = unfilledPositions sip mempool headerHash nonce compact ∧
        (missingIndexes slots).length = missing.length + unresolved.length ∧
        (∀ blockHash request,
          GetBlockTxn.fromMissingIndexes blockHash (missingIndexes slots) = .ok request →
          requestedPositions request = missingIndexes slots) ∧
        (compact.txCount ≤ 0x10000 → ∀ blockHash, ∃ request,
          GetBlockTxn.fromMissingIndexes blockHash (missingIndexes slots) = .ok request) := by
  intro map
  refine ⟨_, reconstruct_returns hashes reader map hfits, rfl,
    fun txs h => reconstruct_complete h, ?_⟩
  intro slots missing unresolved h
  obtain ⟨hlen, hids, hempty, hcount⟩ := reconstruct_incomplete h
  rw [← missingIndexes_eq] at hempty hcount
  refine ⟨hids, ?_, hcount, fun blockHash request => requestedPositions_fromMissingIndexes,
    fun hle => exists_request (hlen ▸ hle)⟩
  rw [hempty, unfilledPositions]
  simp only [map, resolveWith_prepare]

/-- A block of two transactions: the second is there, the first only by a short id. -/
def holeBlock : CompactBlock := ⟨[], 0, [fun _ => 7], [⟨1, [1]⟩]⟩

theorem hole_accounted :
    let mempool : Mempool := ⟨[], fun _ => none⟩
    Run.reconstruct threeHashes byteReader mempool
        (prepare (fun _ _ _ => 0) mempool (fun _ => 0) 0) holeBlock =
      some (.incomplete [none, some [1]] [] [fun _ => 7]) ∧
    unfilledPositions (fun _ _ _ => 0) mempool (fun _ => 0) 0 holeBlock = [0] ∧
    ∃ request, GetBlockTxn.fromMissingIndexes (fun _ => 0) [0] = .ok request ∧
      requestedPositions request = [0] := by
  intro mempool
  have hfits : InMemory mempool holeBlock := by
    refine ⟨by decide, fun prefilled hmem => ?_, fun _ _ h => absurd h (by simp [mempool])⟩
    rw [List.mem_singleton.mp hmem]
    decide
  obtain ⟨result, hrun, hresult, -, hincomplete⟩ :=
    reconstruct_accounted threeHashes byteReader (fun _ _ _ => 0) mempool (fun _ => 0) 0 holeBlock
      hfits
  have hslots : result = .incomplete [none, some [1]] [] [fun _ => 7] := hresult.trans rfl
  obtain ⟨-, hunfilled, -, hrequest, hbuilt⟩ := hincomplete _ _ _ hslots
  obtain ⟨request, hrequest'⟩ := hbuilt (by decide) (fun _ => 0)
  exact ⟨hslots ▸ hrun, hunfilled.symm, request, hrequest', hrequest _ _ hrequest'⟩

end MiningInfra.Sidecar
