import MiningInfra.Relay.Body

/-!
# Compact blocks

A compact block names most of its transactions by short ids, which the receiver resolves
against its mempool. Short ids can collide, so a reconstruction that filled every slot still
has to pass the check of the body against the header.
-/

namespace MiningInfra.Relay

open Lib Coinbase

/-- `b"ZcashBlockHash\0\0"`. -/
def blockHashPersonalization : List UInt8 :=
  [0x5a, 0x63, 0x61, 0x73, 0x68, 0x42, 0x6c, 0x6f, 0x63, 0x6b, 0x48, 0x61, 0x73, 0x68, 0, 0]

/-- The object id of a block. Despite its name it is not the consensus hash. -/
def zcashBlockHash (hashes : Hashes) (header : List UInt8) : Bytes32 :=
  hashes.blake2b blockHashPersonalization header

def consensusBlockHash (hashes : Hashes) (header : List UInt8) : Bytes32 := hashes.sha256d header

/-- A txid with the digest of the authorizing data. -/
structure WtxId where
  txid : Bytes32
  authDigest : Bytes32
  deriving DecidableEq

def WtxId.toBytes (w : WtxId) : List UInt8 := w.txid.toList ++ w.authDigest.toList

abbrev ShortId := Fin 6 → UInt8

/-- `SipHasher24::new_with_keys(k0, k1)` with one `write`. -/
abbrev SipHash := UInt64 → UInt64 → List UInt8 → UInt64

/-- A little-endian `u64` of eight bytes of the hash. -/
def keyWord (hash : Bytes32) (start : Nat) : UInt64 :=
  UInt64.ofNat (leNat ((hash.toList.drop start).take 8))

def ShortId.compute (sip : SipHash) (wtxid : WtxId) (headerHash : Bytes32) (nonce : UInt64) :
    ShortId :=
  let k0 := keyWord headerHash 0
  let k1 := keyWord headerHash 8 ^^^ nonce
  let hash := u64Bytes (sip k0 k1 wtxid.toBytes)
  fun i => hash.getD i 0

structure PrefilledTx where
  index : UInt16
  txData : List UInt8
  deriving DecidableEq, Repr

structure CompactBlock where
  header : List UInt8
  nonce : UInt64
  shortIds : List ShortId
  prefilledTxs : List PrefilledTx
  deriving DecidableEq

def CompactBlock.txCount (c : CompactBlock) : Nat := c.shortIds.length + c.prefilledTxs.length

/-- A `MempoolProvider`. The two calls need not agree: a transaction can leave in between. -/
structure Mempool where
  wtxids : List WtxId
  txData : WtxId → Option (List UInt8)

/-! ## Reconstruction -/

inductive ReconstructionResult where
  | complete (transactions : List (List UInt8))
  | invalid (reason : String)
  | invalidBody (error : BlockBodyError)
  | incomplete (filled : List (Option (List UInt8))) (missingWtxids : List WtxId)
      (unresolvedShortIds : List ShortId)
  deriving DecidableEq

/-- `prepare`: the wtxid of each short id, or none where two wtxids share it. -/
def prepare (sip : SipHash) (mempool : Mempool) (headerHash : Bytes32) (nonce : UInt64) :
    Table ShortId (Option WtxId) :=
  mempool.wtxids.foldl (fun map wtxid =>
    let shortId := ShortId.compute sip wtxid headerHash nonce
    match map.lookup shortId with
    | some _ => map.insert shortId none
    | none => map.insert shortId (some wtxid)) ∅

/-- Put the prefilled transactions into their slots. Their indexes are the gaps between them. -/
def fillPrefilled (total : Nat) : (offset : Nat) → (slots : List (Option (List UInt8))) →
    List PrefilledTx → Except String (List (Option (List UInt8)))
  | _, slots, [] => .ok slots
  | offset, slots, prefilled :: rest =>
    let position := offset + prefilled.index.toNat
    if position < total then
      if (slots.getD position none).isSome then
        .error s!"duplicate prefilled position {position}"
      else fillPrefilled total (position + 1) (slots.set position (some prefilled.txData)) rest
    else .error s!"prefilled index {position} out of bounds for {total} txs"

/-- The slots after the short ids were resolved, what could not be, and the ids left over. -/
structure Resolved where
  slots : List (Option (List UInt8))
  missingWtxids : List WtxId
  unresolvedShortIds : List ShortId
  leftOver : List ShortId

/-- Resolve the next short id for every slot that is still empty. -/
def resolveSlots (mempool : Mempool) (map : Table ShortId (Option WtxId)) :
    List (Option (List UInt8)) → List ShortId → Except String Resolved
  | [], ids => .ok ⟨[], [], [], ids⟩
  | some tx :: slots, ids => do
    let r ← resolveSlots mempool map slots ids
    pure { r with slots := some tx :: r.slots }
  | none :: _, [] => .error "not enough short IDs for available slots"
  | none :: slots, shortId :: ids => do
    let r ← resolveSlots mempool map slots ids
    match map.lookup shortId with
    | some (some wtxid) =>
      match mempool.txData wtxid with
      | some tx => pure { r with slots := some tx :: r.slots }
      | none => pure { r with
          slots := none :: r.slots
          missingWtxids := wtxid :: r.missingWtxids }
    | _ => pure { r with
        slots := none :: r.slots
        unresolvedShortIds := shortId :: r.unresolvedShortIds }

section Code

variable (hashes : Hashes) (reader : TxReader) (mempool : Mempool)

/-- The block if every slot is filled and the body passes. -/
def assemble (header : List UInt8) (r : Resolved) : ReconstructionResult :=
  if r.slots.all Option.isSome then
    let filled := r.slots.filterMap id
    match validateBlockTransactions hashes reader header filled with
    | .error error => .invalidBody error
    | .ok _ => .complete filled
  else .incomplete r.slots r.missingWtxids r.unresolvedShortIds

def reconstruct (map : Table ShortId (Option WtxId)) (compact : CompactBlock) :
    ReconstructionResult :=
  let total := compact.txCount
  match fillPrefilled total 0 (List.replicate total none) compact.prefilledTxs with
  | .error reason => .invalid reason
  | .ok slots =>
    match resolveSlots mempool map slots compact.shortIds with
    | .error reason => .invalid reason
    | .ok r =>
      if r.leftOver ≠ [] then .invalid "too many short IDs for available slots"
      else assemble hashes reader compact.header r

end Code

/-! ## Requests for what is missing -/

inductive CompactBlockError where
  | indexOverflow (index : Nat)
  | invalidIndexOrder (prev current : Nat)
  deriving DecidableEq, Repr

/-- `getblocktxn`. -/
structure GetBlockTxn where
  blockHash : Bytes32
  indexes : List UInt16
  deriving DecidableEq

/-- Absolute indexes as gaps: `prev` is one beyond the index before. -/
def differentialIndexes : (prev : Nat) → List Nat → Except CompactBlockError (List UInt16)
  | _, [] => .ok []
  | prev, index :: rest =>
    if index < prev then .error (.invalidIndexOrder (prev - 1) index)
    else if 0xffff < index - prev then .error (.indexOverflow index)
    else (UInt16.ofNat (index - prev) :: ·) <$> differentialIndexes (index + 1) rest

def GetBlockTxn.fromMissingIndexes (blockHash : Bytes32) (missing : List Nat) :
    Except CompactBlockError GetBlockTxn :=
  (differentialIndexes 0 missing).map fun indexes => ⟨blockHash, indexes⟩

end MiningInfra.Relay
