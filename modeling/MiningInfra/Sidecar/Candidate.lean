import MiningInfra.Relay.Compact

/-!
# Submission candidates

What the sidecar builds from a relayed block before anything is sent to Zebra: a compact block
whose transactions are all there or can be found in the mempool, or a raw block. Every candidate
but one passed the check of the body; the exception is the bypass for a body the sidecar could
not read, which asks for a proof of work instead.
-/

namespace MiningInfra.Sidecar

open Coinbase Relay

def hexDigits : List Char :=
  ['0', '1', '2', '3', '4', '5', '6', '7', '8', '9', 'a', 'b', 'c', 'd', 'e', 'f']

def hexDigit (n : Nat) : Char := hexDigits.getD n '0'

/-- `hex::encode`. -/
def hexEncode (bs : List UInt8) : String :=
  String.ofList (bs.flatMap fun b => [hexDigit (b.toNat / 16), hexDigit (b.toNat % 16)])

/-- The hash Zebra knows the block by, as it displays it. -/
def consensusBlockHashDisplay (hashes : Hashes) (header : List UInt8) : String :=
  hexEncode (consensusBlockHash hashes header).toList.reverse

structure SubmissionCandidate where
  /-- The object id of the relay, not the consensus hash. -/
  blockHash : String
  consensusBlockHash : String
  blockHex : String
  txCount : Nat
  blockBytes : Nat
  /-- Why the body could not be read, if it goes to Zebra anyway. -/
  unverified : Option BlockBodyError
  deriving DecidableEq, Repr

/-- How a rejection by Zebra should be read. -/
inductive SubmitRejectionClass where
  | raceLost
  | invalid
  | unknown
  deriving DecidableEq, Repr

def SubmitRejectionClass.fromBlockKnown : Option Bool → SubmitRejectionClass
  | some true => .raceLost
  | some false => .invalid
  | none => .unknown

inductive RelayBlockError where
  | emptyTransactions
  | missingTransactions (shortIds : Nat)
  | reconstructionIncomplete (blockHash : Bytes32) (missingIndexes : List Nat)
      (missingWtxids : List WtxId) (unresolvedShortIds : List ShortId)
  | reconstructionInvalid (reason : String)
  | nonContiguousPrefilledTx (expected actual : UInt16)
  | tooManyTransactions (count : Nat)
  | rawBlockTooShort (bytes : Nat)
  | rawBlockHashMismatch
  | invalidBlockBody (error : BlockBodyError)
  | submitFailed (error : String)
  | submitRejected (reason : String) (rejection : SubmitRejectionClass)
  deriving DecidableEq

/-- `build_submission_candidate`'s pass over the prefilled indexes: each must come right after
the one before. `count` is the number of transactions, for the error. -/
def checkContiguous (count : Nat) : (expected next : Nat) → List PrefilledTx →
    Except RelayBlockError Unit
  | _, _, [] => .ok ()
  | expected, next, tx :: rest =>
    let position := next + tx.index.toNat
    if 0xffff < expected ∨ 0xffff < position then .error (.tooManyTransactions count)
    else if position ≠ expected then
      .error (.nonContiguousPrefilledTx (UInt16.ofNat expected) (UInt16.ofNat position))
    else checkContiguous count (expected + 1) (position + 1) rest

/-- A header, the number of transactions and the transactions. -/
def serializeBlock (header : List UInt8) (transactions : List (List UInt8)) : List UInt8 :=
  header ++ pushCompactSize (UInt64.ofNat transactions.length) ++ transactions.flatten

section Code

variable (hashes : Hashes) (reader : TxReader) (sip : SipHash)

/-- The candidate of a block that is complete. -/
def candidateOf (header block : List UInt8) (txCount : Nat) (unverified : Option BlockBodyError) :
    SubmissionCandidate where
  blockHash := hexEncode (zcashBlockHash hashes header).toList
  consensusBlockHash := consensusBlockHashDisplay hashes header
  blockHex := hexEncode block
  txCount
  blockBytes := block.length
  unverified

def buildSubmissionCandidate (compact : CompactBlock) :
    Except RelayBlockError SubmissionCandidate :=
  if compact.shortIds ≠ [] then .error (.missingTransactions compact.shortIds.length)
  else if compact.prefilledTxs = [] then .error .emptyTransactions
  else do
    checkContiguous compact.prefilledTxs.length 0 0 compact.prefilledTxs
    let transactions := compact.prefilledTxs.map PrefilledTx.txData
    match validateBlockTransactions hashes reader compact.header transactions with
    | .error error => .error (.invalidBlockBody error)
    | .ok txCount =>
      .ok (candidateOf hashes compact.header (serializeBlock compact.header transactions)
        txCount none)

def buildSubmissionCandidateFromTransactions (header : List UInt8)
    (transactions : List (List UInt8)) : Except RelayBlockError SubmissionCandidate :=
  if transactions = [] then .error .emptyTransactions
  else .ok (candidateOf hashes header (serializeBlock header transactions) transactions.length none)

/-- The positions that are still empty. -/
def missingIndexes (slots : List (Option (List UInt8))) : List Nat :=
  (List.range slots.length).filter fun i => (slots.getD i none).isNone

def buildSubmissionCandidateWithMempool (mempool : Mempool) (compact : CompactBlock) :
    Except RelayBlockError SubmissionCandidate :=
  if compact.shortIds = [] then buildSubmissionCandidate hashes reader compact
  else
    let headerHash := zcashBlockHash hashes compact.header
    let map := prepare sip mempool headerHash compact.nonce
    match reconstruct hashes reader mempool map compact with
    | .complete transactions =>
      buildSubmissionCandidateFromTransactions hashes compact.header transactions
    | .incomplete slots missingWtxids unresolvedShortIds =>
      .error (.reconstructionIncomplete headerHash (missingIndexes slots) missingWtxids
        unresolvedShortIds)
    | .invalid reason => .error (.reconstructionInvalid reason)
    | .invalidBody error => .error (.invalidBlockBody error)

def buildRawBlockSubmissionCandidate (rawBlock : List UInt8) (expected : Option Bytes32) :
    Except RelayBlockError SubmissionCandidate :=
  if rawBlock.length < zcashFullHeaderSize then .error (.rawBlockTooShort rawBlock.length)
  else
    let header := rawBlock.take zcashFullHeaderSize
    if expected.any (· ≠ zcashBlockHash hashes header) then .error .rawBlockHashMismatch
    else match validateBlockBody hashes reader rawBlock with
      | .error error => .error (.invalidBlockBody error)
      | .ok txCount => .ok (candidateOf hashes header rawBlock txCount none)

def rawBlockHeader (rawBlock : List UInt8) : Except RelayBlockError (List UInt8) :=
  if rawBlock.length < zcashFullHeaderSize then
    .error (.reconstructionInvalid
      s!"raw block shorter than the {zcashFullHeaderSize} byte header prefix")
  else .ok (rawBlock.take zcashFullHeaderSize)

/-- A body that could not be read. Its header has to show a proof of work. -/
def unverifiedRawCandidate (pow : PowValidator) (rawBlock : List UInt8) (error : BlockBodyError) :
    Except RelayBlockError SubmissionCandidate := do
  let header ← rawBlockHeader rawBlock
  if pow header ≠ .valid then .error (.invalidBlockBody error)
  else pure (candidateOf hashes header rawBlock 0 (some error))

end Code

end MiningInfra.Sidecar
