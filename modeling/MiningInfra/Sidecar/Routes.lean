import MiningInfra.Lib.Hex
import MiningInfra.Relay.Reconstruct
import MiningInfra.Sidecar.Candidate

/-!
# Three routes to a candidate

A block comes to the sidecar as a compact block with all its transactions, as a compact block whose
transactions are partly found in the mempool, or as a raw block. The first two check the slices
they were given and join them; the third finds the slices in the bytes. Whatever the first two
build, the third builds from its bytes.
-/

namespace MiningInfra.Sidecar

open Lib Coinbase Relay

theorem value_hexDigit : ∀ n < 16, Hex.value (hexDigit n) = some n := by decide

/-- The text of a candidate is the text of its block. -/
theorem decode_hexEncode (bytes : List UInt8) : Hex.decode (hexEncode bytes) = some bytes := by
  rw [Hex.decode, hexEncode, String.toList_ofList]
  exact Hex.readPairs_flatMap value_hexDigit bytes

section Routes

variable {hashes : Hashes} {reader : TxReader} {sip : SipHash} {mempool : Mempool}
  {compact : CompactBlock} {candidate : SubmissionCandidate}

/-- A candidate built from slices that belong to the header. -/
def BuiltFrom (hashes : Hashes) (reader : TxReader) (header : List UInt8)
    (candidate : SubmissionCandidate) : Prop :=
  ∃ slices, WellCut hashes reader header slices ∧
    candidate = candidateOf hashes header (Relay.serializeBlock header slices) slices.length none

theorem builtFrom_of_buildSubmissionCandidate
    (h : buildSubmissionCandidate hashes reader compact = .ok candidate) :
    BuiltFrom hashes reader compact.header candidate := by
  unfold buildSubmissionCandidate at h
  split at h
  · cases h
  split at h
  · cases h
  obtain ⟨_, -, h⟩ := Results.bind_eq_ok.mp h
  dsimp only at h
  split at h
  · cases h
  · rename_i count hcount
    obtain ⟨rfl, hcut⟩ := validateBlockTransactions_eq_ok.mp hcount
    exact ⟨_, hcut, (Except.ok.inj h).symm⟩

theorem builtFrom_of_buildSubmissionCandidateWithMempool
    (h : buildSubmissionCandidateWithMempool hashes reader sip mempool compact = .ok candidate) :
    BuiltFrom hashes reader compact.header candidate := by
  unfold buildSubmissionCandidateWithMempool at h
  split at h
  · exact builtFrom_of_buildSubmissionCandidate h
  dsimp only at h
  split at h
  · rename_i transactions hcomplete
    obtain ⟨count, hcount⟩ := reconstruct_complete hcomplete
    obtain ⟨-, hcut⟩ := validateBlockTransactions_eq_ok.mp hcount
    rw [buildSubmissionCandidateFromTransactions, if_neg hcut.ne_nil] at h
    exact ⟨transactions, hcut, (Except.ok.inj h).symm⟩
  all_goals cases h

/-- A compact block with both its transactions. -/
def twoPrefilled : CompactBlock := ⟨twoHeader, 0, [], [⟨0, [1]⟩, ⟨0, [2]⟩]⟩

end Routes

end MiningInfra.Sidecar
