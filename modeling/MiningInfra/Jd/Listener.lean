import MiningInfra.Jd.Shares
import MiningInfra.Pool.Share

/-!
# The listener of the declaring client

The client serves its declared job to the proxy in front of the miners and judges the shares that
come back before it relays them: `handle_share` of a downstream session, with the job the client
holds at that moment, and the checks of `share_path`. The answer goes to the proxy; an accepted
share goes on to the session loop.
-/

namespace MiningInfra.Jd.Client

open Coinbase Equihash
open Pool (SubmitEquihashShare RejectReason ShareResult)

/-- A declared job as the listener serves it. The transactions it also holds are for the block. -/
structure CurrentDeclaredJob where
  jobId : UInt32
  version : UInt32
  prevHash : Bytes32
  merkleRoot : Bytes32
  blockCommitments : Bytes32
  time : UInt32
  bits : UInt32
  shareTarget : Bytes32

/-- What `handle_coinbase_only_job` publishes once the server has accepted the request. -/
def CurrentDeclaredJob.of (request : SetCustomMiningJob) (response : SetCustomMiningJobSuccess) :
    CurrentDeclaredJob where
  jobId := response.jobId
  version := request.version
  prevHash := request.prevHash
  merkleRoot := request.merkleRoot
  blockCommitments := request.blockCommitments
  time := request.time
  bits := request.bits
  shareTarget := response.shareTarget

/-! ## `share_path` -/

/-- `NONCE_2_LEN`. -/
def nonce2Len : Nat := 28

def reassembleNonce (nonce1 nonce2 : List UInt8) : Option Bytes32 :=
  if nonce2.length ≠ nonce2Len then none
  else if nonce1.length + nonce2.length ≠ 32 then none
  else some (toBytes32 (nonce1 ++ nonce2))

def CurrentDeclaredJob.buildHeader (job : CurrentDeclaredJob) (time : UInt32) (nonce : Bytes32) :
    List UInt8 :=
  headerBytes job.version job.prevHash job.merkleRoot job.blockCommitments time job.bits
    nonce.toList

/-- The bytes under the key of a share. -/
def dedupInput (nonce : Bytes32) (time : UInt32) (solution : List UInt8) : List UInt8 :=
  nonce.toList ++ u32Bytes time ++ solution.take 64

def shareDedupKey (hashes : Hashes) (nonce : Bytes32) (time : UInt32) (solution : List UInt8) :
    Bytes32 := hashes.sha256 (dedupInput nonce time solution)

inductive ShareOutcome where
  | accepted (nonce : Bytes32) (meetsBlockTarget : Bool)
  | rejected (reason : RejectReason)

def ShareOutcome.toShareResult : ShareOutcome → ShareResult
  | .accepted _ _ => .accepted
  | .rejected reason => .rejected reason

def verifyShare (v : EquihashValidator) (job : CurrentDeclaredJob) (time : UInt32)
    (nonce : Bytes32) (solution : List UInt8) : ShareOutcome :=
  match v.verifyShare (job.buildHeader time nonce) solution job.shareTarget with
  | .ok hash =>
    .accepted nonce (EquihashValidator.meetsTarget hash (compactToTarget job.bits))
  | .error .targetNotMet => .rejected .lowDifficulty
  | .error _ => .rejected .invalidSolution

/-! ## `handle_share` -/

structure RelayShare where
  jobId : UInt32
  share : JdShare
  deriving DecidableEq

/-- `MAX_SEEN_SHARES`. -/
def maxSeenShares : Nat := 10000

/-- A downstream session: the keys seen for the job it last judged a share for. -/
structure DownstreamSession where
  channelId : UInt32
  seenShares : List Bytes32
  lastJobId : Option UInt32

namespace DownstreamSession

def new (channelId : UInt32) : DownstreamSession := ⟨channelId, [], none⟩

def nonce1 (s : DownstreamSession) : List UInt8 := u32Bytes s.channelId

/-- The keys start over with every job. -/
def forJob (s : DownstreamSession) (jobId : UInt32) : DownstreamSession :=
  if s.lastJobId ≠ some jobId then { s with seenShares := [], lastJobId := some jobId } else s

/-- The answer to a share, and what is relayed: the share, and whether it is a block. -/
structure Verdict where
  result : ShareResult
  relay : Option (RelayShare × Bool)

def Verdict.reject (reason : RejectReason) : Verdict := ⟨.rejected reason, none⟩

/-- An accepted share is relayed under the job's version. -/
def Verdict.of (job : CurrentDeclaredJob) (share : SubmitEquihashShare) (outcome : ShareOutcome) :
    Verdict where
  result := outcome.toShareResult
  relay := match outcome with
    | .accepted nonce meetsBlockTarget =>
      some (⟨job.jobId, ⟨job.version, share.time, nonce, share.solution⟩⟩, meetsBlockTarget)
    | .rejected _ => none

/-- The checks of a share with a nonce: its key is registered before the verification. -/
def checkShare (v : EquihashValidator) (s : DownstreamSession) (job : CurrentDeclaredJob)
    (share : SubmitEquihashShare) (nonce : Bytes32) : DownstreamSession × Verdict :=
  let key := shareDedupKey v.hashes nonce share.time share.solution
  if key ∈ s.seenShares then (s, .reject .duplicate)
  else if maxSeenShares ≤ s.seenShares.length then (s, .reject .duplicate)
  else ({ s with seenShares := s.seenShares ++ [key] },
    .of job share (verifyShare v job share.time nonce share.solution))

def handleShare (v : EquihashValidator) (s : DownstreamSession)
    (current : Option CurrentDeclaredJob) (share : SubmitEquihashShare) :
    DownstreamSession × Verdict :=
  match current with
  | none => (s, .reject .staleJob)
  | some job =>
    if share.jobId ≠ job.jobId then (s, .reject .staleJob)
    else
      let s := s.forJob job.jobId
      match reassembleNonce s.nonce1 share.nonce2 with
      | none => (s, .reject (.other "bad nonce_2 length"))
      | some nonce => s.checkShare v job share nonce

end DownstreamSession

/-! ## What an answer says -/

namespace DownstreamSession

variable {v : EquihashValidator} {s : DownstreamSession} {current : Option CurrentDeclaredJob}
  {share : SubmitEquihashShare}

@[simp] theorem Verdict.result_of (job : CurrentDeclaredJob) (share : SubmitEquihashShare)
    (outcome : ShareOutcome) : (Verdict.of job share outcome).result = outcome.toShareResult := rfl

@[simp] theorem channelId_forJob (s : DownstreamSession) (jobId : UInt32) :
    (s.forJob jobId).channelId = s.channelId := by
  unfold forJob
  split <;> rfl

@[simp] theorem nonce1_forJob (s : DownstreamSession) (jobId : UInt32) :
    (s.forJob jobId).nonce1 = s.nonce1 := by
  rw [nonce1, channelId_forJob, nonce1]

theorem handleShare_of_nonce {job : CurrentDeclaredJob} {nonce : Bytes32}
    (hjob : share.jobId = job.jobId) (hnonce : reassembleNonce s.nonce1 share.nonce2 = some nonce) :
    s.handleShare v (some job) share = (s.forJob job.jobId).checkShare v job share nonce := by
  simp only [handleShare, hjob, ne_eq, not_true_eq_false, if_false, nonce1_forJob, hnonce]

/-- A share that was judged: it is for the current job, has a nonce of this session and a key that
was not there. -/
structure Judged (v : EquihashValidator) (s : DownstreamSession)
    (current : Option CurrentDeclaredJob) (share : SubmitEquihashShare) (job : CurrentDeclaredJob)
    (nonce : Bytes32) : Prop where
  isCurrent : current = some job
  jobId : share.jobId = job.jobId
  hasNonce : reassembleNonce s.nonce1 share.nonce2 = some nonce
  fresh : shareDedupKey v.hashes nonce share.time share.solution ∉ (s.forJob job.jobId).seenShares
  handled : s.handleShare v current share =
    ({ s.forJob job.jobId with
        seenShares := (s.forJob job.jobId).seenShares
          ++ [shareDedupKey v.hashes nonce share.time share.solution] },
      .of job share (verifyShare v job share.time nonce share.solution))

/-- **What `handle_share` does**: it turns the share away with its keys as they were, apart from
those of an earlier job, or it judges the share. -/
theorem handleShare_cases (v : EquihashValidator) (s : DownstreamSession)
    (current : Option CurrentDeclaredJob) (share : SubmitEquihashShare) :
    (∃ s' reason, s.handleShare v current share = (s', .reject reason)
      ∧ (s' = s ∨ ∃ job, current = some job ∧ s' = s.forJob job.jobId)
      ∧ reason ≠ .lowDifficulty ∧ reason ≠ .invalidSolution)
    ∨ ∃ job nonce, Judged v s current share job nonce := by
  cases current with
  | none => exact .inl ⟨s, .staleJob, rfl, .inl rfl, by simp, by simp⟩
  | some job =>
    by_cases hjob : share.jobId = job.jobId
    · cases hnonce : reassembleNonce s.nonce1 share.nonce2 with
      | none =>
        refine .inl ⟨s.forJob job.jobId, .other "bad nonce_2 length", ?_,
          .inr ⟨job, rfl, rfl⟩, by simp, by simp⟩
        simp only [handleShare, hjob, ne_eq, not_true_eq_false, if_false, nonce1_forJob, hnonce]
      | some nonce =>
        have hhandle := @handleShare_of_nonce v s share job nonce hjob hnonce
        by_cases hseen : shareDedupKey v.hashes nonce share.time share.solution
            ∈ (s.forJob job.jobId).seenShares
        · refine .inl ⟨_, .duplicate, ?_, .inr ⟨job, rfl, rfl⟩, by simp, by simp⟩
          rw [hhandle, checkShare, if_pos hseen]
        · by_cases hfull : maxSeenShares ≤ (s.forJob job.jobId).seenShares.length
          · refine .inl ⟨_, .duplicate, ?_, .inr ⟨job, rfl, rfl⟩, by simp, by simp⟩
            rw [hhandle, checkShare, if_neg hseen, if_pos hfull]
          · refine .inr ⟨job, nonce, rfl, hjob, hnonce, hseen, ?_⟩
            rw [hhandle, checkShare, if_neg hseen, if_neg hfull]
    · refine .inl ⟨s, .staleJob, ?_, .inl rfl, by simp, by simp⟩
      simp only [handleShare, ne_eq, hjob, not_false_eq_true, if_true]

/-- Only a share that was judged gets one of these answers. -/
theorem judged_of_result
    (h : (s.handleShare v current share).2.result = .accepted ∨
      (s.handleShare v current share).2.result = .rejected .lowDifficulty ∨
      (s.handleShare v current share).2.result = .rejected .invalidSolution) :
    ∃ job nonce, Judged v s current share job nonce := by
  rcases handleShare_cases v s current share with ⟨s', reason, hreject, -, hlow, hinvalid⟩ | hjudged
  · rw [hreject] at h
    simp only [Verdict.reject, reduceCtorEq, ShareResult.rejected.injEq, hlow, hinvalid,
      or_self] at h
  · exact hjudged

end DownstreamSession

/-! ## A sample -/

/-- A miner with a solution for every header, and the hash functions on the plain coinbase. -/
def sampleValidator : EquihashValidator := ⟨plainHashes, fun _ _ _ => true⟩

def sampleRequest : SetCustomMiningJob :=
  Jd.sampleRequest plainHashes [] plainWire.serialize plainWire.inputs

/-- A share for the first session, with a time of the miner's choice. -/
def sampleShare (time : UInt32) : SubmitEquihashShare :=
  ⟨0, 1, List.replicate 28 0, time, List.replicate 1344 0⟩

end MiningInfra.Jd.Client
