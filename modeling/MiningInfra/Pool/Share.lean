import MiningInfra.Equihash.Validator
import MiningInfra.Lib.Table

/-!
# Jobs, channels and shares of the pool

The pool's side of a share: the distributor that makes jobs from the current template, the
channels that keep them, the duplicate detector and `validate_share_with_job`. The rate
limiter and the difficulty controller of a channel are left out; what they decide comes in
from outside.
-/

namespace MiningInfra.Pool

open Lib Coinbase Equihash

/-! ## Templates and jobs -/

/-- A block template. The hash of a transaction is `none` when its text is not one. -/
structure BlockTemplate where
  version : UInt32
  prevHash : Bytes32
  merkleRoot : Bytes32
  blockCommitments : Bytes32
  time : UInt32
  bits : UInt32
  target : Bytes32
  transactions : List (Option Bytes32)
  coinbase : List UInt8
  chainHistoryRoot : Bytes32
  consensusBranchId : UInt32

structure NewEquihashJob where
  channelId : UInt32
  jobId : UInt32
  version : UInt32
  prevHash : Bytes32
  merkleRoot : Bytes32
  blockCommitments : Bytes32
  nonce1 : List UInt8
  nonce2Len : Nat
  time : UInt32
  bits : UInt32
  target : Bytes32

structure SubmitEquihashShare where
  sequenceNumber : UInt32
  jobId : UInt32
  nonce2 : List UInt8
  time : UInt32
  solution : List UInt8

def NewEquihashJob.buildNonce (job : NewEquihashJob) (nonce2 : List UInt8) : Option (List UInt8) :=
  if nonce2.length ≠ job.nonce2Len then none else some (job.nonce1 ++ nonce2)

def NewEquihashJob.buildHeader (job : NewEquihashJob) (nonce : List UInt8) : List UInt8 :=
  headerBytes job.version job.prevHash job.merkleRoot job.blockCommitments job.time job.bits nonce

/-- The header a share is for: the job's, with the miner's nonce and time. -/
def NewEquihashJob.shareHeader (job : NewEquihashJob) (share : SubmitEquihashShare) :
    Option (List UInt8) :=
  (job.buildNonce share.nonce2).map fun nonce => setTime (job.buildHeader nonce) share.time

/-- The job id and the channel id counter: `u32::MAX` and zero are left out. -/
def nextId (current : UInt32) : UInt32 := if 0xfffffffe ≤ current then 1 else current + 1

/-! ## Channels -/

structure ChannelJob where
  job : NewEquihashJob
  template : BlockTemplate
  active : Bool
  createdAt : Nat

abbrev ChannelJobs := Table UInt32 ChannelJob

structure Channel where
  id : UInt32
  nonce1 : List UInt8
  target : Bytes32
  jobs : ChannelJobs
  workerIdentity : Option String

namespace Channel

def generateNonce1 (channelId : UInt32) (len : Nat) : List UInt8 :=
  (u32Bytes channelId).take len ++ List.replicate (len - 4) 0

def nonce2Len (channel : Channel) : Nat := 32 - channel.nonce1.length

/-- `DEFAULT_JOB_TTL`, in seconds. -/
def defaultJobTtl : Nat := 600

def isJobActive (channel : Channel) (jobId : UInt32) (now : Nat) : Bool :=
  (channel.jobs.lookup jobId).any fun j => j.active && now - j.createdAt < defaultJobTtl

/-- The job created first. -/
def oldest (jobs : List (Sigma fun _ : UInt32 => ChannelJob)) : Option UInt32 :=
  (jobs.foldl (fun best e => match best with
    | some b => if e.2.createdAt < b.2.createdAt then some e else some b
    | none => some e) none).map Sigma.fst

/-- Remove the oldest job until ten are left. -/
def evict : Nat → ChannelJobs → ChannelJobs
  | 0, jobs => jobs
  | fuel + 1, jobs =>
    if jobs.entries.length ≤ 10 then jobs
    else match oldest jobs.entries with
      | some id => evict fuel (jobs.erase id)
      | none => jobs

def addJob (channel : Channel) (job : NewEquihashJob) (template : BlockTemplate)
    (cleanJobs : Bool) (now : Nat) : Channel :=
  let kept : ChannelJobs := if cleanJobs then
    channel.jobs.pass fun _ j => some { j with active := false } else channel.jobs
  let jobs := kept.insert job.jobId ⟨job, template, true, now⟩
  { channel with jobs := evict jobs.entries.length jobs }

/-- `resolve_worker_label`. -/
def workerLabel (channel : Channel) : String :=
  channel.workerIdentity.getD ("channel_" ++ toString channel.id.toNat)

end Channel

/-! ## The distributor -/

/-- The current template, and the block it builds on. -/
structure JobDistributor where
  currentTemplate : Option BlockTemplate
  prevHash : Option Bytes32
  agrees : prevHash = currentTemplate.map BlockTemplate.prevHash

namespace JobDistributor

def new : JobDistributor := ⟨none, none, rfl⟩

/-- Install a template, and say whether it is for a new block. -/
def updateTemplate (d : JobDistributor) (template : BlockTemplate) : JobDistributor × Bool :=
  (⟨some template, some template.prevHash, rfl⟩, d.prevHash ≠ some template.prevHash)

/-- `create_job_with_template`, with the job id it takes. -/
def createJob (d : JobDistributor) (channel : Channel) (jobId : UInt32) :
    Option (NewEquihashJob × BlockTemplate) :=
  d.currentTemplate.map fun t => (
    { channelId := channel.id
      jobId
      version := t.version
      prevHash := t.prevHash
      merkleRoot := t.merkleRoot
      blockCommitments := t.blockCommitments
      nonce1 := channel.nonce1
      nonce2Len := channel.nonce2Len
      time := t.time
      bits := t.bits
      target := channel.target }, t)

end JobDistributor

/-! ## The duplicate detector -/

/-- `MAX_SHARES_PER_JOB`. -/
def maxSharesPerJob : Nat := 100000

/-- The hashes of the shares seen for each job. -/
abbrev DuplicateDetector := Table UInt32 (List UInt64)

namespace DuplicateDetector

def startJob (d : DuplicateDetector) (jobId : UInt32) : DuplicateDetector := d.erase jobId

def isSeen (d : DuplicateDetector) (jobId : UInt32) (hash : UInt64) : Bool :=
  (d.lookup jobId).any fun shares => shares.contains hash

/-- Record the share, and say whether it is a duplicate. A full job takes every share for one. -/
def checkAndRecord (d : DuplicateDetector) (jobId : UInt32) (hash : UInt64) :
    DuplicateDetector × Bool :=
  let shares := (d.lookup jobId).getD []
  if maxSharesPerJob ≤ shares.length ∨ hash ∈ shares then (d.insert jobId shares, true)
  else (d.insert jobId (shares ++ [hash]), false)

def pruneInactive (d : DuplicateDetector) (activeJobIds : List UInt32) : DuplicateDetector :=
  d.retain fun jobId _ => activeJobIds.contains jobId

end DuplicateDetector

/-! ## Validation -/

inductive RejectReason where
  | staleJob
  | duplicate
  | invalidSolution
  | lowDifficulty
  | other (message : String)
  deriving DecidableEq, Repr

inductive ShareResult where
  | accepted
  | rejected (reason : RejectReason)
  deriving DecidableEq, Repr

/-- What validation needs from libraries: the validator, SipHash on a share, and the conversion of
a target to a difficulty. -/
structure Primitives (F : Type) extends EquihashValidator where
  hashShare : List UInt8 → List UInt8 → UInt64
  targetToDifficulty : Bytes32 → F

structure ShareValidationResult (F : Type) where
  result : ShareResult
  difficulty : Option F
  isBlock : Bool

variable {F : Type}

def ShareValidationResult.accepted (r : ShareValidationResult F) : Bool := r.result = .accepted

def ShareValidationResult.reject (reason : RejectReason) : ShareValidationResult F :=
  ⟨.rejected reason, none, false⟩

/-- `validate_share_with_job`. The error is `PoolError::InvalidMessage`. -/
def validateShareWithJob (p : Primitives F) (d : DuplicateDetector) (share : SubmitEquihashShare)
    (job : NewEquihashJob) (blockTarget : Bytes32) :
    DuplicateDetector × Except String (ShareValidationResult F) :=
  let hash := p.hashShare share.nonce2 share.solution
  if d.isSeen share.jobId hash then (d, .ok (.reject .duplicate))
  else if !timeInRange job.time share.time then
    (d, .ok (.reject (.other "timestamp out of range")))
  else match job.shareHeader share with
    | none => (d, .error "Invalid nonce_2 length")
    | some header =>
      match p.verifyShare header share.solution job.target with
      | .ok solutionHash =>
        let recorded := d.checkAndRecord share.jobId hash
        if recorded.2 then (recorded.1, .ok (.reject .duplicate))
        else (recorded.1, .ok ⟨.accepted, some (p.targetToDifficulty job.target),
          EquihashValidator.meetsTarget solutionHash blockTarget⟩)
      | .error .targetNotMet =>
        ((d.checkAndRecord share.jobId hash).1, .ok (.reject .lowDifficulty))
      | .error _ => (d, .ok (.reject .invalidSolution))

/-! ## What proofs need of them -/

variable {job : NewEquihashJob} {id : UInt32} {j : ChannelJob} {channel : Channel}
  {template : BlockTemplate}

theorem NewEquihashJob.headerPrevHash_shareHeader {share : SubmitEquihashShare}
    {header : List UInt8} (h : job.shareHeader share = some header) :
    headerPrevHash header = job.prevHash := by
  obtain ⟨nonce, -, rfl⟩ := Option.map_eq_some_iff.mp h
  rw [buildHeader, setTime_headerBytes, headerPrevHash_headerBytes]

/-- Eviction only removes jobs. -/
theorem Channel.lookup_evict : ∀ (fuel : Nat) {jobs : ChannelJobs},
    (evict fuel jobs).lookup id = some j → jobs.lookup id = some j
  | 0, jobs, h => h
  | fuel + 1, jobs, h => by
    rw [evict] at h
    split at h
    · exact h
    · split at h
      · exact Table.of_lookup_erase (lookup_evict fuel h)
      · exact h

/-- A job of a channel after `add_job` is the new one or an old one, which is active only if
the new job does not clean the channel. -/
theorem Channel.lookup_addJob {cleanJobs : Bool} {now : Nat}
    (h : (channel.addJob job template cleanJobs now).jobs.lookup id = some j)
    (hactive : j.active = true) :
    j.job = job ∨ cleanJobs = false ∧ channel.jobs.lookup id = some j := by
  have hlookup := lookup_evict _ h
  rcases Table.of_lookup_insert hlookup with ⟨-, rfl⟩ | hlookup
  · exact .inl rfl
  · cases cleanJobs with
    | false => exact .inr ⟨rfl, hlookup⟩
    | true =>
      obtain ⟨old, -, ⟨⟩⟩ := Table.of_lookup_pass hlookup
      cases hactive

/-- A new job is for the block the distributor is at. -/
theorem JobDistributor.prevHash_createJob {d : JobDistributor} {jobId : UInt32}
    (h : d.createJob channel jobId = some (job, template)) : d.prevHash = some job.prevHash := by
  obtain ⟨t, ht, heq⟩ := Option.map_eq_some_iff.mp h
  injection heq with hjob _
  rw [d.agrees, ht, ← hjob]
  rfl

end MiningInfra.Pool
