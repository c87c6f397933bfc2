import MiningInfra.Jd.Shares
import MiningInfra.Payout.Solutions
import MiningInfra.Pool.Share

/-!
# The pool at work

The pool's main loop handles one thing at a time: a new template or a share. Beside it run
the setup and the end of miner connections, the calls of the job declaration server and the
share batches of its clients. Everything is cut at its lock acquisitions, so a run is any
interleaving of these sections.

`submitted` and `credits` are not part of the program: the solutions that came in on either
path, and the pairs of a header and a solution that were credited. The verdicts of the
sequence check and the rate limiter, the sessions that are too slow for a broadcast, the
target of a channel and the name of its worker come in with the events.
-/

namespace MiningInfra.Pool

open Lib Coinbase Payout

variable {F : Type}

/-- The parameters of a pool. -/
structure Env (F : Type) extends Primitives F where
  jdConfig : Jd.JdServerConfig
  nonce1Len : Nat
  initialTarget : Bytes32

/-- A miner connection: the section of `handle_new_connection` it runs next, or its session. -/
inductive Connection where
  | storeChannel (channelId : UInt32)
  | initialJob (channelId : UInt32)
  | running (channelId : UInt32)
  deriving DecidableEq

def Connection.channelId : Connection → UInt32
  | .storeChannel id => id
  | .initialJob id => id
  | .running id => id

abbrev Channels := Table UInt32 Channel

structure PoolState where
  distributor : JobDistributor
  nextJobId : UInt32
  nextChannelId : UInt32
  sessions : List UInt32
  channels : Channels
  connections : Table Nat Connection
  detector : DuplicateDetector

/-- The section the main loop runs next. -/
inductive MainLoop (F : Type) where
  | idle
  /-- `handle_new_template`, from the sections of the declaration server on. -/
  | updateJd (template : BlockTemplate)
  | readSessions (cleanJobs : Bool)
  | createJobs (cleanJobs : Bool) (sessions : List UInt32)
  | dropSlow (cleanJobs : Bool) (sent : List UInt32)
  | collectActive
  | pruneDetector (activeJobIds : List UInt32)
  | clearSolutions
  /-- `handle_share_submission`, once the share is admitted. -/
  | lookupJob (channelId : UInt32) (share : SubmitEquihashShare)
  | validateShare (channelId : UInt32) (share : SubmitEquihashShare) (job : NewEquihashJob)
      (template : BlockTemplate)
  | creditShare (channelId : UInt32) (share : SubmitEquihashShare) (header : List UInt8)
      (difficulty : Option F)

structure World (F : Type) where
  jd : Jd.World
  seenShares : Jd.SeenShares
  batches : Table Nat Jd.ShareCall
  pool : PoolState
  main : MainLoop F
  ledger : Ledger F
  submitted : List (List UInt8)
  credits : List (List UInt8 × List UInt8)

inductive Event where
  /-- A section of a declaration, a token allocation or the template update in progress. -/
  | jd (e : Jd.Event)
  | template (t : BlockTemplate)
  | submit (channelId : UInt32) (share : SubmitEquihashShare) (admitted : Bool)
  | main (now : Nat) (slow : List UInt32)
  | connect (connection : Nat)
  | setup (connection : Nat) (now : Nat)
  | disconnect (connection : Nat)
  | retarget (channelId : UInt32) (target : Bytes32)
  | identify (channelId : UInt32) (workerName : String)
  | submitJd (thread : Nat) (msg : Jd.SubmitSharesJd) (now : Nat)
  | resumeJd (thread : Nat) (now : Nat)

/-! ## Start -/

def PoolState.new : PoolState := ⟨.new, 1, 1, [], ∅, ∅, ∅⟩

def World.new (persistent : Bool) : World F :=
  ⟨.new, ∅, ∅, .new, .idle, .new persistent, [], []⟩

/-- A pool with an empty tracker, with or without persistence. -/
def Fresh (w : World F) : Prop := ∃ persistent, w = .new persistent

theorem fresh_new (persistent : Bool) : Fresh (.new persistent : World F) := ⟨persistent, rfl⟩

/-! ## Connections -/

namespace PoolState

/-- Take a channel id and store the session. Nobody knows the id before that. -/
def connect (s : PoolState) (connection : Nat) : PoolState :=
  { s with
    nextChannelId := nextId s.nextChannelId
    sessions := s.nextChannelId :: s.sessions
    connections := s.connections.insert connection (.storeChannel s.nextChannelId) }

def newChannel (env : Env F) (id : UInt32) : Channel :=
  ⟨id, Channel.generateNonce1 id env.nonce1Len, env.initialTarget, ∅, none⟩

def storeChannel (env : Env F) (s : PoolState) (connection : Nat) (id : UInt32) : PoolState :=
  { s with
    channels := s.channels.insert id (newChannel env id)
    connections := s.connections.insert connection (.initialJob id) }

/-- The first job of a connection, if there is a template and the channel is still there. -/
def initialJob (s : PoolState) (connection : Nat) (id : UInt32) (now : Nat) : PoolState :=
  let started := { s with connections := s.connections.insert connection (.running id) }
  match s.channels.lookup id with
  | none => started
  | some channel =>
    match s.distributor.createJob channel s.nextJobId with
    | none => started
    | some (job, template) =>
      { started with
        nextJobId := nextId s.nextJobId
        channels := s.channels.insert id (channel.addJob job template true now)
        detector := s.detector.startJob job.jobId }

/-- Both entries of a channel go together. -/
def drop (s : PoolState) (ids : List UInt32) : PoolState :=
  { s with
    sessions := s.sessions.filter fun id => !ids.contains id
    channels := s.channels.retain fun id _ => !ids.contains id }

def disconnect (s : PoolState) (connection : Nat) (id : UInt32) : PoolState :=
  { s.drop [id] with connections := s.connections.erase connection }

def modifyChannel (s : PoolState) (id : UInt32) (f : Channel → Channel) : PoolState :=
  { s with
    channels := s.channels.pass fun k channel => some (if k = id then f channel else channel) }

/-! ## The broadcast -/

/-- The job of one session: none when its channel is not there. -/
def broadcastTo (cleanJobs : Bool) (now : Nat) (s : PoolState × List UInt32) (id : UInt32) :
    PoolState × List UInt32 :=
  match s.1.channels.lookup id with
  | none => s
  | some channel =>
    match s.1.distributor.createJob channel s.1.nextJobId with
    | none => s
    | some (job, template) =>
      ({ s.1 with
        nextJobId := nextId s.1.nextJobId
        channels := s.1.channels.insert id (channel.addJob job template cleanJobs now) },
      s.2 ++ [id])

/-- The jobs of all sessions, with the sessions that got one. -/
def broadcast (s : PoolState) (cleanJobs : Bool) (sessions : List UInt32) (now : Nat) :
    PoolState × List UInt32 :=
  sessions.foldl (broadcastTo cleanJobs now) (s, [])

def trackedJobIds (s : PoolState) : List UInt32 :=
  s.channels.entries.flatMap fun e => e.2.jobs.keys

end PoolState

/-! ## The main loop -/

/-- `CurrentTemplateContext` of a template. Transactions whose hash is none are left out. -/
def BlockTemplate.context (t : BlockTemplate) : Jd.TemplateContext where
  version := t.version
  prevHash := t.prevHash
  chainHistoryRoot := t.chainHistoryRoot
  consensusBranchId := t.consensusBranchId
  bits := t.bits
  time := t.time
  txids := t.transactions.filterMap id
  coinbaseTxLen := t.coinbase.length

namespace World

variable [Float64 F]

/-- `try_record_share_once` for a share with this header. -/
def credit (env : Env F) (w : World F) (minerId : MinerId) (difficulty : F)
    (header solution : List UInt8) (now : Nat) : World F × Bool :=
  let recorded := w.ledger.tryRecordShareOnce env.hashes minerId difficulty solution now
  ({ w with
    ledger := recorded.1
    credits := if recorded.2 then w.credits ++ [(header, solution)] else w.credits },
  recorded.2)

/-- The job of an admitted share, if it is active. -/
def lookupJob (w : World F) (channelId : UInt32) (share : SubmitEquihashShare) (now : Nat) :
    MainLoop F :=
  match w.pool.channels.lookup channelId with
  | none => .idle
  | some channel =>
    if channel.isJobActive share.jobId now then
      match channel.jobs.lookup share.jobId with
      | none => .idle
      | some j => .validateShare channelId share j.job j.template
    else .idle

def validateShare (env : Env F) (w : World F) (channelId : UInt32) (share : SubmitEquihashShare)
    (job : NewEquihashJob) (template : BlockTemplate) : World F :=
  let validated := validateShareWithJob env.toPrimitives w.pool.detector share job template.target
  { w with
    pool := { w.pool with detector := validated.1 }
    main := match validated.2, job.shareHeader share with
      | .ok r, some header =>
        if r.accepted then .creditShare channelId share header r.difficulty else .idle
      | _, _ => .idle }

/-- The second look at the channel, with the credit. -/
def creditShare (env : Env F) (w : World F) (channelId : UInt32) (share : SubmitEquihashShare)
    (header : List UInt8) (difficulty : Option F) (now : Nat) : World F :=
  let done := { w with main := .idle }
  match w.pool.channels.lookup channelId, difficulty with
  | some channel, some difficulty =>
    if channel.isJobActive share.jobId now then
      (done.credit env channel.workerLabel difficulty header share.solution now).1
    else done
  | _, _ => done

/-- The next section of the main loop. -/
def mainStep (env : Env F) (w : World F) (now : Nat) (slow : List UInt32) : Option (World F) :=
  match w.main with
  | .idle => none
  | .updateJd template =>
    if w.jd.update.isSome then none
    else
      let updated := w.pool.distributor.updateTemplate template
      some { w with
        pool := { w.pool with distributor := updated.1 }
        main := .readSessions updated.2 }
  | .readSessions cleanJobs => some { w with main := .createJobs cleanJobs w.pool.sessions }
  | .createJobs cleanJobs sessions =>
    let sent := w.pool.broadcast cleanJobs sessions now
    some { w with pool := sent.1, main := .dropSlow cleanJobs sent.2 }
  | .dropSlow cleanJobs sent =>
    some { w with
      pool := w.pool.drop (sent.filter slow.contains)
      main := if cleanJobs then .collectActive else .idle }
  | .collectActive => some { w with main := .pruneDetector w.pool.trackedJobIds }
  | .pruneDetector activeJobIds =>
    some { w with
      pool := { w.pool with detector := w.pool.detector.pruneInactive activeJobIds }
      main := .clearSolutions }
  | .clearSolutions => some { w with ledger := w.ledger.clearCrossPathSolutions, main := .idle }
  | .lookupJob channelId share => some { w with main := w.lookupJob channelId share now }
  | .validateShare channelId share job template =>
    some (w.validateShare env channelId share job template)
  | .creditShare channelId share header difficulty =>
    some (w.creditShare env channelId share header difficulty now)

/-! ## Share batches -/

def setBatch (w : World F) (thread : Nat) (call : Option Jd.ShareCall) : World F :=
  { w with
    batches := match call with
      | some call => w.batches.insert thread call
      | none => w.batches.erase thread }

/-- The credit of a share for a declared job, under the guard on the tip. -/
def creditJd (env : Env F) (w : World F) (b : Jd.Batch) (share : Jd.JdShare) (now : Nat) :
    World F × Option Bool :=
  if b.stillCurrent w.jd.server.currentPrevHash then
    let credited := w.credit env b.job.clientId (env.targetToDifficulty b.job.shareTarget)
      (b.job.buildHeader share.time share.nonce) share.solution now
    (credited.1, some credited.2)
  else (w, none)

/-- The next section of a batch, with the section that follows. -/
def advanceBatch (env : Env F) (w : World F) (now : Nat) :
    Jd.ShareCall → World F × Option Jd.ShareCall
  | .credit b share =>
    let credited := w.creditJd env b share now
    (credited.1, some (.settle b credited.2))
  | call =>
    let advanced := call.advance env.toEquihashValidator w.jd.server w.seenShares now
    ({ w with seenShares := advanced.1 }, advanced.2.getRight?)

omit [Float64 F] in
theorem lookup_setBatch (w : World F) (thread : Nat) (call : Option Jd.ShareCall) (t : Nat) :
    (w.setBatch thread call).batches.lookup t
      = if t = thread then call else w.batches.lookup t := by
  cases call with
  | none => exact Table.lookup_erase_eq _ _ _
  | some call => exact Table.lookup_insert_eq _ _ _ _

theorem advanceBatch_of_not_credit (env : Env F) (w : World F) (now : Nat) {call : Jd.ShareCall}
    (hcall : ¬ ∃ b share, call = .credit b share) :
    w.advanceBatch env now call
      = ({ w with seenShares :=
          (call.advance env.toEquihashValidator w.jd.server w.seenShares now).1 },
        (call.advance env.toEquihashValidator w.jd.server w.seenShares now).2.getRight?) := by
  cases call with
  | credit b share => exact absurd ⟨b, share, rfl⟩ hcall
  | _ => rfl

end World

/-! ## Steps -/

variable [Float64 F] {env : Env F} {e : Event}

def next (env : Env F) (w : World F) : Event → Option (World F)
  | .jd (.newTemplate _) => none
  | .jd e => (Jd.next env.hashes env.jdConfig w.jd e).map fun jd => { w with jd }
  | .template t =>
    match w.main with
    | .idle => (Jd.next env.hashes env.jdConfig w.jd (.newTemplate t.context)).map fun jd =>
      { w with jd, main := .updateJd t }
    | _ => none
  | .submit channelId share admitted =>
    match w.main with
    | .idle => some { w with
        main := if admitted then .lookupJob channelId share else .idle
        submitted := w.submitted ++ [share.solution] }
    | _ => none
  | .main now slow => w.mainStep env now slow
  | .connect connection =>
    if (w.pool.connections.lookup connection).isSome then none
    else some { w with pool := w.pool.connect connection }
  | .setup connection now =>
    match w.pool.connections.lookup connection with
    | some (.storeChannel id) => some { w with pool := w.pool.storeChannel env connection id }
    | some (.initialJob id) => some { w with pool := w.pool.initialJob connection id now }
    | _ => none
  | .disconnect connection =>
    match w.pool.connections.lookup connection with
    | some (.running id) => some { w with pool := w.pool.disconnect connection id }
    | _ => none
  | .retarget channelId target =>
    some { w with pool := w.pool.modifyChannel channelId fun c => { c with target } }
  | .identify channelId workerName =>
    match w.main with
    | .idle => some { w with pool := w.pool.modifyChannel channelId fun c =>
      { c with workerIdentity := c.workerIdentity.or (some workerName) } }
    | _ => none
  | .submitJd thread msg now =>
    if (w.batches.lookup thread).isSome then none
    else some { w.setBatch thread (some (.findJob msg)) with
      seenShares := Jd.evictSeenShares w.seenShares w.jd.server.tokens now
      submitted := w.submitted ++ msg.shares.map Jd.JdShare.solution }
  | .resumeJd thread now =>
    (w.batches.lookup thread).map fun call =>
      (w.advanceBatch env now call).1.setBatch thread (w.advanceBatch env now call).2

/-- The steps, each with what it needs. -/
inductive Step (env : Env F) (w : World F) : Event → World F → Prop where
  | jd {e : Jd.Event} {jd : Jd.World} : (∀ t, e ≠ .newTemplate t) →
      Jd.next env.hashes env.jdConfig w.jd e = some jd → Step env w (.jd e) { w with jd }
  | template {t : BlockTemplate} {jd : Jd.World} : w.main = .idle →
      Jd.next env.hashes env.jdConfig w.jd (.newTemplate t.context) = some jd →
      Step env w (.template t) { w with jd, main := .updateJd t }
  | submit {channelId : UInt32} {share : SubmitEquihashShare} {admitted : Bool} : w.main = .idle →
      Step env w (.submit channelId share admitted) { w with
        main := if admitted then .lookupJob channelId share else .idle
        submitted := w.submitted ++ [share.solution] }
  | main {now : Nat} {slow : List UInt32} {w' : World F} : w.mainStep env now slow = some w' →
      Step env w (.main now slow) w'
  | connect {k : Nat} : ¬ (w.pool.connections.lookup k).isSome →
      Step env w (.connect k) { w with pool := w.pool.connect k }
  | storeChannel {k now : Nat} {id : UInt32} :
      w.pool.connections.lookup k = some (.storeChannel id) →
      Step env w (.setup k now) { w with pool := w.pool.storeChannel env k id }
  | initialJob {k now : Nat} {id : UInt32} :
      w.pool.connections.lookup k = some (.initialJob id) →
      Step env w (.setup k now) { w with pool := w.pool.initialJob k id now }
  | disconnect {k : Nat} {id : UInt32} : w.pool.connections.lookup k = some (.running id) →
      Step env w (.disconnect k) { w with pool := w.pool.disconnect k id }
  | retarget (channelId : UInt32) (target : Bytes32) : Step env w (.retarget channelId target)
      { w with pool := w.pool.modifyChannel channelId fun c => { c with target } }
  | identify {channelId : UInt32} {workerName : String} : w.main = .idle →
      Step env w (.identify channelId workerName) { w with
        pool := w.pool.modifyChannel channelId fun c =>
          { c with workerIdentity := c.workerIdentity.or (some workerName) } }
  | submitJd {thread now : Nat} {msg : Jd.SubmitSharesJd} :
      ¬ (w.batches.lookup thread).isSome →
      Step env w (.submitJd thread msg now) { w.setBatch thread (some (.findJob msg)) with
        seenShares := Jd.evictSeenShares w.seenShares w.jd.server.tokens now
        submitted := w.submitted ++ msg.shares.map Jd.JdShare.solution }
  | resumeJd {thread now : Nat} {call : Jd.ShareCall} : w.batches.lookup thread = some call →
      Step env w (.resumeJd thread now)
        ((w.advanceBatch env now call).1.setBatch thread (w.advanceBatch env now call).2)

theorem Step.of_next {w w' : World F} (h : next env w e = some w') : Step env w e w' := by
  cases e with
  | jd e =>
    cases e with
    | newTemplate t => exact absurd h (by simp [next])
    | _ =>
      obtain ⟨jd, hjd, rfl⟩ := Option.map_eq_some_iff.mp h
      exact .jd (fun _ => by simp) hjd
  | template t =>
    simp only [next] at h
    split at h
    · obtain ⟨jd, hjd, rfl⟩ := Option.map_eq_some_iff.mp h
      exact .template ‹_› hjd
    · cases h
  | submit channelId share admitted | identify channelId workerName =>
    simp only [next] at h
    split at h
    · cases h
      constructor
      assumption
    · cases h
  | main now slow => exact .main h
  | connect k | submitJd thread msg now =>
    obtain ⟨hguard, rfl⟩ := of_guard_not h
    constructor
    assumption
  | setup k now =>
    simp only [next] at h
    split at h
    · cases h
      exact .storeChannel ‹_›
    · cases h
      exact .initialJob ‹_›
    · cases h
  | disconnect k =>
    simp only [next] at h
    split at h
    · cases h
      exact .disconnect ‹_›
    · cases h
  | retarget channelId target =>
    cases h
    exact .retarget channelId target
  | resumeJd thread now =>
    obtain ⟨call, hcall, rfl⟩ := Option.map_eq_some_iff.mp h
    exact .resumeJd hcall

theorem Step.next_eq {w w' : World F} (h : Step env w e w') : next env w e = some w' := by
  cases h with
  | @jd e jd hother hjd =>
    cases e with
    | newTemplate t => exact absurd rfl (hother t)
    | _ => exact Option.map_eq_some_iff.mpr ⟨jd, hjd, rfl⟩
  | template hmain hjd => simp only [next, hmain, hjd, Option.map_some]
  | submit hmain | identify hmain => simp only [next, hmain]
  | main h => exact h
  | connect hfree | submitJd hfree => exact if_neg hfree
  | storeChannel hk | initialJob hk | disconnect hk => simp only [next, hk]
  | retarget => rfl
  | resumeJd hcall => exact Option.map_eq_some_iff.mpr ⟨_, hcall, rfl⟩

end MiningInfra.Pool
