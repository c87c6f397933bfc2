import MiningInfra.Lib.Reach
import MiningInfra.Sidecar.Gate

/-!
# Submissions

Every call of `submit_block` is made by a task: a candidate with its header that goes through
the gate or past it. The gated handler looks up the parent, takes the lock of the gate and keeps
it until Zebra has answered; the bypass takes the lock once to reserve an attempt and once more
to record a block Zebra has, and can be ended by its budget in any phase. Between two awaits of a
task any step of another task, of the poller or of the clock can come.

The journal is the record of what happened, newest first; no step reads it.
-/

namespace MiningInfra.Sidecar

open Lib Coinbase Relay

inductive SubmitBlockMode where
  | dryRun
  | live
  deriving DecidableEq, Repr

inductive SubmitBlockStatus where
  | accepted
  | duplicate
  deriving DecidableEq, Repr

inductive SubmissionOutcome where
  | dryRun (candidate : SubmissionCandidate)
  | needsTransactions (request : GetBlockTxn) (missingIndexes missingWtxids unresolvedShortIds : Nat)
  | submitted (candidate : SubmissionCandidate) (status : SubmitBlockStatus)
  | gateRejected (candidate : SubmissionCandidate) (reason : RejectReason)
  deriving DecidableEq

abbrev Outcome := Except RelayBlockError SubmissionOutcome

/-- `classify_submitblock_result`, with the reason of a rejection as the error. -/
def classifySubmitblockResult (result : Option String) : Except String SubmitBlockStatus :=
  match result with
  | none => .ok .accepted
  | some reason => if reason = "duplicate" then .ok .duplicate else .error reason

def candidateMetaError (error : CandidateMetaError) : RelayBlockError :=
  .reconstructionInvalid s!"candidate meta extraction failed: {error.asStr}"

/-- How a candidate gets to Zebra. -/
inductive Route where
  /-- `handle_relay_compact_block`, its variant with a mempool, `handle_relay_raw_block`. -/
  | ungated
  /-- `submit_through_gate`. -/
  | gated
  /-- `submit_unverified_raw_block`. -/
  | unverified
  deriving DecidableEq, Repr

/-- What a task waits for. -/
inductive Phase where
  /-- `look_up_parent` -/
  | lookup
  /-- The lock of the gate, for the decision. -/
  | locking
  /-- `submit_block` -/
  | submitting
  /-- `block_known`, after a rejection for this reason. -/
  | classifying (reason : String)
  /-- The lock of the gate, to record a block Zebra has. -/
  | recording (status : SubmitBlockStatus)
  | done (outcome : Outcome)
  deriving DecidableEq

/-- Waiting for Zebra, or for the lock to record its answer. -/
def Phase.atZebra : Phase → Bool
  | .submitting | .classifying _ | .recording _ => true
  | _ => false

structure Task where
  route : Route
  candidate : SubmissionCandidate
  header : List UInt8
  parent : Option ParentObservation
  phase : Phase
  deriving DecidableEq

/-- Did the body of this candidate pass the checks? -/
def Task.verified (t : Task) : Bool := t.route != .unverified

/-- Holding an `UnverifiedSlot`. -/
def Task.InFlight (t : Task) : Prop := t.verified = false ∧ t.phase.atZebra = true

instance (t : Task) : Decidable t.InFlight := inferInstanceAs (Decidable (_ ∧ _))

inductive Entry where
  /-- The gate decided on a candidate with what its lookup had given. -/
  | judged (verified : Bool) (candidate : SubmissionCandidate)
      (parent : Option ParentObservation) (decision : SubmitGate.Decision) (time : Nat)
  | called (candidate : SubmissionCandidate)
  | answered (candidate : SubmissionCandidate) (status : SubmitBlockStatus) (time : Nat)
  | recorded (candidate : SubmissionCandidate) (time : Nat)
  deriving DecidableEq

structure World where
  mode : SubmitBlockMode
  /-- `unreadable_submit_budget_secs` as it is printed. -/
  budget : String
  /-- In milliseconds. -/
  clock : Nat
  chain : CachedChainState
  gate : SubmitGate
  /-- The task that has the lock of the gate through its call. -/
  holder : Option Nat
  tasks : Table Nat Task
  journal : List Entry

inductive Event where
  | elapse (duration : Nat)
  /-- `get_blockchain_info` answered the poller. -/
  | poll (height : UInt64)
  /-- `admit_parent`, by a call that has nothing to do with a candidate. -/
  | confirm (hash : Bytes32)
  | start (id : Nat) (route : Route) (candidate : SubmissionCandidate) (header : List UInt8)
  | lookedUp (id : Nat) (answer : HeaderAnswer)
  /-- The lock is free, and this task takes it for the decision. -/
  | decide (id : Nat)
  /-- Zebra answered, or the call failed. -/
  | answer (id : Nat) (result : Except String (Option String))
  | known (id : Nat) (blockKnown : Option Bool)
  /-- The lock is free, and this task takes it to record its block. -/
  | record (id : Nat)
  /-- The budget of an attempt ran out, or it was cancelled. -/
  | timeout (id : Nat)

namespace World

def setTask (w : World) (id : Nat) (task : Task) : World :=
  { w with tasks := w.tasks.insert id task }

def log (w : World) (entry : Entry) : World := { w with journal := entry :: w.journal }

/-- The task is over: its lock is released and its slot dropped. -/
def finish (hashes : Hashes) (w : World) (id : Nat) (task : Task) (outcome : Outcome) : World :=
  { w with
    holder := if w.holder = some id then none else w.holder
    gate := if task.InFlight then w.gate.dropSlot hashes task.candidate else w.gate
    tasks := w.tasks.insert id { task with phase := .done outcome } }

/-- The task calls `submit_block`, in live mode. -/
def submit (hashes : Hashes) (w : World) (id : Nat) (task : Task) : World :=
  let task := { task with phase := .submitting }
  let w := w.setTask id task
  match w.mode with
  | .dryRun => w.finish hashes id task (.ok (.dryRun task.candidate))
  | .live =>
    { w.log (.called task.candidate) with
      holder := if task.route = .gated then some id else w.holder }

/-- A task that does not go through the gate is at Zebra from the start. -/
def start (hashes : Hashes) (w : World) (id : Nat) (task : Task) : World :=
  if task.route = .ungated then w.submit hashes id task
  else w.setTask id { task with phase := .lookup }

def lookedUp (w : World) (id : Nat) (task : Task) (answer : HeaderAnswer) : World :=
  let (parent, chain) := observeCandidateParent w.chain task.header answer
  { w with chain }.setTask id { task with parent, phase := .locking }

/-- The decision of the gate on a task, and the gate after it. -/
def judge (hashes : Hashes) (w : World) (task : Task) (info : CandidateMeta) :
    SubmitGate.Decision × SubmitGate :=
  if task.verified then w.gate.applyAt w.chain task.candidate info w.clock
  else w.gate.reserveUnverifiedAt hashes w.chain task.candidate info w.clock

def decided (hashes : Hashes) (w : World) (id : Nat) (task : Task) : World :=
  match CandidateMeta.fromHeaderBytes task.header task.candidate.blockHash task.parent with
  | .error error => w.finish hashes id task (.error (candidateMetaError error))
  | .ok info =>
    let (decision, gate) := w.judge hashes task info
    let w := { w with gate }.log (.judged task.verified task.candidate task.parent decision w.clock)
    match decision with
    | .error reason => w.finish hashes id task (.ok (.gateRejected task.candidate reason))
    | .ok () => w.submit hashes id task

/-- `classify_submitblock_outcome` and what the route makes of it. -/
def answered (hashes : Hashes) (w : World) (id : Nat) (task : Task)
    (result : Except String (Option String)) : World :=
  match result with
  | .error error => w.finish hashes id task (.error (.submitFailed error))
  | .ok result =>
    match classifySubmitblockResult result with
    | .error reason => w.setTask id { task with phase := .classifying reason }
    | .ok status =>
      let w := w.log (.answered task.candidate status w.clock)
      if task.verified then w.finish hashes id task (.ok (.submitted task.candidate status))
      else w.setTask id { task with phase := .recording status }

def recorded (hashes : Hashes) (w : World) (id : Nat) (task : Task) (status : SubmitBlockStatus) :
    World :=
  let gate := w.gate.recordSubmittedAt task.candidate w.clock
  ({ w with gate }.log (.recorded task.candidate w.clock)).finish hashes id task
    (.ok (.submitted task.candidate status))

def timedOut (hashes : Hashes) (w : World) (id : Nat) (task : Task) : World :=
  w.finish hashes id task
    (.error (.submitFailed s!"unverified submission exceeded its {w.budget} budget"))

/-- Is this task over? One that never was counts as over. -/
def isOver (w : World) (id : Nat) : Bool :=
  match w.tasks.lookup id with
  | none => true
  | some task => match task.phase with
    | .done _ => true
    | _ => false

def next (hashes : Hashes) (w : World) : Event → Option World
  | .elapse duration => some { w with clock := w.clock + duration }
  | .poll height => some { w with chain := w.chain.setTipHeight height }
  | .confirm hash => some { w with chain := w.chain.admitParent hash }
  | .start id route candidate header =>
    if w.isOver id then some (w.start hashes id ⟨route, candidate, header, none, .lookup⟩) else none
  | .lookedUp id answer => do
    let task ← w.tasks.lookup id
    if task.phase = .lookup then some (w.lookedUp id task answer) else none
  | .decide id => do
    let task ← w.tasks.lookup id
    if task.phase = .locking ∧ w.holder = none then some (w.decided hashes id task) else none
  | .answer id result => do
    let task ← w.tasks.lookup id
    if task.phase = .submitting then some (w.answered hashes id task result) else none
  | .known id blockKnown => do
    let task ← w.tasks.lookup id
    match task.phase with
    | .classifying reason =>
      some (w.finish hashes id task (.error
        (.submitRejected reason (SubmitRejectionClass.fromBlockKnown blockKnown))))
    | _ => none
  | .record id => do
    let task ← w.tasks.lookup id
    match task.phase with
    | .recording status =>
      if w.holder = none then some (w.recorded hashes id task status) else none
    | _ => none
  | .timeout id => do
    let task ← w.tasks.lookup id
    if task.route = .unverified ∧ w.isOver id = false then some (w.timedOut hashes id task)
    else none

/-- A gate that is on, nothing polled and nothing cached. -/
structure Fresh (w : World) : Prop where
  enabled : w.gate.config.enabled = true
  gate : w.gate = .new w.gate.config
  chain : w.chain = .new w.chain.parentCacheCapacity
  holder : w.holder = none
  tasks : w.tasks = ∅
  journal : w.journal = []

/-- The sidecar as it comes up. -/
def new (mode : SubmitBlockMode) (config : GateConfig) (parentCacheCapacity : Nat) : World where
  mode
  budget := "10s"
  clock := 0
  chain := .new parentCacheCapacity
  gate := .new config
  holder := none
  tasks := ∅
  journal := []

theorem fresh_new (mode : SubmitBlockMode) {config : GateConfig} (parentCacheCapacity : Nat)
    (h : config.enabled = true) : (new mode config parentCacheCapacity).Fresh :=
  ⟨h, rfl, rfl, rfl, rfl, rfl⟩

/-- The steps, each with what it needs. -/
inductive Step (hashes : Hashes) (w : World) : Event → World → Prop where
  | elapse (duration : Nat) : Step hashes w (.elapse duration) { w with clock := w.clock + duration }
  | poll (height : UInt64) :
      Step hashes w (.poll height) { w with chain := w.chain.setTipHeight height }
  | confirm (hash : Bytes32) :
      Step hashes w (.confirm hash) { w with chain := w.chain.admitParent hash }
  | start {id : Nat} {route : Route} {candidate : SubmissionCandidate} {header : List UInt8} :
      w.isOver id = true → Step hashes w (.start id route candidate header)
        (w.start hashes id ⟨route, candidate, header, none, .lookup⟩)
  | lookedUp {id : Nat} {task : Task} {answer : HeaderAnswer} :
      w.tasks.lookup id = some task → task.phase = .lookup →
      Step hashes w (.lookedUp id answer) (w.lookedUp id task answer)
  | decide {id : Nat} {task : Task} :
      w.tasks.lookup id = some task → task.phase = .locking → w.holder = none →
      Step hashes w (.decide id) (w.decided hashes id task)
  | answer {id : Nat} {task : Task} {result : Except String (Option String)} :
      w.tasks.lookup id = some task → task.phase = .submitting →
      Step hashes w (.answer id result) (w.answered hashes id task result)
  | known {id : Nat} {task : Task} {reason : String} {blockKnown : Option Bool} :
      w.tasks.lookup id = some task → task.phase = .classifying reason →
      Step hashes w (.known id blockKnown) (w.finish hashes id task (.error
        (.submitRejected reason (SubmitRejectionClass.fromBlockKnown blockKnown))))
  | record {id : Nat} {task : Task} {status : SubmitBlockStatus} :
      w.tasks.lookup id = some task → task.phase = .recording status → w.holder = none →
      Step hashes w (.record id) (w.recorded hashes id task status)
  | timeout {id : Nat} {task : Task} :
      w.tasks.lookup id = some task → task.route = .unverified →
      Step hashes w (.timeout id) (w.timedOut hashes id task)

variable {hashes : Hashes} {w w' : World} {e : Event}

theorem Step.of_next (h : w.next hashes e = some w') : Step hashes w e w' := by
  cases e with
  | elapse duration => injection h with h; exact h ▸ .elapse duration
  | poll height => injection h with h; exact h ▸ .poll height
  | confirm hash => injection h with h; exact h ▸ .confirm hash
  | start id route candidate header =>
    obtain ⟨hover, rfl⟩ := of_guard h
    exact .start hover
  | lookedUp id answer =>
    obtain ⟨task, htask, h⟩ := Option.bind_eq_some_iff.mp h
    obtain ⟨hphase, rfl⟩ := of_guard h
    exact .lookedUp htask hphase
  | decide id =>
    obtain ⟨task, htask, h⟩ := Option.bind_eq_some_iff.mp h
    obtain ⟨hready, rfl⟩ := of_guard h
    exact .decide htask hready.1 hready.2
  | answer id result =>
    obtain ⟨task, htask, h⟩ := Option.bind_eq_some_iff.mp h
    obtain ⟨hphase, rfl⟩ := of_guard h
    exact .answer htask hphase
  | known id blockKnown =>
    obtain ⟨task, htask, h⟩ := Option.bind_eq_some_iff.mp h
    split at h
    · rename_i hphase
      injection h with h
      exact h ▸ .known htask hphase
    · cases h
  | record id =>
    obtain ⟨task, htask, h⟩ := Option.bind_eq_some_iff.mp h
    split at h
    · rename_i hphase
      obtain ⟨hfree, rfl⟩ := of_guard h
      exact .record htask hphase hfree
    · cases h
  | timeout id =>
    obtain ⟨task, htask, h⟩ := Option.bind_eq_some_iff.mp h
    obtain ⟨hready, rfl⟩ := of_guard h
    exact .timeout htask hready.1

variable {id : Nat} {task : Task}

theorem over_phase (hover : w.isOver id = true) (htask : w.tasks.lookup id = some task) :
    ∃ outcome, task.phase = .done outcome := by
  unfold isOver at hover
  rw [htask] at hover
  dsimp only at hover
  split at hover
  · exact ⟨_, by assumption⟩
  · cases hover

/-! ## What a step writes -/

/-- What a step adds to the journal, newest first. -/
inductive Writes (hashes : Hashes) (w : World) (e : Event) : List Entry → Prop where
  | nothing : Writes hashes w e []
  | ungated {id : Nat} {candidate : SubmissionCandidate} {header : List UInt8} :
      e = .start id .ungated candidate header → Writes hashes w e [.called candidate]
  | refused {id : Nat} {task : Task} {info : CandidateMeta} {reason : RejectReason} :
      e = .decide id → w.tasks.lookup id = some task →
      CandidateMeta.fromHeaderBytes task.header task.candidate.blockHash task.parent = .ok info →
      (w.judge hashes task info).1 = .error reason →
      Writes hashes w e [.judged task.verified task.candidate task.parent (.error reason) w.clock]
  | passed {id : Nat} {task : Task} {info : CandidateMeta} {calls : List Entry} :
      e = .decide id → w.tasks.lookup id = some task →
      CandidateMeta.fromHeaderBytes task.header task.candidate.blockHash task.parent = .ok info →
      (w.judge hashes task info).1 = .ok () → calls = [] ∨ calls = [.called task.candidate] →
      Writes hashes w e
        (calls ++ [.judged task.verified task.candidate task.parent (.ok ()) w.clock])
  | answered (candidate : SubmissionCandidate) (status : SubmitBlockStatus) :
      Writes hashes w e [.answered candidate status w.clock]
  | recorded (candidate : SubmissionCandidate) : Writes hashes w e [.recorded candidate w.clock]

/-- A submission is a call in live mode and nothing otherwise. -/
theorem journal_submit (hashes : Hashes) (w : World) (id : Nat) (task : Task) :
    ∃ calls, (calls = [] ∨ calls = [Entry.called task.candidate])
      ∧ (w.submit hashes id task).journal = calls ++ w.journal := by
  unfold submit
  dsimp only
  split
  · exact ⟨[], Or.inl rfl, rfl⟩
  · exact ⟨_, Or.inr rfl, rfl⟩

theorem writes_start {route : Route} {candidate : SubmissionCandidate} {header : List UInt8} :
    ∃ l, Writes hashes w (.start id route candidate header) l ∧
      (w.start hashes id ⟨route, candidate, header, none, .lookup⟩).journal = l ++ w.journal := by
  unfold start
  split
  · rename_i hroute
    obtain ⟨calls, hcalls, hjournal⟩ :=
      journal_submit hashes w id ⟨route, candidate, header, none, .lookup⟩
    refine ⟨calls, ?_, hjournal⟩
    rcases hcalls with rfl | rfl
    · exact .nothing
    · exact .ungated (by rw [show route = .ungated from hroute])
  · exact ⟨[], .nothing, rfl⟩

theorem writes_decided (htask : w.tasks.lookup id = some task) :
    ∃ l, Writes hashes w (.decide id) l ∧ (w.decided hashes id task).journal = l ++ w.journal := by
  unfold decided
  split
  · exact ⟨[], .nothing, rfl⟩
  rename_i info hinfo
  rcases hjudge : w.judge hashes task info with ⟨reason | _, gate⟩
  · exact ⟨_, .refused rfl htask hinfo (by rw [hjudge]), rfl⟩
  · obtain ⟨calls, hcalls, hjournal⟩ := journal_submit hashes
      ({ w with gate }.log (.judged task.verified task.candidate task.parent (.ok ()) w.clock)) id task
    refine ⟨_, .passed rfl htask hinfo (by rw [hjudge]) hcalls, ?_⟩
    rw [List.append_assoc]
    exact hjournal

theorem writes_answered {result : Except String (Option String)} :
    ∃ l, Writes hashes w e l ∧ (w.answered hashes id task result).journal = l ++ w.journal := by
  unfold answered
  split
  · exact ⟨[], .nothing, rfl⟩
  split
  · exact ⟨[], .nothing, rfl⟩
  · dsimp only
    split <;> exact ⟨_, .answered _ _, rfl⟩

/-- Every step writes one of these. -/
theorem next_writes (h : w.next hashes e = some w') :
    ∃ l, Writes hashes w e l ∧ w'.journal = l ++ w.journal := by
  cases Step.of_next h with
  | start => exact writes_start
  | decide htask => exact writes_decided htask
  | answer => exact writes_answered
  | record => exact ⟨_, .recorded _, rfl⟩
  | elapse | poll | confirm | lookedUp | known | timeout => exact ⟨[], .nothing, rfl⟩

end World

end MiningInfra.Sidecar
