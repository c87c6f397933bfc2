import MiningInfra.Jd.Handler
import MiningInfra.Jd.Relay

/-!
# The session loop of the declaring client

The client at work: any number of downstream sessions, the loop that `select!` drives, the two
channels between them, the connection to the server and the server itself. A session is cut at its
awaits: it reads the current job and judges the share, writes the answer, sends the share into the
relay channel, and, when it is a block, sends it into the push channel once the block was submitted.
The loop takes one arm at a time and in any order. In the template arm and in the relay it waits for
the answer of the server, during which the sessions go on; a solution is written and not answered.

The server works off the connection in order and serves others in between, who do not know the
token of this client.

`accepted`, `written` and `handled` are not part of the program. They record the shares the proxies
were told are accepted, what the loop wrote, and the batches the server answered.
-/

namespace MiningInfra.Jd.Client

open Lib Coinbase Equihash Payout
open Pool (SubmitEquihashShare)

/-! ## States -/

structure PushSolution where
  channelId : UInt32
  jobId : UInt32
  version : UInt32
  time : UInt32
  nonce : Bytes32
  solution : List UInt8

/-- `send_push_solution`. -/
def PushSolution.of (item : RelayShare) : PushSolution :=
  ⟨jdChannelId, item.jobId, item.share.version, item.share.time, item.share.nonce,
    item.share.solution⟩

/-- The share a solution is for. -/
def PushSolution.item (s : PushSolution) : RelayShare :=
  ⟨s.jobId, ⟨s.version, s.time, s.nonce, s.solution⟩⟩

inductive Message where
  | setCustomJob (request : SetCustomMiningJob)
  | submitShares (msg : SubmitSharesJd)
  | pushSolution (solution : PushSolution)

inductive Reply where
  | declared (result : Except SetCustomMiningJobError SetCustomMiningJobSuccess)
  | shares (response : SubmitSharesJdResponse)

/-- Where a session stands. -/
inductive SessionPhase where
  | ready
  /-- The answer is to be written. -/
  | responding (verdict : DownstreamSession.Verdict)
  /-- An accepted share is to be sent to the loop. -/
  | relaying (item : RelayShare) (block : Bool)
  /-- The share is a block, and is to be sent to the loop again. -/
  | pushing (item : RelayShare)
  | ended

structure Downstream where
  session : DownstreamSession
  phase : SessionPhase

/-- Where the loop stands. -/
inductive LoopPhase where
  | selecting
  /-- A declaration was written. -/
  | declaring (request : SetCustomMiningJob)
  /-- A batch was written, and these follow. -/
  | relaying (rest : List SubmitSharesJd)

/-- A batch the server has answered, with the job it found. -/
structure Handled where
  msg : SubmitSharesJd
  job : Option DeclaredJobInfo
  response : SubmitSharesJdResponse

structure System (F : Type) where
  current : Option CurrentDeclaredJob
  sessions : Nat → Downstream
  relayQueue : List RelayShare
  pushQueue : List RelayShare
  batcher : RelayBatcher
  loop : LoopPhase
  toServer : List Message
  toClient : List Reply
  server : JdState
  books : Books F
  accepted : List RelayShare
  written : List Message
  handled : List Handled

inductive ClientEvent (F : Type) where
  /-- A frame with a share: the current job is read and the share is judged. -/
  | share (k : Nat) (share : SubmitEquihashShare)
  | respond (k : Nat)
  | disconnect (k : Nat)
  | relay (k : Nat)
  | push (k : Nat)
  /-- The template arm, with the declaration built from the template. -/
  | template (request : SetCustomMiningJob)
  | takeRelay
  | takePush
  | tick
  /-- The loop reads the answer it waits for. -/
  | answer
  /-- The server handles the next message of this client. -/
  | serve (now : Nat)
  /-- The server serves others. -/
  | other (server : JdState) (books : Books F)

/-! ## Steps -/

/-- The capacities of the channels. -/
def relayCapacity : Nat := 256

def pushCapacity : Nat := 32

/-- What the system is run with: the libraries, the configuration of the server and the token the
client was given. -/
structure Setting (F : Type) where
  validator : EquihashValidator
  targetToDifficulty : Bytes32 → F
  config : JdServerConfig
  token : List UInt8

namespace System

variable {F : Type}

/-- The client has its token, and nothing has happened. The `k`-th connection has channel id
`k + 1`. -/
structure Start (c : Setting F) (s : System F) : Prop where
  token : ∃ t, s.server.tokens.lookup c.token = some t
  current : s.current = none
  sessions : s.sessions = fun k => ⟨.new (UInt32.ofNat (k + 1)), .ready⟩
  relayQueue : s.relayQueue = []
  pushQueue : s.pushQueue = []
  batcher : s.batcher = .new jdChannelId
  loop : s.loop = .selecting
  toServer : s.toServer = []
  toClient : s.toClient = []
  accepted : s.accepted = []
  written : s.written = []
  handled : s.handled = []

def setPhase (s : System F) (k : Nat) (phase : SessionPhase) : System F :=
  { s with sessions := Function.update s.sessions k { s.sessions k with phase } }

def write (s : System F) (m : Message) : System F :=
  { s with toServer := s.toServer ++ [m], written := s.written ++ [m] }

/-- Write the next of the batches, or go back to `select!`. -/
def relayNext (s : System F) : List SubmitSharesJd → System F
  | [] => { s with loop := .selecting }
  | msg :: rest => { s.write (.submitShares msg) with loop := .relaying rest }

def judge (v : EquihashValidator) (s : System F) (k : Nat) (share : SubmitEquihashShare) :
    System F :=
  let handled := (s.sessions k).session.handleShare v s.current share
  { s with sessions := Function.update s.sessions k ⟨handled.1, .responding handled.2⟩ }

/-- The answer is written. From here on an accepted share is one the proxy was told of. -/
def respond (s : System F) (k : Nat) (verdict : DownstreamSession.Verdict) : System F :=
  match verdict.relay with
  | some (item, block) => { s.setPhase k (.relaying item block) with
      accepted := s.accepted ++ [item] }
  | none => s.setPhase k .ready

def relay (s : System F) (k : Nat) (item : RelayShare) (block : Bool) : System F :=
  { s.setPhase k (if block then .pushing item else .ready) with
    relayQueue := s.relayQueue ++ [item] }

def push (s : System F) (k : Nat) (item : RelayShare) : System F :=
  { s.setPhase k .ready with pushQueue := s.pushQueue ++ [item] }

/-- `handle_coinbase_only_job` up to the answer. -/
def declare (c : Setting F) (s : System F) (request : SetCustomMiningJob) : System F :=
  let request := { request with channelId := jdChannelId, miningJobToken := c.token }
  { s.write (.setCustomJob request) with loop := .declaring request }

/-- Read an answer. An expired token would be replaced by another one, which is a run of its own. -/
def answer (s : System F) : Option (System F) :=
  match s.loop, s.toClient with
  | .declaring request, .declared (.ok success) :: rest =>
    some { s with current := some (.of request success), loop := .selecting, toClient := rest }
  | .declaring _, .declared (.error e) :: rest =>
    if e.errorCode = .tokenExpired then none
    else some { s with loop := .selecting, toClient := rest }
  | .relaying batches, .shares _ :: rest => some ({ s with toClient := rest }.relayNext batches)
  | _, _ => none

variable [Float64 F]

/-- The server handles a message. A panic would end the connection. -/
def handle (c : Setting F) (s : System F) (now : Nat) : Message → Option (System F)
  | .setCustomJob request =>
    match handleDeclareJob c.validator.hashes c.config s.server now request with
    | (server, .ok success) =>
      some { s with server, toClient := s.toClient ++ [.declared (.ok success)] }
    | (server, .err e) => some { s with server, toClient := s.toClient ++ [.declared (.error e)] }
    | (_, .panic) => none
  | .submitShares msg =>
    let r := handleSubmitSharesJd c.validator c.targetToDifficulty s.server now s.books msg
    some { s with
      books := r.1
      toClient := s.toClient ++ [.shares r.2]
      handled := s.handled ++ [⟨msg, findJobById s.server.tokens now msg.jobId, r.2⟩] }
  | .pushSolution _ => some s

def next (c : Setting F) (s : System F) : ClientEvent F → Option (System F)
  | .share k share =>
    match (s.sessions k).phase with
    | .ready => some (s.judge c.validator k share)
    | _ => none
  | .respond k =>
    match (s.sessions k).phase with
    | .responding verdict => some (s.respond k verdict)
    | _ => none
  | .disconnect k =>
    match (s.sessions k).phase with
    | .ready => some (s.setPhase k .ended)
    | .responding _ => some (s.setPhase k .ended)
    | _ => none
  | .relay k =>
    match (s.sessions k).phase with
    | .relaying item block =>
      if s.relayQueue.length < relayCapacity then some (s.relay k item block) else none
    | _ => none
  | .push k =>
    match (s.sessions k).phase with
    | .pushing item => if s.pushQueue.length < pushCapacity then some (s.push k item) else none
    | _ => none
  | .template request =>
    match s.loop with
    | .selecting => some (s.declare c request)
    | _ => none
  | .takeRelay =>
    match s.loop, s.relayQueue with
    | .selecting, item :: rest =>
      let pushed := s.batcher.push item
      some ({ s with relayQueue := rest, batcher := pushed.1 }.relayNext pushed.2.toList)
    | _, _ => none
  | .takePush =>
    match s.loop, s.pushQueue with
    | .selecting, item :: rest =>
      some ({ s with pushQueue := rest }.write (.pushSolution (.of item)))
    | _, _ => none
  | .tick =>
    match s.loop with
    | .selecting =>
      let flushed := s.batcher.flushAll
      some ({ s with batcher := flushed.1 }.relayNext flushed.2)
    | _ => none
  | .answer => s.answer
  | .serve now =>
    match s.toServer with
    | m :: rest => { s with toServer := rest }.handle c now m
    | [] => none
  | .other server books =>
    if server.tokens.lookup c.token = s.server.tokens.lookup c.token then
      some { s with server, books }
    else none

/-! ## What a step can do -/

/-- The transitions, one constructor for each. -/
inductive Step (c : Setting F) (s : System F) : ClientEvent F → System F → Prop where
  | share {k : Nat} {share : SubmitEquihashShare} (hphase : (s.sessions k).phase = .ready) :
      Step c s (.share k share) (s.judge c.validator k share)
  | respond {k : Nat} {verdict : DownstreamSession.Verdict}
      (hphase : (s.sessions k).phase = .responding verdict) :
      Step c s (.respond k) (s.respond k verdict)
  | disconnect {k : Nat}
      (hphase : (s.sessions k).phase = .ready ∨
        ∃ verdict, (s.sessions k).phase = .responding verdict) :
      Step c s (.disconnect k) (s.setPhase k .ended)
  | relay {k : Nat} {item : RelayShare} {block : Bool}
      (hphase : (s.sessions k).phase = .relaying item block)
      (hroom : s.relayQueue.length < relayCapacity) :
      Step c s (.relay k) (s.relay k item block)
  | push {k : Nat} {item : RelayShare} (hphase : (s.sessions k).phase = .pushing item)
      (hroom : s.pushQueue.length < pushCapacity) : Step c s (.push k) (s.push k item)
  | template {request : SetCustomMiningJob} (hloop : s.loop = .selecting) :
      Step c s (.template request) (s.declare c request)
  | takeRelay {item : RelayShare} {rest : List RelayShare} (hloop : s.loop = .selecting)
      (hqueue : s.relayQueue = item :: rest) :
      Step c s .takeRelay
        ({ s with relayQueue := rest, batcher := (s.batcher.push item).1 }.relayNext
          (s.batcher.push item).2.toList)
  | takePush {item : RelayShare} {rest : List RelayShare} (hloop : s.loop = .selecting)
      (hqueue : s.pushQueue = item :: rest) :
      Step c s .takePush ({ s with pushQueue := rest }.write (.pushSolution (.of item)))
  | tick (hloop : s.loop = .selecting) :
      Step c s .tick ({ s with batcher := s.batcher.flushAll.1 }.relayNext s.batcher.flushAll.2)
  | declared {request : SetCustomMiningJob} {success : SetCustomMiningJobSuccess}
      {rest : List Reply} (hloop : s.loop = .declaring request)
      (hreply : s.toClient = .declared (.ok success) :: rest) :
      Step c s .answer
        { s with current := some (.of request success), loop := .selecting, toClient := rest }
  | refused {request : SetCustomMiningJob} {e : SetCustomMiningJobError} {rest : List Reply}
      (hloop : s.loop = .declaring request) (hreply : s.toClient = .declared (.error e) :: rest) :
      Step c s .answer { s with loop := .selecting, toClient := rest }
  | relayed {batches : List SubmitSharesJd} {response : SubmitSharesJdResponse}
      {rest : List Reply} (hloop : s.loop = .relaying batches)
      (hreply : s.toClient = .shares response :: rest) :
      Step c s .answer ({ s with toClient := rest }.relayNext batches)
  | accept {now : Nat} {request : SetCustomMiningJob} {rest : List Message} {server : JdState}
      {success : SetCustomMiningJobSuccess} (hmessage : s.toServer = .setCustomJob request :: rest)
      (hhandle : handleDeclareJob c.validator.hashes c.config s.server now request
        = (server, .ok success)) :
      Step c s (.serve now) { s with
        toServer := rest, server, toClient := s.toClient ++ [.declared (.ok success)] }
  | reject {now : Nat} {request : SetCustomMiningJob} {rest : List Message} {server : JdState}
      {e : SetCustomMiningJobError} (hmessage : s.toServer = .setCustomJob request :: rest)
      (hhandle : handleDeclareJob c.validator.hashes c.config s.server now request
        = (server, .err e)) :
      Step c s (.serve now) { s with
        toServer := rest, server, toClient := s.toClient ++ [.declared (.error e)] }
  | batch {now : Nat} {msg : SubmitSharesJd} {rest : List Message} {books : Books F}
      {response : SubmitSharesJdResponse} (hmessage : s.toServer = .submitShares msg :: rest)
      (hhandle : handleSubmitSharesJd c.validator c.targetToDifficulty s.server now s.books msg
        = (books, response)) :
      Step c s (.serve now) { s with
        toServer := rest, books, toClient := s.toClient ++ [.shares response]
        handled := s.handled ++ [⟨msg, findJobById s.server.tokens now msg.jobId, response⟩] }
  | solution {now : Nat} {p : PushSolution} {rest : List Message}
      (hmessage : s.toServer = .pushSolution p :: rest) :
      Step c s (.serve now) { s with toServer := rest }
  | other {server : JdState} {books : Books F}
      (htoken : server.tokens.lookup c.token = s.server.tokens.lookup c.token) :
      Step c s (.other server books) { s with server, books }

theorem step_of_next {c : Setting F} {s s' : System F} {e : ClientEvent F}
    (h : s.next c e = some s') : s.Step c e s' := by
  cases e with
  | share k share =>
    simp only [next] at h
    split at h
    · cases h
      exact .share ‹_›
    · cases h
  | respond k =>
    simp only [next] at h
    split at h
    · cases h
      exact .respond ‹_›
    · cases h
  | disconnect k =>
    simp only [next] at h
    split at h
    · cases h
      exact .disconnect (.inl ‹_›)
    · cases h
      exact .disconnect (.inr ⟨_, ‹_›⟩)
    · cases h
  | relay k =>
    simp only [next] at h
    split at h
    · split at h
      · cases h
        exact .relay ‹_› ‹_›
      · cases h
    · cases h
  | push k =>
    simp only [next] at h
    split at h
    · split at h
      · cases h
        exact .push ‹_› ‹_›
      · cases h
    · cases h
  | template request =>
    simp only [next] at h
    split at h
    · cases h
      exact .template ‹_›
    · cases h
  | takeRelay =>
    simp only [next] at h
    split at h
    · cases h
      exact .takeRelay ‹_› ‹_›
    · cases h
  | takePush =>
    simp only [next] at h
    split at h
    · cases h
      exact .takePush ‹_› ‹_›
    · cases h
  | tick =>
    simp only [next] at h
    split at h
    · cases h
      exact .tick ‹_›
    · cases h
  | answer =>
    simp only [next, answer] at h
    split at h
    · cases h
      exact .declared ‹_› ‹_›
    · split at h
      · cases h
      · cases h
        exact .refused ‹_› ‹_›
    · cases h
      exact .relayed ‹_› ‹_›
    · cases h
  | serve now =>
    simp only [next] at h
    split at h
    · rename_i m rest hmessage
      cases m with
      | setCustomJob request =>
        simp only [handle] at h
        split at h
        · cases h
          exact .accept hmessage ‹_›
        · cases h
          exact .reject hmessage ‹_›
        · cases h
      | submitShares msg =>
        cases h
        exact .batch hmessage rfl
      | pushSolution p =>
        cases h
        exact .solution hmessage
    · cases h
  | other server books =>
    obtain ⟨hguard, rfl⟩ := of_guard h
    exact .other hguard

end System

/-! ## A sample -/

def sampleSetting : Setting Nat := ⟨sampleValidator, fun _ => 1, sampleConfig, [0x01]⟩

/-- A client with the token `01` of a server that holds the sample template. -/
def sampleSystem : System Nat where
  current := none
  sessions k := ⟨.new (UInt32.ofNat (k + 1)), .ready⟩
  relayQueue := []
  pushQueue := []
  batcher := .new jdChannelId
  loop := .selecting
  toServer := []
  toClient := []
  server := sampleServer (sampleTemplate [])
  books := ⟨∅, .new false⟩
  accepted := []
  written := []
  handled := []

theorem start_sampleSystem : sampleSystem.Start sampleSetting :=
  ⟨⟨_, rfl⟩, rfl, rfl, rfl, rfl, rfl, rfl, rfl, rfl, rfl, rfl, rfl⟩

/-- The plain coinbase is declared. -/
def declareRun : List (ClientEvent Nat) := [.template sampleRequest, .serve 0, .answer]

/-- A block is found: its share is accepted and sent to the loop, and then the block. -/
def blockRun : List (ClientEvent Nat) :=
  [.share 0 (sampleShare 1700000000), .respond 0, .relay 0, .push 0]

end MiningInfra.Jd.Client
