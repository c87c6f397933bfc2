import MiningInfra.Sidecar.Buffer
import MiningInfra.Sidecar.Submit

/-!
# The receive task

One task takes the payloads of the relay in turn and submits what they amount to; attempts at
unreadable bodies run beside it. Five ways lead from a payload to `submit_block`: the gated
handlers of compact and of raw blocks, the fast path for skeletons and for compact blocks that go
past the gate, the handler of raw blocks where there is no gate, and the bypass.

The submissions themselves are tasks of `World`: the receive task awaits task 0, the others are
attempts of the bypass.
-/

namespace MiningInfra.Sidecar

open Lib Coinbase Relay

inductive RelayPayload where
  | compactBlock (compact : CompactBlock)
  | compactSkeleton (compact : CompactBlock)
  | rawBlockSegment (segment : RawBlockSegment)

/-- `HashDedupRing`. -/
abbrev HashDedupRing := Recent String

/-- Like the ring of the gate, but nothing is kept without a capacity. -/
def HashDedupRing.record (r : HashDedupRing) (hash : String) (now : Nat) : HashDedupRing :=
  if r.capacity = 0 then r.evictExpired now else Recent.record r hash now

/-- `FAST_PATH_DEDUP_CAPACITY` and `FAST_PATH_DEDUP_WINDOW`. -/
def HashDedupRing.fastPath : HashDedupRing := .new 256 300000

/-- What the receive task was started with. -/
structure Settings where
  compactReconstructionEnabled : Bool
  /-- The gate and the view of the chain are there. -/
  gated : Bool
  /-- The permits of the bypass, if it is on. -/
  unreadableSubmit : Option Nat
  deriving DecidableEq, Repr

/-- What the receive task does with the outcome it awaits. -/
inductive Resume where
  | gatedCompact (headerHash : String)
  /-- `submit_compact_fast_path`, with the time it was called at. -/
  | fastPath (blockHash : String) (now : Nat)
  | raw (rawBlockHash : String) (rawBlock : List UInt8)

inductive Receiving where
  | idle
  | awaiting (resume : Resume)

/-- The receive task with what it shares. `received` is a record of the payloads, each with the
mempool it met. -/
structure Receiver where
  settings : Settings
  world : World
  rawSegments : RawSegmentBuffer
  fastPathDedup : HashDedupRing
  receiving : Receiving
  /-- The attempts of the bypass, and the number of the next. -/
  attempts : List Nat
  nextAttempt : Nat
  received : List (RelayPayload × Mempool)

/-- The third-party code the receive task calls. -/
structure Externals where
  hashes : Hashes
  reader : TxReader
  sip : SipHash
  pow : PowValidator

/-- The refusal the bypass may override: a transaction that did not parse. -/
def unreadableBody : Outcome → Option BlockBodyError
  | .error (.invalidBlockBody (.transaction index)) => some (.transaction index)
  | _ => none

/-- `Submitted` or `DryRun`. -/
def Outcome.done : Outcome → Bool
  | .ok (.submitted _ _) | .ok (.dryRun _) => true
  | _ => false

/-- `handle_relay_compact_block_with_mempool` up to the submission. -/
def candidateWithMempool (x : Externals) (mempool : Mempool) (compact : CompactBlock) :
    Except Outcome SubmissionCandidate :=
  match buildSubmissionCandidateWithMempool x.hashes x.reader x.sip mempool compact with
  | .ok candidate => .ok candidate
  | .error (.reconstructionIncomplete blockHash missing missingWtxids unresolvedShortIds) =>
    match GetBlockTxn.fromMissingIndexes blockHash missing with
    | .ok request => .error (.ok (.needsTransactions request missing.length missingWtxids.length
        unresolvedShortIds.length))
    | .error _ => .error (.error (.reconstructionInvalid
        "failed to build getblocktxn request from missing indexes"))
  | .error error => .error (.error error)

/-- A candidate or the outcome of having none. -/
def orOutcome (built : Except RelayBlockError SubmissionCandidate) :
    Except Outcome SubmissionCandidate :=
  match built with
  | .ok candidate => .ok candidate
  | .error error => .error (.error error)

/-- The candidate of the fast path. -/
def fastPathCandidate (x : Externals) (settings : Settings) (mempool : Mempool)
    (compact : CompactBlock) (isSkeleton : Bool) : Except Outcome SubmissionCandidate :=
  if isSkeleton || (settings.compactReconstructionEnabled && !compact.shortIds.isEmpty) then
    candidateWithMempool x mempool compact
  else orOutcome (buildSubmissionCandidate x.hashes x.reader compact)

namespace Receiver

/-- `UnreadableSubmit::spawn`: an attempt runs if there is a permit for it. -/
def spawn (x : Externals) (s : Receiver) (permits : Nat) (rawBlock : List UInt8)
    (error : BlockBodyError) : Receiver :=
  let running := s.attempts.filter fun id => !s.world.isOver id
  if permits ≤ running.length then s
  else match unverifiedRawCandidate x.hashes x.pow rawBlock error with
    | .error _ => s
    | .ok candidate => { s with
        attempts := s.nextAttempt :: running
        nextAttempt := s.nextAttempt + 1
        world := s.world.start x.hashes s.nextAttempt
          ⟨.unverified, candidate, rawBlock.take zcashFullHeaderSize, none, .lookup⟩ }

def recordSubmitted (s : Receiver) (outcome : Outcome) (hash : String) (now : Nat) : Receiver :=
  if outcome.done then { s with fastPathDedup := HashDedupRing.record s.fastPathDedup hash now }
  else s

/-- The receive task has its outcome and takes up the next payload. -/
def resume (x : Externals) (s : Receiver) (what : Resume) (outcome : Outcome) : Receiver :=
  let s := { s with receiving := .idle }
  match what with
  | .gatedCompact hash => s.recordSubmitted outcome hash s.world.clock
  | .fastPath hash now => s.recordSubmitted outcome hash now
  | .raw hash rawBlock =>
    match unreadableBody outcome, s.settings.unreadableSubmit, s.settings.gated with
    | some error, some permits, true => s.spawn x permits rawBlock error
    | _, _, _ => s.recordSubmitted outcome hash s.world.clock

/-- Await the submission of what was built, or go on with the outcome of having built nothing. -/
def submit (x : Externals) (s : Receiver) (route : Route)
    (built : Except Outcome SubmissionCandidate) (header : List UInt8) (what : Resume) : Receiver :=
  match built with
  | .error outcome => s.resume x what outcome
  | .ok candidate => { s with
      receiving := .awaiting what
      world := s.world.start x.hashes 0 ⟨route, candidate, header, none, .lookup⟩ }

/-- Nothing is done for a hash that is in the ring. -/
def unlessSubmitted (s : Receiver) (hash : String) (k : Receiver → Receiver) : Receiver :=
  let (known, fastPathDedup) := s.fastPathDedup.contains hash s.world.clock
  let s := { s with fastPathDedup }
  if known then s else k s

def headerHash (x : Externals) (header : List UInt8) : String :=
  hexEncode (zcashBlockHash x.hashes header).toList

def submitCompactFastPath (x : Externals) (s : Receiver) (mempool : Mempool)
    (compact : CompactBlock) (isSkeleton : Bool) : Receiver :=
  let blockHash := headerHash x compact.header
  s.unlessSubmitted blockHash fun s =>
    s.submit x .ungated (fastPathCandidate x s.settings mempool compact isSkeleton) compact.header
      (.fastPath blockHash s.world.clock)

def receiveCompact (x : Externals) (s : Receiver) (mempool : Mempool) (compact : CompactBlock) :
    Receiver :=
  -- the gated handler does not reconstruct from short ids
  if s.settings.gated && (!s.settings.compactReconstructionEnabled || compact.shortIds.isEmpty) then
    let hash := headerHash x compact.header
    s.unlessSubmitted hash fun s =>
      s.submit x .gated (orOutcome (buildSubmissionCandidate x.hashes x.reader compact))
        compact.header (.gatedCompact hash)
  else s.submitCompactFastPath x mempool compact false

def receiveRawBlock (x : Externals) (s : Receiver) (blockHash : Bytes32) (rawBlock : List UInt8) :
    Receiver :=
  if rawBlock.length < zcashFullHeaderSize then s
  else
    let header := rawBlock.take zcashFullHeaderSize
    let hash := headerHash x header
    s.unlessSubmitted hash fun s =>
      s.submit x (if s.settings.gated then .gated else .ungated)
        (orOutcome (buildRawBlockSubmissionCandidate x.hashes x.reader rawBlock (some blockHash)))
        header (.raw hash rawBlock)

def receiveSegment (x : Externals) (s : Receiver) (segment : RawBlockSegment) : Receiver :=
  match s.rawSegments.insert segment s.world.clock with
  | (.complete segments _, rawSegments) =>
    match reassembleRawBlock x.hashes segments with
    | .ok rawBlock => { s with rawSegments }.receiveRawBlock x segment.blockHash rawBlock
    | .error _ => { s with rawSegments }
  | (_, rawSegments) => { s with rawSegments }

def receive (x : Externals) (s : Receiver) (payload : RelayPayload) (mempool : Mempool) : Receiver :=
  match payload with
  | .compactBlock compact => s.receiveCompact x mempool compact
  | .compactSkeleton compact => s.submitCompactFastPath x mempool compact true
  | .rawBlockSegment segment => s.receiveSegment x segment

end Receiver

/-- What happens to it. -/
inductive ReceiverEvent where
  /-- The receive task takes up a payload. -/
  | payload (payload : RelayPayload) (mempool : Mempool)
  /-- It has the outcome it awaited. -/
  | resume
  /-- The cleanup interval ticks. -/
  | cleanup
  /-- A step of a submission, of the poller or of the clock. -/
  | step (event : Event)

/-- Submissions are started by the receive task alone. -/
def Event.isStart : Event → Bool
  | .start .. => true
  | _ => false

namespace Receiver

def next (x : Externals) (s : Receiver) : ReceiverEvent → Option Receiver
  | .payload payload mempool =>
    match s.receiving with
    | .idle =>
      some ({ s with received := (payload, mempool) :: s.received }.receive x payload mempool)
    | .awaiting _ => none
  | .resume =>
    match s.receiving with
    | .idle => none
    | .awaiting what => do
      let task ← s.world.tasks.lookup 0
      match task.phase with
      | .done outcome => some (s.resume x what outcome)
      | _ => none
  | .cleanup =>
    match s.receiving with
    | .idle => some { s with rawSegments := s.rawSegments.expire s.world.clock }
    | .awaiting _ => none
  | .step event =>
    if event.isStart then none
    else (s.world.next x.hashes event).map fun world => { s with world }

/-- A gate is configured and enabled; nothing has happened yet. -/
structure Fresh (s : Receiver) : Prop where
  gated : s.settings.gated = true
  world : s.world.Fresh
  receiving : s.receiving = .idle
  attempts : s.attempts = [] ∧ s.nextAttempt = 1
  received : s.received = []

/-! ## Which calls the gate has seen -/

/-- The payloads that take the fast path although there is a gate: skeletons, and compact blocks
with short ids when these are to be reconstructed. -/
def PastGate (settings : Settings) : RelayPayload → Prop
  | .compactSkeleton _ => True
  | .compactBlock compact => settings.compactReconstructionEnabled = true ∧ compact.shortIds ≠ []
  | .rawBlockSegment _ => False

/-- The candidate a payload gives with this mempool. -/
def Builds (x : Externals) (mempool : Mempool) (candidate : SubmissionCandidate) :
    RelayPayload → Prop
  | .compactBlock compact | .compactSkeleton compact =>
    buildSubmissionCandidateWithMempool x.hashes x.reader x.sip mempool compact = .ok candidate
  | .rawBlockSegment _ => False

/-- A candidate of a payload that took the fast path. -/
def Exempt (x : Externals) (s : Receiver) (candidate : SubmissionCandidate) : Prop :=
  ∃ p ∈ s.received, PastGate s.settings p.1 ∧ Builds x p.2 candidate p.1

/-- Every call in the journal comes after a decision of the gate that let the candidate through,
unless it is exempt. -/
def Mediated (exempt : SubmissionCandidate → Prop) : List Entry → Prop
  | [] => True
  | entry :: older =>
    (∀ candidate, entry = .called candidate → exempt candidate ∨ ∃ verified parent time,
      Entry.judged verified candidate parent (.ok ()) time ∈ older) ∧ Mediated exempt older

variable {exempt : SubmissionCandidate → Prop} {built : Except Outcome SubmissionCandidate}
  {what : Resume} {mempool : Mempool} {compact : CompactBlock} {hash : String}
  {k : Receiver → Receiver}

theorem Mediated.mono {exempt' : SubmissionCandidate → Prop}
    (himp : ∀ candidate, exempt candidate → exempt' candidate) :
    ∀ {journal : List Entry}, Mediated exempt journal → Mediated exempt' journal
  | [], _ => trivial
  | _ :: _, h => ⟨fun candidate hc => (h.1 candidate hc).imp_left (himp candidate), h.2.mono himp⟩

theorem Mediated.cons {journal : List Entry} {entry : Entry} (h : Mediated exempt journal)
    (hentry : ∀ candidate, entry ≠ .called candidate) : Mediated exempt (entry :: journal) :=
  ⟨fun candidate hc => absurd hc (hentry candidate), h⟩

/-- A step of a task that is under way calls Zebra only right after the gate let it through. -/
theorem Mediated.writes {hashes : Hashes} {w : World} {e : Event} {l : List Entry}
    (h : Mediated exempt w.journal) (hstart : e.isStart = false) (hl : World.Writes hashes w e l) :
    Mediated exempt (l ++ w.journal) := by
  cases hl with
  | nothing => exact h
  | ungated he => rw [he] at hstart; exact absurd hstart (by simp [Event.isStart])
  | refused | answered | recorded => exact h.cons (by simp)
  | @passed id task info calls he htask hinfo hjudge hcalls =>
    have hjudged : Mediated exempt
        (.judged task.verified task.candidate task.parent (.ok ()) w.clock :: w.journal) :=
      h.cons (by simp)
    rcases hcalls with rfl | rfl
    · exact hjudged
    · refine ⟨?_, hjudged⟩
      intro candidate hc
      cases hc
      exact Or.inr ⟨_, _, _, List.mem_cons_self⟩

variable {x : Externals} {s s' : Receiver} {header : List UInt8}

theorem journal_start (w : World) {id : Nat} {task : Task} (h : task.route ≠ .ungated) :
    (w.start x.hashes id task).journal = w.journal := by
  unfold World.start
  rw [if_neg h]
  rfl

theorem journal_spawn (permits : Nat) (rawBlock : List UInt8) (error : BlockBodyError) :
    (s.spawn x permits rawBlock error).world.journal = s.world.journal := by
  unfold spawn
  dsimp only
  split
  · rfl
  split
  · rfl
  · exact journal_start _ (by simp)

theorem journal_resume (what : Resume) (outcome : Outcome) :
    (s.resume x what outcome).world.journal = s.world.journal := by
  have hrecord : ∀ (s : Receiver) hash now,
      (s.recordSubmitted outcome hash now).world.journal = s.world.journal := by
    intro s hash now
    unfold recordSubmitted
    split <;> rfl
  unfold resume
  cases what with
  | gatedCompact hash | fastPath hash now => exact hrecord _ _ _
  | raw hash rawBlock =>
    dsimp only
    split
    · exact journal_spawn _ _ _
    · exact hrecord _ _ _

/-- A submission past the gate is a call at once, the others none yet. -/
theorem journal_submit {route : Route} :
    (s.submit x route built header what).world.journal = s.world.journal
      ∨ route = .ungated ∧ ∃ candidate, built = .ok candidate
        ∧ (s.submit x route built header what).world.journal
          = .called candidate :: s.world.journal := by
  unfold submit
  cases built with
  | error outcome => exact Or.inl (journal_resume what outcome)
  | ok candidate =>
    by_cases hroute : route = .ungated
    · subst hroute
      obtain ⟨calls, hcalls, hjournal⟩ := World.journal_submit x.hashes s.world 0
        ⟨.ungated, candidate, header, none, .lookup⟩
      rcases hcalls with rfl | rfl
      · exact Or.inl hjournal
      · exact Or.inr ⟨rfl, candidate, rfl, hjournal⟩
    · exact Or.inl (journal_start s.world hroute)

theorem unlessSubmitted_cases (s : Receiver) (hash : String) (k : Receiver → Receiver) :
    ∃ fastPathDedup, s.unlessSubmitted hash k = { s with fastPathDedup }
      ∨ s.unlessSubmitted hash k = k { s with fastPathDedup } := by
  refine ⟨(s.fastPathDedup.contains hash s.world.clock).2, ?_⟩
  unfold unlessSubmitted
  dsimp only
  split
  · exact Or.inl rfl
  · exact Or.inr rfl

/-- What taking up a payload adds to the journal. -/
def Adds (x : Externals) (s : Receiver) (payload : RelayPayload) (mempool : Mempool)
    (s' : Receiver) : Prop :=
  s'.world.journal = s.world.journal
    ∨ ∃ candidate, PastGate s.settings payload ∧ Builds x mempool candidate payload
      ∧ s'.world.journal = .called candidate :: s.world.journal

theorem builds_of_candidateWithMempool {candidate : SubmissionCandidate}
    (h : candidateWithMempool x mempool compact = .ok candidate) :
    buildSubmissionCandidateWithMempool x.hashes x.reader x.sip mempool compact
      = .ok candidate := by
  unfold candidateWithMempool at h
  split at h
  · rename_i built hbuilt
    injection h with h
    rw [hbuilt, h]
  · split at h <;> cases h
  · cases h

theorem adds_submitCompactFastPath {isSkeleton : Bool} {payload : RelayPayload}
    (hpast : PastGate s.settings payload)
    (hcandidate : ∀ candidate, fastPathCandidate x s.settings mempool compact isSkeleton
      = .ok candidate → Builds x mempool candidate payload) :
    Adds x s payload mempool (s.submitCompactFastPath x mempool compact isSkeleton) := by
  unfold submitCompactFastPath
  obtain ⟨fastPathDedup, h | h⟩ := unlessSubmitted_cases s (headerHash x compact.header) fun s =>
    s.submit x .ungated (fastPathCandidate x s.settings mempool compact isSkeleton) compact.header
      (.fastPath (headerHash x compact.header) s.world.clock)
  · exact h ▸ Or.inl rfl
  rw [h]
  rcases journal_submit with h | ⟨-, candidate, hbuilt, hjournal⟩
  · exact Or.inl h
  · exact Or.inr ⟨candidate, hpast, hcandidate candidate hbuilt, hjournal⟩

/-- The gated handlers call nobody before the gate has decided. -/
theorem adds_gated {payload : RelayPayload}
    (hk : ∀ s : Receiver, s.settings.gated = true → (k s).world.journal = s.world.journal)
    (hgated : s.settings.gated = true) : Adds x s payload mempool (s.unlessSubmitted hash k) := by
  obtain ⟨fastPathDedup, h | h⟩ := unlessSubmitted_cases s hash k
  · exact h ▸ Or.inl rfl
  · exact h ▸ Or.inl (hk _ hgated)

theorem journal_submit_gated :
    (s.submit x .gated built header what).world.journal = s.world.journal := by
  rcases journal_submit (s := s) (x := x) with h | ⟨h, -⟩
  · exact h
  · cases h

section

variable (hgated : s.settings.gated = true)

include hgated

theorem adds_receiveCompact :
    Adds x s (.compactBlock compact) mempool (s.receiveCompact x mempool compact) := by
  unfold receiveCompact
  split
  · exact adds_gated (fun _ _ => journal_submit_gated) hgated
  · rename_i hpast
    have hpast : s.settings.compactReconstructionEnabled = true ∧ compact.shortIds ≠ [] := by
      simpa [hgated] using hpast
    refine adds_submitCompactFastPath hpast ?_
    intro candidate hcandidate
    unfold fastPathCandidate at hcandidate
    rw [if_pos (by simp [hpast])] at hcandidate
    exact builds_of_candidateWithMempool hcandidate

theorem adds_receiveSegment {segment : RawBlockSegment} :
    Adds x s (.rawBlockSegment segment) mempool (s.receiveSegment x segment) := by
  unfold receiveSegment
  split
  · split
    · unfold receiveRawBlock
      split
      · exact Or.inl rfl
      · refine adds_gated (s := { s with rawSegments := _ }) ?_ hgated
        intro s hgated
        rw [if_pos hgated]
        exact journal_submit_gated
    · exact Or.inl rfl
  · exact Or.inl rfl

/-- Taking up a payload calls Zebra only for one that takes the fast path. -/
theorem adds_receive (payload : RelayPayload) (mempool : Mempool) :
    Adds x s payload mempool (s.receive x payload mempool) := by
  unfold receive
  cases payload with
  | compactBlock compact => exact adds_receiveCompact hgated
  | rawBlockSegment segment => exact adds_receiveSegment hgated
  | compactSkeleton compact =>
    refine adds_submitCompactFastPath trivial ?_
    intro candidate hcandidate
    exact builds_of_candidateWithMempool hcandidate

end

/-- The settings and the record of payloads stay as they are. -/
def Keeps (s s' : Receiver) : Prop := s'.settings = s.settings ∧ s'.received = s.received

theorem keeps_resume (s : Receiver) (what : Resume) (outcome : Outcome) :
    Keeps s (s.resume x what outcome) := by
  have hrecord : ∀ (r : Receiver) hash now, Keeps s r →
      Keeps s (r.recordSubmitted outcome hash now) := by
    intro r hash now hr
    unfold recordSubmitted
    split <;> exact hr
  unfold resume
  cases what with
  | gatedCompact hash | fastPath hash now => exact hrecord _ _ _ ⟨rfl, rfl⟩
  | raw hash rawBlock =>
    dsimp only
    split
    · unfold spawn
      dsimp only
      split
      · exact ⟨rfl, rfl⟩
      split <;> exact ⟨rfl, rfl⟩
    · exact hrecord _ _ _ ⟨rfl, rfl⟩

theorem keeps_submit (s : Receiver) (route : Route) (built : Except Outcome SubmissionCandidate)
    (header : List UInt8) (what : Resume) : Keeps s (s.submit x route built header what) := by
  unfold submit
  cases built with
  | error outcome => exact keeps_resume s what outcome
  | ok candidate => exact ⟨rfl, rfl⟩

theorem keeps_unlessSubmitted (hk : ∀ r, Keeps r (k r)) : Keeps s (s.unlessSubmitted hash k) := by
  obtain ⟨fastPathDedup, h | h⟩ := unlessSubmitted_cases s hash k
  · exact h ▸ ⟨rfl, rfl⟩
  · exact h ▸ hk _

theorem keeps_receive (payload : RelayPayload) (mempool : Mempool) :
    Keeps s (s.receive x payload mempool) := by
  have hfast : ∀ compact isSkeleton, Keeps s (s.submitCompactFastPath x mempool compact isSkeleton) :=
    fun _ _ => keeps_unlessSubmitted fun r => keeps_submit r _ _ _ _
  unfold receive
  cases payload with
  | compactSkeleton compact => exact hfast _ _
  | compactBlock compact =>
    dsimp only
    unfold receiveCompact
    split
    · exact keeps_unlessSubmitted fun r => keeps_submit r _ _ _ _
    · exact hfast _ _
  | rawBlockSegment segment =>
    dsimp only
    unfold receiveSegment
    split
    · split
      · unfold receiveRawBlock
        split
        · exact ⟨rfl, rfl⟩
        · exact keeps_unlessSubmitted (s := { s with rawSegments := _ })
            fun r => keeps_submit r _ _ _ _
      · exact ⟨rfl, rfl⟩
    · exact ⟨rfl, rfl⟩

/-- There is a gate, and the journal is mediated. -/
structure Guarded (x : Externals) (s : Receiver) : Prop where
  gated : s.settings.gated = true
  mediated : Mediated (s.Exempt x) s.world.journal

/-- A step that only adds to the record of payloads, or not even that. -/
theorem Guarded.move (hs : s.Guarded x) (hsettings : s'.settings = s.settings)
    (hreceived : s.received ⊆ s'.received) (hjournal : s'.world.journal = s.world.journal) :
    s'.Guarded x := by
  refine ⟨hsettings ▸ hs.gated, ?_⟩
  rw [hjournal]
  refine hs.mediated.mono ?_
  rintro candidate ⟨p, hp, hpast, hbuilds⟩
  exact ⟨p, hreceived hp, hsettings.symm ▸ hpast, hbuilds⟩

theorem guarded_payload (hs : s.Guarded x) (payload : RelayPayload) (mempool : Mempool) :
    Guarded x ({ s with received := (payload, mempool) :: s.received }.receive x payload mempool) := by
  have hlogged : Guarded x { s with received := (payload, mempool) :: s.received } :=
    hs.move rfl (List.subset_cons_self _ _) rfl
  obtain ⟨hsettings, hreceived⟩ := keeps_receive payload mempool
    (s := { s with received := (payload, mempool) :: s.received }) (x := x)
  rcases adds_receive hlogged.gated payload mempool (x := x) with hsame | hcall
  · exact hlogged.move hsettings (by rw [hreceived]; exact List.Subset.refl _) hsame
  · obtain ⟨candidate, hpast, hbuilds, hjournal⟩ := hcall
    have hmed : Mediated
        (Exempt x ({ s with received := (payload, mempool) :: s.received }.receive x payload mempool))
        s.world.journal := by
      refine hlogged.mediated.mono ?_
      rintro c ⟨p, hp, h⟩
      exact ⟨p, hreceived.symm ▸ hp, hsettings.symm ▸ h⟩
    refine ⟨by rw [hsettings]; exact hlogged.gated, ?_⟩
    rw [hjournal]
    refine ⟨?_, hmed⟩
    intro c hc
    cases hc
    exact Or.inl ⟨(payload, mempool), hreceived.symm ▸ List.mem_cons_self, hsettings.symm ▸ hpast,
      hbuilds⟩

theorem guarded_next {e : ReceiverEvent} (hs : s.Guarded x) (h : s.next x e = some s') :
    s'.Guarded x := by
  cases e with
  | payload payload mempool =>
    rw [next] at h
    split at h
    · injection h with h
      exact h ▸ guarded_payload hs payload mempool
    · cases h
  | resume =>
    rw [next] at h
    split at h
    · cases h
    · rename_i what _
      obtain ⟨task, htask, h⟩ := Option.bind_eq_some_iff.mp h
      split at h
      · rename_i outcome _
        injection h with h
        obtain ⟨hsettings, hreceived⟩ := keeps_resume (x := x) s what outcome
        rw [← h]
        exact hs.move hsettings (hreceived ▸ List.Subset.refl _) (journal_resume what outcome)
      · cases h
  | cleanup =>
    rw [next] at h
    split at h
    · injection h with h
      exact h ▸ hs.move rfl (List.Subset.refl _) rfl
    · cases h
  | step event =>
    rw [next] at h
    split at h
    · cases h
    · rename_i hstart
      obtain ⟨world, hworld, h⟩ := Option.map_eq_some_iff.mp h
      obtain ⟨l, hwrites, hjournal⟩ := World.next_writes hworld
      rw [← h]
      refine ⟨hs.gated, ?_⟩
      have hmed := hs.mediated.writes (by simpa using hstart) hwrites
      rw [← hjournal] at hmed
      exact hmed

/-- A header on the parent `11..11` that commits to the plain coinbase. -/
def plainHeader : List UInt8 :=
  [4, 0, 0, 0] ++ List.replicate 32 0x11 ++ Jd.plainDigests.2.toList ++ List.replicate 32 0
    ++ [0x00, 0xf1, 0x53, 0x65, 0xff, 0xff, 0x00, 0x1d] ++ List.replicate 32 0
    ++ [0xfd, 0x40, 0x05] ++ List.replicate 1344 0

/-- Its object id, and its first and second SHA-256. -/
def plainHeaderDigests : Bytes32 × Bytes32 × Bytes32 :=
  (toBytes32 [0xc0, 0x17, 0xd0, 0x53, 0x31, 0x1a, 0x8f, 0x0e, 0x4c, 0x44, 0x9d, 0x72, 0x89, 0xfa,
    0xaa, 0x2b, 0xc5, 0xc7, 0xb6, 0xcf, 0xcd, 0x63, 0x71, 0xdb, 0x51, 0xc0, 0x85, 0x1f, 0x2f,
    0x47, 0xef, 0x3c],
  toBytes32 [0xa9, 0x6e, 0xa4, 0x5b, 0xdc, 0x7e, 0x19, 0x6b, 0x4c, 0x89, 0x2b, 0x14, 0xd1, 0x52,
    0xe5, 0xce, 0xe9, 0xad, 0x6b, 0xd1, 0x30, 0x6e, 0xb2, 0xfd, 0x5d, 0x72, 0x4b, 0x90, 0xfe,
    0x0a, 0x67, 0xfc],
  toBytes32 [0x26, 0x1e, 0x6a, 0x2c, 0x2c, 0xae, 0xaa, 0x6d, 0x3e, 0x0e, 0xae, 0xa3, 0x33, 0x1c,
    0x7e, 0x38, 0x30, 0x73, 0x94, 0x4c, 0x82, 0xe0, 0x25, 0xff, 0x59, 0x45, 0xec, 0x62, 0x5b,
    0x5c, 0xe9, 0x3a])

/-- The hash functions on the header. -/
def plainExternals : Externals where
  hashes := .ofTables
    [(plainHeader, plainHeaderDigests.2.1), (plainHeaderDigests.2.1.toList, plainHeaderDigests.2.2)]
    [((blockHashPersonalization, plainHeader), plainHeaderDigests.1)]
  reader := sampleReader
  sip _ _ _ := 0
  pow _ := .invalid

/-- The block with its one transaction. -/
def plainBlock : CompactBlock where
  header := plainHeader
  nonce := 0
  shortIds := []
  prefilledTxs := [⟨0, Jd.plainWire.serialize⟩]

def emptyMempool : Mempool := ⟨[], fun _ => none⟩

/-- The defaults, with the gate on. -/
def newReceiver : Receiver where
  settings := ⟨false, true, none⟩
  world := .new .live ⟨true, 3, 300000, 256, 4⟩ 256
  rawSegments := .new ⟨128, 67108864, 120000, 136, 88⟩
  fastPathDedup := HashDedupRing.fastPath
  receiving := .idle
  attempts := []
  nextAttempt := 1
  received := []

theorem fresh_newReceiver : newReceiver.Fresh :=
  ⟨rfl, World.fresh_new .live 256 rfl, rfl, ⟨rfl, rfl⟩, rfl⟩

/-- Is there a call in the journal? -/
def hasCalled (s : Receiver) : Bool :=
  s.world.journal.any fun entry => match entry with
    | .called _ => true
    | _ => false

/-- Was there a call and nothing else? -/
def calledOnly (s : Receiver) : Bool :=
  match s.world.journal with
  | [.called _] => true
  | _ => false

end Receiver

end MiningInfra.Sidecar
