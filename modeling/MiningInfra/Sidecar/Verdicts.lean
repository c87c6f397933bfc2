import MiningInfra.Sidecar.Submit

/-!
# What the gate lets through

Two results about every run of submissions. The first is about candidates whose lookup gave
nothing: they are told from others only by their height, which is taken to be one, so they stay
out as long as their parent is not in the cache or height one is below the window. The second
says what a rejection as a duplicate rests on.
-/

namespace MiningInfra.Sidecar

open Lib Coinbase Relay

namespace World

variable {hashes : Hashes} {w w' : World} {e : Event}

theorem config_finish (id : Nat) (task : Task) (outcome : Outcome) :
    (w.finish hashes id task outcome).gate.config = w.gate.config := by
  unfold finish
  split <;> rfl

theorem config_submit (id : Nat) (task : Task) :
    (w.submit hashes id task).gate.config = w.gate.config := by
  unfold submit
  dsimp only
  split
  · exact config_finish id _ _
  · rfl

theorem config_judge (hashes : Hashes) (w : World) (task : Task) (info : CandidateMeta) :
    (w.judge hashes task info).2.config = w.gate.config := by
  unfold judge
  split
  · obtain ⟨g', hages, h | ⟨-, h⟩⟩ := w.gate.applyAt_leaves w.chain task.candidate info w.clock
    · rw [h]; exact hages.config
    · rw [h]; exact hages.config
  · obtain ⟨g', hages, ⟨reason, h⟩ | ⟨-, h⟩⟩ :=
      w.gate.reserveUnverifiedAt_leaves hashes w.chain task.candidate info w.clock
    · rw [h]; exact hages.config
    · rw [h]; exact hages.config

theorem config_decided (id : Nat) (task : Task) :
    (w.decided hashes id task).gate.config = w.gate.config := by
  unfold decided
  split
  · exact config_finish _ _ _
  rename_i info _
  have hconfig := config_judge hashes w task info
  rcases hjudge : w.judge hashes task info with ⟨reason | _, gate⟩
  · rw [hjudge] at hconfig
    exact Eq.trans (config_finish _ _ _) hconfig
  · rw [hjudge] at hconfig
    exact Eq.trans (config_submit _ _) hconfig

/-- No step changes the configuration of the gate. -/
theorem config_next (h : w.next hashes e = some w') : w'.gate.config = w.gate.config := by
  cases Step.of_next h with
  | elapse | poll | confirm | lookedUp => rfl
  | known | timeout | record => exact config_finish _ _ _
  | start =>
    unfold start
    split
    · exact config_submit _ _
    · rfl
  | decide => exact config_decided _ _
  | answer =>
    unfold answered
    split
    · exact config_finish _ _ _
    split
    · rfl
    · dsimp only
      split
      · exact config_finish _ _ _
      · rfl

/-! ## Candidates without an observation -/

/-- Whenever the gate decides on a candidate whose lookup gave nothing, its parent is not in the
cache or height one is below the window of the polled tip. -/
def Screened (w : World) : Event → Prop
  | .decide id => ∀ task, w.tasks.lookup id = some task → task.parent = none →
      ∀ parentHash, parentHashFromHeader task.header = some parentHash →
        w.gate.Screens w.chain parentHash
  | _ => True

instance (g : SubmitGate) (chain : CachedChainState) (parentHash : Bytes32) :
    Decidable (g.Screens chain parentHash) := inferInstanceAs (Decidable (_ ∨ _))

def screened (w : World) : Event → Bool
  | .decide id => (w.tasks.lookup id).all fun task =>
    task.parent.isSome || (parentHashFromHeader task.header).all fun parentHash =>
      decide (w.gate.Screens w.chain parentHash)
  | _ => true

theorem screened_iff (w : World) (e : Event) (h : w.screened e = true) : w.Screened e := by
  cases e with
  | decide id =>
    intro task htask hparent parentHash hhash
    have h : (w.tasks.lookup id).all (fun task => task.parent.isSome ||
        (parentHashFromHeader task.header).all fun parentHash =>
          decide (w.gate.Screens w.chain parentHash)) = true := h
    rw [htask, Option.all_some, hparent, hhash] at h
    simpa using h
  | _ => exact trivial

variable {task task' : Task} {info : CandidateMeta} {hash : String}
  {candidate : SubmissionCandidate} {id : Nat}

/-- The gate turns a screened candidate without an observation away, on either route. -/
theorem judge_unobserved (hashes : Hashes) (henabled : w.gate.config.enabled = true)
    (hinfo : CandidateMeta.fromHeaderBytes task.header task.candidate.blockHash none = .ok info)
    (hscreens : ∀ parentHash, parentHashFromHeader task.header = some parentHash →
      w.gate.Screens w.chain parentHash) :
    ∃ reason, (w.judge hashes task info).1 = .error reason := by
  obtain ⟨hparent, hheight, htip⟩ := SubmitGate.fromHeaderBytes_none hinfo
  obtain ⟨reason, hreason⟩ :=
    SubmitGate.chainRejection_unobserved task.candidate hheight htip (hscreens _ hparent)
  refine ⟨reason, ?_⟩
  unfold judge
  split
  · rw [SubmitGate.applyAt_of_rejection henabled hreason]
  · rw [SubmitGate.reserveUnverifiedAt_of_rejection henabled hreason]

/-- The gate is on, and it never let a candidate without an observation through. -/
structure Discerning (w : World) : Prop where
  enabled : w.gate.config.enabled = true
  judged : ∀ verified candidate decision time,
    Entry.judged verified candidate none decision time ∈ w.journal → ∃ reason, decision = .error reason

theorem discerning_next (hw : w.Discerning) (hok : w.Screened e) (h : w.next hashes e = some w') :
    w'.Discerning := by
  refine ⟨(config_next h).symm ▸ hw.enabled, ?_⟩
  intro verified candidate decision time hmem
  obtain ⟨l, hwrites, hjournal⟩ := next_writes h
  rw [hjournal] at hmem
  rcases List.mem_append.mp hmem with hmem | hmem
  · -- a decision is new only where the gate was asked
    cases hwrites with
    | refused he htask hinfo hjudge =>
      rw [List.mem_singleton] at hmem
      injection hmem with _ _ _ hdecision
      exact ⟨_, hdecision⟩
    | @passed id task info calls he htask hinfo hjudge hcalls =>
      have hnew : Entry.judged verified candidate none decision time
          = .judged task.verified task.candidate task.parent (.ok ()) w.clock := by
        rcases hcalls with rfl | rfl
        · simpa using hmem
        · simpa using hmem
      injection hnew with _ _ hparent
      subst he
      obtain ⟨reason, hreason⟩ := judge_unobserved hashes hw.enabled
        (hparent.symm ▸ hinfo) (hok task htask hparent.symm)
      rw [hjudge] at hreason
      cases hreason
    | _ => exact absurd hmem (by simp)
  · exact hw.judged verified candidate decision time hmem

/-- **Candidates without an observation stay out.** In every run in which each of them is
screened when the gate decides on it, whatever was polled, cached and submitted before, none is
accepted and none gets a reservation. -/
theorem unobserved_rejected (h : Reach (next hashes) Screened Fresh w) {verified : Bool}
    {candidate : SubmissionCandidate} {decision : SubmitGate.Decision} {time : Nat}
    (hmem : Entry.judged verified candidate none decision time ∈ w.journal) :
    ∃ reason, decision = .error reason := by
  have hw : w.Discerning := by
    refine h.invariant (I := Discerning) ?_ ?_
    · intro s hs
      refine ⟨hs.enabled, ?_⟩
      intro _ _ _ _ hmem
      rw [hs.journal] at hmem
      cases hmem
    · intro s e s' hs hok hnext
      exact discerning_next hs hok hnext
  exact hw.judged verified candidate decision time hmem

/-- The defaults, switched on. -/
def sampleConfig : GateConfig where
  enabled := true
  allowedBelow := 3
  dedupWindow := 300000
  dedupCapacity := 256
  unreadableAttemptsPerBlock := 4

/-- Headers on one parent, told apart by a byte of their merkle root. -/
def sampleHeader (byte : UInt8) : List UInt8 :=
  [4, 0, 0, 0] ++ List.replicate 32 0x11 ++ byte :: List.replicate 1450 0

def firstCandidate : SubmissionCandidate where
  blockHash := "1e7dc3284d72ea053cb58f7ebb5782a69316258a4cef92d7590800d8fade60c2"
  consensusBlockHash := "10b53943e444a0b2263d72e90816b0c2b2973aa6cb7699ac6651b27a434663bc"
  blockHex := hexEncode (sampleHeader 0 ++ [1, 0])
  txCount := 1
  blockBytes := 1489
  unverified := none

def secondCandidate : SubmissionCandidate where
  blockHash := "a858acb04076515ee2e03164f2a468a0edc241b31bd3b2c7137f68fbdaaf72e3"
  consensusBlockHash := "12712d56b4f17a9e8e052f78f503b05a3a00f514ff81c2edfd78d4e74f6adbab"
  blockHex := hexEncode (sampleHeader 1 ++ [1, 0])
  txCount := 1
  blockBytes := 1489
  unverified := none

/-- A decision on a candidate without an observation: is it this kind? -/
def unobserved (passed : Bool) : Entry → Bool
  | .judged _ _ none decision _ => decision.isOk == passed
  | _ => false

/-- The first poll has answered; the lookup of the candidate's parent fails. -/
def failedLookup : List Event :=
  [.poll 3000000, .start 0 .gated firstCandidate (sampleHeader 0), .lookedUp 0 .failed, .decide 0]

theorem unobserved_rejected_after_poll :
    ∃ w, Reach (next sampleHashes) Screened Fresh w ∧ ∃ verified candidate decision time,
      Entry.judged verified candidate none decision time ∈ w.journal
        ∧ ∃ reason, decision = .error reason := by
  have hrun : (exec (next sampleHashes) screened (new .live sampleConfig 256) failedLookup).any
      (fun w => w.journal.any (unobserved false)) = true := by decide +kernel
  obtain ⟨w, hw, htest⟩ :=
    Reach.exists_of_exec screened screened_iff _ (fresh_new .live 256 rfl) _ hrun
  obtain ⟨entry, hmem, hentry⟩ := List.any_eq_true.mp htest
  match entry, hentry with
  | .judged verified candidate none decision time, _ =>
    exact ⟨w, hw, verified, candidate, decision, time, hmem, unobserved_rejected hw hmem⟩

/-- Nothing has been polled yet. The first candidate's lookup puts the parent into the cache, the
lookup of the second fails. -/
def beforeFirstPoll : List Event :=
  [.start 0 .gated firstCandidate (sampleHeader 0),
   .lookedUp 0 (.header true 3000000 (some 1)), .decide 0, .answer 0 (.ok none),
   .start 1 .gated secondCandidate (sampleHeader 1), .lookedUp 1 .failed, .decide 1]

/-- With the parent in the cache and the tip still 0, a candidate without an observation is
accepted. -/
theorem unobserved_accepted :
    ∃ w, Reach (next sampleHashes) Any Fresh w ∧ ∃ verified candidate time,
      Entry.judged verified candidate none (.ok ()) time ∈ w.journal := by
  have hrun : (exec (next sampleHashes) (fun _ _ => true) (new .live sampleConfig 256)
      beforeFirstPoll).any (fun w => w.journal.any (unobserved true)) = true := by decide +kernel
  obtain ⟨w, hw, htest⟩ := Reach.any_of_exec _ (fresh_new .live 256 rfl) _ hrun
  obtain ⟨entry, hmem, hentry⟩ := List.any_eq_true.mp htest
  match entry, hentry with
  | .judged verified candidate none (.ok ()) time, _ => exact ⟨w, hw, verified, candidate, time, hmem⟩
  | .judged _ _ none (.error _) _, h => exact absurd h (by simp [unobserved, Except.isOk, Except.toBool])

/-! ## What a duplicate is a duplicate of -/

/-- Something let this hash into the record at this time: a verified candidate was accepted,
whatever became of it, or Zebra had an unverified one. -/
def Passed (w : World) (hash : String) (time : Nat) : Prop :=
  (∃ candidate parent, Entry.judged true candidate parent (.ok ()) time ∈ w.journal
      ∧ candidate.blockHash = hash)
    ∨ ∃ candidate status earlier, Entry.recorded candidate time ∈ w.journal
      ∧ Entry.answered candidate status earlier ∈ w.journal ∧ earlier ≤ time
      ∧ candidate.blockHash = hash

/-- An unverified body with this digest is at Zebra. -/
def Flying (hashes : Hashes) (w : World) (body : Bytes32) : Prop :=
  ∃ id task, w.tasks.lookup id = some task ∧ task.InFlight
    ∧ SubmitGate.bodyDigest hashes task.candidate = body

/-- What the gate remembers is accounted for. -/
structure Accounted (hashes : Hashes) (w : World) : Prop where
  window : w.gate.dedup.window = w.gate.config.dedupWindow
  ordered : w.gate.dedup.Ordered w.clock
  entries : ∀ hash time, (hash, time) ∈ w.gate.dedup.entries → w.Passed hash time
  nodup : w.gate.inFlight.Nodup
  inFlight : ∀ body ∈ w.gate.inFlight, w.Flying hashes body
  recording : ∀ id task status, w.tasks.lookup id = some task → task.phase = .recording status →
    ∃ time ≤ w.clock, Entry.answered task.candidate status time ∈ w.journal

theorem Passed.mono (hjournal : w.journal ⊆ w'.journal) {time : Nat} (h : w.Passed hash time) :
    w'.Passed hash time := by
  rcases h with ⟨candidate, parent, hmem, hhash⟩ | ⟨candidate, status, earlier, hmem, hans, h⟩
  · exact Or.inl ⟨candidate, parent, hjournal hmem, hhash⟩
  · exact Or.inr ⟨candidate, status, earlier, hjournal hmem, hjournal hans, h⟩

theorem accounted_fresh (h : w.Fresh) : w.Accounted hashes := by
  have hgate := h.gate
  refine ⟨?_, ?_, ?_, ?_, ?_, ?_⟩
  · rw [hgate]; rfl
  · rw [hgate]; exact Recent.ordered_new _ _ _
  · intro hash time hmem
    rw [hgate] at hmem
    exact absurd hmem (by simp [SubmitGate.new, Recent.new])
  · rw [hgate]; exact List.nodup_nil
  · intro body hmem
    rw [hgate] at hmem
    exact absurd hmem (by simp [SubmitGate.new])
  · intro id task status htask
    rw [h.tasks] at htask
    cases htask

section

variable (hw : w.Accounted hashes)

include hw

/-- A step that leaves the gate and the tasks alone. -/
theorem Accounted.frame (hgate : w'.gate = w.gate) (htasks : w'.tasks = w.tasks)
    (hclock : w.clock ≤ w'.clock) (hjournal : w.journal ⊆ w'.journal) : w'.Accounted hashes := by
  refine ⟨?_, ?_, ?_, ?_, ?_, ?_⟩
  · rw [hgate]; exact hw.window
  · rw [hgate]; exact hw.ordered.mono hclock
  · intro hash time hmem
    rw [hgate] at hmem
    exact (hw.entries hash time hmem).mono hjournal
  · rw [hgate]; exact hw.nodup
  · intro body hbody
    rw [hgate] at hbody
    obtain ⟨id, task, htask, hfly⟩ := hw.inFlight body hbody
    exact ⟨id, task, htasks ▸ htask, hfly⟩
  · intro id task status htask hphase
    rw [htasks] at htask
    obtain ⟨time, hle, hmem⟩ := hw.recording id task status htask hphase
    exact ⟨time, Nat.le_trans hle hclock, hjournal hmem⟩

theorem Accounted.log (entry : Entry) : (w.log entry).Accounted hashes :=
  hw.frame rfl rfl (Nat.le_refl _) (List.subset_cons_self _ _)

theorem Accounted.ages {gate : SubmitGate} (h : w.gate.Ages gate) :
    Accounted hashes { w with gate } where
  window := h.window.trans (hw.window.trans (by rw [h.config]))
  ordered := h.ordered _ hw.ordered
  entries hash time hmem := hw.entries hash time (h.entries _ hmem)
  nodup := h.inFlight.symm ▸ hw.nodup
  inFlight body hbody := hw.inFlight body (h.inFlight ▸ hbody)
  recording := hw.recording

/-- A hash goes into the record for a reason that is in the journal. -/
theorem Accounted.record (h : w.Passed candidate.blockHash w.clock) :
    Accounted hashes { w with gate := w.gate.recordSubmittedAt candidate w.clock } where
  window := hw.window
  ordered := hw.ordered.record _
  entries hash time hmem := by
    rcases Recent.mem_record hmem with heq | hmem
    · injection heq with hhash htime
      rw [hhash, htime]
      exact h
    · exact hw.entries hash time hmem
  nodup := hw.nodup
  inFlight := hw.inFlight
  recording := hw.recording

/-- Another phase of a task, which keeps a slot it has. -/
theorem Accounted.setTask (hold : ∀ old, w.tasks.lookup id = some old → old.InFlight →
      task.InFlight ∧ task.candidate = old.candidate)
    (hrecording : ∀ status, task.phase = .recording status →
      ∃ time ≤ w.clock, Entry.answered task.candidate status time ∈ w.journal) :
    (w.setTask id task).Accounted hashes where
  window := hw.window
  ordered := hw.ordered
  entries := hw.entries
  nodup := hw.nodup
  inFlight body hbody := by
    obtain ⟨id', task', htask', hfly, hdigest⟩ := hw.inFlight body hbody
    by_cases hid : id' = id
    · subst hid
      obtain ⟨hnew, hcandidate⟩ := hold task' htask' hfly
      exact ⟨id', task, AList.lookup_insert _, hnew, hcandidate ▸ hdigest⟩
    · exact ⟨id', task', (AList.lookup_insert_ne hid).trans htask', hfly, hdigest⟩
  recording id' task' status htask' hphase := by
    rcases Table.of_lookup_insert htask' with ⟨-, rfl⟩ | htask'
    · exact hrecording status hphase
    · exact hw.recording id' task' status htask' hphase

theorem Accounted.finish (htask : w.tasks.lookup id = some task) (outcome : Outcome) :
    (w.finish hashes id task outcome).Accounted hashes := by
  -- a body that is still in flight is in flight by another task
  have hother : ∀ body, body ∈ w.gate.inFlight →
      ¬ (task.InFlight ∧ SubmitGate.bodyDigest hashes task.candidate = body) →
      (w.finish hashes id task outcome).Flying hashes body := by
    intro body hbody hne
    obtain ⟨id', task', htask', hfly, hdigest⟩ := hw.inFlight body hbody
    have hid : id' ≠ id := by
      rintro rfl
      rw [htask] at htask'
      cases htask'
      exact hne ⟨hfly, hdigest⟩
    exact ⟨id', task', (AList.lookup_insert_ne hid).trans htask', hfly, hdigest⟩
  have hrecording : ∀ id' task' status,
      (w.finish hashes id task outcome).tasks.lookup id' = some task' →
      task'.phase = .recording status →
      ∃ time ≤ w.clock, Entry.answered task'.candidate status time ∈ w.journal := by
    intro id' task' status htask' hphase
    rcases Table.of_lookup_insert htask' with ⟨-, rfl⟩ | htask'
    · cases hphase
    · exact hw.recording id' task' status htask' hphase
  by_cases hfly : task.InFlight
  · have hgate : (w.finish hashes id task outcome).gate = w.gate.dropSlot hashes task.candidate :=
      if_pos hfly
    refine ⟨?_, ?_, ?_, ?_, ?_, hrecording⟩
    · rw [hgate]; exact hw.window
    · rw [hgate]; exact hw.ordered
    · rw [hgate]; exact hw.entries
    · rw [hgate]; exact hw.nodup.erase _
    · intro body hbody
      rw [hgate] at hbody
      obtain ⟨hne, hbody⟩ := (hw.nodup.mem_erase_iff).mp hbody
      exact hother body hbody fun h => hne h.2.symm
  · have hgate : (w.finish hashes id task outcome).gate = w.gate := if_neg hfly
    refine ⟨?_, ?_, ?_, ?_, ?_, hrecording⟩
    · rw [hgate]; exact hw.window
    · rw [hgate]; exact hw.ordered
    · rw [hgate]; exact hw.entries
    · rw [hgate]; exact hw.nodup
    · intro body hbody
      rw [hgate] at hbody
      exact hother body hbody fun h => hfly h.1

end

/-- From the moment a task may submit on, it is at Zebra or over. -/
theorem Accounted.submit (hw : (w.setTask id { task with phase := .submitting }).Accounted hashes) :
    (w.submit hashes id task).Accounted hashes := by
  unfold World.submit
  dsimp only
  split
  · exact hw.finish (AList.lookup_insert _) _
  · exact hw.frame rfl rfl (Nat.le_refl _) (List.subset_cons_self _ _)

section

variable (hw : w.Accounted hashes)

include hw

/-- A reservation was granted: the body is in flight by the task it was granted to. -/
theorem Accounted.grant (htask : w.tasks.lookup id = some task) (hphase : task.phase = .locking)
    (hverified : task.verified = false)
    (hbody : SubmitGate.bodyDigest hashes task.candidate ∉ w.gate.inFlight) :
    Accounted hashes (World.setTask
      { w with gate := { w.gate with
          inFlight := SubmitGate.bodyDigest hashes task.candidate :: w.gate.inFlight } }
      id { task with phase := .submitting }) := by
  have hidle : ¬ task.InFlight := by
    intro h
    have := h.2
    rw [hphase] at this
    exact absurd this (by simp [Phase.atZebra])
  have hset : (w.setTask id { task with phase := .submitting }).Accounted hashes := by
    refine hw.setTask ?_ ?_
    · intro old hold hfly
      rw [htask] at hold
      injection hold with hold
      exact absurd (hold ▸ hfly) hidle
    · intro status h
      cases h
  refine { hset with nodup := List.nodup_cons.mpr ⟨hbody, hset.nodup⟩, inFlight := ?_ }
  intro body hmem
  rcases List.mem_cons.mp hmem with rfl | hmem
  · exact ⟨id, _, AList.lookup_insert _, ⟨hverified, rfl⟩, rfl⟩
  · exact hset.inFlight body hmem

/-- A task that waits for a lookup or the lock has no slot to keep. -/
theorem Accounted.setIdle (htask : w.tasks.lookup id = some task)
    (hidle : task.phase.atZebra = false) (hphase : ∀ status, task'.phase ≠ .recording status) :
    (w.setTask id task').Accounted hashes := by
  refine hw.setTask ?_ ?_
  · intro old hold hfly
    rw [htask] at hold
    injection hold with hold
    rw [← hold] at hfly
    exact absurd (hidle.symm.trans hfly.2) (by simp)
  · intro status h
    exact absurd h (hphase status)

theorem accounted_start (hover : w.isOver id = true) :
    (w.start hashes id task).Accounted hashes := by
  have hset : ∀ new : Task, (∀ status, new.phase ≠ .recording status) →
      (w.setTask id new).Accounted hashes := by
    intro new hphase
    cases htask : w.tasks.lookup id with
    | none =>
      refine hw.setTask ?_ fun status h => absurd h (hphase status)
      intro old hold
      rw [htask] at hold
      cases hold
    | some old =>
      obtain ⟨outcome, hdone⟩ := over_phase hover htask
      exact hw.setIdle htask (by rw [hdone]; rfl) hphase
  unfold start
  split
  · exact Accounted.submit (hset _ (by simp))
  · exact hset _ (by simp)

section

variable (htask : w.tasks.lookup id = some task)

include htask

theorem accounted_lookedUp (hphase : task.phase = .lookup) (answer : HeaderAnswer) :
    (w.lookedUp id task answer).Accounted hashes := by
  unfold lookedUp
  rcases observeCandidateParent w.chain task.header answer with ⟨parent, chain⟩
  have hchain : Accounted hashes { w with chain } :=
    hw.frame rfl rfl (Nat.le_refl _) (List.Subset.refl _)
  exact hchain.setIdle htask (by rw [hphase]; rfl) (by simp)

theorem accounted_decided (hphase : task.phase = .locking) :
    (w.decided hashes id task).Accounted hashes := by
  unfold decided
  split
  · exact hw.finish htask _
  rename_i info _
  unfold judge
  by_cases hverified : task.verified = true
  · -- the journal has the decision before the record has the hash
    rw [if_pos hverified, hverified]
    obtain ⟨g', hages, hgate⟩ := w.gate.applyAt_leaves w.chain task.candidate info w.clock
    have hgated : ∀ decision, (w.gate.applyAt w.chain task.candidate info w.clock).1 = decision →
        Accounted hashes (World.log
          { w with gate := (w.gate.applyAt w.chain task.candidate info w.clock).2 }
          (.judged true task.candidate task.parent decision w.clock)) := by
      intro decision hdecision
      rcases hgate with hgate | ⟨hok, hgate⟩
      · rw [hgate]
        exact (hw.ages hages).log _
      · rw [hgate]
        rw [hok] at hdecision
        subst hdecision
        exact Accounted.record ((hw.ages hages).log _)
          (Or.inl ⟨task.candidate, task.parent, List.mem_cons_self, rfl⟩)
    rcases happly : w.gate.applyAt w.chain task.candidate info w.clock with ⟨reason | _, gate⟩
    · rw [happly] at hgated
      exact (hgated _ rfl).finish htask _
    · rw [happly] at hgated
      refine Accounted.submit ((hgated _ rfl).setIdle htask ?_ (by simp))
      rw [hphase]
      rfl
  · have hverified : task.verified = false := by simpa using hverified
    rw [if_neg (by simp [hverified]), hverified]
    obtain ⟨g', hages, ⟨reason, hreserve⟩ | ⟨hbody, hreserve⟩⟩ :=
      w.gate.reserveUnverifiedAt_leaves hashes w.chain task.candidate info w.clock
    · rw [hreserve]
      exact ((hw.ages hages).log _).finish htask _
    · rw [hreserve]
      refine Accounted.submit (Accounted.grant
        ((hw.ages hages).log (.judged false task.candidate task.parent (.ok ()) w.clock)) htask
        hphase hverified ?_)
      exact hages.inFlight.symm ▸ hbody

theorem accounted_answered (result : Except String (Option String)) :
    (w.answered hashes id task result).Accounted hashes := by
  have hkeeps : ∀ phase : Phase, phase.atZebra = true → ∀ old, w.tasks.lookup id = some old →
      old.InFlight → Task.InFlight { task with phase } ∧ task.candidate = old.candidate := by
    intro phase hat old hold hfly
    rw [htask] at hold
    cases hold
    exact ⟨⟨hfly.1, hat⟩, rfl⟩
  unfold answered
  split
  · exact hw.finish htask _
  split
  · exact hw.setTask (hkeeps _ rfl) (by simp)
  · rename_i status _
    have hlog := hw.log (.answered task.candidate status w.clock)
    split
    · exact hlog.finish htask _
    · refine hlog.setTask (hkeeps _ rfl) ?_
      intro status' h
      injection h with h
      exact ⟨w.clock, Nat.le_refl _, h ▸ List.mem_cons_self⟩

theorem accounted_recorded {status : SubmitBlockStatus} (hphase : task.phase = .recording status) :
    (w.recorded hashes id task status).Accounted hashes := by
  obtain ⟨time, hle, hmem⟩ := hw.recording id task status htask hphase
  have hlog := hw.log (.recorded task.candidate w.clock)
  have hpassed : (w.log (.recorded task.candidate w.clock)).Passed task.candidate.blockHash w.clock :=
    Or.inr ⟨task.candidate, status, time, List.mem_cons_self, List.mem_cons_of_mem _ hmem, hle, rfl⟩
  unfold recorded
  exact (hlog.record hpassed).finish htask _

end

theorem accounted_next (h : w.next hashes e = some w') : w'.Accounted hashes := by
  cases Step.of_next h with
  | elapse duration =>
    exact hw.frame rfl rfl (Nat.le_add_right _ _) (List.Subset.refl _)
  | poll | confirm => exact hw.frame rfl rfl (Nat.le_refl _) (List.Subset.refl _)
  | start hover => exact accounted_start hw hover
  | lookedUp htask hphase => exact accounted_lookedUp hw htask hphase _
  | decide htask hphase => exact accounted_decided hw htask hphase
  | answer htask => exact accounted_answered hw htask _
  | known htask | timeout htask => exact hw.finish htask _
  | record htask hphase => exact accounted_recorded hw htask hphase

theorem Accounted.contained (h : (w.gate.dedup.contains hash w.clock).1 = true) :
    ∃ time, w.Passed hash time ∧ w.clock - time ≤ w.gate.config.dedupWindow := by
  obtain ⟨time, hmem, hfresh⟩ := hw.ordered.contains_true h
  exact ⟨time, hw.entries hash time hmem, hw.window ▸ hfresh⟩

theorem Accounted.duplicate (h : (w.judge hashes task info).1 = .error .duplicateSubmit) :
    w.Flying hashes (SubmitGate.bodyDigest hashes task.candidate)
      ∨ ∃ time, w.Passed task.candidate.blockHash time
        ∧ w.clock - time ≤ w.gate.config.dedupWindow := by
  unfold judge at h
  split at h
  · exact Or.inr (hw.contained (SubmitGate.applyAt_duplicate h))
  · rcases SubmitGate.reserveUnverifiedAt_duplicate h with hknown | hbody
    · exact Or.inr (hw.contained hknown)
    · exact Or.inl (hw.inFlight _ hbody)

end

/-- A task is over with a rejection only by the decision on it. -/
theorem decided_rejected {reason : RejectReason}
    (h : (w.decided hashes id task).tasks.lookup id = some task')
    (hphase : task'.phase = .done (.ok (.gateRejected candidate reason))) :
    candidate = task.candidate ∧ ∃ info, (w.judge hashes task info).1 = .error reason := by
  have hset : ∀ (tasks : Table Nat Task) (new : Task), (tasks.insert id new).lookup id = some task' →
      task' = new := by
    intro tasks new h
    rw [AList.lookup_insert] at h
    injection h with h
    exact h.symm
  unfold decided at h
  split at h
  · rw [hset _ _ h] at hphase
    cases hphase
  rename_i info _
  rcases hjudge : w.judge hashes task info with ⟨why | _, gate⟩
  · rw [hjudge] at h
    rw [hset _ _ h] at hphase
    injection hphase with hphase
    injection hphase with hphase
    injection hphase with hcandidate hreason
    exact ⟨hcandidate.symm, info, by rw [hjudge, hreason]⟩
  · rw [hjudge] at h
    dsimp only [World.submit] at h
    split at h
    · rw [hset _ _ h] at hphase
      cases hphase
    · rw [hset _ _ h] at hphase
      cases hphase

/-- Another body with the header of the first candidate. -/
def otherBody : SubmissionCandidate :=
  { firstCandidate with blockHex := hexEncode (sampleHeader 0 ++ [1, 1]) }

/-- The first candidate is accepted and submitted with this result, and another body of the block
is waiting for the gate. -/
def twoBodies (result : Except String (Option String)) : List Event :=
  [.poll 3000000, .start 0 .gated firstCandidate (sampleHeader 0),
   .lookedUp 0 (.header true 3000000 (some 1)), .decide 0, .answer 0 result, .elapse 200000,
   .start 1 .gated otherBody (sampleHeader 0), .lookedUp 1 (.header true 3000000 (some 1))]

/-- Is the second task now turned away as a duplicate? -/
def turnedAway (w : World) : Bool :=
  (w.next sampleHashes (.decide 1)).any fun w' => (w'.tasks.lookup 1).any fun task =>
    match task.phase with
    | .done (.ok (.gateRejected _ .duplicateSubmit)) => true
    | _ => false

theorem turnedAway_spec (h : w.turnedAway = true) :
    ∃ w' task candidate, w.next sampleHashes (.decide 1) = some w'
      ∧ w'.tasks.lookup 1 = some task
      ∧ task.phase = .done (.ok (.gateRejected candidate .duplicateSubmit)) := by
  unfold turnedAway at h
  obtain ⟨w', hw', h⟩ := (Option.any_eq_true _ _).mp h
  obtain ⟨task, htask, h⟩ := (Option.any_eq_true _ _).mp h
  split at h
  · exact ⟨w', task, _, hw', htask, by assumption⟩
  · cases h

/-- Zebra has answered for no block and no body is in flight. -/
def quiet (w : World) : Bool :=
  (w.journal.all fun entry => match entry with
    | .answered .. => false
    | _ => true) && w.tasks.entries.all fun entry => !decide entry.2.InFlight

theorem quiet_spec (h : w.quiet = true) :
    (∀ candidate status time, Entry.answered candidate status time ∉ w.journal)
      ∧ ∀ body, ¬ w.Flying sampleHashes body := by
  unfold quiet at h
  rw [Bool.and_eq_true, List.all_eq_true, List.all_eq_true] at h
  refine ⟨?_, ?_⟩
  · intro candidate status time hmem
    exact absurd (h.1 _ hmem) (by simp)
  · rintro body ⟨id, task, htask, hfly, -⟩
    have hmem := h.2 ⟨id, task⟩ (Table.mem_entries.mpr htask)
    exact absurd hfly (by simpa using hmem)

end World

end MiningInfra.Sidecar
