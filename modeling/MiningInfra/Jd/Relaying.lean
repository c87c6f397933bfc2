import MiningInfra.Jd.ClientLoop

/-!
# From the listener to the connection

An accepted share moves from its session into the relay channel, into the batcher, into a batch and
onto the connection, and is nowhere lost or doubled on the way. A block moves beside it through the
push channel, where nothing makes it wait for its share: the loop writes a solution as soon as it
takes it, and holds the share back until its batch is full or the timer fires.
-/

namespace MiningInfra.Jd.Client

open Lib Payout

variable {F : Type}

/-- The shares of the batches that are still to be written. -/
def LoopPhase.unsent : LoopPhase → List RelayShare
  | .relaying rest => rest.flatMap items
  | _ => []

def Message.items : Message → List RelayShare
  | .submitShares msg => Client.items msg
  | _ => []

def Message.solution : Message → Option PushSolution
  | .pushSolution p => some p
  | _ => none

namespace System

/-- The shares the loop was sent, wherever they are now. -/
def stock (s : System F) : List RelayShare :=
  s.relayQueue ++ s.batcher.pending.items ++ s.loop.unsent ++ s.written.flatMap Message.items

/-- The share an event sends into the relay channel. -/
def sentBy (s : System F) : ClientEvent F → List RelayShare
  | .relay k => match (s.sessions k).phase with
    | .relaying item _ => [item]
    | _ => []
  | _ => []

section

variable (s : System F) (batches : List SubmitSharesJd)

/-- Handing batches to the connection leaves everything else alone. -/
theorem relayNext_eq :
    ∃ loop toServer written, s.relayNext batches = { s with loop, toServer, written } := by
  cases batches with
  | nil | cons msg rest => exact ⟨_, _, _, rfl⟩

@[simp] theorem sessions_relayNext : (s.relayNext batches).sessions = s.sessions := by
  obtain ⟨_, _, _, heq⟩ := s.relayNext_eq batches
  rw [heq]

@[simp] theorem pushQueue_relayNext : (s.relayNext batches).pushQueue = s.pushQueue := by
  obtain ⟨_, _, _, heq⟩ := s.relayNext_eq batches
  rw [heq]

@[simp] theorem accepted_relayNext : (s.relayNext batches).accepted = s.accepted := by
  obtain ⟨_, _, _, heq⟩ := s.relayNext_eq batches
  rw [heq]

/-- Batches that are handed to the connection are in the stock, the first of them as written. -/
theorem stock_relayNext :
    (s.relayNext batches).stock.Perm (s.relayQueue ++ s.batcher.pending.items
      ++ batches.flatMap items ++ s.written.flatMap Message.items) := by
  cases batches with
  | nil => exact List.Perm.refl _
  | cons msg rest =>
    have hnext : (s.relayNext (msg :: rest)).stock = s.relayQueue ++ s.batcher.pending.items
        ++ rest.flatMap items
        ++ (s.written ++ [Message.submitShares msg]).flatMap Message.items := rfl
    rw [hnext]
    simp only [List.flatMap_append, List.flatMap_cons, List.flatMap_nil, List.append_nil,
      Message.items, List.append_assoc]
    refine List.Perm.append_left _ (List.Perm.append_left _ ?_)
    rw [← List.append_assoc]
    exact List.perm_append_comm

end

theorem stock_congr {s s' : System F} (hqueue : s'.relayQueue = s.relayQueue)
    (hbatcher : s'.batcher = s.batcher) (hloop : s'.loop.unsent = s.loop.unsent)
    (hwritten : s'.written.flatMap Message.items = s.written.flatMap Message.items) :
    s'.stock = s.stock := by
  rw [stock, stock, hqueue, hbatcher, hloop, hwritten]

/-- Only batches put shares on the connection. -/
theorem items_write (s : System F) {m : Message} (h : m.items = []) :
    (s.write m).written.flatMap Message.items = s.written.flatMap Message.items := by
  simp only [write, List.flatMap_append, List.flatMap_cons, List.flatMap_nil, h, List.append_nil]

variable [Float64 F] {c : Setting F} {s s' : System F} {e : ClientEvent F}

/-- **Nothing is lost or doubled between the sessions and the connection.** -/
theorem Step.stock (h : s.Step c e s') : s'.stock.Perm (s.stock ++ s.sentBy e) := by
  have hsame : ∀ {s' : System F} {e : ClientEvent F}, s.sentBy e = [] → s'.stock = s.stock →
      s'.stock.Perm (s.stock ++ s.sentBy e) := by
    intro s' e hsent heq
    rw [hsent, List.append_nil, heq]
  have hwaiting : s.loop = .selecting → s.loop.unsent = [] := by
    intro hloop
    rw [hloop]
    rfl
  have hdeclaring : ∀ {request}, s.loop = .declaring request → s.loop.unsent = [] := by
    intro request hloop
    rw [hloop]
    rfl
  cases h with
  | respond hphase =>
    refine hsame rfl ?_
    unfold System.respond
    split <;> rfl
  | relay hphase hroom =>
    rename_i k item block
    have hsent : s.sentBy (.relay k) = [item] := by simp only [sentBy, hphase]
    rw [hsent]
    simp only [System.stock, System.relay, setPhase, List.append_assoc]
    refine List.Perm.append_left _ ?_
    have hlast := (List.perm_append_singleton item (s.batcher.pending.items ++ s.loop.unsent
      ++ s.written.flatMap Message.items)).symm
    rwa [List.append_assoc, List.append_assoc, List.append_assoc] at hlast
  | template hloop =>
    refine hsame rfl (stock_congr rfl rfl (hwaiting hloop).symm ?_)
    exact items_write s rfl
  | takeRelay hloop hqueue =>
    rename_i item rest
    refine (stock_relayNext _ _).trans ?_
    rw [System.stock, hqueue, hwaiting hloop, sentBy, List.append_nil, List.append_nil]
    · refine List.Perm.append_right _ ?_
      have hpush := (List.perm_append_comm.trans (s.batcher.items_push item)).append_left rest
      rw [List.append_assoc]
      refine hpush.trans ?_
      rw [← List.append_assoc]
      exact List.perm_append_singleton _ _
    · simp
  | takePush hloop hqueue => exact hsame rfl (stock_congr rfl rfl rfl (items_write _ rfl))
  | tick hloop =>
    obtain ⟨hitems, hempty⟩ := s.batcher.items_flushAll
    refine (stock_relayNext _ _).trans (List.Perm.of_eq ?_)
    rw [System.stock, hitems, hempty, hwaiting hloop]
    simp [Groups.items, sentBy]
  | declared hloop hreply | refused hloop hreply =>
    exact hsame rfl (stock_congr rfl rfl (hdeclaring hloop).symm rfl)
  | relayed hloop hreply =>
    rename_i batches response rest
    have hunsent : s.loop.unsent = batches.flatMap items := by rw [hloop]; rfl
    refine (stock_relayNext _ _).trans (List.Perm.of_eq ?_)
    rw [System.stock, hunsent]
    simp [sentBy]
  | _ => exact hsame rfl rfl

theorem Step.subset_stock (h : s.Step c e s') : s.stock ⊆ s'.stock :=
  fun _ hx => h.stock.symm.subset (List.mem_append_left _ hx)

/-! ## Where the accepted shares are -/

omit [Float64 F] in
@[simp] theorem phase_setPhase (s : System F) (k k' : Nat) (phase : SessionPhase) :
    ((s.setPhase k phase).sessions k').phase = if k' = k then phase else (s.sessions k').phase := by
  simp only [setPhase, Function.update_apply]
  split <;> rfl

omit [Float64 F] in
@[simp] theorem phase_judge (v : Equihash.EquihashValidator) (s : System F) (k k' : Nat)
    (share : Pool.SubmitEquihashShare) :
    ((s.judge v k share).sessions k').phase = if k' = k then
      .responding ((s.sessions k).session.handleShare v s.current share).2
      else (s.sessions k').phase := by
  simp only [judge, Function.update_apply]
  split <;> rfl

/-- What a step does to the phase of a session, with what goes along with it. -/
inductive PhaseStep (c : Setting F) (s : System F) (e : ClientEvent F) (s' : System F) (k : Nat) :
    Prop where
  | same (h : (s'.sessions k).phase = (s.sessions k).phase)
  | judged {share : Pool.SubmitEquihashShare} (h : (s.sessions k).phase = .ready)
      (h' : (s'.sessions k).phase = .responding
        ((s.sessions k).session.handleShare c.validator s.current share).2)
      (hevent : e = .share k share)
  | responded {verdict : DownstreamSession.Verdict} (h : (s.sessions k).phase = .responding verdict)
      (h' : (s'.sessions k).phase = .ready)
  | accepted {verdict : DownstreamSession.Verdict} {item : RelayShare} {block : Bool}
      (h : (s.sessions k).phase = .responding verdict) (hrelay : verdict.relay = some (item, block))
      (h' : (s'.sessions k).phase = .relaying item block)
  | relayed {item : RelayShare} {block : Bool} (h : (s.sessions k).phase = .relaying item block)
      (h' : (s'.sessions k).phase = if block then .pushing item else .ready)
      (hstock : item ∈ s'.stock)
  | pushed {item : RelayShare} (h : (s.sessions k).phase = .pushing item)
      (h' : (s'.sessions k).phase = .ready) (hqueue : item ∈ s'.pushQueue)
  | ended (h : ∀ item block, (s.sessions k).phase ≠ .relaying item block)
      (h' : (s'.sessions k).phase = .ended)

section

variable (h : s.Step c e s') {x : RelayShare}

include h

theorem Step.phase (k : Nat) : PhaseStep c s e s' k := by
  cases h with
  | share hphase =>
    rename_i k₀ share
    by_cases hk : k = k₀
    · subst hk
      exact .judged hphase (by rw [phase_judge, if_pos rfl]) rfl
    · exact .same (by rw [phase_judge, if_neg hk])
  | respond hphase =>
    rename_i k₀ verdict
    unfold System.respond
    by_cases hk : k = k₀
    · subst hk
      cases hrelay : verdict.relay with
      | none => exact .responded hphase (by simp)
      | some r => exact .accepted hphase hrelay (by simp)
    · cases verdict.relay with
      | none | some r => exact .same (by simp [hk])
  | disconnect hphase =>
    rename_i k₀
    by_cases hk : k = k₀
    · subst hk
      refine .ended (fun item block hrelaying => ?_) (by simp)
      rcases hphase with hready | ⟨verdict, hresponding⟩
      · rw [hready] at hrelaying
        cases hrelaying
      · rw [hresponding] at hrelaying
        cases hrelaying
    · exact .same (by simp [hk])
  | relay hphase hroom =>
    rename_i k₀ item block
    by_cases hk : k = k₀
    · subst hk
      refine .relayed hphase (by simp [System.relay]) ?_
      simp [System.stock, System.relay]
    · exact .same (by simp [System.relay, hk])
  | push hphase hroom =>
    rename_i k₀ item
    by_cases hk : k = k₀
    · subst hk
      refine .pushed hphase (by simp [System.push]) ?_
      simp [System.push]
    · exact .same (by simp [System.push, hk])
  | takeRelay hloop hqueue | tick hloop | relayed hloop hreply =>
    exact .same (by rw [sessions_relayNext])
  | _ => exact .same rfl

/-- A session has told its proxy that this share is accepted, and has it in hand. -/
def InHand (s : System F) (x : RelayShare) : Prop :=
  ∃ k block, (s.sessions k).phase = .relaying x block

/-- Every accepted share is in the hand of its session or in the stock. -/
def Tracked (s : System F) : Prop := ∀ x ∈ s.accepted, s.InHand x ∨ x ∈ s.stock

/-- A block is in the hand of its session or in the push channel. -/
def Announced (s : System F) (x : RelayShare) : Prop :=
  (∃ k, (s.sessions k).phase = .pushing x) ∨ x ∈ s.pushQueue

/-- The share of a block is on its way before the block is. -/
def ShareFirst (s : System F) : Prop := ∀ x, s.Announced x → x ∈ s.stock

/-- Only a session that writes its answer adds an accepted share, and then has it in hand. -/
theorem Step.mem_accepted (hx : x ∈ s'.accepted) : x ∈ s.accepted ∨ s'.InHand x := by
  cases h with
  | respond hphase =>
    rename_i k verdict
    unfold System.respond at hx ⊢
    cases hrelay : verdict.relay with
    | none =>
      rw [hrelay] at hx
      exact .inl hx
    | some r =>
      simp only [hrelay, List.mem_append, List.mem_singleton] at hx
      rcases hx with hx | rfl
      · exact .inl hx
      · exact .inr ⟨k, r.2, by simp⟩
  | takeRelay hloop hqueue | tick hloop | relayed hloop hreply =>
    exact .inl (by rwa [accepted_relayNext] at hx)
  | _ => exact .inl hx

theorem Tracked.step (hs : s.Tracked) : s'.Tracked := by
  intro x hx
  rcases h.mem_accepted hx with hx | hhand
  · rcases hs x hx with ⟨k, block, hphase⟩ | hstock
    · rcases h.phase k with hsame | ⟨hready, -⟩ | ⟨hresponding, -⟩ | ⟨hresponding, -, -⟩ |
        ⟨hrelaying, -, hstock⟩ | ⟨hpushing, -, -⟩ | ⟨hother, -⟩
      · exact .inl ⟨k, block, hsame.trans hphase⟩
      · cases hready.symm.trans hphase
      · cases hresponding.symm.trans hphase
      · cases hresponding.symm.trans hphase
      · cases hrelaying.symm.trans hphase
        exact .inr hstock
      · cases hpushing.symm.trans hphase
      · exact absurd hphase (hother x block)
    · exact .inr (h.subset_stock hstock)
  · exact .inl hhand

/-- Only a session that was pushing adds a block to the channel. -/
theorem Step.mem_pushQueue (hx : x ∈ s'.pushQueue) : s.Announced x := by
  cases h with
  | respond hphase =>
    unfold System.respond at hx
    split at hx
    · exact .inr hx
    · exact .inr hx
  | push hphase hroom =>
    rcases List.mem_append.mp hx with hx | hx
    · exact .inr hx
    · cases List.mem_singleton.mp hx
      exact .inl ⟨_, hphase⟩
  | takePush hloop hqueue =>
    refine .inr ?_
    rw [hqueue]
    exact List.mem_cons_of_mem _ hx
  | takeRelay hloop hqueue | tick hloop | relayed hloop hreply =>
    exact .inr (by rwa [pushQueue_relayNext] at hx)
  | _ => exact .inr hx

theorem ShareFirst.step (hs : s.ShareFirst) : s'.ShareFirst := by
  rintro x (⟨k, hphase⟩ | hx)
  · rcases h.phase k with hsame | ⟨-, h'⟩ | ⟨-, h'⟩ | ⟨-, -, h'⟩ | ⟨-, h', hstock⟩ | ⟨-, h', -⟩ |
      ⟨-, h'⟩
    · exact h.subset_stock (hs x (.inl ⟨k, hsame.symm.trans hphase⟩))
    · cases h'.symm.trans hphase
    · cases h'.symm.trans hphase
    · cases h'.symm.trans hphase
    · rename_i item block
      cases block with
      | false => cases h'.symm.trans hphase
      | true =>
        cases h'.symm.trans hphase
        exact hstock
    · cases h'.symm.trans hphase
    · cases h'.symm.trans hphase
  · exact h.subset_stock (hs x (h.mem_pushQueue hx))

/-! ## Shares and solutions on the connection -/

/-- What a step writes: nothing, a message that is no solution, or the block it took from the push
channel. -/
theorem Step.written : s'.written = s.written ∨ ∃ m, s'.written = s.written ++ [m] ∧
      ((∀ p, m ≠ .pushSolution p) ∨ e = .takePush ∧ s.loop = .selecting ∧
        ∃ item rest, s.pushQueue = item :: rest ∧ m = .pushSolution (.of item)) := by
  have hbatches : ∀ (s : System F) batches, (s.relayNext batches).written = s.written ∨
      ∃ m, (s.relayNext batches).written = s.written ++ [m] ∧ ∀ p, m ≠ .pushSolution p := by
    intro s batches
    cases batches with
    | nil => exact .inl rfl
    | cons msg rest => exact .inr ⟨.submitShares msg, rfl, fun p => Message.noConfusion⟩
  cases h with
  | respond hphase =>
    refine .inl ?_
    unfold System.respond
    split <;> rfl
  | template hloop => exact .inr ⟨_, rfl, .inl fun p => Message.noConfusion⟩
  | takeRelay hloop hqueue | relayed hloop hreply =>
    exact (hbatches _ _).imp_right fun h => h.imp fun m hm => ⟨hm.1, .inl hm.2⟩
  | takePush hloop hqueue => exact .inr ⟨_, rfl, .inr ⟨rfl, hloop, _, _, hqueue, rfl⟩⟩
  | tick hloop => exact (hbatches _ _).imp_right fun h => h.imp fun m hm => ⟨hm.1, .inl hm.2⟩
  | _ => exact .inl rfl

end

end System

/-- Every solution comes after a batch with its share. -/
def Ordered (written : List Message) : Prop :=
  ∀ before p after, written = before ++ .pushSolution p :: after →
    ∃ msg, .submitShares msg ∈ before ∧ p.item ∈ items msg

theorem Ordered.append {written : List Message} (h : Ordered written) {m : Message}
    (hm : ∀ p, m = .pushSolution p → ∃ msg, .submitShares msg ∈ written ∧ p.item ∈ items msg) :
    Ordered (written ++ [m]) := by
  intro before p after heq
  rcases List.eq_nil_or_concat after with rfl | ⟨after', last, rfl⟩
  · obtain ⟨rfl, hlast⟩ := List.append_inj' heq rfl
    exact hm p (List.singleton_inj.mp hlast)
  · rw [List.concat_eq_append, ← List.cons_append, ← List.append_assoc] at heq
    obtain ⟨hinit, -⟩ := List.append_inj' heq rfl
    exact h before p after' hinit

namespace System

/-- The push arm is taken only once the share of the block has left the relay channel and the
batcher. -/
def Prompt (s : System F) : ClientEvent F → Prop
  | .takePush => ∀ item rest, s.pushQueue = item :: rest →
      item ∉ s.relayQueue ∧ item ∉ s.batcher.pending.items
  | _ => True

variable [Float64 F] {c : Setting F} {s s' : System F} {e : ClientEvent F}

theorem ordered_step (hfirst : s.ShareFirst) (hs : Ordered s.written) (hok : s.Prompt e)
    (h : s.Step c e s') : Ordered s'.written := by
  rcases h.written with hsame | ⟨m, hwritten, hm⟩
  · rw [hsame]
    exact hs
  · rw [hwritten]
    refine hs.append fun p hp => ?_
    rcases hm with hno | ⟨rfl, hloop, item, rest, hqueue, hpush⟩
    · exact absurd hp (hno p)
    · cases hp.symm.trans hpush
      obtain ⟨hrelay, hbatch⟩ := hok item rest hqueue
      have hstock : item ∈ s.stock := hfirst item (.inr (by rw [hqueue]; exact List.mem_cons_self))
      simp only [System.stock, hloop, LoopPhase.unsent, List.mem_append, hrelay, hbatch,
        List.not_mem_nil, false_or, List.mem_flatMap] at hstock
      obtain ⟨m, hm, hitem⟩ := hstock
      cases m with
      | submitShares msg => exact ⟨msg, hm, hitem⟩
      | setCustomJob request | pushSolution p => exact absurd hitem List.not_mem_nil

omit [Float64 F] in
theorem shareFirst_start (h : s.Start c) : s.ShareFirst := by
  rintro x (⟨k, hphase⟩ | hx)
  · rw [h.sessions] at hphase
    cases hphase
  · rw [h.pushQueue] at hx
    exact absurd hx List.not_mem_nil

/-- **A batch before its solution**: in every run whose push arm is taken only once the share has
left the relay channel and the batcher, a solution is written after a batch that carries its
share. -/
theorem batch_before_solution (h : Reach (System.next c) Prompt (Start c) s)
    {before after : List Message} {p : PushSolution}
    (hwritten : s.written = before ++ .pushSolution p :: after) :
    ∃ msg, .submitShares msg ∈ before ∧ msg.jobId = p.jobId ∧
      ⟨p.version, p.time, p.nonce, p.solution⟩ ∈ msg.shares := by
  have hinv : s.ShareFirst ∧ Ordered s.written := by
    refine h.invariant (I := fun s => s.ShareFirst ∧ Ordered s.written) ?_ ?_
    · intro s hs
      refine ⟨shareFirst_start hs, ?_⟩
      rw [hs.written]
      intro before p after heq
      cases before <;> cases heq
    · rintro s e s' ⟨hfirst, hordered⟩ hok hnext
      have hstep := step_of_next hnext
      exact ⟨hfirst.step hstep, ordered_step hfirst hordered hok hstep⟩
  obtain ⟨msg, hmsg, hitem⟩ := hinv.2 before p after hwritten
  obtain ⟨share, hshare, heq⟩ := List.mem_map.mp hitem
  obtain ⟨hjob, rfl⟩ := RelayShare.mk.inj heq
  exact ⟨msg, hmsg, hjob, hshare⟩

/-- The discipline as a test. -/
def prompt (s : System F) : ClientEvent F → Bool
  | .takePush => s.pushQueue.head?.all fun item =>
    !s.relayQueue.contains item && !s.batcher.pending.items.contains item
  | _ => true

omit [Float64 F] in
theorem prompt_of_test (s : System F) (e : ClientEvent F) (h : s.prompt e = true) : s.Prompt e := by
  cases e with
  | takePush =>
    intro item rest hqueue
    simpa [prompt, hqueue] using h
  | _ => trivial

/-- The solution that was written last. -/
def lastSolution (s : System F) : Option PushSolution :=
  s.written.getLast?.bind Message.solution

omit [Float64 F] in
theorem written_of_lastSolution (h : s.lastSolution.isSome = true) :
    ∃ before p, s.written = before ++ [.pushSolution p] := by
  obtain ⟨p, hp⟩ := Option.isSome_iff_exists.mp h
  obtain ⟨m, hm, hp⟩ := Option.bind_eq_some_iff.mp hp
  obtain ⟨before, hbefore⟩ := List.getLast?_eq_some_iff.mp hm
  cases m with
  | pushSolution q => exact ⟨before, q, hbefore⟩
  | setCustomJob request | submitShares msg => cases hp

/-- A block whose batch went out with the timer before the push arm was taken. -/
theorem flushed_block_ordered :
    ∃ s : System Nat, Reach (System.next sampleSetting) Prompt (Start sampleSetting) s ∧
      ∃ before p, s.written = before ++ [.pushSolution p] ∧
        ∃ msg, .submitShares msg ∈ before ∧ msg.jobId = p.jobId ∧
          ⟨p.version, p.time, p.nonce, p.solution⟩ ∈ msg.shares := by
  have hrun : ∃ s : System Nat, Reach (System.next sampleSetting) Prompt (Start sampleSetting) s ∧
      s.lastSolution.isSome = true := by
    refine Reach.exists_of_exec prompt prompt_of_test sampleSystem start_sampleSystem
      (declareRun ++ blockRun ++ [.takeRelay, .tick, .serve 0, .answer, .takePush]) ?_
    decide +kernel
  obtain ⟨s, hreach, hlast⟩ := hrun
  obtain ⟨before, p, hwritten⟩ := written_of_lastSolution hlast
  exact ⟨s, hreach, before, p, hwritten, batch_before_solution hreach hwritten⟩

/-- **A solution overtakes its share**: the loop takes the share first, holds it for its batch and
writes the solution. -/
theorem solution_overtakes_share :
    ¬ ∀ (c : Setting Nat) (s : System Nat), Reach (System.next c) Any (Start c) s →
      ∀ before p after, s.written = before ++ .pushSolution p :: after →
        ∃ msg, .submitShares msg ∈ before ∧ msg.jobId = p.jobId ∧
          ⟨p.version, p.time, p.nonce, p.solution⟩ ∈ msg.shares := by
  intro hall
  have hrun : ∃ s : System Nat, Reach (System.next sampleSetting) Any (Start sampleSetting) s ∧
      (s.lastSolution.isSome && s.written.all fun m => m.items.isEmpty) = true := by
    refine Reach.any_of_exec sampleSystem
      start_sampleSystem (declareRun ++ blockRun ++ [.takeRelay, .takePush]) ?_
    decide +kernel
  obtain ⟨s, hreach, hs⟩ := hrun
  obtain ⟨hlast, hempty⟩ := Bool.and_eq_true_iff.mp hs
  obtain ⟨before, p, hwritten⟩ := written_of_lastSolution hlast
  obtain ⟨msg, hmsg, -, hshare⟩ := hall _ s hreach before p [] hwritten
  -- no batch with a share in it was written at all
  have hmem : Message.submitShares msg ∈ s.written := by
    rw [hwritten]
    exact List.mem_append_left _ hmsg
  have hnone : (Client.items msg).isEmpty = true := List.all_eq_true.mp hempty _ hmem
  rw [List.isEmpty_iff, Client.items, List.map_eq_nil_iff] at hnone
  rw [hnone] at hshare
  cases hshare

end System

end MiningInfra.Jd.Client
