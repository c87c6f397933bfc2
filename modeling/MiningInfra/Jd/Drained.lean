import MiningInfra.Jd.Resolved

/-!
# The batches of accepted shares come in

A run in which no declaration crosses a share can always be continued until the server has answered
the share: the loop comes back to `select!`, takes what is in the relay channel, and the timer makes
it write what the batcher holds. So the shares of such a run are answered, and none of them with an
unknown job.
-/

namespace MiningInfra.Jd.Client.System

open Lib Payout

variable {F : Type} [Float64 F] {c : Setting F} {s s' : System F} {e : ClientEvent F}

/-! ## Every accepted share can be answered -/

/-- A state that a permitted run comes to from here. -/
def Later (c : Setting F) (s s' : System F) : Prop :=
  Reach (System.next c) (Permitted c) (Eq s) s'

theorem Later.refl (c : Setting F) (s : System F) : Later c s s := .init rfl

theorem Later.next (hnext : s.next c e = some s') (hok : s.Permitted c e) : Later c s s' :=
  .tail (.init rfl) hok hnext

variable {s'' : System F} {now : Nat} {x : RelayShare}

theorem Later.trans (h : Later c s s') (h' : Later c s' s'') : Later c s s'' :=
  Reach.trans h h'

theorem Held.later (hs : s.Held c) (h : Later c s s') : s'.Held c :=
  Reach.invariant (I := fun s => s.Held c) (fun _ heq => heq ▸ hs)
    (fun _ _ _ hs hok hnext => hs.step (step_of_next hnext) hok) h

theorem subset_stock_later (h : Later c s s') : s.stock ⊆ s'.stock :=
  Reach.invariant (I := fun s' => s.stock ⊆ s'.stock) (fun _ heq => heq ▸ List.Subset.refl _)
    (fun _ _ _ hs _ hnext => List.Subset.trans hs (step_of_next hnext).subset_stock) h

/-- The loop and the server alone have been at work. -/
structure Aside (s s' : System F) : Prop where
  sessions : s'.sessions = s.sessions
  server : s'.server = s.server
  relayQueue : s'.relayQueue = s.relayQueue
  batcher : s'.batcher = s.batcher

section

omit [Float64 F]

theorem Aside.trans (h : Aside s s') (h' : Aside s' s'') : Aside s s'' :=
  ⟨h'.sessions.trans h.sessions, h'.server.trans h.server, h'.relayQueue.trans h.relayQueue,
    h'.batcher.trans h.batcher⟩

theorem aside_relayNext (s : System F) (batches : List SubmitSharesJd) :
    Aside s (s.relayNext batches) := by
  obtain ⟨_, _, _, heq⟩ := s.relayNext_eq batches
  rw [heq]
  exact ⟨rfl, rfl, rfl, rfl⟩

theorem Live.congr (hlive : s.Live c now) (h : s'.server = s.server) : s'.Live c now := by
  rwa [Live, h]

end

/-- The server reads the solutions in front. -/
theorem later_solutions {rest : List Message} :
    ∀ {before : List Message} {s : System F}, Solutions before → s.toServer = before ++ rest →
      s.Live c now → Later c s { s with toServer := rest } := by
  intro before
  induction before with
  | nil =>
    intro s _ hsent _
    have heq : { s with toServer := rest } = s := by
      rw [List.nil_append] at hsent
      rw [← hsent]
    rw [heq]
    exact .refl c s
  | cons m before ih =>
    intro s hbefore hsent hlive
    obtain ⟨p, rfl⟩ := hbefore m List.mem_cons_self
    have hfirst : s.next c (.serve now) = some { s with toServer := before ++ rest } := by
      simp only [System.next, hsent, List.cons_append, handle]
    have hrest := @ih { s with toServer := before ++ rest }
      (fun m hm => hbefore m (List.mem_cons_of_mem _ hm)) rfl hlive
    exact .trans (.next hfirst hlive) hrest

/-- The answer to the batch the loop waits for arrives. -/
theorem later_answered {rest : List SubmitSharesJd} (hs : s.Held c)
    (hloop : s.loop = .relaying rest) (hlive : s.Live c now) :
    ∃ s' response, Later c s s' ∧ Aside s s' ∧ s'.loop = .relaying rest
      ∧ s'.toClient = [.shares response] := by
  cases hs.wire with
  | sent _ hbefore hsent hreplies _ =>
    have hfirst := later_solutions hbefore hsent hlive
    refine ⟨_, _, hfirst.trans (.next (e := .serve now) rfl hlive), ⟨rfl, rfl, rfl, rfl⟩, hloop,
      congrArg (· ++ [_]) hreplies⟩
  | answered _ _ hreplies _ =>
    exact ⟨s, _, .refl c s, ⟨rfl, rfl, rfl, rfl⟩, hloop, hreplies⟩
  | selecting h | asked h | granted h | refused h => cases hloop.symm.trans h

theorem later_relayed (rest : List SubmitSharesJd) :
    ∀ {s : System F}, s.Held c → s.loop = .relaying rest → s.Live c now →
      ∃ s', Later c s s' ∧ Aside s s' ∧ s'.loop = .selecting := by
  induction rest with
  | nil =>
    intro s hs hloop hlive
    obtain ⟨s₁, response, hlater, haside, hloop₁, hreplies⟩ := later_answered hs hloop hlive
    have hanswer : s₁.next c .answer = some ({ s₁ with toClient := [] }.relayNext []) := by
      simp only [System.next, answer, hloop₁, hreplies]
    exact ⟨_, hlater.trans (.next hanswer trivial), haside.trans ⟨rfl, rfl, rfl, rfl⟩, rfl⟩
  | cons msg rest ih =>
    intro s hs hloop hlive
    obtain ⟨s₁, response, hlater, haside, hloop₁, hreplies⟩ := later_answered hs hloop hlive
    have hanswer : s₁.next c .answer
        = some ({ s₁ with toClient := [] }.relayNext (msg :: rest)) := by
      simp only [System.next, answer, hloop₁, hreplies]
    have hlater₂ := hlater.trans (.next hanswer trivial)
    have haside₂ : Aside s ({ s₁ with toClient := [] }.relayNext (msg :: rest)) :=
      haside.trans ⟨rfl, rfl, rfl, rfl⟩
    obtain ⟨s', hlater', haside', hselecting⟩ := ih (hs.later hlater₂) rfl
      (hlive.congr haside₂.server)
    exact ⟨s', hlater₂.trans hlater', haside₂.trans haside', hselecting⟩

/-- The loop comes back to `select!` from its batches. -/
theorem later_selecting (hs : s.Held c) (hloop : ∀ request, s.loop ≠ .declaring request)
    (hlive : s.Live c now) : ∃ s', Later c s s' ∧ Aside s s' ∧ s'.loop = .selecting := by
  cases hphase : s.loop with
  | selecting => exact ⟨s, .refl c s, ⟨rfl, rfl, rfl, rfl⟩, hphase⟩
  | declaring request => exact absurd hphase (hloop request)
  | relaying rest => exact later_relayed rest hs hphase hlive

omit [Float64 F] in
theorem loop_relayNext_ne (s : System F) (batches : List SubmitSharesJd)
    (request : SetCustomMiningJob) : (s.relayNext batches).loop ≠ .declaring request := by
  cases batches with
  | nil | cons msg rest => exact LoopPhase.noConfusion

/-- The loop takes everything out of the relay channel. -/
theorem later_emptied (queue : List RelayShare) :
    ∀ {s : System F}, s.Held c → s.loop = .selecting → s.relayQueue = queue → s.Live c now →
      ∃ s', Later c s s' ∧ s'.loop = .selecting ∧ s'.relayQueue = [] ∧ s'.sessions = s.sessions
        ∧ s'.server = s.server := by
  induction queue with
  | nil => exact fun {s} _ hloop hqueue _ => ⟨s, .refl c s, hloop, hqueue, rfl, rfl⟩
  | cons item rest ih =>
    intro s hs hloop hqueue hlive
    have htake : s.next c .takeRelay = some ({ s with
        relayQueue := rest, batcher := (s.batcher.push item).1 }.relayNext
          (s.batcher.push item).2.toList) := by
      simp only [System.next, hloop, hqueue]
    have hlater₁ := Later.next htake trivial
    have haside₁ := aside_relayNext { s with
      relayQueue := rest, batcher := (s.batcher.push item).1 } (s.batcher.push item).2.toList
    obtain ⟨s₂, hlater₂, haside₂, hloop₂⟩ := later_selecting (hs.later hlater₁)
      (loop_relayNext_ne _ _) (hlive.congr haside₁.server)
    have haside := haside₁.trans haside₂
    obtain ⟨s', hlater', hloop', hqueue', hsessions, hserver⟩ :=
      ih (hs.later (hlater₁.trans hlater₂)) hloop₂ haside.relayQueue (hlive.congr haside.server)
    exact ⟨s', (hlater₁.trans hlater₂).trans hlater', hloop', hqueue',
      hsessions.trans haside.sessions, hserver.trans haside.server⟩

/-- With the timer, the loop takes everything out of the batcher. -/
theorem later_flushed (hs : s.Held c) (hloop : s.loop = .selecting) (hlive : s.Live c now) :
    ∃ s', Later c s s' ∧ s'.loop = .selecting ∧ s'.relayQueue = s.relayQueue
      ∧ s'.batcher.pending.items = [] := by
  have htick : s.next c .tick = some ({ s with batcher := s.batcher.flushAll.1 }.relayNext
      s.batcher.flushAll.2) := by
    simp only [System.next, hloop]
  have hlater₁ := Later.next htick trivial
  have haside₁ := aside_relayNext { s with batcher := s.batcher.flushAll.1 } s.batcher.flushAll.2
  obtain ⟨s', hlater₂, haside₂, hloop'⟩ := later_selecting (hs.later hlater₁)
    (loop_relayNext_ne _ _) (hlive.congr haside₁.server)
  have haside := haside₁.trans haside₂
  refine ⟨s', hlater₁.trans hlater₂, hloop', haside.relayQueue, ?_⟩
  rw [haside.batcher, s.batcher.items_flushAll.2]
  rfl

omit [Float64 F] in
/-- What the loop was sent is under way or was answered. -/
theorem Accounted.mem_stock (hs : s.Accounted) (hx : x ∈ s.stock) :
    x ∈ s.transit ∨ x ∈ s.served := by
  simp only [stock, List.mem_append, or_assoc] at hx
  rw [mem_transit]
  rw [hs, List.mem_append] at hx
  tauto

omit [Float64 F] in
theorem Solutions.items {messages : List Message} (h : Solutions messages) :
    messages.flatMap Message.items = [] := by
  rw [List.flatMap_eq_nil_iff]
  intro m hm
  obtain ⟨p, rfl⟩ := h m hm
  rfl

/-- What the loop was sent is answered once the channel and the batcher were emptied. -/
theorem later_served_of_stock (hs : s.Held c) (hloop : s.loop = .selecting) (hlive : s.Live c now)
    (hx : x ∈ s.stock) : ∃ s', Later c s s' ∧ x ∈ s'.served := by
  obtain ⟨s₁, hlater₁, hloop₁, hqueue₁, -, hserver₁⟩ := later_emptied _ hs hloop rfl hlive
  obtain ⟨s₂, hlater₂, hloop₂, hqueue₂, hbatcher⟩ := later_flushed (hs.later hlater₁) hloop₁
    (hlive.congr hserver₁)
  have hlater := hlater₁.trans hlater₂
  have hs₂ := hs.later hlater
  refine ⟨s₂, hlater, ?_⟩
  rcases hs₂.accounted.mem_stock (subset_stock_later hlater hx) with htransit | hserved
  · -- nothing is left anywhere: the loop is at `select!` and has only solutions on the connection
    rw [mem_transit, hqueue₂, hqueue₁, hbatcher, hloop₂,
      (hs₂.wire.of_selecting hloop₂).1.items] at htransit
    simp [LoopPhase.unsent] at htransit
  · exact hserved

/-- **An accepted share can always be answered.** -/
theorem Held.later_served (hs : s.Held c) (hlive : s.Live c now) (hx : x ∈ s.accepted) :
    ∃ s', Later c s s' ∧ x ∈ s'.served := by
  by_cases hdeclaring : ∃ request, s.loop = .declaring request
  · obtain ⟨request, hloop⟩ := hdeclaring
    have hidle := hs.wire.of_declaring hloop
    refine ⟨s, .refl c s, ?_⟩
    rcases hs.tracked x hx with hhand | hstock
    · exact absurd (.inHand hhand) (hidle x)
    · rcases hs.accounted.mem_stock hstock with htransit | hserved
      · exact absurd (.transit htransit) (hidle x)
      · exact hserved
  · obtain ⟨s₁, hlater₁, haside₁, hloop₁⟩ := later_selecting hs (not_exists.mp hdeclaring) hlive
    obtain ⟨s₂, hlater₂, hloop₂, hqueue₂, hsessions₂, hserver₂⟩ := later_emptied _
      (hs.later hlater₁) hloop₁ rfl (hlive.congr haside₁.server)
    have hlater := hlater₁.trans hlater₂
    have hlive₂ := hlive.congr (hserver₂.trans haside₁.server)
    rcases hs.tracked x hx with ⟨k, block, hphase⟩ | hstock
    · have hphase₂ : (s₂.sessions k).phase = .relaying x block := by
        rw [hsessions₂, haside₁.sessions, hphase]
      have hrelay : s₂.next c (.relay k) = some (s₂.relay k x block) := by
        simp only [System.next, hphase₂, hqueue₂, List.length_nil]
        rfl
      have hlater₃ := hlater.trans (.next hrelay trivial)
      obtain ⟨s', hlater', hserved⟩ := later_served_of_stock (hs.later hlater₃) hloop₂ hlive₂
        (x := x) (by simp [stock, System.relay])
      exact ⟨s', hlater₃.trans hlater', hserved⟩
    · obtain ⟨s', hlater', hserved⟩ := later_served_of_stock (hs.later hlater) hloop₂ hlive₂
        (subset_stock_later hlater hstock)
      exact ⟨s', hlater.trans hlater', hserved⟩

omit [Float64 F] in
theorem idle_start (h : s.Start c) : s.Idle := by
  intro x hx
  cases hx with
  | judged hphase =>
    rw [h.sessions] at hphase
    cases hphase
  | inHand hx =>
    obtain ⟨k, block, hphase⟩ := hx
    rw [h.sessions] at hphase
    cases hphase
  | transit hx =>
    rw [mem_transit, h.relayQueue, h.batcher, h.loop, h.toServer] at hx
    simp [RelayBatcher.new, Groups.items, LoopPhase.unsent] at hx

omit [Float64 F] in
theorem held_start (h : s.Start c) : s.Held c where
  wire := by
    refine .selecting h.loop ?_ h.toClient ?_
    · rw [h.toServer]
      exact fun m hm => absurd hm List.not_mem_nil
    · intro job hjob
      rw [h.current] at hjob
      cases hjob
  fresh := fun x hx => absurd hx (idle_start h x)
  accounted := by rw [Accounted, served, h.written, h.handled, h.toServer]; rfl
  tracked := by
    intro x hx
    rw [h.accepted] at hx
    exact absurd hx List.not_mem_nil
  resolved := by
    intro b hb
    rw [h.handled] at hb
    exact absurd hb List.not_mem_nil

/-- **Accepted shares find their job**: in every run in which no template is taken while a share is
under way, and no good share is judged during a declaration, the batch of an accepted share is not
answered with an unknown job, and the run can go on to that answer. -/
theorem accepted_share_resolved (h : Reach (System.next c) (Permitted c) (Start c) s)
    {x : RelayShare} (hx : x ∈ s.accepted) :
    (∀ b ∈ s.handled, x ∈ items b.msg → (∃ job, b.job = some job ∧ job.jobId = x.jobId)
      ∧ b.response.firstErrorCode ≠ JdShareErrorCode.unknownJob.asU8)
    ∧ ∀ now, s.Live c now → ∃ s', Reach (System.next c) (Permitted c) (Eq s) s'
      ∧ ∃ b ∈ s'.handled, x ∈ items b.msg := by
  have hs : s.Held c := h.invariant (fun s hs => held_start hs)
    fun s e s' hs hok hnext => hs.step (step_of_next hnext) hok
  refine ⟨fun b hb hmem => ⟨(hs.resolved b hb x hmem).job, (hs.resolved b hb x hmem).code⟩, ?_⟩
  intro now hlive
  obtain ⟨s', hlater, hserved⟩ := hs.later_served hlive hx
  exact ⟨s', hlater, List.mem_flatMap.mp hserved⟩

/-! ## Runs -/

/-- The tip stays, and the token is live whenever the server works. -/
def Calm (c : Setting F) (s : System F) : ClientEvent F → Prop
  | .serve now => s.Live c now
  | .other server _ => server.currentPrevHash = s.server.currentPrevHash
  | _ => True

/-- A test for a live token. -/
def live (c : Setting F) (s : System F) (now : Nat) : Bool :=
  (s.server.tokens.lookup c.token).any fun t => !t.isExpired now

omit [Float64 F] in
theorem live_of_test (h : s.live c now = true) : s.Live c now := by
  obtain ⟨t, htoken, hlive⟩ := (Option.any_eq_true _ _).mp h
  exact ⟨t, htoken, by simpa using hlive⟩

/-- A test for the discipline, for runs in which the job stays. -/
def steady (c : Setting F) (s : System F) : ClientEvent F → Bool
  | .serve now => s.live c now
  | .share _ _ => match s.loop with
    | .declaring _ => false
    | _ => true
  | .template _ => false
  | .other _ _ => false
  | _ => true

omit [Float64 F] in
theorem permitted_of_test (s : System F) (e : ClientEvent F) (h : s.steady c e = true) :
    s.Permitted c e := by
  cases e with
  | serve now => exact live_of_test h
  | template request => cases h
  | share k share =>
    rintro ⟨request, hloop⟩
    rw [steady, hloop] at h
    cases h
  | _ => trivial

/-- The server answered an accepted share with this code. -/
def answeredWith (code : UInt8) (s : System F) : Bool :=
  s.handled.any fun b => b.response.firstErrorCode = code
    && s.accepted.any fun x => (items b.msg).contains x

omit [Float64 F] in
theorem answeredWith_iff {code : UInt8} : s.answeredWith code = true ↔
    ∃ b ∈ s.handled, b.response.firstErrorCode = code ∧ ∃ x ∈ s.accepted, x ∈ items b.msg := by
  simp [answeredWith]

/-- A share that was relayed with the timer and credited. -/
theorem flushed_share_resolved :
    ∃ (s : System Nat) (x : RelayShare), Reach (System.next sampleSetting)
        (Permitted sampleSetting) (Start sampleSetting) s ∧ x ∈ s.accepted ∧
      ∃ b ∈ s.handled, x ∈ items b.msg ∧ (∃ job, b.job = some job ∧ job.jobId = x.jobId)
        ∧ b.response.firstErrorCode ≠ JdShareErrorCode.unknownJob.asU8 := by
  have hfirst : Reach (System.next sampleSetting) (Permitted sampleSetting) (Start sampleSetting)
      (sampleSystem.declare sampleSetting sampleRequest) :=
    .tail (.init start_sampleSystem) (e := .template sampleRequest)
      (idle_start start_sampleSystem) rfl
  have hrun : ∃ s : System Nat, Reach (System.next sampleSetting) (Permitted sampleSetting)
      (Eq (sampleSystem.declare sampleSetting sampleRequest)) s ∧ s.answeredWith 0 = true := by
    refine Reach.exists_of_exec (steady sampleSetting) permitted_of_test _ rfl
      ([.serve 0, .answer] ++ blockRun ++ [.takeRelay, .tick, .serve 0]) ?_
    decide +kernel
  obtain ⟨s, hreach, hs⟩ := hrun
  obtain ⟨b, hb, -, x, hx, hmem⟩ := answeredWith_iff.mp hs
  have hresolved := accepted_share_resolved (hfirst.trans hreach) hx
  exact ⟨s, x, hfirst.trans hreach, hx, b, hb, hmem, hresolved.1 b hb hmem⟩

/-- A test for the tip and the token. -/
def calm (c : Setting F) (s : System F) : ClientEvent F → Bool
  | .serve now => s.live c now
  | .other server _ => server.currentPrevHash = s.server.currentPrevHash
  | _ => true

omit [Float64 F] in
theorem calm_of_test (s : System F) (e : ClientEvent F) (h : s.calm c e = true) : s.Calm c e := by
  cases e with
  | serve now => exact live_of_test h
  | other server books =>
    have hsame : server.currentPrevHash = s.server.currentPrevHash := of_decide_eq_true h
    exact hsame
  | _ => trivial

/-- **A share loses its job**: it waits in the batcher while the next template is declared. -/
theorem waiting_share_unresolved :
    ¬ ∀ (c : Setting Nat) (s : System Nat), Reach (System.next c) (Calm c) (Start c) s →
      ∀ x ∈ s.accepted, ∀ b ∈ s.handled, x ∈ items b.msg →
        b.response.firstErrorCode ≠ JdShareErrorCode.unknownJob.asU8 := by
  intro hall
  have hrun : ∃ s : System Nat, Reach (System.next sampleSetting) (Calm sampleSetting)
      (Start sampleSetting) s ∧ s.answeredWith JdShareErrorCode.unknownJob.asU8 = true := by
    refine Reach.exists_of_exec (calm sampleSetting) calm_of_test sampleSystem start_sampleSystem
      (declareRun ++ blockRun ++ [.takeRelay] ++ declareRun ++ [.tick, .serve 0]) ?_
    decide +kernel
  obtain ⟨s, hreach, hs⟩ := hrun
  obtain ⟨b, hb, hcode, x, hx, hmem⟩ := answeredWith_iff.mp hs
  exact hall _ s hreach x hx b hb hmem hcode

end MiningInfra.Jd.Client.System
