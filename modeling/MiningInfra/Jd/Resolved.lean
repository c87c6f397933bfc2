import MiningInfra.Jd.Relaying

/-!
# Batches and the job they are for

The server keeps one job for each token and finds the job of a batch by its id. A declaration
replaces the job of its token, so a batch resolves as long as nothing was declared between the
answer to its shares and its arrival. The client does not wait for its batches before it declares,
and its sessions go on with the old job while it does.
-/

namespace MiningInfra.Jd

open Lib Coinbase Equihash Payout

/-! ## A job that is found -/

variable {job : DeclaredJobInfo} {now : Nat}

/-- The job of a live token is found by its id, or another one with that id is. -/
theorem findJobById_of_lookup {tokens : Tokens} {token : List UInt8} {t : MiningJobToken}
    (htoken : tokens.lookup token = some t) (hlive : t.isExpired now = false)
    (hjob : t.jobInfo = some job) :
    ∃ found, findJobById tokens now job.jobId = some found ∧ found.jobId = job.jobId := by
  cases hfind : findJobById tokens now job.jobId with
  | some found => exact ⟨found, rfl, findJobById_jobId hfind⟩
  | none =>
    have hnone := List.findSome?_eq_none_iff.mp hfind ⟨token, t⟩ (Table.mem_entries.mpr htoken)
    simp [hlive, hjob] at hnone

section Codes

variable {F : Type} [Float64 F] {v : EquihashValidator} {targetToDifficulty : Bytes32 → F}

theorem Batch.precheck_ne_unknownJob (b : Batch) (share : JdShare) :
    b.precheck share ≠ some .unknownJob := by
  unfold precheck
  repeat' split
  all_goals simp

theorem Batch.check_ne_unknownJob (seen : SeenShares) (b : Batch) (share : JdShare) :
    b.check v seen share ≠ .error .unknownJob := by
  unfold check
  cases hpre : b.precheck share with
  | some code =>
    intro hcode
    cases hcode
    exact b.precheck_ne_unknownJob share hpre
  | none =>
    dsimp only
    repeat' split
    all_goals simp

section

variable (tip : Option Bytes32) (now : Nat)

/-- No share of a batch is turned away for its job. -/
theorem Batch.judge_ne_unknownJob (books : Books F) (b : Batch) (share : JdShare) :
    (b.judge v targetToDifficulty tip now books share).2 ≠ .error .unknownJob := by
  unfold judge
  cases hcheck : b.check v books.seen share with
  | error code =>
    intro hcode
    cases hcode
    exact b.check_ne_unknownJob books.seen share hcheck
  | ok equihashOk =>
    dsimp only
    repeat' split
    all_goals simp

theorem Batch.firstError_serve (b : Batch) (books : Books F) (share : JdShare)
    (h : b.tally.firstError ≠ some .unknownJob) :
    (b.serve v targetToDifficulty tip now books share).1.tally.firstError ≠ some .unknownJob := by
  have hjudge : (b.judge v targetToDifficulty tip now books share).2 ≠ .error .unknownJob :=
    b.judge_ne_unknownJob tip now books share
  unfold serve
  dsimp only
  split
  · exact h
  · rename_i code hcode
    rw [hcode] at hjudge
    simp only [reject, Tally.reject]
    cases hfirst : b.tally.firstError with
    | none => simpa using hjudge
    | some first => simpa [hfirst] using h

theorem Batch.firstError_serveAll (shares : List JdShare) :
    ∀ (b : Batch) (books : Books F), b.tally.firstError ≠ some .unknownJob →
      (b.serveAll v targetToDifficulty tip now books shares).1.tally.firstError
        ≠ some .unknownJob := by
  induction shares with
  | nil => exact fun b books h => h
  | cons share rest ih =>
    intro b books h
    exact ih _ _ (firstError_serve tip now { b with rest } books share h)

end

theorem firstErrorCode_ne_unknownJob {first : Option JdShareErrorCode}
    (h : first ≠ some .unknownJob) :
    (first.map (·.asU8)).getD 0 ≠ JdShareErrorCode.unknownJob.asU8 := by
  cases first with
  | none => decide
  | some code =>
    cases code with
    | unknownJob => exact absurd rfl h
    | _ => decide

/-- **A batch whose job is found is not answered with an unknown job.** -/
theorem handleSubmitSharesJd_ne_unknownJob {server : JdState} {books : Books F}
    {msg : SubmitSharesJd} (hjob : findJobById server.tokens now msg.jobId = some job) :
    (handleSubmitSharesJd v targetToDifficulty server now books msg).2.firstErrorCode
      ≠ JdShareErrorCode.unknownJob.asU8 := by
  unfold handleSubmitSharesJd resolveBatch
  rw [hjob]
  dsimp only
  by_cases hmode : job.mode = .fullTemplate
  · rw [if_pos hmode]
    dsimp only
    decide
  · rw [if_neg hmode]
    dsimp only [Tally.response]
    exact firstErrorCode_ne_unknownJob
      (Batch.firstError_serveAll server.currentPrevHash now msg.shares _ _ (by simp))

end Codes

namespace Client.System

variable {F : Type}

/-! ## Shares under way -/

/-- The shares between the sessions and the server. -/
def transit (s : System F) : List RelayShare :=
  s.relayQueue ++ s.batcher.pending.items ++ s.loop.unsent ++ s.toServer.flatMap Message.items

/-- The shares of the batches the server has answered. -/
def served (s : System F) : List RelayShare := s.handled.flatMap fun b => items b.msg

/-- A share that was found good and that the server has not answered yet. -/
inductive Underway (s : System F) (x : RelayShare) : Prop where
  | judged {k : Nat} {verdict : DownstreamSession.Verdict} {block : Bool}
      (hphase : (s.sessions k).phase = .responding verdict)
      (hrelay : verdict.relay = some (x, block))
  | inHand (h : s.InHand x)
  | transit (h : x ∈ s.transit)

def Idle (s : System F) : Prop := ∀ x, ¬ s.Underway x

/-- The token of the client can be used. -/
def Live (c : Setting F) (s : System F) (now : Nat) : Prop :=
  ∃ t, s.server.tokens.lookup c.token = some t ∧ t.isExpired now = false

variable {s s' : System F} {x : RelayShare} {request : SetCustomMiningJob} {server : JdState}
  {m : Message} {rest : List Message}

theorem mem_transit :
    x ∈ s.transit ↔ x ∈ s.relayQueue ∨ x ∈ s.batcher.pending.items ∨ x ∈ s.loop.unsent
      ∨ x ∈ s.toServer.flatMap Message.items := by
  simp only [transit, List.mem_append, or_assoc]

theorem mem_transit_relayNext {batches : List SubmitSharesJd} :
    x ∈ (s.relayNext batches).transit ↔ x ∈ s.relayQueue ∨ x ∈ s.batcher.pending.items
      ∨ x ∈ batches.flatMap items ∨ x ∈ s.toServer.flatMap Message.items := by
  rw [mem_transit]
  cases batches with
  | nil => rfl
  | cons msg rest =>
    simp only [relayNext, write, LoopPhase.unsent, List.flatMap_append, List.flatMap_cons,
      List.flatMap_nil, List.append_nil, Message.items, List.mem_append]
    tauto

variable [Float64 F] {c : Setting F} {e : ClientEvent F}

/-- Nothing gets between the sessions and the server but what a session had in hand. -/
theorem Step.transit (h : s.Step c e s') (hx : x ∈ s'.transit) : x ∈ s.transit ∨ s.InHand x := by
  have hserve : ∀ {m rest}, s.toServer = m :: rest → ∀ {x : RelayShare},
      x ∈ rest.flatMap Message.items → x ∈ s.toServer.flatMap Message.items := by
    intro m rest hmessage x hx
    rw [hmessage, List.flatMap_cons]
    exact List.mem_append_right _ hx
  cases h with
  | respond hphase =>
    unfold System.respond at hx
    split at hx
    · exact .inl hx
    · exact .inl hx
  | relay hphase hroom =>
    rename_i k item block
    simp only [mem_transit, System.relay, List.mem_append, List.mem_singleton] at hx ⊢
    rcases hx with (hx | rfl) | hx
    · exact .inl (.inl hx)
    · exact .inr ⟨k, block, hphase⟩
    · exact .inl (.inr hx)
  | template hloop =>
    simp only [mem_transit, declare, write, List.flatMap_append, List.flatMap_cons,
      List.flatMap_nil, Message.items, List.append_nil, LoopPhase.unsent] at hx ⊢
    rw [hloop]
    exact .inl hx
  | takeRelay hloop hqueue =>
    rename_i item rest
    have hpush := (s.batcher.items_push item).mem_iff (a := x)
    simp only [List.mem_append, List.mem_singleton] at hpush
    rw [mem_transit_relayNext] at hx
    rw [mem_transit, hqueue, List.mem_cons]
    tauto
  | takePush hloop hqueue =>
    simp only [mem_transit, write, List.flatMap_append, List.flatMap_cons, List.flatMap_nil,
      Message.items, List.append_nil] at hx ⊢
    exact .inl hx
  | tick hloop =>
    obtain ⟨hitems, hempty⟩ := s.batcher.items_flushAll
    rw [mem_transit_relayNext, hitems, hempty] at hx
    rw [mem_transit]
    simp only [Groups.items, List.flatMap_nil, List.not_mem_nil, false_or] at hx ⊢
    tauto
  | declared hloop hreply | refused hloop hreply =>
    rw [mem_transit] at hx ⊢
    rw [hloop]
    exact .inl hx
  | relayed hloop hreply =>
    rw [mem_transit_relayNext] at hx
    rw [mem_transit, hloop]
    exact .inl hx
  | accept hmessage hhandle | reject hmessage hhandle | batch hmessage hhandle
  | solution hmessage =>
    rw [mem_transit] at hx ⊢
    exact .inl (hx.imp_right (Or.imp_right (Or.imp_right (hserve hmessage))))
  | _ => exact .inl hx

/-- **Only a good share that is judged gets under way.** -/
theorem Step.underway (h : s.Step c e s') (hx : s'.Underway x) :
    s.Underway x ∨ ∃ k share block, e = .share k share ∧
      ((s.sessions k).session.handleShare c.validator s.current share).2.relay
        = some (x, block) := by
  cases hx with
  | judged hphase hrelay =>
    rename_i k verdict block
    rcases h.phase k with hsame | ⟨-, h', hevent⟩ | ⟨-, h'⟩ | ⟨-, -, h'⟩ | ⟨-, h', -⟩ |
      ⟨-, h', -⟩ | ⟨-, h'⟩
    · exact .inl (.judged (hsame.symm.trans hphase) hrelay)
    · rename_i share
      cases h'.symm.trans hphase
      exact .inr ⟨k, share, block, hevent, hrelay⟩
    · cases h'.symm.trans hphase
    · cases h'.symm.trans hphase
    · rename_i item isBlock
      cases isBlock <;> cases h'.symm.trans hphase
    · cases h'.symm.trans hphase
    · cases h'.symm.trans hphase
  | inHand hx =>
    obtain ⟨k, block, hphase⟩ := hx
    rcases h.phase k with hsame | ⟨-, h', -⟩ | ⟨-, h'⟩ | ⟨hresponding, hrelay, h'⟩ |
      ⟨-, h', -⟩ | ⟨-, h', -⟩ | ⟨-, h'⟩
    · exact .inl (.inHand ⟨k, block, hsame.symm.trans hphase⟩)
    · cases h'.symm.trans hphase
    · cases h'.symm.trans hphase
    · cases h'.symm.trans hphase
      exact .inl (.judged hresponding hrelay)
    · rename_i item isBlock
      cases isBlock <;> cases h'.symm.trans hphase
    · cases h'.symm.trans hphase
    · cases h'.symm.trans hphase
  | transit hx =>
    rcases h.transit hx with hx | hx
    · exact .inl (.transit hx)
    · exact .inl (.inHand hx)

/-! ## The connection -/

/-- The token is live whenever the server works, a template is declared when nothing is under way,
and no good share is judged while a declaration is. -/
def Permitted (c : Setting F) (s : System F) : ClientEvent F → Prop
  | .serve now => s.Live c now
  | .template _ => s.Idle
  | .share k share => (∃ request, s.loop = .declaring request) →
      ((s.sessions k).session.handleShare c.validator s.current share).2.relay = none
  | _ => True

/-- The server has a job with this id for the token. -/
def Slot (c : Setting F) (s : System F) (jobId : UInt32) : Prop :=
  ∃ t info, s.server.tokens.lookup c.token = some t ∧ t.jobInfo = some info ∧ info.jobId = jobId

/-- The job the sessions work on is the one the server has. -/
def Linked (c : Setting F) (s : System F) : Prop :=
  ∀ job, s.current = some job → s.Slot c job.jobId

def Solutions (messages : List Message) : Prop := ∀ m ∈ messages, ∃ p, m = .pushSolution p

/-- What the loop waits for is on its way, behind solutions at most. -/
inductive Wire (c : Setting F) (s : System F) : Prop where
  | selecting (hloop : s.loop = .selecting) (hsent : Solutions s.toServer)
      (hreplies : s.toClient = []) (hlinked : s.Linked c)
  | asked {request : SetCustomMiningJob} {before : List Message}
      (hloop : s.loop = .declaring request) (hidle : s.Idle) (hbefore : Solutions before)
      (hsent : s.toServer = before ++ [.setCustomJob request])
      (htoken : request.miningJobToken = c.token) (hreplies : s.toClient = [])
      (hlinked : s.Linked c)
  | granted {request : SetCustomMiningJob} {success : SetCustomMiningJobSuccess}
      (hloop : s.loop = .declaring request) (hidle : s.Idle) (hsent : s.toServer = [])
      (hreplies : s.toClient = [.declared (.ok success)]) (hslot : s.Slot c success.jobId)
  | refused {request : SetCustomMiningJob} {e : SetCustomMiningJobError}
      (hloop : s.loop = .declaring request) (hidle : s.Idle) (hsent : s.toServer = [])
      (hreplies : s.toClient = [.declared (.error e)]) (hlinked : s.Linked c)
  | sent {rest : List SubmitSharesJd} {msg : SubmitSharesJd} {before : List Message}
      (hloop : s.loop = .relaying rest) (hbefore : Solutions before)
      (hsent : s.toServer = before ++ [.submitShares msg]) (hreplies : s.toClient = [])
      (hlinked : s.Linked c)
  | answered {rest : List SubmitSharesJd} {response : SubmitSharesJdResponse}
      (hloop : s.loop = .relaying rest) (hsent : s.toServer = [])
      (hreplies : s.toClient = [.shares response]) (hlinked : s.Linked c)

theorem idle_step (hs : s.Idle) (h : s.Step c e s') (hok : s.Permitted c e)
    (hdeclaring : (∃ request, s.loop = .declaring request) ∨ ∀ k share, e ≠ .share k share) :
    s'.Idle := by
  intro x hx
  rcases h.underway hx with hx | ⟨k, share, block, rfl, hrelay⟩
  · exact hs x hx
  · rcases hdeclaring with hdeclaring | hother
    · rw [hok hdeclaring] at hrelay
      cases hrelay
    · exact hother k share rfl

section

omit [Float64 F]

/-- A step of a session or of others leaves the connection alone. -/
theorem Wire.frame (hs : s.Wire c) (hloop : s'.loop = s.loop) (hserver : s'.toServer = s.toServer)
    (hclient : s'.toClient = s.toClient) (hcurrent : s'.current = s.current)
    (htoken : s'.server.tokens.lookup c.token = s.server.tokens.lookup c.token)
    (hidle : (∃ request, s.loop = .declaring request) → s.Idle → s'.Idle) : s'.Wire c := by
  have hslot : ∀ {jobId}, s.Slot c jobId → s'.Slot c jobId := by
    intro jobId hslot
    rwa [Slot, htoken]
  have hlink : s.Linked c → s'.Linked c := by
    intro hlinked job hjob
    exact hslot (hlinked job (hcurrent ▸ hjob))
  cases hs with
  | selecting h hsent hreplies hlinked =>
    exact .selecting (hloop.trans h) (hserver ▸ hsent) (hclient.trans hreplies) (hlink hlinked)
  | asked h hs hbefore hsent hname hreplies hlinked =>
    exact .asked (hloop.trans h) (hidle ⟨_, h⟩ hs) hbefore (hserver.trans hsent) hname
      (hclient.trans hreplies) (hlink hlinked)
  | granted h hs hsent hreplies hgranted =>
    exact .granted (hloop.trans h) (hidle ⟨_, h⟩ hs) (hserver.trans hsent)
      (hclient.trans hreplies) (hslot hgranted)
  | refused h hs hsent hreplies hlinked =>
    exact .refused (hloop.trans h) (hidle ⟨_, h⟩ hs) (hserver.trans hsent)
      (hclient.trans hreplies) (hlink hlinked)
  | sent h hbefore hsent hreplies hlinked =>
    exact .sent (hloop.trans h) hbefore (hserver.trans hsent) (hclient.trans hreplies)
      (hlink hlinked)
  | answered h hsent hreplies hlinked =>
    exact .answered (hloop.trans h) (hserver.trans hsent) (hclient.trans hreplies) (hlink hlinked)

theorem respond_eq (s : System F) (k : Nat) (verdict : DownstreamSession.Verdict) :
    ∃ sessions accepted, s.respond k verdict = { s with sessions, accepted } := by
  unfold respond
  split
  · exact ⟨_, _, rfl⟩
  · exact ⟨_, _, rfl⟩

/-- Batches go out behind the solutions. -/
theorem wire_relayNext (batches : List SubmitSharesJd) (hsent : Solutions s.toServer)
    (hreplies : s.toClient = []) (hlinked : s.Linked c) : (s.relayNext batches).Wire c := by
  cases batches with
  | nil => exact .selecting rfl hsent hreplies hlinked
  | cons msg rest => exact .sent rfl hsent rfl hreplies hlinked

/-- A successful declaration puts its job into the slot of the token. -/
theorem slot_of_handleDeclareJob {success : SetCustomMiningJobSuccess} (hs : s'.server = server)
    (htoken : request.miningJobToken = c.token)
    (hhandle : handleDeclareJob c.validator.hashes c.config s.server now request
      = (server, .ok success)) : s'.Slot c success.jobId := by
  obtain ⟨token, -, -, hjob⟩ := acceptedJob_of_success (congrArg Prod.snd hhandle)
  unfold acceptedJob at hjob
  rw [hhandle] at hjob
  obtain ⟨t, hlookup, hinfo⟩ := Option.bind_eq_some_iff.mp hjob
  exact ⟨t, _, by rw [hs, ← htoken]; exact hlookup, hinfo, rfl⟩

end

/-- The first of the messages is a solution, or the one that is waited for. -/
theorem Solutions.cons_eq {before : List Message} (hbefore : Solutions before) {last : Message}
    (h : m :: rest = before ++ [last]) :
    (∃ p before', m = .pushSolution p ∧ Solutions before' ∧ rest = before' ++ [last])
      ∨ m = last ∧ rest = [] := by
  cases before with
  | nil =>
    obtain ⟨rfl, rfl⟩ := List.cons.inj h
    exact .inr ⟨rfl, rfl⟩
  | cons first before' =>
    obtain ⟨rfl, rfl⟩ := List.cons.inj h
    obtain ⟨p, hp⟩ := hbefore m List.mem_cons_self
    exact .inl ⟨p, before', hp, fun m hm => hbefore m (List.mem_cons_of_mem _ hm), rfl⟩

section

omit [Float64 F]

theorem Wire.of_selecting (hs : s.Wire c) (hloop : s.loop = .selecting) :
    Solutions s.toServer ∧ s.toClient = [] ∧ s.Linked c := by
  cases hs with
  | selecting _ hsent hreplies hlinked => exact ⟨hsent, hreplies, hlinked⟩
  | asked h | granted h | refused h | sent h | answered h => cases hloop.symm.trans h

theorem Wire.of_declaring (hs : s.Wire c) (hloop : s.loop = .declaring request) : s.Idle := by
  cases hs with
  | selecting h | sent h | answered h => cases hloop.symm.trans h
  | asked _ hidle | granted _ hidle | refused _ hidle => exact hidle

/-- A refusal leaves the tokens alone. -/
theorem tokens_of_handleDeclareJob {e : SetCustomMiningJobError}
    (hhandle : handleDeclareJob c.validator.hashes c.config s.server now request
      = (server, .err e)) : server.tokens = s.server.tokens := by
  unfold handleDeclareJob at hhandle
  split at hhandle
  · cases hhandle
    rfl
  · cases hhandle
  · rename_i token _
    obtain ⟨hserver, herr⟩ := Prod.mk.inj hhandle
    subst hserver
    unfold storeJob at herr ⊢
    split at herr
    · rfl
    · cases herr

/-- What a message the server takes can be. -/
theorem Wire.serve (hs : s.Wire c) (hmessage : s.toServer = m :: rest) : (∃ p, m = .pushSolution p)
    ∨ (∃ request, m = .setCustomJob request ∧ rest = [] ∧ s.loop = .declaring request ∧ s.Idle
        ∧ request.miningJobToken = c.token ∧ s.toClient = [] ∧ s.Linked c)
    ∨ (∃ msg batches, m = .submitShares msg ∧ rest = [] ∧ s.loop = .relaying batches
        ∧ s.toClient = [] ∧ s.Linked c) := by
  cases hs with
  | selecting _ hsent =>
    exact .inl (hsent m (hmessage ▸ List.mem_cons_self))
  | asked hloop hidle hbefore hsent htoken hreplies hlinked =>
    rcases hbefore.cons_eq (hmessage.symm.trans hsent) with ⟨p, _, hp, -, -⟩ | ⟨rfl, hrest⟩
    · exact .inl ⟨p, hp⟩
    · exact .inr (.inl ⟨_, rfl, hrest, hloop, hidle, htoken, hreplies, hlinked⟩)
  | granted _ _ hsent | refused _ _ hsent | answered _ hsent => cases hmessage.symm.trans hsent
  | sent hloop hbefore hsent hreplies hlinked =>
    rcases hbefore.cons_eq (hmessage.symm.trans hsent) with ⟨p, _, hp, -, -⟩ | ⟨rfl, hrest⟩
    · exact .inl ⟨p, hp⟩
    · exact .inr (.inr ⟨_, _, rfl, hrest, hloop, hreplies, hlinked⟩)

end

/-- **The connection stays in order.** -/
theorem Wire.step (hs : s.Wire c) (h : s.Step c e s') (hok : s.Permitted c e) : s'.Wire c := by
  have hidle : (∃ request, s.loop = .declaring request) → s.Idle → s'.Idle :=
    fun hdeclaring hs => idle_step hs h hok (.inl hdeclaring)
  have hstep := h
  cases h with
  | share hphase | disconnect hphase | relay hphase hroom | push hphase hroom =>
    exact hs.frame rfl rfl rfl rfl rfl hidle
  | respond hphase =>
    rename_i k verdict
    obtain ⟨sessions, accepted, heq⟩ := s.respond_eq k verdict
    rw [heq] at hidle ⊢
    exact hs.frame rfl rfl rfl rfl rfl hidle
  | template hloop =>
    obtain ⟨hsent, hreplies, hlinked⟩ := hs.of_selecting hloop
    have hidle' := idle_step hok hstep hok (.inr (by simp))
    exact .asked rfl hidle' hsent rfl rfl hreplies hlinked
  | takeRelay hloop hqueue | tick hloop =>
    obtain ⟨hsent, hreplies, hlinked⟩ := hs.of_selecting hloop
    exact wire_relayNext _ hsent hreplies hlinked
  | takePush hloop hqueue =>
    obtain ⟨hsent, hreplies, hlinked⟩ := hs.of_selecting hloop
    refine .selecting hloop (fun m hm => ?_) hreplies hlinked
    rcases List.mem_append.mp hm with hm | hm
    · exact hsent m hm
    · exact ⟨_, List.mem_singleton.mp hm⟩
  | declared hloop hreply =>
    cases hs with
    | granted _ _ hsent hreplies hslot =>
      cases hreply.symm.trans hreplies
      refine .selecting rfl ?_ rfl ?_
      · rintro m hm
        rw [hsent] at hm
        cases hm
      · rintro job ⟨⟩
        exact hslot
    | selecting h | sent h | answered h => cases hloop.symm.trans h
    | asked _ _ _ _ _ hreplies | refused _ _ _ hreplies => cases hreply.symm.trans hreplies
  | refused hloop hreply =>
    cases hs with
    | refused _ _ hsent hreplies hlinked =>
      cases hreply.symm.trans hreplies
      refine .selecting rfl ?_ rfl hlinked
      rintro m hm
      rw [hsent] at hm
      cases hm
    | selecting h | sent h | answered h => cases hloop.symm.trans h
    | asked _ _ _ _ _ hreplies | granted _ _ _ hreplies => cases hreply.symm.trans hreplies
  | relayed hloop hreply =>
    cases hs with
    | answered _ hsent hreplies hlinked =>
      cases hreply.symm.trans hreplies
      refine wire_relayNext _ ?_ rfl hlinked
      rintro m hm
      rw [hsent] at hm
      cases hm
    | selecting h | asked h | granted h | refused h => cases hloop.symm.trans h
    | sent _ _ _ hreplies => cases hreply.symm.trans hreplies
  | accept hmessage hhandle =>
    rcases hs.serve hmessage with ⟨p, hp⟩ | ⟨request, heq, hrest, hloop, hidle', htoken, hreplies,
      hlinked⟩ | ⟨msg, batches, heq, -⟩
    · cases hp
    · cases heq
      refine .granted hloop (hidle ⟨_, hloop⟩ hidle') hrest ?_
        (slot_of_handleDeclareJob rfl htoken hhandle)
      rw [hreplies]
      rfl
    · cases heq
  | reject hmessage hhandle =>
    rcases hs.serve hmessage with ⟨p, hp⟩ | ⟨request, heq, hrest, hloop, hidle', htoken, hreplies,
      hlinked⟩ | ⟨msg, batches, heq, -⟩
    · cases hp
    · cases heq
      refine .refused hloop (hidle ⟨_, hloop⟩ hidle') hrest (congrArg (· ++ [_]) hreplies) ?_
      intro job hjob
      unfold Slot
      rw [tokens_of_handleDeclareJob hhandle]
      exact hlinked job hjob
    · cases heq
  | batch hmessage hhandle =>
    rcases hs.serve hmessage with ⟨p, hp⟩ | ⟨request, heq, -⟩ | ⟨msg, batches, heq, hrest, hloop,
      hreplies, hlinked⟩
    · cases hp
    · cases heq
    · exact .answered hloop hrest (congrArg (· ++ [_]) hreplies) hlinked
  | solution hmessage =>
    cases hs with
    | selecting hloop hsent hreplies hlinked =>
      refine .selecting hloop (fun m hm => hsent m ?_) hreplies hlinked
      rw [hmessage]
      exact List.mem_cons_of_mem _ hm
    | asked hloop hs hbefore hsent htoken hreplies hlinked =>
      rcases hbefore.cons_eq (hmessage.symm.trans hsent) with ⟨_, _, -, hbefore', hrest⟩ | ⟨hp, -⟩
      · exact .asked hloop (hidle ⟨_, hloop⟩ hs) hbefore' hrest htoken hreplies hlinked
      · cases hp
    | granted _ _ hsent | refused _ _ hsent | answered _ hsent => cases hmessage.symm.trans hsent
    | sent hloop hbefore hsent hreplies hlinked =>
      rcases hbefore.cons_eq (hmessage.symm.trans hsent) with ⟨_, _, -, hbefore', hrest⟩ | ⟨hp, -⟩
      · exact .sent hloop hbefore' hrest hreplies hlinked
      · cases hp
  | other htoken => exact hs.frame rfl rfl rfl rfl htoken hidle

/-! ## What holds along a permitted run -/

/-- What is under way is for the job the sessions work on. -/
def Fresh (s : System F) : Prop :=
  ∀ x, s.Underway x → ∃ job, s.current = some job ∧ job.jobId = x.jobId

/-- What was written was answered, or is still to be read. -/
def Accounted (s : System F) : Prop :=
  s.written.flatMap Message.items = s.served ++ s.toServer.flatMap Message.items

/-- A batch that found a job with the id of its shares. -/
structure Resolved (b : Handled) (x : RelayShare) : Prop where
  job : ∃ job, b.job = some job ∧ job.jobId = x.jobId
  code : b.response.firstErrorCode ≠ JdShareErrorCode.unknownJob.asU8

structure Held (c : Setting F) (s : System F) : Prop where
  wire : s.Wire c
  fresh : s.Fresh
  accounted : s.Accounted
  tracked : s.Tracked
  resolved : ∀ b ∈ s.handled, ∀ x ∈ items b.msg, Resolved b x

/-- A relayed share is for the current job. -/
theorem jobId_of_relay {v : EquihashValidator} {session : DownstreamSession}
    {current : Option CurrentDeclaredJob} {share : Pool.SubmitEquihashShare} {block : Bool}
    (h : (session.handleShare v current share).2.relay = some (x, block)) :
    ∃ job, current = some job ∧ job.jobId = x.jobId := by
  rcases session.handleShare_cases v current share with ⟨s', reason, hreject, -⟩ | ⟨job, nonce, hj⟩
  · rw [hreject] at h
    cases h
  · refine ⟨job, hj.isCurrent, ?_⟩
    rw [hj.handled] at h
    unfold DownstreamSession.Verdict.of at h
    split at h
    · cases h
      rfl
    · cases h

/-- The sessions get another job at the end of a declaration only. -/
theorem Step.current (h : s.Step c e s') :
    s'.current = s.current ∨ ∃ request, s.loop = .declaring request := by
  cases h with
  | respond hphase =>
    rename_i k verdict
    obtain ⟨_, _, heq⟩ := s.respond_eq k verdict
    exact .inl (by rw [heq])
  | takeRelay hloop hqueue | tick hloop | relayed hloop hreply =>
    obtain ⟨_, _, _, heq⟩ := relayNext_eq (F := F) _ _
    exact .inl (by rw [heq])
  | declared hloop hreply => exact .inr ⟨_, hloop⟩
  | _ => exact .inl rfl

theorem Fresh.step (hs : s.Fresh) (hwire : s.Wire c) (h : s.Step c e s') (hok : s.Permitted c e) :
    s'.Fresh := by
  intro x hx
  rcases h.current with hcurrent | ⟨request, hloop⟩
  · rw [hcurrent]
    rcases h.underway hx with hx | ⟨k, share, block, -, hrelay⟩
    · exact hs x hx
    · exact jobId_of_relay hrelay
  · exact absurd hx (idle_step (hwire.of_declaring hloop) h hok (.inl ⟨request, hloop⟩) x)

omit [Float64 F] in
theorem accounted_relayNext (hs : s.Accounted) (batches : List SubmitSharesJd) :
    (s.relayNext batches).Accounted := by
  cases batches with
  | nil => exact hs
  | cons msg rest =>
    unfold Accounted at hs ⊢
    simp only [relayNext, write, List.flatMap_append, hs, List.append_assoc]
    rfl

theorem Accounted.step (hs : s.Accounted) (h : s.Step c e s') : s'.Accounted := by
  cases h with
  | respond hphase =>
    rename_i k verdict
    obtain ⟨_, _, heq⟩ := s.respond_eq k verdict
    rw [heq]
    exact hs
  | template hloop =>
    unfold Accounted at hs ⊢
    simp only [declare, write, List.flatMap_append, hs, List.append_assoc]
    rfl
  | takeRelay hloop hqueue | tick hloop | relayed hloop hreply =>
    refine accounted_relayNext ?_ _
    exact hs
  | takePush hloop hqueue =>
    unfold Accounted at hs ⊢
    simp only [write, List.flatMap_append, hs, List.append_assoc]
    rfl
  | accept hmessage hhandle | reject hmessage hhandle | solution hmessage =>
    unfold Accounted at hs ⊢
    rw [hs, hmessage]
    rfl
  | batch hmessage hhandle =>
    unfold Accounted at hs ⊢
    rw [hs, hmessage]
    simp only [served, List.flatMap_append, List.flatMap_cons, List.flatMap_nil, List.append_nil,
      Message.items, List.append_assoc]
  | _ => exact hs

/-- Only a batch that is handled adds to the record. -/
theorem Step.handled (h : s.Step c e s') : s'.handled = s.handled ∨
    ∃ now msg rest, e = .serve now ∧ s.toServer = .submitShares msg :: rest ∧
      s'.handled = s.handled ++ [⟨msg, findJobById s.server.tokens now msg.jobId,
        (handleSubmitSharesJd c.validator c.targetToDifficulty s.server now s.books msg).2⟩] := by
  cases h with
  | respond hphase =>
    rename_i k verdict
    obtain ⟨_, _, heq⟩ := s.respond_eq k verdict
    exact .inl (by rw [heq])
  | takeRelay hloop hqueue | tick hloop | relayed hloop hreply =>
    obtain ⟨_, _, _, heq⟩ := relayNext_eq (F := F) _ _
    exact .inl (by rw [heq])
  | batch hmessage hhandle =>
    exact .inr ⟨_, _, _, rfl, hmessage, by rw [hhandle]⟩
  | _ => exact .inl rfl

/-- **A batch finds its job**: its shares are for the job of the sessions, which the server has. -/
theorem Held.resolved_step (hs : s.Held c) (h : s.Step c e s') (hok : s.Permitted c e) :
    ∀ b ∈ s'.handled, ∀ x ∈ items b.msg, Resolved b x := by
  rcases h.handled with hsame | ⟨now, msg, rest, rfl, hmessage, hhandled⟩
  · rw [hsame]
    exact hs.resolved
  · intro b hb x hx
    rw [hhandled] at hb
    rcases List.mem_append.mp hb with hb | hb
    · exact hs.resolved b hb x hx
    · cases List.mem_singleton.mp hb
      have hunderway : s.Underway x := by
        refine .transit (mem_transit.mpr (.inr (.inr (.inr ?_))))
        rw [hmessage]
        exact List.mem_append_left _ hx
      obtain ⟨job, hcurrent, hjob⟩ := hs.fresh x hunderway
      have hlinked : s.Linked c := by
        rcases hs.wire.serve hmessage with ⟨p, hp⟩ | ⟨request, heq, -⟩ | ⟨_, _, -, -, -, -, hlinked⟩
        · cases hp
        · cases heq
        · exact hlinked
      obtain ⟨t, info, hlookup, hinfo, hid⟩ := hlinked job hcurrent
      obtain ⟨t', hlookup', hlive⟩ := hok
      cases hlookup.symm.trans hlookup'
      obtain ⟨share, -, rfl⟩ := List.mem_map.mp hx
      obtain ⟨found, hfind, hfound⟩ := findJobById_of_lookup hlookup hlive hinfo
      rw [hid, hjob] at hfind hfound
      exact ⟨⟨found, hfind, hfound⟩, handleSubmitSharesJd_ne_unknownJob hfind⟩

theorem Held.step (hs : s.Held c) (h : s.Step c e s') (hok : s.Permitted c e) : s'.Held c :=
  ⟨hs.wire.step h hok, hs.fresh.step hs.wire h hok, hs.accounted.step h, hs.tracked.step h,
    hs.resolved_step h hok⟩

end Client.System

end MiningInfra.Jd
