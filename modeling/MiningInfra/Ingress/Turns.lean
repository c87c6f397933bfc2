import MiningInfra.Ingress.Bridge

/-!
# The turns of a call

What one call does between two locks or two `await`s, one case for each way it can go. Every
invariant of the bridge is proved from this list.
-/

namespace MiningInfra.Ingress

open Lib Relay

variable {n : Nat}

namespace Phase

/-- The call stands at an `await` that another call or the semaphore ends. -/
def Waits : Phase n → Prop
  | waiting _ | queued | claimWaiting _ => True
  | _ => False

/-- The call sends a validated copy, or sent it and has not dropped its claim. -/
def claims : Phase n → Bool
  | sending | committing _ | recorded _ => true
  | _ => false

def holdsPermit : Phase n → Bool
  | granted | preparing _ _ => true
  | _ => false

/-- The call has a validated copy and looks whether it may send it. -/
def Ready (p : Phase n) : Prop := p = preparing true (.finished .validated) ∨ p = reclaiming

end Phase

/-- A call that leaves a phase in which it has a permit gives the permit back. -/
def Shared.settle (s : Shared n) (p : Phase n) (source : Source) : Shared n :=
  if p.holdsPermit then s.give source else s

@[simp] theorem Shared.forwards_settle (s : Shared n) (p : Phase n) (source : Source) :
    (s.settle p source).forwards = s.forwards := by
  unfold settle
  split <;> rfl

@[simp] theorem Shared.unverified_settle (s : Shared n) (p : Phase n) (source : Source) :
    (s.settle p source).unverified = s.unverified := by
  unfold settle
  split <;> rfl

/-! ## Turns -/

/-- How a send that did not go through ends its call. -/
def Unsent (act : Act) (result : ForwardResult) : Prop :=
  (act = .fail ∧ result = .sendFailed) ∨ (act = .cancel ∧ result = .cancelled)

/-- The turns of a call. -/
inductive Turn (b : Bridge n) (i : Fin n) (now : Nat) (s : Shared n) :
    Phase n → Act → Phase n → Shared n → Prop where
  | refuse {error : BlockBodyError} : b.checkHeader i = .error error →
      Turn b i now s .arriving .proceed (.done (.refused (.invalidBlockBody error))) s
  | goOn : Turn b i now s .arriving .proceed .looking s
  | lookOpen : s.forwards.state (b.headerHash i) now = .opened →
      Turn b i now s .looking .proceed .queued (s.look now)
  | lookForwarded : s.forwards.state (b.headerHash i) now = .forwarded →
      Turn b i now s .looking .proceed (.done (.deduplicated now)) (s.look now)
  | lookInFlight {sender : Fin n} : s.forwards.state (b.headerHash i) now = .inFlight sender →
      Turn b i now s .looking .proceed (.waiting sender) (s.look now)
  | wake {sender : Fin n} : s.forwards.inFlight.lookup (b.headerHash i) ≠ some sender →
      Turn b i now s (.waiting sender) .proceed .looking s
  | leave {p : Phase n} : p.Waits → Turn b i now s p .cancel (.done .cancelled) s
  | grant : s.available (b.source i) ≠ 0 →
      Turn b i now s .queued .proceed .granted (s.acquire (b.source i))
  | prepare : s.forwards.state (b.headerHash i) now = .opened →
      Turn b i now s .granted .proceed (.preparing true .checking) (s.look now)
  | again : s.forwards.state (b.headerHash i) now ≠ .opened →
      Turn b i now s .granted .proceed .looking ((s.look now).give (b.source i))
  | work {attended : Bool} {job : Job} : (∀ result, job ≠ .finished result) →
      Turn b i now s (.preparing attended job) .proceed
        (.preparing attended (b.prepareForward i s now job).1) (b.prepareForward i s now job).2
  | workFails {attended : Bool} {job : Job} : (∀ result, job ≠ .finished result) →
      Turn b i now s (.preparing attended job) .fail
        (.preparing attended (b.prepareFails i s job).1) (b.prepareFails i s job).2
  | abandon {job : Job} : Turn b i now s (.preparing true job) .cancel (.preparing false job) s
  | discard {result : Prepared} :
      Turn b i now s (.preparing false (.finished result)) .proceed (.done .cancelled)
        (b.discard i s result)
  | resumeSent {since : Nat} :
      Turn b i now s (.preparing true (.finished (.previouslySent since))) .proceed
        (.done (.deduplicated since)) (s.give (b.source i))
  | resumeRefused {why : Refusal} :
      Turn b i now s (.preparing true (.finished (.refused why))) .proceed (.done (.refused why))
        (s.give (b.source i))
  | resumeUnverified :
      Turn b i now s (.preparing true (.finished .unverified)) .proceed .sendingUnverified
        (s.give (b.source i))
  | claim {p : Phase n} : p.Ready → s.forwards.state (b.headerHash i) now = .opened →
      Turn b i now s p .proceed .sending (Shared.settle
        { s with forwards := (s.forwards.evict now).claim (b.headerHash i) i } p (b.source i))
  | claimForwarded {p : Phase n} : p.Ready →
      s.forwards.state (b.headerHash i) now = .forwarded →
      Turn b i now s p .proceed (.done (.deduplicated now)) ((s.look now).settle p (b.source i))
  | claimInFlight {p : Phase n} {sender : Fin n} : p.Ready →
      s.forwards.state (b.headerHash i) now = .inFlight sender →
      Turn b i now s p .proceed (.claimWaiting sender) ((s.look now).settle p (b.source i))
  | wakeClaim {sender : Fin n} : s.forwards.inFlight.lookup (b.headerHash i) ≠ some sender →
      Turn b i now s (.claimWaiting sender) .proceed .reclaiming s
  | sent : Turn b i now s .sending .proceed (.committing now) s
  | unsent {act : Act} {result : ForwardResult} : Unsent act result →
      Turn b i now s .sending act (.done result) (s.reopen (b.headerHash i))
  | record {since : Nat} : Turn b i now s (.committing since) .proceed (.recorded now)
      { s with forwards := s.forwards.record (b.headerHash i) since }
  | commit {time : Nat} : Turn b i now s (.recorded time) .proceed (.done (.forwarded time))
      (s.reopen (b.headerHash i))
  | sentUnverified : Turn b i now s .sendingUnverified .proceed (.done (.forwardedUnverified now))
      { s with unverified := s.unverified.commit (b.body i) now }
  | unsentUnverified {act : Act} {result : ForwardResult} : Unsent act result →
      Turn b i now s .sendingUnverified act (.done result) (s.release (b.body i))

variable {b : Bridge n} {i : Fin n} {now : Nat} {s s' : Shared n} {p p' : Phase n} {act : Act}

theorem Turn.of_working {attended : Bool} {job : Job} (hjob : ∀ result, job ≠ .finished result)
    (h : b.turn i now s (.preparing attended job) act = some (p', s')) :
    Turn b i now s (.preparing attended job) act p' s' := by
  cases job with
  | finished result => exact absurd rfl (hjob result)
  | _ =>
    cases act with
    | proceed => cases attended <;> cases h <;> exact .work hjob
    | fail => cases attended <;> cases h <;> exact .workFails hjob
    | cancel => cases attended <;> cases h; exact .abandon

theorem Turn.of_claimForward (hp : p.Ready) :
    Turn b i now s p .proceed (b.claimForward i s now).1
      ((b.claimForward i s now).2.settle p (b.source i)) := by
  unfold Bridge.claimForward
  split
  · rename_i hstate
    exact .claim hp hstate
  · rename_i hstate
    exact .claimForwarded hp hstate
  · rename_i hstate
    exact .claimInFlight hp hstate

theorem Turn.of_resume {result : Prepared} :
    Turn b i now s (.preparing true (.finished result)) .proceed (b.resume i s now result).1
      (b.resume i s now result).2 := by
  cases result with
  | previouslySent since => exact .resumeSent
  | refused why => exact .resumeRefused
  | unverified => exact .resumeUnverified
  | validated => exact .of_claimForward (Or.inl rfl)

theorem Turn.of_turn (h : b.turn i now s p act = some (p', s')) : Turn b i now s p act p' s' := by
  cases p with
  | preparing attended job =>
    cases job with
    | finished result =>
      cases act with
      | proceed =>
        cases attended with
        | false => cases h; exact .discard
        | true =>
          have hresume := Option.some.inj h
          have hturn : Turn b i now s (.preparing true (.finished result)) .proceed _ _ :=
            .of_resume
          rwa [hresume] at hturn
      | fail => cases attended <;> cases h
      | cancel => cases attended <;> cases h; exact .abandon
    | _ => exact .of_working (by intro result h; cases h) h
  | arriving =>
    cases act with
    | proceed =>
      rw [Bridge.turn] at h
      split at h
      · rename_i hcheck
        cases h
        exact .refuse hcheck
      · cases h
        exact .goOn
    | _ => cases h
  | looking =>
    cases act with
    | proceed =>
      rw [Bridge.turn] at h
      split at h
      all_goals rename_i hstate; cases h
      · exact .lookOpen hstate
      · exact .lookForwarded hstate
      · exact .lookInFlight hstate
    | _ => cases h
  | waiting sender =>
    cases act with
    | proceed =>
      rw [Bridge.turn] at h
      split at h
      · cases h
      · rename_i hended
        cases h
        exact .wake hended
    | fail => cases h
    | cancel => cases h; exact .leave trivial
  | queued =>
    cases act with
    | proceed =>
      rw [Bridge.turn] at h
      split at h
      · cases h
      · rename_i havailable
        cases h
        exact .grant havailable
    | fail => cases h
    | cancel => cases h; exact .leave trivial
  | granted =>
    cases act with
    | proceed =>
      rw [Bridge.turn] at h
      split at h
      · rename_i hstate
        cases h
        exact .prepare hstate
      · rename_i hstate
        cases h
        exact .again hstate
    | _ => cases h
  | claimWaiting sender =>
    cases act with
    | proceed =>
      rw [Bridge.turn] at h
      split at h
      · cases h
      · rename_i hended
        cases h
        exact .wakeClaim hended
    | fail => cases h
    | cancel => cases h; exact .leave trivial
  | reclaiming =>
    cases act with
    | proceed =>
      have hclaim : b.claimForward i s now = (p', s') := Option.some.inj h
      have hturn : Turn b i now s .reclaiming .proceed _ _ := .of_claimForward (Or.inr rfl)
      rwa [hclaim] at hturn
    | _ => cases h
  | sending =>
    cases act <;> cases h
    · exact .sent
    · exact .unsent (Or.inl ⟨rfl, rfl⟩)
    · exact .unsent (Or.inr ⟨rfl, rfl⟩)
  | committing since => cases act <;> cases h; exact .record
  | recorded time => cases act <;> cases h; exact .commit
  | sendingUnverified =>
    cases act <;> cases h
    · exact .sentUnverified
    · exact .unsentUnverified (Or.inl ⟨rfl, rfl⟩)
    · exact .unsentUnverified (Or.inr ⟨rfl, rfl⟩)
  | done result => cases act <;> cases h

/-- A step of the bridge is a turn of one call. -/
theorem Bridge.turn_of_next {w w' : Forwarding n} {e : Event n} (h : b.next w e = some w') :
    ∃ p s, Turn b e.call (w.clock + e.wait) w.shared (w.phases e.call) e.act p s ∧
      w' = ⟨w.clock + e.wait, s, Function.update w.phases e.call p⟩ := by
  obtain ⟨⟨p, s⟩, hturn, rfl⟩ := Option.map_eq_some_iff.mp h
  exact ⟨p, s, .of_turn hturn, rfl⟩

/-- A call is where it was, or this was its turn. -/
theorem Bridge.phase_next {w w' : Forwarding n} {e : Event n} (h : b.next w e = some w')
    (j : Fin n) : w'.phases j = w.phases j ∨ e.call = j ∧
      Turn b j (w.clock + e.wait) w.shared (w.phases j) e.act (w'.phases j) w'.shared := by
  obtain ⟨p, s, hturn, rfl⟩ := turn_of_next h
  by_cases hj : j = e.call
  · subst hj
    refine .inr ⟨rfl, ?_⟩
    dsimp only
    rwa [Function.update_self]
  · exact .inl (Function.update_of_ne hj _ _)

end MiningInfra.Ingress
