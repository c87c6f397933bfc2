import MiningInfra.Ingress.Sending

/-!
# Every copy is settled

A call goes back to an earlier phase in three places: it wakes when a send that it waited for is
over (twice, before and after its own body was prepared), and it gives its permit back when the
block is no longer open. Each time another call has claimed the block, or dropped its claim, since
the call last looked. A call claims its block at most once, so that happens at most twice for every
call, and the number of steps that any interleaving can take is bounded.

Nobody waits for a call that waits: a call that sends holds no permit, and a call that holds a
permit waits for nobody.
-/

namespace MiningInfra.Ingress

open Lib Relay

variable {n : Nat} {b : Bridge n} {i : Fin n} {now : Nat} {s s' : Shared n} {p p' : Phase n}
  {act : Act}

/-! ## Steps left -/

namespace Job

@[simp] def rank : Job → Nat
  | checking => 3
  | parsing => 2
  | reserved => 1
  | finished _ => 0

end Job

namespace Phase

/-- The steps left if nobody else moves, at most. -/
@[simp] def rank : Phase n → Nat
  | arriving => 16
  | looking => 15
  | waiting _ | queued => 14
  | granted => 13
  | preparing attended job => 5 + 2 * job.rank + attended.toNat
  | reclaiming => 5
  | claimWaiting _ => 4
  | sending => 3
  | committing _ => 2
  | recorded _ | sendingUnverified => 1
  | done _ => 0

/-- How often the call can still have changed where its block stands: not yet, by its claim, and
by the end of it. -/
@[simp] def progress : Phase n → Nat
  | sending | committing _ | recorded _ => 1
  | done _ => 2
  | _ => 0

end Phase

theorem Bridge.rank_prepareForward {job : Job} (hjob : ∀ result, job ≠ .finished result) :
    (b.prepareForward i s now job).1.rank < job.rank := by
  cases job with
  | checking | reserved =>
    rw [prepareForward]
    split <;> simp
  | parsing =>
    rw [prepareForward]
    split
    · unfold prepareUnreadable
      split
      · dsimp only
        split <;> simp
      · simp
    · simp
  | finished result => exact absurd rfl (hjob result)

/-- What sends a call back to look again. -/
def Bridge.Retries (b : Bridge n) (i : Fin n) (s : Shared n) (now : Nat) : Phase n → Prop
  | .waiting sender | .claimWaiting sender =>
    s.forwards.inFlight.lookup (b.headerHash i) ≠ some sender
  | .granted => s.forwards.state (b.headerHash i) now ≠ .opened
  | _ => False

section

variable (h : Turn b i now s p act p' s')

include h

/-- A turn leads on, or back to look again. -/
theorem Turn.rank : p'.rank < p.rank ∨ b.Retries i s now p ∧ p'.rank ≤ 15 := by
  cases h with
  | @work attended job hjob =>
    have hwork : (b.prepareForward i s now job).1.rank < job.rank := b.rank_prepareForward hjob
    simp only [Phase.rank]
    omega
  | @workFails attended job hjob =>
    cases job with
    | finished result => exact absurd rfl (hjob result)
    | _ =>
      left
      simp only [Phase.rank, Bridge.prepareFails, Job.rank]
      omega
  | wake hended => exact Or.inr ⟨hended, Nat.le_refl _⟩
  | wakeClaim hended => exact Or.inr ⟨hended, by simp⟩
  | again hstate => exact Or.inr ⟨hstate, Nat.le_refl _⟩
  | leave hwaits => cases p <;> first | exact hwaits.elim | exact Or.inl (by simp)
  | claim hready _ | claimForwarded hready _ | claimInFlight hready _ =>
    left
    rcases hready with rfl | rfl <;> simp
  | _ =>
    left
    simp

theorem Turn.progress : p.progress ≤ p'.progress := by
  cases h with
  | leave hwaits => cases p <;> first | exact hwaits.elim | exact Nat.zero_le _
  | claim hready _ | claimForwarded hready _ | claimInFlight hready _ =>
    rcases hready with rfl | rfl <;> exact Nat.zero_le _
  | _ => simp

/-- As long as the calls make no progress of this kind, no claim begins or ends. -/
theorem Turn.inFlight_eq (hprogress : p'.progress = p.progress) :
    s'.forwards.inFlight = s.forwards.inFlight := by
  rcases h.inFlight with ⟨heq, -⟩ | ⟨-, -, hidle, rfl⟩ | ⟨-, hclaims, result, rfl⟩
  · exact heq
  · cases p <;> simp_all [Phase.claims]
  · cases p <;> simp_all [Phase.claims]

end

/-! ## What a call has seen -/

/-- The claims and the ends of claims so far, and more. -/
def Forwarding.version (w : Forwarding n) : Nat := ∑ i, (w.phases i).progress

theorem Phase.progress_le (p : Phase n) : p.progress ≤ 2 := by
  cases p <;> simp

theorem Forwarding.version_le (w : Forwarding n) : w.version ≤ 2 * n := by
  rw [Nat.mul_comm]
  exact sum_shares_le fun i => (w.phases i).progress_le

/-- What the call saw when it last looked is still so. -/
def Bridge.Unmoved (b : Bridge n) (i : Fin n) (s : Shared n) : Phase n → Prop
  | .waiting sender | .claimWaiting sender =>
    s.forwards.inFlight.lookup (b.headerHash i) = some sender
  | .queued | .granted => s.forwards.inFlight.lookup (b.headerHash i) = none ∧
      ∀ a ∈ s.forwards.recent.entries, a.1 ≠ b.headerHash i
  | _ => True

/-- Nothing sends a call back while that is so. -/
theorem Bridge.Unmoved.not_retries (h : b.Unmoved i s p) : ¬ b.Retries i s now p := by
  intro hretries
  cases p with
  | waiting sender | claimWaiting sender => exact hretries h
  | granted =>
    refine hretries (RecentForwardedHashes.state_eq_opened.mpr ⟨?_, h.1⟩)
    exact fun a ha => h.2 a (Recent.mem_of_mem_evictExpired ha)
  | _ => exact hretries

/-- A call looks, and goes where what it saw sends it. -/
theorem Turn.unmoved (h : Turn b i now s p act p' s') (hp : p ≠ .queued) : b.Unmoved i s' p' := by
  cases h with
  | lookOpen hstate =>
    obtain ⟨habsent, hnone⟩ := RecentForwardedHashes.state_eq_opened.mp hstate
    exact ⟨hnone, habsent⟩
  | lookInFlight hstate =>
    have hsender := RecentForwardedHashes.state_eq_inFlight hstate
    exact hsender
  | claimInFlight _ hstate =>
    have hsender := RecentForwardedHashes.state_eq_inFlight hstate
    rw [Bridge.Unmoved, Shared.forwards_settle]
    exact hsender
  | grant => exact absurd rfl hp
  | _ => exact trivial

/-- What one call saw is still so after the turn of another that neither claims nor drops a
claim: a block that is not being sent does not come on record. -/
theorem Bridge.Unmoved.turn {j : Fin n} {q : Phase n} (hq : b.Unmoved j s q)
    (h : Turn b i now s p act p' s') (hprogress : p'.progress = p.progress)
    (hclaimed : p.claims = true → s.forwards.inFlight.lookup (b.headerHash i) = some i) :
    b.Unmoved j s' q := by
  have hinFlight := h.inFlight_eq hprogress
  have hopen : s.forwards.inFlight.lookup (b.headerHash j) = none ∧
      (∀ a ∈ s.forwards.recent.entries, a.1 ≠ b.headerHash j) →
      s'.forwards.inFlight.lookup (b.headerHash j) = none ∧
        ∀ a ∈ s'.forwards.recent.entries, a.1 ≠ b.headerHash j := by
    rintro ⟨hnone, habsent⟩
    refine ⟨by rw [hinFlight]; exact hnone, fun a ha hhash => ?_⟩
    rcases h.mem_entries ha with ha | ⟨hself, since, rfl⟩
    · exact habsent a ha hhash
    · have := hclaimed rfl
      rw [← hself, hhash, hnone] at this
      cases this
  cases q with
  | waiting sender | claimWaiting sender =>
    rw [Unmoved, hinFlight]
    exact hq
  | queued | granted => exact hopen hq
  | _ => exact trivial

/-- When each call last looked. -/
structure Fresh (b : Bridge n) (w : Forwarding n) (seen : Fin n → Nat) : Prop where
  le : ∀ i, seen i ≤ w.version
  unmoved : ∀ i, seen i = w.version → b.Unmoved i w.shared (w.phases i)

/-- An upper bound on the steps left to a call. -/
def weight (n : Nat) (c : Phase n × Nat) : Nat := 17 * (2 * n - c.2) + c.1.rank

def Forwarding.rank (w : Forwarding n) (seen : Fin n → Nat) : Nat :=
  ∑ i, weight n (w.phases i, seen i)

theorem fresh_start (b : Bridge n) : Fresh b b.start (fun _ => 0) :=
  ⟨fun _ => Nat.zero_le _, fun _ _ => trivial⟩

section Steps

variable {w w' : Forwarding n} {e : Event n} {seen : Fin n → Nat}

theorem Forwarding.version_update (w : Forwarding n) (clock : Nat) (s : Shared n) (i : Fin n)
    (p : Phase n) : (⟨clock, s, Function.update w.phases i p⟩ : Forwarding n).version +
      (w.phases i).progress = w.version + p.progress :=
  sum_shares_update (fun _ p => p.progress) w.phases i p

theorem Forwarding.rank_update_lt {clock : Nat} {s : Shared n} {p : Phase n} {looked : Nat}
    (h : weight n (p, looked) < weight n (w.phases i, seen i)) :
    (⟨clock, s, Function.update w.phases i p⟩ : Forwarding n).rank (Function.update seen i looked) <
      w.rank seen := by
  have hboth : ∀ j, (Function.update w.phases i p j, Function.update seen i looked j) =
      Function.update (fun j => (w.phases j, seen j)) i (p, looked) j := by
    intro j
    by_cases hj : j = i
    · subst hj
      simp only [Function.update_self]
    · simp only [Function.update_of_ne hj]
  unfold Forwarding.rank
  simp only [hboth]
  exact sum_shares_lt (g := fun _ => weight n) (f := fun j => (w.phases j, seen j)) h

/-- The version a call has seen after its turn. One that was granted its permit looked when it
began to queue for it. -/
def looked (w w' : Forwarding n) (seen : Fin n → Nat) (i : Fin n) : Nat :=
  if w.phases i = .queued then seen i else w'.version

theorem Fresh.le_looked (hfresh : Fresh b w seen) (hversion : w.version ≤ w'.version) (i : Fin n) :
    seen i ≤ looked w w' seen i ∧ looked w w' seen i ≤ w'.version := by
  have := hfresh.le i
  unfold looked
  split <;> omega

/-- A turn that leads back has seen something new. -/
theorem Fresh.weight_lt (hfresh : Fresh b w seen) (hversion : w.version ≤ w'.version)
    (h : Turn b i now w.shared (w.phases i) act p' s') :
    weight n (p', looked w w' seen i) < weight n (w.phases i, seen i) := by
  have hbound := w'.version_le
  have hlooked := hfresh.le_looked hversion i
  unfold weight
  dsimp only
  rcases h.rank with hless | ⟨hretries, hle⟩
  · omega
  · have hseen := hfresh.le i
    have hmoved : seen i ≠ w.version :=
      fun heq => (hfresh.unmoved i heq).not_retries hretries
    have hqueued : w.phases i ≠ .queued := by
      intro hqueued
      rw [hqueued] at hretries
      exact hretries
    have hnew : looked w w' seen i = w'.version := if_neg hqueued
    omega

/-- A call that stops queueing has its permit, or is gone. -/
theorem Turn.unmoved_queued (h : Turn b i now s .queued act p' s') (hs : b.Unmoved i s .queued) :
    b.Unmoved i s' p' := by
  cases h with
  | grant => exact hs
  | leave => exact trivial
  | claim hready _ | claimForwarded hready _ | claimInFlight hready _ =>
    rcases hready with h | h <;> cases h

/-- **Every step leads closer to the end.** -/
theorem Fresh.next (hfresh : Fresh b w seen) (hclaimed : Claimed b w) (h : b.next w e = some w') :
    ∃ seen', Fresh b w' seen' ∧ w'.rank seen' < w.rank seen := by
  obtain ⟨p, s, hturn, hw'⟩ := Bridge.turn_of_next h
  have hphases : w'.phases = Function.update w.phases e.call p := by rw [hw']
  have hshared : w'.shared = s := by rw [hw']
  have hprogress := hturn.progress
  have hsum : w'.version + (w.phases e.call).progress = w.version + p.progress := by
    rw [hw']
    exact w.version_update _ s e.call p
  have hversion : w.version ≤ w'.version := by omega
  refine ⟨Function.update seen e.call (looked w w' seen e.call), ⟨?_, ?_⟩, ?_⟩
  · intro i
    by_cases hcall : i = e.call
    · subst hcall
      rw [Function.update_self]
      exact (hfresh.le_looked hversion e.call).2
    · rw [Function.update_of_ne hcall]
      exact Nat.le_trans (hfresh.le i) hversion
  · intro i hi
    have hle := hfresh.le i
    rw [hphases, hshared]
    by_cases hcall : i = e.call
    · subst hcall
      rw [Function.update_self] at hi ⊢
      by_cases hqueued : w.phases e.call = .queued
      · rw [looked, if_pos hqueued] at hi
        have hold := hfresh.unmoved e.call (by omega)
        rw [hqueued] at hold hturn
        exact hturn.unmoved_queued hold
      · exact hturn.unmoved hqueued
    · rw [Function.update_of_ne hcall] at hi ⊢
      refine (hfresh.unmoved i (by omega)).turn hturn (by omega) ?_
      intro hclaims
      exact (hclaimed _ _).mpr ⟨hclaims, rfl⟩
  · have hless := hfresh.weight_lt hversion hturn
    generalize looked w w' seen e.call = k at hless
    subst hw'
    exact Forwarding.rank_update_lt hless

/-- The calls of a reachable state have seen something, and are not further from the end than at
the start. -/
theorem Bridge.Reachable.fresh (h : b.Reachable w) :
    ∃ seen, Fresh b w seen ∧ w.rank seen ≤ n * (34 * n + 16) := by
  have hboth : Claimed b w ∧ ∃ seen, Fresh b w seen ∧ w.rank seen ≤ n * (34 * n + 16) := by
    refine Reach.invariant (I := fun w => Claimed b w ∧
      ∃ seen, Fresh b w seen ∧ w.rank seen ≤ n * (34 * n + 16)) ?_ ?_ h
    · rintro _ rfl
      refine ⟨claimed_start b, _, fresh_start b, sum_shares_le fun i => ?_⟩
      simp only [weight, Bridge.start, Phase.rank]
      omega
    · rintro w e w' ⟨hclaimed, seen, hfresh, hle⟩ _ hnext
      obtain ⟨seen', hfresh', hless⟩ := hfresh.next hclaimed hnext
      exact ⟨claimed_next hclaimed hnext, seen', hfresh', by omega⟩
  exact hboth.2

/-- **No run is longer than the calls allow.** -/
theorem Bridge.Reachable.length_le (h : b.Reachable w) {es : List (Event n)}
    (hrun : exec b.next (fun _ _ => true) w es = some w') : es.length ≤ n * (34 * n + 16) := by
  obtain ⟨seen, hfresh, hle⟩ := h.fresh
  refine Nat.le_trans (exec_length_le (R := fun w k => Claimed b w ∧
    ∃ seen, Fresh b w seen ∧ w.rank seen = k) ?_ es ⟨h.inv.claimed, seen, hfresh, rfl⟩ hrun) hle
  rintro w k e w' ⟨hclaimed, seen, hfresh, rfl⟩ hnext
  obtain ⟨seen', hfresh', hless⟩ := hfresh.next hclaimed hnext
  exact ⟨_, hless, claimed_next hclaimed hnext, seen', hfresh', rfl⟩

/-! ## Nobody waits for a call that waits -/

/-- A call that neither waits nor has ended can go on. -/
theorem Bridge.turn_isSome (i : Fin n) (now : Nat) (s : Shared n) (hwaits : ¬ p.Waits)
    (hdone : ∀ result, p ≠ .done result) : (b.turn i now s p .proceed).isSome = true := by
  cases p with
  | arriving | looking | granted =>
    rw [turn]
    split <;> rfl
  | waiting sender | queued | claimWaiting sender => exact absurd trivial hwaits
  | preparing attended job => cases job <;> cases attended <;> rfl
  | done result => exact absurd rfl (hdone result)
  | _ => rfl

theorem Phase.not_waits_of_claims (h : p.claims = true) : ¬ p.Waits := by
  cases p <;> simp_all [Phase.claims, Phase.Waits]

theorem Phase.not_waits_of_holdsPermit (h : p.holdsPermit = true) : ¬ p.Waits := by
  cases p <;> simp_all [Phase.holdsPermit, Phase.Waits]

theorem Phase.ne_done_of_claims (h : p.claims = true) (result : ForwardResult) :
    p ≠ .done result := by
  rintro rfl
  cases h

theorem Phase.ne_done_of_holdsPermit (h : p.holdsPermit = true) (result : ForwardResult) :
    p ≠ .done result := by
  rintro rfl
  cases h

/-- One call can go on. -/
def Bridge.Moves (b : Bridge n) (w : Forwarding n) : Prop :=
  ∃ i w', b.next w ⟨0, i, .proceed⟩ = some w'

theorem Bridge.moves_of_turn {w : Forwarding n}
    (h : (b.turn i (w.clock + 0) w.shared (w.phases i) .proceed).isSome = true) : b.Moves w := by
  obtain ⟨r, hr⟩ := Option.isSome_iff_exists.mp h
  exact ⟨i, _, Option.map_eq_some_iff.mpr ⟨r, hr, rfl⟩⟩

/-- While a block is being sent, the call that sends it can go on; a call that waited for a send
that is over can go on. -/
theorem Inv.moves_of_inFlight (hinv : Inv b w) {sender : Fin n}
    (h : w.phases i = .waiting sender ∨ w.phases i = .claimWaiting sender) : b.Moves w := by
  by_cases hsender : w.shared.forwards.inFlight.lookup (b.headerHash i) = some sender
  · obtain ⟨hclaims, -⟩ := (hinv.claimed _ sender).mp hsender
    exact b.moves_of_turn (b.turn_isSome sender _ _ (Phase.not_waits_of_claims hclaims)
      (Phase.ne_done_of_claims hclaims))
  · refine b.moves_of_turn (i := i) ?_
    rcases h with h | h <;> rw [h, Bridge.turn, if_neg hsender] <;> rfl

/-- A call that queues for a permit finds one, or another call holds it and can go on. -/
theorem Inv.moves_of_queued (hinv : Inv b w) (hpermits : 0 < b.permits (b.source i))
    (h : w.phases i = .queued) : b.Moves w := by
  by_cases havailable : w.shared.available (b.source i) = 0
  · have hsum := hinv.permitted (b.source i)
    rw [havailable, Nat.zero_add] at hsum
    have hne : ∑ j, b.held (b.source i) j (w.phases j) ≠ 0 := by omega
    obtain ⟨j, -, hj⟩ := Finset.exists_ne_zero_of_sum_ne_zero hne
    have hholds : (w.phases j).holdsPermit = true := by
      by_contra hnot
      exact hj (if_neg fun hboth => hnot hboth.2)
    exact b.moves_of_turn (b.turn_isSome j _ _ (Phase.not_waits_of_holdsPermit hholds)
      (Phase.ne_done_of_holdsPermit hholds))
  · refine b.moves_of_turn (i := i) ?_
    rw [h, Bridge.turn, if_neg havailable]
    rfl

/-- **The calls never all wait for each other.** -/
theorem Inv.moves (hinv : Inv b w) (hpermits : ∀ source, 0 < b.permits source)
    (h : ∀ result, w.phases i ≠ .done result) : b.Moves w := by
  by_cases hwaits : (w.phases i).Waits
  · cases hi : w.phases i with
    | waiting sender => exact hinv.moves_of_inFlight (Or.inl hi)
    | claimWaiting sender => exact hinv.moves_of_inFlight (Or.inr hi)
    | queued => exact hinv.moves_of_queued (hpermits _) hi
    | _ => rw [hi] at hwaits; exact hwaits.elim
  · exact b.moves_of_turn (b.turn_isSome i _ _ hwaits h)

/-! ## How a call ends -/

/-- The caller is still there. -/
def Phase.Attended (p : Phase n) : Prop :=
  p ≠ .done .cancelled ∧ ∀ job, p ≠ .preparing false job

theorem Turn.attended (h : Turn b i now s p act p' s') (hact : act ≠ .cancel)
    (hp : p.Attended) : p'.Attended := by
  cases h with
  | leave | abandon => exact absurd rfl hact
  | discard => exact absurd rfl (hp.2 _)
  | work | workFails =>
    refine ⟨nofun, fun job hjob => ?_⟩
    cases hjob
    exact hp.2 _ rfl
  | unsent hresult | unsentUnverified hresult =>
    rcases hresult with ⟨rfl, rfl⟩ | ⟨rfl, rfl⟩
    · exact ⟨nofun, nofun⟩
    · exact absurd rfl hact
  | _ => exact ⟨nofun, nofun⟩

theorem Bridge.attended_next (h : b.next w e = some w') (hact : e.call = i → e.act ≠ .cancel)
    (hi : (w.phases i).Attended) : (w'.phases i).Attended := by
  rcases phase_next h i with hsame | ⟨hcall, hturn⟩
  · rwa [hsame]
  · exact hturn.attended (hact hcall) hi

/-- A call that was not cancelled has sent its copy (the send may have failed), was deduplicated,
or failed on its own block. -/
def Bridge.Settled (b : Bridge n) (i : Fin n) : ForwardResult → Prop
  | .forwarded _ | .forwardedUnverified _ | .sendFailed | .deduplicated _ => True
  | .refused why => b.Refuses i why
  | .cancelled => False

theorem Inv.settled (hinv : Inv b w) {result : ForwardResult} (h : w.phases i = .done result)
    (hattended : (w.phases i).Attended) : b.Settled i result := by
  have hsound := hinv.sound i
  rw [h] at hsound hattended
  cases result with
  | refused why => exact hsound
  | cancelled => exact absurd rfl hattended.1
  | _ => exact trivial

end Steps

/-! ## Concurrent copies -/

/-- **The calls of the bridge, whatever the interleaving.** In every state that any interleaving of
any calls reaches, with any number of permits:

* of the calls with one header, at most one sends a validated copy;
* a call that was deduplicated found a validated copy on record within the window, or the same
  bytes sent without validation within the window (or other bytes with the same digest);
* a claim that ends without a commit leaves its block open;
* the calls cannot go on forever, and when none can go on every call is settled, if its caller was
  not cancelled; and
* as long as a call has not ended, some call can go on. -/
theorem concurrent_copies_settle (b : Bridge n) (hpermits : ∀ source, 0 < b.permits source)
    (w : Forwarding n) (h : b.Reachable w) :
    (∀ i j, b.header i = b.header j → (w.phases i).claims = true → (w.phases j).claims = true →
      i = j) ∧
    (∀ i time, w.phases i = .done (.deduplicated time) →
      ∃ since j, since ≤ time ∧ time ≤ since + b.dedupWindow ∧ b.headerHash j = b.headerHash i ∧
        (b.Validates j ∧ (w.phases j).CommittedAt since ∨
          w.phases j = .done (.forwardedUnverified since) ∧ (b.block j = b.block i ∨
            b.block j ≠ b.block i ∧ b.hashes.sha256 (b.block j) = b.hashes.sha256 (b.block i)))) ∧
    (∀ e w', b.next w e = some w' → w.phases e.call = .sending → e.act ≠ .proceed →
      w'.shared.forwards.state (b.headerHash e.call) w'.clock = .opened) ∧
    (∀ es w', exec b.next (fun _ _ => true) w es = some w' → es.length ≤ n * (34 * n + 16) ∧
      ((∀ e, b.next w' e = none) → ∀ i, ∃ result, w'.phases i = .done result ∧
        ((w.phases i).Attended → (∀ e ∈ es, e.call = i → e.act ≠ .cancel) →
          b.Settled i result))) ∧
    ((∃ i, ∀ result, w.phases i ≠ .done result) → b.Moves w) := by
  have hinv := h.inv
  refine ⟨?_, ?_, fun e w' => hinv.reopens, ?_, fun ⟨i, hi⟩ => hinv.moves hpermits hi⟩
  · intro i j hheader
    refine hinv.sends_alone ?_
    rw [Bridge.headerHash, hheader]
    rfl
  · intro i time hi
    obtain ⟨since, hle, hwindow, ⟨j, hhash, hj⟩ | ⟨j, hbody, hj⟩⟩ :=
      hinv.justified i time (Or.inl hi)
    · refine ⟨since, j, hle, hwindow, hhash, Or.inl ⟨?_, hj⟩⟩
      have hsound := hinv.sound j
      rcases hj with hj | hj <;> rw [hj] at hsound <;> exact hsound
    · obtain ⟨hhash, hdigest⟩ := UnverifiedBody.mk.inj hbody
      refine ⟨since, j, hle, hwindow, hhash, Or.inr ⟨hj, ?_⟩⟩
      by_cases hblock : b.block j = b.block i
      · exact Or.inl hblock
      · exact Or.inr ⟨hblock, hdigest⟩
  · intro es w' hrun
    refine ⟨h.length_le hrun, fun hstuck i => ?_⟩
    have hreach : b.Reachable w' := Reach.of_exec (fun _ _ _ => trivial) es h hrun
    by_cases hdone : ∃ result, w'.phases i = .done result
    · obtain ⟨result, hresult⟩ := hdone
      refine ⟨result, hresult, fun hattended hpresent => hreach.inv.settled hresult ?_⟩
      exact exec_invariant (I := fun w => (w.phases i).Attended) es
        (fun e he s s' hs hnext => b.attended_next hnext (hpresent e he) hs) hattended hrun
    · obtain ⟨j, w'', hmove⟩ := hreach.inv.moves (i := i) hpermits fun result hresult =>
        hdone ⟨result, hresult⟩
      rw [hstuck] at hmove
      cases hmove

theorem Bridge.reachable_of_exec (b : Bridge n) (es : List (Event n)) {test : Forwarding n → Bool}
    (h : (exec b.next (fun _ _ => true) b.start es).any test = true) :
    ∃ w, b.Reachable w ∧ test w = true := by
  refine Reach.any_of_exec b.start ?_ es h
  rfl

/-- Two peers deliver one block. -/
def twoCopies : Bridge 2 where
  hashes := ⟨fun _ _ => 0, fun _ _ _ => 0⟩
  reader := byteReader
  pow := fun _ => .valid
  peerPowLimit := none
  permits := fun _ => 1
  dedupCapacity := 16
  dedupWindow := 30
  forwardUnreadableBlocks := false
  unreadableBodiesPerHeader := 4
  source := fun _ => .p2p
  block := fun _ => List.replicate 1487 0 ++ [1, 0]

/-- The first is sending while the second waits. -/
def oneWaits : List (Event 2) :=
  [⟨0, 0, .proceed⟩, ⟨0, 1, .proceed⟩, ⟨0, 0, .proceed⟩, ⟨0, 0, .proceed⟩, ⟨0, 0, .proceed⟩,
    ⟨0, 0, .proceed⟩, ⟨0, 0, .proceed⟩, ⟨0, 0, .proceed⟩, ⟨0, 1, .proceed⟩]

theorem second_copy_waits : ∃ w, twoCopies.Reachable w ∧ w.phases 0 = .sending ∧
    w.phases 1 = .waiting 0 ∧ twoCopies.Moves w ∧
    ∀ es w', exec twoCopies.next (fun _ _ => true) w es = some w' → es.length ≤ 168 := by
  have hrun : (exec twoCopies.next (fun _ _ => true) twoCopies.start oneWaits).any
      (fun w => decide (w.phases 0 = .sending ∧ w.phases 1 = .waiting 0)) = true := by
    decide +kernel
  obtain ⟨w, hreach, hphases⟩ := twoCopies.reachable_of_exec oneWaits hrun
  obtain ⟨hsending, hwaiting⟩ := of_decide_eq_true hphases
  obtain ⟨-, -, -, hruns, hmoves⟩ :=
    concurrent_copies_settle twoCopies (fun _ => Nat.one_pos) w hreach
  refine ⟨w, hreach, hsending, hwaiting, hmoves ⟨1, fun result => ?_⟩, fun es w' hrun => ?_⟩
  · rw [hwaiting]
    nofun
  · exact (hruns es w' hrun).1

end MiningInfra.Ingress
