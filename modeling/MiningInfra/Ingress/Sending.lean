import MiningInfra.Ingress.Turns
import MiningInfra.Lib.Parties

/-!
# One call sends at a time

What holds of the bridge in every state that any interleaving of the calls reaches. Each part of
what the calls share has a lemma that says what a turn does to it, and an invariant that ties it to
the phases: the entry of a block being sent names the call that sends it, a permit is available or
held, and a block is on record because some call recorded it.
-/

namespace MiningInfra.Ingress

open Lib Coinbase Relay

variable {n : Nat} {b : Bridge n} {i : Fin n} {now : Nat} {s s' : Shared n} {p p' : Phase n}
  {act : Act}

/-! ## The preparation -/

section Preparation

variable (b i now s)

theorem Bridge.prepareUnreadable_leaves (error : BlockBodyError) :
    (b.prepareUnreadable i error s now).2.forwards = s.forwards ∧
      (b.prepareUnreadable i error s now).2.available = s.available := by
  unfold Bridge.prepareUnreadable
  split
  · dsimp only
    split <;> exact ⟨rfl, rfl⟩
  · exact ⟨rfl, rfl⟩

theorem Bridge.prepareForward_leaves (job : Job) :
    (b.prepareForward i s now job).2.forwards = s.forwards ∧
      (b.prepareForward i s now job).2.available = s.available := by
  unfold Bridge.prepareForward
  split
  · split <;> exact ⟨rfl, rfl⟩
  · split
    · exact b.prepareUnreadable_leaves i now s _
    · exact ⟨rfl, rfl⟩
  · split <;> exact ⟨rfl, rfl⟩
  · exact ⟨rfl, rfl⟩

theorem Bridge.prepareFails_leaves (job : Job) : (b.prepareFails i s job).2.forwards = s.forwards ∧
      (b.prepareFails i s job).2.available = s.available := by
  cases job <;> exact ⟨rfl, rfl⟩

theorem Bridge.discard_leaves (result : Prepared) : (b.discard i s result).forwards = s.forwards ∧
      (b.discard i s result).available = (s.give (b.source i)).available := by
  cases result <;> exact ⟨rfl, rfl⟩

end Preparation

/-! ## One claim for a header -/

namespace RecentForwardedHashes

variable {r : RecentForwardedHashes n} {hash : Bytes32}

theorem contains_eq_false :
    (r.recent.contains hash now).1 = false ↔ ∀ a ∈ (r.evict now).recent.entries, a.1 ≠ hash := by
  rw [Recent.contains, List.any_eq_false]
  simp only [decide_eq_true_eq]
  exact Iff.rfl

/-- An open block is neither on record nor being sent. -/
theorem state_eq_opened : r.state hash now = .opened ↔
    (∀ a ∈ (r.evict now).recent.entries, a.1 ≠ hash) ∧ r.inFlight.lookup hash = none := by
  rw [← contains_eq_false]
  unfold state
  split
  · rename_i hcontains
    simp [hcontains]
  · rename_i hcontains
    split
    · rename_i hlookup
      simp [hlookup]
    · rename_i hlookup
      simp [hcontains, hlookup]

end RecentForwardedHashes

variable {r : RecentForwardedHashes n} {hash : Bytes32} {w w' : Forwarding n} {e : Event n}
  {job : Job} {time since : Nat} {result : ForwardResult} {j : Fin n}

theorem RecentForwardedHashes.state_eq_inFlight {sender : Fin n}
    (h : r.state hash now = .inFlight sender) : r.inFlight.lookup hash = some sender := by
  unfold state at h
  split at h
  · cases h
  · split at h
    · rename_i hlookup
      rw [hlookup, ForwardState.inFlight.inj h]
    · cases h

/-- What a turn does to the blocks being sent. -/
theorem Turn.inFlight (h : Turn b i now s p act p' s') :
    (s'.forwards.inFlight = s.forwards.inFlight ∧ p'.claims = p.claims) ∨
      (s.forwards.inFlight.lookup (b.headerHash i) = none ∧
        s'.forwards.inFlight = s.forwards.inFlight.insert (b.headerHash i) i ∧
        p.claims = false ∧ p' = .sending) ∨
      (s'.forwards.inFlight = s.forwards.inFlight.erase (b.headerHash i) ∧ p.claims = true ∧
        ∃ result, p' = .done result) := by
  cases h with
  | work hjob =>
    rw [(b.prepareForward_leaves i now s _).1]
    exact Or.inl ⟨rfl, rfl⟩
  | workFails hjob =>
    rw [(b.prepareFails_leaves i s _).1]
    exact Or.inl ⟨rfl, rfl⟩
  | discard =>
    rw [(b.discard_leaves i s _).1]
    exact Or.inl ⟨rfl, rfl⟩
  | leave hwaits =>
    refine Or.inl ⟨rfl, ?_⟩
    cases p <;> first | rfl | cases hwaits
  | claim hready hstate =>
    refine Or.inr (Or.inl ⟨(RecentForwardedHashes.state_eq_opened.mp hstate).2, ?_, ?_, rfl⟩)
    · rw [Shared.forwards_settle]
      rfl
    · rcases hready with rfl | rfl <;> rfl
  | claimForwarded hready _ | claimInFlight hready _ =>
    rw [Shared.forwards_settle]
    refine Or.inl ⟨rfl, ?_⟩
    rcases hready with rfl | rfl <;> rfl
  | unsent | commit => exact Or.inr (Or.inr ⟨rfl, rfl, _, rfl⟩)
  | _ => exact Or.inl ⟨rfl, rfl⟩

/-- The entry of a block being sent names the one call that sends it. -/
def Claimed (b : Bridge n) (w : Forwarding n) : Prop :=
  ∀ (hash : Bytes32) (i : Fin n), w.shared.forwards.inFlight.lookup hash = some i ↔
    (w.phases i).claims = true ∧ b.headerHash i = hash

theorem claimed_start (b : Bridge n) : Claimed b b.start := by
  intro hash i
  constructor
  · intro h
    cases h
  · intro h
    cases h.1

theorem claimed_next (hclaimed : Claimed b w) (h : b.next w e = some w') : Claimed b w' := by
  obtain ⟨p, s, hturn, rfl⟩ := Bridge.turn_of_next h
  intro hash j
  dsimp only
  -- of another block the turn says nothing
  have hother : hash ≠ b.headerHash e.call →
      ((Function.update w.phases e.call p j).claims = true ∧ b.headerHash j = hash ↔
        (w.phases j).claims = true ∧ b.headerHash j = hash) := by
    intro hhash
    by_cases hj : j = e.call
    · subst hj
      simp [Ne.symm hhash]
    · rw [Function.update_of_ne hj]
  rcases hturn.inFlight with ⟨heq, hphase⟩ | ⟨hnone, heq, hidle, rfl⟩ | ⟨heq, hclaims, result, rfl⟩
  · rw [heq, hclaimed hash j]
    by_cases hj : j = e.call
    · subst hj
      rw [Function.update_self, hphase]
    · rw [Function.update_of_ne hj]
  · rw [heq, Table.lookup_insert_eq]
    by_cases hhash : hash = b.headerHash e.call
    · subst hhash
      rw [if_pos rfl]
      by_cases hj : j = e.call
      · simp [hj, Phase.claims]
      · -- no other call sends this block: its entry was empty
        rw [Function.update_of_ne hj, ← hclaimed, hnone]
        simp [Ne.symm hj]
    · rw [if_neg hhash, hother hhash, hclaimed hash j]
  · rw [heq, Table.lookup_erase_eq]
    have hself : w.shared.forwards.inFlight.lookup (b.headerHash e.call) = some e.call :=
      (hclaimed _ _).mpr ⟨hclaims, rfl⟩
    by_cases hhash : hash = b.headerHash e.call
    · subst hhash
      rw [if_pos rfl]
      by_cases hj : j = e.call
      · simp [hj, Phase.claims]
      · rw [Function.update_of_ne hj, ← hclaimed, hself]
        simp [Ne.symm hj]
    · rw [if_neg hhash, hother hhash, hclaimed hash j]

/-! ## Permits -/

/-- How many permits of a source the call holds. -/
def Bridge.held (b : Bridge n) (source : Source) (i : Fin n) (p : Phase n) : Nat :=
  if b.source i = source ∧ p.holdsPermit = true then 1 else 0

theorem Bridge.give_held (source : Source) (hp : p.holdsPermit = true)
    (hp' : p'.holdsPermit = false) :
    (s.give (b.source i)).available source + b.held source i p'
      = s.available source + b.held source i p := by
  unfold Shared.give Bridge.held
  by_cases hsource : b.source i = source
  · subst hsource
    simp [hp, hp']
  · simp [hsource, Ne.symm hsource]

theorem Bridge.settle_held (source : Source) (hp' : p'.holdsPermit = false) :
    (s.settle p (b.source i)).available source + b.held source i p'
      = s.available source + b.held source i p := by
  unfold Shared.settle
  split
  · rename_i hp
    exact b.give_held source hp hp'
  · rename_i hp
    simp [Bridge.held, hp, hp']

/-- A turn takes a permit where it begins to hold one, and gives it back where it ceases to. -/
theorem Turn.available (h : Turn b i now s p act p' s') (source : Source) :
    s'.available source + b.held source i p' = s.available source + b.held source i p := by
  cases h with
  | work hjob =>
    rw [(b.prepareForward_leaves i now s _).2]
    rfl
  | workFails hjob =>
    rw [(b.prepareFails_leaves i s _).2]
    rfl
  | discard =>
    rw [(b.discard_leaves i s _).2]
    exact b.give_held source rfl rfl
  | leave hwaits =>
    cases p <;> first | rfl | cases hwaits
  | grant havailable =>
    unfold Shared.acquire Bridge.held
    by_cases hsource : b.source i = source
    · subst hsource
      simp [Phase.holdsPermit]
      omega
    · simp [hsource, Ne.symm hsource]
  | again | resumeSent | resumeRefused | resumeUnverified => exact b.give_held source rfl rfl
  | claim | claimForwarded | claimInFlight => exact b.settle_held source rfl
  | _ => rfl

/-- Every permit is available or held. -/
def Permitted (b : Bridge n) (w : Forwarding n) : Prop :=
  ∀ source, w.shared.available source + ∑ i, b.held source i (w.phases i) = b.permits source

theorem permitted_start (b : Bridge n) : Permitted b b.start := by
  intro source
  simp [Bridge.start, Bridge.held, Phase.holdsPermit]

theorem permitted_next (hpermitted : Permitted b w) (h : b.next w e = some w') :
    Permitted b w' := by
  obtain ⟨p, s, hturn, rfl⟩ := Bridge.turn_of_next h
  intro source
  have hmoved := hturn.available source
  have hsum := sum_shares_update (b.held source) w.phases e.call p
  have hold := hpermitted source
  dsimp only
  omega

/-! ## What a call found in its own block -/

/-- A reason that lies in the block of the call. -/
def Bridge.Refuses (b : Bridge n) (i : Fin n) (why : Refusal) : Prop :=
  why = .relay ∨ ∃ error, why = .invalidBlockBody error ∧
    (b.checkHeader i = .error error ∨ parseBlockBody b.hashes b.reader (b.block i) = .error error)

def Bridge.Validates (b : Bridge n) (i : Fin n) : Prop :=
  ∃ parsed, parseBlockBody b.hashes b.reader (b.block i) = .ok parsed

/-- Only a validated copy gets to claim its header, and a call fails for what is wrong with its
own block. -/
def Bridge.Sound (b : Bridge n) (i : Fin n) : Phase n → Prop
  | .preparing _ (.finished .validated) | .reclaiming | .claimWaiting _ | .sending | .committing _
  | .recorded _ | .done (.forwarded _) => b.Validates i
  | .preparing _ (.finished (.refused why)) | .done (.refused why) => b.Refuses i why
  | _ => True

theorem Bridge.refuses_unreadable (b : Bridge n) (i : Fin n) : b.Refuses i (b.unreadable i) := by
  unfold unreadable
  split
  · rename_i error herror
    exact Or.inr ⟨error, rfl, Or.inr herror⟩
  · exact Or.inl rfl

theorem Bridge.sound_prepareUnreadable {error : BlockBodyError} (attended : Bool)
    (herror : parseBlockBody b.hashes b.reader (b.block i) = .error error) :
    b.Sound i (.preparing attended (b.prepareUnreadable i error s now).1) := by
  have hrefuses : b.Refuses i (.invalidBlockBody error) := Or.inr ⟨error, rfl, Or.inr herror⟩
  unfold prepareUnreadable
  split
  · dsimp only
    split
    · exact trivial
    · exact hrefuses
  · exact hrefuses

theorem Bridge.sound_prepareForward (attended : Bool) (hjob : ∀ result, job ≠ .finished result) :
    b.Sound i (.preparing attended (b.prepareForward i s now job).1) := by
  cases job with
  | checking =>
    rw [prepareForward]
    split <;> exact trivial
  | parsing =>
    rw [prepareForward]
    split
    · rename_i error herror
      exact b.sound_prepareUnreadable attended herror
    · rename_i parsed hparsed
      exact ⟨parsed, hparsed⟩
  | reserved =>
    rw [prepareForward]
    split
    · exact trivial
    · exact b.refuses_unreadable i
  | finished result => exact absurd rfl (hjob result)

theorem Bridge.Sound.ready (h : b.Sound i p) (hready : p.Ready) : b.Validates i := by
  rcases hready with rfl | rfl <;> exact h

theorem Turn.sound (h : Turn b i now s p act p' s') (hsound : b.Sound i p) : b.Sound i p' := by
  cases h with
  | refuse herror => exact Or.inr ⟨_, rfl, Or.inl herror⟩
  | work hjob => exact b.sound_prepareForward _ hjob
  | @workFails attended job hjob =>
    cases job <;> exact Or.inl rfl
  | @abandon job =>
    cases job with
    | finished result => cases result <;> exact hsound
    | _ => exact trivial
  | claim hready _ | claimInFlight hready _ => exact hsound.ready hready
  | resumeRefused | wakeClaim | sent | record | commit => exact hsound
  | unsent hresult | unsentUnverified hresult => rcases hresult with ⟨-, rfl⟩ | ⟨-, rfl⟩ <;> exact trivial
  | _ => exact trivial

/-! ## Commits -/

/-- The call put its block on record at this time. -/
def Phase.CommittedAt (p : Phase n) (time : Nat) : Prop :=
  p = .recorded time ∨ p = .done (.forwarded time)

/-- A call that has ended takes no turn. -/
theorem Turn.not_done (h : Turn b i now s (.done result) act p' s') : False := by
  cases h with
  | leave hwaits => cases hwaits
  | claim hready _ | claimForwarded hready _ | claimInFlight hready _ =>
    rcases hready with h | h <;> cases h

theorem Turn.committedAt (h : Turn b i now s p act p' s') (hp : p.CommittedAt time) :
    p'.CommittedAt time := by
  rcases hp with rfl | rfl
  · cases h with
    | leave hwaits => cases hwaits
    | commit => exact Or.inr rfl
    | claim hready _ | claimForwarded hready _ | claimInFlight hready _ =>
      rcases hready with h | h <;> cases h
  · exact h.not_done.elim

theorem Turn.of_committing (h : Turn b i now s (.committing since) act p' s') :
    p' = .recorded now := by
  cases h with
  | record => rfl
  | leave hwaits => cases hwaits
  | claim hready _ | claimForwarded hready _ | claimInFlight hready _ =>
    rcases hready with h | h <;> cases h

/-- What a turn does to the blocks on record. -/
theorem Turn.recent (h : Turn b i now s p act p' s') : s'.forwards.recent = s.forwards.recent ∨
      s'.forwards.recent = s.forwards.recent.evictExpired now ∨
      ∃ since, p = .committing since ∧ p' = .recorded now ∧
        s'.forwards = s.forwards.record (b.headerHash i) since := by
  cases h with
  | work hjob =>
    rw [(b.prepareForward_leaves i now s _).1]
    exact Or.inl rfl
  | workFails hjob =>
    rw [(b.prepareFails_leaves i s _).1]
    exact Or.inl rfl
  | discard =>
    rw [(b.discard_leaves i s _).1]
    exact Or.inl rfl
  | claim | claimForwarded | claimInFlight =>
    rw [Shared.forwards_settle]
    exact Or.inr (Or.inl rfl)
  | lookOpen | lookForwarded | lookInFlight | prepare | again => exact Or.inr (Or.inl rfl)
  | record => exact Or.inr (Or.inr ⟨_, rfl, rfl, rfl⟩)
  | _ => exact Or.inl rfl

/-- A block comes on record only by the commit of its own claim. -/
theorem Turn.mem_entries {a : Bytes32 × Nat} (h : Turn b i now s p act p' s')
    (ha : a ∈ s'.forwards.recent.entries) :
    a ∈ s.forwards.recent.entries ∨ a.1 = b.headerHash i ∧ ∃ since, p = .committing since := by
  rcases h.recent with hsame | hevict | ⟨since, hp, -, hadd⟩
  · rw [hsame] at ha
    exact Or.inl ha
  · rw [hevict] at ha
    exact Or.inl (Recent.mem_of_mem_evictExpired ha)
  · rw [hadd, RecentForwardedHashes.record] at ha
    split at ha
    · exact Or.inl (Recent.mem_of_mem_evictExpired ha)
    · rcases Recent.mem_record ha with rfl | ha
      · exact Or.inr ⟨rfl, since, hp⟩
      · exact Or.inl ha

theorem Bridge.committedAt_next {time : Nat} (h : b.next w e = some w')
    (hj : (w.phases j).CommittedAt time) : (w'.phases j).CommittedAt time := by
  rcases phase_next h j with hsame | ⟨-, hturn⟩
  · rwa [hsame]
  · exact hturn.committedAt hj

theorem Bridge.done_next (h : b.next w e = some w') (hj : w.phases j = .done result) :
    w'.phases j = .done result := by
  rcases phase_next h j with hsame | ⟨-, hturn⟩
  · rwa [hsame]
  · rw [hj] at hturn
    exact hturn.not_done.elim

/-- Some call put the block on record at this time. -/
def RecordedAt (b : Bridge n) (w : Forwarding n) (hash : Bytes32) (time : Nat) : Prop :=
  ∃ j, b.headerHash j = hash ∧ (w.phases j).CommittedAt time

/-- What is on record was put there by a call, and a call that is about to put its block on record
has read the clock. -/
structure OnRecord (b : Bridge n) (w : Forwarding n) : Prop where
  window : w.shared.forwards.recent.window = b.dedupWindow
  stamped : w.shared.forwards.recent.Stamped (RecordedAt b w) w.clock
  read : ∀ i since, w.phases i = .committing since → since ≤ w.clock

theorem onRecord_start (b : Bridge n) : OnRecord b b.start :=
  ⟨rfl, Recent.stamped_new _ _ _, fun _ _ h => by cases h⟩

/-- A turn in which a call begins to commit reads the clock. -/
theorem Turn.committing (h : Turn b i now s p act (.committing since) s') : since = now := by
  cases h
  rfl

theorem onRecord_next (hrecord : OnRecord b w) (h : b.next w e = some w') : OnRecord b w' := by
  have hkept : ∀ hash time, RecordedAt b w hash time → RecordedAt b w' hash time := by
    rintro hash time ⟨j, hhash, hj⟩
    exact ⟨j, hhash, b.committedAt_next h hj⟩
  have hread : ∀ i since, w'.phases i = .committing since → since ≤ w.clock + e.wait := by
    intro i since hi
    rcases Bridge.phase_next h i with hsame | ⟨-, hturn⟩
    · exact Nat.le_trans (hrecord.read i since (hsame ▸ hi)) (Nat.le_add_right _ _)
    · rw [hi] at hturn
      exact Nat.le_of_eq hturn.committing
  obtain ⟨p, s, hturn, rfl⟩ := Bridge.turn_of_next h
  have hold := hrecord.stamped.mono hkept (Nat.le_add_right w.clock e.wait)
  rcases hturn.recent with hsame | hevict | ⟨since, hp, rfl, hadd⟩
  · exact ⟨by rw [hsame]; exact hrecord.window, by dsimp only; rwa [hsame], hread⟩
  · refine ⟨by rw [hevict]; exact hrecord.window, ?_, hread⟩
    rw [hevict]
    exact hold.evictExpired _
  · have hsince : since ≤ w.clock + e.wait :=
      Nat.le_trans (hrecord.read e.call since hp) (Nat.le_add_right _ _)
    have hself : RecordedAt b ⟨w.clock + e.wait, s, Function.update w.phases e.call
        (.recorded (w.clock + e.wait))⟩ (b.headerHash e.call) (w.clock + e.wait) :=
      ⟨e.call, rfl, Or.inl (Function.update_self _ _ _)⟩
    refine ⟨?_, ?_, hread⟩
    · dsimp only
      rw [hadd, RecentForwardedHashes.record]
      split <;> exact hrecord.window
    · dsimp only
      rw [hadd, RecentForwardedHashes.record]
      split
      · exact hold.evictExpired _
      · exact hold.record hsince hself

/-! ## Bodies sent without validation -/

namespace UnverifiedForwards

variable {f : UnverifiedForwards} {body : UnverifiedBody}

theorem mem_commitEntries {entries : List UnverifiedEntry} {e : UnverifiedEntry}
    (h : e ∈ commitEntries body now entries) : e ∈ entries ∨ e = ⟨body, now, true⟩ := by
  induction entries with
  | nil => cases h
  | cons a entries ih =>
    rw [commitEntries] at h
    split at h
    · rename_i hbody
      rcases List.mem_cons.mp h with rfl | h
      · rw [← hbody]
        exact Or.inr rfl
      · exact Or.inl (List.mem_cons_of_mem _ h)
    · rcases List.mem_cons.mp h with rfl | h
      · exact Or.inl List.mem_cons_self
      · rcases ih h with h | h
        · exact Or.inl (List.mem_cons_of_mem _ h)
        · exact Or.inr h

theorem sent_reserve {e : UnverifiedEntry} (h : e ∈ (f.reserve body now).2.entries)
    (hsent : e.sent = true) : e ∈ f.entries := by
  have hfresh : ∀ e ∈ (f.retainFresh now).entries, e ∈ f.entries :=
    fun e h => (List.mem_filter.mp h).1
  unfold reserve at h
  dsimp only at h
  split at h
  · exact hfresh e h
  · split at h
    · exact hfresh e h
    · split at h
      · exact hfresh e h
      · rcases List.mem_append.mp h with h | h
        · exact hfresh e h
        · rw [List.mem_singleton.mp h] at hsent
          cases hsent

theorem window_reserve : (f.reserve body now).2.window = f.window := by
  unfold reserve
  dsimp only
  split
  · rfl
  · split
    · rfl
    · split <;> rfl

theorem sent_eq_true (h : f.sent body now = true) :
    ∃ e ∈ f.entries, e.body = body ∧ e.sent = true ∧ now - e.since ≤ f.window := by
  obtain ⟨e, he, hall⟩ := List.any_eq_true.mp h
  rw [Bool.and_eq_true, Bool.and_eq_true, decide_eq_true_eq, decide_eq_true_eq] at hall
  exact ⟨e, he, hall.1.1, hall.1.2, hall.2⟩

end UnverifiedForwards

/-- No entry of `f'` is marked as sent that was not so in `f`. -/
def MarksNone (f f' : UnverifiedForwards) : Prop :=
  f'.window = f.window ∧ ∀ e ∈ f'.entries, e.sent = true → e ∈ f.entries

theorem MarksNone.rfl {f : UnverifiedForwards} : MarksNone f f := ⟨Eq.refl _, fun _ h _ => h⟩

theorem marksNone_release (f : UnverifiedForwards) (body : UnverifiedBody) :
    MarksNone f (f.release body) := ⟨rfl, fun _ h _ => (List.mem_filter.mp h).1⟩

theorem Bridge.marksNone_prepareForward (job : Job) :
    MarksNone s.unverified (b.prepareForward i s now job).2.unverified := by
  unfold prepareForward
  split
  · split <;> exact .rfl
  · split
    · rename_i error _
      unfold prepareUnreadable
      have hreserve : MarksNone s.unverified (s.unverified.reserve (b.body i) now).2 :=
        ⟨UnverifiedForwards.window_reserve, fun _ h => UnverifiedForwards.sent_reserve h⟩
      split
      · dsimp only
        split <;> exact hreserve
      · exact .rfl
    · exact .rfl
  · split
    · exact .rfl
    · exact marksNone_release _ _
  · exact .rfl

/-- A turn marks no body as sent but its own, when that went out. -/
theorem Turn.unverified (h : Turn b i now s p act p' s') : MarksNone s.unverified s'.unverified ∨
      (s'.unverified = s.unverified.commit (b.body i) now ∧
        p' = .done (.forwardedUnverified now)) := by
  cases h with
  | work hjob => exact Or.inl (b.marksNone_prepareForward _)
  | @workFails attended job hjob =>
    cases job with
    | reserved => exact Or.inl (marksNone_release _ _)
    | _ => exact Or.inl .rfl
  | @discard result =>
    cases result with
    | unverified => exact Or.inl (marksNone_release _ _)
    | _ => exact Or.inl .rfl
  | claim | claimForwarded | claimInFlight =>
    rw [Shared.unverified_settle]
    exact Or.inl .rfl
  | unsentUnverified => exact Or.inl (marksNone_release _ _)
  | sentUnverified => exact Or.inr ⟨rfl, rfl⟩
  | _ => exact Or.inl .rfl

/-- Some call sent the body without validation, and was through with that at this time. -/
def SentUnverifiedAt (b : Bridge n) (w : Forwarding n) (body : UnverifiedBody) (time : Nat) : Prop :=
  ∃ j, b.body j = body ∧ w.phases j = .done (.forwardedUnverified time)

/-- What is marked as sent was sent by a call. -/
structure Marked (b : Bridge n) (w : Forwarding n) : Prop where
  window : w.shared.unverified.window = b.dedupWindow
  sent : ∀ e ∈ w.shared.unverified.entries, e.sent = true →
    e.since ≤ w.clock ∧ SentUnverifiedAt b w e.body e.since

theorem marked_start (b : Bridge n) : Marked b b.start := ⟨rfl, fun _ h => by cases h⟩

theorem marked_next (hmarked : Marked b w) (h : b.next w e = some w') : Marked b w' := by
  have hkept : ∀ body time, SentUnverifiedAt b w body time → SentUnverifiedAt b w' body time := by
    rintro body time ⟨j, hbody, hj⟩
    exact ⟨j, hbody, b.done_next h hj⟩
  obtain ⟨p, s, hturn, rfl⟩ := Bridge.turn_of_next h
  have hold : ∀ a ∈ w.shared.unverified.entries, a.sent = true → a.since ≤ w.clock + e.wait ∧
      SentUnverifiedAt b ⟨w.clock + e.wait, s, Function.update w.phases e.call p⟩ a.body a.since := by
    intro a ha hsent
    obtain ⟨hsince, hby⟩ := hmarked.sent a ha hsent
    exact ⟨Nat.le_trans hsince (Nat.le_add_right _ _), hkept _ _ hby⟩
  rcases hturn.unverified with ⟨hwindow, hnone⟩ | ⟨hcommit, rfl⟩
  · exact ⟨hwindow.trans hmarked.window, fun a ha hsent => hold a (hnone a ha hsent) hsent⟩
  · refine ⟨by dsimp only; rw [hcommit]; exact hmarked.window, fun a ha hsent => ?_⟩
    rw [hcommit] at ha
    rcases UnverifiedForwards.mem_commitEntries ha with ha | rfl
    · exact hold a ha hsent
    · exact ⟨Nat.le_refl _, e.call, rfl, Function.update_self _ _ _⟩

/-! ## Deduplicated calls -/

/-- The call found its block to be forwarded already, at this time. -/
def Phase.DeduplicatedAt (p : Phase n) (time : Nat) : Prop :=
  p = .done (.deduplicated time) ∨ ∃ attended, p = .preparing attended (.finished (.previouslySent time))

theorem RecentForwardedHashes.state_eq_forwarded (h : r.state hash now = .forwarded) :
    (r.recent.contains hash now).1 = true := by
  unfold state at h
  split at h
  · assumption
  · split at h <;> cases h

theorem Bridge.prepareForward_previouslySent (hjob : ∀ result, job ≠ .finished result)
    (h : (b.prepareForward i s now job).1 = .finished (.previouslySent time)) :
    time = now ∧ s.unverified.sent (b.body i) now = true := by
  cases job with
  | checking =>
    rw [prepareForward] at h
    split at h
    · rename_i hsent
      cases h
      exact ⟨rfl, (Bool.and_eq_true_iff.mp hsent).2⟩
    · cases h
  | parsing =>
    rw [prepareForward] at h
    split at h
    · unfold prepareUnreadable at h
      split at h
      · dsimp only at h
        split at h <;> cases h
      · cases h
    · cases h
  | reserved =>
    rw [prepareForward] at h
    split at h <;> cases h
  | finished result => exact absurd rfl (hjob result)

/-- A call is deduplicated because its block is on record or its body was sent. -/
theorem Turn.deduplicatedAt (h : Turn b i now s p act p' s') (hp' : p'.DeduplicatedAt time) :
    p.DeduplicatedAt time ∨ (time = now ∧
      ((s.forwards.recent.contains (b.headerHash i) now).1 = true ∨
        s.unverified.sent (b.body i) now = true)) := by
  cases h with
  | lookForwarded hstate | claimForwarded _ hstate =>
    rcases hp' with hp' | ⟨_, hp'⟩
    · cases hp'
      exact Or.inr ⟨rfl, Or.inl (RecentForwardedHashes.state_eq_forwarded hstate)⟩
    · cases hp'
  | work hjob =>
    rcases hp' with hp' | ⟨_, hp'⟩
    · cases hp'
    · obtain ⟨htime, hsent⟩ := b.prepareForward_previouslySent hjob (Phase.preparing.inj hp').2
      exact Or.inr ⟨htime, Or.inr hsent⟩
  | @workFails attended job hjob =>
    rcases hp' with hp' | ⟨_, hp'⟩
    · cases hp'
    · cases job <;> cases hp'
  | abandon =>
    rcases hp' with hp' | ⟨_, hp'⟩
    · cases hp'
    · cases hp'
      exact Or.inl (Or.inr ⟨_, rfl⟩)
  | resumeSent =>
    rcases hp' with hp' | ⟨_, hp'⟩
    · cases hp'
      exact Or.inl (Or.inr ⟨_, rfl⟩)
    · cases hp'
  | unsent hresult | unsentUnverified hresult =>
    rcases hp' with hp' | ⟨_, hp'⟩
    · rcases hresult with ⟨-, rfl⟩ | ⟨-, rfl⟩ <;> cases hp'
    · cases hp'
  | _ => rcases hp' with hp' | ⟨_, hp'⟩ <;> cases hp'

/-- What justifies that a call was deduplicated at a time: a validated copy of the block was put on
record within the window, or this very body was sent without validation within the window. -/
def Justified (b : Bridge n) (w : Forwarding n) (i : Fin n) (time : Nat) : Prop :=
  ∃ since, since ≤ time ∧ time ≤ since + b.dedupWindow ∧
    (RecordedAt b w (b.headerHash i) since ∨ SentUnverifiedAt b w (b.body i) since)

/-- The call sends, or has sent, and its block is not on record yet. -/
def Phase.Unrecorded (p : Phase n) : Prop := p = .sending ∨ ∃ since, p = .committing since

theorem Phase.Unrecorded.claims {p : Phase n} (h : p.Unrecorded) : p.claims = true := by
  rcases h with rfl | ⟨since, rfl⟩ <;> rfl

/-- What holds in every state reached. -/
structure Inv (b : Bridge n) (w : Forwarding n) : Prop where
  claimed : Claimed b w
  permitted : Permitted b w
  sound : ∀ i, b.Sound i (w.phases i)
  onRecord : OnRecord b w
  marked : Marked b w
  justified : ∀ i time, (w.phases i).DeduplicatedAt time → Justified b w i time
  unrecorded : ∀ i, (w.phases i).Unrecorded →
    ∀ a ∈ w.shared.forwards.recent.entries, a.1 ≠ b.headerHash i

theorem inv_start (b : Bridge n) : Inv b b.start where
  claimed := claimed_start b
  permitted := permitted_start b
  sound := fun _ => trivial
  onRecord := onRecord_start b
  marked := marked_start b
  justified := by
    rintro i time (h | ⟨_, h⟩) <;> cases h
  unrecorded := by
    rintro i (h | ⟨_, h⟩) <;> cases h

theorem justified_next {i : Fin n} {time : Nat} (h : b.next w e = some w')
    (hjust : Justified b w i time) : Justified b w' i time := by
  obtain ⟨since, hle, hwindow, ⟨j, hj, hphase⟩ | ⟨j, hj, hphase⟩⟩ := hjust
  · exact ⟨since, hle, hwindow, Or.inl ⟨j, hj, b.committedAt_next h hphase⟩⟩
  · exact ⟨since, hle, hwindow, Or.inr ⟨j, hj, b.done_next h hphase⟩⟩

/-- What the call saw under the lock is what justifies it. -/
theorem Inv.justifies (hinv : Inv b w) (hlater : w.clock ≤ now)
    (h : (w.shared.forwards.recent.contains (b.headerHash i) now).1 = true ∨
      w.shared.unverified.sent (b.body i) now = true) : Justified b w i now := by
  rcases h with h | h
  · obtain ⟨since, hby, hle, hwindow⟩ :=
      (hinv.onRecord.stamped.mono (fun _ _ h => h) hlater).contains_true h
    rw [hinv.onRecord.window] at hwindow
    exact ⟨since, hle, hwindow, Or.inl hby⟩
  · obtain ⟨a, ha, hbody, hsent, hwindow⟩ := UnverifiedForwards.sent_eq_true h
    obtain ⟨hsince, hby⟩ := hinv.marked.sent a ha hsent
    rw [hbody] at hby
    rw [hinv.marked.window] at hwindow
    exact ⟨a.since, by omega, by omega, Or.inr hby⟩

/-- At most one call sends a validated copy of a block. -/
theorem Inv.sends_alone (hinv : Inv b w) {i j : Fin n} (hhash : b.headerHash i = b.headerHash j)
    (hi : (w.phases i).claims = true) (hj : (w.phases j).claims = true) : i = j := by
  have hi : w.shared.forwards.inFlight.lookup (b.headerHash j) = some i :=
    (hinv.claimed _ i).mpr ⟨hi, hhash⟩
  have hj : w.shared.forwards.inFlight.lookup (b.headerHash j) = some j :=
    (hinv.claimed _ j).mpr ⟨hj, rfl⟩
  exact Option.some.inj (hi.symm.trans hj)

/-- A call that has just claimed its block found it off the record. -/
theorem Turn.unrecorded (h : Turn b i now s p act p' s') (hp' : p'.Unrecorded) :
    p.Unrecorded ∨ ∀ a ∈ s'.forwards.recent.entries, a.1 ≠ b.headerHash i := by
  cases h with
  | claim _ hstate =>
    right
    rw [Shared.forwards_settle]
    exact (RecentForwardedHashes.state_eq_opened.mp hstate).1
  | sent => exact Or.inl (Or.inl rfl)
  | _ => rcases hp' with hp' | ⟨_, hp'⟩ <;> cases hp'

theorem unrecorded_next (hinv : Inv b w) (h : b.next w e = some w') (i : Fin n)
    (hi : (w'.phases i).Unrecorded) :
    ∀ a ∈ w'.shared.forwards.recent.entries, a.1 ≠ b.headerHash i := by
  obtain ⟨p, s, hturn, rfl⟩ := Bridge.turn_of_next h
  dsimp only at hi ⊢
  intro a ha hhash
  by_cases hcall : i = e.call
  · subst hcall
    rw [Function.update_self] at hi
    rcases hturn.unrecorded hi with hold | hnew
    · rcases hturn.mem_entries ha with ha | ⟨-, since, hp⟩
      · exact hinv.unrecorded e.call hold a ha hhash
      · -- the turn that puts the block on record leaves the phase
        rw [hp] at hturn
        rw [hturn.of_committing] at hi
        rcases hi with hi | ⟨_, hi⟩ <;> cases hi
    · exact hnew a ha hhash
  · rw [Function.update_of_ne hcall] at hi
    rcases hturn.mem_entries ha with ha | ⟨hself, since, hp⟩
    · exact hinv.unrecorded i hi a ha hhash
    · -- two calls would have claimed one block
      refine hcall (hinv.sends_alone (hhash.symm.trans hself) hi.claims ?_)
      rw [hp]
      rfl

theorem inv_next (hinv : Inv b w) (h : b.next w e = some w') : Inv b w' := by
  refine ⟨claimed_next hinv.claimed h, permitted_next hinv.permitted h, ?_,
    onRecord_next hinv.onRecord h, marked_next hinv.marked h, ?_, unrecorded_next hinv h⟩
  · intro i
    rcases Bridge.phase_next h i with hsame | ⟨-, hturn⟩
    · rw [hsame]
      exact hinv.sound i
    · exact hturn.sound (hinv.sound i)
  · intro i time hi
    rcases Bridge.phase_next h i with hsame | ⟨-, hturn⟩
    · exact justified_next h (hinv.justified i time (hsame ▸ hi))
    · rcases hturn.deduplicatedAt hi with hi | ⟨rfl, hseen⟩
      · exact justified_next h (hinv.justified i time hi)
      · exact justified_next h (hinv.justifies (Nat.le_add_right _ _) hseen)

theorem Bridge.Reachable.inv (h : b.Reachable w) : Inv b w := by
  refine Reach.invariant ?_ (fun _ _ _ hinv _ hnext => inv_next hinv hnext) h
  rintro _ rfl
  exact inv_start b

/-- **A claim that ends without a commit reopens its block.** -/
theorem Inv.reopens (hinv : Inv b w) (h : b.next w e = some w') (hsending : w.phases e.call = .sending)
    (hact : e.act ≠ .proceed) :
    w'.shared.forwards.state (b.headerHash e.call) w'.clock = .opened := by
  obtain ⟨p, s, hturn, rfl⟩ := Bridge.turn_of_next h
  have habsent := hinv.unrecorded e.call (Or.inl hsending)
  rw [hsending] at hturn
  generalize e.act = act at hturn hact
  refine RecentForwardedHashes.state_eq_opened.mpr ?_
  cases hturn with
  | sent => exact absurd rfl hact
  | leave hwaits => cases hwaits
  | unsent =>
    refine ⟨fun a ha => habsent a (Recent.mem_of_mem_evictExpired ha), ?_⟩
    exact AList.lookup_erase _ _
  | claim hready _ | claimForwarded hready _ | claimInFlight hready _ =>
    rcases hready with h | h <;> cases h

end MiningInfra.Ingress
