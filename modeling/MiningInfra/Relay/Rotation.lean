import MiningInfra.Relay.Forward

/-!
# Changes of keys while packets are handled

The set of active keys and the sessions are behind different locks. A packet is handled under the
lock of the sessions, and the active keys are read at some point in between; a change of keys swaps
the set without that lock and then waits for it to evict. So the set can be swapped after a packet
has read it and before the packet puts its session into the table, and several changes can overlap.

What keeps this in order: whoever swapped last has not evicted yet, or there is nothing left for it
to evict. A packet that read an older set holds the lock the last eviction is waiting for.
-/

namespace MiningInfra.Relay

open Lib Coinbase

/-! ## The two locks -/

/-- A packet that is being handled under the lock of the sessions. -/
structure Handling where
  data : List UInt8
  src : SocketAddr
  allowed : Bool
  /-- What `active_keys` returned, once it was called. -/
  keys : Option (List AuthKey)

structure Locked where
  world : World
  /-- The packet whose handler has the lock of the sessions. -/
  handling : Option Handling

inductive LockEvent where
  /-- The handler of a packet gets the lock. -/
  | lock (data : List UInt8) (src : SocketAddr) (allowed : Bool)
  /-- It reads the active keys. -/
  | readKeys
  /-- It does the rest, and gives up the lock. -/
  | finish
  /-- A step without packets. -/
  | other (e : Event)

namespace Locked

/-- The packet sees the set that was read, whatever the set is by now. -/
def finishPacket (p : Primitives) (w : World) (keys : List AuthKey) (data : List UInt8)
    (src : SocketAddr) (allowed : Bool) : World :=
  match { w with activeKeys := keys }.handlePacket p data src allowed with
  | .ok w' => { w' with activeKeys := w.activeKeys }
  | .error _ => w

def next (p : Primitives) (s : Locked) : LockEvent → Option Locked
  | .lock data src allowed =>
    if s.handling.isNone ∧ s.world.outgoing.isEmpty then
      some { s with handling := some ⟨data, src, allowed, none⟩ }
    else none
  | .readKeys =>
    match s.handling with
    | some ⟨data, src, allowed, none⟩ =>
      some { s with handling := some ⟨data, src, allowed, some s.world.activeKeys⟩ }
    | _ => none
  | .finish =>
    match s.handling with
    | some ⟨data, src, allowed, some keys⟩ =>
      some ⟨finishPacket p s.world keys data src allowed, none⟩
    | _ => none
  | .other (.packet _ _ _) => none
  -- time passes and sets are swapped whoever has the lock of the sessions
  | .other (.elapse duration) =>
    (s.world.next p (.elapse duration)).map fun w => { s with world := w }
  | .other (.swapKeys id keys) =>
    (s.world.next p (.swapKeys id keys)).map fun w => { s with world := w }
  | .other e =>
    if s.handling.isNone then (s.world.next p e).map fun w => { s with world := w } else none

def Start (p : Primitives) (config : RelayConfig) (s : Locked) : Prop :=
  s.handling = none ∧ World.Start p config s.world

end Locked

/-- A change of keys begins. -/
def LockEvent.Swaps : LockEvent → Prop
  | .other (.swapKeys _ _) => True
  | _ => False

/-! ## Sessions and keys -/

/-- The session is bound to a key of the set, unless it is not bound to a key at all. -/
def Authorized (keys : List AuthKey) (session : RelaySession) : Prop :=
  session.authenticated = true → ∃ key ∈ keys, session.matchesAuthorization key = true

variable {session : RelaySession}

theorem RelaySession.matchesAuthorization_iff {key : AuthKey} :
    session.matchesAuthorization key = true ↔ session.binding = key := by
  obtain ⟨id, secret, role⟩ := key
  simp only [matchesAuthorization, binding, decide_eq_true_eq, AuthKey.mk.injEq]
  exact ⟨fun ⟨h₁, h₂, h₃⟩ => ⟨h₁, h₃, h₂⟩, fun ⟨h₁, h₂, h₃⟩ => ⟨h₁, h₃, h₂⟩⟩

theorem Authorized.of_same {keys : List AuthKey} {s s' : RelaySession} (h : Authorized keys s)
    (hsame : SameSession s s') : Authorized keys s' := by
  intro hauth
  obtain ⟨key, hkey, hmatch⟩ := h (hsame.authenticated ▸ hauth)
  rw [RelaySession.matchesAuthorization_iff] at hmatch
  exact ⟨key, hkey, RelaySession.matchesAuthorization_iff.mpr (hsame.binding.trans hmatch)⟩

variable {p : Primitives} {config : RelayConfig} {src : SocketAddr}

/-- What a packet does to the sessions: only the one of its source changes, and that is bound as
it was before, or new under a key of the set. -/
theorem World.Handled.authorized {w w' : World} (h : World.Handled p w src w')
    (hw : ∀ a session, w.sessions.lookup a = some session → Authorized w.activeKeys session) :
    ∀ a session, w'.sessions.lookup a = some session → Authorized w.activeKeys session := by
  have greeted : ∀ {verify : Bytes32 → Bool} {w₁ : World} {session : RelaySession},
      World.Authenticated w src verify w₁ session →
      w₁.sessions = w.sessions ∧ Authorized w.activeKeys session := by
    intro verify w₁ session hknown
    cases hknown with
    | known hlookup => exact ⟨rfl, (hw src _ hlookup).of_same ⟨rfl, rfl⟩⟩
    | unkeyed => exact ⟨rfl, fun hauth => absurd hauth (by simp [RelaySession.newUnauthenticated])⟩
    | keyed _ _ hkey =>
      exact ⟨rfl, fun _ => ⟨_, hkey, RelaySession.matchesAuthorization_iff.mpr rfl⟩⟩
  have inserted : ∀ {w₁ : World} {session : RelaySession}, w₁.sessions = w.sessions →
      Authorized w.activeKeys session → ∀ a session',
      (w₁.sessions.insert src session).lookup a = some session' →
      Authorized w.activeKeys session' := by
    intro w₁ session hsessions hsession a session' hlookup
    rcases Table.of_lookup_insert hlookup with ⟨-, rfl⟩ | hlookup
    · exact hsession
    · exact hw a session' (hsessions ▸ hlookup)
  cases h with
  | kept hknown =>
    obtain ⟨hsessions, hsession⟩ := greeted hknown
    exact inserted hsessions hsession
  | @delivered chunk isData w₁ session hknown =>
    obtain ⟨hsessions, hsession⟩ := greeted hknown
    exact inserted hsessions (hsession.of_same (processChunkForSession_session _ _ _ isData))

theorem World.Handled.rotations {w w' : World} (h : World.Handled p w src w') :
    w'.rotations = w.rotations := by
  cases h with
  | kept hknown | delivered isData hknown => cases hknown <;> rfl

namespace Locked

theorem finishPacket_spec (p : Primitives) (w : World) (keys : List AuthKey) (data : List UInt8)
    (src : SocketAddr) (allowed : Bool) :
    (finishPacket p w keys data src allowed).rotations = w.rotations ∧
    (finishPacket p w keys data src allowed).activeKeys = w.activeKeys ∧
    (keys = w.activeKeys →
      (∀ a session, w.sessions.lookup a = some session → Authorized w.activeKeys session) →
      ∀ a session, (finishPacket p w keys data src allowed).sessions.lookup a = some session →
        Authorized w.activeKeys session) := by
  unfold finishPacket
  split
  · rename_i w' hok
    have hhandled := World.Handled.of_ok hok
    refine ⟨hhandled.rotations, rfl, fun hkeys hw => ?_⟩
    subst hkeys
    exact hhandled.authorized hw
  · exact ⟨rfl, rfl, fun _ hw => hw⟩

/-! ## The invariant -/

/-- Nothing is left to evict: every session is bound to an active key, and so will be the one a
packet in hand is making. -/
structure Settled (s : Locked) : Prop where
  sessions : ∀ a session, s.world.sessions.lookup a = some session →
    Authorized s.world.activeKeys session
  keys : ∀ h, s.handling = some h → ∀ keys, h.keys = some keys → keys = s.world.activeKeys

/-- The active set is still to be evicted by, or nothing is left to evict. -/
def RotationInv (s : Locked) : Prop :=
  (∃ id, s.world.rotations.lookup id = some s.world.activeKeys) ∨ Settled s

variable {s s' : Locked} {w : World} {e : Event}

theorem Settled.of_sessions (h : Settled s) (hkeys : s'.world.activeKeys = s.world.activeKeys)
    (hhandling : s'.handling = s.handling)
    (hsessions : ∀ a session', s'.world.sessions.lookup a = some session' →
      ∃ session, s.world.sessions.lookup a = some session ∧ SameSession session session') :
    Settled s' := by
  refine ⟨fun a session' hlookup => ?_, ?_⟩
  · obtain ⟨session, hlookup₀, hsame⟩ := hsessions a session' hlookup
    rw [hkeys]
    exact (h.sessions a session hlookup₀).of_same hsame
  · rw [hkeys, hhandling]
    exact h.keys

/-- An eviction leaves what is bound to a key of its set. -/
theorem authorized_evictSessionsNotIn {keys : List AuthKey} {a : SocketAddr}
    (h : (w.evictSessionsNotIn keys).sessions.lookup a = some session) :
    w.sessions.lookup a = some session ∧ Authorized keys session := by
  obtain ⟨hlookup, hkept⟩ := Table.of_lookup_retain h
  refine ⟨hlookup, fun hauth => ?_⟩
  rw [hauth, Bool.not_true, Bool.false_or] at hkept
  obtain ⟨key, hfind, hmatch⟩ := (Option.any_eq_true _ _).mp hkept
  exact ⟨key, List.mem_reverse.mp (List.mem_of_find?_eq_some hfind), hmatch⟩

/-- The steps of the node that do not wait for the lock of the sessions. -/
def Lockless : Event → Prop
  | .elapse _ | .swapKeys _ _ => True
  | _ => False

/-- A step of the node that is not a packet. -/
theorem of_other (hnext : s.next p (.other e) = some s') :
    (∀ data src allowed, e ≠ .packet data src allowed) ∧ (s.handling = none ∨ Lockless e) ∧
      ∃ w, s.world.next p e = some w ∧ s' = { s with world := w } := by
  have waits : (if s.handling.isNone then (s.world.next p e).map fun w => { s with world := w }
      else none) = some s' → (s.handling = none ∨ Lockless e) ∧
      ∃ w, s.world.next p e = some w ∧ s' = { s with world := w } := by
    intro h
    split at h
    · rename_i hfree
      obtain ⟨w, hw, heq⟩ := Option.map_eq_some_iff.mp h
      exact ⟨Or.inl (Option.isNone_iff_eq_none.mp hfree), w, hw, heq.symm⟩
    · cases h
  cases e with
  | packet => exact absurd hnext (by simp [next])
  | elapse duration =>
    rw [next] at hnext
    obtain ⟨w, hw, heq⟩ := Option.map_eq_some_iff.mp hnext
    exact ⟨by simp, Or.inr trivial, w, hw, heq.symm⟩
  | swapKeys id keys =>
    obtain ⟨w, hw, heq⟩ := Option.map_eq_some_iff.mp hnext
    exact ⟨by simp, Or.inr trivial, w, hw, heq.symm⟩
  | forward | evict id | cleanup => exact ⟨by simp, waits hnext⟩

theorem RotationInv.world (hs : RotationInv s)
    (hpacket : ∀ data src allowed, e ≠ .packet data src allowed)
    (hlock : s.handling = none ∨ Lockless e) (hnext : s.world.next p e = some w) :
    RotationInv { s with world := w } := by
  cases World.Step.of_next hnext with
  | elapse | forward =>
    exact hs.imp_right fun h => h.of_sessions rfl rfl fun a session h => ⟨session, h, rfl, rfl⟩
  | refused | packet => exact absurd rfl (hpacket _ _ _)
  | @swapKeys id keys => exact Or.inl ⟨id, AList.lookup_insert _⟩
  | @evict id keys hkeys =>
    have hfree : s.handling = none := hlock.resolve_right not_false
    by_cases hlast : keys = s.world.activeKeys
    · -- whoever held the lock is done, so this eviction sees every session there is
      refine Or.inr ⟨fun a session hlookup => ?_, fun h hh => ?_⟩
      · exact hlast ▸ (authorized_evictSessionsNotIn hlookup).2
      · exact absurd (hfree.symm.trans hh) (by simp)
    · rcases hs with ⟨id', hid'⟩ | hsettled
      · -- the last swap was another one's, and that one is still to come
        refine Or.inl ⟨id', ?_⟩
        show (s.world.rotations.erase id).lookup id' = _
        rw [Table.lookup_erase_eq, if_neg]
        · exact hid'
        · intro heq
          rw [heq, hkeys] at hid'
          exact hlast (Option.some.inj hid')
      · refine Or.inr (hsettled.of_sessions rfl rfl fun a session hlookup => ?_)
        exact ⟨session, (authorized_evictSessionsNotIn hlookup).1, rfl, rfl⟩
  | cleanup =>
    refine hs.imp_right fun h => h.of_sessions rfl rfl fun a session' hlookup => ?_
    obtain ⟨session, hlookup₀, hcase⟩ := Table.of_lookup_pass hlookup
    obtain ⟨-, rfl⟩ := of_guard_not hcase
    exact ⟨session, hlookup₀, rfl, rfl⟩

theorem RotationInv.step {e : LockEvent} (hs : RotationInv s) (hnext : s.next p e = some s') :
    RotationInv s' := by
  cases e with
  | lock data src allowed =>
    obtain ⟨-, rfl⟩ := of_guard hnext
    refine hs.imp_right fun h => ⟨h.sessions, fun h' hh' keys hkeys => ?_⟩
    obtain rfl := Option.some.inj hh'
    cases hkeys
  | readKeys =>
    rw [next] at hnext
    split at hnext
    · obtain rfl := Option.some.inj hnext
      refine hs.imp_right fun h => ⟨h.sessions, fun h' hh' keys hkeys => ?_⟩
      obtain rfl := Option.some.inj hh'
      exact (Option.some.inj hkeys).symm
    · cases hnext
  | finish =>
    rw [next] at hnext
    split at hnext
    · rename_i data src allowed keys hhandling
      obtain rfl := Option.some.inj hnext
      obtain ⟨hrotations, hactive, hsessions⟩ :=
        finishPacket_spec p s.world keys data src allowed
      rcases hs with ⟨id, hid⟩ | hsettled
      · left
        rw [hrotations, hactive]
        exact ⟨id, hid⟩
      · refine Or.inr ⟨?_, fun h hh => absurd hh (by simp)⟩
        rw [hactive]
        exact hsessions (hsettled.keys _ hhandling keys rfl) hsettled.sessions
    · cases hnext
  | other e =>
    obtain ⟨hpacket, hlock, w, hw, rfl⟩ := of_other hnext
    exact hs.world hpacket hlock hw

theorem RotationInv.start (h : Start p config s) : RotationInv s := by
  obtain ⟨hfree, hstart⟩ := h
  refine Or.inr ⟨fun a session hlookup => ?_, fun h hh => ?_⟩
  · rw [hstart.eq] at hlookup
    cases hlookup
  · exact absurd (hfree.symm.trans hh) (by simp)

/-- Without a swap the active set stays, and so does the absence of changes in progress. -/
theorem rotations_of_next {e : LockEvent} (hswaps : ¬ e.Swaps) (hnext : s.next p e = some s')
    (hnone : s.world.rotations = ∅) :
    s'.world.rotations = ∅ ∧ s'.world.activeKeys = s.world.activeKeys := by
  cases e with
  | lock data src allowed | readKeys =>
    rw [next] at hnext
    split at hnext
    · exact Option.some.inj hnext ▸ ⟨hnone, rfl⟩
    · cases hnext
  | finish =>
    rw [next] at hnext
    split at hnext
    · rename_i data src allowed keys _
      obtain rfl := Option.some.inj hnext
      obtain ⟨hrotations, hactive, -⟩ := finishPacket_spec p s.world keys data src allowed
      exact ⟨hrotations.trans hnone, hactive⟩
    · cases hnext
  | other e =>
    obtain ⟨hpacket, -, w, hw, rfl⟩ := of_other hnext
    cases World.Step.of_next hw with
    | elapse | forward | cleanup => exact ⟨hnone, rfl⟩
    | refused | packet => exact absurd rfl (hpacket _ _ _)
    | swapKeys => exact absurd trivial hswaps
    | evict hkeys =>
      rw [hnone] at hkeys
      cases hkeys

/-- **Revocation takes effect.** Take any state of a run in which every call of
`apply_active_keys` has returned, however the calls and the packets were interleaved, and anything
that happens from there on without another call: the active set stays the same, and every session
bound to a key is bound to one of its keys, by id, secret and role. -/
theorem sessions_authorized {s s' : Locked} (hs : Reach (Locked.next p) Any (Start p config) s)
    (hreturned : s.world.rotations = ∅)
    (hs' : Reach (Locked.next p) (fun _ e => ¬ e.Swaps) (fun t => t = s) s') :
    s'.world.activeKeys = s.world.activeKeys ∧
      ∀ a session, s'.world.sessions.lookup a = some session → session.authenticated = true →
        ∃ key ∈ s.world.activeKeys, session.matchesAuthorization key = true := by
  have hinv : RotationInv s :=
    hs.invariant (fun _ h => .start h) fun _ _ _ h _ hnext => h.step hnext
  have hkept : RotationInv s' ∧ s'.world.rotations = ∅ ∧
      s'.world.activeKeys = s.world.activeKeys := by
    refine hs'.invariant (I := fun t => RotationInv t ∧ t.world.rotations = ∅ ∧
      t.world.activeKeys = s.world.activeKeys) ?_ ?_
    · rintro t rfl
      exact ⟨hinv, hreturned, rfl⟩
    · rintro t e t' ⟨ht, hnone, hactive⟩ hswaps hnext
      obtain ⟨hnone', hactive'⟩ := rotations_of_next hswaps hnext hnone
      exact ⟨ht.step hnext, hnone', hactive'.trans hactive⟩
  obtain ⟨hinv', hnone, hactive⟩ := hkept
  refine ⟨hactive, fun a session hlookup hauth => ?_⟩
  rcases hinv' with ⟨id, hid⟩ | hsettled
  · rw [hnone] at hid
    cases hid
  · rw [← hactive]
    exact hsettled.sessions a session hlookup hauth

/-- Two changes overlap. The peer comes in between, is evicted by the first and comes again. -/
def overlappingRun : List LockEvent :=
  [.lock (keepalivePacket peerKeepaliveMac) peerAddr true, .readKeys,
    .other (.swapKeys 1 [fleetKey]), .finish, .other (.swapKeys 2 [fleetKey, peerKey]),
    .other (.evict 1), .lock (keepalivePacket peerKeepaliveMac) peerAddr true, .readKeys, .finish,
    .other (.evict 2)]

theorem overlapping_authorized :
    ∃ s, Reach (Locked.next shortPrimitives) Any (Start shortPrimitives shortConfig) s ∧
      s.world.rotations = ∅ ∧
      ∃ session, s.world.sessions.lookup peerAddr = some session ∧ session.authenticated = true ∧
        ∃ key ∈ s.world.activeKeys, session.matchesAuthorization key = true := by
  have hrun : (exec (Locked.next shortPrimitives) (fun _ _ => true) ⟨shortStart, none⟩
      overlappingRun).any (fun s => decide (s.world.rotations.entries = [] ∧
        (s.world.sessions.lookup peerAddr).any RelaySession.authenticated = true)) = true := by
    decide +kernel
  obtain ⟨s, hs, htest⟩ := Reach.any_of_exec _
    (show Start shortPrimitives shortConfig ⟨shortStart, none⟩ from ⟨rfl, start_shortStart⟩) _ hrun
  obtain ⟨hempty, hpeer⟩ := of_decide_eq_true htest
  have hreturned : s.world.rotations = ∅ := AList.ext hempty
  obtain ⟨session, hlookup, hauth⟩ := (Option.any_eq_true _ _).mp hpeer
  have h := sessions_authorized hs hreturned (.init rfl)
  exact ⟨s, hs, hreturned, session, hlookup, hauth, h.2 peerAddr session hlookup hauth⟩

end Locked

end MiningInfra.Relay
