import MiningInfra.Lib.Lockstep
import MiningInfra.Relay.Naming

/-!
# What a peer that may only receive can change

The objects of a session whose role is to receive only are never forwarded, but they are processed
like those of any other session, and one thing they leave behind is shared: a segment zero with a
valid proof of work goes into the cache that decides about later segments. So two runs that differ
in such a segment can differ in what they forward for others; two runs that do not, cannot.
-/

namespace MiningInfra.Relay

open Lib Coinbase

variable {p : Primitives} {config : RelayConfig} {now : Nat} {w w' : World}

/-! ## Processing reads of the cache what has not expired -/

namespace ValidatedCache

variable {cache cache' : ValidatedCache} {now' : Nat}

theorem cleanup_cleanup_of_le (hle : now ≤ now') (cache : ValidatedCache) :
    cleanup now' (cleanup now cache) = cleanup now' cache := by
  refine AList.ext ?_
  simp only [cleanup, Table.entries_retain, List.filter_filter]
  refine List.filter_congr fun e _ => ?_
  simp only [Bool.and_eq_left_iff_imp, decide_eq_true_eq]
  omega

/-- What agrees now agrees later. -/
theorem Agree.mono (hle : now ≤ now') (h : Agree now cache cache') : Agree now' cache cache' := by
  unfold Agree at h ⊢
  rw [← cleanup_cleanup_of_le hle cache, h, cleanup_cleanup_of_le hle]

theorem Agree.matchesSegmentZero (h : Agree now cache cache') (segment : RawBlockSegment) :
    cache.matchesSegmentZero now segment = cache'.matchesSegmentZero now segment := by
  unfold ValidatedCache.matchesSegmentZero
  rw [show ValidatedCache.cleanup now cache = ValidatedCache.cleanup now cache' from h]

theorem Agree.record (h : Agree now cache cache') (zero : RawBlockSegment) :
    cache.record now zero = cache'.record now zero := by
  unfold ValidatedCache.record
  rw [show ValidatedCache.cleanup now cache = ValidatedCache.cleanup now cache' from h]

end ValidatedCache

/-- The same result, with caches that agree. -/
def SameResult {α : Type} (now : Nat) (x y : α × ValidatedCache) : Prop :=
  x.1 = y.1 ∧ ValidatedCache.Agree now x.2 y.2

section Congr

variable {cache cache' : ValidatedCache}

section

variable (h : ValidatedCache.Agree now cache cache')

include h

theorem validateRawBlockSegment_congr (a : BlockAssembly) :
    SameResult now (validateRawBlockSegment p config now cache a)
      (validateRawBlockSegment p config now cache' a) := by
  unfold validateRawBlockSegment
  cases decodeRawSegmentFromAssembly p config a with
  | none => exact ⟨rfl, h⟩
  | some segment =>
    dsimp only
    rw [h.matchesSegmentZero segment, h.record segment]
    split
    · exact ⟨rfl, h⟩
    split
    · exact ⟨rfl, rfl⟩
    split
    · exact ⟨rfl, h⟩
    split
    · exact ⟨rfl, h⟩
    cases p.validate (segment.payload.take zcashFullHeaderSize) with
    | valid => exact ⟨rfl, rfl⟩
    | invalid | indeterminate => exact ⟨rfl, h⟩

theorem validatePow_congr (a : BlockAssembly) :
    SameResult now (validatePow p config now cache a) (validatePow p config now cache' a) := by
  unfold validatePow
  cases a.msgType with
  | block | compactSkeleton | keepalive | auth => exact ⟨rfl, h⟩
  | rawBlockSegment => exact validateRawBlockSegment_congr h a

theorem judge_congr (a : BlockAssembly) :
    SameResult now (judge p config now cache a) (judge p config now cache' a) := by
  have hpow : SameResult now (validatePow p config now cache a)
      (validatePow p config now cache' a) := validatePow_congr h a
  unfold judge
  generalize validatePow p config now cache a = x at hpow ⊢
  generalize validatePow p config now cache' a = y at hpow ⊢
  obtain ⟨verdict, c⟩ := x
  obtain ⟨verdict', c'⟩ := y
  obtain ⟨hverdict, hcache⟩ := hpow
  subst hverdict
  cases verdict with
  | none | some valid => exact ⟨rfl, hcache⟩

end

theorem refreshCachedRawSegment_congr {state state' : RelaySession × ValidatedCache}
    (h : SameResult now state state') (objectHash : Bytes32) :
    SameResult now (refreshCachedRawSegment p config now state objectHash)
      (refreshCachedRawSegment p config now state' objectHash) := by
  obtain ⟨session, cache⟩ := state
  obtain ⟨session', cache'⟩ := state'
  obtain ⟨hsession, hcache⟩ := h
  subst hsession
  unfold refreshCachedRawSegment
  dsimp only
  cases session.pendingBlocks.lookup objectHash with
  | none => exact ⟨rfl, hcache⟩
  | some assembly =>
    dsimp only
    cases decodeRawSegmentFromAssembly p config assembly with
    | none => exact ⟨rfl, hcache⟩
    | some segment =>
      dsimp only
      rw [hcache.matchesSegmentZero segment]
      split
      · exact ⟨rfl, hcache⟩
      · exact ⟨rfl, rfl⟩

theorem refreshCachedRawSegmentAssemblies_congr (h : ValidatedCache.Agree now cache cache')
    (session : RelaySession) :
    SameResult now (refreshCachedRawSegmentAssemblies p config now session cache)
      (refreshCachedRawSegmentAssemblies p config now session cache') :=
  List.foldl_rel ⟨rfl, h⟩ fun _ _ _ _ hstate => refreshCachedRawSegment_congr hstate _

/-- The same objects and session, with caches that agree. -/
structure SameProcessed (now : Nat) (r r' : Processed) : Prop where
  ready : r.ready = r'.ready
  session : r.session = r'.session
  agree : ValidatedCache.Agree now r.cache r'.cache

section

variable (h : ValidatedCache.Agree now cache cache') (session : RelaySession)

include h

theorem settleAssembly_congr (objectHash : Bytes32) (a : BlockAssembly) (isNew : Bool) :
    SameProcessed now (settleAssembly p config now cache session objectHash a isNew)
      (settleAssembly p config now cache' session objectHash a isNew) := by
  have hjudge : SameResult now
      (if isNew = true ∧ a.powValidated = false then judge p config now cache a else (a, cache))
      (if isNew = true ∧ a.powValidated = false then judge p config now cache' a else (a, cache'))
      := by
    split
    · exact judge_congr h a
    · exact ⟨rfl, h⟩
  unfold settleAssembly
  generalize (if isNew = true ∧ a.powValidated = false then judge p config now cache a
    else (a, cache)) = x at hjudge ⊢
  generalize (if isNew = true ∧ a.powValidated = false then judge p config now cache' a
    else (a, cache')) = y at hjudge ⊢
  obtain ⟨a₁, c⟩ := x
  obtain ⟨a₂, c'⟩ := y
  obtain ⟨hassembly, hcache⟩ := hjudge
  subst hassembly
  dsimp only
  split
  · obtain ⟨hsession, hagree⟩ := refreshCachedRawSegmentAssemblies_congr (p := p) hcache
      { session with pendingBlocks := session.pendingBlocks.insert objectHash a₁ }
    exact ⟨by rw [hsession], by rw [hsession], hagree⟩
  · exact ⟨rfl, rfl, hcache⟩

theorem processChunkForSession_congr (chunk : Chunk) (isData : chunk.header.msgType.isData = true) :
    SameProcessed now (processChunkForSession p config now cache session chunk isData)
      (processChunkForSession p config now cache' session chunk isData) := by
  unfold processChunkForSession
  split
  · exact ⟨rfl, rfl, h⟩
  split
  · exact ⟨rfl, rfl, h⟩
  split
  · exact ⟨rfl, rfl, h⟩
  split
  · exact ⟨rfl, rfl, h⟩
  · exact settleAssembly_congr h _ _ _ _

end

end Congr

/-! ## Two runs -/

/-- What was sent to a peer, with whom it came from. -/
def Entry.sentTo (peer : SocketAddr) : Entry → List (SocketAddr × List (List UInt8))
  | .forwarded src _ outbound => (outbound.filter fun o => o.1 = peer).map fun o => (src, o.2)
  | _ => []

def sentTo (peer : SocketAddr) (journal : List Entry) : List (SocketAddr × List (List UInt8)) :=
  journal.flatMap (Entry.sentTo peer)

/-- What both runs see: the same packets of sources that are not there to receive only, handled
when neither run has an object left to forward and can take another session; the same time, changes
of keys and cleanups. When they forward, they have the same peers under the same keys. -/
def Common (w w' : World) : Event → Prop
  | .packet _ src _ => w.outgoing = [] ∧ w'.outgoing = [] ∧
      w.sessions.entries.length < w.config.maxSessions ∧
      w'.sessions.entries.length < w'.config.maxSessions ∧
      (∀ session ∈ w.sessions.lookup src, session.role = .full) ∧
      ∀ session ∈ w'.sessions.lookup src, session.role = .full
  | .forward => ∀ peer, (w.sessions.lookup peer).map RelaySession.binding
      = (w'.sessions.lookup peer).map RelaySession.binding
  | .cleanup => w.outgoing = [] ∧ w'.outgoing = []
  | .elapse _ | .swapKeys _ _ | .evict _ => True

/-- What a run has alone: packets of sources that are there to receive only. -/
def Own (p : Primitives) (w : World) : Event → Prop
  | .packet data src allowed =>
    (∀ session ∈ w.sessions.lookup src, session.role = .receiveOnly) ∧
    ∀ w' ∈ w.next p (.packet data src allowed), ∀ session ∈ w'.sessions.lookup src,
      session.role = .receiveOnly
  | _ => False

/-- After such a packet its session does not hold a segment zero with a valid proof of work. -/
def NoZero (p : Primitives) (config : RelayConfig) (w : World) : Event → Prop
  | .packet data src allowed => ∀ w' ∈ w.next p (.packet data src allowed),
      ∀ session ∈ w'.sessions.lookup src, ∀ k, ∀ a ∈ session.pendingBlocks.lookup k,
        ∀ zero, ¬ CarriesZero p config a zero
  | _ => True

/-- The same sessions that may send. -/
def SameFull (m m' : Table SocketAddr RelaySession) : Prop :=
  ∀ src session, session.role = .full → (m.lookup src = some session ↔ m'.lookup src = some session)

/-- The runs cannot be told apart by what they forward, now or later. -/
structure Alike (w w' : World) : Prop where
  configured : w'.config = w.config
  clock : w'.clock = w.clock
  activeKeys : w'.activeKeys = w.activeKeys
  rotations : w'.rotations = w.rotations
  outgoing : w'.outgoing = w.outgoing
  agree : ValidatedCache.Agree w.clock w.validatedRawBlocks w'.validatedRawBlocks
  full : SameFull w.sessions w'.sessions
  sent : ∀ peer, sentTo peer w.journal = sentTo peer w'.journal

namespace SameFull

variable {m m' : Table SocketAddr RelaySession}

section

variable (h : SameFull m m')

include h

theorem symm : SameFull m' m := fun src session hfull =>
  (h src session hfull).symm

/-- A pass that keeps the roles. -/
theorem pass {f : RelaySession → Option RelaySession}
    (hrole : ∀ s s', f s = some s' → s'.role = s.role) :
    SameFull (m.pass fun _ => f) (m'.pass fun _ => f) := by
  intro src session hfull
  rw [Table.lookup_pass, Table.lookup_pass, Option.bind_eq_some_iff, Option.bind_eq_some_iff]
  constructor
  · rintro ⟨s, hlookup, hf⟩
    exact ⟨s, (h src s ((hrole s session hf).symm.trans hfull)).mp hlookup, hf⟩
  · rintro ⟨s, hlookup, hf⟩
    exact ⟨s, (h src s ((hrole s session hf).symm.trans hfull)).mpr hlookup, hf⟩

theorem insert (src : SocketAddr) (session : RelaySession) :
    SameFull (m.insert src session) (m'.insert src session) := by
  intro src' session' hfull
  rw [Table.lookup_insert_eq, Table.lookup_insert_eq]
  split
  · exact Iff.rfl
  · exact h src' session' hfull

/-- A source that is there to receive only does not matter. -/
theorem insert_left {src : SocketAddr} {session : RelaySession}
    (hbefore : ∀ s, m.lookup src = some s → s.role = .receiveOnly)
    (hafter : session.role = .receiveOnly) : SameFull (m.insert src session) m' := by
  intro src' session' hfull
  rw [Table.lookup_insert_eq]
  split
  · rename_i heq
    subst heq
    rw [← h src' session' hfull]
    constructor
    · rintro ⟨⟩
      exact absurd (hafter.symm.trans hfull) (by simp)
    · intro hlookup
      exact absurd ((hbefore _ hlookup).symm.trans hfull) (by simp)
  · exact h src' session' hfull

end

end SameFull

/-! ## What was sent -/

theorem sentTo_promoted (peer src : SocketAddr) (l : List BlockAssembly) (journal : List Entry) :
    sentTo peer (l.map (.promoted src) ++ journal) = sentTo peer journal := by
  induction l with
  | nil => rfl
  | cons a l ih => exact ih

/-- What a peer gets depends on its own session only. -/
theorem sentTo_outboundTo (sessions : Table SocketAddr RelaySession) (src peer : SocketAddr)
    (ready : ReadyChunks) :
    Entry.sentTo peer (.forwarded src ready (outboundTo p sessions src ready))
      = ((((sessions.lookup peer).map RelaySession.binding).toList.filter fun _ => peer ≠ src).map
          fun key => (src, ready.chunks.map (datagram p key.key ready))).filter
        fun o => !o.2.isEmpty := by
  have hpeer : (sessions.entries.filter fun e => e.1 ≠ src).filter (fun e => e.1 = peer)
      = ((sessions.lookup peer).toList.map (Sigma.mk peer)).filter fun e => e.1 ≠ src := by
    rw [List.filter_comm, Table.filter_entries_key]
  have hkey : ∀ g : (Sigma fun _ : SocketAddr => RelaySession) → List (List UInt8),
      ((sessions.entries.filter fun e => e.1 ≠ src).map fun e => (e.1, g e)).filter
          (fun o => o.1 = peer)
        = (((sessions.lookup peer).toList.map (Sigma.mk peer)).filter fun e => e.1 ≠ src).map
            fun e => (e.1, g e) := by
    intro g
    rw [List.filter_map, ← hpeer]
    rfl
  rw [Entry.sentTo, outboundTo, List.filter_comm, hkey]
  cases sessions.lookup peer with
  | none => rfl
  | some session =>
    by_cases hne : peer = src
    · simp [hne]
    · simp [hne, List.filter_cons, RelaySession.binding]
      split <;> rfl

theorem Alike.symm (h : Alike w w') : Alike w' w :=
  ⟨h.configured.symm, h.clock.symm, h.activeKeys.symm, h.rotations.symm, h.outgoing.symm,
    (h.clock ▸ h.agree).symm, h.full.symm, fun peer => (h.sent peer).symm⟩

/-! ## A packet both runs see -/

namespace Alike

section

variable (h : Alike w w')

include h

theorem log_admitted (src : SocketAddr) (key : AuthKey) (active : List AuthKey) :
    Alike (w.log (.admitted src key active)) (w'.log (.admitted src key active)) :=
  { h with sent := h.sent }

theorem insert (src : SocketAddr) (session : RelaySession) :
    Alike { w with sessions := w.sessions.insert src session }
      { w' with sessions := w'.sessions.insert src session } :=
  { h with full := h.full.insert src session }

variable {src : SocketAddr} {e : Event} {w₁ : World}

/-- The runs have the same session for a source that is not there to receive only. -/
theorem lookup_eq (hfull : ∀ session, w.sessions.lookup src = some session → session.role = .full)
    (hfull' : ∀ session, w'.sessions.lookup src = some session → session.role = .full) :
    w'.sessions.lookup src = w.sessions.lookup src := by
  cases hw : w.sessions.lookup src with
  | some session => exact (h.full src session (hfull session hw)).mp hw
  | none =>
    cases hw' : w'.sessions.lookup src with
    | none => rfl
    | some session =>
      have hback := (h.full src session (hfull' session hw')).mpr hw'
      exact absurd (hw.symm.trans hback) (by simp)

theorem authenticate (allowed supported : Bool) (verify : Bytes32 → Bool)
    (hlookup : w'.sessions.lookup src = w.sessions.lookup src)
    (hroom : w.sessions.entries.length < w.config.maxSessions)
    (hroom' : w'.sessions.entries.length < w'.config.maxSessions) :
    Outcomes (fun x y : World × RelaySession => Alike x.1 y.1 ∧ x.2 = y.2)
      (w.authenticate src allowed supported verify)
      (w'.authenticate src allowed supported verify) := by
  unfold World.authenticate
  rw [hlookup, if_neg (Nat.not_le.mpr hroom), if_neg (Nat.not_le.mpr hroom'), h.configured,
    h.clock, h.activeKeys]
  split
  · split
    · exact .error
    split
    · exact .error
    · exact .ok ⟨h, rfl⟩
  · split
    · exact .ok ⟨h, rfl⟩
    split
    · exact .error
    split
    · exact .error
    split
    · exact .ok ⟨h.log_admitted src _ _, rfl⟩
    · exact .error

theorem deliver (src : SocketAddr) (session : RelaySession) (chunk : Chunk)
    (isData : chunk.header.msgType.isData = true) :
    Alike (w.deliver p src session chunk isData) (w'.deliver p src session chunk isData) := by
  have hr : SameProcessed w.clock
      (processChunkForSession p w.config w.clock w.validatedRawBlocks session chunk isData)
      (processChunkForSession p w.config w.clock w'.validatedRawBlocks session chunk isData) :=
    processChunkForSession_congr h.agree session chunk isData
  unfold World.deliver
  rw [h.configured, h.clock]
  generalize processChunkForSession p w.config w.clock w.validatedRawBlocks session chunk isData
    = r at hr ⊢
  generalize processChunkForSession p w.config w.clock w'.validatedRawBlocks session chunk isData
    = r' at hr ⊢
  obtain ⟨ready, s, cache⟩ := r
  obtain ⟨ready', s', cache'⟩ := r'
  obtain ⟨hready, hsession, hagree⟩ := hr
  subst hready hsession
  refine ⟨rfl, rfl, h.activeKeys, h.rotations, rfl, hagree, h.full.insert src s, fun peer => ?_⟩
  rw [sentTo_promoted, sentTo_promoted]
  exact h.sent peer

theorem handlePacket (data : List UInt8) (allowed : Bool)
    (hlookup : w'.sessions.lookup src = w.sessions.lookup src)
    (hroom : w.sessions.entries.length < w.config.maxSessions)
    (hroom' : w'.sessions.entries.length < w'.config.maxSessions) :
    Outcomes Alike (w.handlePacket p data src allowed) (w'.handlePacket p data src allowed) := by
  unfold World.handlePacket
  refine (Outcomes.refl _).bind fun chunk _ hchunk => ?_
  subst hchunk
  split
  · unfold World.handleKeepalive
    dsimp only
    split
    · exact .error
    · refine (h.authenticate allowed _ _ hlookup hroom hroom').bind ?_
      rintro ⟨w₁, session⟩ ⟨w₁', session'⟩ ⟨halike, hsession⟩
      subst hsession
      exact .ok (halike.insert src session)
  split
  · rename_i isData
    rw [h.configured]
    refine (Outcomes.refl _).bind fun _ _ _ => ?_
    refine (h.authenticate allowed _ _ hlookup hroom hroom').bind ?_
    rintro ⟨w₁, session⟩ ⟨w₁', session'⟩ ⟨halike, hsession⟩
    subst hsession
    exact .ok (halike.deliver src session chunk isData)
  · exact .error

/-- **A packet both runs see** keeps them alike. -/
theorem packet {data : List UInt8} {allowed : Bool}
    (hcommon : Common w w' (.packet data src allowed)) :
    Alike (advance (World.next p) w (.packet data src allowed))
      (advance (World.next p) w' (.packet data src allowed)) := by
  obtain ⟨hidle, hidle', hroom, hroom', hfull, hfull'⟩ := hcommon
  have hpacket : Outcomes Alike (w.handlePacket p data src allowed)
      (w'.handlePacket p data src allowed) :=
    h.handlePacket data allowed (h.lookup_eq hfull hfull') hroom hroom'
  simp only [advance, World.next, hidle, hidle', List.isEmpty_nil, if_true]
  generalize w.handlePacket p data src allowed = x at hpacket ⊢
  generalize w'.handlePacket p data src allowed = y at hpacket ⊢
  cases hpacket with
  | error => exact h
  | ok halike => exact halike

/-! ## The other steps both runs take -/

theorem forward (hcommon : Common w w' .forward) :
    Alike (advance (World.next p) w .forward) (advance (World.next p) w' .forward) := by
  simp only [advance, World.next, h.outgoing]
  cases w.outgoing with
  | nil => exact h
  | cons o rest =>
    obtain ⟨src, ready⟩ := o
    simp only [forwardToPeers_eq, Option.getD_some]
    refine { h with outgoing := rfl, sent := fun peer => ?_ }
    have hbatch := sentTo_outboundTo (p := p) w.sessions src peer ready
    rw [hcommon peer, ← sentTo_outboundTo] at hbatch
    exact congrArg₂ (· ++ ·) hbatch (h.sent peer)

/-- **What both runs see** keeps them alike. -/
theorem both (hcommon : Common w w' e) :
    Alike (advance (World.next p) w e) (advance (World.next p) w' e) := by
  cases e with
  | elapse duration =>
    refine { h with clock := ?_, agree := h.agree.mono (Nat.le_add_right _ _) }
    exact congrArg (· + duration) h.clock
  | packet data src allowed => exact h.packet hcommon
  | forward => exact h.forward hcommon
  | swapKeys id keys =>
    simp only [advance, World.next, h.rotations]
    split
    · exact { h with activeKeys := rfl, rotations := rfl }
    · exact h
  | evict id =>
    simp only [advance, World.next, h.rotations]
    cases w.rotations.lookup id with
    | none => exact h
    | some keys =>
      refine { h with rotations := rfl, full := h.full.pass fun s s' hkept => ?_ }
      split at hkept
      · exact congrArg RelaySession.role (Option.some.inj hkept).symm
      · cases hkept
  | cleanup =>
    obtain ⟨hidle, hidle'⟩ := hcommon
    simp only [advance, World.next, hidle, hidle', List.isEmpty_nil, if_true, Option.getD_some,
      World.cleanupExpiredSessions, h.configured, h.clock]
    have hagree : ValidatedCache.Agree w.clock (w.validatedRawBlocks.cleanup w.clock)
        (w'.validatedRawBlocks.cleanup w.clock) :=
      (ValidatedCache.Agree.cleanup _ _).trans
        (h.agree.trans (ValidatedCache.Agree.cleanup _ _).symm)
    refine ⟨rfl, rfl, h.activeKeys, h.rotations, rfl, hagree,
      h.full.pass fun s s' hkept => ?_, h.sent⟩
    obtain ⟨-, rfl⟩ := of_guard_not hkept
    rfl

/-! ## A packet of a peer that may only receive -/

theorem authenticated {verify : Bytes32 → Bool} {session : RelaySession}
    (hknown : World.Authenticated w src verify w₁ session) :
    Alike w₁ w' ∧ w₁.sessions = w.sessions := by
  cases hknown with
  | known | unkeyed => exact ⟨h, rfl⟩
  | keyed => exact ⟨{ h with sent := h.sent }, rfl⟩

/-- **A packet one run has alone** changes nothing that matters unless it completes a segment
zero. -/
theorem own (hauth : config.authRequired = true) (hw : ForwardInv p config w) (hown : Own p w e)
    (hzero : NoZero p config w e) (hnext : w.next p e = some w₁) : Alike w₁ w' := by
  cases World.Step.of_next hnext with
  | refused => exact h
  | @packet data src allowed _ hidle hhandled =>
    obtain ⟨hbefore, hafter⟩ := hown
    have hafter := hafter w₁ hnext
    have hzero := hzero w₁ hnext
    cases hhandled with
    | @kept _ w₂ session hknown =>
      obtain ⟨halike, hsessions⟩ := h.authenticated hknown
      have hrole := hafter _ (AList.lookup_insert _)
      exact { halike with full := halike.full.insert_left (hsessions ▸ hbefore) hrole }
    | @delivered chunk isData w₂ session hknown =>
      obtain ⟨halike, hsessions⟩ := h.authenticated hknown
      have hg := Greeted.of_authenticated hauth hw hknown
      have hr : Ingested p w₂.config w₂.clock w₂.validatedRawBlocks
          (Stored session chunk w₂.clock) session chunk.header.blockHash
          (processChunkForSession p w₂.config w₂.clock w₂.validatedRawBlocks session chunk
            isData) := processChunkForSession_spec _ isData hg.sender.named
      unfold World.deliver at hafter hzero ⊢
      generalize processChunkForSession p w₂.config w₂.clock w₂.validatedRawBlocks session chunk
        isData = r at hr hafter hzero ⊢
      have hrole : r.session.role = .receiveOnly := hafter _ (AList.lookup_insert _)
      have hsame : r.session.role = session.role := congrArg AuthKey.role hr.session.binding
      have hagree : ValidatedCache.Agree w₂.clock r.cache w₂.validatedRawBlocks := by
        rcases hr.agree with hagree | ⟨a, zero, hlookup, hcarries⟩
        · exact hagree
        · rw [hg.inv.configured] at hcarries
          exact absurd hcarries (hzero _ (AList.lookup_insert _) _ a hlookup zero)
      refine { halike with
        outgoing := ?_
        agree := hagree.trans halike.agree
        full := halike.full.insert_left (hsessions ▸ hbefore) hrole
        sent := fun peer => ?_ }
      · dsimp only
        rw [if_pos (hsame.symm.trans hrole), halike.outgoing, hg.outgoing, hidle]
      · dsimp only
        rw [sentTo_promoted]
        exact halike.sent peer
  | elapse | forward | swapKeys | evict | cleanup => exact hown.elim

end

end Alike

theorem ForwardInv.advance (hauth : config.authRequired = true) (hw : ForwardInv p config w)
    (e : Event) : ForwardInv p config (MiningInfra.Lib.advance (World.next p) w e) :=
  advance_induction hw fun _ hnext => hw.step hauth (.of_next hnext)

theorem Alike.start (h : World.Start p config w) (h' : World.Start p config w') : Alike w w' := by
  rw [h.eq, h'.eq]
  exact ⟨rfl, rfl, rfl, rfl, rfl, rfl, fun _ _ _ => Iff.rfl, fun _ => rfl⟩

/-- **Peers that may only receive do not interfere.** Two runs of a node that requires
authentication see the same packets of the peers that may send, and the same time, changes of keys
and cleanups; they forward to the same peers. Each has packets of its own of peers that may only
receive. As long as none of these completes a segment zero with a valid proof of work, every peer
is sent the same in both runs. -/
theorem receiveOnly_noninterference (hauth : config.authRequired = true) {ww : World × World}
    (h : Reach (pairNext (World.next p))
      (Paired Common fun w e => Own p w e ∧ NoZero p config w e)
      (Twice (World.Start p config)) ww) (peer : SocketAddr) :
    sentTo peer ww.1.journal = sentTo peer ww.2.journal := by
  have hrelated : Alike ww.1 ww.2 ∧ ForwardInv p config ww.1 ∧ ForwardInv p config ww.2 := by
    refine Reach.related (R := fun w w' => Alike w w' ∧ ForwardInv p config w ∧
      ForwardInv p config w') ?_ ?_ ?_ ?_ h
    · exact fun w w' ⟨halike, hw, hw'⟩ => ⟨halike.symm, hw', hw⟩
    · exact fun w w' hw hw' => ⟨.start hw hw', .start hw, .start hw'⟩
    · rintro w w' e ⟨halike, hw, hw'⟩ hcommon
      exact ⟨halike.both hcommon, hw.advance hauth e, hw'.advance hauth e⟩
    · rintro w w' e w₁ ⟨halike, hw, hw'⟩ ⟨hown, hzero⟩ hnext
      exact ⟨halike.own hauth hw hown hzero hnext, hw.step hauth (.of_next hnext), hw'⟩
  exact hrelated.1.sent peer

/-! ## The disciplines can be tested -/

instance (w w' : World) (e : Event) : Decidable (Common w w' e) :=
  match e with
  | .packet _ _ _ | .cleanup => by unfold Common; infer_instance
  | .forward => decidable_of_iff
      (∀ peer ∈ w.sessions.keys ++ w'.sessions.keys,
        (w.sessions.lookup peer).map RelaySession.binding
          = (w'.sessions.lookup peer).map RelaySession.binding) <| by
      refine ⟨fun h peer => ?_, fun h peer _ => h peer⟩
      by_cases hmem : peer ∈ w.sessions.keys ++ w'.sessions.keys
      · exact h peer hmem
      · -- neither run has a session of this address
        rw [List.mem_append, not_or] at hmem
        rw [AList.lookup_eq_none.mpr hmem.1, AList.lookup_eq_none.mpr hmem.2]
  | .elapse _ | .swapKeys _ _ | .evict _ => .isTrue trivial

instance (p : Primitives) (w : World) (e : Event) : Decidable (Own p w e) := by
  cases e <;> unfold Own <;> infer_instance

/-- After the packet its session holds no part of a raw block. -/
def NoRaw (p : Primitives) (w : World) : Event → Prop
  | .packet data src allowed => ∀ w' ∈ w.next p (.packet data src allowed),
      ∀ session ∈ w'.sessions.lookup src, ∀ o ∈ session.pendingBlocks.entries,
        o.2.msgType ≠ .rawBlockSegment
  | _ => True

instance (p : Primitives) (w : World) (e : Event) : Decidable (NoRaw p w e) := by
  cases e <;> unfold NoRaw <;> infer_instance

theorem NoRaw.noZero {e : Event} (h : NoRaw p w e) : NoZero p config w e := by
  cases e with
  | packet data src allowed =>
    intro w' hw' session hsession k a ha zero hzero
    exact h w' hw' session hsession ⟨k, a⟩ (Table.mem_entries.mpr ha) hzero.msgType
  | elapse | forward | swapKeys | evict | cleanup => trivial

/-! ## Runs with a guest -/

def guestKey : AuthKey := ⟨"guest", toBytes32 (List.replicate 32 0x44), .receiveOnly⟩

def guestAddr : SocketAddr := ⟨[127, 0, 0, 1], 1003⟩

def guestKeepaliveMac : Bytes32 :=
  toBytes32 [0x86, 0x24, 0xee, 0x03, 0x18, 0xa6, 0x17, 0x03, 0x0e, 0x32, 0xf9, 0x17, 0x54, 0xe4,
    0x77, 0x16, 0x58, 0x90, 0x67, 0x11, 0x44, 0x36, 0xbc, 0xc2, 0x2d, 0xae, 0xec, 0xa0, 0x6b,
    0x49, 0x32, 0x7e]

def laterChunks : List Chunk :=
  [halfChunk .rawBlockSegment longRestId longLater.encode 0
      (toBytes32 [0xd8, 0x39, 0x7c, 0x6f, 0x9f, 0xae, 0x44, 0xcc, 0xaa, 0x3d, 0x9d, 0xc8, 0xd7,
        0x94, 0x5c, 0xf9, 0xe8, 0x1b, 0xb3, 0xcf, 0x21, 0x6e, 0xf3, 0x1a, 0x55, 0x43, 0xe7, 0x4f,
        0x20, 0x50, 0xa2, 0xeb]),
    halfChunk .rawBlockSegment longRestId longLater.encode 1
      (toBytes32 [0x5d, 0xed, 0x83, 0x21, 0xea, 0x43, 0x06, 0xd9, 0xc9, 0x4a, 0x0a, 0x97, 0xb5,
        0x53, 0x95, 0xe8, 0xdd, 0x31, 0xd9, 0xab, 0x16, 0xf0, 0xd6, 0x0e, 0x62, 0x99, 0x5f, 0x96,
        0x1f, 0xc9, 0x49, 0x59])]

def compactChunks : List Chunk :=
  [halfChunk .block shortHeaderHash (shortCompact.drop 4) 0
      (toBytes32 [0xdc, 0xb1, 0x56, 0x6a, 0x77, 0x23, 0x90, 0x75, 0x23, 0x19, 0xf1, 0x6c, 0x23,
        0x84, 0x8a, 0xda, 0xc1, 0x09, 0xba, 0xcd, 0x33, 0xe3, 0xa4, 0x01, 0xf9, 0xb5, 0x02, 0x12,
        0x74, 0x1b, 0x68, 0x4c]),
    halfChunk .block shortHeaderHash (shortCompact.drop 4) 1
      (toBytes32 [0xe7, 0xfe, 0xff, 0x18, 0xc0, 0x49, 0x9a, 0x9d, 0x9e, 0x86, 0x62, 0x19, 0x1b,
        0x6c, 0x76, 0x19, 0x7c, 0x31, 0x9a, 0x66, 0x8a, 0x3a, 0x27, 0x7d, 0x29, 0x0f, 0x59, 0xdc,
        0xbe, 0x51, 0xe7, 0xd3])]

/-- The segment zero of the same block, with the digest of another one. -/
def forgedZeroChunks : List Chunk :=
  [halfChunk .rawBlockSegment longZeroId ({ longZero with rawBlockDigest := fun _ => 0 }.encode) 0
      (toBytes32 [0xda, 0x48, 0x1a, 0xc4, 0xcd, 0xd6, 0xa9, 0xab, 0xbf, 0x3f, 0xa8, 0xb6, 0x62,
        0xbc, 0xd9, 0xa5, 0x2b, 0x66, 0x57, 0x28, 0x91, 0x9a, 0x8b, 0x11, 0x14, 0xd0, 0xa2, 0x91,
        0x4b, 0x76, 0xf2, 0xf3]),
    halfChunk .rawBlockSegment longZeroId ({ longZero with rawBlockDigest := fun _ => 0 }.encode) 1
      (toBytes32 [0x90, 0x34, 0x51, 0xa1, 0x8c, 0x3f, 0x27, 0x82, 0x7d, 0x42, 0x31, 0x1b, 0xa6,
        0x2b, 0x84, 0x08, 0x09, 0x85, 0x16, 0xd9, 0x15, 0x0f, 0x77, 0x5c, 0xed, 0x52, 0x15, 0x0c,
        0x88, 0x8d, 0x17, 0xa9])]

/-- Half of a compact block, from the guest. -/
def guestCompactChunks : List Chunk :=
  [halfChunk .block shortHeaderHash (shortCompact.drop 4) 0
      (toBytes32 [0xed, 0xd3, 0xd9, 0x9e, 0x33, 0xb9, 0x30, 0x5f, 0x51, 0xf8, 0xe8, 0x76, 0x0b,
        0x5b, 0xd7, 0x0e, 0x27, 0x14, 0x56, 0x09, 0x35, 0x59, 0x3c, 0x5a, 0xcf, 0x6e, 0x44, 0xb4,
        0x73, 0x8f, 0x87, 0x47])]

def guestPrimitives : Primitives :=
  longPrimitives (((guestKey.key, keepaliveMessage), guestKeepaliveMac)
    :: macsOf fleetKey (zeroChunks ++ laterChunks ++ compactChunks)
    ++ macsOf guestKey (forgedZeroChunks ++ guestCompactChunks))

def guestConfig : RelayConfig :=
  { longConfig with authorizedKeys := [fleetKey, peerKey, guestKey] }

def guestStart : World := ⟨guestConfig, 0, guestConfig.authorizedKeys, ∅, ∅, [], ∅, []⟩

theorem start_guests : Twice (World.Start guestPrimitives guestConfig) (guestStart, guestStart) :=
  ⟨rfl, rfl⟩

/-- Both runs have the peer and the guest. -/
def guestGreetings : List (Turn Event) :=
  [.both (.packet (keepalivePacket peerKeepaliveMac) peerAddr true),
    .both (.packet (keepalivePacket guestKeepaliveMac) guestAddr true)]

instance (own : World → Event → Prop) [∀ w e, Decidable (own w e)] (ww : World × World)
    (turn : Turn Event) : Decidable (Paired Common own ww turn) := by
  cases turn <;> unfold Paired <;> infer_instance

theorem guest_does_not_interfere :
    ∃ ww, Reach (pairNext (World.next guestPrimitives))
        (Paired Common fun w e => Own guestPrimitives w e ∧ NoZero guestPrimitives guestConfig w e)
        (Twice (World.Start guestPrimitives guestConfig)) ww ∧
      sentTo peerAddr ww.1.journal ≠ [] ∧
      sentTo peerAddr ww.1.journal = sentTo peerAddr ww.2.journal := by
  have hrun : (exec (pairNext (World.next guestPrimitives)) (fun ww turn => decide
      (Paired Common (fun w e => Own guestPrimitives w e ∧ NoRaw guestPrimitives w e) ww turn))
      (guestStart, guestStart)
      (guestGreetings ++ (packetsFrom guestAddr guestCompactChunks).map .left
        ++ (packetsFrom fleetAddr compactChunks ++ [Event.forward]).map .both)).any
      (fun ww => decide (sentTo peerAddr ww.1.journal ≠ [])) = true := by decide +kernel
  obtain ⟨ww, hww, htest⟩ := Reach.exists_of_exec _ (fun _ _ h => of_decide_eq_true h) _
    start_guests _ hrun
  have hquiet : Reach (pairNext (World.next guestPrimitives))
      (Paired Common fun w e => Own guestPrimitives w e ∧ NoZero guestPrimitives guestConfig w e)
      (Twice (World.Start guestPrimitives guestConfig)) ww :=
    hww.mono (Paired.mono fun _ _ h => ⟨h.1, h.2.noZero⟩)
  exact ⟨ww, hquiet, of_decide_eq_true htest, receiveOnly_noninterference rfl hquiet peerAddr⟩

/-- In one run the guest sends a segment zero of the block the fleet is sending, with a digest of
its own. The fleet's next segment goes out in the other run only. -/
theorem guest_suppresses_segment :
    ∃ ww, Reach (pairNext (World.next guestPrimitives)) (Paired Common (Own guestPrimitives))
        (Twice (World.Start guestPrimitives guestConfig)) ww ∧
      sentTo peerAddr ww.1.journal ≠ sentTo peerAddr ww.2.journal := by
  have hrun : (exec (pairNext (World.next guestPrimitives))
      (fun ww turn => decide (Paired Common (Own guestPrimitives) ww turn))
      (guestStart, guestStart)
      (guestGreetings ++ (packetsFrom fleetAddr zeroChunks ++ [Event.forward]).map .both
        ++ (packetsFrom guestAddr forgedZeroChunks).map .left
        ++ (packetsFrom fleetAddr laterChunks ++ [Event.forward]).map .both)).any
      (fun ww => decide (sentTo peerAddr ww.1.journal ≠ sentTo peerAddr ww.2.journal)) = true := by
    decide +kernel
  obtain ⟨ww, hww, htest⟩ := Reach.exists_of_exec _ (fun _ _ h => of_decide_eq_true h) _
    start_guests _ hrun
  exact ⟨ww, hww, of_decide_eq_true htest⟩

end MiningInfra.Relay
