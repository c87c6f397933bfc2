import MiningInfra.Lib.History
import MiningInfra.Relay.Node
import MiningInfra.Relay.Promotion

/-!
# What the node forwards

Every chunk that goes out came in from the session it is attributed to, under a key that may
send; its object was let through before; it does not go back to its sender; and it does not go out
twice while the session remembers it.

The last part has two tables that live apart: a chunk leaves the assembly when that is cleaned
up, and the recent chunks when its entry is too old. The argument goes through the slots of the
assemblies. A slot that is filled and has not gone out was filled by a chunk the session did not
remember, after the last time that chunk went out.
-/

namespace MiningInfra.Relay

open Lib Coinbase

/-! ## What the journal says -/

/-- The key the session of a source was bound to, and the keys active at that time. -/
def admission (src : SocketAddr) : List Entry → Option (AuthKey × List AuthKey)
  | [] => none
  | .admitted src' key active :: journal =>
    if src' = src then some (key, active) else admission src journal
  | .received .. :: journal => admission src journal
  | .promoted .. :: journal => admission src journal
  | .forwarded .. :: journal => admission src journal

/-- The payload came from this source as this chunk, verified under the key the session of the
source was bound to, which was active when it was. -/
structure Arrived (p : Primitives) (journal : List Entry) (src : SocketAddr) (k : ChunkKey)
    (data : List UInt8) (key : AuthKey) : Prop where
  entry : ∃ later chunk time previous earlier active,
    journal = later ++ .received src key chunk time previous :: earlier ∧
    chunk.key = k ∧ chunk.payload = data ∧ verifyDataChunkHmac p key.key chunk = true ∧
    admission src earlier = some (key, active) ∧ key ∈ active

variable {p : Primitives} {journal : List Entry} {src : SocketAddr} {segment : RawBlockSegment}
  {cache : ValidatedCache} {w w' : World} {session : RelaySession} {data : List UInt8}
  {key : AuthKey}

theorem Arrived.append {k : ChunkKey} (h : Arrived p journal src k data key) (new : List Entry) :
    Arrived p (new ++ journal) src k data key := by
  obtain ⟨later, chunk, time, previous, earlier, active, rfl, hrest⟩ := h
  exact ⟨new ++ later, chunk, time, previous, earlier, active, (List.append_assoc ..).symm, hrest⟩

/-- The segment zero of this segment was let through: the same block, with the same length, number
of segments and digest, and a header with a valid proof of work that hashes to it. -/
def Announced (p : Primitives) (config : RelayConfig) (journal : List Entry)
    (segment : RawBlockSegment) : Prop :=
  ∃ src z zero, Entry.promoted src z ∈ journal ∧ CarriesZero p config z zero ∧
    zero.blockHash = segment.blockHash ∧ zero.segmentCount = segment.segmentCount ∧
    zero.rawBlockLen = segment.rawBlockLen ∧ zero.rawBlockDigest = segment.rawBlockDigest

theorem Announced.append {config : RelayConfig} (h : Announced p config journal segment)
    (new : List Entry) : Announced p config (new ++ journal) segment := by
  obtain ⟨src, z, zero, hmem, hrest⟩ := h
  exact ⟨src, z, zero, List.mem_append_right _ hmem, hrest⟩

/-- The object was let through, for a reason. -/
def LetThrough (p : Primitives) (config : RelayConfig) (journal : List Entry) (src : SocketAddr)
    (blockHash : Bytes32) (msgType : MessageType) : Prop :=
  ∃ a, Entry.promoted src a ∈ journal ∧ a.blockHash = blockHash ∧ a.msgType = msgType ∧
    Passes p config (Announced p config journal) a

namespace Entry

/-- This entry forwards the chunk. -/
def Forwards (src : SocketAddr) (k : ChunkKey) : Entry → Prop
  | .forwarded src' ready _ =>
    src' = src ∧ ready.blockHash = k.blockHash ∧ k.chunkId ∈ ready.chunks.map Prod.fst
  | _ => False

/-- The chunk came, and the session did not have it among its recent chunks or only with an entry
older than `RECENT_CHUNK_TTL`. -/
def Renews (src : SocketAddr) (k : ChunkKey) : Entry → Prop
  | .received src' _ chunk time previous =>
    src' = src ∧ chunk.key = k ∧ ∀ t, previous = some t → recentChunkTtl < time - t
  | _ => False

end Entry

/-- The chunk may be forwarded: since it last was, it came anew. -/
def MayForward (src : SocketAddr) (k : ChunkKey) (journal : List Entry) : Prop :=
  Renewed (Entry.Renews src k) (Entry.Forwards src k) journal

/-! ## The invariant -/

/-- What a session holds, against the journal. -/
structure SessionInv (p : Primitives) (journal : List Entry) (src : SocketAddr)
    (session : RelaySession) : Prop where
  named : ∀ h a, session.pendingBlocks.lookup h = some a → a.blockHash = h
  bound : ∃ active, admission src journal = some (session.binding, active) ∧
    session.binding ∈ active
  slots : ∀ h a (id : UInt16) data, session.pendingBlocks.lookup h = some a →
    a.chunk id.toNat = some data → Arrived p journal src ⟨h, id⟩ data session.binding
  passed : ∀ h a, session.pendingBlocks.lookup h = some a → a.powValidated = true →
    ∃ a', Entry.promoted src a' ∈ journal ∧ a'.blockHash = h ∧ a'.msgType = a.msgType
  unsent : ∀ h a (id : UInt16) data, session.pendingBlocks.lookup h = some a →
    a.chunk id.toNat = some data → a.sent id.toNat = false → MayForward src ⟨h, id⟩ journal

/-- What is known of an object when it goes out. -/
structure Vouched (p : Primitives) (config : RelayConfig) (journal : List Entry)
    (src : SocketAddr) (ready : ReadyChunks) : Prop where
  arrived : ∀ c ∈ ready.chunks, ∃ key, key.role = .full ∧
    Arrived p journal src ⟨ready.blockHash, c.1⟩ c.2 key
  letThrough : LetThrough p config journal src ready.blockHash ready.msgType
  mayForward : ∀ c ∈ ready.chunks, MayForward src ⟨ready.blockHash, c.1⟩ journal

/-- An object goes out only if it is vouched for, and not to its sender. -/
def Entry.Sound (p : Primitives) (config : RelayConfig) : Entry → List Entry → Prop
  | .forwarded src ready outbound, earlier =>
    Vouched p config earlier src ready ∧ ∃ sessions, outbound = outboundTo p sessions src ready
  | _, _ => True

/-- The cache tells of segments zero that were let through. -/
def CacheInv (p : Primitives) (config : RelayConfig) (journal : List Entry)
    (cache : ValidatedCache) : Prop :=
  ∀ h entry, cache.lookup h = some entry →
    ∃ src z zero, Entry.promoted src z ∈ journal ∧ CarriesZero p config z zero ∧
      zero.blockHash = h ∧ entry = .fromSegmentZero zero entry.validatedAt

/-- The slots of what waits to be forwarded count as gone out already. -/
def Waiting (w : World) : Prop :=
  ∀ src ready, (src, ready) ∈ w.outgoing → ∀ session, w.sessions.lookup src = some session →
    ∀ a, session.pendingBlocks.lookup ready.blockHash = some a →
      ∀ c ∈ ready.chunks, a.sent c.1.toNat = true

structure ForwardInv (p : Primitives) (config : RelayConfig) (w : World) : Prop where
  configured : w.config = config
  sessions : ∀ src session, w.sessions.lookup src = some session →
    SessionInv p w.journal src session
  promoted : ∀ src a, Entry.promoted src a ∈ w.journal →
    Passes p config (Announced p config w.journal) a
  cache : CacheInv p config w.journal w.validatedRawBlocks
  queued : ∀ src ready, (src, ready) ∈ w.outgoing → Vouched p config w.journal src ready
  waiting : Waiting w
  /-- No object waits twice. -/
  distinct : (w.outgoing.map fun o => (o.1, o.2.blockHash)).Nodup
  sound : Backed (Entry.Sound p config) w.journal

variable {config : RelayConfig} {ready : ReadyChunks}

theorem CacheInv.append (h : CacheInv p config journal cache) (new : List Entry) :
    CacheInv p config (new ++ journal) cache := by
  intro k entry hk
  obtain ⟨src, z, zero, hmem, hrest⟩ := h k entry hk
  exact ⟨src, z, zero, List.mem_append_right _ hmem, hrest⟩

theorem Announced.of_known (hcache : CacheInv p config journal cache) {now : Nat}
    (h : Known now cache segment) : Announced p config journal segment := by
  rw [Known, ValidatedCache.matchesSegmentZero] at h
  obtain ⟨entry, hlookup, hmatch⟩ := (Option.any_eq_true _ _).mp h
  obtain ⟨src, z, zero, hmem, hzero, hhash, hentry⟩ :=
    hcache _ _ (ValidatedCache.of_lookup_cleanup hlookup)
  rw [hentry, ValidatedRawBlock.matchesSegment, ValidatedRawBlock.fromSegmentZero] at hmatch
  obtain ⟨hcount, hlen, hdigest⟩ := of_decide_eq_true hmatch
  exact ⟨src, z, zero, hmem, hzero, hhash, hcount, hlen, hdigest⟩

theorem Waiting.of_nil (h : w.outgoing = []) : Waiting w := by
  intro src ready hready
  rw [h] at hready
  cases hready

theorem Waiting.of_lookup (h : Waiting w) (houtgoing : w'.outgoing ⊆ w.outgoing)
    (hsessions : ∀ src session, w'.sessions.lookup src = some session →
      w.sessions.lookup src = some session) : Waiting w' :=
  fun src ready hready session hlookup =>
    h src ready (houtgoing hready) session (hsessions src session hlookup)

/-! ## Sessions as the journal grows -/

theorem admission_append_of_ne (journal : List Entry) :
    ∀ {new : List Entry}, (∀ e ∈ new, ∀ key active, e ≠ .admitted src key active) →
      admission src (new ++ journal) = admission src journal
  | [], _ => rfl
  | e :: new, hnew => by
    have ih := admission_append_of_ne journal fun e' he' =>
      hnew e' (List.mem_cons_of_mem e he')
    cases e with
    | admitted src' key active =>
      rw [List.cons_append, admission, if_neg, ih]
      rintro rfl
      exact hnew _ List.mem_cons_self key active rfl
    | received src' key chunk time previous | promoted src' a
    | forwarded src' ready outbound => exact ih

/-- Entries that neither bind the source anew nor forward a slot that has not gone out change
nothing. -/
theorem SessionInv.append (h : SessionInv p journal src session) {new : List Entry}
    (hadmitted : ∀ e ∈ new, ∀ key active, e ≠ .admitted src key active)
    (hforwards : ∀ e ∈ new, ∀ k a (id : UInt16), session.pendingBlocks.lookup k = some a →
      a.sent id.toNat = false → ¬ e.Forwards src ⟨k, id⟩) :
    SessionInv p (new ++ journal) src session where
  named := h.named
  bound := by rw [admission_append_of_ne _ hadmitted]; exact h.bound
  slots := fun k a id data ha hdata => (h.slots k a id data ha hdata).append new
  passed := by
    intro k a ha hv
    obtain ⟨a', hmem, hrest⟩ := h.passed k a ha hv
    exact ⟨a', List.mem_append_right _ hmem, hrest⟩
  unsent := fun k a id data ha hdata hsent =>
    (h.unsent k a id data ha hdata hsent).append fun e he => hforwards e he k a id ha hsent

/-- Dropping assemblies changes nothing. -/
theorem SessionInv.of_lookup {session' : RelaySession} (h : SessionInv p journal src session)
    (hbinding : session'.binding = session.binding)
    (hsub : ∀ k a, session'.pendingBlocks.lookup k = some a → session.pendingBlocks.lookup k = some a) :
    SessionInv p journal src session' where
  named := fun k a ha => h.named k a (hsub k a ha)
  bound := by rw [hbinding]; exact h.bound
  slots := by rw [hbinding]; exact fun k a id data ha => h.slots k a id data (hsub k a ha)
  passed := fun k a ha => h.passed k a (hsub k a ha)
  unsent := fun k a id data ha => h.unsent k a id data (hsub k a ha)

/-- A session that was just made holds nothing. -/
theorem SessionInv.fresh {active : List AuthKey} (hkey : key ∈ active) (now : Nat) :
    SessionInv p (.admitted src key active :: journal) src
      (.newWithRole src key.id key.key key.role now) := by
  have hnone : ∀ k, (RelaySession.newWithRole src key.id key.key key.role now).pendingBlocks.lookup k
      = none := fun k => AList.lookup_empty k
  refine ⟨fun k a ha => ?_, ⟨active, ?_, hkey⟩, fun k a id data ha => ?_, fun k a ha => ?_,
    fun k a id data ha => ?_⟩
  · rw [hnone] at ha; cases ha
  · rw [admission, if_pos rfl]; rfl
  · rw [hnone] at ha; cases ha
  · rw [hnone] at ha; cases ha
  · rw [hnone] at ha; cases ha

/-! ## A packet -/

theorem Vouched.append (h : Vouched p config journal src ready) {new : List Entry}
    (hforwards : ∀ e ∈ new, ∀ c ∈ ready.chunks, ¬ e.Forwards src ⟨ready.blockHash, c.1⟩) :
    Vouched p config (new ++ journal) src ready where
  arrived := by
    intro c hc
    obtain ⟨key, hrole, harrived⟩ := h.arrived c hc
    exact ⟨key, hrole, harrived.append new⟩
  letThrough := by
    obtain ⟨a, hmem, hhash, hmsg, hpass⟩ := h.letThrough
    exact ⟨a, List.mem_append_right _ hmem, hhash, hmsg, hpass.mono fun _ hk => hk.append new⟩
  mayForward := fun c hc => (h.mayForward c hc).append fun e he => hforwards e he c hc

/-- **What a step has to show** of the entries it adds, the sessions and the objects that wait; the
rest of the invariant only grows with the journal. -/
theorem ForwardInv.grow (hw : ForwardInv p config w) (new : List Entry)
    (hjournal : w'.journal = new ++ w.journal) (hconfig : w'.config = w.config)
    (hsessions : ∀ src session, w'.sessions.lookup src = some session →
      SessionInv p (new ++ w.journal) src session)
    (hpromoted : ∀ src a, Entry.promoted src a ∈ new →
      Passes p config (Announced p config (new ++ w.journal)) a)
    (hcache : CacheInv p config (new ++ w.journal) w'.validatedRawBlocks)
    (hqueued : ∀ src ready, (src, ready) ∈ w'.outgoing →
      Vouched p config (new ++ w.journal) src ready) (hwaiting : Waiting w')
    (hdistinct : (w'.outgoing.map fun o => (o.1, o.2.blockHash)).Nodup)
    (hsound : Backed (Entry.Sound p config) (new ++ w.journal)) : ForwardInv p config w' := by
  refine ⟨hconfig.trans hw.configured, ?_, ?_, ?_, ?_, hwaiting, hdistinct, ?_⟩
  · rw [hjournal]; exact hsessions
  · rw [hjournal]
    intro src a hmem
    rcases List.mem_append.mp hmem with hmem | hmem
    · exact hpromoted src a hmem
    · exact (hw.promoted src a hmem).mono fun _ hk => hk.append new
  · rw [hjournal]; exact hcache
  · rw [hjournal]; exact hqueued
  · rw [hjournal]; exact hsound

/-- A step that adds nothing to the journal and keeps of each session at most what it had. -/
theorem ForwardInv.of_sessions (hw : ForwardInv p config w) (hjournal : w'.journal = w.journal)
    (hconfig : w'.config = w.config) (houtgoing : w'.outgoing = w.outgoing)
    (hcache : ∀ h entry, w'.validatedRawBlocks.lookup h = some entry →
      w.validatedRawBlocks.lookup h = some entry) (hwaiting : Waiting w')
    (hsessions : ∀ src session, w'.sessions.lookup src = some session →
      SessionInv p w.journal src session) : ForwardInv p config w' := by
  refine hw.grow [] hjournal hconfig hsessions (fun _ _ h => absurd h (by simp))
    (fun h entry hk => hw.cache h entry (hcache h entry hk)) ?_ hwaiting ?_ hw.sound
  · rw [houtgoing]; exact hw.queued
  · rw [houtgoing]; exact hw.distinct

/-- What is known once a packet has its session. -/
structure Greeted (p : Primitives) (config : RelayConfig) (w : World) (src : SocketAddr)
    (verify : Bytes32 → Bool) (w₁ : World) (session : RelaySession) : Prop where
  inv : ForwardInv p config w₁
  sender : SessionInv p w₁.journal src session
  verified : verify session.authKey = true
  outgoing : w₁.outgoing = w.outgoing

theorem Greeted.of_authenticated (hauth : config.authRequired = true) {w₁ : World}
    {verify : Bytes32 → Bool} (hw : ForwardInv p config w)
    (h : World.Authenticated w src verify w₁ session) :
    Greeted p config w src verify w₁ session := by
  rw [← hw.configured] at hauth
  cases h with
  | known hlookup hverify =>
    exact ⟨hw, (hw.sessions _ _ hlookup).of_lookup rfl fun _ _ ha => ha, hverify hauth, rfl⟩
  | unkeyed _ hopen => exact absurd (hauth.symm.trans hopen) (by simp)
  | @keyed key hlookup _ hkey hverify =>
    refine ⟨?_, .fresh hkey _, hverify, rfl⟩
    have hforwards : ∀ e ∈ [Entry.admitted src key w.activeKeys], ∀ src' k,
        ¬ e.Forwards src' k := by
      intro e he src' k hf
      rw [List.mem_singleton.mp he] at hf
      exact hf
    refine hw.grow [.admitted src key w.activeKeys] rfl rfl ?_ ?_
      (hw.cache.append _) ?_ (hw.waiting.of_lookup (fun _ h => h) fun _ _ h => h) hw.distinct ⟨trivial, hw.sound⟩
    · intro src' session' hlookup'
      -- the source has no session yet, so this is another one
      refine (hw.sessions src' session' hlookup').append ?_ fun e he _ _ _ _ _ => hforwards e he src' _
      intro e he key' active' heq
      rw [List.mem_singleton.mp he] at heq
      injection heq with heq
      rw [heq] at hlookup
      exact absurd (hlookup.symm.trans hlookup') (by simp)
    · exact fun _ _ h => absurd h (by simp)
    · exact fun src' ready hready =>
        (hw.queued src' ready hready).append fun e he c _ => hforwards e he src' _

theorem mem_promotions {before after : Table Bytes32 BlockAssembly} {a : BlockAssembly} :
    a ∈ promotions before after ↔ ∃ h, after.lookup h = some a ∧ a.powValidated = true ∧
      ∀ a₀, before.lookup h = some a₀ → a₀.powValidated = false := by
  unfold promotions
  rw [List.mem_filterMap]
  constructor
  · rintro ⟨⟨h, a'⟩, hmem, hcase⟩
    obtain ⟨hnew, rfl⟩ := of_guard hcase
    refine ⟨h, Table.mem_entries.mp hmem, hnew.1, fun a₀ h₀ => ?_⟩
    have hall := hnew.2
    rw [h₀] at hall
    simpa using hall
  · rintro ⟨h, hlookup, hv, hold⟩
    refine ⟨⟨h, a⟩, Table.mem_entries.mpr hlookup, if_pos ⟨hv, ?_⟩⟩
    cases h₀ : before.lookup h with
    | none => rfl
    | some a₀ => simp [hold a₀ h₀]

/-! ## A chunk -/

section Deliver

variable {chunk : Chunk} {r : Processed}

/-- The entries a chunk adds. -/
def arrivals (w : World) (src : SocketAddr) (session : RelaySession) (chunk : Chunk)
    (r : Processed) : List Entry :=
  (promotions session.pendingBlocks r.session.pendingBlocks).map (.promoted src)
    ++ [.received src session.binding chunk w.clock (session.recent.seen.lookup chunk.key)]

theorem mem_arrivals {e : Entry} (h : e ∈ arrivals w src session chunk r) :
    (∃ a ∈ promotions session.pendingBlocks r.session.pendingBlocks, e = .promoted src a) ∨
      e = .received src session.binding chunk w.clock (session.recent.seen.lookup chunk.key) := by
  rcases List.mem_append.mp h with h | h
  · obtain ⟨a, ha, heq⟩ := List.mem_map.mp h
    exact Or.inl ⟨a, ha, heq.symm⟩
  · exact Or.inr (List.mem_singleton.mp h)

theorem not_admitted_of_mem_arrivals :
    ∀ e ∈ arrivals w src session chunk r, ∀ src' key active, e ≠ .admitted src' key active := by
  intro e he src' key active heq
  rcases mem_arrivals he with ⟨a, -, rfl⟩ | rfl <;> cases heq

theorem not_forwards_of_mem_arrivals :
    ∀ e ∈ arrivals w src session chunk r, ∀ src' k, ¬ e.Forwards src' k := by
  intro e he src' k hf
  rcases mem_arrivals he with ⟨a, -, rfl⟩ | rfl <;> exact hf

variable {known : RawBlockSegment → Prop} {h : Bytes32} {a : BlockAssembly}

theorem Ingested.cacheInv (hw : CacheInv p config w.journal w.validatedRawBlocks)
    {stored : ChunkKey → List UInt8 → Prop}
    (hr : Ingested p config w.clock w.validatedRawBlocks stored session h r) :
    CacheInv p config (arrivals w src session chunk r ++ w.journal) r.cache := by
  intro k entry hk
  rcases hr.gained k entry hk with hold | ⟨a, hlookup, hv, ⟨zero, hzero, hhash, hentry⟩, hnew⟩
  · exact hw.append _ k entry hold
  · refine ⟨src, a, zero, List.mem_append_left _ (List.mem_append_left _ ?_), hzero, hhash.symm, ?_⟩
    · exact List.mem_map_of_mem (mem_promotions.mpr ⟨h, hlookup, hv, hnew⟩)
    · rw [hentry]; rfl

variable (hs : SessionInv p w.journal src session)

include hs

section

variable (ho : Origin p config known (Stored session chunk w.clock) session.pendingBlocks h a)
  {id : UInt16}

include ho

/-- A filled slot arrived from the source: it did before, or it is the one of this chunk. -/
theorem Origin.arrived (hverify : verifyDataChunkHmac p session.authKey chunk = true)
    (hdata : a.chunk id.toNat = some data) :
    Arrived p (arrivals w src session chunk r ++ w.journal) src ⟨h, id⟩ data session.binding := by
  rcases ho.slot id data hdata with ⟨a₀, h₀, hslot, -⟩ | ⟨hkey, hpayload, -⟩
  · exact (hs.slots h a₀ id data h₀ hslot).append _
  · obtain ⟨active, hadmission, hactive⟩ := hs.bound
    exact ⟨_, chunk, w.clock, _, w.journal, active, List.append_assoc .., hkey.symm, hpayload.symm,
      hverify, hadmission, hactive⟩

/-- A slot that has not gone out may: it could before, or it was just filled by a chunk the
session did not remember. -/
theorem Origin.mayForward (hdata : a.chunk id.toNat = some data) (hsent : a.sent id.toNat = false) :
    MayForward src ⟨h, id⟩ (arrivals w src session chunk r ++ w.journal) := by
  rcases ho.slot id data hdata with ⟨a₀, h₀, hslot, hgone⟩ | ⟨hkey, -, hfresh⟩
  · have hsent₀ : a₀.sent id.toNat = false := by
      cases hs₀ : a₀.sent id.toNat with
      | false => rfl
      | true => exact absurd ((hgone hs₀).symm.trans hsent) (by simp)
    refine (hs.unsent h a₀ id data h₀ hslot hsent₀).append fun e he => ?_
    exact not_forwards_of_mem_arrivals e he src _
  · have hold := (Replay.mark_fst _ _ _ _ _).mp hfresh
    have hrenewed : MayForward src ⟨h, id⟩ (.received src session.binding chunk w.clock
        (session.recent.seen.lookup chunk.key) :: w.journal) :=
      Or.inl ⟨rfl, hkey.symm, hold⟩
    rw [arrivals, List.append_assoc]
    refine hrenewed.append fun e he => ?_
    obtain ⟨a', -, rfl⟩ := List.mem_map.mp he
    exact not_false

/-- An assembly that is let through was before, or is now. -/
theorem Origin.passed (hlookup : r.session.pendingBlocks.lookup h = some a)
    (hv : a.powValidated = true) :
    ∃ a', Entry.promoted src a' ∈ arrivals w src session chunk r ++ w.journal ∧
      a'.blockHash = h ∧ a'.msgType = a.msgType := by
  by_cases hnew : ∀ a₀, session.pendingBlocks.lookup h = some a₀ → a₀.powValidated = false
  · refine ⟨a, List.mem_append_left _ (List.mem_append_left _ ?_), ho.blockHash, rfl⟩
    exact List.mem_map_of_mem (mem_promotions.mpr ⟨h, hlookup, hv, hnew⟩)
  · rw [not_forall] at hnew
    obtain ⟨a₀, hnew⟩ := hnew
    rw [Classical.not_imp, Bool.not_eq_false] at hnew
    obtain ⟨a', hmem, hhash, hmsg⟩ := hs.passed h a₀ hnew.1 hnew.2
    exact ⟨a', List.mem_append_right _ hmem, hhash, hmsg.trans (ho.msgType a₀ hnew.1)⟩

end

variable (hverify : verifyDataChunkHmac p session.authKey chunk = true)

include hverify

/-- The session after a chunk. -/
theorem Ingested.sessionInv
    (hr : Ingested p config w.clock w.validatedRawBlocks (Stored session chunk w.clock) session h r) :
    SessionInv p (arrivals w src session chunk r ++ w.journal) src r.session where
  named := fun k a ha => (hr.origins k a ha).blockHash
  bound := by
    rw [hr.session.binding, admission_append_of_ne _ fun e he => not_admitted_of_mem_arrivals e he src]
    exact hs.bound
  slots := by
    intro k a id data ha hdata
    rw [hr.session.binding]
    exact (hr.origins k a ha).arrived hs hverify hdata
  passed := fun k a ha hv => (hr.origins k a ha).passed hs ha hv
  unsent := fun k a id data ha hdata hsent => (hr.origins k a ha).mayForward hs hdata hsent

/-- What is handed out is vouched for if the session may send. -/
theorem Ingested.vouched
    (hr : Ingested p config w.clock w.validatedRawBlocks (Stored session chunk w.clock) session h r)
    (hpromoted : ∀ src' a, Entry.promoted src' a ∈ arrivals w src session chunk r ++ w.journal →
      Passes p config (Announced p config (arrivals w src session chunk r ++ w.journal)) a)
    (hrole : session.role = .full) (hready : ready ∈ r.ready) :
    Vouched p config (arrivals w src session chunk r ++ w.journal) src ready := by
  obtain ⟨a, ho, hv, hmsg, hchunks, hlookup⟩ := hr.ready ready hready
  refine ⟨fun c hc => ⟨session.binding, hrole, ?_⟩, ?_, fun c hc => ?_⟩
  · rw [hchunks] at hc
    exact ho.arrived hs hverify (BlockAssembly.mem_unforwarded.mp hc).2
  · obtain ⟨a', hmem, hhash, hmsg'⟩ := ho.markForwarded.passed hs hlookup hv
    exact ⟨a', hmem, hhash, hmsg'.trans hmsg.symm, hpromoted src a' hmem⟩
  · rw [hchunks] at hc
    obtain ⟨hsent, hdata⟩ := BlockAssembly.mem_unforwarded.mp hc
    exact ho.mayForward hs hdata hsent

/-- **A chunk keeps the invariant.** -/
theorem ForwardInv.deliver (hw : ForwardInv p config w)
    (isData : chunk.header.msgType.isData = true) :
    ForwardInv p config (w.deliver p src session chunk isData) := by
  have hr : Ingested p w.config w.clock w.validatedRawBlocks (Stored session chunk w.clock) session
      chunk.header.blockHash (processChunkForSession p w.config w.clock w.validatedRawBlocks session
        chunk isData) := processChunkForSession_spec _ isData hs.named
  unfold World.deliver
  generalize processChunkForSession p w.config w.clock w.validatedRawBlocks session chunk isData
    = r at hr ⊢
  rw [hw.configured] at hr
  have hcache : CacheInv p config (arrivals w src session chunk r ++ w.journal) r.cache :=
    hr.cacheInv hw.cache
  have hpromoted : ∀ src' a, Entry.promoted src' a ∈ arrivals w src session chunk r →
      Passes p config (Announced p config (arrivals w src session chunk r ++ w.journal)) a := by
    intro src' a hmem
    rcases mem_arrivals hmem with ⟨a', ha', heq⟩ | heq
    · injection heq with _ heq
      subst heq
      obtain ⟨k, hlookup, hv, hnew⟩ := mem_promotions.mp ha'
      rcases (hr.origins k a hlookup).validated hv with ⟨a₀, h₀, hv₀⟩ | hpass
      · exact absurd ((hnew a₀ h₀).symm.trans hv₀) (by simp)
      · exact hpass.mono fun _ hk => Announced.of_known hcache hk
    · cases heq
  refine hw.grow (arrivals w src session chunk r) ?_ rfl ?_ hpromoted hcache ?_ ?_ ?_ ?_
  · rw [arrivals, List.append_assoc]
    rfl
  · intro src' session' hlookup
    rcases Table.of_lookup_insert hlookup with ⟨rfl, rfl⟩ | hlookup
    · exact hr.sessionInv hs hverify
    · exact (hw.sessions src' session' hlookup).append
        (fun e he => not_admitted_of_mem_arrivals e he src')
        (fun e he _ _ _ _ _ => not_forwards_of_mem_arrivals e he src' _)
  · intro src' ready hready
    split at hready
    · cases hready
    · rename_i hrole
      obtain ⟨ready', hready', heq⟩ := List.mem_map.mp hready
      injection heq with h₁ h₂
      subst h₁ h₂
      refine hr.vouched hs hverify ?_ ?_ hready'
      · intro src' a hmem
        rcases List.mem_append.mp hmem with hmem | hmem
        · exact hpromoted src' a hmem
        · exact (hw.promoted src' a hmem).mono fun _ hk => hk.append _
      · cases hfull : session.role with
        | full => rfl
        | receiveOnly => exact absurd hfull hrole
  · intro src' ready hready session' hlookup a ha c hc
    split at hready
    · cases hready
    · obtain ⟨ready', hready', heq⟩ := List.mem_map.mp hready
      injection heq with h₁ h₂
      subst h₁ h₂
      rw [AList.lookup_insert] at hlookup
      injection hlookup with hlookup
      obtain ⟨a₀, -, -, -, hchunks, hmarked⟩ := hr.ready ready' hready'
      rw [← hlookup, hmarked] at ha
      injection ha with ha
      rw [hchunks] at hc
      rw [← ha, BlockAssembly.sent_markForwarded, (BlockAssembly.mem_unforwarded.mp hc).2]
      exact Bool.or_true _
  · dsimp only
    split
    · exact List.nodup_nil
    · rw [List.map_map]
      refine List.Nodup.of_map Prod.snd ?_
      rw [List.map_map]
      exact hr.nodup
  · refine hw.sound.append fun e he before => ?_
    rcases mem_arrivals he with ⟨a, -, rfl⟩ | rfl <;> trivial

end Deliver

/-! ## The other steps -/

theorem ForwardInv.handled (hauth : config.authRequired = true) (hw : ForwardInv p config w)
    (hidle : w.outgoing = []) (h : World.Handled p w src w') : ForwardInv p config w' := by
  cases h with
  | kept hknown =>
    have hg := Greeted.of_authenticated hauth hw hknown
    refine hg.inv.of_sessions rfl rfl rfl (fun _ _ hk => hk)
      (.of_nil (hg.outgoing.trans hidle)) fun src' session' hlookup => ?_
    rcases Table.of_lookup_insert hlookup with ⟨rfl, rfl⟩ | hlookup
    · exact hg.sender
    · exact hg.inv.sessions src' session' hlookup
  | delivered isData hknown =>
    have hg := Greeted.of_authenticated hauth hw hknown
    exact hg.inv.deliver hg.sender hg.verified isData

/-- The object at the head goes out; none of those behind it is the same. -/
theorem ForwardInv.forward {rest : List (SocketAddr × ReadyChunks)}
    (hw : ForwardInv p config w) (houtgoing : w.outgoing = (src, ready) :: rest) :
    ForwardInv p config ({ w with outgoing := rest }.log
      (.forwarded src ready (outboundTo p w.sessions src ready))) := by
  have hvouched := hw.queued src ready (houtgoing ▸ List.mem_cons_self)
  have hdistinct := hw.distinct
  rw [houtgoing, List.map_cons, List.nodup_cons] at hdistinct
  refine hw.grow [.forwarded src ready (outboundTo p w.sessions src ready)] rfl rfl ?_ ?_
    (hw.cache.append _) ?_ ?_ hdistinct.2 ⟨⟨hvouched, w.sessions, rfl⟩, hw.sound⟩
  · intro src' session hlookup
    refine (hw.sessions src' session hlookup).append ?_ ?_
    · intro e he key active heq
      rw [List.mem_singleton.mp he] at heq
      cases heq
    · -- a slot that is forwarded here counted as gone out while the object waited
      intro e he k a id ha hsent hf
      rw [List.mem_singleton.mp he] at hf
      obtain ⟨hsrc, hhash, hid⟩ := hf
      obtain ⟨c, hc, hcid⟩ := List.mem_map.mp hid
      have hgone := hw.waiting src ready (houtgoing ▸ List.mem_cons_self) session
        (hsrc ▸ hlookup) a (hhash ▸ ha) c hc
      rw [hcid] at hgone
      exact absurd (hgone.symm.trans hsent) (by simp)
  · exact fun _ _ h => absurd h (by simp)
  · intro src' ready' hready
    refine (hw.queued src' ready' (houtgoing ▸ List.mem_cons_of_mem _ hready)).append ?_
    intro e he c _ hf
    rw [List.mem_singleton.mp he] at hf
    refine hdistinct.1 (List.mem_map.mpr ⟨(src', ready'), hready, ?_⟩)
    rw [hf.1, hf.2.1]
  · refine hw.waiting.of_lookup (fun o ho => ?_) fun _ _ h => h
    rw [houtgoing]
    exact List.mem_cons_of_mem _ ho

theorem ForwardInv.start (h : World.Start p config w) : ForwardInv p config w := by
  rw [h.eq]
  refine ⟨rfl, fun src session hlookup => ?_, fun _ _ hmem => absurd hmem (by simp),
    fun k entry hk => ?_, fun _ _ hready => absurd hready (by simp), .of_nil rfl, List.nodup_nil,
    trivial⟩
  · exact absurd ((AList.lookup_empty src).symm.trans hlookup) (by simp)
  · exact absurd ((AList.lookup_empty k).symm.trans hk) (by simp)

theorem ForwardInv.step (hauth : config.authRequired = true) {e : Event}
    (hw : ForwardInv p config w) (h : World.Step p w e w') : ForwardInv p config w' := by
  cases h with
  | elapse duration | swapKeys _ =>
    exact hw.of_sessions rfl rfl rfl (fun _ _ hk => hk)
      (hw.waiting.of_lookup (fun _ ho => ho) fun _ _ hs => hs) hw.sessions
  | refused => exact hw
  | packet hidle hhandled => exact hw.handled hauth hidle hhandled
  | forward houtgoing => exact hw.forward houtgoing
  | @evict _ keys _ =>
    have hkept : ∀ src session, (w.evictSessionsNotIn keys).sessions.lookup src = some session →
        w.sessions.lookup src = some session :=
      fun src session hlookup => (Table.of_lookup_retain hlookup).1
    exact hw.of_sessions rfl rfl rfl (fun _ _ hk => hk)
      (hw.waiting.of_lookup (fun _ ho => ho) hkept)
      fun src session hlookup => hw.sessions src session (hkept src session hlookup)
  | cleanup hidle =>
    refine hw.of_sessions rfl rfl rfl (fun _ _ hk => ValidatedCache.of_lookup_cleanup hk)
      (.of_nil hidle) fun src session hlookup => ?_
    obtain ⟨session₀, hlookup₀, hcase⟩ := Table.of_lookup_pass hlookup
    obtain ⟨-, rfl⟩ := of_guard_not hcase
    exact (hw.sessions src session₀ hlookup₀).of_lookup rfl
      fun k a ha => (Table.of_lookup_retain ha).1

theorem forwardInv_reach (hauth : config.authRequired = true)
    (h : Reach (World.next p) Any (World.Start p config) w) : ForwardInv p config w :=
  h.invariant (fun _ hs => .start hs) fun _ _ _ hw _ hnext => hw.step hauth (.of_next hnext)

theorem mem_outboundTo {sessions : Table SocketAddr RelaySession} {peer : SocketAddr}
    {datagrams : List (List UInt8)}
    (h : (peer, datagrams) ∈ outboundTo p sessions src ready) :
    peer ≠ src ∧ ∃ session, sessions.lookup peer = some session ∧
      datagrams = ready.chunks.map (datagram p session.authKey ready) := by
  obtain ⟨h, -⟩ := List.mem_filter.mp h
  obtain ⟨e, he, heq⟩ := List.mem_map.mp h
  obtain ⟨hmem, hne⟩ := List.mem_filter.mp he
  injection heq with h₁ h₂
  subst h₁ h₂
  exact ⟨of_decide_eq_true hne, e.2, Table.mem_entries.mp hmem, rfl⟩

/-- **What goes out.** In every run of a node that requires authentication, whatever packets,
changes of keys and cleanups there are, a datagram that is sent goes to another address than the
sender's and carries a chunk of which the following was true before. Its payload arrived as that
chunk of that object, with an HMAC that verified under a `Full` key that was active when the
session of the sender was made. Its object was let through: its header or that of its segment zero
had a valid proof of work. And if the chunk went out before, then since that it came anew at a time
when the session had no entry for it any more or only one older than `RECENT_CHUNK_TTL`. -/
theorem forwarded_chunks_vouched (hauth : config.authRequired = true) {w : World}
    (hw : Reach (World.next p) Any (World.Start p config) w) {later earlier : List Entry}
    {src : SocketAddr} {ready : ReadyChunks} {outbound : List (SocketAddr × List (List UInt8))}
    (hjournal : w.journal = later ++ .forwarded src ready outbound :: earlier)
    {peer : SocketAddr} {datagrams : List (List UInt8)} (hpeer : (peer, datagrams) ∈ outbound)
    {sent : List UInt8} (hsent : sent ∈ datagrams) :
    peer ≠ src ∧ ∃ c ∈ ready.chunks, ∃ authKey, sent = datagram p authKey ready c ∧
      (∃ key, key.role = .full ∧ Arrived p earlier src ⟨ready.blockHash, c.1⟩ c.2 key) ∧
      LetThrough p config earlier src ready.blockHash ready.msgType ∧
      ∀ mid older e, earlier = mid ++ e :: older → e.Forwards src ⟨ready.blockHash, c.1⟩ →
        ∃ e' ∈ mid, e'.Renews src ⟨ready.blockHash, c.1⟩ := by
  have hinv := forwardInv_reach hauth hw
  have hsound := hinv.sound
  rw [hjournal] at hsound
  obtain ⟨hvouched, sessions, rfl⟩ := hsound.holds
  obtain ⟨hne, session, -, rfl⟩ := mem_outboundTo hpeer
  obtain ⟨c, hc, rfl⟩ := List.mem_map.mp hsent
  refine ⟨hne, c, hc, session.authKey, rfl, hvouched.arrived c hc, hvouched.letThrough, ?_⟩
  intro mid older e hmid hforwards
  have hmay := hvouched.mayForward c hc
  rw [hmid] at hmay
  refine Renewed.between hforwards ?_ hmay
  -- what forwards a chunk is not an arrival
  intro hrenews
  cases e with
  | admitted | received | promoted => exact hforwards
  | forwarded => exact hrenews

/-! ## A chunk that goes out twice -/

def fleetKey : AuthKey := ⟨"fleet", toBytes32 (List.replicate 32 0x42), .full⟩

def peerKey : AuthKey := ⟨"peer", toBytes32 (List.replicate 32 0x43), .full⟩

def fleetAddr : SocketAddr := ⟨[127, 0, 0, 1], 1001⟩

def peerAddr : SocketAddr := ⟨[127, 0, 0, 1], 1002⟩

/-- A header that the validator below accepts, with its object id. -/
def shortHeader : List UInt8 := [4, 0, 0, 0]

def shortHeaderHash : Bytes32 :=
  toBytes32 [0xad, 0x40, 0xb4, 0xf0, 0x89, 0x54, 0x7d, 0x4d, 0xc7, 0xd6, 0x78, 0x16, 0x8a, 0x17,
    0x51, 0xe2, 0x59, 0x46, 0x1c, 0xc8, 0xfe, 0x72, 0x4d, 0xa0, 0x3b, 0x27, 0xef, 0x1f, 0x97,
    0x3d, 0x72, 0x81]

/-- The compact block of that header, without transactions, as the chunker writes it. -/
def shortCompact : List UInt8 :=
  [24, 0, 0, 0] ++ [4, 0, 0, 0] ++ shortHeader ++ List.replicate 16 0

/-- What the HMAC of its first chunk and that of a keepalive cover. -/
def shortChunkMessage : List UInt8 :=
  shortHeaderHash.toList ++ [0, 0, 0, 2, 0, 28] ++ shortCompact

def keepaliveMessage : List UInt8 := List.replicate 38 0

def shortChunkMac : Bytes32 :=
  toBytes32 [0xa9, 0x3a, 0x4a, 0xbf, 0xb4, 0xf7, 0x81, 0xa2, 0xbe, 0x7f, 0xfb, 0xd9, 0x72, 0x16,
    0xbe, 0x97, 0x2b, 0x74, 0x5d, 0x7b, 0xe4, 0x9a, 0x60, 0xe3, 0xeb, 0xd8, 0x2d, 0x02, 0x30,
    0x92, 0x2e, 0x5a]

def peerKeepaliveMac : Bytes32 :=
  toBytes32 [0x7b, 0xd3, 0xda, 0x16, 0x11, 0x63, 0x53, 0x27, 0x74, 0x68, 0xd6, 0x0a, 0xea, 0x7e,
    0x92, 0x31, 0x87, 0x24, 0xd5, 0x7a, 0x2a, 0x1f, 0x4b, 0xc8, 0x6b, 0xc7, 0x86, 0x9d, 0x21,
    0xbb, 0x82, 0xe5]

def peerShortChunkMac : Bytes32 :=
  toBytes32 [0xa9, 0xd5, 0x7a, 0x06, 0x9b, 0xa4, 0x58, 0xff, 0x1c, 0xda, 0xe4, 0xe3, 0x4e, 0xf8,
    0xea, 0xa2, 0x77, 0x15, 0x2c, 0x8e, 0x66, 0xaa, 0x3d, 0xe2, 0x68, 0xdc, 0x63, 0x31, 0x34,
    0xc2, 0x70, 0xa8]

/-- One data and one parity shard, of which the parity shard is a copy, and a validator that looks
at the first bytes. -/
def shortPrimitives : Primitives where
  hashes := .ofTables [] [((blockHashPersonalization, shortHeader), shortHeaderHash)]
  hmacSha256 key message :=
    ([((fleetKey.key, shortChunkMessage), shortChunkMac),
      ((peerKey.key, keepaliveMessage), peerKeepaliveMac),
      ((peerKey.key, shortChunkMessage), peerShortChunkMac)].lookup (key, message)).getD fun _ => 0
  reedSolomon _ _ := .ok fun shards =>
    .ok (shards.map fun shard => shard.or (shards.filterMap id).head?)
  validate header := if shortHeader.isPrefixOf header then .valid else .invalid

/-- The defaults of the timeouts and the limits. -/
def shortConfig : RelayConfig where
  listenAddr := ⟨[0, 0, 0, 0], 8333⟩
  dataShards := 1
  parityShards := 1
  chunkSize := maxPayloadSize
  sessionTimeout := 300000
  assemblyTimeout := 30000
  authorizedKeys := [fleetKey, peerKey]
  allowUnauthenticatedPeers := false
  maxSessions := 4096
  forwardBurstPackets := 0
  forwardBurstDelay := 0

def keepalivePacket (mac : Bytes32) : List UInt8 :=
  Chunk.toBytes ⟨.newAuthenticated .keepalive (fun _ => 0) 0 0 0 mac, []⟩

def shortChunkPacket : List UInt8 :=
  Chunk.toBytes ⟨.newBlockAuthenticated shortHeaderHash 0 2 28 shortChunkMac, shortCompact⟩

def shortStart : World := ⟨shortConfig, 0, [fleetKey, peerKey], ∅, ∅, [], ∅, []⟩

theorem start_shortStart : World.Start shortPrimitives shortConfig shortStart := rfl

/-- A peer is there, and a chunk comes that completes its object and goes out. -/
def shortRun : List Event :=
  [.packet (keepalivePacket peerKeepaliveMac) peerAddr true,
    .packet shortChunkPacket fleetAddr true, .forward]

/-- Was something sent last? -/
def justSent (w : World) : Bool :=
  match w.journal with
  | .forwarded _ _ ((_, _ :: _) :: _) :: _ => true
  | _ => false

theorem short_chunk_vouched :
    ∃ w, Reach (World.next shortPrimitives) Any (World.Start shortPrimitives shortConfig) w ∧
      ∃ src ready outbound earlier, w.journal = [] ++ .forwarded src ready outbound :: earlier ∧
        ∃ peer datagrams sent, (peer, datagrams) ∈ outbound ∧ sent ∈ datagrams ∧ peer ≠ src ∧
          ∃ c ∈ ready.chunks, ∃ key, key.role = .full ∧
            Arrived shortPrimitives earlier src ⟨ready.blockHash, c.1⟩ c.2 key := by
  have hrun : (exec (World.next shortPrimitives) (fun _ _ => true) shortStart shortRun).any
      justSent = true := by decide +kernel
  obtain ⟨w, hw, htest⟩ := Reach.any_of_exec _ start_shortStart _ hrun
  unfold justSent at htest
  split at htest
  · rename_i src ready peer sent rest others earlier hjournal
    have hsplit : w.journal = [] ++ .forwarded src ready _ :: earlier := hjournal
    have h := forwarded_chunks_vouched rfl hw hsplit List.mem_cons_self List.mem_cons_self
    obtain ⟨hne, c, hc, -, -, ⟨key, hrole, harrived⟩, -⟩ := h
    exact ⟨w, hw, src, ready, _, earlier, hjournal, peer, _, sent, List.mem_cons_self,
      List.mem_cons_self, hne, c, hc, key, hrole, harrived⟩
  · cases htest

/-- Was a chunk forwarded that came anew while it still had an entry, having been forwarded before
that? -/
def forwardedAgain (w : World) : Bool :=
  match w.journal with
  | .forwarded src ready _ :: .promoted _ _ :: .received src₁ _ chunk _ (some _)
      :: .forwarded src₂ ready₂ _ :: _ =>
      src₁ = src ∧ src₂ = src ∧ ready₂.blockHash = ready.blockHash ∧
        chunk.header.blockHash = ready.blockHash ∧
        chunk.header.chunkId ∈ ready.chunks.map Prod.fst ∧
        chunk.header.chunkId ∈ ready₂.chunks.map Prod.fst
  | _ => false

/-- The chunk went out, and its assembly was cleaned up. Then it came again, the session still had
its entry, and it went out again: the entry was one second too old and no cleanup had come by. -/
theorem chunk_forwarded_again :
    ∃ w, Reach (World.next shortPrimitives) Any (World.Start shortPrimitives shortConfig) w ∧
      ∃ src k e mid e' older, w.journal = e :: (mid ++ e' :: older) ∧
        e.Forwards src k ∧ e'.Forwards src k ∧
        (∀ key active, Entry.admitted src key active ∉ mid) ∧
        (∀ key chunk time, Entry.received src key chunk time none ∉ mid) ∧
        ∃ key chunk time t, Entry.received src key chunk time (some t) ∈ mid ∧ chunk.key = k := by
  have hrun : (exec (World.next shortPrimitives) (fun _ _ => true) shortStart
      (shortRun ++ [.elapse 100000, .cleanup, .elapse 21000,
        .packet shortChunkPacket fleetAddr true, .forward])).any forwardedAgain = true := by
    decide +kernel
  obtain ⟨w, hw, htest⟩ := Reach.any_of_exec _ start_shortStart _ hrun
  refine ⟨w, hw, ?_⟩
  unfold forwardedAgain at htest
  split at htest
  · rename_i src ready outbound src₀ a src₁ key chunk time t src₂ ready₂ outbound₂ older hjournal
    obtain ⟨h₁, h₂, hsame, hhash, hid, hid₂⟩ := of_decide_eq_true htest
    rw [h₁] at hjournal
    exact ⟨src, chunk.key, _, [.promoted src₀ a, .received src key chunk time (some t)], _, older,
      hjournal, ⟨rfl, hhash.symm, hid⟩, ⟨h₂, hsame.trans hhash.symm, hid₂⟩, by simp, by simp,
      key, chunk, time, t, by simp, rfl⟩
  · cases htest

end MiningInfra.Relay
