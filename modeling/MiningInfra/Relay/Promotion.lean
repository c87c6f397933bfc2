import MiningInfra.Relay.Ingest

/-!
# How an object comes to be forwarded

`Passes` says why an assembly was let through: its header decoded and passed, or it is a later
segment of a block whose segment zero did. `Ingested` says once what processing a chunk does to a
session: where each filled slot comes from, why each assembly that is let through now was, what is
handed out, and what the cache gained. Nothing above this module looks into the processing again.
-/

namespace MiningInfra.Relay

open Lib Coinbase

section Spec

variable (p : Primitives) (config : RelayConfig)

/-- A segment zero under its own name whose header has a valid proof of work and hashes to the
block. -/
structure CarriesZero (a : BlockAssembly) (zero : RawBlockSegment) : Prop where
  msgType : a.msgType = .rawBlockSegment
  decoded : decodeRawSegmentFromAssembly p config a = some zero
  index : zero.segmentIndex = 0
  named : segmentObjectHash p.hashes zero.blockHash zero.segmentIndex = a.blockHash
  hash : zcashBlockHash p.hashes (zero.payload.take zcashFullHeaderSize) = zero.blockHash
  pow : p.validate (zero.payload.take zcashFullHeaderSize) = .valid

/-- Why an assembly is let through. `known` tells of which segments the segment zero is known. -/
inductive Passes (known : RawBlockSegment → Prop) (a : BlockAssembly) : Prop where
  | compact {header : List UInt8} : a.msgType ≠ .rawBlockSegment →
      decodeHeaderFromAssembly p config a = some header → p.validate header = .valid →
      Passes known a
  | zero {segment : RawBlockSegment} : CarriesZero p config a segment → Passes known a
  | later {segment : RawBlockSegment} : a.msgType = .rawBlockSegment →
      decodeRawSegmentFromAssembly p config a = some segment → segment.segmentIndex ≠ 0 →
      known segment → Passes known a

end Spec

variable {p : Primitives} {config : RelayConfig} {now : Nat}
  {known : RawBlockSegment → Prop} {a a' : BlockAssembly} {cache cache' : ValidatedCache}
  {s s' : RelaySession} {h : Bytes32} {r : ReadyChunks} {stored : ChunkKey → List UInt8 → Prop}
  {verdict : Option Bool}

theorem Passes.mono {known' : RawBlockSegment → Prop} (h : Passes p config known a)
    (himp : ∀ segment, known segment → known' segment) : Passes p config known' a := by
  cases h with
  | compact hmsg hheader hpow => exact .compact hmsg hheader hpow
  | zero hzero => exact .zero hzero
  | later hmsg hdecoded hindex hknown => exact .later hmsg hdecoded hindex (himp _ hknown)

/-! ## The flags of an assembly do not matter for decoding -/

/-- Equal but for the flags. -/
structure SameContent (a a' : BlockAssembly) : Prop where
  blockHash : a'.blockHash = a.blockHash
  msgType : a'.msgType = a.msgType
  dataShards : a'.dataShards = a.dataShards
  chunks : a'.chunks = a.chunks

namespace SameContent

theorem setPow (a : BlockAssembly) (b : Bool) : SameContent a { a with powValidated := b } :=
  ⟨rfl, rfl, rfl, rfl⟩

theorem markForwarded (a : BlockAssembly) : SameContent a a.markForwarded := ⟨rfl, rfl, rfl, rfl⟩

variable (hc : SameContent a a')

include hc

theorem chunk (idx : Nat) : a'.chunk idx = a.chunk idx := by
  rw [BlockAssembly.chunk, hc.chunks, BlockAssembly.chunk]

theorem decodeRaw :
    decodeRawSegmentFromAssembly p config a' = decodeRawSegmentFromAssembly p config a := by
  simp only [decodeRawSegmentFromAssembly, estimateOriginalLen, BlockAssembly.effectiveDataShards,
    hc.chunks, hc.dataShards]

theorem decodeHeader :
    decodeHeaderFromAssembly p config a' = decodeHeaderFromAssembly p config a := by
  simp only [decodeHeaderFromAssembly, estimateOriginalLen, BlockAssembly.effectiveDataShards,
    hc.chunks, hc.dataShards]

theorem carriesZero {zero : RawBlockSegment} (hz : CarriesZero p config a zero) :
    CarriesZero p config a' zero :=
  ⟨hc.msgType.trans hz.msgType, hc.decodeRaw.trans hz.decoded, hz.index,
    hz.named.trans hc.blockHash.symm, hz.hash, hz.pow⟩

theorem passes (hp : Passes p config known a) : Passes p config known a' := by
  cases hp with
  | compact hmsg hheader hpow =>
    exact .compact (hc.msgType ▸ hmsg) (hc.decodeHeader.trans hheader) hpow
  | zero hzero => exact .zero (hc.carriesZero hzero)
  | later hmsg hdecoded hindex hknown =>
    exact .later (hc.msgType.trans hmsg) (hc.decodeRaw.trans hdecoded) hindex hknown

end SameContent

/-! ## Judging -/

/-- Is the segment zero of this segment known to the cache? -/
def Known (now : Nat) (cache : ValidatedCache) (segment : RawBlockSegment) : Prop :=
  (cache.matchesSegmentZero now segment).1 = true

theorem Known.congr (h : ValidatedCache.Agree now cache cache') {segment : RawBlockSegment}
    (hk : Known now cache segment) : Known now cache' segment := by
  rw [Known, ValidatedCache.matchesSegmentZero] at hk ⊢
  rwa [← show cache.cleanup now = cache'.cleanup now from h]

/-- What the cache gained by an assembly. -/
structure Gained (p : Primitives) (config : RelayConfig) (now : Nat) (a : BlockAssembly)
    (h : Bytes32) (entry : ValidatedRawBlock) : Prop where
  carried : ∃ zero, CarriesZero p config a zero ∧ h = zero.blockHash ∧
    entry = .fromSegmentZero zero now

/-- An assembly found valid passes, and the cache gained at most a segment zero found valid. -/
structure Decided (p : Primitives) (config : RelayConfig) (now : Nat) (cache : ValidatedCache)
    (a : BlockAssembly) (verdict : Option Bool) (cache' : ValidatedCache) : Prop where
  passes : verdict = some true → Passes p config (Known now cache') a
  gained : ∀ k entry, cache'.lookup k = some entry →
    cache.lookup k = some entry ∨ verdict = some true ∧ Gained p config now a k entry
  /-- Only a segment zero changes more than what has expired. -/
  agree : ValidatedCache.Agree now cache' cache ∨ ∃ zero, CarriesZero p config a zero

theorem validateRawBlockSegment_spec (hmsg : a.msgType = .rawBlockSegment)
    (h : validateRawBlockSegment p config now cache a = (verdict, cache')) :
    Decided p config now cache a verdict cache' := by
  -- every branch but a match and a valid header leaves the cache alone
  have refused : ∀ {v : Option Bool}, v ≠ some true → (v, cache) = (verdict, cache') →
      Decided p config now cache a verdict cache' := by
    intro v hv heq
    injection heq with hverdict hcache
    subst hverdict hcache
    exact ⟨fun hf => absurd hf hv, fun _ _ hk => Or.inl hk, Or.inl rfl⟩
  unfold validateRawBlockSegment at h
  split at h
  · exact refused (by simp) h
  rename_i segment hdecoded
  split at h
  · exact refused (by simp) h
  rename_i hnamed
  split at h
  · rename_i hindex
    injection h with hv hc
    subst hv hc
    refine ⟨fun hmatch => .later hmsg hdecoded hindex ?_, fun _ _ hk => Or.inl ?_,
      Or.inl (.cleanup now cache)⟩
    · exact Known.congr (ValidatedCache.Agree.cleanup now cache).symm (Option.some.inj hmatch)
    · exact ValidatedCache.of_lookup_cleanup hk
  rename_i hindex
  split at h
  · exact refused (by simp) h
  dsimp only at h
  split at h
  · exact refused (by simp) h
  rename_i hhash
  split at h
  · rename_i hpow
    have hzero : CarriesZero p config a segment :=
      ⟨hmsg, hdecoded, not_not.mp hindex, not_not.mp hnamed, not_not.mp hhash, hpow⟩
    injection h with hv hc
    subst hv hc
    refine ⟨fun _ => .zero hzero, fun k entry hk => ?_, Or.inr ⟨segment, hzero⟩⟩
    rcases ValidatedCache.of_lookup_record hk with hold | ⟨hkey, hentry⟩
    · exact Or.inl hold
    · exact Or.inr ⟨rfl, ⟨segment, hzero, hkey, hentry⟩⟩
  · exact refused (by simp) h
  · exact refused (by simp) h

/-- Judging changes the verdict at most. An assembly judged valid passes, and the cache gained at
most a segment zero judged valid. -/
structure Judged (p : Primitives) (config : RelayConfig) (now : Nat) (cache : ValidatedCache)
    (a a' : BlockAssembly) (cache' : ValidatedCache) : Prop where
  flag : ∃ b, a' = { a with powValidated := b }
  passes : a'.powValidated = true → a.powValidated = true ∨ Passes p config (Known now cache') a'
  gained : ∀ k entry, cache'.lookup k = some entry → cache.lookup k = some entry ∨
    a.powValidated = false ∧ a'.powValidated = true ∧ Gained p config now a' k entry
  agree : ValidatedCache.Agree now cache' cache ∨ ∃ zero, CarriesZero p config a' zero

theorem Judged.refl (cache : ValidatedCache) (a : BlockAssembly) :
    Judged p config now cache a a cache :=
  ⟨⟨a.powValidated, rfl⟩, Or.inl, fun _ _ h => Or.inl h, Or.inl rfl⟩

theorem validateCompactBlockPow_true (hmsg : a.msgType ≠ .rawBlockSegment)
    (h : validateCompactBlockPow p config a = some true) : Passes p config known a := by
  obtain ⟨header, hheader, hverdict⟩ := Option.bind_eq_some_iff.mp h
  refine .compact hmsg hheader ?_
  revert hverdict
  cases p.validate header <;> simp [PowResult.verdict]

theorem validatePow_spec (h : validatePow p config now cache a = (verdict, cache')) :
    Decided p config now cache a verdict cache' := by
  have compact : a.msgType ≠ .rawBlockSegment →
      (validateCompactBlockPow p config a, cache) = (verdict, cache') →
      Decided p config now cache a verdict cache' := by
    intro hmsg heq
    injection heq with hverdict hcache
    subst hverdict hcache
    exact ⟨validateCompactBlockPow_true hmsg, fun _ _ hk => Or.inl hk, Or.inl rfl⟩
  unfold validatePow at h
  split at h
  · rename_i hmsg; exact compact (by simp [hmsg]) h
  · rename_i hmsg; exact compact (by simp [hmsg]) h
  · rename_i hmsg; exact validateRawBlockSegment_spec hmsg h
  · rename_i hmsg; exact absurd a.isData (by simp [hmsg, MessageType.isData])
  · rename_i hmsg; exact absurd a.isData (by simp [hmsg, MessageType.isData])

theorem judge_spec (hnew : a.powValidated = false) (h : judge p config now cache a = (a', cache')) :
    Judged p config now cache a a' cache' := by
  unfold judge at h
  rcases hv : validatePow p config now cache a with ⟨verdict, cache₁⟩
  rw [hv] at h
  have hspec := validatePow_spec hv
  cases verdict with
  | none =>
    injection h with ha hc
    subst ha hc
    refine ⟨⟨_, rfl⟩, Or.inl, fun k entry hk => ?_, hspec.agree⟩
    rcases hspec.gained k entry hk with hold | ⟨hf, -⟩
    · exact Or.inl hold
    · cases hf
  | some valid =>
    injection h with ha hc
    subst ha hc
    have hsame := SameContent.setPow a valid
    refine ⟨⟨valid, rfl⟩, fun ht => Or.inr ?_, fun k entry hk => ?_,
      hspec.agree.imp_right fun ⟨zero, hzero⟩ => ⟨zero, hsame.carriesZero hzero⟩⟩
    · exact hsame.passes (hspec.passes (congrArg some ht))
    · rcases hspec.gained k entry hk with hold | ⟨hvalid, ⟨zero, hzero, hrest⟩⟩
      · exact Or.inl hold
      · exact Or.inr ⟨hnew, Option.some.inj hvalid, ⟨zero, hsame.carriesZero hzero, hrest⟩⟩

/-! ## Where an assembly comes from -/

/-- The assembly under `h`, seen from the table `m` before the chunk: a filled slot was filled
before or is the one stored now, a slot that has gone out stays so, and a verdict that was not
there before has its reason. -/
structure Origin (p : Primitives) (config : RelayConfig) (known : RawBlockSegment → Prop)
    (stored : ChunkKey → List UInt8 → Prop) (m : Table Bytes32 BlockAssembly) (h : Bytes32)
    (a : BlockAssembly) : Prop where
  blockHash : a.blockHash = h
  slot : ∀ (id : UInt16) data, a.chunk id.toNat = some data →
    (∃ a₀, m.lookup h = some a₀ ∧ a₀.chunk id.toNat = some data ∧
      (a₀.sent id.toNat = true → a.sent id.toNat = true)) ∨ stored ⟨h, id⟩ data
  msgType : ∀ a₀, m.lookup h = some a₀ → a₀.msgType = a.msgType
  validated : a.powValidated = true →
    (∃ a₀, m.lookup h = some a₀ ∧ a₀.powValidated = true) ∨ Passes p config known a

namespace Origin

variable {m : Table Bytes32 BlockAssembly}

theorem refl (hlookup : m.lookup h = some a) (hhash : a.blockHash = h) :
    Origin p config known stored m h a :=
  ⟨hhash, fun _ _ hdata => Or.inl ⟨a, hlookup, hdata, id⟩,
    fun _ h₀ => congrArg BlockAssembly.msgType (Option.some.inj (h₀.symm.trans hlookup)),
    fun hv => Or.inl ⟨a, hlookup, hv⟩⟩

section

variable (ho : Origin p config known stored m h a)

include ho

theorem mono {known' : RawBlockSegment → Prop} (himp : ∀ segment, known segment → known' segment) :
    Origin p config known' stored m h a :=
  { ho with validated := fun hv => (ho.validated hv).imp_right fun hp => hp.mono himp }

/-- Flags that only go up, with a reason for the verdict. -/
theorem raise {a' : BlockAssembly} (hsame : SameContent a a')
    (hsent : ∀ idx, a.sent idx = true → a'.sent idx = true)
    (hpow : a'.powValidated = true → a.powValidated = true ∨ Passes p config known a') :
    Origin p config known stored m h a' := by
  refine ⟨hsame.blockHash.trans ho.blockHash, fun id data hdata => ?_,
    fun a₀ h₀ => (ho.msgType a₀ h₀).trans hsame.msgType.symm, fun hv => ?_⟩
  · rw [hsame.chunk] at hdata
    refine (ho.slot id data hdata).imp_left fun ⟨a₀, hlookup, hslot, hgone⟩ => ?_
    exact ⟨a₀, hlookup, hslot, fun h₀ => hsent _ (hgone h₀)⟩
  · rcases hpow hv with hold | hpass
    · exact (ho.validated hold).imp_right hsame.passes
    · exact Or.inr hpass

theorem markForwarded : Origin p config known stored m h a.markForwarded :=
  ho.raise (.markForwarded a) (fun idx hs => by rw [BlockAssembly.sent_markForwarded, hs]; rfl)
    Or.inl

end

end Origin

/-- Every assembly of the session comes from the table `m`. -/
def Origins (p : Primitives) (config : RelayConfig) (known : RawBlockSegment → Prop)
    (stored : ChunkKey → List UInt8 → Prop) (m : Table Bytes32 BlockAssembly)
    (session : RelaySession) : Prop :=
  ∀ h a, session.pendingBlocks.lookup h = some a → Origin p config known stored m h a

/-- The session is bound as before. -/
structure SameSession (s s' : RelaySession) : Prop where
  binding : s'.binding = s.binding
  authenticated : s'.authenticated = s.authenticated

/-! ## Letting later segments through -/

/-- What holds at each object of the refresh: the cache is the same but for what expired, the
contents of the assemblies are those of the session it started with. -/
structure Refreshing (p : Primitives) (config : RelayConfig) (now : Nat) (cache : ValidatedCache)
    (s : RelaySession) (state : RelaySession × ValidatedCache) : Prop where
  session : SameSession s state.1
  agree : ValidatedCache.Agree now state.2 cache
  lookup : ∀ k entry, state.2.lookup k = some entry → cache.lookup k = some entry
  raised : ∀ h, state.1.pendingBlocks.lookup h = s.pendingBlocks.lookup h ∨
    ∃ a, s.pendingBlocks.lookup h = some a ∧
      state.1.pendingBlocks.lookup h = some { a with powValidated := true } ∧
      Passes p config (Known now cache) { a with powValidated := true }

theorem Refreshing.refl (cache : ValidatedCache) (s : RelaySession) :
    Refreshing p config now cache s (s, cache) :=
  ⟨⟨rfl, rfl⟩, rfl, fun _ _ hk => hk, fun _ => Or.inl rfl⟩

theorem refreshCachedRawSegment_step {state : RelaySession × ValidatedCache}
    (hraw : ∀ a, s.pendingBlocks.lookup h = some a → a.msgType = .rawBlockSegment)
    (hst : Refreshing p config now cache s state) :
    Refreshing p config now cache s (refreshCachedRawSegment p config now state h) := by
  obtain ⟨session, cache₁⟩ := state
  unfold refreshCachedRawSegment
  dsimp only
  split
  · exact hst
  rename_i assembly hlookup
  split
  · exact hst
  rename_i segment hdecoded
  split
  · exact hst
  rename_i hindex
  have hagree : ValidatedCache.Agree now (cache₁.cleanup now) cache :=
    (ValidatedCache.Agree.cleanup now cache₁).trans hst.agree
  have hsub : ∀ k entry, (cache₁.cleanup now).lookup k = some entry → cache.lookup k = some entry :=
    fun k entry hk => hst.lookup k entry (ValidatedCache.of_lookup_cleanup hk)
  split
  · rename_i hmatch
    refine ⟨{ hst.session with }, hagree, hsub, fun h' => ?_⟩
    rw [Table.lookup_insert_eq]
    split
    · rename_i heq
      subst heq
      -- the assembly here is the one of the session, with the verdict it may have got before
      obtain ⟨a, ha, hup⟩ : ∃ a, s.pendingBlocks.lookup h' = some a ∧
          { assembly with powValidated := true } = { a with powValidated := true } := by
        rcases hst.raised h' with hsame | ⟨a, ha, hraised, -⟩
        · exact ⟨assembly, hsame ▸ hlookup, rfl⟩
        · rw [show session.pendingBlocks.lookup h' = _ from hraised] at hlookup
          injection hlookup with hlookup
          exact ⟨a, ha, hlookup ▸ rfl⟩
      refine Or.inr ⟨a, ha, congrArg some hup, ?_⟩
      rw [← hup]
      have hsame := SameContent.setPow assembly true
      refine hsame.passes (.later ?_ hdecoded hindex (Known.congr hst.agree hmatch))
      exact (congrArg BlockAssembly.msgType hup).trans (hraw a ha)
    · exact hst.raised h'
  · exact ⟨hst.session, hagree, hsub, hst.raised⟩

theorem refreshCachedRawSegmentAssemblies_spec (cache : ValidatedCache) (s : RelaySession) :
    Refreshing p config now cache s (refreshCachedRawSegmentAssemblies p config now s cache) := by
  unfold refreshCachedRawSegmentAssemblies
  refine List.foldlRecOn _ _ ?_ fun state hst h hmem => ?_
  · exact .refl cache s
  · refine refreshCachedRawSegment_step (fun a ha => ?_) hst
    obtain ⟨⟨h', a'⟩, hmem', hcase⟩ := List.mem_filterMap.mp hmem
    split at hcase
    · rename_i hraw
      cases hcase
      rw [Table.mem_entries.mp hmem'] at ha
      injection ha with ha
      exact ha ▸ hraw.1
    · cases hcase

namespace Refreshing

variable {state : RelaySession × ValidatedCache}

/-- An assembly stays, with its contents and at least its verdict. -/
theorem kept (hst : Refreshing p config now cache s state) {h : Bytes32} {a : BlockAssembly}
    (ha : s.pendingBlocks.lookup h = some a) :
    ∃ a', state.1.pendingBlocks.lookup h = some a' ∧ SameContent a a' ∧
      (a.powValidated = true → a'.powValidated = true) := by
  rcases hst.raised h with hsame | ⟨a₀, ha₀, hraised, -⟩
  · exact ⟨a, hsame.trans ha, ⟨rfl, rfl, rfl, rfl⟩, id⟩
  · rw [ha] at ha₀
    cases ha₀
    exact ⟨_, hraised, .setPow a true, fun _ => rfl⟩

theorem origins {stored : ChunkKey → List UInt8 → Prop} {m : Table Bytes32 BlockAssembly}
    (hst : Refreshing p config now cache s state)
    (hs : Origins p config (Known now cache) stored m s) :
    Origins p config (Known now state.2) stored m state.1 := by
  intro h a hlookup
  refine Origin.mono ?_ fun segment hk => Known.congr hst.agree.symm hk
  rcases hst.raised h with hsame | ⟨a₀, ha₀, hraised, hpass⟩
  · exact hs h a (hsame ▸ hlookup)
  · rw [hraised] at hlookup
    cases hlookup
    exact (hs h a₀ ha₀).raise (.setPow a₀ true) (fun _ hsent => hsent) fun _ => Or.inr hpass

end Refreshing

/-! ## What is handed out -/

theorem BlockAssembly.ready_some (h : a.ready = some r) :
    a.powValidated = true ∧ r.blockHash = a.blockHash ∧ r.msgType = a.msgType ∧
      r.chunks = a.unforwarded := by
  unfold BlockAssembly.ready at h
  split at h
  · cases h
  · rename_i hready
    cases h
    rw [not_or] at hready
    exact ⟨by simpa using hready.1, rfl, rfl, rfl⟩

theorem lookup_collectReadyChunks (s : RelaySession) (h : Bytes32) :
    (collectReadyChunks s).2.pendingBlocks.lookup h
      = (s.pendingBlocks.lookup h).map BlockAssembly.collected := by
  rw [collectReadyChunks, Table.lookup_pass]
  cases s.pendingBlocks.lookup h <;> rfl

theorem Origin.collected {m : Table Bytes32 BlockAssembly}
    (ho : Origin p config known stored m h a) : Origin p config known stored m h a.collected := by
  unfold BlockAssembly.collected
  split
  · exact ho.markForwarded
  · exact ho

theorem SameContent.collected (a : BlockAssembly) : SameContent a a.collected := by
  unfold BlockAssembly.collected
  split
  · exact .markForwarded a
  · exact ⟨rfl, rfl, rfl, rfl⟩

theorem BlockAssembly.powValidated_collected (a : BlockAssembly) :
    a.collected.powValidated = a.powValidated := by
  unfold BlockAssembly.collected
  split <;> rfl

theorem mem_collectReadyChunks (hr : r ∈ (collectReadyChunks s).1) :
    ∃ h a, s.pendingBlocks.lookup h = some a ∧ a.ready = some r := by
  obtain ⟨⟨h, a⟩, hmem, hready⟩ := List.mem_filterMap.mp hr
  exact ⟨h, a, Table.mem_entries.mp hmem, hready⟩

theorem nodup_collectReadyChunks
    (hnamed : ∀ h a, s.pendingBlocks.lookup h = some a → a.blockHash = h) :
    ((collectReadyChunks s).1.map ReadyChunks.blockHash).Nodup := by
  have hkey : ∀ e ∈ s.pendingBlocks.entries, ∀ r, e.2.ready = some r → r.blockHash = e.1 :=
    fun e he r hr => (BlockAssembly.ready_some hr).2.1.trans (hnamed e.1 e.2 (Table.mem_entries.mp he))
  refine List.Nodup.sublist ?_ s.pendingBlocks.nodupKeys
  unfold collectReadyChunks
  -- the hashes handed out are keys of the table, in its order
  revert hkey
  induction s.pendingBlocks.entries with
  | nil => exact fun _ => List.Sublist.refl _
  | cons e entries ih =>
    intro hkey
    have ih := ih fun e' he' => hkey e' (List.mem_cons_of_mem _ he')
    rw [List.filterMap_cons, List.keys_cons]
    cases he : e.2.ready with
    | none => exact List.Sublist.cons _ ih
    | some r =>
      rw [List.map_cons, hkey e List.mem_cons_self r he]
      exact List.Sublist.cons_cons _ ih

/-! ## Processing a chunk -/

/-- **What processing a chunk does**, with `m` the assemblies before it and `h` the object the
chunk belongs to. -/
structure Ingested (p : Primitives) (config : RelayConfig) (now : Nat) (cache : ValidatedCache)
    (stored : ChunkKey → List UInt8 → Prop) (s : RelaySession) (h : Bytes32) (r : Processed) :
    Prop where
  session : SameSession s r.session
  origins : Origins p config (Known now r.cache) stored s.pendingBlocks r.session
  /-- What is handed out is what an assembly that passes had not sent yet. -/
  ready : ∀ rc ∈ r.ready, ∃ a,
    Origin p config (Known now r.cache) stored s.pendingBlocks rc.blockHash a ∧
    a.powValidated = true ∧ rc.msgType = a.msgType ∧ rc.chunks = a.unforwarded ∧
    r.session.pendingBlocks.lookup rc.blockHash = some a.markForwarded
  nodup : (r.ready.map ReadyChunks.blockHash).Nodup
  /-- The cache gains at most the segment zero this chunk completed. -/
  gained : ∀ k entry, r.cache.lookup k = some entry → cache.lookup k = some entry ∨
    ∃ a, r.session.pendingBlocks.lookup h = some a ∧ a.powValidated = true ∧
      Gained p config now a k entry ∧
      ∀ a₀, s.pendingBlocks.lookup h = some a₀ → a₀.powValidated = false
  agree : ValidatedCache.Agree now r.cache cache ∨
    ∃ a zero, r.session.pendingBlocks.lookup h = some a ∧ CarriesZero p config a zero

/-- Nothing is handed out, and the cache is as before. -/
theorem Ingested.of_origins (hsession : SameSession s s')
    (horigins : Origins p config (Known now cache) stored s.pendingBlocks s') :
    Ingested p config now cache stored s h ⟨[], s', cache⟩ :=
  ⟨hsession, horigins, fun _ hr => absurd hr (by simp), List.nodup_nil, fun _ _ hk => Or.inl hk,
    Or.inl rfl⟩

theorem settleAssembly_spec {s₁ : RelaySession} (isNew : Bool) (hsession : SameSession s s₁)
    (horigins : ∀ known, Origins p config known stored s.pendingBlocks s₁)
    (ha : ∀ known, Origin p config known stored s.pendingBlocks h a)
    (hpow : ∀ a₀, s.pendingBlocks.lookup h = some a₀ → a.powValidated = a₀.powValidated) :
    Ingested p config now cache stored s h (settleAssembly p config now cache s₁ h a isNew) := by
  unfold settleAssembly
  rcases hj : (if isNew = true ∧ a.powValidated = false then judge p config now cache a
    else (a, cache)) with ⟨a₂, cache₂⟩
  have hjudged : Judged p config now cache a a₂ cache₂ := by
    split at hj
    · rename_i hnew; exact judge_spec hnew.2 hj
    · injection hj with h₁ h₂; subst h₁ h₂; exact .refl cache a
  have ha₂ : Origin p config (Known now cache₂) stored s.pendingBlocks h a₂ := by
    obtain ⟨b, rfl⟩ := hjudged.flag
    exact (ha _).raise (.setPow a b) (fun _ hs => hs) hjudged.passes
  have hs₂ : Origins p config (Known now cache₂) stored s.pendingBlocks
      { s₁ with pendingBlocks := s₁.pendingBlocks.insert h a₂ } := by
    intro h' a' hlookup
    rcases Table.of_lookup_insert hlookup with ⟨rfl, rfl⟩ | hlookup
    · exact ha₂
    · exact horigins _ h' a' hlookup
  dsimp only
  rcases hf : (if a₂.msgType = .rawBlockSegment then refreshCachedRawSegmentAssemblies p config now
    { s₁ with pendingBlocks := s₁.pendingBlocks.insert h a₂ } cache₂
    else ({ s₁ with pendingBlocks := s₁.pendingBlocks.insert h a₂ }, cache₂)) with ⟨s₃, cache₃⟩
  have hrefresh : Refreshing p config now cache₂
      { s₁ with pendingBlocks := s₁.pendingBlocks.insert h a₂ } (s₃, cache₃) := by
    split at hf
    · rw [← hf]; exact refreshCachedRawSegmentAssemblies_spec _ _
    · rw [← hf]; exact .refl _ _
  have hs₃ := hrefresh.origins hs₂
  have hnamed : ∀ h' a', s₃.pendingBlocks.lookup h' = some a' → a'.blockHash = h' :=
    fun h' a' hlookup => (hs₃ h' a' hlookup).blockHash
  -- the assembly that was judged is there to the end, with at least its verdict
  obtain ⟨a₃, ha₃, hsame₃, hv₃⟩ := hrefresh.kept (AList.lookup_insert s₁.pendingBlocks)
  have hlast : (collectReadyChunks s₃).2.pendingBlocks.lookup h = some a₃.collected := by
    rw [lookup_collectReadyChunks, show s₃.pendingBlocks.lookup h = _ from ha₃, Option.map_some]
  have hzero : ∀ {zero}, CarriesZero p config a₂ zero → CarriesZero p config a₃.collected zero :=
    fun hz => (SameContent.collected a₃).carriesZero (hsame₃.carriesZero hz)
  refine ⟨⟨?_, ?_⟩, fun h' a' hlookup => ?_, fun rc hrc => ?_, nodup_collectReadyChunks hnamed,
    fun k entry hk => ?_, ?_⟩
  · exact hrefresh.session.binding.trans hsession.binding
  · exact hrefresh.session.authenticated.trans hsession.authenticated
  · obtain ⟨a₀, ha₀, rfl⟩ :=
      Option.map_eq_some_iff.mp ((lookup_collectReadyChunks s₃ h').symm.trans hlookup)
    exact (hs₃ h' a₀ ha₀).collected
  · obtain ⟨h', a₀, ha₀, hready⟩ := mem_collectReadyChunks hrc
    obtain ⟨hv, hhash, hmsg, hchunks⟩ := BlockAssembly.ready_some hready
    have heq : rc.blockHash = h' := hhash.trans (hnamed h' a₀ ha₀)
    rw [heq]
    refine ⟨a₀, hs₃ h' a₀ ha₀, hv, hmsg, hchunks, ?_⟩
    have hcollected := lookup_collectReadyChunks s₃ h'
    rw [ha₀, Option.map_some, BlockAssembly.collected, if_pos hv] at hcollected
    exact hcollected
  · rcases hjudged.gained k entry (hrefresh.lookup k entry hk) with hold | ⟨hnew, hv, hgain⟩
    · exact Or.inl hold
    · obtain ⟨zero, hcarries, hrest⟩ := hgain
      refine Or.inr ⟨a₃.collected, hlast, ?_, ⟨zero, hzero hcarries, hrest⟩, fun a₀ ha₀ => ?_⟩
      · rw [BlockAssembly.powValidated_collected]
        exact hv₃ hv
      · exact (hpow a₀ ha₀).symm.trans hnew
  · rcases hjudged.agree with hagree | ⟨zero, hcarries⟩
    · exact Or.inl (hrefresh.agree.trans hagree)
    · exact Or.inr ⟨a₃.collected, zero, hlast, hzero hcarries⟩

/-- The chunk was not seen lately, so its payload may go into its slot. -/
def Stored (s : RelaySession) (chunk : Chunk) (now : Nat) (key : ChunkKey) (data : List UInt8) :
    Prop :=
  key = chunk.key ∧ data = chunk.payload ∧ (s.markChunkSeen chunk.key now).1 = true

theorem getOrCreateAssemblyForMessage_some {totalChunks : UInt16} {msgType : MessageType}
    {isData : msgType.isData = true}
    (hget : s.getOrCreateAssemblyForMessage h totalChunks isData now = some (a, s')) :
    SameSession s s' ∧ (∀ h', s'.pendingBlocks.lookup h' = if h' = h then some a
      else s.pendingBlocks.lookup h') ∧
    (s.pendingBlocks.lookup h = some a ∨
      s.pendingBlocks.lookup h = none ∧ a = .newForMessage h totalChunks isData now) := by
  unfold RelaySession.getOrCreateAssemblyForMessage at hget
  split at hget
  · rename_i assembly hlookup
    split at hget
    · cases hget
    · injection hget with hget
      injection hget with h₁ h₂
      subst h₁ h₂
      refine ⟨⟨rfl, rfl⟩, fun h' => ?_, Or.inl hlookup⟩
      split
      · rename_i heq; exact heq ▸ hlookup
      · rfl
  · rename_i hlookup
    split at hget
    · cases hget
    · injection hget with hget
      injection hget with h₁ h₂
      subst h₁ h₂
      exact ⟨⟨rfl, rfl⟩, fun h' => Table.lookup_insert_eq _ h' h _, Or.inr ⟨hlookup, rfl⟩⟩

theorem BlockAssembly.captureDataShards_some {dataShards : UInt16}
    (h : a.captureDataShards dataShards = some a') : ∃ n, a' = { a with dataShards := n } := by
  unfold BlockAssembly.captureDataShards at h
  split at h
  · exact ⟨a.dataShards, (Option.some.inj h).symm⟩
  split at h
  · exact ⟨dataShards, (Option.some.inj h).symm⟩
  split at h
  · cases h
  · exact ⟨a.dataShards, (Option.some.inj h).symm⟩

theorem processChunkForSession_spec (cache : ValidatedCache) {chunk : Chunk}
    (isData : chunk.header.msgType.isData = true)
    (hnamed : ∀ h a, s.pendingBlocks.lookup h = some a → a.blockHash = h) :
    Ingested p config now cache (Stored s chunk now) s chunk.header.blockHash
      (processChunkForSession p config now cache s chunk isData) := by
  unfold processChunkForSession
  have hmark : (s.markChunkSeen chunk.key now).2.pendingBlocks = s.pendingBlocks := rfl
  have hsame : SameSession s (s.markChunkSeen chunk.key now).2 := ⟨rfl, rfl⟩
  rcases hseen : s.markChunkSeen chunk.key now with ⟨fresh, s₁⟩
  rw [hseen] at hmark hsame
  have hs₁ : ∀ known, Origins p config known (Stored s chunk now) s.pendingBlocks s₁ :=
    fun known h a hlookup => .refl (hmark ▸ hlookup) (hnamed h a (hmark ▸ hlookup))
  cases fresh with
  | false => exact .of_origins hsame (hs₁ _)
  | true =>
    dsimp only
    split
    · exact .of_origins hsame (hs₁ _)
    rename_i a s₂ hget
    obtain ⟨hsame₂, hlookup₂, hcase⟩ := getOrCreateAssemblyForMessage_some hget
    rw [hmark] at hlookup₂ hcase
    -- the assembly is the one of the session or a new one without chunks
    have ha : ∀ known, Origin p config known (Stored s chunk now) s.pendingBlocks
        chunk.header.blockHash a := by
      intro known
      rcases hcase with hlookup | ⟨hnone, rfl⟩
      · exact .refl hlookup (hnamed _ _ hlookup)
      · refine ⟨rfl, fun id data hdata => ?_, fun a₀ h₀ => ?_, fun hv => ?_⟩
        · rw [BlockAssembly.chunk_newForMessage] at hdata
          cases hdata
        · rw [hnone] at h₀
          cases h₀
        · exact absurd hv (by simp [BlockAssembly.newForMessage])
    have hsession : SameSession s s₂ :=
      ⟨hsame₂.binding.trans hsame.binding, hsame₂.authenticated.trans hsame.authenticated⟩
    have hs₂ : ∀ known, Origins p config known (Stored s chunk now) s.pendingBlocks s₂ := by
      intro known h' a' hlookup
      rw [hlookup₂] at hlookup
      split at hlookup
      · rename_i heq
        injection hlookup with hlookup
        exact heq ▸ hlookup ▸ ha known
      · exact .refl hlookup (hnamed h' a' hlookup)
    split
    · exact .of_origins hsession (hs₂ _)
    split
    · exact .of_origins hsession (hs₂ _)
    rename_i a₁ hcapture
    obtain ⟨n, rfl⟩ := BlockAssembly.captureDataShards_some hcapture
    refine settleAssembly_spec _ hsession hs₂ 
      (fun known => ⟨(ha known).blockHash, ?_, (ha known).msgType, ?_⟩) ?_
    · intro id data hdata
      rcases BlockAssembly.chunk_addChunk hdata with hold | ⟨hid, hpayload⟩
      · exact (ha known).slot id data hold
      · refine Or.inr ⟨?_, hpayload, by rw [hseen]⟩
        rw [Chunk.key, UInt16.toNat_inj.mp hid]
    · intro hv
      rcases hcase with hlookup | ⟨-, rfl⟩
      · exact Or.inl ⟨a, hlookup, hv⟩
      · exact absurd hv (by simp [BlockAssembly.newForMessage, BlockAssembly.addChunk])
    · intro a₀ ha₀
      rcases hcase with hlookup | ⟨hnone, -⟩
      · rw [hlookup] at ha₀
        injection ha₀ with ha₀
        exact ha₀ ▸ rfl
      · rw [hnone] at ha₀
        cases ha₀

/-! ## The session stays bound -/

theorem SameSession.trans {s'' : RelaySession} (h : SameSession s s') (h' : SameSession s' s'') :
    SameSession s s'' :=
  ⟨h'.binding.trans h.binding, h'.authenticated.trans h.authenticated⟩

theorem settleAssembly_session (cache : ValidatedCache) (s : RelaySession) (h : Bytes32)
    (a : BlockAssembly) (isNew : Bool) :
    SameSession s (settleAssembly p config now cache s h a isNew).session := by
  unfold settleAssembly
  generalize (if isNew = true ∧ a.powValidated = false then judge p config now cache a
    else (a, cache)) = judged
  obtain ⟨a₁, cache₁⟩ := judged
  dsimp only
  split
  · have hrefresh : Refreshing p config now cache₁
        { s with pendingBlocks := s.pendingBlocks.insert h a₁ } _ :=
      refreshCachedRawSegmentAssemblies_spec _ _
    exact { hrefresh.session with }
  · exact ⟨rfl, rfl⟩

/-- Whatever the chunk, whatever the cache. -/
theorem processChunkForSession_session (cache : ValidatedCache) (s : RelaySession) (chunk : Chunk)
    (isData : chunk.header.msgType.isData = true) :
    SameSession s (processChunkForSession p config now cache s chunk isData).session := by
  unfold processChunkForSession
  have hsame : SameSession s (s.markChunkSeen chunk.key now).2 := ⟨rfl, rfl⟩
  rcases hseen : s.markChunkSeen chunk.key now with ⟨fresh, s₁⟩
  rw [hseen] at hsame
  cases fresh with
  | false => exact hsame
  | true =>
    dsimp only
    split
    · exact hsame
    rename_i a s₂ hget
    have hsame₂ := hsame.trans (getOrCreateAssemblyForMessage_some hget).1
    split
    · exact hsame₂
    split
    · exact hsame₂
    · exact hsame₂.trans (settleAssembly_session _ _ _ _ _)

end MiningInfra.Relay
