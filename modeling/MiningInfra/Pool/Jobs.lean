import MiningInfra.Pool.World

/-!
# Channels, sessions and active jobs

What the pool's side of a new block rests on. Every channel has a session, so the broadcast
of a new block reaches every channel; and an active job builds on the block the distributor
is at, except in channels that the broadcast in progress will still clean. Both hold as long
as no two connections have the same channel id.
-/

namespace MiningInfra.Pool

open Lib Equihash

variable {F : Type}

/-- No connection, channel or broadcast in progress has this channel id. -/
structure IdFree (s : PoolState) (main : MainLoop F) (id : UInt32) : Prop where
  channel : (s.channels.lookup id).isSome = false
  connections : ∀ k c, s.connections.lookup k = some c → c.channelId ≠ id
  broadcast : ∀ cleanJobs sent, main = .dropSlow cleanJobs sent → id ∉ sent

/-! ## Channels and sessions -/

/-- Every channel has a session, and a channel that is about to be stored is not there yet. -/
structure Registered (s : PoolState) (main : MainLoop F) : Prop where
  session : ∀ id, (s.channels.lookup id).isSome → id ∈ s.sessions
  setup : ∀ k id, s.connections.lookup k = some (.storeChannel id) →
    id ∈ s.sessions ∧ (s.channels.lookup id).isSome = false
      ∧ ∀ cleanJobs sent, main = .dropSlow cleanJobs sent → id ∉ sent
  distinct : ∀ k k' c c', s.connections.lookup k = some c → s.connections.lookup k' = some c' →
    c.channelId = c'.channelId → k = k'

variable {s s' : PoolState} {main main' : MainLoop F} {k now : Nat} {env : Env F} {id : UInt32}
  {ids : List UInt32} {cleanJobs : Bool}

section

variable (h : Registered s main)

include h

theorem Registered.of_main (hmain : ∀ cleanJobs sent, main' ≠ .dropSlow cleanJobs sent) :
    Registered s main' := by
  refine ⟨h.session, ?_, h.distinct⟩
  intro k id hk
  obtain ⟨hsession, hchannel, -⟩ := h.setup k id hk
  exact ⟨hsession, hchannel, fun cleanJobs sent hm => absurd hm (hmain cleanJobs sent)⟩

/-- Only the ids of the channels matter. -/
theorem Registered.congr (hsessions : s'.sessions = s.sessions)
    (hconnections : s'.connections = s.connections)
    (hchannels : ∀ id, (s'.channels.lookup id).isSome = (s.channels.lookup id).isSome) :
    Registered s' main := by
  refine ⟨?_, ?_, ?_⟩
  · intro id hid
    rw [hsessions]
    exact h.session id (hchannels id ▸ hid)
  · intro k id hk
    rw [hsessions, hchannels]
    exact h.setup k id (hconnections ▸ hk)
  · rw [hconnections]
    exact h.distinct

theorem registered_connect (hfree : IdFree s main s.nextChannelId) (k : Nat) :
    Registered (s.connect k) main := by
  refine ⟨?_, ?_, ?_⟩
  · intro id hid
    exact List.mem_cons_of_mem _ (h.session id hid)
  · intro k' id hk'
    rcases Table.of_lookup_insert hk' with ⟨-, ⟨⟩⟩ | hk'
    · exact ⟨List.mem_cons_self, hfree.channel, hfree.broadcast⟩
    · obtain ⟨hsession, hrest⟩ := h.setup k' id hk'
      exact ⟨List.mem_cons_of_mem _ hsession, hrest⟩
  · intro k₁ k₂ c₁ c₂ h₁ h₂ hsame
    simp only [PoolState.connect, Table.lookup_insert_eq] at h₁ h₂
    split at h₁ <;> split at h₂
    · simp_all
    · injection h₁ with h₁
      exact absurd (hsame.symm.trans (h₁ ▸ rfl)) (hfree.connections k₂ c₂ h₂)
    · injection h₂ with h₂
      exact absurd (hsame.trans (h₂ ▸ rfl)) (hfree.connections k₁ c₁ h₁)
    · exact h.distinct k₁ k₂ c₁ c₂ h₁ h₂ hsame

/-- A connection that moves on keeps its id. -/
theorem Registered.distinct_insert {k₁ k₂ : Nat} {c c' c₁ c₂ : Connection}
    (hk : s.connections.lookup k = some c) (h₁ : (s.connections.insert k c').lookup k₁ = some c₁)
    (h₂ : (s.connections.insert k c').lookup k₂ = some c₂) (hid : c'.channelId = c.channelId)
    (hsame : c₁.channelId = c₂.channelId) : k₁ = k₂ := by
  rw [Table.lookup_insert_eq] at h₁ h₂
  split at h₁ <;> split at h₂
  · simp_all
  · rename_i hk₁ _
    injection h₁ with h₁
    rw [hk₁]
    exact h.distinct k k₂ c c₂ hk h₂ (hid.symm.trans (h₁ ▸ hsame))
  · rename_i _ hk₂
    injection h₂ with h₂
    rw [hk₂]
    exact h.distinct k₁ k c₁ c h₁ hk (hsame.trans (h₂ ▸ hid))
  · exact h.distinct k₁ k₂ c₁ c₂ h₁ h₂ hsame

theorem registered_storeChannel (hk : s.connections.lookup k = some (.storeChannel id)) :
    Registered (s.storeChannel env k id) main := by
  refine ⟨?_, ?_, ?_⟩
  · intro id' hid'
    simp only [PoolState.storeChannel, Table.lookup_insert_eq] at hid'
    split at hid'
    · rename_i heq
      rw [heq]
      exact (h.setup k id hk).1
    · exact h.session id' hid'
  · intro k' id' hk'
    simp only [PoolState.storeChannel, Table.lookup_insert_eq] at hk'
    split at hk'
    · cases hk'
    · rename_i hne
      obtain ⟨hsession, hchannel, hsent⟩ := h.setup k' id' hk'
      have hids : id' ≠ id := by
        intro heq
        exact hne (h.distinct k' k _ _ hk' hk heq)
      refine ⟨hsession, ?_, hsent⟩
      simp only [PoolState.storeChannel, Table.lookup_insert_eq, if_neg hids]
      exact hchannel
  · intro k₁ k₂ c₁ c₂ h₁ h₂ hsame
    exact h.distinct_insert hk h₁ h₂ rfl hsame

end

section

variable (s : PoolState) (k : Nat) (id : UInt32) (now : Nat)

theorem PoolState.isSome_initialJob (id' : UInt32) :
    ((s.initialJob k id now).channels.lookup id').isSome = (s.channels.lookup id').isSome := by
  unfold initialJob
  split
  · rfl
  · rename_i channel hchannel
    split
    · rfl
    · rw [Table.lookup_insert_eq]
      split
      · rename_i heq
        rw [heq, hchannel]
        rfl
      · rfl

theorem PoolState.connections_initialJob :
    (s.initialJob k id now).connections = s.connections.insert k (.running id) := by
  unfold initialJob
  repeat' split
  all_goals rfl

theorem PoolState.sessions_initialJob : (s.initialJob k id now).sessions = s.sessions := by
  unfold initialJob
  repeat' split
  all_goals rfl

end

theorem registered_initialJob (h : Registered s main)
    (hk : s.connections.lookup k = some (.initialJob id)) (now : Nat) :
    Registered (s.initialJob k id now) main := by
  refine ⟨?_, ?_, ?_⟩
  · intro id' hid'
    rw [PoolState.sessions_initialJob]
    exact h.session id' (s.isSome_initialJob k id now id' ▸ hid')
  · intro k' id' hk'
    rw [PoolState.connections_initialJob] at hk'
    rcases Table.of_lookup_insert hk' with ⟨-, ⟨⟩⟩ | hk'
    · rw [PoolState.sessions_initialJob, PoolState.isSome_initialJob]
      exact h.setup k' id' hk'
  · intro k₁ k₂ c₁ c₂ h₁ h₂ hsame
    rw [PoolState.connections_initialJob] at h₁ h₂
    exact h.distinct_insert hk h₁ h₂ rfl hsame

/-- Channels may be dropped with their sessions, except those about to be stored. -/
theorem registered_drop (h : Registered s main)
    (hids : ∀ k id, s.connections.lookup k = some (.storeChannel id) → id ∉ ids) :
    Registered (s.drop ids) main := by
  refine ⟨?_, ?_, h.distinct⟩
  · intro id hid
    obtain ⟨ch, hch⟩ := Option.isSome_iff_exists.mp hid
    obtain ⟨hlookup, hkept⟩ := Table.of_lookup_retain hch
    exact List.mem_filter.mpr ⟨h.session id (hlookup ▸ rfl), hkept⟩
  · intro k id hk
    obtain ⟨hsession, hchannel, hsent⟩ := h.setup k id hk
    refine ⟨List.mem_filter.mpr ⟨hsession, by simpa using hids k id hk⟩, ?_, hsent⟩
    simp only [PoolState.drop, Table.lookup_retain]
    rw [Option.isSome_eq_false_iff, Option.isNone_iff_eq_none] at hchannel
    rw [hchannel]
    rfl

theorem registered_disconnect (h : Registered s main)
    (hk : s.connections.lookup k = some (.running id)) : Registered (s.disconnect k id) main := by
  have hdrop : Registered (s.drop [id]) main := by
    refine registered_drop h ?_
    intro k' id' hk' hmem
    have heq := h.distinct k' k _ _ hk' hk (List.mem_singleton.mp hmem)
    rw [heq, hk] at hk'
    cases hk'
  refine ⟨hdrop.session, ?_, ?_⟩
  · intro k' id' hk'
    exact hdrop.setup k' id' (Table.of_lookup_erase hk')
  · intro k₁ k₂ c₁ c₂ h₁ h₂ hsame
    exact h.distinct k₁ k₂ c₁ c₂ (Table.of_lookup_erase h₁) (Table.of_lookup_erase h₂) hsame

/-! ## The broadcast -/

/-- A change that touches no more than the jobs of channels. -/
structure PoolState.SameShape (s s' : PoolState) : Prop where
  distributor : s'.distributor = s.distributor
  sessions : s'.sessions = s.sessions
  connections : s'.connections = s.connections
  channels : ∀ id, (s'.channels.lookup id).isSome = (s.channels.lookup id).isSome

theorem PoolState.sameShape_broadcastTo (cleanJobs : Bool) (now : Nat)
    (s : PoolState × List UInt32) (id : UInt32) :
    s.1.SameShape (broadcastTo cleanJobs now s id).1 := by
  unfold broadcastTo
  split
  · exact ⟨rfl, rfl, rfl, fun _ => rfl⟩
  · rename_i channel hchannel
    split
    · exact ⟨rfl, rfl, rfl, fun _ => rfl⟩
    · refine ⟨rfl, rfl, rfl, ?_⟩
      intro id'
      rw [Table.lookup_insert_eq]
      split
      · rename_i heq
        rw [heq, hchannel]
        rfl
      · rfl

theorem PoolState.mem_sent_broadcastTo {s : PoolState × List UInt32} {id' : UInt32}
    (h : id' ∈ (broadcastTo cleanJobs now s id).2) :
    id' ∈ s.2 ∨ (s.1.channels.lookup id').isSome := by
  unfold broadcastTo at h
  split at h
  · exact .inl h
  · rename_i channel hchannel
    split at h
    · exact .inl h
    · rcases List.mem_append.mp h with h | h
      · exact .inl h
      · rw [List.mem_singleton.mp h, hchannel]
        exact .inr rfl

/-- The broadcast sends jobs to channels, and changes nothing but their jobs. -/
theorem PoolState.broadcast_shape (cleanJobs : Bool) (now : Nat) :
    ∀ (ids : List UInt32) (s : PoolState × List UInt32),
      s.1.SameShape (ids.foldl (broadcastTo cleanJobs now) s).1
        ∧ ∀ id ∈ (ids.foldl (broadcastTo cleanJobs now) s).2,
          id ∈ s.2 ∨ (s.1.channels.lookup id).isSome
  | [], s => ⟨⟨rfl, rfl, rfl, fun _ => rfl⟩, fun _ h => .inl h⟩
  | id :: ids, s => by
    have hstep := sameShape_broadcastTo cleanJobs now s id
    obtain ⟨hrest, hsent⟩ := broadcast_shape cleanJobs now ids (broadcastTo cleanJobs now s id)
    rw [List.foldl_cons]
    refine ⟨⟨hrest.distributor.trans hstep.distributor, hrest.sessions.trans hstep.sessions,
      hrest.connections.trans hstep.connections, ?_⟩, ?_⟩
    · intro id'
      exact (hrest.channels id').trans (hstep.channels id')
    · intro id' hid'
      rcases hsent id' hid' with h | h
      · exact mem_sent_broadcastTo h
      · exact .inr (hstep.channels id' ▸ h)

theorem registered_broadcast (h : Registered s main) (cleanJobs : Bool) (ids : List UInt32)
    (now : Nat) :
    Registered (s.broadcast cleanJobs ids now).1
      (.dropSlow cleanJobs (s.broadcast cleanJobs ids now).2 : MainLoop F) := by
  obtain ⟨hshape, hsent⟩ := PoolState.broadcast_shape cleanJobs now ids (s, [])
  have hcongr := h.congr hshape.sessions hshape.connections hshape.channels
  refine ⟨hcongr.session, ?_, hcongr.distinct⟩
  intro k id hk
  obtain ⟨hsession, hchannel, -⟩ := hcongr.setup k id hk
  refine ⟨hsession, hchannel, ?_⟩
  -- jobs were sent to channels, and this one is not there
  rintro _ _ ⟨rfl, rfl⟩ hmem
  rcases hsent id hmem with h' | h'
  · cases h'
  · have hno := (hshape.channels id).symm.trans hchannel
    rw [h'] at hno
    cases hno

/-! ## Active jobs -/

/-- The active jobs of a channel are for the distributor's block. -/
def Current (d : JobDistributor) (channel : Channel) : Prop :=
  ∀ id j, channel.jobs.lookup id = some j → j.active = true → d.prevHash = some j.job.prevHash

/-- The broadcast in progress will clean the channel. -/
def AwaitsClean (s : PoolState) (main : MainLoop F) (id : UInt32) : Prop :=
  s.distributor.prevHash.isSome ∧ (main = .readSessions true ∧ id ∈ s.sessions
    ∨ ∃ ids, main = .createJobs true ids ∧ id ∈ ids)

structure JobsCurrent (s : PoolState) (main : MainLoop F) : Prop where
  channels : ∀ id channel, s.channels.lookup id = some channel →
    Current s.distributor channel ∨ AwaitsClean s main id
  validating : ∀ id share job t, main = .validateShare id share job t →
    s.distributor.prevHash = some job.prevHash
  crediting : ∀ id share header difficulty, main = .creditShare id share header difficulty →
    s.distributor.prevHash = some (headerPrevHash header)

theorem current_addJob {d : JobDistributor} {channel : Channel} {jobId : UInt32}
    {job : NewEquihashJob} {template : BlockTemplate}
    (hjob : d.createJob channel jobId = some (job, template))
    (hold : cleanJobs = false → Current d channel) :
    Current d (channel.addJob job template cleanJobs now) := by
  intro id j hj hactive
  rcases Channel.lookup_addJob hj hactive with hnew | ⟨hclean, hlookup⟩
  · rw [hnew]
    exact JobDistributor.prevHash_createJob hjob
  · exact hold hclean id j hlookup hactive

/-- After the broadcast every active job is for the distributor's block. -/
theorem current_broadcast (cleanJobs : Bool) (now : Nat) :
    ∀ (ids : List UInt32) (s : PoolState × List UInt32),
      (∀ id channel, s.1.channels.lookup id = some channel → Current s.1.distributor channel
        ∨ s.1.distributor.prevHash.isSome ∧ cleanJobs = true ∧ id ∈ ids) →
      ∀ id channel, (ids.foldl (PoolState.broadcastTo cleanJobs now) s).1.channels.lookup id
        = some channel → Current s.1.distributor channel
  | [], s, h, id, channel, hlookup => by
    rcases h id channel hlookup with h | ⟨-, -, h⟩
    · exact h
    · cases h
  | id₀ :: ids, s, h, id, channel, hlookup => by
    rw [List.foldl_cons] at hlookup
    have hshape := PoolState.sameShape_broadcastTo cleanJobs now s id₀
    rw [← hshape.distributor]
    refine current_broadcast cleanJobs now ids _ ?_ id channel hlookup
    rw [hshape.distributor]
    intro id' channel' hlookup'
    unfold PoolState.broadcastTo at hlookup'
    split at hlookup'
    · -- no channel for this session
      rename_i hnone
      rcases h id' channel' hlookup' with h | ⟨htip, hclean, hmem⟩
      · exact .inl h
      · rcases List.mem_cons.mp hmem with heq | hmem
        · rw [heq, hnone] at hlookup'
          cases hlookup'
        · exact .inr ⟨htip, hclean, hmem⟩
    · rename_i old hold
      split at hlookup'
      · -- no template yet, so nothing awaits cleaning
        rename_i hnojob
        rcases h id' channel' hlookup' with h | ⟨htip, -, -⟩
        · exact .inl h
        · rw [s.1.distributor.agrees, Option.map_eq_none_iff.mp hnojob] at htip
          cases htip
      · rename_i job template hjob
        rw [Table.lookup_insert_eq] at hlookup'
        split at hlookup'
        · cases hlookup'
          refine .inl (current_addJob hjob ?_)
          intro hclean
          rcases h id₀ old hold with h | ⟨-, hc, -⟩
          · exact h
          · exact absurd (hclean.symm.trans hc) (by simp)
        · rename_i hne
          rcases h id' channel' hlookup' with h | ⟨htip, hclean, hmem⟩
          · exact .inl h
          · rcases List.mem_cons.mp hmem with heq | hmem
            · exact absurd heq hne
            · exact .inr ⟨htip, hclean, hmem⟩

/-! ## Steps of a connection -/

section

variable (h : JobsCurrent s main)

include h

/-- A change of the pool that leaves the distributor alone. Every channel is current, or was there
with no other jobs and keeps its session. -/
theorem JobsCurrent.congr (hd : s'.distributor = s.distributor)
    (hchannels : ∀ id channel', s'.channels.lookup id = some channel' →
      Current s.distributor channel' ∨ ∃ channel, s.channels.lookup id = some channel
        ∧ channel'.jobs = channel.jobs ∧ (id ∈ s.sessions → id ∈ s'.sessions)) :
    JobsCurrent s' main := by
  refine ⟨?_, ?_, ?_⟩
  · intro id channel' hlookup'
    rw [hd]
    rcases hchannels id channel' hlookup' with hnew | ⟨channel, hlookup, hjobs, hsession⟩
    · exact .inl hnew
    · rcases h.channels id channel hlookup with hold | ⟨htip, hawaits⟩
      · left
        intro id' j hj
        rw [hjobs] at hj
        exact hold id' j hj
      · right
        refine ⟨hd ▸ htip, ?_⟩
        rcases hawaits with ⟨hmain, hmem⟩ | hcreate
        · exact .inl ⟨hmain, hsession hmem⟩
        · exact .inr hcreate
  · rw [hd]
    exact h.validating
  · rw [hd]
    exact h.crediting

theorem jobsCurrent_connect (k : Nat) : JobsCurrent (s.connect k) main := by
  refine h.congr rfl ?_
  intro id channel hlookup
  exact .inr ⟨channel, hlookup, rfl, List.mem_cons_of_mem _⟩

theorem jobsCurrent_storeChannel (k : Nat) (id : UInt32) :
    JobsCurrent (s.storeChannel env k id) main := by
  refine h.congr rfl ?_
  intro id' channel hlookup
  rcases Table.of_lookup_insert hlookup with ⟨-, rfl⟩ | hlookup
  · left
    intro id'' j hj
    exact absurd hj (by simp [PoolState.newChannel])
  · exact .inr ⟨channel, hlookup, rfl, fun hmem => hmem⟩

theorem jobsCurrent_initialJob (k : Nat) (id : UInt32) (now : Nat) :
    JobsCurrent (s.initialJob k id now) main := by
  unfold PoolState.initialJob
  split
  · refine h.congr rfl ?_
    intro id' channel hlookup
    exact .inr ⟨channel, hlookup, rfl, fun hmem => hmem⟩
  · split
    · refine h.congr rfl ?_
      intro id' channel hlookup
      exact .inr ⟨channel, hlookup, rfl, fun hmem => hmem⟩
    · rename_i hjob
      refine h.congr rfl ?_
      intro id' channel hlookup
      rcases Table.of_lookup_insert hlookup with ⟨-, rfl⟩ | hlookup
      · exact .inl (current_addJob hjob (fun hclean => absurd hclean (by simp)))
      · exact .inr ⟨channel, hlookup, rfl, fun hmem => hmem⟩

theorem jobsCurrent_drop (ids : List UInt32) : JobsCurrent (s.drop ids) main := by
  refine h.congr rfl ?_
  intro id channel hlookup
  obtain ⟨hlookup, hkept⟩ := Table.of_lookup_retain hlookup
  exact .inr ⟨channel, hlookup, rfl, fun hmem => List.mem_filter.mpr ⟨hmem, hkept⟩⟩

theorem jobsCurrent_modifyChannel (id : UInt32) {f : Channel → Channel}
    (hf : ∀ c, (f c).jobs = c.jobs) : JobsCurrent (s.modifyChannel id f) main := by
  refine h.congr rfl ?_
  intro id' channel' hlookup
  obtain ⟨channel, hold, ⟨⟩⟩ := Table.of_lookup_pass hlookup
  refine .inr ⟨channel, hold, ?_, fun hmem => hmem⟩
  split
  · exact hf channel
  · rfl

end

theorem registered_modifyChannel (h : Registered s main) (id : UInt32) (f : Channel → Channel) :
    Registered (s.modifyChannel id f) main := by
  refine h.congr rfl rfl ?_
  intro id'
  simp only [PoolState.modifyChannel, Table.lookup_pass]
  cases s.channels.lookup id' <;> rfl

/-! ## Steps of the main loop -/

/-- Where no broadcast is under way every channel is current. -/
theorem JobsCurrent.of_main (h : JobsCurrent s main) (hawaits : ∀ id, ¬ AwaitsClean s main id)
    (hvalidating : ∀ id share job t, main' = .validateShare id share job t →
      s.distributor.prevHash = some job.prevHash)
    (hcrediting : ∀ id share header difficulty, main' = .creditShare id share header difficulty →
      s.distributor.prevHash = some (headerPrevHash header)) : JobsCurrent s main' := by
  refine ⟨?_, hvalidating, hcrediting⟩
  intro id channel hlookup
  rcases h.channels id channel hlookup with hcurrent | hawait
  · exact .inl hcurrent
  · exact absurd hawait (hawaits id)

/-- A template for a new block leaves every channel to the broadcast; one for the same block
changes nothing for the jobs. -/
theorem jobsCurrent_updateTemplate (h : JobsCurrent s main) (hregistered : Registered s main)
    (hawaits : ∀ id, ¬ AwaitsClean s main id) (t : BlockTemplate) :
    JobsCurrent { s with distributor := (s.distributor.updateTemplate t).1 }
      (.readSessions (s.distributor.updateTemplate t).2 : MainLoop F) := by
  refine ⟨?_, by simp, by simp⟩
  intro id channel hlookup
  by_cases hsame : s.distributor.prevHash = some t.prevHash
  · left
    rcases h.channels id channel hlookup with hcurrent | hawait
    · intro id' j hj hactive
      exact hsame.symm.trans (hcurrent id' j hj hactive)
    · exact absurd hawait (hawaits id)
  · right
    have hnew : (s.distributor.updateTemplate t).2 = true := by
      simpa [JobDistributor.updateTemplate] using hsame
    rw [hnew]
    exact ⟨rfl, .inl ⟨rfl, hregistered.session id (hlookup ▸ rfl)⟩⟩

theorem jobsCurrent_readSessions (h : JobsCurrent s (.readSessions cleanJobs : MainLoop F)) :
    JobsCurrent s (.createJobs cleanJobs s.sessions : MainLoop F) := by
  refine ⟨?_, by simp, by simp⟩
  intro id channel hlookup
  rcases h.channels id channel hlookup with hcurrent | ⟨htip, hawaits⟩
  · exact .inl hcurrent
  · rcases hawaits with ⟨hmain, hmem⟩ | ⟨ids, hmain, -⟩
    · injection hmain with hclean
      rw [hclean]
      exact .inr ⟨htip, .inr ⟨s.sessions, rfl, hmem⟩⟩
    · cases hmain

theorem jobsCurrent_createJobs (h : JobsCurrent s (.createJobs cleanJobs ids : MainLoop F))
    (now : Nat) :
    JobsCurrent (s.broadcast cleanJobs ids now).1
      (.dropSlow cleanJobs (s.broadcast cleanJobs ids now).2 : MainLoop F) := by
  have hshape := (PoolState.broadcast_shape cleanJobs now ids (s, [])).1
  refine ⟨?_, by simp, by simp⟩
  intro id channel hlookup
  left
  rw [PoolState.broadcast, hshape.distributor]
  refine current_broadcast cleanJobs now ids (s, []) ?_ id channel hlookup
  intro id' channel' hlookup'
  rcases h.channels id' channel' hlookup' with hcurrent | ⟨htip, hawaits⟩
  · exact .inl hcurrent
  · rcases hawaits with ⟨hmain, -⟩ | ⟨ids', hmain, hmem⟩
    · cases hmain
    · injection hmain with hclean hids
      exact .inr ⟨htip, hclean, hids ▸ hmem⟩

end MiningInfra.Pool
