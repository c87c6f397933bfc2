import MiningInfra.Pool.CreditOnce
import Mathlib.Data.Set.Lattice
import Mathlib.Order.CompletePartialOrder

/-!
# Who searches which nonces

Every channel is given the first bytes of the 32-byte nonce and leaves the rest to its miner.
`PoolConfig::validate` allows one to 31 such bytes. They are the low bytes of the channel's id,
so how far the channels are apart depends on how many of the four bytes of an id fit.
-/

namespace MiningInfra.Pool

open Lib Coinbase Equihash Payout

/-! ## The configuration -/

inductive IpAddr where
  | v4 (octets : Fin 4 → UInt8)
  | v6 (octets : Fin 16 → UInt8)
  deriving DecidableEq

def IpAddr.isLoopback : IpAddr → Bool
  | .v4 octets => octets 0 = 127
  | .v6 octets => octets = fun i => if i = 15 then 1 else 0

structure SocketAddr where
  ip : IpAddr
  port : UInt16
  deriving DecidableEq

/-- The settings that `validate` reads. -/
structure PoolConfig (F : Type) where
  templatePollMs : UInt64
  validationThreads : UInt64
  nonce1Len : UInt8
  initialDifficulty : F
  targetSharesPerMinute : F
  maxConnections : UInt64
  jdListenAddr : Option SocketAddr
  poolPayoutScript : Option (List UInt8)
  payoutStatePath : Option String
  jdFullTemplateEnabled : Bool
  relayEnabled : Bool
  relayAuthKey : Option Bytes32
  relayDataShards : UInt64
  relayParityShards : UInt64
  timingJitterEnabled : Bool
  timingJitterMinMs : UInt64
  timingJitterMaxMs : UInt64
  controlAddr : Option SocketAddr
  controlAuthToken : Option String
  allowNonLoopbackBind : Bool

inductive ConfigError (F : Type) where
  | invalidNonce1Len (v : UInt8)
  | invalidDifficulty (v : F)
  | invalidTargetSharesPerMinute (v : F)
  | invalidValidationThreads (v : UInt64)
  | invalidTemplatePollMs (v : UInt64)
  | invalidMaxConnections (v : UInt64)
  | relayMissingAuthKey
  | invalidFecConfig (data parity : UInt64)
  | jdMissingPayoutScript
  | jdFullTemplateUnsupported
  | invalidTimingJitter (minMs maxMs : UInt64)
  | invalidFecShardTotal (total : UInt64)
  | invalidPayoutStatePath
  | controlAddrMissingToken
  | controlAddrNonLoopbackBind (addr : SocketAddr)
  deriving DecidableEq

namespace PoolConfig

variable {F : Type} [Float64 F]

/-- A difficulty or a rate: not positive, or not a finite number. -/
def notPositive (x : F) : Bool := Float64.le x Float64.zero || !Float64.isFinite x

/-- The checks of `validate`, in its order. -/
def checks (c : PoolConfig F) : List (Bool × ConfigError F) :=
  let total := c.relayDataShards + c.relayParityShards
  [(c.nonce1Len = 0 || 31 < c.nonce1Len, .invalidNonce1Len c.nonce1Len),
    (notPositive c.initialDifficulty, .invalidDifficulty c.initialDifficulty),
    (notPositive c.targetSharesPerMinute, .invalidTargetSharesPerMinute c.targetSharesPerMinute),
    (c.validationThreads = 0, .invalidValidationThreads c.validationThreads),
    (c.templatePollMs < 100, .invalidTemplatePollMs c.templatePollMs),
    (c.maxConnections = 0, .invalidMaxConnections c.maxConnections),
    (c.relayEnabled && c.relayAuthKey.isNone, .relayMissingAuthKey),
    (c.relayEnabled && (c.relayDataShards = 0 || c.relayParityShards = 0),
      .invalidFecConfig c.relayDataShards c.relayParityShards),
    (c.jdListenAddr.isSome && c.poolPayoutScript.all List.isEmpty, .jdMissingPayoutScript),
    (c.jdFullTemplateEnabled, .jdFullTemplateUnsupported),
    (c.payoutStatePath.any String.isEmpty, .invalidPayoutStatePath),
    (c.timingJitterEnabled && c.timingJitterMaxMs < c.timingJitterMinMs,
      .invalidTimingJitter c.timingJitterMinMs c.timingJitterMaxMs),
    (c.relayEnabled && 255 < total, .invalidFecShardTotal total),
    (c.controlAddr.isSome && c.controlAuthToken.all String.isEmpty, .controlAddrMissingToken)]
  ++ c.controlAddr.toList.map fun addr =>
    (!addr.ip.isLoopback && !c.allowNonLoopbackBind, .controlAddrNonLoopbackBind addr)

/-- The error of the first check that finds something. -/
def validate (c : PoolConfig F) : Except (ConfigError F) Unit :=
  match c.checks.find? Prod.fst with
  | some found => .error found.2
  | none => .ok ()

/-- `PoolConfig::default`, given the numbers of the difficulty and the share rate. -/
def default (initialDifficulty targetSharesPerMinute : F) : PoolConfig F where
  templatePollMs := 1000
  validationThreads := 4
  nonce1Len := 4
  initialDifficulty
  targetSharesPerMinute
  maxConnections := 10000
  jdListenAddr := none
  poolPayoutScript := none
  payoutStatePath := some "payout-state.json"
  jdFullTemplateEnabled := false
  relayEnabled := false
  relayAuthKey := none
  relayDataShards := 10
  relayParityShards := 3
  timingJitterEnabled := false
  timingJitterMinMs := 0
  timingJitterMaxMs := 50
  controlAddr := none
  controlAuthToken := none
  allowNonLoopbackBind := false

theorem nonce1Len_of_validate {c : PoolConfig F} (h : c.validate = .ok ()) :
    1 ≤ c.nonce1Len.toNat ∧ c.nonce1Len.toNat ≤ 31 := by
  have hnone : c.checks.find? Prod.fst = none := by
    cases hfind : c.checks.find? Prod.fst with
    | none => rfl
    | some found => rw [validate, hfind] at h; cases h
  have hfirst := List.find?_eq_none.mp hnone _ List.mem_cons_self
  simp only [Bool.or_eq_true, decide_eq_true_eq, not_or, UInt8.not_lt] at hfirst
  have hpos : c.nonce1Len.toNat ≠ 0 := fun hz => hfirst.1 (UInt8.toNat_inj.mp hz)
  have hle := UInt8.le_iff_toNat_le.mp hfirst.2
  exact ⟨Nat.one_le_iff_ne_zero.mpr hpos, hle⟩

end PoolConfig

/-! ## What holds of every channel -/

variable {F : Type}

/-- A property of channels that a new channel has and that nothing the pool does to a channel
can break. -/
structure ChannelInvariant (env : Env F) (P : UInt32 → Channel → Prop) : Prop where
  new : ∀ id, P id (PoolState.newChannel env id)
  addJob : ∀ (d : JobDistributor) (id : UInt32) (channel : Channel) (jobId : UInt32)
    (job : NewEquihashJob) (template : BlockTemplate) (cleanJobs : Bool) (now : Nat),
    d.createJob channel jobId = some (job, template) → P id channel →
      P id (channel.addJob job template cleanJobs now)
  retarget : ∀ id channel target, P id channel → P id { channel with target }
  identify : ∀ id channel workerIdentity, P id channel → P id { channel with workerIdentity }

/-- All channels have the property. -/
def Everywhere (P : UInt32 → Channel → Prop) (s : PoolState) : Prop :=
  ∀ id channel, s.channels.lookup id = some channel → P id channel

section Rule

variable {env : Env F} {P : UInt32 → Channel → Prop}

variable {s : PoolState} {w w' : World F}

theorem Everywhere.insert {s' : PoolState} (h : Everywhere P s) {id : UInt32} {channel : Channel}
    (hnew : P id channel) (hs : s'.channels = s.channels.insert id channel) : Everywhere P s' := by
  intro id' channel' hlookup
  rw [hs] at hlookup
  rcases Table.of_lookup_insert hlookup with ⟨rfl, rfl⟩ | hlookup
  · exact hnew
  · exact h id' channel' hlookup

theorem Everywhere.drop (h : Everywhere P s) (ids : List UInt32) : Everywhere P (s.drop ids) := by
  intro id channel hlookup
  exact h id channel (Table.of_lookup_retain hlookup).1

theorem Everywhere.modifyChannel (h : Everywhere P s) (id : UInt32) {f : Channel → Channel}
    (hf : ∀ id channel, P id channel → P id (f channel)) : Everywhere P (s.modifyChannel id f) := by
  intro id' channel' hlookup
  obtain ⟨old, hold, ⟨⟩⟩ := Table.of_lookup_pass hlookup
  split
  · exact hf id' old (h id' old hold)
  · exact h id' old hold

theorem ChannelInvariant.initialJob (hP : ChannelInvariant env P) (h : Everywhere P s) (k : Nat)
    (id : UInt32) (now : Nat) : Everywhere P (s.initialJob k id now) := by
  unfold PoolState.initialJob
  split
  · exact h
  · rename_i channel hchannel
    split
    · exact h
    · rename_i job template hjob
      exact h.insert (hP.addJob _ _ _ _ _ _ true now hjob (h id channel hchannel)) rfl

theorem ChannelInvariant.broadcastTo (hP : ChannelInvariant env P) {s : PoolState × List UInt32}
    (h : Everywhere P s.1) (cleanJobs : Bool) (now : Nat) (id : UInt32) :
    Everywhere P (PoolState.broadcastTo cleanJobs now s id).1 := by
  unfold PoolState.broadcastTo
  split
  · exact h
  · rename_i channel hchannel
    split
    · exact h
    · rename_i job template hjob
      exact h.insert (hP.addJob _ _ _ _ _ _ cleanJobs now hjob (h id channel hchannel)) rfl

theorem ChannelInvariant.broadcast (hP : ChannelInvariant env P) (cleanJobs : Bool) (now : Nat) :
    ∀ (ids : List UInt32) {s : PoolState × List UInt32}, Everywhere P s.1 →
      Everywhere P (ids.foldl (PoolState.broadcastTo cleanJobs now) s).1
  | [], _, h => h
  | id :: ids, _, h => hP.broadcast cleanJobs now ids (hP.broadcastTo h cleanJobs now id)

variable [Float64 F]

theorem World.pool_advanceBatch (env : Env F) (w : World F) (now : Nat) (call : Jd.ShareCall) :
    (w.advanceBatch env now call).1.pool = w.pool := by
  cases call with
  | credit b share =>
    simp only [World.advanceBatch, World.creditJd]
    split <;> rfl
  | _ => rfl

theorem ChannelInvariant.mainStep (hP : ChannelInvariant env P) {now : Nat} {slow : List UInt32}
    (h : Everywhere P w.pool) (hnext : w.mainStep env now slow = some w') :
    Everywhere P w'.pool := by
  cases hmain : w.main <;> simp only [World.mainStep, hmain, reduceCtorEq] at hnext
  case updateJd template =>
    obtain ⟨-, rfl⟩ := of_guard_not hnext
    exact h
  case createJobs cleanJobs sessions =>
    cases hnext
    exact hP.broadcast cleanJobs now sessions h
  case dropSlow cleanJobs sent =>
    cases hnext
    exact h.drop _
  case creditShare channelId share header difficulty =>
    cases hnext
    unfold World.creditShare
    split
    · split <;> exact h
    · exact h
  all_goals
    cases hnext
    exact h

theorem ChannelInvariant.next (hP : ChannelInvariant env P) {e : Event} (h : Everywhere P w.pool)
    (hnext : next env w e = some w') : Everywhere P w'.pool := by
  cases Step.of_next hnext with
  | jd | template | submit | connect | submitJd => exact h
  | main hnext => exact hP.mainStep h hnext
  | storeChannel => exact h.insert (hP.new _) rfl
  | initialJob => exact hP.initialJob h _ _ _
  | disconnect => exact h.drop _
  | retarget id target => exact h.modifyChannel id fun id channel => hP.retarget id channel target
  | @identify id => exact h.modifyChannel id fun id channel => hP.identify id channel _
  | @resumeJd t now call =>
    have hpool : ((w.advanceBatch env now call).1.setBatch t (w.advanceBatch env now call).2).pool
        = w.pool := World.pool_advanceBatch env w now call
    rw [hpool]
    exact h

/-- **The rule for channels**: such a property holds of every channel of every run. -/
theorem ChannelInvariant.reach (hP : ChannelInvariant env P) {ok : World F → Event → Prop}
    (hreach : Reach (Pool.next env) ok Fresh w) : Everywhere P w.pool := by
  refine hreach.invariant (I := fun w => Everywhere P w.pool) ?_ ?_
  · rintro s ⟨persistent, rfl⟩ id channel hlookup
    exact absurd hlookup (by simp [World.new, PoolState.new])
  · intro s e s' hs _ hnext
    exact hP.next hs hnext

end Rule

/-! ## Prefixes -/

/-- The low bytes of a number are its remainder. -/
theorem leNat_leBytes_mod (width n : Nat) : leNat (leBytes width n) = n % 256 ^ width := by
  induction width generalizing n with
  | zero => rw [Nat.pow_zero, Nat.mod_one]; rfl
  | succ width ih =>
    have hmod : n % 256 ^ (width + 1) = n % 256 + 256 * (n / 256 % 256 ^ width) := by
      rw [Nat.pow_succ', Nat.mod_mul]
    rw [leBytes, leNat, ih, UInt8.toNat_ofNat']
    exact hmod.symm

theorem leBytes_eq_iff (width a b : Nat) :
    leBytes width a = leBytes width b ↔ a % 256 ^ width = b % 256 ^ width := by
  rw [← leNat_leBytes_mod, ← leNat_leBytes_mod]
  constructor
  · intro h
    rw [h]
  · intro h
    have ha := leBytes_leNat (leBytes width a)
    have hb := leBytes_leNat (leBytes width b)
    rw [length_leBytes] at ha hb
    rw [← ha, ← hb, h]

theorem take_leBytes (k width n : Nat) : (leBytes width n).take k = leBytes (min k width) n := by
  induction width generalizing k n with
  | zero => simp [leBytes]
  | succ width ih =>
    cases k with
    | zero => simp [leBytes]
    | succ k => rw [leBytes, List.take_succ_cons, ih, Nat.succ_min_succ, leBytes]

theorem Channel.length_generateNonce1 (id : UInt32) (len : Nat) :
    (generateNonce1 id len).length = len := by
  rw [generateNonce1, List.length_append, List.length_take, length_u32Bytes, List.length_replicate]
  omega

/-- Two ids have the same prefix exactly when the bytes of them that fit are the same. -/
theorem Channel.generateNonce1_eq_iff (i j : UInt32) (len : Nat) :
    generateNonce1 i len = generateNonce1 j len
      ↔ i.toNat % 256 ^ min len 4 = j.toNat % 256 ^ min len 4 := by
  rw [generateNonce1, generateNonce1, List.append_left_inj, u32Bytes, u32Bytes, take_leBytes,
    take_leBytes, leBytes_eq_iff]

/-! ## The nonces of a channel -/

/-- What a miner can make with `build_nonce` out of any job the distributor may give the channel. -/
def Channel.nonces (channel : Channel) : Set (List UInt8) :=
  {nonce | ∃ (d : JobDistributor) (jobId : UInt32) (job : NewEquihashJob) (t : BlockTemplate)
    (nonce2 : List UInt8), d.createJob channel jobId = some (job, t)
      ∧ job.buildNonce nonce2 = some nonce}

variable {job : NewEquihashJob} {nonce2 nonce : List UInt8} {channel : Channel} {jobId id : UInt32}
  {template : BlockTemplate} {j : ChannelJob}

theorem NewEquihashJob.buildNonce_eq_some : job.buildNonce nonce2 = some nonce
      ↔ nonce2.length = job.nonce2Len ∧ nonce = job.nonce1 ++ nonce2 := by
  unfold buildNonce
  split
  · simp_all
  · rename_i hlen
    rw [Option.some.injEq, eq_comm]
    exact ⟨fun h => ⟨not_not.mp hlen, h⟩, fun h => h.2⟩

theorem JobDistributor.nonce_createJob {d : JobDistributor}
    (h : d.createJob channel jobId = some (job, template)) :
    job.nonce1 = channel.nonce1 ∧ job.nonce2Len = channel.nonce2Len := by
  obtain ⟨t, -, heq⟩ := Option.map_eq_some_iff.mp h
  injection heq with hjob _
  rw [← hjob]
  exact ⟨rfl, rfl⟩

theorem Channel.mem_nonces (channel : Channel) (nonce : List UInt8) : nonce ∈ channel.nonces
      ↔ ∃ nonce2, nonce2.length = channel.nonce2Len ∧ nonce = channel.nonce1 ++ nonce2 := by
  constructor
  · rintro ⟨d, jobId, job, t, nonce2, hjob, hnonce⟩
    obtain ⟨h₁, h₂⟩ := JobDistributor.nonce_createJob hjob
    rw [NewEquihashJob.buildNonce_eq_some, h₁, h₂] at hnonce
    exact ⟨nonce2, hnonce⟩
  · rintro ⟨nonce2, hlen, rfl⟩
    -- any template will do
    let t : BlockTemplate := ⟨0, fun _ => 0, fun _ => 0, fun _ => 0, 0, 0, fun _ => 0, [], [],
      fun _ => 0, 0⟩
    exact ⟨(JobDistributor.new.updateTemplate t).1, 1, _, t, nonce2, rfl,
      NewEquihashJob.buildNonce_eq_some.mpr ⟨hlen, rfl⟩⟩

/-- Channels with prefixes of one length are apart exactly when the prefixes differ. -/
theorem Channel.disjoint_nonces_iff {a b : Channel} (hlen : a.nonce1.length = b.nonce1.length) :
    Disjoint a.nonces b.nonces ↔ a.nonce1 ≠ b.nonce1 := by
  rw [Set.disjoint_left]
  constructor
  · intro h heq
    refine h ((a.mem_nonces _).mpr ⟨List.replicate a.nonce2Len 0, List.length_replicate, rfl⟩) ?_
    refine (b.mem_nonces _).mpr ⟨List.replicate a.nonce2Len 0, ?_, by rw [heq]⟩
    rw [List.length_replicate, nonce2Len, nonce2Len, hlen]
  · intro hne nonce ha hb
    obtain ⟨n₁, -, h₁⟩ := (a.mem_nonces nonce).mp ha
    obtain ⟨n₂, -, h₂⟩ := (b.mem_nonces nonce).mp hb
    exact hne (List.append_inj_left (h₁.symm.trans h₂) hlen)

/-- A channel is stored under its id, its prefix is made of the id, and its jobs have it. -/
structure Numbered (env : Env F) (id : UInt32) (channel : Channel) : Prop where
  key : channel.id = id
  nonce1 : channel.nonce1 = Channel.generateNonce1 id env.nonce1Len
  jobs : ∀ jobId j, channel.jobs.lookup jobId = some j →
    j.job.nonce1 = channel.nonce1 ∧ j.job.nonce2Len = channel.nonce2Len

/-- A job of a channel after `add_job` is the new one, or an old one up to whether it is active. -/
theorem Channel.job_of_lookup_addJob {cleanJobs : Bool} {now : Nat}
    (h : (channel.addJob job template cleanJobs now).jobs.lookup id = some j) :
    j.job = job ∨ ∃ old, channel.jobs.lookup id = some old ∧ j.job = old.job := by
  have hlookup := lookup_evict _ h
  rcases Table.of_lookup_insert hlookup with ⟨-, rfl⟩ | hlookup
  · exact .inl rfl
  · cases cleanJobs with
    | false => exact .inr ⟨j, hlookup, rfl⟩
    | true =>
      obtain ⟨old, hold, ⟨⟩⟩ := Table.of_lookup_pass hlookup
      exact .inr ⟨old, hold, rfl⟩

theorem numbered_invariant (env : Env F) : ChannelInvariant env (Numbered env) where
  new id := ⟨rfl, rfl, fun jobId j h => absurd h (by simp [PoolState.newChannel])⟩
  addJob := by
    intro d id channel jobId job template cleanJobs now hjob h
    refine { h with jobs := ?_ }
    intro jobId' j hj
    rcases Channel.job_of_lookup_addJob hj with heq | ⟨old, hold, heq⟩
    · rw [heq]
      exact JobDistributor.nonce_createJob hjob
    · rw [heq]
      exact h.jobs jobId' old hold
  retarget _ _ _ h := { h with }
  identify _ _ _ h := { h with }

/-- A job that a channel holds gives nonces of this channel. -/
theorem Channel.mem_nonces_of_job {env : Env F} (h : Numbered env id channel)
    (hj : channel.jobs.lookup jobId = some j) (hnonce : j.job.buildNonce nonce2 = some nonce) :
    nonce ∈ channel.nonces := by
  obtain ⟨h₁, h₂⟩ := h.jobs jobId j hj
  rw [NewEquihashJob.buildNonce_eq_some, h₁, h₂] at hnonce
  exact (channel.mem_nonces nonce).mpr ⟨nonce2, hnonce⟩

theorem length_of_mem_nonces (hlen : channel.nonce1.length ≤ 32) (h : nonce ∈ channel.nonces) :
    nonce.length = 32 := by
  obtain ⟨nonce2, hn, rfl⟩ := (channel.mem_nonces nonce).mp h
  rw [List.length_append, hn, Channel.nonce2Len]
  omega

variable [Float64 F]

/-- **How far channels are apart.** In every run of a pool whose configuration is valid, the
nonces of two channels are disjoint exactly when the ids differ in the bytes that fit in the
prefix, so always with at least four bytes. Every job a channel holds gives 32-byte nonces of the
channel. -/
theorem nonces_disjoint_iff {config : PoolConfig F} (hvalid : config.validate = .ok ())
    {env : Env F} (henv : env.nonce1Len = config.nonce1Len.toNat) {w : World F}
    (hreach : Reach (next env) Any Fresh w) {i j : UInt32} {a b : Channel}
    (ha : w.pool.channels.lookup i = some a) (hb : w.pool.channels.lookup j = some b) :
    (Disjoint a.nonces b.nonces
      ↔ i.toNat % 256 ^ min config.nonce1Len.toNat 4 ≠ j.toNat % 256 ^ min config.nonce1Len.toNat 4)
    ∧ (4 ≤ config.nonce1Len.toNat → i ≠ j → Disjoint a.nonces b.nonces)
    ∧ ∀ jobId job nonce2 nonce, a.jobs.lookup jobId = some job →
      job.job.buildNonce nonce2 = some nonce → nonce ∈ a.nonces ∧ nonce.length = 32 := by
  have hnumbered := (numbered_invariant env).reach hreach
  have hA := hnumbered i a ha
  have hB := hnumbered j b hb
  obtain ⟨-, hle⟩ := PoolConfig.nonce1Len_of_validate hvalid
  have hlenA : a.nonce1.length = config.nonce1Len.toNat := by
    rw [hA.nonce1, Channel.length_generateNonce1, henv]
  have hlenB : b.nonce1.length = config.nonce1Len.toNat := by
    rw [hB.nonce1, Channel.length_generateNonce1, henv]
  have hiff : Disjoint a.nonces b.nonces ↔ i.toNat % 256 ^ min config.nonce1Len.toNat 4
      ≠ j.toNat % 256 ^ min config.nonce1Len.toNat 4 := by
    rw [Channel.disjoint_nonces_iff (hlenA.trans hlenB.symm), hA.nonce1, hB.nonce1, henv, ne_eq,
      Channel.generateNonce1_eq_iff]
  refine ⟨hiff, ?_, ?_⟩
  · -- four bytes hold the whole id
    intro hfour hne
    have hspan : 256 ^ 4 = 2 ^ 32 := by decide
    rw [hiff, Nat.min_eq_right hfour, hspan, Nat.mod_eq_of_lt i.toNat_lt,
      Nat.mod_eq_of_lt j.toNat_lt]
    exact fun heq => hne (UInt32.toNat_inj.mp heq)
  · intro jobId job nonce2 nonce hjob hnonce
    have hmem := Channel.mem_nonces_of_job hA hjob hnonce
    exact ⟨hmem, length_of_mem_nonces (by omega) hmem⟩

/-! ## One byte -/

/-- A pool that gives its channels prefixes of one byte. -/
def shortEnv : Env Nat := { sampleEnv with nonce1Len := 1 }

def shortConfig : PoolConfig Nat := { PoolConfig.default 1 5 with nonce1Len := 1 }

/-- A miner connects and stays. Another connects and leaves 255 times, and then comes back. -/
def manyConnect : List Event :=
  let connectEvents k := [.connect k, .setup k 1, .setup k 1]
  connectEvents 0 ++ (List.replicate 255 (connectEvents 1 ++ [.disconnect 1])).flatten
    ++ connectEvents 1

theorem exists_crowded : ∃ w : World Nat, Reach (next shortEnv) Any Fresh w
    ∧ ((w.pool.channels.lookup 1).isSome && (w.pool.channels.lookup 257).isSome) = true := by
  refine Reach.any_of_exec (.new true) (fresh_new true) manyConnect ?_
  decide +kernel

theorem validate_shortConfig : shortConfig.validate = .ok () := by decide

/-- The two channels of that run share all their nonces. -/
theorem crowded_share_nonces : ∃ (w : World Nat) (a b : Channel),
    Reach (next shortEnv) Any Fresh w ∧ w.pool.channels.lookup 1 = some a
      ∧ w.pool.channels.lookup 257 = some b ∧ ¬ Disjoint a.nonces b.nonces := by
  obtain ⟨w, hreach, hw⟩ := exists_crowded
  obtain ⟨hA, hB⟩ := (Bool.and_eq_true _ _).mp hw
  obtain ⟨a, ha⟩ := Option.isSome_iff_exists.mp hA
  obtain ⟨b, hb⟩ := Option.isSome_iff_exists.mp hB
  refine ⟨w, a, b, hreach, ha, hb, ?_⟩
  rw [(nonces_disjoint_iff validate_shortConfig rfl hreach ha hb).1]
  decide

/-- **Two miners with the same work.** One byte is a valid length, and the ids 1 and 257 have the
same low byte. -/
theorem one_byte_nonces_shared :
    ¬ ∀ (config : PoolConfig Nat) (env : Env Nat) (w : World Nat) (i j : UInt32) (a b : Channel),
      config.validate = .ok () → env.nonce1Len = config.nonce1Len.toNat →
      Reach (next env) Any Fresh w → w.pool.channels.lookup i = some a →
      w.pool.channels.lookup j = some b → i ≠ j → Disjoint a.nonces b.nonces := by
  intro hall
  obtain ⟨w, hreach, hw⟩ := exists_crowded
  obtain ⟨hA, hB⟩ := (Bool.and_eq_true _ _).mp hw
  obtain ⟨a, ha⟩ := Option.isSome_iff_exists.mp hA
  obtain ⟨b, hb⟩ := Option.isSome_iff_exists.mp hB
  have hdisjoint := hall shortConfig shortEnv w 1 257 a b validate_shortConfig rfl hreach ha hb
    (by decide)
  have hnumbered := (numbered_invariant shortEnv).reach hreach
  have hlen : a.nonce1.length = b.nonce1.length := by
    rw [(hnumbered 1 a ha).nonce1, (hnumbered 257 b hb).nonce1]
    rfl
  refine (Channel.disjoint_nonces_iff hlen).mp hdisjoint ?_
  rw [(hnumbered 1 a ha).nonce1, (hnumbered 257 b hb).nonce1]
  rfl

end MiningInfra.Pool
