import MiningInfra.Jd.Workers
import MiningInfra.Pool.Batches

/-!
# The workers of a pool

A worker has a row in the payout map once a share was credited to it. What can still become a
row is the worker of a token, of a job declared with it or of a batch for that job, or the
identity of a channel. `World.workers` lists all of that together with the rows; no step adds to
it but the allocation of a token and the declaration of an identity. Nor does any step of the
pool look at the rows.
-/

namespace MiningInfra.Payout

/-- The ids that do not use the ephemeral prefix. -/
def named (ids : List MinerId) : List MinerId := ids.filter fun id => !isEphemeralMinerId id

def Tracker.namedWorkerCount {F : Type} (t : Tracker F) : Nat := (named t.miners.keys).length

end MiningInfra.Payout

namespace MiningInfra.Pool

open Lib Payout

variable {F : Type}

/-! ## Who is or can become a row -/

/-- The identities of the channels. -/
def PoolState.identities (s : PoolState) : List String :=
  s.channels.gather fun channel => channel.workerIdentity.toList

def World.rows (w : World F) : List MinerId := w.ledger.tracker.miners.keys

/-- The rows, and everyone a share can still be credited to. -/
def World.workers (w : World F) : List String :=
  w.rows ++ (w.jd.workers ++ (w.batches.gather Jd.ShareCall.clientIds ++ w.pool.identities))

/-- The number of named workers among them. -/
def workerCount (ids : List MinerId) : Nat := (named ids).toFinset.card

theorem workerCount_mono {ids ids' : List MinerId} (h : named ids ⊆ ids') :
    workerCount ids ≤ workerCount ids' := by
  refine Finset.card_le_card ?_
  intro id hid
  have hmem := List.mem_toFinset.mp hid
  exact List.mem_toFinset.mpr (List.mem_filter.mpr ⟨h hmem, (List.mem_filter.mp hmem).2⟩)

theorem named_subset (ids : List MinerId) : named ids ⊆ ids := List.filter_subset_self _

theorem named_append (ids ids' : List MinerId) : named (ids ++ ids') = named ids ++ named ids' :=
  List.filter_append ..

theorem namedWorkerCount_le_workerCount (w : World F) :
    w.ledger.tracker.namedWorkerCount ≤ workerCount w.workers := by
  have hnodup : (named w.rows).Nodup := w.ledger.tracker.miners.nodupKeys.filter _
  calc w.ledger.tracker.namedWorkerCount
      = (named w.rows).toFinset.card := (List.toFinset_card_of_nodup hnodup).symm
    _ ≤ workerCount w.workers :=
        workerCount_mono (List.Subset.trans (named_subset _) (List.subset_append_left _ _))

/-! ### Channels -/

namespace PoolState

theorem identities_insert {s : PoolState} {id : UInt32} {channel : Channel}
    (h : channel.workerIdentity = none
      ∨ ∃ old, s.channels.lookup id = some old ∧ channel.workerIdentity = old.workerIdentity) :
    Table.gather (fun c : Channel => c.workerIdentity.toList) (s.channels.insert id channel)
      ⊆ s.identities := by
  refine List.Subset.trans (Table.gather_insert_subset _ _ _ _) ?_
  refine List.append_subset.mpr ⟨?_, List.Subset.refl _⟩
  rcases h with hnone | ⟨old, hold, hsame⟩
  · rw [hnone]
    exact List.nil_subset _
  · intro name hname
    rw [hsame] at hname
    exact Table.mem_gather.mpr ⟨id, old, hold, hname⟩

theorem identities_initialJob (s : PoolState) (k : Nat) (id : UInt32) (now : Nat) :
    (s.initialJob k id now).identities ⊆ s.identities := by
  unfold initialJob
  cases hlookup : s.channels.lookup id with
  | none => exact List.Subset.refl _
  | some channel =>
    cases hjob : s.distributor.createJob channel s.nextJobId with
    | none => simp only [hjob]; exact List.Subset.refl _
    | some job => simp only [hjob]; exact identities_insert (.inr ⟨channel, hlookup, rfl⟩)

theorem identities_broadcastTo (cleanJobs : Bool) (now : Nat) (s : PoolState × List UInt32)
    (id : UInt32) : (broadcastTo cleanJobs now s id).1.identities ⊆ s.1.identities := by
  unfold broadcastTo
  cases hlookup : s.1.channels.lookup id with
  | none => exact List.Subset.refl _
  | some channel =>
    cases hjob : s.1.distributor.createJob channel s.1.nextJobId with
    | none => simp only [hjob]; exact List.Subset.refl _
    | some job => simp only [hjob]; exact identities_insert (.inr ⟨channel, hlookup, rfl⟩)

theorem identities_broadcast (s : PoolState) (cleanJobs : Bool) (sessions : List UInt32)
    (now : Nat) : (s.broadcast cleanJobs sessions now).1.identities ⊆ s.identities := by
  suffices h : ∀ (sessions : List UInt32) (p : PoolState × List UInt32),
      (sessions.foldl (broadcastTo cleanJobs now) p).1.identities ⊆ p.1.identities from
    h sessions (s, [])
  intro sessions
  induction sessions with
  | nil => intro p; exact List.Subset.refl _
  | cons id sessions ih =>
    intro p
    exact List.Subset.trans (ih _) (identities_broadcastTo cleanJobs now p id)

theorem identities_drop (s : PoolState) (ids : List UInt32) :
    (s.drop ids).identities ⊆ s.identities :=
  Table.gather_retain_subset _ _ _

theorem identities_modifyChannel (s : PoolState) (id : UInt32) (f : Channel → Channel)
    {l : List String}
    (hf : ∀ c, s.channels.lookup id = some c →
      (f c).workerIdentity.toList ⊆ l ∨ (f c).workerIdentity = c.workerIdentity) :
    (s.modifyChannel id f).identities ⊆ l ++ s.identities := by
  refine Table.gather_subset fun k v hv => ?_
  obtain ⟨c, hc, hv⟩ := Table.of_lookup_pass hv
  injection hv with hv
  by_cases hk : k = id
  · subst hk
    rw [if_pos rfl] at hv
    subst hv
    rcases hf c hc with hl | hsame
    · exact .inl hl
    · exact .inr ⟨k, c, hc, by rw [hsame]; exact List.Subset.refl _⟩
  · rw [if_neg hk] at hv
    subst hv
    exact .inr ⟨k, c, hc, List.Subset.refl _⟩

end PoolState

/-! ### Rows -/

section Rows

variable [Float64 F]

theorem mem_keys_recordShare (t : Tracker F) (id : MinerId) (difficulty : F) (now : Nat)
    (id' : MinerId) :
    id' ∈ (t.recordShare id difficulty now).miners.keys ↔ id' = id ∨ id' ∈ t.miners.keys := by
  have hcredit : (t.recordShare id difficulty now).miners
      = ((t.openWindow now).creditMiner id difficulty now).miners := by
    unfold Tracker.recordShare
    split <;> rfl
  rw [hcredit]
  simp only [Tracker.creditMiner, Tracker.openWindow, ← AList.mem_keys, AList.mem_insert]

theorem rows_credit (env : Env F) (w : World F) (minerId : MinerId) (difficulty : F)
    (header solution : List UInt8) (now : Nat) :
    (w.credit env minerId difficulty header solution now).1.rows ⊆ minerId :: w.rows := by
  simp only [World.credit, World.rows, Ledger.tryRecordShareOnce]
  split
  · simp only
    split
    · intro id hid
      exact List.mem_cons.mpr ((mem_keys_recordShare _ _ _ _ id).mp hid)
    · exact List.subset_cons_self _ _
  · exact List.subset_cons_self _ _

theorem isEphemeralMinerId_channel (s : String) : isEphemeralMinerId ("channel_" ++ s) = true := by
  rw [isEphemeralMinerId, String.toList_append, List.isPrefixOf_iff_prefix]
  exact List.prefix_append _ _

/-- A share on a channel is credited to its identity or to an ephemeral worker. -/
theorem workerLabel_mem {s : PoolState} {id : UInt32} {channel : Channel}
    (hlookup : s.channels.lookup id = some channel) :
    isEphemeralMinerId channel.workerLabel = true ∨ channel.workerLabel ∈ s.identities := by
  unfold Channel.workerLabel
  cases hidentity : channel.workerIdentity with
  | none => exact .inl (isEphemeralMinerId_channel _)
  | some name =>
    exact .inr (Table.mem_gather.mpr ⟨id, channel, hlookup, by simp [hidentity]⟩)

end Rows

/-! ## No step brings in a worker unseen -/

/-- The worker an event brings in. -/
def Event.newWorkers : Event → List String
  | .jd e => e.newWorkers
  | .identify _ workerName => [workerName]
  | _ => []

theorem named_workers_subset {w' : World F} {l : List String} (hrows : named w'.rows ⊆ l)
    (hjd : w'.jd.workers ⊆ l) (hbatches : w'.batches.gather Jd.ShareCall.clientIds ⊆ l)
    (hpool : w'.pool.identities ⊆ l) : named w'.workers ⊆ l := by
  simp only [World.workers, named_append]
  refine List.append_subset.mpr ⟨hrows, List.append_subset.mpr ⟨?_, List.append_subset.mpr ⟨?_, ?_⟩⟩⟩
  · exact List.Subset.trans (named_subset _) hjd
  · exact List.Subset.trans (named_subset _) hbatches
  · exact List.Subset.trans (named_subset _) hpool

namespace World

variable (w : World F)

theorem rows_subset : w.rows ⊆ w.workers := List.subset_append_left _ _

theorem jd_subset : w.jd.workers ⊆ w.workers :=
  List.Subset.trans (List.subset_append_left _ _) (List.subset_append_right _ _)

theorem batches_subset : w.batches.gather Jd.ShareCall.clientIds ⊆ w.workers :=
  List.Subset.trans (List.subset_append_left _ _)
    (List.Subset.trans (List.subset_append_right _ _) (List.subset_append_right _ _))

theorem identities_subset : w.pool.identities ⊆ w.workers :=
  List.Subset.trans (List.subset_append_right _ _)
    (List.Subset.trans (List.subset_append_right _ _) (List.subset_append_right _ _))

theorem named_rows_subset : named w.rows ⊆ w.workers :=
  List.Subset.trans (named_subset _) w.rows_subset

end World

section Step

variable [Float64 F]

variable {env : Env F} {w w' : World F} {l : List String}

/-- The main loop: the jobs it hands out keep the identities, and a share is credited to one. -/
theorem workers_mainStep {now : Nat} {slow : List UInt32} (h : w.mainStep env now slow = some w') :
    named w'.workers ⊆ w.workers := by
  have hrest : ∀ {w' : World F}, w'.rows = w.rows → w'.jd = w.jd → w'.batches = w.batches →
      w'.pool.identities ⊆ w.pool.identities → named w'.workers ⊆ w.workers := by
    intro w' hrows hjd hbatches hpool
    refine named_workers_subset ?_ ?_ ?_ (List.Subset.trans hpool w.identities_subset)
    · rw [hrows]; exact w.named_rows_subset
    · rw [hjd]; exact w.jd_subset
    · rw [hbatches]; exact w.batches_subset
  cases hmain : w.main <;> simp only [World.mainStep, hmain, reduceCtorEq] at h
  case updateJd template =>
    obtain ⟨-, rfl⟩ := of_guard_not h
    exact hrest rfl rfl rfl (List.Subset.refl _)
  case createJobs cleanJobs sessions =>
    cases h
    exact hrest rfl rfl rfl (w.pool.identities_broadcast cleanJobs sessions now)
  case dropSlow cleanJobs sent =>
    cases h
    exact hrest rfl rfl rfl (w.pool.identities_drop _)
  case creditShare channelId share header difficulty =>
    cases h
    unfold World.creditShare
    split
    · rename_i channel d hlookup
      split
      · refine named_workers_subset ?_ w.jd_subset w.batches_subset w.identities_subset
        intro id hid
        obtain ⟨hmem, hnamed⟩ := List.mem_filter.mp hid
        rcases List.mem_cons.mp (rows_credit env _ _ _ _ _ _ hmem) with rfl | hrow
        · rcases workerLabel_mem hlookup with heph | hidentity
          · rw [heph] at hnamed
            cases hnamed
          · exact w.identities_subset hidentity
        · exact w.rows_subset hrow
      · exact hrest rfl rfl rfl (List.Subset.refl _)
    · exact hrest rfl rfl rfl (List.Subset.refl _)
  all_goals
    cases h
    exact hrest rfl rfl rfl (List.Subset.refl _)

theorem workers_creditJd (env : Env F) (w : World F) (b : Jd.Batch) (share : Jd.JdShare)
    (now : Nat) : (w.creditJd env b share now).1.rows ⊆ b.job.clientId :: w.rows := by
  unfold World.creditJd
  split
  · exact rows_credit env w _ _ _ _ now
  · exact List.subset_cons_self _ _

omit [Float64 F] in
theorem batches_setBatch_subset (w : World F) (thread : Nat) (call : Option Jd.ShareCall)
    (hold : w.batches.gather Jd.ShareCall.clientIds ⊆ l)
    (hcall : ∀ c, call = some c → c.clientIds ⊆ l) :
    (w.setBatch thread call).batches.gather Jd.ShareCall.clientIds ⊆ l := by
  cases call with
  | none => exact List.Subset.trans (Table.gather_erase_subset _ _ _) hold
  | some c =>
    exact List.Subset.trans (Table.gather_insert_subset _ _ _ _)
      (List.append_subset.mpr ⟨hcall c rfl, hold⟩)

/-- A section of a batch: the row of a credit is that of the worker of its job. -/
theorem workers_advanceBatch {thread : Nat} {call : Jd.ShareCall}
    (hcall : w.batches.lookup thread = some call) (now : Nat) :
    named ((w.advanceBatch env now call).1.setBatch thread (w.advanceBatch env now call).2).workers
      ⊆ w.workers := by
  have hids : call.clientIds ⊆ w.workers := by
    intro id hid
    exact w.batches_subset (Table.mem_gather.mpr ⟨thread, call, hcall, hid⟩)
  by_cases hcredit : ∃ b share, call = .credit b share
  · obtain ⟨b, share, rfl⟩ := hcredit
    obtain ⟨hbatches, -, hjd⟩ := batches_creditJd env w b share now
    have hclient : b.job.clientId ∈ w.workers := hids List.mem_cons_self
    have hpool : (w.creditJd env b share now).1.pool = w.pool := by
      unfold World.creditJd
      split <;> rfl
    refine named_workers_subset ?_ ?_ ?_ ?_
    · refine List.Subset.trans (named_subset _) ?_
      exact List.Subset.trans (workers_creditJd env w b share now)
        (List.cons_subset.mpr ⟨hclient, w.rows_subset⟩)
    · show (w.creditJd env b share now).1.jd.workers ⊆ w.workers
      rw [hjd]
      exact w.jd_subset
    · refine batches_setBatch_subset _ thread _ ?_ ?_
      · show (w.creditJd env b share now).1.batches.gather _ ⊆ w.workers
        rw [hbatches]
        exact w.batches_subset
      · intro c hc
        injection hc with hc
        rw [← hc, Jd.ShareCall.clientIds_settle]
        exact hids
    · show (w.creditJd env b share now).1.pool.identities ⊆ w.workers
      rw [hpool]
      exact w.identities_subset
  · rw [w.advanceBatch_of_not_credit env now hcredit]
    refine named_workers_subset w.named_rows_subset w.jd_subset ?_ w.identities_subset
    refine batches_setBatch_subset _ thread _ w.batches_subset ?_
    intro c hc
    have hright := Sum.getRight?_eq_some_iff.mp hc
    exact List.Subset.trans (Jd.ShareCall.clientIds_advance hright)
      (List.append_subset.mpr ⟨hids, w.jd_subset⟩)

omit [Float64 F] in
/-- A step that keeps the rows and the batches. -/
theorem named_workers_subset_of_frame (hrows : w'.rows = w.rows) (hbatches : w'.batches = w.batches)
    (hjd : w'.jd.workers ⊆ l ++ w.jd.workers)
    (hpool : w'.pool.identities ⊆ l ++ w.pool.identities) : named w'.workers ⊆ l ++ w.workers := by
  have hright : w.workers ⊆ l ++ w.workers := List.subset_append_right _ _
  have hleft : l ⊆ l ++ w.workers := List.subset_append_left _ _
  refine named_workers_subset ?_ ?_ ?_ ?_
  · rw [hrows]; exact List.Subset.trans w.named_rows_subset hright
  · exact List.Subset.trans hjd
      (List.append_subset.mpr ⟨hleft, List.Subset.trans w.jd_subset hright⟩)
  · rw [hbatches]; exact List.Subset.trans w.batches_subset hright
  · exact List.Subset.trans hpool
      (List.append_subset.mpr ⟨hleft, List.Subset.trans w.identities_subset hright⟩)

/-- **No step of the pool brings in a named worker but the one its event names.** -/
theorem workers_next {e : Event} (h : next env w e = some w') :
    named w'.workers ⊆ e.newWorkers ++ w.workers := by
  cases Step.of_next h with
  | jd _ hjd =>
    exact named_workers_subset_of_frame rfl rfl (Jd.World.workers_next hjd)
      (List.subset_append_right _ _)
  | template _ hjd =>
    exact named_workers_subset_of_frame (l := []) rfl rfl (Jd.World.workers_next hjd)
      (List.Subset.refl _)
  | submit | connect => exact named_subset _
  | main h => exact workers_mainStep h
  | storeChannel =>
    exact named_workers_subset_of_frame (l := []) rfl rfl (List.Subset.refl _)
      (PoolState.identities_insert (.inl rfl))
  | initialJob =>
    exact named_workers_subset_of_frame (l := []) rfl rfl (List.Subset.refl _)
      (w.pool.identities_initialJob _ _ _)
  | disconnect =>
    exact named_workers_subset_of_frame (l := []) rfl rfl (List.Subset.refl _)
      (w.pool.identities_drop _)
  | retarget =>
    exact named_workers_subset_of_frame (l := []) rfl rfl (List.Subset.refl _)
      (w.pool.identities_modifyChannel _ _ fun _ _ => .inr rfl)
  | identify =>
    refine named_workers_subset_of_frame rfl rfl (List.subset_append_right _ _)
      (w.pool.identities_modifyChannel _ _ fun c _ => ?_)
    cases hidentity : c.workerIdentity with
    | none => exact .inl (by simp [Event.newWorkers])
    | some name => exact .inr (by simp)
  | @submitJd thread now msg =>
    refine named_workers_subset w.named_rows_subset w.jd_subset ?_ w.identities_subset
    refine batches_setBatch_subset w thread (some (.findJob msg)) w.batches_subset ?_
    intro c hc
    cases hc
    exact List.nil_subset _
  | @resumeJd thread now call hcall => exact workers_advanceBatch hcall now

end Step

/-! ## No step looks at the rows -/

def World.withTracker (w : World F) (tracker : Tracker F) : World F :=
  { w with ledger := { w.ledger with tracker } }

section Unread

variable [Float64 F] {env : Env F}

/-- What became of two trackers in the same step: nothing, or the same credit. -/
def Follows (t t' u u' : Tracker F) : Prop :=
  (t' = t ∧ u' = u)
    ∨ ∃ id difficulty now, t' = t.recordShare id difficulty now ∧ u' = u.recordShare id difficulty now

section

variable (env : Env F) (w : World F) (u : Tracker F)

theorem credit_withTracker (minerId : MinerId) (difficulty : F) (header solution : List UInt8)
    (now : Nat) :
    ∃ u', (w.withTracker u).credit env minerId difficulty header solution now
        = ((w.credit env minerId difficulty header solution now).1.withTracker u',
          (w.credit env minerId difficulty header solution now).2)
      ∧ Follows w.ledger.tracker
        (w.credit env minerId difficulty header solution now).1.ledger.tracker u u' := by
  simp only [World.credit, World.withTracker, Ledger.tryRecordShareOnce]
  by_cases hvalid : validDifficulty difficulty
  · simp only [hvalid, if_true]
    by_cases hnew : (w.ledger.seenSolutions.insertIfNew (env.hashes.sha256 solution)).2
    · simp only [hnew, if_true]
      exact ⟨_, rfl, .inr ⟨minerId, difficulty, now, rfl, rfl⟩⟩
    · simp only [hnew]
      exact ⟨u, rfl, .inl ⟨rfl, rfl⟩⟩
  · simp only [hvalid]
    exact ⟨u, rfl, .inl ⟨rfl, rfl⟩⟩

theorem creditShare_withTracker (channelId : UInt32) (share : SubmitEquihashShare)
    (header : List UInt8) (difficulty : Option F) (now : Nat) :
    ∃ u', (w.withTracker u).creditShare env channelId share header difficulty now
        = (w.creditShare env channelId share header difficulty now).withTracker u'
      ∧ Follows w.ledger.tracker
        (w.creditShare env channelId share header difficulty now).ledger.tracker u u' := by
  unfold World.creditShare
  have hchannel : (w.withTracker u).pool.channels.lookup channelId
      = w.pool.channels.lookup channelId := rfl
  rw [hchannel]
  split
  · rename_i channel d _
    by_cases hactive : channel.isJobActive share.jobId now
    · simp only [hactive, if_true]
      obtain ⟨u', hcredit, hfollows⟩ := credit_withTracker env { w with main := .idle } u
        channel.workerLabel d header share.solution now
      exact ⟨u', congrArg Prod.fst hcredit, hfollows⟩
    · simp only [hactive]
      exact ⟨u, rfl, .inl ⟨rfl, rfl⟩⟩
  · exact ⟨u, rfl, .inl ⟨rfl, rfl⟩⟩

theorem creditJd_withTracker (b : Jd.Batch) (share : Jd.JdShare) (now : Nat) :
    ∃ u', (w.withTracker u).creditJd env b share now
        = ((w.creditJd env b share now).1.withTracker u', (w.creditJd env b share now).2)
      ∧ Follows w.ledger.tracker (w.creditJd env b share now).1.ledger.tracker u u' := by
  unfold World.creditJd
  have hjd : (w.withTracker u).jd = w.jd := rfl
  rw [hjd]
  split
  · obtain ⟨u', hcredit, hfollows⟩ := credit_withTracker env w u b.job.clientId
      (env.targetToDifficulty b.job.shareTarget) (b.job.buildHeader share.time share.nonce)
      share.solution now
    refine ⟨u', ?_, hfollows⟩
    rw [hcredit]
  · exact ⟨u, rfl, .inl ⟨rfl, rfl⟩⟩

end

theorem mainStep_withTracker {w w' : World F} {now : Nat} {slow : List UInt32}
    (h : w.mainStep env now slow = some w') (u : Tracker F) :
    ∃ u', (w.withTracker u).mainStep env now slow = some (w'.withTracker u')
      ∧ Follows w.ledger.tracker w'.ledger.tracker u u' := by
  have hmain' : (w.withTracker u).main = w.main := rfl
  unfold World.mainStep at h ⊢
  rw [hmain']
  cases hmain : w.main <;> simp only [hmain, reduceCtorEq] at h ⊢
  case updateJd template =>
    have hjd : (w.withTracker u).jd = w.jd := rfl
    rw [hjd]
    obtain ⟨hidle, rfl⟩ := of_guard_not h
    refine ⟨u, ?_, .inl ⟨rfl, rfl⟩⟩
    rw [if_neg hidle]
    rfl
  case creditShare channelId share header difficulty =>
    cases h
    obtain ⟨u', hcredit, hfollows⟩ :=
      creditShare_withTracker env w u channelId share header difficulty now
    exact ⟨u', by rw [hcredit], hfollows⟩
  all_goals
    cases h
    exact ⟨u, rfl, .inl ⟨rfl, rfl⟩⟩

theorem advanceBatch_withTracker (env : Env F) (w : World F) (u : Tracker F) (now thread : Nat)
    (call : Jd.ShareCall) :
    ∃ u', ((w.withTracker u).advanceBatch env now call).1.setBatch thread
          ((w.withTracker u).advanceBatch env now call).2
        = ((w.advanceBatch env now call).1.setBatch thread
            (w.advanceBatch env now call).2).withTracker u'
      ∧ Follows w.ledger.tracker (w.advanceBatch env now call).1.ledger.tracker u u' := by
  cases call with
  | credit b share =>
    obtain ⟨u', hcredit, hfollows⟩ := creditJd_withTracker env w u b share now
    refine ⟨u', ?_, hfollows⟩
    simp only [World.advanceBatch, hcredit]
    rfl
  | _ => exact ⟨u, rfl, .inl ⟨rfl, rfl⟩⟩

/-- A step of the pool goes the same way whatever rows there are. -/
theorem next_withTracker {w w' : World F} {e : Event} (h : next env w e = some w') (u : Tracker F) :
    ∃ u', next env (w.withTracker u) e = some (w'.withTracker u')
      ∧ Follows w.ledger.tracker w'.ledger.tracker u u' := by
  -- every guard reads what the two worlds share
  have hsame : ∀ {w₁ : World F}, Step env (w.withTracker u) e (w₁.withTracker u) →
      w₁.ledger.tracker = w.ledger.tracker →
      ∃ u', next env (w.withTracker u) e = some (w₁.withTracker u')
        ∧ Follows w.ledger.tracker w₁.ledger.tracker u u' :=
    fun hstep htracker => ⟨u, hstep.next_eq, .inl ⟨htracker, rfl⟩⟩
  cases Step.of_next h with
  | jd hother hjd => exact hsame (.jd hother hjd) rfl
  | template hmain hjd => exact hsame (.template hmain hjd) rfl
  | submit hmain => exact hsame (.submit hmain) rfl
  | main h => exact mainStep_withTracker h u
  | connect hfree => exact hsame (.connect hfree) rfl
  | storeChannel hk => exact hsame (.storeChannel hk) rfl
  | initialJob hk => exact hsame (.initialJob hk) rfl
  | disconnect hk => exact hsame (.disconnect hk) rfl
  | retarget channelId target => exact hsame (.retarget channelId target) rfl
  | identify hmain => exact hsame (.identify hmain) rfl
  | submitJd hfree => exact hsame (.submitJd hfree) rfl
  | @resumeJd thread now call hcall =>
    obtain ⟨u', hstep, hfollows⟩ := advanceBatch_withTracker env w u now thread call
    exact ⟨u', Option.map_eq_some_iff.mpr ⟨call, hcall, hstep⟩, hfollows⟩

/-- **Behind the admission of workers the rows decide nothing.** From other rows the same events
take the same steps, with the same answers, jobs and credits; only the rows differ. -/
theorem exec_withTracker (env : Env F) (es : List Event) (w : World F) (u t : Tracker F) :
    (exec (next env) (fun _ _ => true) (w.withTracker u) es).map (·.withTracker t)
      = (exec (next env) (fun _ _ => true) w es).map (·.withTracker t) := by
  induction es generalizing w u with
  | nil => rfl
  | cons e es ih =>
    simp only [exec, if_true]
    cases hnext : next env w e with
    | some w' =>
      obtain ⟨u', hnext', -⟩ := next_withTracker hnext u
      rw [hnext']
      exact ih w' u'
    | none =>
      -- a step that is possible with other rows is possible with these
      cases hnext' : next env (w.withTracker u) e with
      | none => rfl
      | some w' =>
        obtain ⟨_, hback, -⟩ := next_withTracker hnext' w.ledger.tracker
        cases hnext.symm.trans hback

end Unread

end MiningInfra.Pool
