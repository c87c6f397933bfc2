import Mathlib.Data.Nat.Digits.Lemmas
import MiningInfra.Payout.Persist
import MiningInfra.Pool.Workers

/-!
# The cap on named workers

Named workers enter the durable payout map on two paths. `handle_allocate_token` looks at the
map when a token is allocated, `IdentityDeclared` at the identities accepted by this process;
the row itself appears only with a credited share. Here both admissions stand before the pool:
an allocation is cut at its two looks at the map, and the sections of the payout tracker that
take rows away run beside everything else.
-/

namespace MiningInfra.Payout

/-- `MAX_PERSISTED_WORKERS`. -/
def maxPersistedWorkers : Nat := 10000

def Tracker.knowsWorker {F : Type} (t : Tracker F) (worker : MinerId) : Bool :=
  (t.miners.lookup worker).isSome

end MiningInfra.Payout

namespace MiningInfra.Pool

open Lib Payout

variable {F : Type}

/-! ## Admission -/

/-- The request of `handle_allocate_token`, with the bytes that will be drawn for the token. -/
structure AllocateToken where
  userId : String
  requestedMode : Jd.JobDeclarationMode
  randomBytes : List UInt8

namespace AllocateToken

def checkReserved (r : AllocateToken) : Except Jd.JdServerError Unit :=
  if isEphemeralMinerId r.userId then
    .error (.protocol ("user_identifier '" ++ r.userId ++ "' uses the reserved ephemeral prefix"))
  else .ok ()

/-- The count is looked at only for a worker the map does not hold. -/
def checkCap (r : AllocateToken) (namedWorkerCount : Nat) : Except Jd.JdServerError Unit :=
  if maxPersistedWorkers ≤ namedWorkerCount then
    .error (.protocol ("worker identity cap (" ++ toString maxPersistedWorkers
      ++ ") reached; cannot allocate token for new worker '" ++ r.userId ++ "'"))
  else .ok ()

def grantedMode (r : AllocateToken) (fullTemplateEnabled : Bool) :
    Except Jd.JdServerError Jd.JobDeclarationMode :=
  if r.requestedMode = .fullTemplate then
    if fullTemplateEnabled then .error (.protocol Jd.fullTemplateUnavailable) else .ok .coinbaseOnly
  else .ok .coinbaseOnly

end AllocateToken

/-- Where an allocation stands before `allocate_token_with_mode`. -/
inductive Admission where
  /-- The map does not hold the worker; its rows are counted next. -/
  | countWorkers (request : AllocateToken)
  | grant (request : AllocateToken)

inductive IdentityDecision where
  | accept
  | alreadySet
  | capReached
  | reserved
  deriving DecidableEq, Repr

def applyIdentityPolicy (accepted : List String) (current : Option String) (name : String)
    (cap : Nat) : IdentityDecision :=
  if isEphemeralMinerId name then .reserved
  else if current.isSome then .alreadySet
  else if !accepted.contains name && decide (cap ≤ accepted.length) then .capReached
  else .accept

/-- `MAX_WORKER_IDENTITIES`. -/
def maxWorkerIdentities : Nat := maxPersistedWorkers

/-- The sections of the tracker that change rows without a share. -/
inductive Maintenance (F : Type) where
  | removeMiner (id : MinerId)
  | cleanupStaleMiners (cutoff : Nat)
  | pruneSettledMiners (cutoffUnixMs prunedAtUnixMs : Nat)
      (records : List (SettlementArchiveRecord F))
  | resetWindow

def Maintenance.run [Float64 F] (t : Tracker F) : Maintenance F → Tracker F
  | .removeMiner id => t.removeMiner id
  | .cleanupStaleMiners cutoff =>
    if t.persistent then t.cleanupMiners cutoff else t.cleanupVolatile cutoff
  | .pruneSettledMiners cutoff prunedAt records =>
    t.removeRows (t.confirmed cutoff prunedAt records)
  | .resetWindow => t.resetWindowCounters

/-! ## The pool with its admissions -/

structure CapEnv (F : Type) extends Env F where
  fullTemplateEnabled : Bool

structure Capped (F : Type) where
  world : World F
  admissions : Table Nat Admission
  acceptedIdentities : List String

inductive CapEvent (F : Type) where
  | pool (e : Event)
  | allocate (thread : Nat) (request : AllocateToken)
  | advance (thread : Nat) (now : Nat)
  | identify (channelId : UInt32) (workerName : String)
  | maintain (m : Maintenance F)

/-- The events of the pool that go through an admission. -/
def Event.admitted : Event → Bool
  | .jd (.begin _ (.allocateToken ..) _) => true
  | .identify .. => true
  | _ => false

/-- The thread that begins a call of the declaration server. -/
def Event.beginsOn : Event → Option Nat
  | .jd (.begin thread _ _) => some thread
  | _ => none

namespace Capped

variable [Float64 F]

omit [Float64 F] in
def tracker (c : Capped F) : Tracker F := c.world.ledger.tracker

omit [Float64 F] in
/-- The first section of `handle_allocate_token`: is the worker in the map? -/
def allocate (c : Capped F) (thread : Nat) (r : AllocateToken) : Capped F :=
  match r.checkReserved with
  | .error _ => c
  | .ok () =>
    { c with
      admissions := c.admissions.insert thread
        (if c.tracker.knowsWorker r.userId then .grant r else .countWorkers r) }

/-- The next section of an allocation: the count, or the token manager. -/
def advance (env : CapEnv F) (c : Capped F) (thread now : Nat) : Admission → Option (Capped F)
  | .countWorkers r =>
    some { c with
      admissions := match r.checkCap c.tracker.namedWorkerCount with
        | .ok () => c.admissions.insert thread (.grant r)
        | .error _ => c.admissions.erase thread }
  | .grant r =>
    match r.grantedMode env.fullTemplateEnabled with
    | .error _ => some { c with admissions := c.admissions.erase thread }
    | .ok mode =>
      (Pool.next env.toEnv c.world
        (.jd (.begin thread (.allocateToken r.userId mode r.randomBytes) now))).map
        fun world => { c with world, admissions := c.admissions.erase thread }

/-- `IdentityDeclared`. -/
def identify (env : CapEnv F) (c : Capped F) (channelId : UInt32) (workerName : String) :
    Option (Capped F) :=
  match c.world.pool.channels.lookup channelId with
  | none => some c
  | some channel =>
    match applyIdentityPolicy c.acceptedIdentities channel.workerIdentity workerName
        maxWorkerIdentities with
    | .accept =>
      (Pool.next env.toEnv c.world (.identify channelId workerName)).map fun world =>
        { c with
          world
          acceptedIdentities := c.acceptedIdentities.insert workerName }
    | _ => some c

def next (env : CapEnv F) (c : Capped F) : CapEvent F → Option (Capped F)
  | .pool e =>
    if e.admitted || e.beginsOn.any fun thread => (c.admissions.lookup thread).isSome then none
    else (Pool.next env.toEnv c.world e).map fun world => { c with world }
  | .allocate thread r =>
    if (c.admissions.lookup thread).isSome || (c.world.jd.calls.lookup thread).isSome then none
    else some (c.allocate thread r)
  | .advance thread now => (c.admissions.lookup thread).bind (c.advance env thread now)
  | .identify channelId workerName => c.identify env channelId workerName
  | .maintain m => some { c with world := c.world.withTracker (m.run c.tracker) }

omit [Float64 F] in
/-- A pool that has just started with what its state file held, if it has one. -/
def Start (c : Capped F) : Prop :=
  ∃ tracker : Tracker F, (tracker = .new ∨ ∃ loaded : LoadedPayoutState F, tracker = loaded.tracker)
    ∧ tracker.namedWorkerCount ≤ maxPersistedWorkers
    ∧ c = ⟨(World.new true).withTracker tracker, ∅, []⟩

end Capped

/-! ## Those admitted -/

def Admission.workers : Admission → List String
  | .countWorkers _ => []
  | .grant r => [r.userId]

def Capped.workers (c : Capped F) : List String :=
  c.world.workers ++ c.admissions.gather Admission.workers

section Step

variable [Float64 F]

theorem Maintenance.keys_subset (m : Maintenance F) (t : Tracker F) :
    (m.run t).miners.keys ⊆ t.miners.keys := by
  have hshrinks : t.Shrinks (m.run t) := by
    cases m with
    | removeMiner id => exact t.shrinks_removeMiner id
    | cleanupStaleMiners cutoff =>
      simp only [Maintenance.run]
      split
      · exact t.shrinks_cleanupMiners cutoff
      · exact t.shrinks_cleanupVolatile cutoff
    | pruneSettledMiners cutoff prunedAt records => exact t.shrinks_removeRows _
    | resetWindow => exact t.shrinks_resetWindowCounters
  intro id hid
  have hsome : (m.run t).miners.lookup id ≠ none := by
    rw [Ne, AList.lookup_eq_none]
    exact not_not.mpr (AList.mem_keys.mpr hid)
  have hsome' : t.miners.lookup id ≠ none := by
    intro hnone
    refine hsome (Tracker.totalShares_eq_none.mp ?_)
    rcases (hshrinks id).2 with hsame | ⟨hdropped, -⟩
    · rw [hsame]
      exact Tracker.totalShares_eq_none.mpr hnone
    · exact hdropped
  rw [Ne, AList.lookup_eq_none, not_not] at hsome'
  exact AList.mem_keys.mp hsome'

/-! ## The cap -/

omit [Float64 F] in
/-- What the checks do not make sure of: a worker is admitted only when there is room for it beside
the rows and everyone admitted before. -/
def RoomFor (c : Capped F) : CapEvent F → Prop
  | .advance thread _ => ∀ r, c.admissions.lookup thread = some (.countWorkers r) →
      c.tracker.namedWorkerCount < maxPersistedWorkers →
      workerCount (r.userId :: c.workers) ≤ maxPersistedWorkers
  | .identify channelId workerName => ∀ channel, c.world.pool.channels.lookup channelId = some channel →
      applyIdentityPolicy c.acceptedIdentities channel.workerIdentity workerName maxWorkerIdentities
        = .accept →
      workerCount (workerName :: c.workers) ≤ maxPersistedWorkers
  | _ => True

omit [Float64 F] in
theorem named_capped_subset {c c' : Capped F} {l : List String}
    (hworld : named c'.world.workers ⊆ l ++ c.workers)
    (hadmissions : c'.admissions.gather Admission.workers ⊆ l ++ c.workers) :
    named c'.workers ⊆ l ++ c.workers := by
  rw [Capped.workers, named_append]
  exact List.append_subset.mpr ⟨hworld, List.Subset.trans (named_subset _) hadmissions⟩

theorem newWorkers_of_not_admitted {e : Event} (h : e.admitted = false) : e.newWorkers = [] := by
  cases e with
  | jd e =>
    cases e with
    | begin thread req now =>
      cases req with
      | allocateToken clientId mode random => exact absurd h (by simp [Event.admitted])
      | declareJob request => rfl
    | _ => rfl
  | identify channelId workerName => exact absurd h (by simp [Event.admitted])
  | _ => rfl

namespace Capped

variable (c : Capped F)

section

omit [Float64 F]

theorem world_subset : c.world.workers ⊆ c.workers := List.subset_append_left _ _

theorem admissions_subset : c.admissions.gather Admission.workers ⊆ c.workers :=
  List.subset_append_right _ _

theorem named_world_subset : named c.world.workers ⊆ c.workers :=
  List.Subset.trans (named_subset _) c.world_subset

/-- An allocation that begins: only a worker that has a row is let through at once. -/
theorem workers_allocate (thread : Nat) (r : AllocateToken) :
    named (c.allocate thread r).workers ⊆ c.workers := by
  unfold allocate
  split
  · exact named_subset _
  · refine named_capped_subset (l := []) c.named_world_subset ?_
    refine List.Subset.trans (Table.gather_insert_subset _ _ _ _) ?_
    refine List.append_subset.mpr ⟨?_, c.admissions_subset⟩
    split
    · rename_i hknown
      have hrow : r.userId ∈ c.world.rows :=
        AList.mem_keys.mp (AList.lookup_isSome.mp hknown)
      exact List.cons_subset.mpr ⟨c.world_subset (c.world.rows_subset hrow), List.nil_subset _⟩
    · exact List.nil_subset _

end

/-- An allocation that goes on: the worker is new where the count lets it through. -/
theorem workers_admit {env : CapEnv F} {thread now : Nat} {a : Admission} {c' : Capped F}
    (ha : c.admissions.lookup thread = some a) (h : c.advance env thread now a = some c') :
    named c'.workers ⊆ c.workers
      ∨ ∃ r, a = .countWorkers r ∧ c.tracker.namedWorkerCount < maxPersistedWorkers
        ∧ named c'.workers ⊆ r.userId :: c.workers := by
  have herase : Table.gather Admission.workers (c.admissions.erase thread) ⊆ c.workers :=
    List.Subset.trans (Table.gather_erase_subset _ _ _) c.admissions_subset
  cases a with
  | countWorkers r =>
    cases h
    by_cases hcap : maxPersistedWorkers ≤ c.tracker.namedWorkerCount
    · refine .inl (named_capped_subset (l := []) c.named_world_subset ?_)
      simp only [AllocateToken.checkCap, hcap, if_true]
      exact herase
    · refine .inr ⟨r, rfl, by omega, ?_⟩
      refine named_capped_subset (l := [r.userId])
        (List.Subset.trans c.named_world_subset (List.subset_append_right _ _)) ?_
      simp only [AllocateToken.checkCap, hcap, if_false]
      refine List.Subset.trans (Table.gather_insert_subset _ _ _ _) ?_
      exact List.append_subset.mpr ⟨List.subset_append_left _ _,
        List.Subset.trans c.admissions_subset (List.subset_append_right _ _)⟩
  | grant r =>
    left
    simp only [advance] at h
    split at h
    · cases h
      exact named_capped_subset (l := []) c.named_world_subset herase
    · obtain ⟨world, hworld, rfl⟩ := Option.map_eq_some_iff.mp h
      refine named_capped_subset (l := []) ?_ herase
      -- the worker of the token is the one that was admitted
      have hr : r.userId ∈ c.workers := c.admissions_subset
        (Table.mem_gather.mpr ⟨thread, _, ha, List.mem_cons_self⟩)
      exact List.Subset.trans (workers_next hworld) (List.cons_subset.mpr ⟨hr, c.world_subset⟩)

end Capped

/-- **Every step keeps the workers within the cap**, where there is room for those it admits. -/
theorem workerCount_step {env : CapEnv F} {c c' : Capped F} {e : CapEvent F}
    (hc : workerCount c.workers ≤ maxPersistedWorkers) (hroom : RoomFor c e)
    (hnext : Capped.next env c e = some c') : workerCount c'.workers ≤ maxPersistedWorkers := by
  have hkeep : named c'.workers ⊆ c.workers → workerCount c'.workers ≤ maxPersistedWorkers :=
    fun hsub => Nat.le_trans (workerCount_mono hsub) hc
  cases e with
  | pool e =>
    simp only [Capped.next] at hnext
    split at hnext
    · cases hnext
    · rename_i hfree
      obtain ⟨world, hworld, rfl⟩ := Option.map_eq_some_iff.mp hnext
      have hadmitted : e.admitted = false := by
        cases h : e.admitted with
        | false => rfl
        | true => simp [h] at hfree
      have hsub := workers_next hworld
      rw [newWorkers_of_not_admitted hadmitted] at hsub
      exact hkeep (named_capped_subset (l := []) (List.Subset.trans hsub c.world_subset)
        c.admissions_subset)
  | allocate thread r =>
    obtain ⟨-, rfl⟩ := of_guard_not hnext
    exact hkeep (c.workers_allocate thread r)
  | advance thread now =>
    obtain ⟨a, ha, hadmit⟩ := Option.bind_eq_some_iff.mp hnext
    rcases c.workers_admit ha hadmit with hsub | ⟨r, rfl, hcount, hsub⟩
    · exact hkeep hsub
    · exact Nat.le_trans (workerCount_mono hsub) (hroom r ha hcount)
  | identify channelId workerName =>
    simp only [Capped.next, Capped.identify] at hnext
    split at hnext
    · injection hnext with hnext; subst hnext; exact hc
    · rename_i channel hchannel
      split at hnext
      · rename_i haccept
        obtain ⟨world, hworld, rfl⟩ := Option.map_eq_some_iff.mp hnext
        refine Nat.le_trans (workerCount_mono ?_) (hroom channel hchannel haccept)
        refine named_capped_subset (l := [workerName]) ?_ ?_
        · exact List.Subset.trans (workers_next hworld)
            (List.append_subset.mpr ⟨List.subset_append_left _ _,
              List.Subset.trans c.world_subset (List.subset_append_right _ _)⟩)
        · exact List.Subset.trans c.admissions_subset (List.subset_append_right _ _)
      · injection hnext with hnext; subst hnext; exact hc
  | maintain m =>
    cases hnext
    refine hkeep (named_capped_subset (l := []) ?_ c.admissions_subset)
    refine List.Subset.trans ?_ c.world_subset
    refine named_workers_subset ?_ c.world.jd_subset c.world.batches_subset
      c.world.identities_subset
    exact List.Subset.trans (named_subset _)
      (List.Subset.trans (m.keys_subset c.tracker) c.world.rows_subset)

omit [Float64 F] in
theorem workerCount_start {c : Capped F} (h : c.Start) :
    workerCount c.workers ≤ maxPersistedWorkers := by
  obtain ⟨tracker, -, hcount, rfl⟩ := h
  have hworkers : (Capped.mk ((World.new true).withTracker tracker) ∅ []).workers
      = tracker.miners.keys ++ [] := List.append_nil _
  rw [hworkers, List.append_nil]
  exact Nat.le_trans (List.toFinset_card_le _) hcount

/-- **The payout map stays within the cap** in every run that admits a worker only when there is room
for it beside the rows and everyone admitted before. -/
theorem named_rows_within_cap {env : CapEnv F} {c : Capped F}
    (h : Reach (Capped.next env) RoomFor Capped.Start c) :
    c.tracker.namedWorkerCount ≤ maxPersistedWorkers := by
  have hcount : workerCount c.workers ≤ maxPersistedWorkers :=
    Reach.invariant (I := fun c => workerCount c.workers ≤ maxPersistedWorkers)
      (fun _ => workerCount_start) (fun _ _ _ => workerCount_step) h
  calc c.tracker.namedWorkerCount ≤ workerCount c.world.workers :=
        namedWorkerCount_le_workerCount c.world
    _ ≤ workerCount c.workers := workerCount_mono c.named_world_subset
    _ ≤ maxPersistedWorkers := hcount

end Step

/-! ## A pool with more rows -/

section Shadow

variable [Float64 F]

/-- Two pools that differ in their rows: the big one has those of `t` besides. -/
structure Shadow (t : Tracker F) (big small : Capped F) : Prop where
  same : big = { small with world := small.world.withTracker big.tracker }
  rows : ∀ id, id ∈ big.tracker.miners.keys ↔ id ∈ t.miners.keys ∨ id ∈ small.tracker.miners.keys

variable {t : Tracker F} {big small : Capped F} {env : CapEnv F} {ids : List String}

theorem Shadow.of_follows (h : Shadow t big small) {world : World F} {u : Tracker F}
    (hfollows : Follows small.tracker world.ledger.tracker big.tracker u)
    (admissions : Table Nat Admission) (accepted : List String) :
    Shadow t ⟨world.withTracker u, admissions, accepted⟩ ⟨world, admissions, accepted⟩ := by
  refine ⟨rfl, fun id => ?_⟩
  show id ∈ u.miners.keys ↔ id ∈ t.miners.keys ∨ id ∈ world.ledger.tracker.miners.keys
  rcases hfollows with ⟨hsmall, hbig⟩ | ⟨minerId, difficulty, now, hsmall, hbig⟩
  · rw [hsmall, hbig]
    exact h.rows id
  · rw [hsmall, hbig, mem_keys_recordShare, mem_keys_recordShare, h.rows id]
    exact or_left_comm

omit [Float64 F] in
theorem namedWorkerCount_eq_card (t : Tracker F) :
    t.namedWorkerCount = (named t.miners.keys).toFinset.card :=
  (List.toFinset_card_of_nodup (t.miners.nodupKeys.filter _)).symm

/-- Events that ask for no row of `t`: tokens go to workers of `ids` alone, and are granted while
the small pool has no rows. -/
def unread (ids : List String) (small : Capped F) : CapEvent F → Bool
  | .allocate _ r => ids.contains r.userId
  | .advance .. => small.tracker.miners.keys = []
  | .maintain _ => false
  | _ => true

section

variable (hids : ∀ id ∈ ids, id ∉ t.miners.keys) (hcount : t.namedWorkerCount < maxPersistedWorkers)

include hids hcount

/-- **The big pool follows the small one** as long as the map is not full. -/
theorem shadow_step {small' : Capped F} {e : CapEvent F} (h : Shadow t big small)
    (hunread : unread ids small e = true) (hnext : Capped.next env small e = some small') :
    ∃ big', Capped.next env big e = some big' ∧ Shadow t big' small' := by
  have hpool : ∀ {e : Event} {world : World F} (admissions : Table Nat Admission)
      (accepted : List String), Pool.next env.toEnv small.world e = some world →
      ∃ u, Pool.next env.toEnv (small.world.withTracker big.tracker) e = some (world.withTracker u)
        ∧ Shadow t ⟨world.withTracker u, admissions, accepted⟩ ⟨world, admissions, accepted⟩ := by
    intro e world admissions accepted hworld
    obtain ⟨u, hbig, hfollows⟩ := next_withTracker hworld big.tracker
    exact ⟨u, hbig, h.of_follows hfollows admissions accepted⟩
  have hkeep : ∀ (admissions : Table Nat Admission) (accepted : List String),
      Shadow t ⟨small.world.withTracker big.tracker, admissions, accepted⟩
        ⟨small.world, admissions, accepted⟩ :=
    fun admissions accepted => h.of_follows (.inl ⟨rfl, rfl⟩) admissions accepted
  rw [h.same]
  cases e with
  | pool e =>
    simp only [Capped.next] at hnext ⊢
    split at hnext
    · cases hnext
    · rename_i hfree
      obtain ⟨world, hworld, rfl⟩ := Option.map_eq_some_iff.mp hnext
      obtain ⟨u, hbig, hshadow⟩ := hpool small.admissions small.acceptedIdentities hworld
      exact ⟨_, by rw [if_neg hfree, hbig]; rfl, hshadow⟩
  | allocate thread r =>
    have hknown : big.tracker.knowsWorker r.userId = small.tracker.knowsWorker r.userId := by
      have hnot : r.userId ∉ t.miners.keys := hids _ (by simpa [unread] using hunread)
      rw [Bool.eq_iff_iff]
      simp only [Tracker.knowsWorker, AList.lookup_isSome, AList.mem_keys, h.rows, hnot, false_or]
    simp only [Capped.next] at hnext ⊢
    obtain ⟨hfree, rfl⟩ := of_guard_not hnext
    refine ⟨_, if_neg hfree, ?_⟩
    simp only [Capped.allocate]
    split
    · exact hkeep _ _
    · rw [show Capped.tracker { small with world := small.world.withTracker big.tracker }
        = big.tracker from rfl, hknown]
      exact hkeep _ _
  | advance thread now =>
    obtain ⟨a, ha, hadmit⟩ := Option.bind_eq_some_iff.mp hnext
    simp only [Capped.next, ha, Option.bind_some]
    cases a with
    | countWorkers r =>
      have hempty : small.tracker.miners.keys = [] := by simpa [unread] using hunread
      have hbig : big.tracker.namedWorkerCount = t.namedWorkerCount := by
        rw [namedWorkerCount_eq_card, namedWorkerCount_eq_card]
        congr 1
        ext id
        simp [named, h.rows, hempty]
      have hsmall : small.tracker.namedWorkerCount = 0 := by
        rw [Tracker.namedWorkerCount, hempty]; rfl
      cases hadmit
      refine ⟨_, rfl, ?_⟩
      have hpass : ∀ n, n < maxPersistedWorkers → r.checkCap n = .ok () := by
        intro n hn
        rw [AllocateToken.checkCap, if_neg (by omega)]
      rw [hsmall, hpass 0 (by decide),
        show Capped.tracker { small with world := small.world.withTracker big.tracker }
          = big.tracker from rfl, hbig, hpass _ hcount]
      exact hkeep _ _
    | grant r =>
      simp only [Capped.advance] at hadmit ⊢
      split at hadmit
      · cases hadmit
        exact ⟨_, rfl, hkeep _ _⟩
      · obtain ⟨world, hworld, rfl⟩ := Option.map_eq_some_iff.mp hadmit
        obtain ⟨u, hbig, hshadow⟩ := hpool (small.admissions.erase thread)
          small.acceptedIdentities hworld
        exact ⟨_, by rw [hbig]; rfl, hshadow⟩
  | identify channelId workerName =>
    simp only [Capped.next, Capped.identify] at hnext ⊢
    have hchannels : (small.world.withTracker big.tracker).pool = small.world.pool := rfl
    rw [hchannels]
    split at hnext
    · cases hnext
      exact ⟨_, rfl, hkeep _ _⟩
    · split at hnext
      · obtain ⟨world, hworld, rfl⟩ := Option.map_eq_some_iff.mp hnext
        obtain ⟨u, hbig, hshadow⟩ := hpool small.admissions
          (small.acceptedIdentities.insert workerName) hworld
        exact ⟨_, by rw [hbig]; rfl, hshadow⟩
      · cases hnext
        exact ⟨_, rfl, hkeep _ _⟩
  | maintain m => exact absurd hunread (by simp [unread])

theorem shadow_run (events : List (CapEvent F)) :
    ∀ {big small small' : Capped F}, Shadow t big small →
      exec (Capped.next env) (unread ids) small events = some small' →
      ∃ big', exec (Capped.next env) (fun _ _ => true) big events = some big'
        ∧ Shadow t big' small' := by
  induction events with
  | nil =>
    intro big small small' h hexec
    rw [exec] at hexec
    injection hexec with hexec
    exact ⟨big, rfl, hexec ▸ h⟩
  | cons e events ih =>
    intro big small small' h hexec
    rw [exec] at hexec
    split at hexec
    · rename_i hunread
      obtain ⟨small₁, hstep, hrest⟩ := Option.bind_eq_some_iff.mp hexec
      obtain ⟨big₁, hbig₁, h₁⟩ := shadow_step hids hcount h hunread hstep
      obtain ⟨big', hbig', h'⟩ := ih h₁ hrest
      refine ⟨big', ?_, h'⟩
      rw [exec, if_pos rfl, hbig₁]
      exact hbig'
    · cases hexec

end

end Shadow

/-! ## Two runs -/

def rigName (i : Nat) : MinerId :=
  String.ofList ("rig-".toList ++ (Nat.digits 10 i).reverse.map Nat.digitChar)

theorem rigName_injective : Function.Injective rigName := by
  have hback : ∀ i, ((Nat.digits 10 i).reverse.map Nat.digitChar).map (fun c => c.toNat - 48)
      = (Nat.digits 10 i).reverse := by
    intro i
    rw [List.map_map]
    refine (List.map_congr_left fun d hd => ?_).trans (List.map_id _)
    have hlt : d < 10 := Nat.digits_lt_base (by decide) (List.mem_reverse.mp hd)
    have hdigit : ∀ d < 10, (Nat.digitChar d).toNat - 48 = d := by decide
    exact hdigit d hlt
  intro i j h
  have hdigits := List.append_cancel_left (String.ofList_injective h)
  have hreverse : (Nat.digits 10 i).reverse = (Nat.digits 10 j).reverse := by
    rw [← hback i, ← hback j, hdigits]
  exact Nat.digits_inj_iff.mp (List.reverse_injective hreverse)

theorem isEphemeralMinerId_rigName (i : Nat) : isEphemeralMinerId (rigName i) = false := by
  rw [isEphemeralMinerId, rigName, String.toList_ofList]
  rfl

theorem rigName_ne {id : MinerId} (h : id.toList.head? ≠ some 'r') (i : Nat) : rigName i ≠ id := by
  rintro rfl
  refine h ?_
  rw [rigName, String.toList_ofList]
  rfl

/-- The rows of `n` workers that have been credited before. -/
def rigRows {α : Type} (n : Nat) (value : α) : Table MinerId α :=
  ⟨(List.range n).map fun i => ⟨rigName i, value⟩, by
    rw [List.NodupKeys, List.keys, List.map_map]
    exact (List.nodup_range).map rigName_injective⟩

theorem keys_rigRows {α : Type} (n : Nat) (value : α) :
    (rigRows n value).keys = (List.range n).map rigName := by
  simp [rigRows, AList.keys, List.keys, Function.comp_def]

/-- What a pool finds that has credited `n` workers with one share each. -/
def rigs (n : Nat) : LoadedPayoutState Nat :=
  ⟨rigRows n ⟨1, 1, 0, 0, none⟩, rigRows n ⟨0, 0, some 0, none, none⟩⟩

theorem namedWorkerCount_rigs (n : Nat) : (rigs n).tracker.namedWorkerCount = n := by
  have hnamed : named ((List.range n).map rigName) = (List.range n).map rigName := by
    rw [named, List.filter_eq_self]
    intro id hid
    obtain ⟨i, -, rfl⟩ := List.mem_map.mp hid
    rw [isEphemeralMinerId_rigName]; rfl
  rw [Tracker.namedWorkerCount, LoadedPayoutState.tracker, rigs, keys_rigRows, hnamed]
  simp

def startWith (n : Nat) : Capped Nat := ⟨(World.new true).withTracker (rigs n).tracker, ∅, []⟩

theorem start_startWith {n : Nat} (h : n ≤ maxPersistedWorkers) : (startWith n).Start :=
  ⟨(rigs n).tracker, .inr ⟨rigs n, rfl⟩, by rw [namedWorkerCount_rigs]; exact h, rfl⟩

def capEnv : CapEnv Nat := { sampleEnv with fullTemplateEnabled := false }

def tokenFor (userId : String) : AllocateToken := ⟨userId, .coinbaseOnly, List.replicate 16 0x2a⟩

/-- A token is allocated on this thread. -/
def storeTokenEvents (thread : Nat) : List (CapEvent Nat) :=
  [.advance thread 0] ++ List.replicate 3 (.pool (.jd (.resume thread 0)))

/-- A job is declared with the token of that number, and the solution submitted for it. -/
def mineWith (counter : UInt64) (jobId : UInt32) : List (CapEvent Nat) :=
  ((Event.jd (.begin 1 (.declareJob (Jd.requestFor Jd.plainHashes sampleBlock.context
      (Jd.tokenBytes counter (List.replicate 16 0x2a)) Jd.plainWire.serialize Jd.plainWire.inputs)) 1)
    :: List.replicate 5 (Event.jd (.resume 1 1))) ++ submitJdEvents jobId).map .pool

/-- One new worker, from the allocation to the credit. -/
def oneWorker : List (CapEvent Nat) :=
  [.allocate 0 (tokenFor "alice"), .advance 0 0] ++ storeTokenEvents 0
    ++ (blockEvents sampleBlock).map .pool ++ mineWith 1 1

/-- Two new workers are admitted before either has a row. Both are credited, the second one after
the tip has been another block for a while. -/
def twoWorkers : List (CapEvent Nat) :=
  [.allocate 0 (tokenFor "alice"), .allocate 1 (tokenFor "bob"), .advance 0 0, .advance 1 0]
    ++ storeTokenEvents 0 ++ storeTokenEvents 1
    ++ (blockEvents sampleBlock).map .pool ++ mineWith 1 1
    ++ (blockEvents otherBlock ++ blockEvents sampleBlock).map .pool ++ mineWith 2 2

def roomFor (c : Capped Nat) : CapEvent Nat → Bool
  | .advance thread _ =>
    match c.admissions.lookup thread with
    | some (.countWorkers r) => decide (workerCount (r.userId :: c.workers) ≤ maxPersistedWorkers)
    | _ => true
  | .identify .. => false
  | _ => true

theorem roomFor_of_test (c : Capped Nat) (e : CapEvent Nat) (h : roomFor c e = true) :
    RoomFor c e := by
  cases e with
  | advance thread now =>
    intro r hr _
    simpa [roomFor, hr] using h
  | identify channelId workerName => exact absurd h (by simp [roomFor])
  | _ => trivial

/-- A new worker is credited in an empty pool. -/
theorem first_worker_within_cap :
    ∃ c : Capped Nat, Reach (Capped.next capEnv) RoomFor Capped.Start c
      ∧ c.tracker.miners.keys = ["alice"] ∧ c.tracker.namedWorkerCount ≤ maxPersistedWorkers := by
  have hrun : ∃ c : Capped Nat, Reach (Capped.next capEnv) RoomFor Capped.Start c
      ∧ decide (c.tracker.miners.keys = ["alice"]) = true := by
    refine Reach.exists_of_exec roomFor roomFor_of_test (startWith 0)
      (start_startWith (Nat.zero_le _)) oneWorker ?_
    decide +kernel
  obtain ⟨c, hreach, hc⟩ := hrun
  exact ⟨c, hreach, of_decide_eq_true hc, named_rows_within_cap hreach⟩

/-- **The cap is looked at too early.** With 9999 rows there is room for one worker. Two tokens are
allocated before either worker has a row, and both workers get one. -/
theorem two_tokens_pass_the_cap :
    ¬ ∀ (env : CapEnv Nat) (c : Capped Nat), Reach (Capped.next env) Any Capped.Start c →
      c.tracker.namedWorkerCount ≤ maxPersistedWorkers := by
  intro hall
  have hsmall : ∃ c : Capped Nat, exec (Capped.next capEnv) (unread ["alice", "bob"]) (startWith 0)
      twoWorkers = some c ∧ c.tracker.miners.keys = ["bob", "alice"] := by
    have hany : (exec (Capped.next capEnv) (unread ["alice", "bob"]) (startWith 0) twoWorkers).any
        (fun c => decide (c.tracker.miners.keys = ["bob", "alice"])) = true := by decide +kernel
    obtain ⟨c, hc, hkeys⟩ := (Option.any_eq_true _ _).mp hany
    exact ⟨c, hc, of_decide_eq_true hkeys⟩
  obtain ⟨small, hexec, hkeys⟩ := hsmall
  have habsent : ∀ id ∈ ["alice", "bob"], id ∉ (rigs 9999).tracker.miners.keys := by
    intro id hid hmem
    rw [LoadedPayoutState.tracker, rigs, keys_rigRows] at hmem
    obtain ⟨i, -, hi⟩ := List.mem_map.mp hmem
    refine rigName_ne ?_ i hi
    rcases List.mem_cons.mp hid with rfl | hid
    · decide
    · rw [List.mem_singleton.mp hid]; decide
  have hshadow : Shadow (rigs 9999).tracker (startWith 9999) (startWith 0) :=
    ⟨rfl, fun id => by simp [startWith, Capped.tracker, World.withTracker, rigs, rigRows,
      LoadedPayoutState.tracker, AList.keys]⟩
  obtain ⟨big, hbig, hrows⟩ := shadow_run habsent
    (by rw [namedWorkerCount_rigs]; decide) twoWorkers hshadow hexec
  have hreach : Reach (Capped.next capEnv) Any Capped.Start big :=
    Reach.of_exec (fun _ _ _ => trivial) twoWorkers (.init (start_startWith (by decide))) hbig
  have hnamed : (named big.tracker.miners.keys).toFinset
      = insert "bob" (insert "alice" (named (rigs 9999).tracker.miners.keys).toFinset) := by
    have hbob : isEphemeralMinerId "bob" = false := by decide
    have halice : isEphemeralMinerId "alice" = false := by decide
    ext id
    simp only [named, List.mem_toFinset, List.mem_filter, Finset.mem_insert, hrows.rows, hkeys,
      List.mem_cons, List.not_mem_nil, or_false]
    constructor
    · rintro ⟨hmem | rfl | rfl, hnot⟩
      · exact .inr (.inr ⟨hmem, hnot⟩)
      · exact .inl rfl
      · exact .inr (.inl rfl)
    · rintro (rfl | rfl | ⟨hmem, hnot⟩)
      · exact ⟨.inr (.inl rfl), by rw [hbob]; rfl⟩
      · exact ⟨.inr (.inr rfl), by rw [halice]; rfl⟩
      · exact ⟨.inl hmem, hnot⟩
  have hnotMem : ∀ id ∈ ["alice", "bob"], id ∉ (named (rigs 9999).tracker.miners.keys).toFinset :=
    fun id hid hmem => habsent id hid (named_subset _ (List.mem_toFinset.mp hmem))
  have hcount : big.tracker.namedWorkerCount = 10001 := by
    rw [namedWorkerCount_eq_card, hnamed, Finset.card_insert_of_notMem,
      Finset.card_insert_of_notMem (hnotMem "alice" (by simp)), ← namedWorkerCount_eq_card,
      namedWorkerCount_rigs]
    rw [Finset.mem_insert, not_or]
    exact ⟨by decide, hnotMem "bob" (by simp)⟩
  have hcap := hall capEnv big hreach
  rw [hcount] at hcap
  exact absurd hcap (by decide)

end MiningInfra.Pool
