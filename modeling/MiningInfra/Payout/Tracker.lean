import MiningInfra.Lib.Table

/-!
# The PPS payout tracker

The state of `PayoutTracker` and, for each of its methods, the critical sections it
runs: one definition per lock (or pair of locks held together), so that a schedule
of concurrent calls is a sequence of these definitions. `Payout/World.lean` puts
the calls together.

Clock readings are arguments. Counters are `u64` and wrap, as in a release build.
Difficulties are `f64`; nothing here needs more of them than the operations the
code applies, so they stay an interface.
-/

namespace MiningInfra.Payout

open Lib

/-- The `f64` operations the tracker uses. No law is assumed of them. -/
class Float64 (F : Type) where
  zero : F
  add : F → F → F
  /-- IEEE `==`. -/
  eq : F → F → Bool
  lt : F → F → Bool
  le : F → F → Bool
  isFinite : F → Bool
  /-- What the JSON reader returns for the text the JSON writer printed. A value
  that is not finite is printed as `null` and refused. -/
  readBack : F → Option F

/-- Difficulties that are small whole numbers, on which `f64` is exact. -/
instance : Float64 Nat := ⟨0, (· + ·), (· == ·), (· < ·), (· ≤ ·), fun _ => true, some⟩

def wrapU64 (n : Nat) : Nat := n % UInt64.size

theorem wrapU64_succ_ne (n : Nat) : wrapU64 (n + 1) ≠ n := by
  unfold wrapU64 UInt64.size
  omega

abbrev MinerId := String

/-- `EPHEMERAL_MINER_PREFIX`. -/
def ephemeralMinerPrefix : String := "channel_"

/-- An ephemeral, unnamed worker identity. -/
def isEphemeralMinerId (id : MinerId) : Bool :=
  ephemeralMinerPrefix.toList.isPrefixOf id.toList

variable {F : Type}

/-- Per-miner statistics. -/
structure MinerStats (F : Type) where
  totalShares : Nat
  totalDifficulty : F
  windowShares : Nat
  windowDifficulty : F
  lastShare : Option Nat
  deriving DecidableEq, Repr

/-- Settlement watermark and wall-clock timestamps of one miner. -/
structure SettlementState (F : Type) where
  settledTotalShares : Nat
  settledTotalDifficulty : F
  lastShareUnixMs : Option Nat
  settledAtUnixMs : Option Nat
  settlementRef : Option String
  deriving DecidableEq, Repr

/-- One line of the settlement archive. -/
structure SettlementArchiveRecord (F : Type) where
  version : Nat
  minerId : MinerId
  totalShares : Nat
  totalDifficulty : F
  settledTotalShares : Nat
  settledTotalDifficulty : F
  lastShareUnixMs : Option Nat
  settledAtUnixMs : Nat
  settlementRef : String
  prunedAtUnixMs : Nat
  deriving DecidableEq, Repr

/-- `PAYOUT_STATE_VERSION`. -/
def payoutStateVersion : Nat := 2

/-- The tracker. `persistent` is `persistence.is_some()`, fixed at construction. -/
structure Tracker (F : Type) where
  miners : Table MinerId (MinerStats F)
  settlements : Table MinerId (SettlementState F)
  windowStart : Option Nat
  persistent : Bool
  dirty : Bool

/-- `PayoutTracker::new`. -/
def Tracker.new : Tracker F := ⟨∅, ∅, none, false, false⟩

variable [Float64 F]

def MinerStats.default : MinerStats F := ⟨0, Float64.zero, 0, Float64.zero, none⟩

def SettlementState.default : SettlementState F := ⟨0, Float64.zero, none, none, none⟩

/-! ## `record_share` -/

/-- The guard against NaN, infinite, negative and zero difficulty. -/
def validDifficulty (difficulty : F) : Bool :=
  Float64.isFinite difficulty && !Float64.le difficulty Float64.zero

/-- Set the window start on the first share in the window. -/
def Tracker.openWindow (t : Tracker F) (now : Nat) : Tracker F :=
  { t with windowStart := t.windowStart.or (some now) }

def MinerStats.credit (stats : MinerStats F) (difficulty : F) (now : Nat) : MinerStats F where
  totalShares := wrapU64 (stats.totalShares + 1)
  totalDifficulty := Float64.add stats.totalDifficulty difficulty
  windowShares := wrapU64 (stats.windowShares + 1)
  windowDifficulty := Float64.add stats.windowDifficulty difficulty
  lastShare := some now

/-- The `miners` section of `record_share`. -/
def Tracker.creditMiner (t : Tracker F) (id : MinerId) (difficulty : F) (now : Nat) : Tracker F :=
  { t with
    miners := t.miners.insert id (((t.miners.lookup id).getD .default).credit difficulty now) }

/-- The `settlements` section of `record_share`, run only with persistence. -/
def Tracker.touchSettlement (t : Tracker F) (id : MinerId) (nowUnixMs : Nat) : Tracker F :=
  { t with
    settlements := t.settlements.insert id
      { (t.settlements.lookup id).getD .default with lastShareUnixMs := some nowUnixMs } }

omit [Float64 F] in
/-- `mark_dirty`. -/
def Tracker.markDirty (t : Tracker F) : Tracker F := { t with dirty := t.dirty || t.persistent }

/-! ## `mark_miner_settled` -/

omit [Float64 F] in
/-- The `miners` section: the totals the watermark is clamped to. -/
def Tracker.readTotals (t : Tracker F) (id : MinerId) : Option (Nat × F) :=
  (t.miners.lookup id).map fun stats => (stats.totalShares, stats.totalDifficulty)

/-- The new watermark and timestamps of one settle call. -/
def SettlementState.settle (s : SettlementState F) (settledTotalShares currentTotal : Nat)
    (currentDifficulty : F) (settlementRef : String) (nowUnixMs : Nat) : SettlementState F where
  settledTotalShares := max (min settledTotalShares currentTotal) s.settledTotalShares
  settledTotalDifficulty := currentDifficulty
  lastShareUnixMs := s.lastShareUnixMs.or (some nowUnixMs)
  settledAtUnixMs := some nowUnixMs
  settlementRef := some settlementRef

/-- The `settlements` section. It works with the totals read under the other lock. -/
def Tracker.writeSettlement (t : Tracker F) (id : MinerId) (settledTotalShares currentTotal : Nat)
    (currentDifficulty : F) (settlementRef : String) (nowUnixMs : Nat) : Tracker F :=
  { t with
    settlements := t.settlements.insert id
      (((t.settlements.lookup id).getD .default).settle settledTotalShares currentTotal
        currentDifficulty settlementRef nowUnixMs) }

/-! ## `remove_miner` and `cleanup_stale_miners` -/

omit [Float64 F] in
/-- Both maps under the `miners` lock. -/
def Tracker.removeMiner (t : Tracker F) (id : MinerId) : Tracker F :=
  { t with miners := t.miners.erase id, settlements := t.settlements.erase id }

omit [Float64 F] in
def MinerStats.isStale (stats : MinerStats F) (cutoff : Nat) : Bool :=
  stats.lastShare.any (· ≤ cutoff)

/-- What the persistent cleanup does to one row: drop it if ephemeral, else reset its window. -/
def cleanupRow (cutoff : Nat) (id : MinerId) (stats : MinerStats F) : Option (MinerStats F) :=
  if stats.isStale cutoff && isEphemeralMinerId id then none
  else if stats.isStale cutoff then
    some { stats with windowShares := 0, windowDifficulty := Float64.zero, lastShare := none }
  else some stats

omit [Float64 F] in
/-- The number of stale rows, ephemeral or named. -/
def Tracker.staleCount (t : Tracker F) (cutoff : Nat) : Nat :=
  (t.miners.entries.filter fun e => e.2.isStale cutoff).length

/-- The `miners` section of the cleanup with persistence. -/
def Tracker.cleanupMiners (t : Tracker F) (cutoff : Nat) : Tracker F :=
  { t with miners := t.miners.pass (cleanupRow cutoff) }

section

omit [Float64 F]

/-- The `settlements` section of the cleanup with persistence. -/
def Tracker.cleanupSettlements (t : Tracker F) : Tracker F :=
  { t with settlements := t.settlements.retain fun id _ => !isEphemeralMinerId id }

/-- Keep the rows with a share after the cutoff. -/
def Tracker.freshMiners (t : Tracker F) (cutoff : Nat) : Table MinerId (MinerStats F) :=
  t.miners.retain fun _ stats => stats.lastShare.any (cutoff < ·)

/-- The cleanup without persistence, which holds the `miners` lock throughout. -/
def Tracker.cleanupVolatile (t : Tracker F) (cutoff : Nat) : Tracker F :=
  if (t.freshMiners cutoff).entries.length < t.miners.entries.length then
    { t with
      miners := t.freshMiners cutoff
      settlements := t.settlements.retain fun id _ => ((t.freshMiners cutoff).lookup id).isSome }
  else { t with miners := t.freshMiners cutoff }

end

/-- `reset_window`, its `miners` section. -/
def Tracker.resetWindowCounters (t : Tracker F) : Tracker F :=
  { t with
    miners := t.miners.pass fun _ stats =>
      some { stats with windowShares := 0, windowDifficulty := Float64.zero } }

/-! ## `prune_settled_miners` -/

section

omit [Float64 F]

def archiveRecordIfPrunable (minerId : MinerId) (stats : MinerStats F)
    (settlement : SettlementState F) (cutoffUnixMs prunedAtUnixMs : Nat) :
    Option (SettlementArchiveRecord F) :=
  if settlement.settledTotalShares ≠ stats.totalShares then none
  else match settlement.lastShareUnixMs with
    | none => none
    | some lastShareUnixMs =>
      if lastShareUnixMs > cutoffUnixMs then none
      else match settlement.settledAtUnixMs with
        | none => none
        | some settledAtUnixMs =>
          if settledAtUnixMs > cutoffUnixMs then none
          else match settlement.settlementRef with
            | none => none
            | some settlementRef => some {
                version := payoutStateVersion
                minerId
                totalShares := stats.totalShares
                totalDifficulty := stats.totalDifficulty
                settledTotalShares := settlement.settledTotalShares
                settledTotalDifficulty := settlement.settledTotalDifficulty
                lastShareUnixMs := some lastShareUnixMs
                settledAtUnixMs
                settlementRef
                prunedAtUnixMs }

/-- The record of a worker as both maps have it now. -/
def Tracker.prunable (t : Tracker F) (id : MinerId) (cutoffUnixMs prunedAtUnixMs : Nat) :
    Option (SettlementArchiveRecord F) :=
  (t.miners.lookup id).bind fun stats => (t.settlements.lookup id).bind fun settlement =>
    archiveRecordIfPrunable id stats settlement cutoffUnixMs prunedAtUnixMs

/-- The snapshot under both read locks. Hash-map iteration has no fixed order; the
candidates are listed in the table's order, and no result depends on it. -/
def Tracker.pruneSnapshot (t : Tracker F) (cutoffUnixMs prunedAtUnixMs : Nat) :
    List (SettlementArchiveRecord F) :=
  t.miners.entries.filterMap fun e => t.prunable e.1 cutoffUnixMs prunedAtUnixMs

end

/-- The re-check of one candidate under both write locks. -/
def Tracker.stillPrunable (t : Tracker F) (cutoffUnixMs prunedAtUnixMs : Nat)
    (record : SettlementArchiveRecord F) : Bool :=
  (t.prunable record.minerId cutoffUnixMs prunedAtUnixMs).any fun candidate =>
    candidate.totalShares == record.totalShares
      && Float64.eq candidate.totalDifficulty record.totalDifficulty
      && candidate.settlementRef == record.settlementRef

def Tracker.confirmed (t : Tracker F) (cutoffUnixMs prunedAtUnixMs : Nat)
    (records : List (SettlementArchiveRecord F)) : List (SettlementArchiveRecord F) :=
  records.filter (t.stillPrunable cutoffUnixMs prunedAtUnixMs)

omit [Float64 F] in
/-- Remove the confirmed rows from both maps. -/
def Tracker.removeRows (t : Tracker F) (records : List (SettlementArchiveRecord F)) : Tracker F :=
  { t with
    miners := t.miners.eraseAll (records.map (·.minerId))
    settlements := t.settlements.eraseAll (records.map (·.minerId)) }

variable {id : MinerId} {cutoff prunedAt : Nat} {r : SettlementArchiveRecord F} {t t' : Tracker F}

omit [Float64 F] in
/-- What a record says about the row and the settlement it is taken from. -/
theorem archiveRecordIfPrunable_eq_some {stats : MinerStats F} {settlement : SettlementState F}
    (h : archiveRecordIfPrunable id stats settlement cutoff prunedAt = some r) :
    r.minerId = id ∧ r.totalShares = stats.totalShares
      ∧ settlement.settledTotalShares = stats.totalShares := by
  unfold archiveRecordIfPrunable at h
  split at h
  · cases h
  · rename_i hsettled
    have heq : settlement.settledTotalShares = stats.totalShares := Decidable.not_not.mp hsettled
    repeat' split at h
    all_goals cases h
    exact ⟨rfl, rfl, heq⟩

omit [Float64 F] in
theorem Tracker.prunable_eq_some (h : t.prunable id cutoff prunedAt = some r) :
    ∃ stats settlement, t.miners.lookup id = some stats ∧ t.settlements.lookup id = some settlement
      ∧ r.minerId = id ∧ r.totalShares = stats.totalShares
      ∧ settlement.settledTotalShares = stats.totalShares := by
  obtain ⟨stats, hstats, h⟩ := Option.bind_eq_some_iff.mp h
  obtain ⟨settlement, hsettlement, h⟩ := Option.bind_eq_some_iff.mp h
  exact ⟨stats, settlement, hstats, hsettlement, archiveRecordIfPrunable_eq_some h⟩

/-- **A confirmed record is of a row fully settled at the re-check**, with the total it has then. -/
theorem Tracker.mem_confirmed {records : List (SettlementArchiveRecord F)}
    (h : r ∈ t.confirmed cutoff prunedAt records) :
    r ∈ records ∧ ∃ stats settlement, t.miners.lookup r.minerId = some stats
      ∧ t.settlements.lookup r.minerId = some settlement ∧ stats.totalShares = r.totalShares
      ∧ settlement.settledTotalShares = stats.totalShares := by
  obtain ⟨hmem, hstill⟩ := List.mem_filter.mp h
  refine ⟨hmem, ?_⟩
  unfold stillPrunable at hstill
  obtain ⟨candidate, hcand, hsame⟩ := (Option.any_eq_true _ _).mp hstill
  obtain ⟨stats, settlement, hstats, hsettlement, -, htotal, heq⟩ := prunable_eq_some hcand
  simp only [Bool.and_eq_true, beq_iff_eq] at hsame
  exact ⟨stats, settlement, hstats, hsettlement, by omega, heq⟩

/-! ## What the tracker reports -/

omit [Float64 F] in
/-- The credited share count of a worker with a row. -/
def Tracker.totalShares (t : Tracker F) (id : MinerId) : Option Nat :=
  (t.miners.lookup id).map (·.totalShares)

omit [Float64 F] in
/-- The settled share count a worker reports: 0 without a settlement entry. -/
def Tracker.settledShares (t : Tracker F) (id : MinerId) : Nat :=
  ((t.settlements.lookup id).map (·.settledTotalShares)).getD 0

/-! ## What each section does to the reported counts -/

omit [Float64 F] in
theorem Tracker.totalShares_eq_none : t.totalShares id = none ↔ t.miners.lookup id = none := by
  simp [totalShares]

section

variable (t : Tracker F) (id k : MinerId)

theorem Tracker.totalShares_creditMiner (d : F) (now : Nat) :
    (t.creditMiner id d now).totalShares k
      = if k = id then some (wrapU64 ((t.totalShares id).getD 0 + 1)) else t.totalShares k := by
  simp only [creditMiner, totalShares, Table.lookup_insert_eq]
  split
  · cases t.miners.lookup id <;> rfl
  · rfl

theorem Tracker.settledShares_touchSettlement (now : Nat) :
    (t.touchSettlement id now).settledShares k = t.settledShares k := by
  simp only [touchSettlement, settledShares, Table.lookup_insert_eq]
  split
  · rename_i h
    subst h
    cases t.settlements.lookup k <;> rfl
  · rfl

theorem Tracker.settledShares_writeSettlement (settled total : Nat) (d : F) (ref : String)
    (now : Nat) :
    (t.writeSettlement id settled total d ref now).settledShares k
      = if k = id then max (min settled total) (t.settledShares id) else t.settledShares k := by
  simp only [writeSettlement, settledShares, Table.lookup_insert_eq]
  split
  · cases t.settlements.lookup id <;> rfl
  · rfl

end

/-- The sections that neither credit nor settle only ever take rows away: a total that is
left is the old one, and a dropped row takes its watermark along unless it never had one. -/
def Tracker.Shrinks (t t' : Tracker F) : Prop :=
  ∀ id, t'.settledShares id ≤ t.settledShares id ∧
    (t'.totalShares id = t.totalShares id
      ∨ t'.totalShares id = none ∧ (t'.settledShares id = 0 ∨ isEphemeralMinerId id))

omit [Float64 F] in
theorem Tracker.Shrinks.of_miners_eq (hm : t'.miners = t.miners)
    (hs : ∀ id, t'.settledShares id ≤ t.settledShares id) : t.Shrinks t' := by
  intro id
  exact ⟨hs id, .inl (by rw [totalShares, hm, totalShares])⟩

omit [Float64 F] in
theorem Tracker.Shrinks.of_settlements_eq (hs : t'.settlements = t.settlements)
    (hm : ∀ id, t'.totalShares id = t.totalShares id
      ∨ t'.totalShares id = none ∧ isEphemeralMinerId id) : t.Shrinks t' := by
  intro id
  refine ⟨by rw [settledShares, hs, settledShares], ?_⟩
  rcases hm id with h | ⟨h, he⟩
  · exact .inl h
  · exact .inr ⟨h, .inr he⟩

section

variable (t : Tracker F)

omit [Float64 F] in
theorem Tracker.shrinks_removeMiner (id : MinerId) : t.Shrinks (t.removeMiner id) := by
  intro k
  rcases eq_or_ne k id with rfl | hk
  · have htotal : (t.removeMiner k).totalShares k = none := by simp [removeMiner, totalShares]
    have hsettled : (t.removeMiner k).settledShares k = 0 := by simp [removeMiner, settledShares]
    exact ⟨by omega, .inr ⟨htotal, .inl hsettled⟩⟩
  · have htotal : (t.removeMiner id).totalShares k = t.totalShares k := by
      simp [removeMiner, totalShares, hk]
    have hsettled : (t.removeMiner id).settledShares k = t.settledShares k := by
      simp [removeMiner, settledShares, hk]
    exact ⟨by omega, .inl htotal⟩

omit [Float64 F] in
theorem Tracker.shrinks_removeRows (records : List (SettlementArchiveRecord F)) :
    t.Shrinks (t.removeRows records) := by
  intro k
  by_cases hk : k ∈ records.map (·.minerId)
  · have htotal : (t.removeRows records).totalShares k = none := by
      simp only [removeRows, totalShares, Table.lookup_eraseAll, if_pos hk, Option.map_none]
    have hsettled : (t.removeRows records).settledShares k = 0 := by
      simp only [removeRows, settledShares, Table.lookup_eraseAll, if_pos hk, Option.map_none,
        Option.getD_none]
    exact ⟨by omega, .inr ⟨htotal, .inl hsettled⟩⟩
  · have htotal : (t.removeRows records).totalShares k = t.totalShares k := by
      simp only [removeRows, totalShares, Table.lookup_eraseAll, if_neg hk]
    have hsettled : (t.removeRows records).settledShares k = t.settledShares k := by
      simp only [removeRows, settledShares, Table.lookup_eraseAll, if_neg hk]
    exact ⟨by omega, .inl htotal⟩

theorem Tracker.shrinks_cleanupMiners (cutoff : Nat) : t.Shrinks (t.cleanupMiners cutoff) := by
  refine .of_settlements_eq rfl fun id => ?_
  simp only [cleanupMiners, totalShares, Table.lookup_pass]
  cases t.miners.lookup id with
  | none => exact .inl rfl
  | some stats =>
    simp only [Option.bind_some, cleanupRow, Bool.and_eq_true]
    split
    · rename_i h; exact .inr ⟨rfl, h.2⟩
    · split <;> exact .inl rfl

theorem Tracker.shrinks_resetWindowCounters : t.Shrinks t.resetWindowCounters := by
  refine .of_settlements_eq rfl fun id => .inl ?_
  simp only [resetWindowCounters, totalShares, Table.lookup_pass]
  cases t.miners.lookup id <;> rfl

omit [Float64 F] in
theorem Tracker.shrinks_cleanupSettlements : t.Shrinks t.cleanupSettlements := by
  refine .of_miners_eq rfl fun id => ?_
  simp only [cleanupSettlements, settledShares, Table.lookup_retain]
  cases t.settlements.lookup id with
  | none => exact Nat.le_refl _
  | some s => by_cases h : isEphemeralMinerId id <;> simp [h, Option.filter]

omit [Float64 F] in
theorem Tracker.shrinks_cleanupVolatile (cutoff : Nat) : t.Shrinks (t.cleanupVolatile cutoff) := by
  intro id
  unfold cleanupVolatile
  split
  · -- some row is dropped: the settlements are cut down to the rows that are left
    simp only [totalShares, settledShares, Table.lookup_retain]
    cases hfresh : (t.freshMiners cutoff).lookup id with
    | none => simp [Option.filter_eq_none_iff.mpr]
    | some stats =>
      have hold : t.miners.lookup id = some stats := (Table.of_lookup_retain hfresh).1
      rw [hold]
      cases t.settlements.lookup id <;> simp [Option.filter]
  · rename_i hlen
    have hsame : (t.freshMiners cutoff).lookup id = t.miners.lookup id :=
      Table.lookup_retain_of_length_le (by simpa [freshMiners] using hlen) id
    refine ⟨Nat.le_refl _, .inl ?_⟩
    simp only [totalShares, hsame]

end

end MiningInfra.Payout
