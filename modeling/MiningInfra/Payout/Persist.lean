import MiningInfra.Payout.Tracker

/-!
# The payout state file

What `flush` writes and `with_persistence` reads back. The JSON text itself is
not modelled: a file holds a document, text that no document reads from, or
nothing. Numbers are the one place where reading a document back may change it,
so they go through `Float64.readBack`.
-/

namespace MiningInfra.Payout

open Lib

variable {F : Type}

structure PersistedMinerStats (F : Type) where
  totalShares : Nat
  totalDifficulty : F
  settledTotalShares : Nat
  settledTotalDifficulty : F
  lastShareUnixMs : Option Nat
  settledAtUnixMs : Option Nat
  settlementRef : Option String
  deriving DecidableEq, Repr

structure PersistedPayoutState (F : Type) where
  version : Nat
  miners : Table MinerId (PersistedMinerStats F)

inductive FileContent (F : Type) where
  | blank
  | unreadable
  | document (state : PersistedPayoutState F)

structure LoadedPayoutState (F : Type) where
  miners : Table MinerId (MinerStats F)
  settlements : Table MinerId (SettlementState F)

def LoadedPayoutState.empty : LoadedPayoutState F := ⟨∅, ∅⟩

/-- The tracker that `with_persistence` makes of what it loaded. -/
def LoadedPayoutState.tracker (loaded : LoadedPayoutState F) : Tracker F :=
  ⟨loaded.miners, loaded.settlements, none, true, false⟩

/-- Why a state file is unusable. -/
inductive PayoutStateError (F : Type) where
  /-- "parse payout state …" -/
  | parse
  /-- "unsupported payout state version …" -/
  | unsupportedVersion (version : Nat)
  /-- "invalid payout difficulty … for miner …" -/
  | invalidDifficulty (difficulty : F) (minerId : MinerId)
  /-- "invalid settled payout difficulty … for miner …" -/
  | invalidSettledDifficulty (difficulty : F) (minerId : MinerId)
  deriving DecidableEq, Repr

variable [Float64 F]

def persistedRow (stats : MinerStats F) (settlement : SettlementState F) :
    PersistedMinerStats F where
  totalShares := stats.totalShares
  totalDifficulty := stats.totalDifficulty
  settledTotalShares := settlement.settledTotalShares
  settledTotalDifficulty := settlement.settledTotalDifficulty
  lastShareUnixMs := settlement.lastShareUnixMs
  settledAtUnixMs := settlement.settledAtUnixMs
  settlementRef := settlement.settlementRef

/-- `serialize_state`: one row per miner. Settlement entries without a miner are not written. -/
def serializeState (miners : Table MinerId (MinerStats F))
    (settlements : Table MinerId (SettlementState F)) : PersistedPayoutState F where
  version := payoutStateVersion
  miners := miners.pass fun id stats =>
    some (persistedRow stats ((settlements.lookup id).getD .default))

/-- The numbers of one row as the JSON reader returns them. -/
def PersistedMinerStats.read (row : PersistedMinerStats F) : Option (PersistedMinerStats F) :=
  (Float64.readBack row.totalDifficulty).bind fun totalDifficulty =>
    (Float64.readBack row.settledTotalDifficulty).map fun settledTotalDifficulty =>
      { row with totalDifficulty, settledTotalDifficulty }

/-- The two difficulty checks of `parse_persisted_state`. -/
def rowError (minerId : MinerId) (row : PersistedMinerStats F) : Option (PayoutStateError F) :=
  if !Float64.isFinite row.totalDifficulty || Float64.lt row.totalDifficulty Float64.zero then
    some (.invalidDifficulty row.totalDifficulty minerId)
  else if !Float64.isFinite row.settledTotalDifficulty
      || Float64.lt row.settledTotalDifficulty Float64.zero then
    some (.invalidSettledDifficulty row.settledTotalDifficulty minerId)
  else none

omit [Float64 F] in
def PersistedMinerStats.settlement (row : PersistedMinerStats F) : SettlementState F where
  settledTotalShares := row.settledTotalShares
  settledTotalDifficulty := row.settledTotalDifficulty
  lastShareUnixMs := row.lastShareUnixMs
  settledAtUnixMs := row.settledAtUnixMs
  settlementRef := row.settlementRef

/-- Window counters and activity restart empty. -/
def PersistedMinerStats.stats (row : PersistedMinerStats F) : MinerStats F where
  totalShares := row.totalShares
  totalDifficulty := row.totalDifficulty
  windowShares := 0
  windowDifficulty := Float64.zero
  lastShare := none

/-- `parse_persisted_state`, on a document the JSON reader accepts or not. -/
def parsePersistedState (state : PersistedPayoutState F) :
    Except (PayoutStateError F) (LoadedPayoutState F) :=
  if state.miners.entries.any fun e => e.2.read.isNone then .error .parse
  else if state.version ≠ payoutStateVersion then .error (.unsupportedVersion state.version)
  else
    let rows := state.miners.pass fun _ row => row.read
    match rows.entries.findSome? fun e => rowError e.1 e.2 with
    | some err => .error err
    | none => .ok {
        miners := rows.pass fun _ row => some row.stats
        settlements := rows.pass fun _ row => some row.settlement }

/-- Reading the file: a missing or blank one stands for empty totals. -/
def parseFile : Option (FileContent F) → Except (PayoutStateError F) (LoadedPayoutState F)
  | none => .ok .empty
  | some .blank => .ok .empty
  | some .unreadable => .error .parse
  | some (.document state) => parsePersistedState state

/-- `load_persisted_state`: what is loaded and what is left at the path. An unusable file is
moved aside, which may fail, and the tracker starts empty. -/
def loadPersistedState (file : Option (FileContent F)) (quarantined : Bool) :
    LoadedPayoutState F × Option (FileContent F) :=
  match parseFile file with
  | .ok state => (state, file)
  | .error _ => (.empty, if quarantined then none else file)

/-! ## Reading back what was written -/

/-- What the pool owes: the totals of every worker with a row, and its settlement. -/
def durable (miners : Table MinerId (MinerStats F)) (settlements : Table MinerId (SettlementState F))
    (id : MinerId) : Option (Nat × F) × SettlementState F :=
  ((miners.lookup id).map fun stats => (stats.totalShares, stats.totalDifficulty),
    (settlements.lookup id).getD .default)

/-- A row whose numbers the reader returns unchanged and accepts. -/
def PersistedMinerStats.Survives (id : MinerId) (row : PersistedMinerStats F) : Prop :=
  row.read = some row ∧ rowError id row = none

/-- Every row of the two maps survives being written and read. -/
def Survives (miners : Table MinerId (MinerStats F))
    (settlements : Table MinerId (SettlementState F)) : Prop :=
  ∀ id stats, miners.lookup id = some stats →
    (persistedRow stats ((settlements.lookup id).getD .default)).Survives id

theorem lookup_serializeState (miners : Table MinerId (MinerStats F))
    (settlements : Table MinerId (SettlementState F)) (id : MinerId) :
    (serializeState miners settlements).miners.lookup id
      = (miners.lookup id).map fun stats =>
          persistedRow stats ((settlements.lookup id).getD .default) := by
  rw [serializeState, Table.lookup_pass]
  cases miners.lookup id <;> rfl

/-- A document all of whose rows survive is accepted, row by row. -/
theorem parsePersistedState_of_survives {state : PersistedPayoutState F}
    (hversion : state.version = payoutStateVersion)
    (hrows : ∀ id row, state.miners.lookup id = some row → row.Survives id) :
    ∃ loaded, parsePersistedState state = .ok loaded
      ∧ (∀ id, loaded.miners.lookup id = (state.miners.lookup id).map (·.stats))
      ∧ ∀ id, loaded.settlements.lookup id = (state.miners.lookup id).map (·.settlement) := by
  have hread : (state.miners.entries.any fun e => e.2.read.isNone) = false := by
    rw [List.any_eq_false]
    intro e he
    rw [(hrows e.1 e.2 (Table.mem_entries.mp he)).1]
    simp
  have hlook : ∀ id, (state.miners.pass fun _ row => row.read).lookup id = state.miners.lookup id := by
    intro id
    rw [Table.lookup_pass]
    cases hid : state.miners.lookup id with
    | none => rfl
    | some row => exact (hrows id row hid).1
  have herror : ((state.miners.pass fun _ row => row.read).entries.findSome?
      fun e => rowError e.1 e.2) = none := by
    rw [List.findSome?_eq_none_iff]
    intro e he
    have hid := Table.mem_entries.mp he
    rw [hlook] at hid
    exact (hrows e.1 e.2 hid).2
  refine ⟨_, by simp only [parsePersistedState, hread, hversion, herror]; rfl, ?_, ?_⟩
  · intro id
    rw [Table.lookup_pass, hlook]
    cases state.miners.lookup id <;> rfl
  · intro id
    rw [Table.lookup_pass, hlook]
    cases state.miners.lookup id <;> rfl

theorem Survives.rows {miners : Table MinerId (MinerStats F)}
    {settlements : Table MinerId (SettlementState F)} (h : Survives miners settlements) :
    ∀ id row, (serializeState miners settlements).miners.lookup id = some row →
      row.Survives id := by
  intro id row hrow
  rw [lookup_serializeState, Option.map_eq_some_iff] at hrow
  obtain ⟨stats, hstats, rfl⟩ := hrow
  exact h id stats hstats

/-- **The round trip.** When every row survives and every settlement belongs to a row, the
document reads back to what it was written from. -/
theorem parse_serializeState {miners : Table MinerId (MinerStats F)}
    {settlements : Table MinerId (SettlementState F)} (hsurvives : Survives miners settlements)
    (howned : ∀ id, (settlements.lookup id).isSome → (miners.lookup id).isSome) :
    ∃ loaded, parsePersistedState (serializeState miners settlements) = .ok loaded
      ∧ durable loaded.miners loaded.settlements = durable miners settlements := by
  obtain ⟨loaded, hparse, hminers, hsettlements⟩ :=
    parsePersistedState_of_survives rfl hsurvives.rows
  refine ⟨loaded, hparse, funext fun id => ?_⟩
  rw [durable, durable, hminers, hsettlements, lookup_serializeState]
  cases hid : miners.lookup id with
  | some stats => rfl
  | none =>
    -- a settlement entry without a row would be lost here
    have hnone : settlements.lookup id = none := by
      cases hs : settlements.lookup id with
      | none => rfl
      | some s =>
        have := howned id (by rw [hs]; rfl)
        rw [hid] at this
        cases this
    rw [hnone]
    rfl

end MiningInfra.Payout
