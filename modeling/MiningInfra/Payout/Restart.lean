import MiningInfra.Lib.Binary64
import MiningInfra.Payout.World

/-!
# A restart keeps what the pool owes

`serialize_state` merges the two maps row by row, and `parse_persisted_state` splits them
again and refuses the whole file for one difficulty that is not finite or below zero. No
difficulty in the tracker is ever below zero: totals start at zero or at what an earlier
file was accepted with, shares add positive numbers, and a watermark is a copy of a total.
So a file whose difficulties are finite is read back in full.

A worker without a settlement entry gets a default one on the way. It has no timestamps,
so the worker is no more prunable than before.
-/

namespace MiningInfra.Payout

open Lib

/-- `f64`, with a JSON library that is exact on finite numbers. -/
instance : Float64 Float where
  zero := Binary64.zero
  add := Float.add
  eq := Float.beq
  lt := Float.lt
  le := Float.le
  isFinite := Float.isFinite
  readBack x := if x.isFinite then some x else none

section Restart

variable {F : Type} [Float64 F]

/-- A tracker of `with_persistence`, whatever the file held. -/
def Loaded (w : World F) : Prop := ∃ file temp quarantined, w = .withPersistence file temp quarantined

/-- The difficulties that `serialize_state` writes are finite. -/
def Tracker.FiniteDifficulties (t : Tracker F) : Prop :=
  ∀ id stats, t.miners.lookup id = some stats → Float64.isFinite stats.totalDifficulty = true
    ∧ Float64.isFinite ((t.settlements.lookup id).getD .default).settledTotalDifficulty = true

/-- Window counters and activity at their start. -/
def MinerStats.restarted (stats : MinerStats F) : MinerStats F :=
  { stats with windowShares := 0, windowDifficulty := Float64.zero, lastShare := none }

/-- `loaded` holds the same miners with the same totals, each with its settlement, and makes no
worker prunable. -/
structure Restores (t : Tracker F) (loaded : LoadedPayoutState F) : Prop where
  miners : ∀ id, loaded.miners.lookup id = (t.miners.lookup id).map MinerStats.restarted
  settlements : ∀ id, (t.miners.lookup id).isSome →
    loaded.settlements.lookup id = some ((t.settlements.lookup id).getD .default)
  prunable : ∀ id cutoff prunedAt, t.prunable id cutoff prunedAt = none →
    loaded.tracker.prunable id cutoff prunedAt = none

/-! ## A file whose rows survive -/

theorem archiveRecordIfPrunable_restarted (id : MinerId) (stats : MinerStats F)
    (settlement : SettlementState F) (cutoff prunedAt : Nat) :
    archiveRecordIfPrunable id stats.restarted settlement cutoff prunedAt
      = archiveRecordIfPrunable id stats settlement cutoff prunedAt := rfl

/-- A worker that was never settled is not prunable. -/
theorem archiveRecordIfPrunable_default (id : MinerId) (stats : MinerStats F)
    (cutoff prunedAt : Nat) : archiveRecordIfPrunable id stats .default cutoff prunedAt = none := by
  unfold archiveRecordIfPrunable
  split
  · rfl
  · rfl

theorem restores_of_survives {t : Tracker F} (h : Survives t.miners t.settlements) :
    ∃ loaded, parsePersistedState (serializeState t.miners t.settlements) = .ok loaded
      ∧ Restores t loaded := by
  obtain ⟨loaded, hparse, hminers, hsettlements⟩ := parsePersistedState_of_survives rfl h.rows
  have hminers' : ∀ id, loaded.miners.lookup id = (t.miners.lookup id).map MinerStats.restarted := by
    intro id
    rw [hminers, lookup_serializeState, Option.map_map]
    rfl
  have hsettlements' : ∀ id stats, t.miners.lookup id = some stats →
      loaded.settlements.lookup id = some ((t.settlements.lookup id).getD .default) := by
    intro id stats hstats
    rw [hsettlements, lookup_serializeState, hstats]
    rfl
  refine ⟨loaded, hparse, hminers', ?_, ?_⟩
  · intro id hid
    obtain ⟨stats, hstats⟩ := Option.isSome_iff_exists.mp hid
    exact hsettlements' id stats hstats
  · intro id cutoff prunedAt hold
    simp only [Tracker.prunable, LoadedPayoutState.tracker, hminers'] at hold ⊢
    cases hstats : t.miners.lookup id with
    | none => rfl
    | some stats =>
      rw [hstats, Option.bind_some] at hold
      rw [hsettlements' id stats hstats, Option.map_some, Option.bind_some, Option.bind_some,
        archiveRecordIfPrunable_restarted]
      cases hsettlement : t.settlements.lookup id with
      | none => exact archiveRecordIfPrunable_default id stats cutoff prunedAt
      | some settlement =>
        rw [hsettlement, Option.bind_some] at hold
        exact hold

end Restart

/-! ## No difficulty is below zero -/

/-- Not below zero. -/
def Unsigned (x : Float) : Prop := x.lt Binary64.zero = false

theorem unsigned_add {x y : Float} (hx : Unsigned x) (hy : Unsigned y) : Unsigned (x.add y) :=
  Binary64.not_add_lt_zero hx hy

theorem unsigned_zero : Unsigned Binary64.zero := Binary64.not_zero_lt_zero

theorem unsigned_of_valid {x : Float} (h : validDifficulty x = true) : Unsigned x := by
  simp only [validDifficulty, Bool.and_eq_true, Bool.not_eq_true'] at h
  exact Binary64.not_lt_zero_of_not_le h.2

structure Tracker.Unsigned (t : Tracker Float) : Prop where
  rows : ∀ id stats, t.miners.lookup id = some stats → Payout.Unsigned stats.totalDifficulty
  settlements : ∀ id s, t.settlements.lookup id = some s → Payout.Unsigned s.settledTotalDifficulty

/-- The difficulties a call carries from one section to the next. -/
def Call.Unsigned : Call Float → Prop
  | .recordMiners _ difficulty _ => Payout.Unsigned difficulty
  | .settleWrite _ _ _ _ currentDifficulty _ => Payout.Unsigned currentDifficulty
  | _ => True

namespace Tracker.Unsigned

variable {t : Tracker Float} (h : t.Unsigned) {d : Float}

include h

theorem settlement (id : MinerId) :
    Payout.Unsigned ((t.settlements.lookup id).getD .default).settledTotalDifficulty := by
  cases hs : t.settlements.lookup id with
  | none => exact unsigned_zero
  | some s => exact h.settlements id s hs

/-- The sections that change no difficulty and bring in no row. -/
theorem of_subset {t' : Tracker Float} (hminers : ∀ id stats, t'.miners.lookup id = some stats →
      ∃ old, t.miners.lookup id = some old ∧ stats.totalDifficulty = old.totalDifficulty)
    (hsettlements : ∀ id s, t'.settlements.lookup id = some s → t.settlements.lookup id = some s) :
    t'.Unsigned := by
  refine ⟨?_, ?_⟩
  · intro id stats hstats
    obtain ⟨old, hold, heq⟩ := hminers id stats hstats
    rw [heq]
    exact h.rows id old hold
  · intro id s hs
    exact h.settlements id s (hsettlements id s hs)

theorem creditMiner (id : MinerId) (hd : Payout.Unsigned d) (now : Nat) :
    (t.creditMiner id d now).Unsigned := by
  refine ⟨?_, h.settlements⟩
  intro k stats hstats
  rcases Table.of_lookup_insert hstats with ⟨-, rfl⟩ | hstats
  · refine unsigned_add ?_ hd
    cases hold : t.miners.lookup id with
    | none => exact unsigned_zero
    | some old => exact h.rows id old hold
  · exact h.rows k stats hstats

theorem touchSettlement (id : MinerId) (now : Nat) : (t.touchSettlement id now).Unsigned := by
  refine ⟨h.rows, ?_⟩
  intro k s hs
  rcases Table.of_lookup_insert hs with ⟨-, rfl⟩ | hs
  · exact h.settlement id
  · exact h.settlements k s hs

theorem writeSettlement (id : MinerId) (settled total : Nat) (hd : Payout.Unsigned d) (ref : String)
    (now : Nat) : (t.writeSettlement id settled total d ref now).Unsigned := by
  refine ⟨h.rows, ?_⟩
  intro k s hs
  rcases Table.of_lookup_insert hs with ⟨-, rfl⟩ | hs
  · exact hd
  · exact h.settlements k s hs

theorem cleanupMiners (cutoff : Nat) : (t.cleanupMiners cutoff).Unsigned := by
  refine h.of_subset ?_ fun _ _ hs => hs
  intro id stats hstats
  obtain ⟨old, hold, hrow⟩ := Table.of_lookup_pass hstats
  refine ⟨old, hold, ?_⟩
  unfold cleanupRow at hrow
  repeat' split at hrow
  all_goals cases hrow
  all_goals rfl

theorem cleanupVolatile (cutoff : Nat) : (t.cleanupVolatile cutoff).Unsigned := by
  have hfresh : ∀ id stats, (t.freshMiners cutoff).lookup id = some stats →
      ∃ old, t.miners.lookup id = some old ∧ stats.totalDifficulty = old.totalDifficulty := by
    intro id stats hstats
    exact ⟨stats, (Table.of_lookup_retain hstats).1, rfl⟩
  unfold Tracker.cleanupVolatile
  split
  · refine h.of_subset hfresh ?_
    intro id s hs
    exact (Table.of_lookup_retain hs).1
  · exact h.of_subset hfresh fun _ _ hs => hs

theorem cleanupSettlements : t.cleanupSettlements.Unsigned := by
  refine h.of_subset (fun _ stats hstats => ⟨stats, hstats, rfl⟩) ?_
  intro id s hs
  exact (Table.of_lookup_retain hs).1

theorem resetWindowCounters : t.resetWindowCounters.Unsigned := by
  refine h.of_subset ?_ fun _ _ hs => hs
  intro id stats hstats
  obtain ⟨old, hold, ⟨⟩⟩ := Table.of_lookup_pass hstats
  exact ⟨old, hold, rfl⟩

theorem removeMiner (id : MinerId) : (t.removeMiner id).Unsigned := by
  refine h.of_subset ?_ ?_
  · intro k stats hstats
    exact ⟨stats, Table.of_lookup_erase hstats, rfl⟩
  · intro k s hs
    exact Table.of_lookup_erase hs

theorem removeRows (records : List (SettlementArchiveRecord Float)) :
    (t.removeRows records).Unsigned := by
  refine h.of_subset ?_ ?_
  · intro k stats hstats
    simp only [Tracker.removeRows, Table.lookup_eraseAll] at hstats
    split at hstats
    · cases hstats
    · exact ⟨stats, hstats, rfl⟩
  · intro k s hs
    simp only [Tracker.removeRows, Table.lookup_eraseAll] at hs
    split at hs
    · cases hs
    · exact hs

end Tracker.Unsigned

/-! ## Steps -/

/-- The tracker and every call in progress. -/
structure UnsignedInv (w : World Float) : Prop where
  tracker : w.tracker.Unsigned
  calls : ∀ t call, w.calls.lookup t = some call → call.Unsigned

variable {w : World Float} {t : Tracker Float}

section

variable (h : UnsignedInv w)

include h

theorem unsigned_start (now : Nat) (req : Request Float) :
    (w.start now req).1.tracker.Unsigned
      ∧ ∀ call, (w.start now req).2 = some call → call.Unsigned := by
  have hs := w.begins now req
  generalize w.start now req = r at hs ⊢
  cases hs with
  | refused => exact ⟨h.tracker, by simp⟩
  | share hvalid =>
    refine ⟨{ h.tracker with }, ?_⟩
    rintro _ ⟨rfl⟩
    exact unsigned_of_valid hvalid
  | @settle id s ref total d hnamed hread =>
    refine ⟨h.tracker, ?_⟩
    rintro _ ⟨rfl⟩
    obtain ⟨stats, hstats, heq⟩ := Option.map_eq_some_iff.mp hread
    injection heq with _ hd
    show Unsigned d
    rw [← hd]
    exact h.tracker.rows id stats hstats
  | remove => exact ⟨h.tracker.removeMiner _, by rintro _ ⟨rfl⟩; trivial⟩
  | cleanup =>
    refine ⟨h.tracker.cleanupMiners _, ?_⟩
    intro call hcall
    simp only at hcall
    split at hcall <;> cases hcall
    trivial
  | volatile => exact ⟨h.tracker.cleanupVolatile _, by simp⟩
  | prune => exact ⟨h.tracker, by rintro _ ⟨rfl⟩; trivial⟩
  | reset | flush =>
    exact ⟨{ h.tracker with }, by rintro _ ⟨rfl⟩; trivial⟩

theorem unsigned_advance (now : Nat) (fault : Fault) {call : Call Float} (hcall : call.Unsigned) :
    (w.advance now fault call).1.tracker.Unsigned
      ∧ ∀ call', (w.advance now fault call).2 = some call' → call'.Unsigned := by
  cases call with
  | recordMiners id d shareNow =>
    refine ⟨h.tracker.creditMiner id hcall shareNow, ?_⟩
    rintro _ ⟨rfl⟩
    split <;> trivial
  | recordSettlement id =>
    refine ⟨h.tracker.touchSettlement id now, ?_⟩
    rintro _ ⟨rfl⟩
    trivial
  | settleWrite id settled ref total d counted =>
    refine ⟨h.tracker.writeSettlement id settled total hcall ref now, ?_⟩
    rintro _ ⟨rfl⟩
    trivial
  | cleanupSettlements =>
    exact ⟨{ h.tracker.cleanupSettlements with }, by simp [World.advance]⟩
  | pruneConfirm records cutoff prunedAt =>
    simp only [World.advance, World.pruneConfirm]
    split
    · exact ⟨h.tracker, by simp⟩
    · split
      · refine ⟨h.tracker.removeRows _, ?_⟩
        rintro _ ⟨rfl⟩
        trivial
      · exact ⟨h.tracker, by simp⟩
  | resetCounters => exact ⟨h.tracker.resetWindowCounters, by simp [World.advance]⟩
  | markDirty | flushFailed =>
    exact ⟨{ h.tracker with }, by simp [World.advance]⟩
  | flushSnapshot | flushWrite state =>
    refine ⟨h.tracker, ?_⟩
    rintro _ ⟨rfl⟩
    split <;> trivial
  | flushRename state =>
    simp only [World.advance]
    split
    · exact ⟨h.tracker, by simp⟩
    · refine ⟨h.tracker, ?_⟩
      rintro _ ⟨rfl⟩
      trivial

theorem UnsignedInv.position {w₁ : World Float} {t : Nat} {call : Option (Call Float)}
    (htracker : w₁.tracker.Unsigned) (hcalls : w₁.calls = w.calls)
    (hcall : ∀ c, call = some c → c.Unsigned) : UnsignedInv (w₁.position t call) := by
  refine ⟨htracker, ?_⟩
  intro t' c hc
  rw [World.lookup_position, hcalls] at hc
  split at hc
  · exact hcall c hc
  · exact h.calls t' c hc

/-- **No step makes a difficulty negative.** -/
theorem unsignedInv_step {w' : World Float} {e : Event Float} (hnext : next w e = some w') :
    UnsignedInv w' := by
  cases e with
  | begin t req now =>
    obtain ⟨-, rfl⟩ := next_begin hnext
    obtain ⟨htracker, hcall⟩ := unsigned_start h now req
    exact h.position htracker (w.calls_start now req) hcall
  | resume t now fault =>
    obtain ⟨call, hcall, rfl⟩ := next_resume hnext
    obtain ⟨htracker, hcall'⟩ := unsigned_advance h now fault (h.calls t call hcall)
    exact h.position htracker (w.calls_advance now fault call) hcall'

end

/-! ## The start -/

theorem unsigned_of_rowError {id : MinerId} {row : PersistedMinerStats Float}
    (h : rowError id row = none) :
    Unsigned row.totalDifficulty ∧ Unsigned row.settledTotalDifficulty := by
  unfold rowError at h
  split at h
  · cases h
  · rename_i htotal
    split at h
    · cases h
    · rename_i hsettled
      simp only [Bool.or_eq_true, Bool.not_eq_true', not_or, Bool.not_eq_true] at htotal hsettled
      exact ⟨htotal.2, hsettled.2⟩

/-- What a file is accepted with is not below zero. -/
theorem unsigned_parseFile {file : Option (FileContent Float)} {loaded : LoadedPayoutState Float}
    (h : parseFile file = .ok loaded) : loaded.tracker.Unsigned := by
  have hempty : (LoadedPayoutState.empty : LoadedPayoutState Float).tracker.Unsigned :=
    ⟨fun _ _ h => absurd h (by simp [LoadedPayoutState.empty, LoadedPayoutState.tracker]),
      fun _ _ h => absurd h (by simp [LoadedPayoutState.empty, LoadedPayoutState.tracker])⟩
  unfold parseFile at h
  split at h
  · injection h with h
    exact h ▸ hempty
  · injection h with h
    exact h ▸ hempty
  · cases h
  · rename_i state
    unfold parsePersistedState at h
    split at h
    · cases h
    · split at h
      · cases h
      · dsimp only at h
        split at h
        · cases h
        · rename_i herror
          injection h with h
          rw [List.findSome?_eq_none_iff] at herror
          rw [← h]
          refine ⟨?_, ?_⟩
          · intro id stats hstats
            obtain ⟨row, hrow, ⟨⟩⟩ := Table.of_lookup_pass hstats
            exact (unsigned_of_rowError (herror _ (Table.mem_entries.mpr hrow))).1
          · intro id s hs
            obtain ⟨row, hrow, ⟨⟩⟩ := Table.of_lookup_pass hs
            exact (unsigned_of_rowError (herror _ (Table.mem_entries.mpr hrow))).2

theorem unsignedInv_loaded (hw : Loaded w) : UnsignedInv w := by
  obtain ⟨file, temp, quarantined, rfl⟩ := hw
  refine ⟨?_, fun _ _ h => absurd h (by simp [World.withPersistence, World.idle])⟩
  cases hparse : parseFile file with
  | ok loaded =>
    have h := unsigned_parseFile hparse
    simp only [World.withPersistence, loadPersistedState, hparse]
    exact h
  | error err =>
    have hnone : parseFile (none : Option (FileContent Float)) = .ok .empty := rfl
    have h := unsigned_parseFile hnone
    simp only [World.withPersistence, loadPersistedState, hparse]
    exact h

/-! ## The round trip -/

theorem survives_of_unsigned (h : t.Unsigned) (hfinite : t.FiniteDifficulties) :
    Survives t.miners t.settlements := by
  intro id stats hstats
  obtain ⟨htotal, hsettled⟩ := hfinite id stats hstats
  have hread : ∀ x : Float, Float64.isFinite x = true → Float64.readBack x = some x := by
    intro x hx
    exact if_pos hx
  refine ⟨?_, ?_⟩
  · simp only [PersistedMinerStats.read, persistedRow, hread _ htotal, hread _ hsettled,
      Option.bind_some, Option.map_some]
  · have hlt : Float64.lt stats.totalDifficulty Float64.zero = false := h.rows id stats hstats
    have hlt' : Float64.lt ((t.settlements.lookup id).getD .default).settledTotalDifficulty
        Float64.zero = false := h.settlement id
    simp only [rowError, persistedRow, htotal, hsettled, hlt, hlt', Bool.not_true, Bool.or_self,
      Bool.false_eq_true, if_false]

/-- **A restart keeps what the pool owes**, in every state a tracker with persistence reaches and
in which the difficulties are finite. -/
theorem restart_restores {w : World Float} (h : Reach next Any Loaded w)
    (hfinite : w.tracker.FiniteDifficulties) :
    ∃ loaded, parsePersistedState (serializeState w.tracker.miners w.tracker.settlements)
        = .ok loaded ∧ Restores w.tracker loaded := by
  have hw : UnsignedInv w := by
    refine Reach.invariant ?_ ?_ h
    · intro s hs
      exact unsignedInv_loaded hs
    · intro s e s' hs _ hnext
      exact unsignedInv_step hs hnext
  exact restores_of_survives (survives_of_unsigned hw.tracker hfinite)

/-- A state file with a worker that was settled once. -/
def settledFile : FileContent Float :=
  .document ⟨2, AList.singleton "rig" ⟨3, .ofBits 0x4008000000000000, 2,
    .ofBits 0x4000000000000000, some 5, some 7, some "tx"⟩⟩

/-- Two and a half. -/
def sampleDifficulty : Float := .ofBits 0x4004000000000000

/-- A worker with a name outside ASCII mines and is settled in part, and the pool restarts. -/
theorem restart_restores_after_settlement :
    ∃ w : World Float, Reach next Any Loaded w ∧ w.tracker.FiniteDifficulties
      ∧ ∃ loaded, parsePersistedState (serializeState w.tracker.miners w.tracker.settlements)
          = .ok loaded ∧ Restores w.tracker loaded
        ∧ w.tracker.totalShares "шахта" = some 2 ∧ w.tracker.settledShares "шахта" = 1 := by
  have hrun : ∃ w : World Float, Reach next Any Loaded w
      ∧ decide ((∀ e ∈ w.tracker.miners.entries, Float64.isFinite e.2.totalDifficulty = true
          ∧ Float64.isFinite ((w.tracker.settlements.lookup e.1).getD .default).settledTotalDifficulty
            = true)
        ∧ w.tracker.totalShares "шахта" = some 2 ∧ w.tracker.settledShares "шахта" = 1) = true := by
    refine Reach.any_of_exec (World.withPersistence (some settledFile) none true) ⟨_, _, _, rfl⟩
      (shareEvents 0 "шахта" sampleDifficulty 1 ++ shareEvents 0 "шахта" sampleDifficulty 2
        ++ [.begin 0 (.markMinerSettled "шахта" 1 "tx2") 3, .resume 0 3 .none, .resume 0 3 .none]) ?_
    decide +kernel
  obtain ⟨w, hreach, hw⟩ := hrun
  obtain ⟨hentries, htotal, hsettled⟩ := of_decide_eq_true hw
  have hfinite : w.tracker.FiniteDifficulties := by
    intro id stats hstats
    exact hentries ⟨id, stats⟩ (Table.mem_entries.mpr hstats)
  obtain ⟨loaded, hparse, hrestores⟩ := restart_restores hreach hfinite
  exact ⟨w, hreach, hfinite, loaded, hparse, hrestores, htotal, hsettled⟩

end MiningInfra.Payout
