import MiningInfra.Lib.Reach
import MiningInfra.Payout.Persist

/-!
# Concurrent calls on one tracker

A world is a tracker, the files it writes, and the calls in progress. Each method
of `PayoutTracker` is cut at its lock acquisitions: `begin` runs a call's first
critical section, `resume` the next one, and between two sections any other
thread may run. A section that holds two locks at once (`remove_miner`, the
re-check of `prune_settled_miners`, the snapshot of `flush`) is one step, since
every other section needs one of the two.

The last six fields of `World` are not part of the program. They name the credited
shares and record what settle calls and prunes did to them, so that properties
about single shares and single removals can be stated.
-/

namespace MiningInfra.Payout

open Lib

variable {F : Type}

/-- How a sequence of file operations ends. -/
inductive Fault where
  | none
  /-- An error before the first byte is written: creating the directory or opening the file. -/
  | early
  /-- An error after that many whole records, with or without a part of the next one. -/
  | late (written : Nat) (torn : Bool)
  deriving DecidableEq, Repr

inductive Request (F : Type) where
  | recordShare (id : MinerId) (difficulty : F)
  | markMinerSettled (id : MinerId) (settledTotalShares : Nat) (settlementRef : String)
  | removeMiner (id : MinerId)
  /-- `none` when `checked_sub` finds no such instant. -/
  | cleanupStaleMiners (cutoff : Option Nat)
  | pruneSettledMiners (cutoffUnixMs prunedAtUnixMs : Nat)
  | resetWindow
  | flush

/-- Where a call in progress stands: the section it runs next and what it carries there. -/
inductive Call (F : Type) where
  | recordMiners (id : MinerId) (difficulty : F) (now : Nat)
  | recordSettlement (id : MinerId)
  /-- `counted` names the shares that the clamped watermark counts. -/
  | settleWrite (id : MinerId) (settledTotalShares : Nat) (settlementRef : String)
      (currentTotal : Nat) (currentDifficulty : F) (counted : List Nat)
  | cleanupSettlements
  | pruneConfirm (records : List (SettlementArchiveRecord F)) (cutoffUnixMs prunedAtUnixMs : Nat)
  | resetCounters
  | markDirty
  | flushSnapshot
  | flushWrite (state : PersistedPayoutState F)
  | flushRename (state : PersistedPayoutState F)
  | flushFailed

/-- A piece of the archive file, with the prune call that wrote it. -/
inductive ArchivePiece (F : Type) where
  | line (call : Nat) (record : SettlementArchiveRecord F)
  /-- A part of a line, up to all of it but the line break. -/
  | torn (call : Nat) (record : SettlementArchiveRecord F)
  deriving DecidableEq, Repr

/-- A row that a prune call took out of `miners`. -/
structure Removal where
  call : Nat
  minerId : MinerId
  totalShares : Nat
  deriving DecidableEq, Repr

structure World (F : Type) where
  tracker : Tracker F
  calls : Table Nat (Call F)
  stateFile : Option (FileContent F)
  tempFile : Option (FileContent F)
  archive : List (ArchivePiece F)
  /-- The shares behind each row's total, oldest first. -/
  credits : MinerId → List Nat
  /-- Number of shares credited so far. -/
  credited : Nat
  /-- Shares counted by the clamped watermark of some settle call. -/
  covered : List Nat
  /-- Shares of the rows that prune calls removed. -/
  pruned : List Nat
  removals : List Removal
  /-- Number of prune calls past their re-check. -/
  prunes : Nat

inductive Event (F : Type) where
  | begin (thread : Nat) (request : Request F) (now : Nat)
  | resume (thread : Nat) (now : Nat) (fault : Fault)

/-- Install a new tracker. A row that is gone takes its shares with it. -/
def World.setTracker (w : World F) (tracker : Tracker F) : World F :=
  { w with
    tracker
    credits := fun id => if (tracker.miners.lookup id).isSome then w.credits id else [] }

/-- Move a thread to its next section, or out of its call. -/
def World.position (w : World F) (thread : Nat) (call : Option (Call F)) : World F :=
  { w with
    calls := match call with
      | some call => w.calls.insert thread call
      | none => w.calls.erase thread }

variable [Float64 F]

/-! ## The first section of each call

Each section returns the new world and the section that follows, if any. -/

def World.start (w : World F) (now : Nat) : Request F → World F × Option (Call F)
  | .recordShare id difficulty =>
    if validDifficulty difficulty then
      (w.setTracker (w.tracker.openWindow now), some (.recordMiners id difficulty now))
    else (w, none)
  | .markMinerSettled id settledTotalShares settlementRef =>
    if isEphemeralMinerId id then (w, none)
    else match w.tracker.readTotals id with
      | none => (w, none)
      | some (currentTotal, currentDifficulty) =>
        (w, some (.settleWrite id settledTotalShares settlementRef currentTotal
          currentDifficulty ((w.credits id).take (min settledTotalShares currentTotal))))
  | .removeMiner id => (w.setTracker (w.tracker.removeMiner id), some .markDirty)
  | .cleanupStaleMiners none => (w, none)
  | .cleanupStaleMiners (some cutoff) =>
    if w.tracker.persistent then
      (w.setTracker (w.tracker.cleanupMiners cutoff),
        if 0 < w.tracker.staleCount cutoff then some .cleanupSettlements else none)
    else (w.setTracker (w.tracker.cleanupVolatile cutoff), none)
  | .pruneSettledMiners cutoffUnixMs prunedAtUnixMs =>
    (w, if (w.tracker.pruneSnapshot cutoffUnixMs prunedAtUnixMs).isEmpty then none
      else some (.pruneConfirm (w.tracker.pruneSnapshot cutoffUnixMs prunedAtUnixMs)
        cutoffUnixMs prunedAtUnixMs))
  | .resetWindow =>
    (w.setTracker { w.tracker with windowStart := none }, some .resetCounters)
  | .flush =>
    if w.tracker.persistent && w.tracker.dirty then
      (w.setTracker { w.tracker with dirty := false }, some .flushSnapshot)
    else (w, none)

/-! ## The later sections -/

/-- The `miners` section of `record_share`, which credits one more share. -/
def World.creditShare (w : World F) (id : MinerId) (difficulty : F) (now : Nat) : World F :=
  { w with
    tracker := w.tracker.creditMiner id difficulty now
    credits := fun k => if k = id then w.credits id ++ [w.credited] else w.credits k
    credited := w.credited + 1 }

/-- The `settlements` section of `mark_miner_settled`, which counts the first shares. -/
def World.settleShares (w : World F) (id : MinerId) (settledTotalShares : Nat)
    (settlementRef : String) (currentTotal : Nat) (currentDifficulty : F) (counted : List Nat)
    (now : Nat) : World F :=
  { w with
    tracker := w.tracker.writeSettlement id settledTotalShares currentTotal currentDifficulty
      settlementRef now
    covered := w.covered ++ counted }

section

omit [Float64 F]

/-- What `append_settlement_archive` leaves in the file. -/
def appendSettlementArchive (call : Nat) (records : List (SettlementArchiveRecord F)) :
    Fault → List (ArchivePiece F)
  | .none => records.map (.line call)
  | .early => []
  | .late written torn =>
    (records.take written).map (.line call)
      ++ (if torn then ((records.drop written).take 1).map (.torn call) else [])

/-- The rows of `before` that `after` no longer has. -/
def removedRows (call : Nat) (before after : Tracker F) : List Removal :=
  before.miners.entries.filterMap fun e =>
    if (after.miners.lookup e.1).isNone then some ⟨call, e.1, e.2.totalShares⟩ else none

/-- The archive append of one prune call. -/
def World.appendArchive (w : World F) (confirmed : List (SettlementArchiveRecord F))
    (fault : Fault) : World F :=
  { w with
    archive := w.archive ++ appendSettlementArchive w.prunes confirmed fault
    prunes := w.prunes + 1 }

/-- The removal that follows it. -/
def World.removeConfirmed (w : World F) (call : Nat)
    (confirmed : List (SettlementArchiveRecord F)) : World F :=
  { w.setTracker (w.tracker.removeRows confirmed) with
    pruned := w.pruned ++ (confirmed.map (·.minerId)).flatMap w.credits
    removals := w.removals ++ removedRows call w.tracker (w.tracker.removeRows confirmed) }

end

/-- The re-check of `prune_settled_miners` with the archive append and the removal. A failed
append returns before the removal. -/
def World.pruneConfirm (w : World F) (confirmed : List (SettlementArchiveRecord F))
    (fault : Fault) : World F × Option (Call F) :=
  if confirmed.isEmpty then (w, none)
  else if fault = .none then
    ((w.appendArchive confirmed fault).removeConfirmed w.prunes confirmed, some .markDirty)
  else (w.appendArchive confirmed fault, none)

omit [Float64 F] in
/-- Write the temporary file: the content it has afterwards, and whether the write succeeded. -/
def writeTemp (temp : Option (FileContent F)) (state : PersistedPayoutState F) :
    Fault → Option (FileContent F) × Bool
  | .none => (some (.document state), true)
  | .early => (temp, false)
  | .late 0 torn => (some (if torn then .unreadable else .blank), false)
  | .late (_ + 1) _ => (some (.document state), false)

def World.advance (w : World F) (now : Nat) (fault : Fault) : Call F → World F × Option (Call F)
  | .recordMiners id difficulty shareNow =>
    (w.creditShare id difficulty shareNow,
      some (if w.tracker.persistent then .recordSettlement id else .markDirty))
  | .recordSettlement id =>
    (w.setTracker (w.tracker.touchSettlement id now), some .markDirty)
  | .settleWrite id settledTotalShares settlementRef currentTotal currentDifficulty counted =>
    (w.settleShares id settledTotalShares settlementRef currentTotal currentDifficulty counted
      now, some .markDirty)
  | .cleanupSettlements => (w.setTracker w.tracker.cleanupSettlements.markDirty, none)
  | .pruneConfirm records cutoffUnixMs prunedAtUnixMs =>
    w.pruneConfirm (w.tracker.confirmed cutoffUnixMs prunedAtUnixMs records) fault
  | .resetCounters => (w.setTracker w.tracker.resetWindowCounters, none)
  | .markDirty => (w.setTracker w.tracker.markDirty, none)
  | .flushSnapshot =>
    (w, some (if fault = .none then
      .flushWrite (serializeState w.tracker.miners w.tracker.settlements) else .flushFailed))
  | .flushWrite state =>
    ({ w with tempFile := (writeTemp w.tempFile state fault).1 },
      some (if (writeTemp w.tempFile state fault).2 then .flushRename state else .flushFailed))
  | .flushRename _ =>
    -- renaming a temporary file that another flush has already moved away fails
    if fault = .none ∧ w.tempFile.isSome then
      ({ w with stateFile := w.tempFile, tempFile := none }, none)
    else (w, some .flushFailed)
  | .flushFailed => (w.setTracker { w.tracker with dirty := true }, none)

/-- One step: an idle thread begins a call, or a thread with a call runs its next section. -/
def next (w : World F) : Event F → Option (World F)
  | .begin thread request now =>
    if (w.calls.lookup thread).isSome then none
    else some ((w.start now request).1.position thread (w.start now request).2)
  | .resume thread now fault =>
    (w.calls.lookup thread).map fun call =>
      (w.advance now fault call).1.position thread (w.advance now fault call).2

/-! ## Start states -/

omit [Float64 F] in
/-- A tracker nobody has called yet, with these files beside it. -/
def World.idle (tracker : Tracker F) (stateFile tempFile : Option (FileContent F)) : World F :=
  ⟨tracker, ∅, stateFile, tempFile, [], fun _ => [], 0, [], [], [], 0⟩

/-- `PayoutTracker::with_persistence`. -/
def World.withPersistence (file temp : Option (FileContent F)) (quarantined : Bool) : World F :=
  let loaded := loadPersistedState file quarantined
  .idle ⟨loaded.1.miners, loaded.1.settlements, none, true, false⟩ loaded.2 temp

/-- An empty tracker, with or without persistence. -/
def Empty (w : World F) : Prop :=
  w = .idle .new none none ∨ w = .withPersistence none none false

omit [Float64 F] in
/-- One whole `record_share` call, with persistence. -/
def shareEvents (thread : Nat) (id : MinerId) (difficulty : F) (now : Nat) : List (Event F) :=
  [.begin thread (.recordShare id difficulty) now, .resume thread now .none,
    .resume thread now .none, .resume thread now .none]

/-! ## Calls in progress after a step -/

omit [Float64 F] in
theorem World.lookup_position (w : World F) (t t' : Nat) (call : Option (Call F)) :
    (w.position t' call).calls.lookup t = if t = t' then call else w.calls.lookup t := by
  cases call with
  | none => exact Table.lookup_erase_eq ..
  | some call => exact Table.lookup_insert_eq ..

/-- What the first section of a call can do: its guards and what it leaves. -/
inductive Begins (w : World F) (now : Nat) : Request F → World F × Option (Call F) → Prop
  | refused {req : Request F} : Begins w now req (w, none)
  | share {id : MinerId} {d : F} (hvalid : validDifficulty d = true) :
    Begins w now (.recordShare id d)
      (w.setTracker (w.tracker.openWindow now), some (.recordMiners id d now))
  | settle {id : MinerId} {s : Nat} {ref : String} {total : Nat} {d : F}
      (hnamed : isEphemeralMinerId id = false)
      (hread : w.tracker.readTotals id = some (total, d)) :
    Begins w now (.markMinerSettled id s ref)
      (w, some (.settleWrite id s ref total d ((w.credits id).take (min s total))))
  | remove {id : MinerId} :
    Begins w now (.removeMiner id) (w.setTracker (w.tracker.removeMiner id), some .markDirty)
  | cleanup {cutoff : Nat} (hp : w.tracker.persistent = true) :
    Begins w now (.cleanupStaleMiners (some cutoff)) (w.setTracker (w.tracker.cleanupMiners cutoff),
      if 0 < w.tracker.staleCount cutoff then some .cleanupSettlements else none)
  | volatile {cutoff : Nat} (hp : w.tracker.persistent = false) :
    Begins w now (.cleanupStaleMiners (some cutoff))
      (w.setTracker (w.tracker.cleanupVolatile cutoff), none)
  | prune {cutoff prunedAt : Nat} : Begins w now (.pruneSettledMiners cutoff prunedAt)
      (w, some (.pruneConfirm (w.tracker.pruneSnapshot cutoff prunedAt) cutoff prunedAt))
  | reset : Begins w now .resetWindow
      (w.setTracker { w.tracker with windowStart := none }, some .resetCounters)
  | flush (hdirty : w.tracker.dirty = true) :
    Begins w now .flush (w.setTracker { w.tracker with dirty := false }, some .flushSnapshot)

section

variable (w : World F) (now : Nat)

theorem World.begins (req : Request F) : Begins w now req (w.start now req) := by
  cases req with
  | recordShare id d =>
    simp only [start]
    split
    exacts [.share ‹_›, .refused]
  | markMinerSettled id s ref =>
    simp only [start]
    split
    · exact .refused
    · rename_i hnamed
      split
      exacts [.refused, .settle (by simpa using hnamed) ‹_›]
  | removeMiner id => exact .remove
  | cleanupStaleMiners cutoff =>
    cases cutoff with
    | none => exact .refused
    | some cutoff =>
      simp only [start]
      split
      · exact .cleanup ‹_›
      · rename_i hp
        exact .volatile (by simpa using hp)
  | pruneSettledMiners cutoff prunedAt =>
    simp only [start]
    split
    exacts [.refused, .prune]
  | resetWindow => exact .reset
  | flush =>
    simp only [start]
    split
    · rename_i h
      exact .flush ((Bool.and_eq_true _ _).mp h).2
    · exact .refused

/-- Sections touch no thread; only `position` does. -/
theorem World.calls_start (req : Request F) : (w.start now req).1.calls = w.calls := by
  have h := w.begins now req
  generalize w.start now req = r at h ⊢
  cases h <;> rfl

theorem World.calls_advance (fault : Fault) (call : Call F) :
    (w.advance now fault call).1.calls = w.calls := by
  cases call with
  | pruneConfirm records cutoff prunedAt =>
    simp only [advance, pruneConfirm]
    repeat' split
    all_goals rfl
  | flushRename state => simp only [advance]; split <;> rfl
  | _ => rfl

end

variable {w w' : World F} {t now cutoff : Nat} {req : Request F} {fault : Fault} {id : MinerId}

theorem next_begin (h : next w (.begin t req now) = some w') :
    w.calls.lookup t = none ∧ w' = (w.start now req).1.position t (w.start now req).2 := by
  obtain ⟨hidle, rfl⟩ := of_guard_not h
  exact ⟨by simpa using hidle, rfl⟩

theorem next_resume (h : next w (.resume t now fault) = some w') :
    ∃ call, w.calls.lookup t = some call
      ∧ w' = (w.advance now fault call).1.position t (w.advance now fault call).2 := by
  obtain ⟨call, hcall, h⟩ := Option.map_eq_some_iff.mp h
  exact ⟨call, hcall, h.symm⟩

/-! ## Rows a step drops -/

/-- The step takes the worker's row out of `miners`. -/
def drops (w : World F) (id : MinerId) : Event F → Bool
  | .begin _ (.removeMiner id') _ => id = id'
  | .begin _ (.cleanupStaleMiners (some cutoff)) _ =>
    (w.tracker.miners.lookup id).any fun stats =>
      if w.tracker.persistent then stats.isStale cutoff && isEphemeralMinerId id
      else !stats.lastShare.any (cutoff < ·)
  | .resume thread _ .none =>
    match w.calls.lookup thread with
    | some (.pruneConfirm records cutoffUnixMs prunedAtUnixMs) =>
      ((w.tracker.confirmed cutoffUnixMs prunedAtUnixMs records).map (·.minerId)).contains id
    | _ => false
  | _ => false

theorem Tracker.kept_cleanupMiners {t : Tracker F} (h : (t.miners.lookup id).isSome)
    (hd : (t.miners.lookup id).any (fun s => s.isStale cutoff && isEphemeralMinerId id) = false) :
    ((t.cleanupMiners cutoff).miners.lookup id).isSome := by
  obtain ⟨stats, hstats⟩ := Option.isSome_iff_exists.mp h
  rw [hstats, Option.any_some] at hd
  simp only [cleanupMiners, Table.lookup_pass, hstats, Option.bind_some, cleanupRow, hd]
  split
  · rename_i hf; cases hf
  · split <;> rfl

omit [Float64 F] in
theorem Tracker.kept_cleanupVolatile {t : Tracker F} (h : (t.miners.lookup id).isSome)
    (hd : (t.miners.lookup id).any (fun s => !s.lastShare.any (cutoff < ·)) = false) :
    ((t.cleanupVolatile cutoff).miners.lookup id).isSome := by
  have hminers : (t.cleanupVolatile cutoff).miners = t.freshMiners cutoff := by
    unfold cleanupVolatile; split <;> rfl
  obtain ⟨stats, hstats⟩ := Option.isSome_iff_exists.mp h
  rw [hstats, Option.any_some, Bool.not_eq_false'] at hd
  rw [hminers, freshMiners, Table.lookup_retain, hstats, Option.filter_some, if_pos hd]
  rfl

variable (h : (w.tracker.miners.lookup id).isSome)

include h

theorem row_kept_start (hd : drops w id (.begin t req now) = false) :
    ((w.start now req).1.tracker.miners.lookup id).isSome := by
  have hs := w.begins now req
  generalize w.start now req = r at hs ⊢
  cases hs with
  | @remove id' =>
    have hne : id ≠ id' := by simpa [drops] using hd
    simpa [World.setTracker, Tracker.removeMiner, hne] using h
  | cleanup hp => exact Tracker.kept_cleanupMiners h (by simpa [drops, hp] using hd)
  | volatile hp => exact Tracker.kept_cleanupVolatile h (by simpa [drops, hp] using hd)
  | _ => exact h

theorem row_kept_advance {call : Call F} (hcall : w.calls.lookup t = some call)
    (hd : drops w id (.resume t now fault) = false) :
    ((w.advance now fault call).1.tracker.miners.lookup id).isSome := by
  cases call with
  | recordMiners id' d n =>
    simp only [World.advance, World.creditShare, Tracker.creditMiner, Table.lookup_insert_eq]
    split
    · rfl
    · exact h
  | pruneConfirm records cutoff prunedAt =>
    simp only [World.advance, World.pruneConfirm]
    split
    · exact h
    · split
      · rename_i hfault
        subst hfault
        simp only [drops, hcall, List.contains_eq_mem, decide_eq_false_iff_not] at hd
        simp only [World.removeConfirmed, World.appendArchive, World.setTracker,
          Tracker.removeRows, Table.lookup_eraseAll, if_neg hd]
        exact h
      · exact h
  | resetCounters =>
    obtain ⟨stats, hstats⟩ := Option.isSome_iff_exists.mp h
    simp [World.advance, World.setTracker, Tracker.resetWindowCounters, Table.lookup_pass, hstats]
  | flushRename state =>
    simp only [World.advance]
    split <;> exact h
  | _ => exact h

/-- **A row stays through every step that does not drop it.** -/
theorem row_kept {e : Event F} (hnext : next w e = some w') (hd : drops w id e = false) :
    (w'.tracker.miners.lookup id).isSome := by
  cases e with
  | begin t req now =>
    obtain ⟨-, rfl⟩ := next_begin hnext
    exact row_kept_start h hd
  | resume t now fault =>
    obtain ⟨call, hcall, rfl⟩ := next_resume hnext
    exact row_kept_advance h hcall hd

end MiningInfra.Payout
