import MiningInfra.Payout.World

/-!
# The settlement archive

`prune_settled_miners` appends the confirmed records to the archive and then
removes their rows, all under both write locks, so a prune that succeeds archives
exactly what it removes. A prune whose append fails removes nothing, and the
records it had already written stay in the file. The rows are still prunable, and
the next prune archives them again.
-/

namespace MiningInfra.Payout

open Lib

variable {F : Type}

/-- The removal a piece of the archive stands for; a part of a line stands for none. -/
def ArchivePiece.removal : ArchivePiece F → Option Removal
  | .line call record => some ⟨call, record.minerId, record.totalShares⟩
  | .torn _ _ => none

/-- The archive holds one record for each removal, written by the call that made it, and
nothing else. -/
def ArchiveMatches (w : World F) : Prop :=
  (w.archive.map ArchivePiece.removal).Perm (w.removals.map some)

/-- Any tracker before its first call. -/
def Started (w : World F) : Prop := ∃ tracker file temp, w = .idle tracker file temp

/-! ## Confirmed records and removed rows -/

theorem nodup_minerId_pruneSnapshot (t : Tracker F) (cutoff prunedAt : Nat) :
    ((t.pruneSnapshot cutoff prunedAt).map (·.minerId)).Nodup := by
  refine Table.nodup_map_key_filterMap (fun e r h => ?_) t.miners
  obtain ⟨_, _, -, -, hid, -, -⟩ := Tracker.prunable_eq_some h
  exact hid

theorem mem_removedRows {call : Nat} {before after : Tracker F} {x : Removal} :
    x ∈ removedRows call before after ↔
      ∃ stats, before.miners.lookup x.minerId = some stats ∧ after.miners.lookup x.minerId = none
        ∧ x.call = call ∧ x.totalShares = stats.totalShares := by
  unfold removedRows
  rw [List.mem_filterMap]
  constructor
  · rintro ⟨⟨id, stats⟩, hmem, h⟩
    obtain ⟨hnone, rfl⟩ := of_guard h
    exact ⟨stats, Table.mem_entries.mp hmem, by simpa using hnone, rfl, rfl⟩
  · rintro ⟨stats, hlook, hnone, hcall, htotal⟩
    refine ⟨⟨x.minerId, stats⟩, Table.mem_entries.mpr hlook, ?_⟩
    rw [if_pos (by simp [hnone])]
    cases x
    simp_all

theorem nodup_removedRows (call : Nat) (before after : Tracker F) :
    (removedRows call before after).Nodup := by
  have hids : ((removedRows call before after).map (·.minerId)).Nodup := by
    refine Table.nodup_map_key_filterMap (fun e r h => ?_) before.miners
    obtain ⟨-, rfl⟩ := of_guard h
    exact rfl
  exact hids.of_map

variable [Float64 F]

variable {records : List (SettlementArchiveRecord F)} {w : World F} {now cutoff prunedAt : Nat}

/-- **A successful prune removes the rows it archives, each once.** -/
theorem confirmed_perm_removedRows (t : Tracker F) (call cutoff prunedAt : Nat)
    (hnd : (records.map (·.minerId)).Nodup) :
    ((t.confirmed cutoff prunedAt records).map fun r =>
        (⟨call, r.minerId, r.totalShares⟩ : Removal)).Perm
      (removedRows call t (t.removeRows (t.confirmed cutoff prunedAt records))) := by
  have hids : ((t.confirmed cutoff prunedAt records).map (·.minerId)).Nodup :=
    ((List.filter_sublist).map _).nodup hnd
  have hleft : ((t.confirmed cutoff prunedAt records).map fun r =>
      (⟨call, r.minerId, r.totalShares⟩ : Removal)).Nodup := by
    refine List.Nodup.of_map Removal.minerId ?_
    rw [List.map_map]
    exact hids
  refine (List.perm_ext_iff_of_nodup hleft (nodup_removedRows _ _ _)).mpr fun x => ?_
  rw [mem_removedRows, List.mem_map]
  simp only [Tracker.removeRows, Table.lookup_eraseAll]
  constructor
  · rintro ⟨r, hr, rfl⟩
    obtain ⟨-, stats, -, hstats, -, htotal, -⟩ := Tracker.mem_confirmed hr
    exact ⟨stats, hstats, if_pos (List.mem_map_of_mem hr), rfl, htotal.symm⟩
  · rintro ⟨stats, hstats, hnone, hcall, htotal⟩
    have hmem : x.minerId ∈ (t.confirmed cutoff prunedAt records).map (·.minerId) := by
      by_contra hout
      rw [if_neg hout, hstats] at hnone
      cases hnone
    obtain ⟨r, hr, hid⟩ := List.mem_map.mp hmem
    obtain ⟨-, stats', -, hstats', -, htotal', -⟩ := Tracker.mem_confirmed hr
    rw [hid, hstats] at hstats'
    injection hstats' with hsame
    subst hsame
    refine ⟨r, hr, ?_⟩
    cases x
    simp_all

/-! ## The invariant -/

/-- An archive append that fails has left nothing in the file. -/
def failsCleanly (w : World F) : Event F → Bool
  | .resume thread _ fault => match w.calls.lookup thread with
    | some (.pruneConfirm records cutoffUnixMs prunedAtUnixMs) =>
      fault = .none || (appendSettlementArchive w.prunes
        (w.tracker.confirmed cutoffUnixMs prunedAtUnixMs records) fault).isEmpty
    | _ => true
  | _ => true

omit [Float64 F] in
structure ArchiveInv (w : World F) : Prop where
  records : ArchiveMatches w
  /-- A prune between its two sections holds at most one record per worker. -/
  pending : ∀ t records cutoff prunedAt,
    w.calls.lookup t = some (.pruneConfirm records cutoff prunedAt) →
    (records.map (·.minerId)).Nodup

/-- Beginning a call writes nothing to the archive. -/
theorem start_archive (w : World F) (now : Nat) (req : Request F) :
    (w.start now req).1.archive = w.archive ∧ (w.start now req).1.removals = w.removals := by
  have hs := w.begins now req
  generalize w.start now req = r at hs ⊢
  cases hs <;> exact ⟨rfl, rfl⟩

theorem start_pruneConfirm {req : Request F}
    (h : (w.start now req).2 = some (.pruneConfirm records cutoff prunedAt)) :
    records = w.tracker.pruneSnapshot cutoff prunedAt := by
  have hs := w.begins now req
  generalize w.start now req = r at hs h
  cases hs with
  | cleanup =>
    simp only at h
    split at h <;> cases h
  | _ => cases h; try rfl

/-- **The re-check of a prune** adds the same removals to both lists. -/
theorem ArchiveMatches.prune (h : ArchiveMatches w) {t : Nat} {fault : Fault}
    (hnd : (records.map (·.minerId)).Nodup)
    (hcall : w.calls.lookup t = some (.pruneConfirm records cutoff prunedAt))
    (hok : failsCleanly w (.resume t now fault) = true) :
    ArchiveMatches (w.advance now fault (.pruneConfirm records cutoff prunedAt)).1 := by
  unfold ArchiveMatches at h
  simp only [World.advance, World.pruneConfirm]
  split
  · exact h
  · split
    · rename_i hfault
      subst hfault
      have hnew := confirmed_perm_removedRows w.tracker w.prunes cutoff prunedAt hnd
      have hboth := h.append (hnew.map some)
      simpa [ArchiveMatches, World.removeConfirmed, World.appendArchive, World.setTracker,
        appendSettlementArchive, ArchivePiece.removal, Function.comp_def] using hboth
    · rename_i hfault
      have hempty : appendSettlementArchive w.prunes
          (w.tracker.confirmed cutoff prunedAt records) fault = [] := by
        simpa [failsCleanly, hcall, hfault] using hok
      simpa [ArchiveMatches, World.appendArchive, hempty] using h

theorem advance_archive (w : World F) (now : Nat) (fault : Fault) (call : Call F)
    (hcall : ∀ records cutoff prunedAt, call ≠ .pruneConfirm records cutoff prunedAt) :
    (w.advance now fault call).1.archive = w.archive
      ∧ (w.advance now fault call).1.removals = w.removals := by
  cases call with
  | pruneConfirm records cutoff prunedAt => exact absurd rfl (hcall records cutoff prunedAt)
  | flushRename state =>
    simp only [World.advance]
    split <;> exact ⟨rfl, rfl⟩
  | _ => exact ⟨rfl, rfl⟩

theorem advance_ne_pruneConfirm (w : World F) (now : Nat) (fault : Fault) (call : Call F)
    (records : List (SettlementArchiveRecord F)) (cutoff prunedAt : Nat) :
    (w.advance now fault call).2 ≠ some (.pruneConfirm records cutoff prunedAt) := by
  cases call with
  | pruneConfirm records' cutoff' prunedAt' =>
    simp only [World.advance, World.pruneConfirm]
    repeat' split
    all_goals simp
  | _ =>
    simp only [World.advance]
    repeat' split
    all_goals simp

theorem archiveInv_step {w' : World F} {e : Event F} (h : ArchiveInv w)
    (hok : failsCleanly w e = true) (hnext : next w e = some w') : ArchiveInv w' := by
  cases e with
  | begin t req now =>
    obtain ⟨-, rfl⟩ := next_begin hnext
    obtain ⟨harchive, hremovals⟩ := start_archive w now req
    refine ⟨?_, ?_⟩
    · unfold ArchiveMatches World.position
      rw [harchive, hremovals]
      exact h.records
    · intro t' records cutoff prunedAt hlook
      rw [World.lookup_position, World.calls_start] at hlook
      split at hlook
      · rw [start_pruneConfirm hlook]
        exact nodup_minerId_pruneSnapshot _ _ _
      · exact h.pending t' records cutoff prunedAt hlook
  | resume t now fault =>
    obtain ⟨call, hcall, rfl⟩ := next_resume hnext
    refine ⟨?_, ?_⟩
    · by_cases hprune : ∃ records cutoff prunedAt, call = .pruneConfirm records cutoff prunedAt
      · obtain ⟨records, cutoff, prunedAt, rfl⟩ := hprune
        exact h.records.prune (h.pending t records cutoff prunedAt hcall) hcall hok
      · obtain ⟨harchive, hremovals⟩ := advance_archive w now fault call
          fun records cutoff prunedAt heq => hprune ⟨records, cutoff, prunedAt, heq⟩
        unfold ArchiveMatches World.position
        rw [harchive, hremovals]
        exact h.records
    · intro t' records cutoff prunedAt hlook
      rw [World.lookup_position, World.calls_advance] at hlook
      split at hlook
      · exact absurd hlook (advance_ne_pruneConfirm w now fault call records cutoff prunedAt)
      · exact h.pending t' records cutoff prunedAt hlook

omit [Float64 F] in
theorem archiveInv_started (hw : Started w) : ArchiveInv w := by
  obtain ⟨tracker, file, temp, rfl⟩ := hw
  exact ⟨List.Perm.refl _, by simp [World.idle]⟩

/-! ## Every run -/

/-- **The archive is 1:1 with the removals in every run whose failed appends leave nothing
behind.** -/
theorem archive_matches_removals {w : World F}
    (h : Reach next (fun w e => failsCleanly w e = true) Started w) : ArchiveMatches w :=
  (h.invariant (fun _ => archiveInv_started) fun _ _ _ hinv hok hnext =>
    archiveInv_step hinv hok hnext).records

/-- One share, settled; a prune whose append meets the given fault; and a second prune. -/
def pruneEvents (firstFault : Fault) : List (Event Nat) :=
  shareEvents 1 "alice" 5 10
    ++ [.begin 1 (.markMinerSettled "alice" 1 "tx1") 20, .resume 1 20 .none, .resume 1 20 .none,
      .begin 1 (.pruneSettledMiners 30 40) 40, .resume 1 40 firstFault,
      .begin 1 (.pruneSettledMiners 30 50) 50, .resume 1 50 .none, .resume 1 50 .none]

theorem archive_matches_removals_after_retry :
    ∃ w : World Nat, Reach next (fun w e => failsCleanly w e = true) Started w
      ∧ ArchiveMatches w ∧ w.prunes = 2 ∧ w.removals = [⟨1, "alice", 1⟩] := by
  have hrun : ∃ w : World Nat, Reach next (fun w e => failsCleanly w e = true) Started w
      ∧ decide (w.prunes = 2 ∧ w.removals = [⟨1, "alice", 1⟩]) = true :=
    Reach.exists_of_exec failsCleanly (fun _ _ h => h) (.withPersistence none none false)
      ⟨_, _, _, rfl⟩ (pruneEvents .early) (by decide +kernel)
  obtain ⟨w, hreach, hw⟩ := hrun
  exact ⟨w, hreach, archive_matches_removals hreach, of_decide_eq_true hw⟩

/-- **The duplicate record.** The records are appended, the sync fails, the row stays, and the
next prune appends the record again. -/
theorem failed_sync_archives_twice :
    ¬ ∀ w : World Nat, Reach next Any Started w → w.calls.entries.isEmpty = true →
      ArchiveMatches w := by
  have hrun : ∃ w : World Nat, Reach next Any Started w
      ∧ decide (w.calls.entries.isEmpty = true ∧ w.archive.length = 2 ∧ w.removals.length = 1)
        = true :=
    Reach.any_of_exec
      (.withPersistence none none false) ⟨_, _, _, rfl⟩ (pruneEvents (.late 1 false))
      (by decide +kernel)
  obtain ⟨w, hreach, hw⟩ := hrun
  obtain ⟨hquiet, harchive, hremovals⟩ := of_decide_eq_true hw
  intro hall
  have hlen := (hall w hreach hquiet).length_eq
  rw [List.length_map, List.length_map] at hlen
  omega

end MiningInfra.Payout
