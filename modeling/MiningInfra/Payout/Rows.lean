import MiningInfra.Payout.World

/-!
# Every settlement has a row

A settlement entry and its worker's row live in two maps. `record_share` and
`mark_miner_settled` visit the row first and the settlement second, so a row that
is dropped in between leaves an entry behind that belongs to nobody. As long as
that does not happen, an entry without a row is one that a cleanup, which also
works on the two maps in turn, is about to remove.
-/

namespace MiningInfra.Payout

open Lib

variable {F : Type}

/-- The worker whose row a call has read or written and whose settlement it writes next. -/
def Call.worker : Call F → Option MinerId
  | .recordSettlement id => some id
  | .settleWrite id _ _ _ _ _ => some id
  | _ => none

variable [Float64 F]

/-- No row is dropped while a call on its worker is between the two maps. -/
def keepsOpenRows (w : World F) (e : Event F) : Bool :=
  w.calls.entries.all fun entry => match entry.2.worker with
    | some id => !drops w id e
    | none => true

omit [Float64 F] in
structure RowsInv (w : World F) : Prop where
  persistent : w.tracker.persistent = true
  /-- A settlement without a row is one a cleanup in progress is about to remove. -/
  owned : ∀ id, (w.tracker.settlements.lookup id).isSome → (w.tracker.miners.lookup id).isSome
    ∨ isEphemeralMinerId id ∧ ∃ t, w.calls.lookup t = some .cleanupSettlements
  pending : ∀ t call id, w.calls.lookup t = some call → call.worker = some id →
    (w.tracker.miners.lookup id).isSome

theorem start_persistent (w : World F) (now : Nat) (req : Request F) :
    (w.start now req).1.tracker.persistent = w.tracker.persistent := by
  have hs := w.begins now req
  generalize w.start now req = r at hs ⊢
  cases hs with
  | volatile =>
    simp only [World.setTracker, Tracker.cleanupVolatile]
    split <;> rfl
  | _ => rfl

theorem advance_persistent (w : World F) (now : Nat) (fault : Fault) (call : Call F) :
    (w.advance now fault call).1.tracker.persistent = w.tracker.persistent := by
  cases call with
  | pruneConfirm records cutoff prunedAt =>
    simp only [World.advance, World.pruneConfirm]
    repeat' split
    all_goals rfl
  | flushRename state =>
    simp only [World.advance]
    split <;> rfl
  | _ => rfl

variable {w : World F} {now : Nat} {req : Request F} {call : Call F} {id : MinerId}

/-- A call that begins between the maps has just read the worker's row. -/
theorem start_worker (hcall : (w.start now req).2 = some call) (hid : call.worker = some id) :
    ((w.start now req).1.tracker.miners.lookup id).isSome := by
  have hs := w.begins now req
  generalize w.start now req = r at hs hcall ⊢
  cases hs with
  | settle hnamed hread =>
    cases hcall
    cases hid
    obtain ⟨stats, hstats, -⟩ := Option.map_eq_some_iff.mp hread
    exact Option.isSome_iff_exists.mpr ⟨stats, hstats⟩
  | cleanup =>
    simp only at hcall
    split at hcall <;> cases hcall
    cases hid
  | _ => cases hcall <;> cases hid

/-- One that moves between the maps has just written it. -/
theorem advance_worker {fault : Fault} {prev : Call F}
    (hcall : (w.advance now fault prev).2 = some call) (hid : call.worker = some id) :
    ((w.advance now fault prev).1.tracker.miners.lookup id).isSome := by
  cases prev with
  | recordMiners id' d n =>
    cases hcall
    split at hid
    · cases hid
      simp [World.advance, World.creditShare, Tracker.creditMiner]
    · exact absurd hid (by simp [Call.worker])
  | pruneConfirm records cutoff prunedAt =>
    simp only [World.advance, World.pruneConfirm] at hcall
    repeat' split at hcall
    all_goals
      cases hcall
      try exact absurd hid (by simp [Call.worker])
  | _ =>
    simp only [World.advance] at hcall
    repeat' split at hcall
    all_goals
      cases hcall
      try exact absurd hid (by simp [Call.worker])

omit [Float64 F] in
/-- The requests that change a map in their first section. -/
def Request.changesRows : Request F → Bool
  | .removeMiner _ | .cleanupStaleMiners _ => true
  | _ => false

theorem start_maps (w : World F) (now : Nat) (h : req.changesRows = false) :
    (w.start now req).1.tracker.miners = w.tracker.miners
      ∧ (w.start now req).1.tracker.settlements = w.tracker.settlements := by
  have hs := w.begins now req
  generalize w.start now req = r at hs ⊢
  cases hs with
  | remove | cleanup | volatile => exact Bool.noConfusion h
  | _ => exact ⟨rfl, rfl⟩

omit [Float64 F] in
theorem Tracker.staleCount_pos {t : Tracker F} {cutoff : Nat} {stats : MinerStats F}
    (hrow : t.miners.lookup id = some stats) (hstale : stats.isStale cutoff = true) :
    0 < t.staleCount cutoff := by
  refine List.length_pos_of_mem (a := ⟨id, stats⟩) ?_
  exact List.mem_filter.mpr ⟨Table.mem_entries.mpr hrow, hstale⟩

/-- The first section of a call leaves no settlement without a row, but for those a cleanup
is about to remove. -/
theorem RowsInv.owned_start (h : RowsInv w) (now : Nat) (req : Request F)
    (hs : ((w.start now req).1.tracker.settlements.lookup id).isSome) :
    ((w.start now req).1.tracker.miners.lookup id).isSome
      ∨ isEphemeralMinerId id ∧ ((w.start now req).2 = some .cleanupSettlements
        ∨ ∃ t, w.calls.lookup t = some .cleanupSettlements) := by
  have hold : (w.tracker.settlements.lookup id).isSome →
      (w.tracker.miners.lookup id).isSome ∨ isEphemeralMinerId id ∧ ((w.start now req).2
        = some .cleanupSettlements ∨ ∃ t, w.calls.lookup t = some .cleanupSettlements) := by
    intro hsettled
    rcases h.owned id hsettled with hrow | ⟨he, hcleaning⟩
    · exact .inl hrow
    · exact .inr ⟨he, .inr hcleaning⟩
  by_cases hplain : req.changesRows = false
  · obtain ⟨hminers, hsettlements⟩ := start_maps w now hplain
    rw [hsettlements] at hs
    rw [hminers]
    exact hold hs
  cases req with
  | removeMiner id' =>
    simp only [World.start, World.setTracker, Tracker.removeMiner, Table.lookup_erase_eq] at hs ⊢
    split at hs
    · cases hs
    · rename_i hne
      rw [if_neg hne]
      exact hold hs
  | cleanupStaleMiners cutoff =>
    cases cutoff with
    | none => exact hold hs
    | some cutoff =>
      simp only [World.start, h.persistent, if_true] at hs hold ⊢
      rcases hold hs with hrow | hcleaning
      · obtain ⟨stats, hstats⟩ := Option.isSome_iff_exists.mp hrow
        cases hd : stats.isStale cutoff && isEphemeralMinerId id with
        | false => exact .inl (Tracker.kept_cleanupMiners hrow (by rw [hstats]; exact hd))
        | true =>
          rw [Bool.and_eq_true] at hd
          refine .inr ⟨hd.2, .inl ?_⟩
          rw [if_pos (Tracker.staleCount_pos hstats hd.1)]
      · exact .inr hcleaning
  | _ => exact absurd rfl hplain

/-- Nor does a later section. The last section of a cleanup removes what it was to remove. -/
theorem RowsInv.owned_advance (h : RowsInv w) {t : Nat} (now : Nat) (fault : Fault)
    (hcall : w.calls.lookup t = some call)
    (hs : ((w.advance now fault call).1.tracker.settlements.lookup id).isSome) :
    ((w.advance now fault call).1.tracker.miners.lookup id).isSome
      ∨ isEphemeralMinerId id ∧ ∃ t' ≠ t, w.calls.lookup t' = some .cleanupSettlements := by
  have hold : call ≠ .cleanupSettlements → (w.tracker.settlements.lookup id).isSome →
      (w.tracker.miners.lookup id).isSome
        ∨ isEphemeralMinerId id ∧ ∃ t' ≠ t, w.calls.lookup t' = some .cleanupSettlements := by
    intro hne hsettled
    rcases h.owned id hsettled with hrow | ⟨he, t', ht'⟩
    · exact .inl hrow
    · refine .inr ⟨he, t', ?_, ht'⟩
      rintro rfl
      rw [hcall] at ht'
      exact hne (Option.some.inj ht')
  cases call with
  | recordMiners id' d n =>
    rcases hold (by simp) hs with hrow | hcleaning
    · refine .inl ?_
      simp only [World.advance, World.creditShare, Tracker.creditMiner, Table.lookup_insert_eq]
      split
      · rfl
      · exact hrow
    · exact .inr hcleaning
  | recordSettlement id' =>
    simp only [World.advance, World.setTracker, Tracker.touchSettlement,
      Table.lookup_insert_eq] at hs
    split at hs
    · rename_i hid
      subst hid
      exact .inl (h.pending t _ id hcall rfl)
    · exact hold (by simp) hs
  | settleWrite id' s ref total d counted =>
    simp only [World.advance, World.settleShares, Tracker.writeSettlement,
      Table.lookup_insert_eq] at hs
    split at hs
    · rename_i hid
      subst hid
      exact .inl (h.pending t _ id hcall rfl)
    · exact hold (by simp) hs
  | cleanupSettlements =>
    obtain ⟨settlement, hsettlement⟩ := Option.isSome_iff_exists.mp hs
    obtain ⟨hlook, hnamed⟩ := Table.of_lookup_retain hsettlement
    rcases h.owned id (Option.isSome_iff_exists.mpr ⟨settlement, hlook⟩) with hrow | ⟨he, -⟩
    · exact .inl hrow
    · rw [he] at hnamed
      cases hnamed
  | pruneConfirm records cutoff prunedAt =>
    simp only [World.advance, World.pruneConfirm] at hs ⊢
    split
    · rename_i hempty
      rw [if_pos hempty] at hs
      exact hold (by simp) hs
    · rename_i hempty
      rw [if_neg hempty] at hs
      split
      · rename_i hfault
        rw [if_pos hfault] at hs
        simp only [World.removeConfirmed, World.appendArchive, World.setTracker,
          Tracker.removeRows, Table.lookup_eraseAll] at hs ⊢
        split at hs
        · cases hs
        · rename_i hout
          rw [if_neg hout]
          exact hold (by simp) hs
      · rename_i hfault
        rw [if_neg hfault] at hs
        exact hold (by simp) hs
  | resetCounters =>
    rcases hold (by simp) hs with hrow | hcleaning
    · obtain ⟨stats, hstats⟩ := Option.isSome_iff_exists.mp hrow
      refine .inl ?_
      simp [World.advance, World.setTracker, Tracker.resetWindowCounters, Table.lookup_pass, hstats]
    · exact .inr hcleaning
  | flushRename state =>
    simp only [World.advance] at hs ⊢
    split
    · rename_i hmoved
      rw [if_pos hmoved] at hs
      exact hold (by simp) hs
    · rename_i hmoved
      rw [if_neg hmoved] at hs
      exact hold (by simp) hs
  | _ => exact hold (by simp) hs

theorem rowsInv_step {w' : World F} {e : Event F} (h : RowsInv w) (hok : keepsOpenRows w e = true)
    (hnext : next w e = some w') : RowsInv w' := by
  -- a worker whose settlement some call is about to write keeps its row
  have hkept : ∀ t call id, w.calls.lookup t = some call → call.worker = some id →
      (w'.tracker.miners.lookup id).isSome := by
    intro t call id hcall hid
    have hdrop := List.all_eq_true.mp hok _ (Table.mem_entries.mpr hcall)
    simp only [hid, Bool.not_eq_true'] at hdrop
    exact row_kept (h.pending t call id hcall hid) hnext hdrop
  cases e with
  | begin t req now =>
    obtain ⟨hidle, rfl⟩ := next_begin hnext
    refine ⟨(start_persistent w now req).trans h.persistent, ?_, ?_⟩
    · intro id hs
      rcases h.owned_start now req hs with hrow | ⟨he, hnew | ⟨t', ht'⟩⟩
      · exact .inl hrow
      · exact .inr ⟨he, t, by rw [World.lookup_position, if_pos rfl, hnew]⟩
      · refine .inr ⟨he, t', ?_⟩
        rw [World.lookup_position, World.calls_start, if_neg, ht']
        rintro rfl
        rw [hidle] at ht'
        cases ht'
    · intro t' call id hlook hid
      rw [World.lookup_position, World.calls_start] at hlook
      split at hlook
      · exact start_worker hlook hid
      · exact hkept t' call id hlook hid
  | resume t now fault =>
    obtain ⟨prev, hprev, rfl⟩ := next_resume hnext
    refine ⟨(advance_persistent w now fault prev).trans h.persistent, ?_, ?_⟩
    · intro id hs
      rcases h.owned_advance now fault hprev hs with hrow | ⟨he, t', hne, ht'⟩
      · exact .inl hrow
      · exact .inr ⟨he, t', by rw [World.lookup_position, World.calls_advance, if_neg hne, ht']⟩
    · intro t' call id hlook hid
      rw [World.lookup_position, World.calls_advance] at hlook
      split at hlook
      · exact advance_worker hlook hid
      · exact hkept t' call id hlook hid

end MiningInfra.Payout
