import MiningInfra.Payout.Rows

/-!
# The state file and the dirty flag

Every change of the totals is followed by `mark_dirty`, and `flush` clears the flag
before it takes its snapshot. So when nothing is in progress and the flag is down,
the last flush that finished took its snapshot after the last change, and the file
should hold the current totals.

The argument needs flushes to finish in the order of their snapshots. Nothing in
the code sees to that: two flushes share the temporary path and the target, and the
one with the older snapshot may be the last to rename.

The invariant: whatever the file or a flush in progress holds is current, unless
the flag is up or about to be raised. That the document, which is written row by
row, loses no settlement is `RowsInv`.
-/

namespace MiningInfra.Payout

open Lib

variable {F : Type}

/-- Calls that have changed a map and have yet to raise the flag. -/
def Call.owesDirty : Call F → Bool
  | .recordSettlement _ | .cleanupSettlements | .markDirty => true
  | _ => false

def Call.isFlush : Call F → Bool
  | .flushSnapshot | .flushWrite _ | .flushRename _ | .flushFailed => true
  | _ => false

def World.flushing (w : World F) : Bool := w.calls.entries.any fun entry => entry.2.isFlush

def World.owesDirty (w : World F) : Bool := w.calls.entries.any fun entry => entry.2.owesDirty

variable [Float64 F]

/-- The file reads back to the totals and settlements of the tracker. -/
def Reads (file : Option (FileContent F)) (t : Tracker F) : Prop :=
  ∃ loaded, parseFile file = .ok loaded
    ∧ durable loaded.miners loaded.settlements = durable t.miners t.settlements

/-- The state file holds what the tracker holds. -/
def InSync (w : World F) : Prop := Reads w.stateFile w.tracker

/-- `with_persistence`, where an unusable file was moved aside. -/
def Opened (w : World F) : Prop :=
  ∃ file temp quarantined, w = .withPersistence file temp quarantined
    ∧ (quarantined = false → ∃ loaded, parseFile file = .ok loaded)

/-! ## The discipline -/

/-- A flush that has something to write begins only when no other is in progress, and the
rows its snapshot takes survive being written and read. -/
def FlushesApart (w : World F) : Event F → Prop
  | .begin _ .flush _ => w.tracker.dirty = true → w.flushing = false
  | .resume thread _ _ => ∀ call, w.calls.lookup thread = some call →
      match call with
      | .flushSnapshot => Survives w.tracker.miners w.tracker.settlements
      | _ => True
  | _ => True

def FlushesInOrder (w : World F) (e : Event F) : Prop :=
  keepsOpenRows w e = true ∧ FlushesApart w e

/-! ## What the file and the flushes hold -/

variable {w w₁ : World F} {t now : Nat} {c : Option (Call F)} {call : Call F}
  {file : Option (FileContent F)} {fault : Fault} {state : PersistedPayoutState F}

section

omit [Float64 F]

theorem World.any_calls_eq_false {f : Call F → Bool} : (w.calls.entries.any fun e => f e.2) = false
    ↔ ∀ t call, w.calls.lookup t = some call → f call = false := by
  simp only [List.any_eq_false, Bool.not_eq_true]
  constructor
  · intro h t call hcall
    exact h ⟨t, call⟩ (Table.mem_entries.mpr hcall)
  · rintro h ⟨t, call⟩ hmem
    exact h t call (Table.mem_entries.mp hmem)

theorem World.flushing_eq_false :
    w.flushing = false ↔ ∀ t call, w.calls.lookup t = some call → call.isFlush = false :=
  any_calls_eq_false

theorem World.owesDirty_eq_false :
    w.owesDirty = false ↔ ∀ t call, w.calls.lookup t = some call → call.owesDirty = false :=
  any_calls_eq_false

end

/-- The flag is down and no call is about to raise it. -/
def World.Settled (w : World F) : Prop := w.tracker.dirty = false ∧ w.owesDirty = false

omit [Float64 F] in
/-- A call that owes nothing leaves the flags as it found them. -/
theorem World.Settled.before (hs : (w₁.position t c).Settled) (hcalls : w₁.calls = w.calls)
    (hdirty : w₁.tracker.dirty = w.tracker.dirty)
    (hprev : ∀ call, w.calls.lookup t = some call → call.owesDirty = false) : w.Settled := by
  refine ⟨hdirty ▸ hs.1, owesDirty_eq_false.mpr fun t' call hcall => ?_⟩
  rcases eq_or_ne t' t with rfl | hne
  · exact hprev call hcall
  · refine owesDirty_eq_false.mp hs.2 t' call ?_
    rw [lookup_position, if_neg hne, hcalls]
    exact hcall

omit [Float64 F] in
theorem owes_of_lookup (hcall : w.calls.lookup t = some call) (ho : call.owesDirty = false) :
    ∀ call', w.calls.lookup t = some call' → call'.owesDirty = false := by
  intro call' hcall'
  rw [hcall] at hcall'
  exact Option.some.inj hcall' ▸ ho

/-- The flush invariant. -/
structure SyncInv (w : World F) : Prop where
  rows : RowsInv w
  alone : ∀ t t' call call', w.calls.lookup t = some call → w.calls.lookup t' = some call' →
    call.isFlush = true → call'.isFlush = true → t' = t
  file : w.flushing = false → w.Settled → InSync w
  /-- A snapshot is current, unless the totals have changed since it was taken. -/
  write : ∀ t state, w.calls.lookup t = some (.flushWrite state) → w.Settled →
    Reads (some (.document state)) w.tracker
  rename : ∀ t state, w.calls.lookup t = some (.flushRename state) →
    w.tempFile = some (.document state) ∧ (w.Settled → Reads (some (.document state)) w.tracker)

omit [Float64 F] in
/-- Behind a step that is no flush every flush is on another thread, where nothing changed. -/
theorem flush_of_position (hcalls : w₁.calls = w.calls)
    (hc : ∀ call, c = some call → call.isFlush = false) :
    ∀ t' call, (w₁.position t c).calls.lookup t' = some call → call.isFlush = true →
      w.calls.lookup t' = some call := by
  intro t' call hcall hf
  rw [World.lookup_position, hcalls] at hcall
  split at hcall
  · exact Bool.noConfusion ((hc call hcall).symm.trans hf)
  · exact hcall

/-- **A step that raises the flag, or leaves its call about to,** has nothing to show. -/
theorem SyncInv.raise (h : SyncInv w) (hrows : RowsInv (w₁.position t c))
    (hcalls : w₁.calls = w.calls) (htemp : w₁.tempFile = w.tempFile)
    (hc : ∀ call, c = some call → call.isFlush = false)
    (hraise : w₁.tracker.dirty = true ∨ ∃ call, c = some call ∧ call.owesDirty = true) :
    SyncInv (w₁.position t c) := by
  have hlook : ∀ t', (w₁.position t c).calls.lookup t' = if t' = t then c else w.calls.lookup t' := by
    intro t'
    rw [World.lookup_position, hcalls]
  have hunsettled : ¬ (w₁.position t c).Settled := by
    rintro ⟨hdirty, howes⟩
    rcases hraise with hd | ⟨call, hcall, ho⟩
    · exact Bool.noConfusion (hd.symm.trans hdirty)
    · have := World.owesDirty_eq_false.mp howes t call (by rw [hlook, if_pos rfl, hcall])
      exact Bool.noConfusion (ho.symm.trans this)
  have hflush := @flush_of_position _ _ _ t _ hcalls hc
  refine ⟨hrows, ?_, fun _ hs => absurd hs hunsettled, fun _ _ _ hs => absurd hs hunsettled, ?_⟩
  · intro t₁ t₂ c₁ c₂ h₁ h₂ hf₁ hf₂
    exact h.alone t₁ t₂ c₁ c₂ (hflush t₁ c₁ h₁ hf₁) (hflush t₂ c₂ h₂ hf₂) hf₁ hf₂
  · intro t' state hcall
    refine ⟨?_, fun hs => absurd hs hunsettled⟩
    exact htemp.trans (h.rename t' state (hflush t' _ hcall rfl)).1

theorem Reads.congr {t t' : Tracker F} (h : Reads file t)
    (hsame : durable t'.miners t'.settlements = durable t.miners t.settlements) :
    Reads file t' := by
  obtain ⟨loaded, hparse, hloaded⟩ := h
  exact ⟨loaded, hparse, hloaded.trans hsame.symm⟩

/-- **A step that changes neither the totals nor the flag nor a file** keeps the invariant, if
it is no part of a flush and owes nothing. -/
theorem SyncInv.keep (h : SyncInv w) (hrows : RowsInv (w₁.position t c))
    (hcalls : w₁.calls = w.calls) (hfile : w₁.stateFile = w.stateFile)
    (htemp : w₁.tempFile = w.tempFile) (hdirty : w₁.tracker.dirty = w.tracker.dirty)
    (hsame : durable w₁.tracker.miners w₁.tracker.settlements
      = durable w.tracker.miners w.tracker.settlements)
    (hc : ∀ call, c = some call → call.isFlush = false)
    (hprev : ∀ call, w.calls.lookup t = some call → call.isFlush = false ∧ call.owesDirty = false) :
    SyncInv (w₁.position t c) := by
  have hlook : ∀ t', (w₁.position t c).calls.lookup t' = if t' = t then c else w.calls.lookup t' := by
    intro t'
    rw [World.lookup_position, hcalls]
  have hflush := @flush_of_position _ _ _ t _ hcalls hc
  have hsettled : (w₁.position t c).Settled → w.Settled :=
    fun hs => hs.before hcalls hdirty fun call hcall => (hprev call hcall).2
  refine ⟨hrows, ?_, fun hf hs => ?_, fun t' state hcall hs => ?_, fun t' state hcall => ?_⟩
  · intro t₁ t₂ c₁ c₂ h₁ h₂ hf₁ hf₂
    exact h.alone t₁ t₂ c₁ c₂ (hflush t₁ c₁ h₁ hf₁) (hflush t₂ c₂ h₂ hf₂) hf₁ hf₂
  · have hquiet : w.flushing = false := by
      refine World.flushing_eq_false.mpr fun t' call hcall => ?_
      rcases eq_or_ne t' t with rfl | hne
      · exact (hprev call hcall).1
      · exact World.flushing_eq_false.mp hf t' call (by rw [hlook, if_neg hne, hcall])
    have hin : Reads w.stateFile w.tracker := h.file hquiet (hsettled hs)
    exact (hfile ▸ hin).congr hsame
  · exact (h.write t' state (hflush t' _ hcall rfl) (hsettled hs)).congr hsame
  · obtain ⟨htmp, hreads⟩ := h.rename t' state (hflush t' _ hcall rfl)
    exact ⟨htemp.trans htmp, fun hs => (hreads (hsettled hs)).congr hsame⟩

/-! ## The steps of a flush -/

/-- While a flush moves on, no other one is in progress. -/
theorem syncInv_flushStep (hrows : RowsInv (w₁.position t (some call)))
    (hcalls : w₁.calls = w.calls)
    (hothers : ∀ t' call', t' ≠ t → w.calls.lookup t' = some call' → call'.isFlush = false)
    (hcall : call.isFlush = true)
    (hwrite : ∀ state, call = .flushWrite state → (w₁.position t (some call)).Settled →
      Reads (some (.document state)) w₁.tracker)
    (hrename : ∀ state, call = .flushRename state → w₁.tempFile = some (.document state)
      ∧ ((w₁.position t (some call)).Settled → Reads (some (.document state)) w₁.tracker)) :
    SyncInv (w₁.position t (some call)) := by
  have hlook : ∀ t', (w₁.position t (some call)).calls.lookup t'
      = if t' = t then some call else w.calls.lookup t' := by
    intro t'
    rw [World.lookup_position, hcalls]
  have honly : ∀ t' call', (w₁.position t (some call)).calls.lookup t' = some call' →
      call'.isFlush = true → t' = t ∧ call' = call := by
    intro t' call' hcall' hf
    rw [hlook] at hcall'
    split at hcall'
    · rename_i heq
      exact ⟨heq, (Option.some.inj hcall').symm⟩
    · rename_i hne
      exact Bool.noConfusion ((hothers t' call' hne hcall').symm.trans hf)
  refine ⟨hrows, ?_, fun hf => ?_, fun t' state hcall' hs => ?_, fun t' state hcall' => ?_⟩
  · intro t₁ t₂ c₁ c₂ h₁ h₂ hf₁ hf₂
    exact (honly t₂ c₂ h₂ hf₂).1.trans (honly t₁ c₁ h₁ hf₁).1.symm
  · have := World.flushing_eq_false.mp hf t call (by rw [hlook, if_pos rfl])
    exact Bool.noConfusion (hcall.symm.trans this)
  · exact hwrite state (honly t' _ hcall' rfl).2.symm hs
  · exact hrename state (honly t' _ hcall' rfl).2.symm

theorem SyncInv.others (h : SyncInv w) (hcall : w.calls.lookup t = some call)
    (hf : call.isFlush = true) :
    ∀ t' call', t' ≠ t → w.calls.lookup t' = some call' → call'.isFlush = false := by
  intro t' call' hne hcall'
  by_contra hflush
  rw [Bool.not_eq_false] at hflush
  exact hne (h.alone t t' call call' hcall hcall' hf hflush)

/-- **The snapshot is current.** With the flag down and nobody about to raise it, no cleanup
is half done, so every settlement has a row and the document loses none. -/
theorem SyncInv.snapshot_reads (h : SyncInv w) (howes : w.owesDirty = false)
    (hsurvives : Survives w.tracker.miners w.tracker.settlements) :
    Reads (some (.document (serializeState w.tracker.miners w.tracker.settlements))) w.tracker := by
  refine parse_serializeState hsurvives fun id hs => ?_
  rcases h.rows.owned id hs with hrow | ⟨-, t, ht⟩
  · exact hrow
  · exact Bool.noConfusion (World.owesDirty_eq_false.mp howes t _ ht)

/-- A rename that succeeds ends the flush with its snapshot in place. -/
theorem SyncInv.renamed (h : SyncInv w) (hcall : w.calls.lookup t = some (.flushRename state))
    (hrows : RowsInv (World.position { w with stateFile := w.tempFile, tempFile := none } t none)) :
    SyncInv (World.position { w with stateFile := w.tempFile, tempFile := none } t none) := by
  have hothers := h.others hcall rfl
  have hnone : ∀ t' call, (World.position { w with stateFile := w.tempFile, tempFile := none }
      t none).calls.lookup t' = some call → call.isFlush = false := by
    intro t' call hlook
    rw [World.lookup_position] at hlook
    split at hlook
    · cases hlook
    · rename_i hne
      exact hothers t' call hne hlook
  obtain ⟨htemp, hreads⟩ := h.rename t state hcall
  refine ⟨hrows, ?_, fun _ hs => ?_, fun t' s hlook => ?_, fun t' s hlook => ?_⟩
  · intro t₁ t₂ c₁ c₂ h₁ h₂ hf₁ hf₂
    exact Bool.noConfusion ((hnone t₁ c₁ h₁).symm.trans hf₁)
  · have hsettled : w.Settled := hs.before rfl rfl (owes_of_lookup hcall rfl)
    show Reads w.tempFile w.tracker
    rw [htemp]
    exact hreads hsettled
  · exact Bool.noConfusion (hnone t' _ hlook)
  · exact Bool.noConfusion (hnone t' _ hlook)

/-! ## Every step -/

/-- A cleanup that finds no stale row changes none. -/
theorem Tracker.durable_cleanupMiners {t : Tracker F} {cutoff : Nat}
    (h : ¬ 0 < t.staleCount cutoff) :
    durable (t.cleanupMiners cutoff).miners (t.cleanupMiners cutoff).settlements
      = durable t.miners t.settlements := by
  funext id
  simp only [durable, cleanupMiners, Table.lookup_pass]
  cases hrow : t.miners.lookup id with
  | none => rfl
  | some stats =>
    have hfresh : stats.isStale cutoff = false := by
      by_contra hstale
      rw [Bool.not_eq_false] at hstale
      exact h (staleCount_pos hrow hstale)
    simp [cleanupRow, hfresh]

theorem Tracker.durable_resetWindowCounters (t : Tracker F) :
    durable t.resetWindowCounters.miners t.resetWindowCounters.settlements
      = durable t.miners t.settlements := by
  funext id
  simp only [durable, resetWindowCounters, Table.lookup_pass]
  cases t.miners.lookup id <;> rfl

omit [Float64 F] in
theorem writeTemp_of_ok {temp : Option (FileContent F)}
    (h : (writeTemp temp state fault).2 = true) :
    (writeTemp temp state fault).1 = some (.document state) := by
  unfold writeTemp at h ⊢
  split at h <;> first | rfl | exact Bool.noConfusion h

theorem SyncInv.start (h : SyncInv w) {req : Request F} (hidle : w.calls.lookup t = none)
    (hapart : FlushesApart w (.begin t req now))
    (hrows : RowsInv ((w.start now req).1.position t (w.start now req).2)) :
    SyncInv ((w.start now req).1.position t (w.start now req).2) := by
  have hprev : ∀ call, w.calls.lookup t = some call →
      call.isFlush = false ∧ call.owesDirty = false := by
    intro call hcall
    rw [hidle] at hcall
    cases hcall
  have hs := w.begins now req
  generalize w.start now req = r at hs hrows ⊢
  cases hs with
  | refused => exact h.keep hrows rfl rfl rfl rfl rfl (by simp) hprev
  | share | settle | prune | reset =>
    exact h.keep hrows rfl rfl rfl rfl rfl (by rintro _ ⟨⟩; rfl) hprev
  | remove => exact h.raise hrows rfl rfl (by rintro _ ⟨⟩; rfl) (.inr ⟨_, rfl, rfl⟩)
  | @cleanup cutoff =>
    by_cases hstale : 0 < w.tracker.staleCount cutoff
    · rw [if_pos hstale] at hrows ⊢
      exact h.raise hrows rfl rfl (by rintro _ ⟨⟩; rfl) (.inr ⟨_, rfl, rfl⟩)
    · rw [if_neg hstale] at hrows ⊢
      exact h.keep hrows rfl rfl rfl rfl (Tracker.durable_cleanupMiners hstale) (by simp) hprev
  | volatile hp => exact Bool.noConfusion (hp.symm.trans h.rows.persistent)
  | flush hdirty =>
    have hquiet := World.flushing_eq_false.mp (hapart hdirty)
    exact syncInv_flushStep hrows rfl (fun t' call' _ hlook => hquiet t' call' hlook) rfl
      (by simp) (by simp)

theorem SyncInv.advance (h : SyncInv w) (hcall : w.calls.lookup t = some call)
    (hapart : FlushesApart w (.resume t now fault))
    (hrows : RowsInv ((w.advance now fault call).1.position t (w.advance now fault call).2)) :
    SyncInv ((w.advance now fault call).1.position t (w.advance now fault call).2) := by
  have hplain : call.isFlush = false → call.owesDirty = false →
      ∀ call', w.calls.lookup t = some call' → call'.isFlush = false ∧ call'.owesDirty = false := by
    intro hf ho call' hcall'
    rw [hcall] at hcall'
    injection hcall' with hcall'
    exact hcall' ▸ ⟨hf, ho⟩
  cases call with
  | recordMiners id d n =>
    simp only [World.advance, h.rows.persistent, if_true] at hrows ⊢
    exact h.raise hrows rfl rfl (by rintro _ ⟨⟩; rfl) (.inr ⟨_, rfl, rfl⟩)
  | recordSettlement id | settleWrite id s ref total d counted =>
    exact h.raise hrows rfl rfl (by rintro _ ⟨⟩; rfl) (.inr ⟨_, rfl, rfl⟩)
  | cleanupSettlements =>
    refine h.raise hrows rfl rfl (by simp [World.advance]) (.inl ?_)
    simp [World.advance, World.setTracker, Tracker.markDirty, Tracker.cleanupSettlements,
      h.rows.persistent]
  | pruneConfirm records cutoff prunedAt =>
    simp only [World.advance, World.pruneConfirm] at hrows ⊢
    split
    · rename_i hempty
      rw [if_pos hempty] at hrows
      exact h.keep hrows rfl rfl rfl rfl rfl (by simp) (hplain rfl rfl)
    · rename_i hempty
      rw [if_neg hempty] at hrows
      split
      · rename_i hfault
        rw [if_pos hfault] at hrows
        exact h.raise hrows rfl rfl (by rintro _ ⟨⟩; rfl) (.inr ⟨_, rfl, rfl⟩)
      · rename_i hfault
        rw [if_neg hfault] at hrows
        exact h.keep hrows rfl rfl rfl rfl rfl (by simp) (hplain rfl rfl)
  | resetCounters =>
    exact h.keep hrows rfl rfl rfl rfl (Tracker.durable_resetWindowCounters _)
      (by simp [World.advance]) (hplain rfl rfl)
  | markDirty =>
    refine h.raise hrows rfl rfl (by simp [World.advance]) (.inl ?_)
    simp [World.advance, World.setTracker, Tracker.markDirty, h.rows.persistent]
  | flushSnapshot =>
    have hsurvives := hapart _ hcall
    refine syncInv_flushStep hrows rfl (h.others hcall rfl) ?_ ?_ ?_
    · split <;> rfl
    · intro state hstate hs
      split at hstate
      · cases hstate
        have hsettled : w.Settled := hs.before rfl rfl (owes_of_lookup hcall rfl)
        exact h.snapshot_reads hsettled.2 hsurvives
      · cases hstate
    · intro state hstate
      split at hstate <;> cases hstate
  | flushWrite state =>
    refine syncInv_flushStep hrows rfl (h.others hcall rfl) ?_ ?_ ?_
    · split <;> rfl
    · intro state' hstate
      split at hstate <;> cases hstate
    · intro state' hstate
      split at hstate
      · rename_i hwritten
        cases hstate
        refine ⟨?_, fun hs => ?_⟩
        · exact writeTemp_of_ok hwritten
        · exact h.write t state hcall (hs.before rfl rfl (owes_of_lookup hcall rfl))
      · cases hstate
  | flushRename state =>
    simp only [World.advance] at hrows ⊢
    split
    · rename_i hmoved
      rw [if_pos hmoved] at hrows
      exact h.renamed hcall hrows
    · rename_i hmoved
      rw [if_neg hmoved] at hrows
      exact syncInv_flushStep hrows rfl (h.others hcall rfl) rfl (by simp) (by simp)
  | flushFailed => exact h.raise hrows rfl rfl (by simp [World.advance]) (.inl rfl)

theorem syncInv_step {w' : World F} {e : Event F} (h : SyncInv w) (hok : FlushesInOrder w e)
    (hnext : next w e = some w') : SyncInv w' := by
  have hrows := rowsInv_step h.rows hok.1 hnext
  cases e with
  | begin t req now =>
    obtain ⟨hidle, rfl⟩ := next_begin hnext
    exact h.start hidle hok.2 hrows
  | resume t now fault =>
    obtain ⟨call, hcall, rfl⟩ := next_resume hnext
    exact h.advance hcall hok.2 hrows

/-! ## Every run -/

theorem parseFile_owned {loaded : LoadedPayoutState F} (h : parseFile file = .ok loaded)
    {id : MinerId} (hs : (loaded.settlements.lookup id).isSome) :
    (loaded.miners.lookup id).isSome := by
  have hempty : ∀ l : LoadedPayoutState F, Except.ok .empty = (.ok l : Except (PayoutStateError F) _) →
      (l.settlements.lookup id).isSome → (l.miners.lookup id).isSome := by
    rintro _ ⟨⟩ hs
    exact absurd hs (by simp [LoadedPayoutState.empty])
  match file with
  | none | some .blank => exact hempty loaded h hs
  | some .unreadable => exact absurd h (by simp [parseFile])
  | some (.document state) =>
    simp only [parseFile, parsePersistedState] at h
    repeat' split at h
    all_goals cases h
    simp only [Table.lookup_pass] at hs ⊢
    obtain ⟨settlement, hlook⟩ := Option.isSome_iff_exists.mp hs
    obtain ⟨row, hrow, -⟩ := Option.bind_eq_some_iff.mp hlook
    simp [hrow]

theorem syncInv_opened (hw : Opened w) : SyncInv w := by
  obtain ⟨file, temp, quarantined, rfl, hmoved⟩ := hw
  -- what was loaded is what the file that is left reads to
  have hload : parseFile (loadPersistedState file quarantined).2
      = .ok (loadPersistedState file quarantined).1 := by
    unfold loadPersistedState
    split
    · rename_i hparse; exact hparse
    · rename_i hparse
      cases quarantined with
      | true => rfl
      | false =>
        obtain ⟨loaded, hok⟩ := hmoved rfl
        rw [hparse] at hok
        cases hok
  refine ⟨⟨rfl, fun id hs => .inl (parseFile_owned hload hs), ?_⟩, ?_, ?_, ?_, ?_⟩
  · intro t call id hcall
    exact absurd hcall (by simp [World.withPersistence, World.idle])
  · intro t t' call call' hcall
    exact absurd hcall (by simp [World.withPersistence, World.idle])
  · intro _ _
    exact ⟨_, hload, rfl⟩
  · intro t state hcall
    exact absurd hcall (by simp [World.withPersistence, World.idle])
  · intro t state hcall
    exact absurd hcall (by simp [World.withPersistence, World.idle])

/-- **The file is in sync** whenever no flush is in progress, the flag is down and no call is
between its map write and its `mark_dirty`, in every run whose flushes do not overlap. -/
theorem file_in_sync {w : World F} (h : Reach next FlushesInOrder Opened w)
    (hflush : w.flushing = false) (hdirty : w.tracker.dirty = false)
    (howes : w.owesDirty = false) : InSync w :=
  (h.invariant (fun _ => syncInv_opened) fun _ _ _ hinv hok hnext =>
    syncInv_step hinv hok hnext).file hflush ⟨hdirty, howes⟩

/-- The last condition is needed: the map write of a share on its own puts the file behind. -/
theorem not_inSync_creditShare {w : World F} (h : InSync w) (id : MinerId) (d : F) (now : Nat) :
    ¬ InSync (w.creditShare id d now) := by
  rintro ⟨loaded', hparse', hsame'⟩
  obtain ⟨loaded, hparse, hsame⟩ := h
  obtain rfl := Except.ok.inj (hparse'.symm.trans hparse)
  have htotals := congrArg Prod.fst (congrFun (hsame'.symm.trans hsame) id)
  simp only [durable, World.creditShare, Tracker.creditMiner, AList.lookup_insert,
    Option.map_some] at htotals
  cases hrow : w.tracker.miners.lookup id with
  | none => rw [hrow] at htotals; exact absurd htotals (by simp)
  | some stats =>
      simp only [hrow, Option.map_some, Option.getD_some, MinerStats.credit, Option.some.injEq,
        Prod.mk.injEq] at htotals
      exact wrapU64_succ_ne _ htotals.1

/-- On whole-number difficulties every row survives. -/
theorem survives_nat (miners : Table MinerId (MinerStats Nat))
    (settlements : Table MinerId (SettlementState Nat)) : Survives miners settlements := by
  intro id stats _
  refine ⟨rfl, ?_⟩
  simp [rowError, Float64.isFinite, Float64.lt, Float64.zero]

/-- The discipline of `FlushesInOrder` on such difficulties, as a test. -/
def flushesInOrderTest (w : World Nat) (e : Event Nat) : Bool :=
  keepsOpenRows w e && match e with
    | .begin _ .flush _ => !w.tracker.dirty || !w.flushing
    | _ => true

theorem flushesInOrder_of_test {w : World Nat} {e : Event Nat}
    (h : flushesInOrderTest w e = true) : FlushesInOrder w e := by
  obtain ⟨hrows, htest⟩ := Bool.and_eq_true_iff.mp h
  refine ⟨hrows, ?_⟩
  cases e with
  | begin t req now =>
    cases req with
    | flush =>
      intro hdirty
      simpa [hdirty] using htest
    | _ => trivial
  | resume t now fault =>
    intro call _
    cases call with
    | flushSnapshot => exact survives_nat _ _
    | _ => trivial

/-- A share, a flush whose sync fails, and a second flush. -/
theorem file_in_sync_after_retry :
    ∃ w : World Nat, Reach next FlushesInOrder Opened w ∧ InSync w
      ∧ w.tracker.totalShares "alice" = some 1 := by
  have hrun : ∃ w : World Nat, Reach next FlushesInOrder Opened w
      ∧ decide (w.flushing = false ∧ w.tracker.dirty = false ∧ w.owesDirty = false
        ∧ w.tracker.totalShares "alice" = some 1) = true :=
    Reach.exists_of_exec flushesInOrderTest (fun _ _ h => flushesInOrder_of_test h)
      (.withPersistence none none false) ⟨_, _, _, rfl, fun _ => ⟨_, rfl⟩⟩
      (shareEvents 1 "alice" 5 10
        ++ [.begin 2 .flush 20, .resume 2 20 .none, .resume 2 20 (.late 1 false), .resume 2 20 .none,
          .begin 2 .flush 80, .resume 2 80 .none, .resume 2 80 .none, .resume 2 80 .none])
      (by decide +kernel)
  obtain ⟨w, hreach, hw⟩ := hrun
  obtain ⟨hflush, hdirty, howes, htotal⟩ := of_decide_eq_true hw
  exact ⟨w, hreach, file_in_sync hreach hflush hdirty howes, htotal⟩

/-- **The older snapshot last.** One flush takes its snapshot and is overtaken by a share and a
whole second flush; its rename then puts the old totals back, with the flag down. -/
theorem overlapping_flushes_lose_a_share :
    ∃ w : World Nat, Reach next Any Opened w ∧ w.calls.entries.isEmpty = true
      ∧ w.flushing = false ∧ w.tracker.dirty = false ∧ ¬ InSync w := by
  have hrun : ∃ w : World Nat, Reach next Any Opened w
      ∧ decide (w.calls.entries.isEmpty = true ∧ w.flushing = false ∧ w.tracker.dirty = false
        ∧ w.tracker.totalShares "alice" = some 2
        ∧ ((parseFile w.stateFile).toOption.map fun loaded =>
          (loaded.miners.lookup "alice").map (·.totalShares)) = some (some 1)) = true :=
    Reach.any_of_exec (.withPersistence none none false) ⟨_, _, _, rfl, fun _ => ⟨_, rfl⟩⟩
      (shareEvents 1 "alice" 5 10 ++ [.begin 2 .flush 20, .resume 2 20 .none]
        ++ shareEvents 1 "alice" 5 21
        ++ [.begin 3 .flush 22, .resume 3 22 .none, .resume 3 22 .none, .resume 3 22 .none,
          .resume 2 23 .none, .resume 2 23 .none])
      (by decide +kernel)
  obtain ⟨w, hreach, hw⟩ := hrun
  obtain ⟨hcalls, hflush, hdirty, htotal, hfile⟩ := of_decide_eq_true hw
  refine ⟨w, hreach, hcalls, hflush, hdirty, ?_⟩
  rintro ⟨loaded, hparse, hsame⟩
  rw [hparse] at hfile
  have hold : (loaded.miners.lookup "alice").map (·.totalShares) = some 1 := Option.some.inj hfile
  have htotals := congrArg (·.1.map Prod.fst) (congrFun hsame "alice")
  simp only [durable, Option.map_map, Function.comp_def] at htotals
  rw [hold] at htotals
  rw [Tracker.totalShares, ← htotals] at htotal
  cases htotal

end MiningInfra.Payout
