import MiningInfra.Payout.World

/-!
# The settlement watermark

`mark_miner_settled` reads a worker's total under one lock and writes the clamped
watermark under another. The two maps are removed from together, but nothing ties
the write to the row the total was read from: a row that is removed in between
comes back with the next share, and inherits a watermark that counts shares of its
predecessor.

The invariant names shares. `World.credits` lists the shares behind a row's total
and `World.covered` the shares some settle call counted. A watermark of `n` must
mean that the first `n` shares of the row are covered.
-/

namespace MiningInfra.Payout

open Lib

variable {F : Type}

/-- What the watermark is for. -/
structure WatermarkSound (w : World F) : Prop where
  /-- No row reports more settled shares than it has. -/
  le_total : ∀ id stats, w.tracker.miners.lookup id = some stats →
    w.tracker.settledShares id ≤ stats.totalShares
  /-- The shares a row reports as settled were counted by a settle call. -/
  settled_covered : ∀ id, ∀ x ∈ (w.credits id).take (w.tracker.settledShares id), x ∈ w.covered
  /-- So was every share of a row that a prune removed. -/
  pruned_covered : ∀ x ∈ w.pruned, x ∈ w.covered

/-! ## The discipline -/

variable [Float64 F]

/-- The step drops no row whose shares a settle call has read and is still to count. -/
def keepsPendingRows (w : World F) (e : Event F) : Bool :=
  w.calls.entries.all fun entry => match entry.2 with
    | .settleWrite id settledTotalShares _ currentTotal _ _ =>
      min settledTotalShares currentTotal = 0 || !drops w id e
    | _ => true

omit [Float64 F] in
/-- The step credits a share to a row whose total has reached `u64::MAX`. -/
def wrapsTotal (w : World F) : Event F → Bool
  | .resume thread _ _ => match w.calls.lookup thread with
    | some (.recordMiners id _ _) => UInt64.size ≤ (w.tracker.totalShares id).getD 0 + 1
    | _ => false
  | _ => false

def keepsWatermarks (w : World F) (e : Event F) : Bool :=
  keepsPendingRows w e && !wrapsTotal w e

/-! ## The invariant -/

omit [Float64 F] in
/-- The watermark invariant. -/
structure WatermarkInv (w : World F) : Prop where
  /-- A row's total is the number of its shares; a worker without a row has none. -/
  count : ∀ id, (w.credits id).length = (w.tracker.totalShares id).getD 0
  le_count : ∀ id, w.tracker.settledShares id ≤ (w.credits id).length
  settled : ∀ id, ∀ x ∈ (w.credits id).take (w.tracker.settledShares id), x ∈ w.covered
  /-- Unnamed workers are never settled. -/
  ephemeral : ∀ id, isEphemeralMinerId id → w.tracker.settledShares id = 0
  /-- What a settle call is about to count are the first shares the row still has. -/
  pending : ∀ t id s ref total d counted,
    w.calls.lookup t = some (.settleWrite id s ref total d counted) →
    isEphemeralMinerId id = false ∧ min s total ≤ (w.credits id).length
      ∧ counted = (w.credits id).take (min s total)
  pruned : ∀ x ∈ w.pruned, x ∈ w.covered

/-- The rows are there whose shares a settle call is about to count. -/
def World.HasCounted (w : World F) (tr : Tracker F) : Prop :=
  ∀ t id s ref total d counted, w.calls.lookup t = some (.settleWrite id s ref total d counted) →
    0 < min s total → (tr.miners.lookup id).isSome

variable {w w' : World F} {tr : Tracker F} {id : MinerId} {d : F} {now t s total : Nat}
  {ref : String} {counted : List Nat} {e : Event F} {req : Request F}

section

variable (h : WatermarkInv w)

include h

section

omit [Float64 F]

theorem WatermarkInv.sound : WatermarkSound w where
  le_total id stats hstats := by
    have hle := h.le_count id
    have hcount := h.count id
    simp only [Tracker.totalShares, hstats, Option.map_some, Option.getD_some] at hcount
    omega
  settled_covered := h.settled
  pruned_covered := h.pruned

/-- Moving a thread keeps the invariant, if a settle call it moves to counts the first shares
of its row. -/
theorem WatermarkInv.position (t : Nat) {call : Option (Call F)}
    (hcall : ∀ id s ref total d counted, call = some (.settleWrite id s ref total d counted) →
      isEphemeralMinerId id = false ∧ min s total ≤ (w.credits id).length
        ∧ counted = (w.credits id).take (min s total)) : WatermarkInv (w.position t call) := by
  refine { h with pending := ?_ }
  intro t' id s ref total d counted hlook
  rw [World.lookup_position] at hlook
  split at hlook
  · exact hcall id s ref total d counted hlook
  · exact h.pending t' id s ref total d counted hlook

/-- **Taking rows away keeps the invariant**, as long as no settle call is about to count
shares of a row that goes. -/
theorem WatermarkInv.shrink (hshrink : w.tracker.Shrinks tr) (hkept : w.HasCounted tr) :
    WatermarkInv (w.setTracker tr) := by
  -- a row that stays keeps its shares; one that goes leaves no share and no watermark behind
  have hrow : ∀ id, tr.settledShares id ≤ w.tracker.settledShares id ∧
      ((w.setTracker tr).credits id = w.credits id ∧ tr.totalShares id = w.tracker.totalShares id
        ∨ (w.setTracker tr).credits id = [] ∧ tr.totalShares id = none
          ∧ tr.settledShares id = 0) := by
    intro id
    obtain ⟨hle, htotal | ⟨hnone, hgone⟩⟩ := hshrink id
    · refine ⟨hle, .inl ⟨?_, htotal⟩⟩
      simp only [World.setTracker]
      split
      · rfl
      · rename_i habsent
        have hzero : tr.totalShares id = none := by
          simpa [Tracker.totalShares] using habsent
        have hcount := h.count id
        rw [← htotal, hzero] at hcount
        exact (List.eq_nil_of_length_eq_zero hcount).symm
    · refine ⟨hle, .inr ⟨?_, hnone, ?_⟩⟩
      · simp [World.setTracker, Tracker.totalShares_eq_none.mp hnone]
      · rcases hgone with hzero | heph
        · exact hzero
        · have := h.ephemeral id heph
          omega
  refine ⟨fun id => ?_, fun id => ?_, fun id x hx => ?_, fun id he => ?_, ?_, h.pruned⟩
  · obtain ⟨-, ⟨hc, ht⟩ | ⟨hc, ht, -⟩⟩ := hrow id
    · rw [hc, h.count id]; exact congrArg (·.getD 0) ht.symm
    · rw [hc]; simp [World.setTracker, ht]
  · obtain ⟨hle, ⟨hc, -⟩ | ⟨hc, -, hz⟩⟩ := hrow id
    · rw [hc]; exact Nat.le_trans hle (h.le_count id)
    · rw [hc]; exact Nat.le_of_eq hz
  · obtain ⟨hle, ⟨hc, -⟩ | ⟨hc, -, -⟩⟩ := hrow id
    · rw [hc] at hx
      exact h.settled id x (List.take_subset_take_left _ hle hx)
    · rw [hc] at hx; simp at hx
  · have hle := (hrow id).1
    have hz := h.ephemeral id he
    show tr.settledShares id = 0
    omega
  · intro t id s ref total d counted hlook
    obtain ⟨he, hlen, heq⟩ := h.pending t id s ref total d counted hlook
    refine ⟨he, ?_⟩
    rcases Nat.eq_zero_or_pos (min s total) with hz | hpos
    · rw [hz] at heq ⊢
      exact ⟨Nat.zero_le _, by simpa using heq⟩
    · have hsome := hkept t id s ref total d counted hlook hpos
      have hc : (w.setTracker tr).credits id = w.credits id := by
        simp [World.setTracker, hsome]
      rw [hc]
      exact ⟨hlen, heq⟩

/-- A settle call that has shares to count is for a miner with a row. -/
theorem WatermarkInv.row_of_pending
    (hcall : w.calls.lookup t = some (.settleWrite id s ref total d counted))
    (hpos : 0 < min s total) : (w.tracker.miners.lookup id).isSome := by
  have hlen := (h.pending t id s ref total d counted hcall).2.1
  have hcount := h.count id
  cases hrow : w.tracker.miners.lookup id with
  | none =>
    simp only [Tracker.totalShares, hrow, Option.map_none, Option.getD_none] at hcount
    omega
  | some stats => rfl

/-- A new tracker with the same rows and watermarks keeps the invariant. -/
theorem WatermarkInv.same (hm : tr.miners = w.tracker.miners)
    (hs : ∀ id, tr.settledShares id ≤ w.tracker.settledShares id) :
    WatermarkInv (w.setTracker tr) := by
  refine h.shrink (.of_miners_eq hm hs) ?_
  intro t id s ref total d counted hlook hpos
  rw [hm]
  exact h.row_of_pending hlook hpos

end

/-- **One more share.** The row's list grows at its end, so nothing that counts from its
front changes. -/
theorem WatermarkInv.credit (hfit : (w.tracker.totalShares id).getD 0 + 1 < UInt64.size) :
    WatermarkInv (w.creditShare id d now) := by
  have hcredits : ∀ k, ∃ new, (w.creditShare id d now).credits k = w.credits k ++ new := by
    intro k
    simp only [World.creditShare]
    split
    · rename_i hk; subst hk; exact ⟨_, rfl⟩
    · exact ⟨[], by simp⟩
  refine ⟨fun k => ?_, fun k => ?_, fun k x hx => ?_, h.ephemeral, ?_, h.pruned⟩
  · have hcount := h.count k
    simp only [World.creditShare, Tracker.totalShares_creditMiner]
    split
    · rename_i hk
      subst hk
      rw [List.length_append, hcount, Option.getD_some, wrapU64, Nat.mod_eq_of_lt hfit]
      rfl
    · exact hcount
  · obtain ⟨new, hnew⟩ := hcredits k
    have hle := h.le_count k
    rw [hnew, List.length_append]
    exact Nat.le_trans hle (Nat.le_add_right _ _)
  · obtain ⟨new, hnew⟩ := hcredits k
    have htake : (w.credits k ++ new).take (w.tracker.settledShares k)
        = (w.credits k).take (w.tracker.settledShares k) :=
      List.take_append_of_le_length (h.le_count k)
    rw [hnew] at hx
    exact h.settled k x (htake ▸ hx)
  · intro t k s ref total d' counted hlook
    obtain ⟨he, hlen, heq⟩ := h.pending t k s ref total d' counted hlook
    obtain ⟨new, hnew⟩ := hcredits k
    rw [hnew, List.length_append, List.take_append_of_le_length hlen]
    exact ⟨he, by omega, heq⟩

/-- **A settle write** adds to `covered` exactly the shares its clamped watermark counts. -/
theorem WatermarkInv.settle
    (hcall : w.calls.lookup t = some (.settleWrite id s ref total d counted)) :
    WatermarkInv (w.settleShares id s ref total d counted now) := by
  obtain ⟨he, hlen, heq⟩ := h.pending t id s ref total d counted hcall
  have hsettled : ∀ k, (w.settleShares id s ref total d counted now).tracker.settledShares k
      = if k = id then max (min s total) (w.tracker.settledShares id)
        else w.tracker.settledShares k :=
    fun k => Tracker.settledShares_writeSettlement ..
  refine ⟨h.count, fun k => ?_, fun k x hx => ?_, fun k hk => ?_, h.pending, ?_⟩
  · have hle := h.le_count k
    rw [hsettled k]
    split
    · rename_i hk
      subst hk
      exact Nat.max_le.mpr ⟨hlen, hle⟩
    · exact hle
  · rw [hsettled k] at hx
    refine List.mem_append.mpr ?_
    split at hx
    · rename_i hk
      subst hk
      -- the watermark is either the new clamp or the old one
      rcases Nat.le_total (min s total) (w.tracker.settledShares k) with hle | hle
      · rw [Nat.max_eq_right hle] at hx
        exact .inl (h.settled k x hx)
      · rw [Nat.max_eq_left hle] at hx
        exact .inr (heq ▸ hx)
    · exact .inl (h.settled k x hx)
  · have hne : k ≠ id := by
      intro hkid
      rw [hkid, he] at hk
      exact Bool.noConfusion hk
    rw [hsettled k, if_neg hne]
    exact h.ephemeral k hk
  · intro x hx
    exact List.mem_append.mpr (.inl (h.pruned x hx))

/-! ## The step -/

/-- A row whose shares a settle call is about to count survives a disciplined step. -/
theorem WatermarkInv.pending_row (hkeeps : keepsPendingRows w e = true) (hnext : next w e = some w')
    (hcall : w.calls.lookup t = some (.settleWrite id s ref total d counted))
    (hpos : 0 < min s total) : (w'.tracker.miners.lookup id).isSome := by
  have hdrop := List.all_eq_true.mp hkeeps _ (Table.mem_entries.mpr hcall)
  simp only [Bool.or_eq_true, decide_eq_true_eq, Bool.not_eq_true'] at hdrop
  exact row_kept (h.row_of_pending hcall hpos) hnext (hdrop.resolve_left (by omega))

theorem WatermarkInv.start (hkept : w.HasCounted (w.start now req).1.tracker) :
    WatermarkInv (w.start now req).1 := by
  have hs := w.begins now req
  generalize w.start now req = r at hs hkept ⊢
  cases hs with
  | share | reset | flush => exact h.same rfl fun _ => Nat.le_refl _
  | refused | settle | prune => exact h
  | remove => exact h.shrink (w.tracker.shrinks_removeMiner _) hkept
  | cleanup => exact h.shrink (w.tracker.shrinks_cleanupMiners _) hkept
  | volatile => exact h.shrink (w.tracker.shrinks_cleanupVolatile _) hkept

/-- Beginning to settle: the call takes the first shares of the row it has just read. -/
theorem WatermarkInv.start_pending
    (hcall : (w.start now req).2 = some (.settleWrite id s ref total d counted)) :
    (w.start now req).1 = w ∧ isEphemeralMinerId id = false
      ∧ min s total ≤ (w.credits id).length ∧ counted = (w.credits id).take (min s total) := by
  have hs := w.begins now req
  generalize w.start now req = r at hs hcall ⊢
  cases hs with
  | settle hnamed hread =>
    cases hcall
    have hlen : (w.credits id).length = total := by
      obtain ⟨stats, hstats, hpair⟩ := Option.map_eq_some_iff.mp hread
      injection hpair with hshares hdiff
      rw [h.count id, Tracker.totalShares, hstats]
      exact hshares
    exact ⟨rfl, hnamed, by omega, rfl⟩
  | cleanup =>
    simp only at hcall
    split at hcall <;> cases hcall
  | _ => cases hcall

/-- A confirmed row is settled in full, so all of its shares are covered. -/
theorem WatermarkInv.confirmed_covered {cutoff prunedAt : Nat}
    {records : List (SettlementArchiveRecord F)} {r : SettlementArchiveRecord F}
    (hr : r ∈ w.tracker.confirmed cutoff prunedAt records) {x : Nat}
    (hx : x ∈ w.credits r.minerId) : x ∈ w.covered := by
  obtain ⟨-, stats, settlement, hstats, hsettlement, -, hfull⟩ := Tracker.mem_confirmed hr
  have hlen : (w.credits r.minerId).length = stats.totalShares := by
    rw [h.count, Tracker.totalShares, hstats]
    rfl
  have hall : w.tracker.settledShares r.minerId = (w.credits r.minerId).length := by
    rw [Tracker.settledShares, hsettlement, hlen]
    exact hfull
  refine h.settled r.minerId x ?_
  rw [hall, List.take_length]
  exact hx

theorem WatermarkInv.advance {fault : Fault} {call : Call F} (hcall : w.calls.lookup t = some call)
    (hwrap : wrapsTotal w (.resume t now fault) = false)
    (hkept : w.HasCounted (w.advance now fault call).1.tracker) :
    WatermarkInv (w.advance now fault call).1 := by
  cases call with
  | recordMiners id d n =>
    refine h.credit ?_
    simp only [wrapsTotal, hcall, decide_eq_false_iff_not] at hwrap
    omega
  | recordSettlement id =>
    exact h.same rfl fun k => Nat.le_of_eq (Tracker.settledShares_touchSettlement ..)
  | settleWrite id s ref total d counted => exact h.settle hcall
  | cleanupSettlements =>
    exact h.same rfl fun k => (w.tracker.shrinks_cleanupSettlements k).1
  | pruneConfirm records cutoff prunedAt =>
    simp only [World.advance, World.pruneConfirm] at hkept ⊢
    split
    · exact h
    · rename_i hne
      split
      · rename_i hfault
        simp only [hne, hfault, if_true] at hkept
        have hshrunk := h.shrink (w.tracker.shrinks_removeRows
          (w.tracker.confirmed cutoff prunedAt records)) hkept
        refine { hshrunk with pruned := ?_ }
        intro x hx
        rcases List.mem_append.mp hx with hold | hnew
        · exact h.pruned x hold
        · obtain ⟨id, hid, hxid⟩ := List.mem_flatMap.mp hnew
          obtain ⟨r, hr, rfl⟩ := List.mem_map.mp hid
          exact h.confirmed_covered hr hxid
      · exact { h with }
  | resetCounters => exact h.shrink w.tracker.shrinks_resetWindowCounters hkept
  | markDirty | flushFailed => exact h.same rfl fun _ => Nat.le_refl _
  | flushSnapshot => exact h
  | flushWrite state => exact { h with }
  | flushRename state =>
    simp only [World.advance]
    split
    · exact { h with }
    · exact h

end

/-- A settle call is only ever begun; no later section leads to one. -/
theorem advance_ne_settleWrite (w : World F) (now : Nat) (fault : Fault) (call : Call F) :
    (w.advance now fault call).2 ≠ some (.settleWrite id s ref total d counted) := by
  cases call with
  | pruneConfirm records cutoff prunedAt =>
    simp only [World.advance, World.pruneConfirm]
    repeat' split
    all_goals simp
  | _ =>
    simp only [World.advance]
    repeat' split
    all_goals simp

theorem watermarkInv_step (h : WatermarkInv w) (hok : keepsWatermarks w e = true)
    (hnext : next w e = some w') : WatermarkInv w' := by
  simp only [keepsWatermarks, Bool.and_eq_true, Bool.not_eq_true'] at hok
  obtain ⟨hkeeps, hwrap⟩ := hok
  have hkept : w.HasCounted w'.tracker := by
    intro t id s ref total d counted hpending hpos
    exact h.pending_row hkeeps hnext hpending hpos
  cases e with
  | begin t req now =>
    obtain ⟨-, rfl⟩ := next_begin hnext
    refine (h.start hkept).position t ?_
    intro id s ref total d counted hcall
    obtain ⟨hsame, hnew⟩ := h.start_pending hcall
    rw [hsame]
    exact hnew
  | resume t now fault =>
    obtain ⟨call, hcall, rfl⟩ := next_resume hnext
    refine (h.advance hcall hwrap hkept).position t ?_
    intro id s ref total d counted hnew
    exact absurd hnew (advance_ne_settleWrite w now fault call)

theorem watermarkInv_empty (hw : Empty w) : WatermarkInv w := by
  have hblank : ∀ tr : Tracker F, tr.miners = ∅ → tr.settlements = ∅ →
      WatermarkInv (.idle tr none none) := by
    intro tr hm hs
    constructor <;> simp [World.idle, Tracker.totalShares, Tracker.settledShares, hm, hs]
  rcases hw with rfl | rfl
  · exact hblank _ rfl rfl
  · exact hblank _ rfl rfl

/-! ## Every run -/

/-- **The watermark is sound in every disciplined run** from an empty tracker: no step drops a
row between the two sections of a settle call that counts its shares, and no total wraps. -/
theorem watermark_sound {w : World F}
    (h : Reach next (fun w e => keepsWatermarks w e = true) Empty w) : WatermarkSound w :=
  (h.invariant (fun _ => watermarkInv_empty) fun _ _ _ hinv hok hnext =>
    watermarkInv_step hinv hok hnext).sound

/-- One worker is settled and pruned while another one's settle call is in progress. -/
theorem watermark_sound_settle_and_prune :
    ∃ w : World Nat, Reach next (fun w e => keepsWatermarks w e = true) Empty w
      ∧ WatermarkSound w ∧ w.pruned = [0, 1] ∧ w.covered = [0, 1, 2]
      ∧ w.tracker.totalShares "bob" = some 2 ∧ w.tracker.settledShares "bob" = 1 := by
  have hrun : ∃ w : World Nat, Reach next (fun w e => keepsWatermarks w e = true) Empty w
      ∧ decide (w.pruned = [0, 1] ∧ w.covered = [0, 1, 2]
        ∧ w.tracker.totalShares "bob" = some 2 ∧ w.tracker.settledShares "bob" = 1) = true :=
    Reach.exists_of_exec keepsWatermarks (fun _ _ h => h) (.withPersistence none none false)
      (.inr rfl)
      (shareEvents 1 "alice" 5 10 ++ shareEvents 1 "alice" 5 11 ++ shareEvents 1 "bob" 7 12
        ++ [.begin 1 (.markMinerSettled "alice" 9 "tx1") 20, .resume 1 20 .none,
          .resume 1 20 .none, .begin 2 (.markMinerSettled "bob" 1 "tx2") 21,
          .begin 3 (.pruneSettledMiners 30 40) 40, .resume 3 40 .none, .resume 3 40 .none,
          .resume 2 41 .none, .resume 2 41 .none]
        ++ shareEvents 1 "bob" 7 42)
      (by decide +kernel)
  obtain ⟨w, hreach, hw⟩ := hrun
  exact ⟨w, hreach, watermark_sound hreach, of_decide_eq_true hw⟩

/-- **The lost row.** A settle call reads two shares of a worker; the row is removed; the call
writes its watermark; and the worker's next share is reported as settled. -/
theorem removed_row_inherits_watermark :
    ¬ ∀ w : World Nat, Reach next Any Empty w → WatermarkSound w := by
  have hrun : ∃ w : World Nat, Reach next Any Empty w
      ∧ ((w.tracker.miners.lookup "alice").any fun stats =>
        decide (stats.totalShares < w.tracker.settledShares "alice")) = true :=
    Reach.any_of_exec (.withPersistence none none false) (.inr rfl)
      (shareEvents 1 "alice" 5 10 ++ shareEvents 1 "alice" 5 11
        ++ [.begin 2 (.markMinerSettled "alice" 2 "tx1") 20, .begin 1 (.removeMiner "alice") 21,
          .resume 1 21 .none, .resume 2 22 .none, .resume 2 22 .none]
        ++ shareEvents 1 "alice" 5 23)
      (by decide +kernel)
  obtain ⟨w, hreach, hw⟩ := hrun
  intro hall
  obtain ⟨stats, hstats, hlt⟩ := (Option.any_eq_true _ _).mp hw
  have hle := (hall w hreach).le_total "alice" stats hstats
  simp only [decide_eq_true_eq] at hlt
  omega

end MiningInfra.Payout
