import Mathlib.Data.List.Basic

/-!
# A bounded record of recent keys

Keys with the time each was recorded, oldest first. What has grown older than the window is
dropped from the front before every use, and a record that is full drops its oldest key. As long
as the clock does not run backwards the times are in order, so dropping from the front drops
exactly what is too old.
-/

namespace MiningInfra.Lib

structure Recent (κ : Type) where
  capacity : Nat
  window : Nat
  entries : List (κ × Nat)
  deriving DecidableEq, Repr

namespace Recent

variable {κ : Type}

def new (capacity window : Nat) : Recent κ := ⟨capacity, window, []⟩

/-- Older than the window. -/
def Expired (r : Recent κ) (now : Nat) (e : κ × Nat) : Prop := r.window < now - e.2

instance (r : Recent κ) (now : Nat) (e : κ × Nat) : Decidable (r.Expired now e) :=
  inferInstanceAs (Decidable (_ < _))

def evictExpired (r : Recent κ) (now : Nat) : Recent κ :=
  { r with entries := r.entries.dropWhile fun e => decide (r.Expired now e) }

variable [DecidableEq κ]

/-- Both the answer and what is left of the record. -/
def contains (r : Recent κ) (k : κ) (now : Nat) : Bool × Recent κ :=
  let r := r.evictExpired now
  (r.entries.any fun e => e.1 = k, r)

def count (r : Recent κ) (k : κ) (now : Nat) : Nat × Recent κ :=
  let r := r.evictExpired now
  ((r.entries.filter fun e => e.1 = k).length, r)

omit [DecidableEq κ] in
/-- The front goes only when the length is the capacity, not when it is beyond it. -/
def record (r : Recent κ) (k : κ) (now : Nat) : Recent κ :=
  let r := r.evictExpired now
  { r with
    entries := (if r.entries.length = r.capacity then r.entries.tail else r.entries) ++ [(k, now)] }

/-! ## What is in the record -/

/-- The times are in order and none is in the future. -/
structure Ordered (r : Recent κ) (now : Nat) : Prop where
  sorted : r.entries.Pairwise fun e e' => e.2 ≤ e'.2
  past : ∀ e ∈ r.entries, e.2 ≤ now

omit [DecidableEq κ] in
theorem ordered_new (capacity window now : Nat) : (new capacity window : Recent κ).Ordered now :=
  ⟨List.Pairwise.nil, fun _ h => absurd h (by simp [new])⟩

variable {r : Recent κ} {now : Nat} {e : κ × Nat} {k : κ}

section

omit [DecidableEq κ]

theorem Ordered.mono {later : Nat} (h : r.Ordered now) (hle : now ≤ later) :
    r.Ordered later := ⟨h.sorted, fun e he => Nat.le_trans (h.past e he) hle⟩

theorem mem_of_mem_evictExpired (h : e ∈ (r.evictExpired now).entries) : e ∈ r.entries :=
  (List.dropWhile_sublist _).subset h

theorem Ordered.evictExpired (h : r.Ordered now) : (r.evictExpired now).Ordered now :=
  ⟨h.sorted.sublist (List.dropWhile_sublist _), fun e he => h.past e (mem_of_mem_evictExpired he)⟩

/-- What is left is inside the window: the first entry left is, and the others are younger. -/
theorem Ordered.fresh (h : r.Ordered now) (he : e ∈ (r.evictExpired now).entries) :
    now - e.2 ≤ r.window := by
  have key : ∀ l : List (κ × Nat), l.Pairwise (fun e e' => e.2 ≤ e'.2) →
      e ∈ l.dropWhile (fun e => decide (r.Expired now e)) → now - e.2 ≤ r.window := by
    intro l hl hmem
    induction l with
    | nil => cases hmem
    | cons a l ih =>
      rw [List.dropWhile_cons] at hmem
      rw [List.pairwise_cons] at hl
      split at hmem
      · exact ih hl.2 hmem
      · rename_i hfresh
        have ha : now - a.2 ≤ r.window :=
          Nat.le_of_not_lt fun hexp => hfresh (decide_eq_true hexp)
        rcases List.mem_cons.mp hmem with rfl | hmem
        · exact ha
        · have := hl.1 e hmem
          omega
  exact key r.entries h.sorted he

end

/-- A key that is contained was recorded, and not too long ago. -/
theorem Ordered.contains_true (h : r.Ordered now) (hc : (r.contains k now).1 = true) :
    ∃ t, (k, t) ∈ r.entries ∧ now - t ≤ r.window := by
  obtain ⟨e, he, hk⟩ := List.any_eq_true.mp hc
  refine ⟨e.2, ?_, h.fresh he⟩
  rw [← of_decide_eq_true hk]
  exact mem_of_mem_evictExpired he

section

omit [DecidableEq κ]

theorem mem_record (h : e ∈ (r.record k now).entries) : e = (k, now) ∨ e ∈ r.entries := by
  rcases List.mem_append.mp h with h | h
  · right
    apply mem_of_mem_evictExpired
    split at h
    · exact List.mem_of_mem_tail h
    · exact h
  · exact Or.inl (List.mem_singleton.mp h)

theorem Ordered.record (h : r.Ordered now) (k : κ) : (r.record k now).Ordered now := by
  have hev := h.evictExpired
  have hkept : ∀ l : List (κ × Nat), l.Sublist (r.evictExpired now).entries →
      (l ++ [(k, now)]).Pairwise fun e e' => e.2 ≤ e'.2 := by
    intro l hl
    refine List.pairwise_append.mpr ⟨hev.sorted.sublist hl, List.pairwise_singleton _ _, ?_⟩
    intro e he e' he'
    rw [List.mem_singleton.mp he']
    exact hev.past e (hl.subset he)
  refine ⟨?_, ?_⟩
  · unfold Recent.record
    dsimp only
    split
    · exact hkept _ (List.tail_sublist _)
    · exact hkept _ (List.Sublist.refl _)
  · intro e he
    rcases mem_record he with rfl | he
    · exact Nat.le_refl _
    · exact h.past e he

end

/-! ## Clocks read before the lock

Where the clock is read first and the record is locked after it, the times in the record need not
be in order. Each entry is then older than the moment it was put on record, and those moments are
in order; a key that is contained was put on record within the window. -/

/-- Every entry was put on record at a moment of which `P` holds, in the order of the record, and
carries a time that is not later. -/
def Stamped (P : κ → Nat → Prop) (r : Recent κ) (now : Nat) : Prop :=
  ∃ stamps : List ((κ × Nat) × Nat), r.entries = stamps.map Prod.fst ∧
    stamps.Pairwise (fun a b => a.2 ≤ b.2) ∧
    ∀ a ∈ stamps, a.1.2 ≤ a.2 ∧ a.2 ≤ now ∧ P a.1.1 a.2

variable {P : κ → Nat → Prop}

section

omit [DecidableEq κ]

theorem stamped_new (capacity window now : Nat) : Stamped P (new capacity window : Recent κ) now :=
  ⟨[], rfl, List.Pairwise.nil, fun _ h => absurd h List.not_mem_nil⟩

theorem Stamped.mono {Q : κ → Nat → Prop} {later : Nat} (h : Stamped P r now)
    (hPQ : ∀ k t, P k t → Q k t) (hle : now ≤ later) : Stamped Q r later := by
  obtain ⟨stamps, hentries, hsorted, hstamps⟩ := h
  refine ⟨stamps, hentries, hsorted, fun a ha => ?_⟩
  obtain ⟨hsince, htime, hP⟩ := hstamps a ha
  exact ⟨hsince, Nat.le_trans htime hle, hPQ _ _ hP⟩

theorem Stamped.evictExpired (h : Stamped P r now) (time : Nat) :
    Stamped P (r.evictExpired time) now := by
  obtain ⟨stamps, hentries, hsorted, hstamps⟩ := h
  refine ⟨stamps.dropWhile ((fun e => decide (r.Expired time e)) ∘ Prod.fst), ?_,
    hsorted.sublist (List.dropWhile_sublist _),
    fun a ha => hstamps a ((List.dropWhile_sublist _).subset ha)⟩
  change r.entries.dropWhile _ = _
  rw [hentries, List.dropWhile_map]

theorem Stamped.record {since : Nat} (h : Stamped P r now) (hsince : since ≤ now) (hk : P k now) :
    Stamped P (r.record k since) now := by
  obtain ⟨stamps, hentries, hsorted, hstamps⟩ := h.evictExpired since
  have hkept : ∀ kept : List ((κ × Nat) × Nat), kept.Sublist stamps →
      (kept ++ [((k, since), now)]).Pairwise (fun a b => a.2 ≤ b.2) ∧
        ∀ a ∈ kept ++ [((k, since), now)], a.1.2 ≤ a.2 ∧ a.2 ≤ now ∧ P a.1.1 a.2 := by
    intro kept hsub
    refine ⟨List.pairwise_append.mpr ⟨hsorted.sublist hsub, List.pairwise_singleton _ _, ?_⟩, ?_⟩
    · intro a ha a' ha'
      rw [List.mem_singleton.mp ha']
      exact (hstamps a (hsub.subset ha)).2.1
    · intro a ha
      rcases List.mem_append.mp ha with ha | ha
      · exact hstamps a (hsub.subset ha)
      · rw [List.mem_singleton.mp ha]
        exact ⟨hsince, Nat.le_refl _, hk⟩
  unfold Recent.record
  dsimp only
  split
  · obtain ⟨hpair, hall⟩ := hkept stamps.tail (List.tail_sublist _)
    exact ⟨_, by simp [hentries, List.map_tail], hpair, hall⟩
  · obtain ⟨hpair, hall⟩ := hkept stamps (List.Sublist.refl _)
    exact ⟨_, by simp [hentries], hpair, hall⟩

end

/-- The front of what is left is inside the window by its own time, so it was put on record inside
the window; what stands behind it was put on record later. -/
theorem Stamped.contains_true (h : Stamped P r now) (hc : (r.contains k now).1 = true) :
    ∃ t, P k t ∧ t ≤ now ∧ now ≤ t + r.window := by
  obtain ⟨stamps, hentries, hsorted, hstamps⟩ := h.evictExpired now
  obtain ⟨e, he, hk⟩ := List.any_eq_true.mp hc
  have he : e ∈ (r.evictExpired now).entries := he
  rw [hentries] at he
  obtain ⟨a, ha, rfl⟩ := List.mem_map.mp he
  cases stamps with
  | nil => exact absurd ha List.not_mem_nil
  | cons front rest =>
    have hfront : now - front.1.2 ≤ r.window := by
      refine Nat.le_of_not_lt fun hexpired => ?_
      have hdrop : (r.entries.dropWhile fun e => decide (r.Expired now e)) =
          front.1 :: rest.map Prod.fst := hentries
      have hhead := List.head?_dropWhile_not (fun e => decide (r.Expired now e)) r.entries
      rw [hdrop] at hhead
      exact absurd hexpired (of_decide_eq_false hhead)
    have hlater : front.2 ≤ a.2 := by
      rcases List.mem_cons.mp ha with rfl | ha
      · exact Nat.le_refl _
      · exact (List.pairwise_cons.mp hsorted).1 a ha
    obtain ⟨-, htime, hP⟩ := hstamps a ha
    have hbefore := (hstamps front List.mem_cons_self).1
    refine ⟨a.2, ?_, htime, by omega⟩
    rwa [of_decide_eq_true hk] at hP

end Recent

end MiningInfra.Lib
