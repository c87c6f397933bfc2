import Mathlib.Data.List.AList

/-!
# Tables

A hash map is an association list with distinct keys. `AList` carries that
distinctness as a field; this module adds what a map protected by a lock needs
beyond insertion and removal: a pass that keeps, changes or drops every entry,
and the removal of a batch of keys. Every lemma is stated through `lookup`, so no
proof above depends on the order in which entries are listed.
-/

namespace MiningInfra.Lib

abbrev Table (κ α : Type) := AList (fun _ : κ => α)

namespace Table

variable {κ α β γ : Type} [DecidableEq κ]

variable {m m' : Table κ α} {k : κ} {f : α → List β}

theorem mem_entries {v : α} : (⟨k, v⟩ : Sigma fun _ => α) ∈ m.entries ↔ m.lookup k = some v := by
  rw [← AList.mem_lookup_iff, Option.mem_def]

section

variable (m : Table κ α) (k : κ)

theorem lookup_insert_eq (k' : κ) (v : α) :
    (m.insert k' v).lookup k = if k = k' then some v else m.lookup k := by
  split
  · rename_i h; subst h; exact AList.lookup_insert m
  · rename_i h; exact AList.lookup_insert_ne h

theorem lookup_erase_eq (k' : κ) : (m.erase k').lookup k = if k = k' then none else m.lookup k := by
  split
  · rename_i h; subst h; exact AList.lookup_erase k m
  · rename_i h; exact AList.lookup_erase_ne h

/-- The entries of a key are the value it has. -/
theorem filter_entries_key :
    (m.entries.filter fun e => e.1 = k) = (m.lookup k).toList.map (Sigma.mk k) := by
  obtain ⟨l, hnodup⟩ := m
  rw [AList.lookup]
  induction l with
  | nil => rfl
  | cons e l ih =>
    obtain ⟨k', v⟩ := e
    rw [List.nodupKeys_cons] at hnodup
    have ih := ih hnodup.2
    rw [List.filter_cons]
    by_cases hk : k' = k
    · -- no other entry has this key
      subst hk
      have hnone : l.dlookup k' = none := List.dlookup_eq_none.mpr hnodup.1
      rw [hnone] at ih
      rw [List.dlookup_cons_eq, ih, if_pos (decide_eq_true rfl)]
      rfl
    · rw [List.dlookup_cons_ne _ _ (Ne.symm hk), if_neg (by simpa using hk), ih]

end

/-- A row of the table after an insertion. -/
theorem of_lookup_insert {k' : κ} {v x : α} (h : (m.insert k' v).lookup k = some x) :
    k = k' ∧ v = x ∨ m.lookup k = some x := by
  rw [lookup_insert_eq] at h
  split at h
  · exact .inl ⟨‹_›, Option.some.inj h⟩
  · exact .inr h

theorem of_lookup_erase {k' : κ} {x : α} (h : (m.erase k').lookup k = some x) :
    m.lookup k = some x := by
  rw [lookup_erase_eq, Option.ite_none_left_eq_some] at h
  exact h.2

/-! ## One pass over every entry -/

section

omit [DecidableEq κ]

variable {f : (Sigma fun _ : κ => α) → Option γ} {key : γ → κ}

/-- A selection that names the entry each result came from names no entry twice. -/
theorem map_key_filterMap_sublist (hkey : ∀ e r, f e = some r → key r = e.1) :
    ∀ l : List (Sigma fun _ : κ => α), ((l.filterMap f).map key).Sublist l.keys
  | [] => List.Sublist.refl _
  | e :: l => by
    have ih := map_key_filterMap_sublist hkey l
    rw [List.filterMap_cons]
    cases he : f e with
    | none => exact List.Sublist.cons _ ih
    | some r =>
      rw [List.map_cons, hkey e r he, List.keys_cons]
      exact List.Sublist.cons_cons _ ih

theorem nodup_map_key_filterMap (hkey : ∀ e r, f e = some r → key r = e.1) (m : Table κ α) :
    ((m.entries.filterMap f).map key).Nodup :=
  (map_key_filterMap_sublist hkey m.entries).nodup m.nodupKeys

end

/-- The entries a pass `f` leaves behind. -/
def passEntries (f : κ → α → Option β) (l : List (Sigma fun _ : κ => α)) :
    List (Sigma fun _ : κ => β) :=
  l.filterMap fun e => (f e.1 e.2).map fun v => ⟨e.1, v⟩

omit [DecidableEq κ] in
theorem keys_passEntries_sublist (f : κ → α → Option β) (l : List (Sigma fun _ : κ => α)) :
    (passEntries f l).keys.Sublist l.keys := by
  refine map_key_filterMap_sublist (fun e r h => ?_) l
  obtain ⟨v, -, rfl⟩ := Option.map_eq_some_iff.mp h
  rfl

/-- Keep, change or drop each entry, as `retain` with a mutable reference does. -/
def pass (f : κ → α → Option β) (m : Table κ α) : Table κ β :=
  ⟨passEntries f m.entries, (keys_passEntries_sublist f m.entries).nodup m.nodupKeys⟩

omit [DecidableEq κ] in
theorem mem_pass {f : κ → α → Option β} {v : β} :
    (⟨k, v⟩ : Sigma fun _ => β) ∈ (m.pass f).entries
      ↔ ∃ u, (⟨k, u⟩ : Sigma fun _ => α) ∈ m.entries ∧ f k u = some v := by
  simp only [pass, passEntries, List.mem_filterMap]
  constructor
  · rintro ⟨⟨k', u⟩, hmem, hf⟩
    simp only [Option.map_eq_some_iff, Sigma.mk.injEq] at hf
    obtain ⟨v', hv', hk, hv⟩ := hf
    subst hk
    cases hv
    exact ⟨u, hmem, hv'⟩
  · rintro ⟨u, hmem, hf⟩
    exact ⟨⟨k, u⟩, hmem, by simp [hf]⟩

theorem lookup_pass (f : κ → α → Option β) (m : Table κ α) (k : κ) :
    (m.pass f).lookup k = (m.lookup k).bind (f k) := by
  refine Option.ext fun v => ?_
  rw [← mem_entries, mem_pass, Option.bind_eq_some_iff]
  constructor
  · rintro ⟨u, hmem, hf⟩; exact ⟨u, mem_entries.mp hmem, hf⟩
  · rintro ⟨u, hmem, hf⟩; exact ⟨u, mem_entries.mpr hmem, hf⟩

theorem of_lookup_pass {f : κ → α → Option β} {y : β} (h : (m.pass f).lookup k = some y) :
    ∃ x, m.lookup k = some x ∧ f k x = some y :=
  Option.bind_eq_some_iff.mp (lookup_pass f m k ▸ h)

/-- Drop the entries that fail `p`. -/
def retain (p : κ → α → Bool) (m : Table κ α) : Table κ α :=
  m.pass fun k v => if p k v then some v else none

theorem lookup_retain (p : κ → α → Bool) (m : Table κ α) (k : κ) :
    (m.retain p).lookup k = (m.lookup k).filter (p k) := by
  rw [retain, lookup_pass]
  cases m.lookup k with
  | none => rfl
  | some v => simp [Option.filter]

theorem of_lookup_retain {p : κ → α → Bool} {x : α} (h : (m.retain p).lookup k = some x) :
    m.lookup k = some x ∧ p k x = true :=
  Option.filter_eq_some_iff.mp (lookup_retain p m k ▸ h)

omit [DecidableEq κ] in
theorem entries_retain (p : κ → α → Bool) (m : Table κ α) :
    (m.retain p).entries = m.entries.filter fun e => p e.1 e.2 := by
  simp only [retain, pass, passEntries]
  induction m.entries with
  | nil => rfl
  | cons e l ih =>
    rw [List.filterMap_cons, List.filter_cons, ih]
    cases p e.1 e.2 <;> rfl

/-- A retain that drops no entry leaves the table as it is. -/
theorem lookup_retain_of_length_le {p : κ → α → Bool}
    (h : m.entries.length ≤ (m.retain p).entries.length) (k : κ) :
    (m.retain p).lookup k = m.lookup k := by
  have hall : ∀ e ∈ m.entries, p e.1 e.2 = true := by
    rw [entries_retain] at h
    exact List.length_filter_eq_length_iff.mp (Nat.le_antisymm (List.length_filter_le _ _) h)
  rw [lookup_retain]
  cases hk : m.lookup k with
  | none => rfl
  | some v => exact Option.filter_eq_some_iff.mpr ⟨rfl, hall _ (mem_entries.mpr hk)⟩

/-! ## Removing a batch of keys -/

/-- Remove every key of the list. -/
def eraseAll (ks : List κ) (m : Table κ α) : Table κ α := ks.foldl (fun m k => m.erase k) m

theorem lookup_eraseAll (ks : List κ) : ∀ (m : Table κ α) (k : κ),
    (m.eraseAll ks).lookup k = if k ∈ ks then none else m.lookup k := by
  induction ks with
  | nil => intro m k; simp [eraseAll]
  | cons k' ks ih =>
    intro m k
    rw [eraseAll, List.foldl_cons, ← eraseAll, ih, lookup_erase_eq]
    by_cases h : k = k' <;> simp [h]

/-! ## What the values name -/

omit [DecidableEq κ] in
/-- Everything the values of a table name. -/
def gather (f : α → List β) (m : Table κ α) : List β := m.entries.flatMap fun e => f e.2

theorem mem_gather {b : β} : b ∈ m.gather f ↔ ∃ k v, m.lookup k = some v ∧ b ∈ f v := by
  simp only [gather, List.mem_flatMap]
  constructor
  · rintro ⟨⟨k, v⟩, hmem, hb⟩
    exact ⟨k, v, mem_entries.mp hmem, hb⟩
  · rintro ⟨k, v, hlookup, hb⟩
    exact ⟨⟨k, v⟩, mem_entries.mpr hlookup, hb⟩

/-- A table whose values are taken over from another names nothing new. -/
theorem gather_subset {l : List β}
    (h : ∀ k v, m'.lookup k = some v → f v ⊆ l ∨ ∃ k' v', m.lookup k' = some v' ∧ f v ⊆ f v') :
    m'.gather f ⊆ l ++ m.gather f := by
  intro b hb
  obtain ⟨k, v, hlookup, hb⟩ := mem_gather.mp hb
  rcases h k v hlookup with hl | ⟨k', v', hlookup', hsub⟩
  · exact List.mem_append_left _ (hl hb)
  · exact List.mem_append_right _ (mem_gather.mpr ⟨k', v', hlookup', hsub hb⟩)

theorem gather_insert_subset (f : α → List β) (m : Table κ α) (k : κ) (v : α) :
    gather f (m.insert k v) ⊆ f v ++ m.gather f := by
  refine gather_subset fun k' v' h => ?_
  rcases of_lookup_insert h with ⟨-, rfl⟩ | h
  · exact .inl (List.Subset.refl _)
  · exact .inr ⟨k', v', h, List.Subset.refl _⟩

theorem gather_subset_of_lookup (h : ∀ k v, m'.lookup k = some v → m.lookup k = some v) :
    m'.gather f ⊆ m.gather f := by
  refine gather_subset (l := []) fun k v hlookup => .inr ⟨k, v, h k v hlookup, List.Subset.refl _⟩

theorem gather_erase_subset (f : α → List β) (m : Table κ α) (k : κ) :
    gather f (m.erase k) ⊆ m.gather f := by
  refine gather_subset_of_lookup fun k' v h => ?_
  rw [lookup_erase_eq] at h
  split at h
  · cases h
  · exact h

theorem gather_retain_subset (f : α → List β) (p : κ → α → Bool) (m : Table κ α) :
    (m.retain p).gather f ⊆ m.gather f := by
  refine gather_subset_of_lookup fun k v h => ?_
  rw [lookup_retain] at h
  exact (Option.filter_eq_some_iff.mp h).1

end Table

end MiningInfra.Lib
