import Mathlib.Data.List.Nodup
import Mathlib.Data.Nat.Log

/-!
# Merkle trees, level by level

A tree is built from its leaves by pairing up neighbours, the last one with itself
when it has none, until one node is left. Programs write a level in different ways: an
index that moves by two, or a copy of the last node and chunks of two. Both are the one
structural recursion `pairs`.

Collision resistance is a statement about the pairs that are hashed on the way
(`hashed`), not about all pairs: over a fixed-size digest the latter is never true. Two
lists of one length with the same root and no collision among what was hashed are equal
(`root_inj`).
-/

namespace MiningInfra.Lib.Merkle

variable {α : Type} {node : α → α → α}

/-- Neighbours, the last one with itself. -/
def pairs : List α → List (α × α)
  | [] => []
  | [a] => [(a, a)]
  | a :: b :: rest => (a, b) :: pairs rest

/-- The level above. -/
def pairUp (node : α → α → α) (level : List α) : List α :=
  (pairs level).map fun p => node p.1 p.2

/-- `while level.len() > 1 { level = next(level) }`. -/
def collapse (next : List α → List α) : Nat → List α → List α
  | 0, level => level
  | fuel + 1, level => if 1 < level.length then collapse next fuel (next level) else level

/-- What is left at the end. -/
def root (node : α → α → α) (leaves : List α) : Option α :=
  (collapse (pairUp node) leaves.length leaves).head?

/-- Every pair that is hashed on the way. -/
def hashedAux (node : α → α → α) : Nat → List α → List (α × α)
  | 0, _ => []
  | fuel + 1, level =>
    if 1 < level.length then pairs level ++ hashedAux node fuel (pairUp node level) else []

def hashed (node : α → α → α) (leaves : List α) : List (α × α) :=
  hashedAux node leaves.length leaves

/-! ## Levels as programs write them -/

/-- `while i < layer.len() { next.push(node(layer[i], layer[i + 1] or layer[i])); i += 2 }`. -/
def indexLoop (node : α → α → α) (layer : List α) : Nat → Nat → List α → List α
  | 0, _, next => next
  | fuel + 1, i, next =>
    match layer[i]? with
    | none => next
    | some left =>
      let right := (layer[i + 1]?).getD left
      indexLoop node layer fuel (i + 2) (next ++ [node left right])

/-- The level above by an index loop. -/
def indexLevel (node : α → α → α) (layer : List α) : List α :=
  indexLoop node layer layer.length 0 []

/-- Chunks of exactly two. -/
def chunks : List α → List (α × α)
  | a :: b :: rest => (a, b) :: chunks rest
  | _ => []

/-- The level above by a copy of the last node and chunks of two. -/
def chunkLevel (node : α → α → α) (level : List α) : List α :=
  let padded := if level.length % 2 = 1 then level ++ level.getLast?.toList else level
  (chunks padded).map fun p => node p.1 p.2

/-- From an even position on, the loop appends what pairing gives. -/
theorem indexLoop_eq (node : α → α → α) (layer : List α) (fuel : Nat) :
    ∀ (i : Nat) (next : List α), layer.length ≤ i + fuel →
      indexLoop node layer fuel i next = next ++ pairUp node (layer.drop i) := by
  induction fuel with
  | zero =>
    intro i next h
    rw [List.drop_eq_nil_of_le (by omega)]
    simp [indexLoop, pairUp, pairs]
  | succ fuel ih =>
    intro i next h
    by_cases hi : i < layer.length
    · have hrest := ih (i + 2) (next ++ [node layer[i] ((layer[i + 1]?).getD layer[i])]) (by omega)
      rw [indexLoop, List.getElem?_eq_getElem hi]
      simp only
      rw [hrest, List.drop_eq_getElem_cons hi]
      by_cases hi' : i + 1 < layer.length
      · rw [List.drop_eq_getElem_cons hi']
        simp [pairUp, pairs, hi']
      · rw [List.drop_eq_nil_of_le (by omega), List.drop_eq_nil_of_le (by omega)]
        simp [pairUp, pairs, hi']
    · rw [List.drop_eq_nil_of_le (by omega), indexLoop,
        List.getElem?_eq_none (by omega)]
      simp [pairUp, pairs]

/-- **The index loop pairs up.** -/
theorem indexLevel_eq (node : α → α → α) : indexLevel node = pairUp node := by
  funext layer
  simpa [indexLevel] using indexLoop_eq node layer layer.length 0 [] (by omega)

theorem chunks_eq_pairs : ∀ {level : List α}, level.length % 2 = 0 → chunks level = pairs level
  | [], _ => rfl
  | [_], h => by simp at h
  | a :: b :: rest, h => by
    have hrest : rest.length % 2 = 0 := by
      simp only [List.length_cons] at h
      omega
    rw [chunks, pairs, chunks_eq_pairs hrest]

theorem chunks_append_last : ∀ {level : List α}, level.length % 2 = 1 →
    chunks (level ++ level.getLast?.toList) = pairs level
  | [], h => by simp at h
  | [a], _ => rfl
  | a :: b :: rest, h => by
    have hrest : rest.length % 2 = 1 := by
      simp only [List.length_cons] at h
      omega
    have hlast : (a :: b :: rest).getLast? = rest.getLast? := by
      cases rest with
      | nil => simp at hrest
      | cons c rest => simp [List.getLast?_cons_cons]
    rw [hlast, List.cons_append, List.cons_append, chunks, pairs, chunks_append_last hrest]

/-- **Padding and chunking pairs up.** -/
theorem chunkLevel_eq (node : α → α → α) : chunkLevel node = pairUp node := by
  funext level
  unfold chunkLevel pairUp
  split
  · exact congrArg _ (chunks_append_last ‹_›)
  · exact congrArg _ (chunks_eq_pairs (by omega))

/-! ## The root identifies the leaves -/

theorem length_pairs : ∀ l : List α, (pairs l).length = (l.length + 1) / 2
  | [] | [_] => by simp [pairs]
  | a :: b :: rest => by
    rw [pairs, List.length_cons, length_pairs rest]
    simp only [List.length_cons]
    omega

theorem length_pairUp (node : α → α → α) (l : List α) :
    (pairUp node l).length = (l.length + 1) / 2 := by
  rw [pairUp, List.length_map, length_pairs]

theorem pairs_inj : ∀ {l₁ l₂ : List α}, l₁.length = l₂.length → pairs l₁ = pairs l₂ → l₁ = l₂
  | [], [], _, _ => rfl
  | [a], [b], _, h => by simpa [pairs] using h
  | a :: b :: l₁, c :: d :: l₂, hlen, h => by
    simp only [pairs, List.cons.injEq, Prod.mk.injEq] at h
    simp only [List.length_cons] at hlen
    obtain ⟨⟨rfl, rfl⟩, hrest⟩ := h
    rw [pairs_inj (by omega) hrest]
  | [], _ :: _, hlen, _ | _ :: _, [], hlen, _ | [_], _ :: _ :: _, hlen, _
  | _ :: _ :: _, [_], hlen, _ => by simp at hlen

/-- A map that is injective between the members of two lists. -/
theorem eq_of_map_eq {β : Type} {f : α → β} : ∀ {l₁ l₂ : List α},
    (∀ a ∈ l₁, ∀ b ∈ l₂, f a = f b → a = b) → l₁.map f = l₂.map f → l₁ = l₂
  | [], [], _, _ => rfl
  | [], _ :: _, _, h | _ :: _, [], _, h => by simp at h
  | a :: l₁, b :: l₂, hinj, h => by
    simp only [List.map_cons, List.cons.injEq] at h
    rw [hinj a List.mem_cons_self b List.mem_cons_self h.1,
      eq_of_map_eq (fun c hc d hd => hinj c (List.mem_cons_of_mem _ hc) d
        (List.mem_cons_of_mem _ hd)) h.2]

theorem collapse_inj : ∀ (fuel : Nat) {l₁ l₂ : List α},
    l₁.length = l₂.length → l₁.length ≤ fuel →
    (∀ p ∈ hashedAux node fuel l₁, ∀ q ∈ hashedAux node fuel l₂,
      node p.1 p.2 = node q.1 q.2 → p = q) →
    (collapse (pairUp node) fuel l₁).head? = (collapse (pairUp node) fuel l₂).head? → l₁ = l₂
  | 0, l₁, l₂, hlen, hfuel, _, _ => by
    rw [List.length_eq_zero_iff.mp (by omega : l₁.length = 0),
      List.length_eq_zero_iff.mp (by omega : l₂.length = 0)]
  | fuel + 1, l₁, l₂, hlen, hfuel, hnc, hroot => by
    by_cases hlong : 1 < l₁.length
    · -- the levels above agree by induction, and no two pairs were hashed to one node
      have hlong₂ : 1 < l₂.length := by omega
      rw [collapse, collapse, if_pos hlong, if_pos hlong₂] at hroot
      rw [hashedAux, hashedAux, if_pos hlong, if_pos hlong₂] at hnc
      have hup : pairUp node l₁ = pairUp node l₂ := by
        refine collapse_inj fuel ?_ ?_ ?_ hroot
        · rw [length_pairUp, length_pairUp, hlen]
        · rw [length_pairUp]
          omega
        · exact fun p hp q hq =>
            hnc p (List.mem_append_right _ hp) q (List.mem_append_right _ hq)
      refine pairs_inj hlen (eq_of_map_eq ?_ hup)
      exact fun p hp q hq => hnc p (List.mem_append_left _ hp) q (List.mem_append_left _ hq)
    · rw [collapse, collapse, if_neg hlong, if_neg (by omega)] at hroot
      match l₁, l₂ with
      | [], [] => rfl
      | [a], [b] => simpa using hroot
      | [], b :: l₂ | [a], [] | [a], b :: c :: l₂ => simp at hlen
      | a :: b :: l₁, _ => simp at hlong

variable {l₁ l₂ leaves l : List α}

/-- **Between lists of one length the root identifies the leaves**, unless two pairs that were
hashed collide. -/
theorem root_inj (hlen : l₁.length = l₂.length)
    (hnc : ∀ p ∈ hashed node l₁, ∀ q ∈ hashed node l₂, node p.1 p.2 = node q.1 q.2 → p = q)
    (hroot : root node l₁ = root node l₂) : l₁ = l₂ := by
  unfold root at hroot
  unfold hashed at hnc
  rw [← hlen] at hroot hnc
  exact collapse_inj l₁.length hlen (Nat.le_refl _) hnc hroot

/-- A level that is not empty leaves something. -/
theorem root_isSome (node : α → α → α) (h : leaves ≠ []) : ∃ r, root node leaves = some r := by
  have main : ∀ fuel l, l ≠ [] → collapse (pairUp node) fuel l ≠ [] := by
    intro fuel
    induction fuel with
    | zero => exact fun l hl => hl
    | succ fuel ih =>
      intro l hl
      rw [collapse]
      split
      · refine ih _ ?_
        rw [← List.length_pos_iff, length_pairUp]
        omega
      · exact hl
  obtain ⟨r, rest, hr⟩ := List.exists_cons_of_ne_nil (main leaves.length leaves h)
  exact ⟨r, by rw [root, hr]; rfl⟩

/-- The root over more than one leaf is a node that was hashed. -/
theorem root_eq_node (node : α → α → α) (h : 1 < leaves.length) :
    ∃ p ∈ hashed node leaves, root node leaves = some (node p.1 p.2) := by
  have main : ∀ fuel l, 1 < l.length → l.length ≤ fuel →
      ∃ p ∈ hashedAux node fuel l, (collapse (pairUp node) fuel l).head? = some (node p.1 p.2) := by
    intro fuel
    induction fuel with
    | zero => exact fun l hl hfuel => absurd hfuel (by omega)
    | succ fuel ih =>
      intro l hl hfuel
      rw [collapse, hashedAux, if_pos hl, if_pos hl]
      have hlen := length_pairUp node l
      by_cases hup : 1 < (pairUp node l).length
      · obtain ⟨p, hp, hroot⟩ := ih (pairUp node l) hup (by omega)
        exact ⟨p, List.mem_append_right _ hp, hroot⟩
      · -- one pair is left, and its node is the root
        match l with
        | [a, b] =>
          refine ⟨(a, b), by simp [pairs], ?_⟩
          have hstop : ∀ fuel, collapse (pairUp node) fuel [node a b] = [node a b] := by
            intro fuel
            cases fuel <;> simp [collapse]
          show (collapse (pairUp node) fuel [node a b]).head? = _
          rw [hstop]
          rfl
        | [] | [_] => simp at hl
        | a :: b :: c :: rest =>
          simp only [List.length_cons] at hlen hup
          omega
  exact main leaves.length leaves h (Nat.le_refl _)

/-! ## Lists of different lengths

The padding makes lists of different lengths share a root: the shorter one is padded with what the
longer one has. A list without repeats cannot be the longer one. No level above it has a repeat
either, because two equal nodes come from equal pairs, whose first members are no padding. -/

theorem fst_mem_of_mem_pairs {p : α × α} : ∀ {l : List α}, p ∈ pairs l → p.1 ∈ l
  | [], h => absurd h (by simp [pairs])
  | [a], h => by
    rw [pairs, List.mem_singleton] at h
    rw [h]
    exact List.mem_cons_self
  | a :: b :: rest, h => by
    rw [pairs] at h
    rcases List.mem_cons.mp h with rfl | h
    · exact List.mem_cons_self
    · exact List.mem_cons_of_mem _ (List.mem_cons_of_mem _ (fst_mem_of_mem_pairs h))

theorem nodup_pairs : ∀ {l : List α}, l.Nodup → (pairs l).Nodup
  | [], _ => List.nodup_nil
  | [_], _ => by simp [pairs]
  | a :: b :: rest, h => by
    rw [List.nodup_cons, List.nodup_cons] at h
    obtain ⟨ha, -, hrest⟩ := h
    rw [pairs, List.nodup_cons]
    refine ⟨fun hmem => ha ?_, nodup_pairs hrest⟩
    exact List.mem_cons_of_mem _ (fst_mem_of_mem_pairs hmem)

theorem nodup_pairUp (h : l.Nodup)
    (hinj : ∀ p ∈ pairs l, ∀ q ∈ pairs l, node p.1 p.2 = node q.1 q.2 → p = q) :
    (pairUp node l).Nodup := by
  exact (nodup_pairs h).map_on hinj

theorem pairs_inj_of_nodup : ∀ {l₁ l₂ : List α}, l₁.Nodup → l₂.Nodup → pairs l₁ = pairs l₂ → l₁ = l₂
  | [], [], _, _, _ => rfl
  | [a], [b], _, _, h => by simpa [pairs] using h
  | a :: b :: l₁, c :: d :: l₂, h₁, h₂, h => by
    simp only [pairs, List.cons.injEq, Prod.mk.injEq] at h
    obtain ⟨⟨rfl, rfl⟩, hrest⟩ := h
    rw [List.nodup_cons, List.nodup_cons] at h₁ h₂
    rw [pairs_inj_of_nodup h₁.2.2 h₂.2.2 hrest]
  -- one list has the last node twice where the other is padded
  | [a], b :: c :: l₂, _, h₂, h => by
    simp only [pairs, List.cons.injEq, Prod.mk.injEq] at h
    obtain ⟨⟨rfl, rfl⟩, -⟩ := h
    exact absurd h₂ (by simp)
  | a :: b :: l₁, [c], h₁, _, h => by
    simp only [pairs, List.cons.injEq, Prod.mk.injEq] at h
    obtain ⟨⟨rfl, rfl⟩, -⟩ := h
    exact absurd h₁ (by simp)
  | [], [_], _, _, h | [], _ :: _ :: _, _, _, h | [_], [], _, _, h | _ :: _ :: _, [], _, _, h => by
    simp [pairs] at h

theorem collapse_of_length_le_one {next : List α → List α} {level : List α} (h : level.length ≤ 1)
    (fuel : Nat) : collapse next fuel level = level := by
  cases fuel with
  | zero => rfl
  | succ fuel => rw [collapse, if_neg (by omega)]

/-- The level above is one lower. -/
theorem clog_length_pairUp (node : α → α → α) (h : 1 < l.length) :
    Nat.clog 2 l.length = Nat.clog 2 (pairUp node l).length + 1 := by
  rw [length_pairUp, Nat.clog_of_two_le (by omega) h]
  rfl

theorem length_le_one_of_clog {n : Nat} (h : Nat.clog 2 n = 0) : n ≤ 1 := by
  by_contra hlt
  have := Nat.clog_pos (b := 2) (by omega) (Nat.lt_of_not_le hlt)
  omega

theorem collapse_inj_of_nodup : ∀ (height fuel₁ fuel₂ : Nat) {l₁ l₂ : List α},
    Nat.clog 2 l₁.length = height → Nat.clog 2 l₂.length = height →
    l₁.length ≤ fuel₁ → l₂.length ≤ fuel₂ → l₁.Nodup → l₂.Nodup →
    (∀ p ∈ hashedAux node fuel₁ l₁ ++ hashedAux node fuel₂ l₂,
      ∀ q ∈ hashedAux node fuel₁ l₁ ++ hashedAux node fuel₂ l₂,
        node p.1 p.2 = node q.1 q.2 → p = q) →
    (collapse (pairUp node) fuel₁ l₁).head? = (collapse (pairUp node) fuel₂ l₂).head? → l₁ = l₂ := by
  intro height
  induction height with
  | zero =>
    intro fuel₁ fuel₂ l₁ l₂ hh₁ hh₂ _ _ _ _ _ hroot
    have hlen₁ := length_le_one_of_clog hh₁
    have hlen₂ := length_le_one_of_clog hh₂
    rw [collapse_of_length_le_one hlen₁, collapse_of_length_le_one hlen₂] at hroot
    match l₁, l₂ with
    | [], [] => rfl
    | [a], [b] => simpa using hroot
    | [], b :: l₂ | [a], [] => simp at hroot
    | a :: b :: l₁, _ => simp at hlen₁
    | [a], b :: c :: l₂ => simp at hlen₂
  | succ height ih =>
    intro fuel₁ fuel₂ l₁ l₂ hh₁ hh₂ hfuel₁ hfuel₂ hnodup₁ hnodup₂ hinj hroot
    have long : ∀ {l : List α}, Nat.clog 2 l.length = height + 1 → 1 < l.length := by
      intro l hl
      by_contra hle
      rw [Nat.clog_of_right_le_one (Nat.le_of_not_lt hle)] at hl
      omega
    have hlong₁ := long hh₁
    have hlong₂ := long hh₂
    obtain ⟨fuel₁, rfl⟩ : ∃ n, fuel₁ = n + 1 := ⟨fuel₁ - 1, by omega⟩
    obtain ⟨fuel₂, rfl⟩ : ∃ n, fuel₂ = n + 1 := ⟨fuel₂ - 1, by omega⟩
    rw [collapse, collapse, if_pos hlong₁, if_pos hlong₂] at hroot
    rw [hashedAux, hashedAux, if_pos hlong₁, if_pos hlong₂] at hinj
    rw [clog_length_pairUp node hlong₁] at hh₁
    rw [clog_length_pairUp node hlong₂] at hh₂
    have hlen₁ := length_pairUp node l₁
    have hlen₂ := length_pairUp node l₂
    -- the pairs of this level, and those of the levels above
    have here : ∀ p ∈ pairs l₁ ++ pairs l₂, ∀ q ∈ pairs l₁ ++ pairs l₂,
        node p.1 p.2 = node q.1 q.2 → p = q := by
      intro p hp q hq
      refine hinj p ?_ q ?_
      · simp only [List.mem_append] at hp ⊢; tauto
      · simp only [List.mem_append] at hq ⊢; tauto
    have hup : pairUp node l₁ = pairUp node l₂ := by
      refine ih fuel₁ fuel₂ (by omega) (by omega) (by omega) (by omega) ?_ ?_ ?_ hroot
      · exact nodup_pairUp hnodup₁ fun p hp q hq =>
          here p (List.mem_append_left _ hp) q (List.mem_append_left _ hq)
      · exact nodup_pairUp hnodup₂ fun p hp q hq =>
          here p (List.mem_append_right _ hp) q (List.mem_append_right _ hq)
      · intro p hp q hq
        refine hinj p ?_ q ?_
        · simp only [List.mem_append] at hp ⊢; tauto
        · simp only [List.mem_append] at hq ⊢; tauto
    refine pairs_inj_of_nodup hnodup₁ hnodup₂ (eq_of_map_eq (fun p hp q hq => ?_) hup)
    exact here p (List.mem_append_left _ hp) q (List.mem_append_right _ hq)

/-- **Between lists of one height without repeats the root identifies the leaves**, unless two
pairs that were hashed collide. -/
theorem root_inj_of_nodup (hheight : Nat.clog 2 l₁.length = Nat.clog 2 l₂.length)
    (h₁ : l₁.Nodup) (h₂ : l₂.Nodup)
    (hinj : ∀ p ∈ hashed node l₁ ++ hashed node l₂, ∀ q ∈ hashed node l₁ ++ hashed node l₂,
      node p.1 p.2 = node q.1 q.2 → p = q) (hroot : root node l₁ = root node l₂) : l₁ = l₂ :=
  collapse_inj_of_nodup _ _ _ hheight rfl (Nat.le_refl _) (Nat.le_refl _) h₁ h₂ hinj hroot

end MiningInfra.Lib.Merkle
