import MiningInfra.Lib.Follows

/-!
# Code that walks over bytes

Two facts about cursor code whose moves are checked. `Passes` is about bytes one knows: the code
goes over exactly these, whatever follows. `Paid` is about bytes one does not know: every loop
iteration the code begins is paid for by a byte that it has moved past, up to a debt when it
fails. Both are put together along the code, and the debt grows by one with each loop that is
nested in another.
-/

namespace MiningInfra.Lib

variable {ε α β : Type}

namespace Cursor

/-- Take `n` bytes with `checked_add` and `get`, and move past them. -/
def takeChecked (data : List UInt8) (n : Nat) (overflow short : ε) : Cursor ε (List UInt8) := do
  let cursor ← position
  failIf (UInt64.size ≤ cursor + n) overflow
  failIf (data.length < cursor + n) short
  advance n
  pure ((data.drop cursor).take n)

def ofExcept : Except ε α → Cursor ε α
  | .ok a => pure a
  | .error e => fail e

/-- The code passes over `bytes` and returns `a`, whatever follows. -/
def Passes (data : List UInt8) (x : Cursor ε α) (bytes : List UInt8) (a : α) : Prop :=
  ∀ ⦃m rest⦄, m.At data (bytes ++ rest) → ∃ m', x m = (.ok a, m') ∧ m'.At data rest

/-- The iterations that were begun are paid for by the bytes that were passed: where the code
returns, `spare` bytes are left over; where it fails, at most `debt` iterations are not paid for by
all the bytes ahead. -/
def Paid (data : List UInt8) (spare debt : Nat) (x : Cursor ε α) : Prop :=
  ∀ m, m.cursor ≤ data.length →
    (∃ a m', x m = (.ok a, m') ∧ m.cursor ≤ m'.cursor ∧ m'.cursor ≤ data.length ∧
      m'.iterations + m.cursor + spare ≤ m.iterations + m'.cursor) ∨
    ∃ e m', x m = (.err e, m') ∧ m'.iterations + m.cursor ≤ m.iterations + data.length + debt

end Cursor

variable {data bs : List UInt8} {m : Machine}

theorem Machine.At.length_le (h : m.At data bs) : bs.length ≤ data.length := by
  obtain ⟨-, hlen⟩ := h.cursor_eq
  omega

namespace Cursor

theorem takeChecked_run (n : Nat) (overflow short : ε) (m : Machine) :
    takeChecked data n overflow short m =
      if UInt64.size ≤ m.cursor + n then (.err overflow, m)
      else if data.length < m.cursor + n then (.err short, m)
      else (.ok ((data.drop m.cursor).take n), { m with
        cursor := m.cursor + n
        moves := (m.cursor, m.cursor + n) :: m.moves }) := by
  by_cases hfits : UInt64.size ≤ m.cursor + n
  · rw [if_pos hfits]
    simp [takeChecked, bind, position, failIf, hfits, fail]
  · have hadd : addUsize m.cursor n = m.cursor + n := addUsize_of_lt (by omega)
    rw [if_neg hfits]
    by_cases hshort : data.length < m.cursor + n
    · rw [if_pos hshort]
      simp [takeChecked, bind, pure, position, failIf, hfits, hshort, fail]
    · rw [if_neg hshort]
      simp [takeChecked, bind, pure, position, failIf, hfits, hshort, advance, hadd]

variable {m' : Machine} {u : Unit} {f : α → Cursor ε β} {n : Nat} {γ : Type}

theorem bind_eq_ok {x : Cursor ε α} {b : β} (h : (x >>= f) m = (.ok b, m')) :
    ∃ a m₁, x m = (.ok a, m₁) ∧ f a m₁ = (.ok b, m') := by
  cases hr : x m with
  | mk o m₁ =>
    cases o with
    | ok a => exact ⟨a, m₁, rfl, (bind_ok hr).symm.trans h⟩
    | err e => exact absurd ((bind_err hr).symm.trans h) (by simp)
    | panic => exact absurd ((bind_panic hr).symm.trans h) (by simp)

theorem failIf_eq_ok {c : Prop} [Decidable c] {e : ε} (h : failIf c e m = (.ok u, m')) :
    ¬ c ∧ m' = m := by
  unfold failIf at h
  split at h
  · exact absurd h (by simp [fail])
  · rename_i hc
    exact ⟨hc, (Prod.mk.inj h).2.symm⟩

theorem ofExcept_eq_ok {r : Except ε α} {a : α} (h : ofExcept r m = (.ok a, m')) : m' = m := by
  cases r with
  | error e => exact absurd h (by simp [ofExcept, fail])
  | ok b => exact (Prod.mk.inj h).2.symm

theorem reserve_eq_ok {count size : Nat}
    (h : (reserve count size : Cursor ε Unit) m = (.ok u, m')) : m'.cursor = m.cursor := by
  unfold reserve at h
  split at h
  · rw [← (Prod.mk.inj h).2]
  · cases h

theorem bind_assoc (x : Cursor ε α) (f : α → Cursor ε β) (g : β → Cursor ε γ) :
    (x >>= f) >>= g = x >>= fun a => f a >>= g := by
  funext m
  cases hr : x m with
  | mk o m' =>
    cases o with
    | ok a =>
      rw [bind_ok hr]
      cases hf : f a m' with
      | mk o' m'' =>
        have hxf : (x >>= f) m = (o', m'') := (bind_ok hr).trans hf
        cases o' with
        | ok b => rw [bind_ok hxf, bind_ok hf]
        | err e => rw [bind_err hxf, bind_err hf]
        | panic => rw [bind_panic hxf, bind_panic hf]
    | err e => rw [bind_err hr, bind_err (bind_err hr)]
    | panic => rw [bind_panic hr, bind_panic (bind_panic hr)]

/-- What was taken is what was ahead. -/
theorem takeChecked_at {overflow short : ε} {v : List UInt8} (hat : m.At data bs)
    (h : takeChecked data n overflow short m = (.ok v, m')) :
    n ≤ bs.length ∧ v = bs.take n ∧ m'.At data (bs.drop n) := by
  obtain ⟨hcursor, hlen⟩ := hat.cursor_eq
  rw [takeChecked_run] at h
  split at h
  · cases h
  · split at h
    · cases h
    · obtain ⟨hv, rfl⟩ := Prod.mk.inj h
      have hle : n ≤ bs.length := by omega
      refine ⟨hle, ?_, by show m.cursor + n ≤ data.length; omega, hat.drop n⟩
      rw [← Outcome.ok.inj hv, hat.2]

/-! ## Bytes one knows -/

namespace Passes

theorem ret (a : α) : Passes data (pure a : Cursor ε α) [] a :=
  fun m _ hat => ⟨m, rfl, hat⟩

variable {x : Cursor ε α} {bytes' bytes : List UInt8} {a : α} {b : β}

theorem bind (hx : Passes data x bytes a) (hf : Passes data (f a) bytes' b) :
    Passes data (x >>= f) (bytes ++ bytes') b := by
  intro m rest hat
  rw [List.append_assoc] at hat
  obtain ⟨m₁, hrun₁, hat₁⟩ := hx hat
  obtain ⟨m₂, hrun₂, hat₂⟩ := hf hat₁
  exact ⟨m₂, (bind_ok hrun₁).trans hrun₂, hat₂⟩

theorem map {f : α → β} (hx : Passes data x bytes a) (hf : f a = b) :
    Passes data (x >>= fun a => pure (f a)) bytes b := by
  intro m rest hat
  obtain ⟨m', hrun, hat'⟩ := hx hat
  exact ⟨m', (bind_ok hrun).trans (by rw [hf]; rfl), hat'⟩

theorem congr (h : Passes data x bytes a) (heq : bytes' = bytes) : Passes data x bytes' a :=
  heq ▸ h

/-- What is passed fits into the data. -/
theorem of_length_le (h : bytes.length ≤ data.length → Passes data x bytes a) :
    Passes data x bytes a := by
  intro m rest hat
  have hle := hat.length_le
  rw [List.length_append] at hle
  exact h (by omega) hat

theorem takeChecked (hdata : data.length ≤ isizeMax) (hn : bytes.length = n) (overflow short : ε) :
    Passes data (Cursor.takeChecked data n overflow short) bytes bytes := by
  intro m rest hat
  subst hn
  have hsize : isizeMax < UInt64.size := by decide
  obtain ⟨hcursor, hlen⟩ := hat.cursor_eq
  rw [List.length_append] at hlen
  have htake : (data.drop m.cursor).take bytes.length = bytes := by
    rw [hat.2, List.take_left]
  have hdrop : data.drop (m.cursor + bytes.length) = rest := by
    rw [hat.drop, List.drop_left]
  have hend : m.cursor + bytes.length ≤ data.length := by omega
  refine ⟨{ m with
    cursor := m.cursor + bytes.length
    moves := (m.cursor, m.cursor + bytes.length) :: m.moves }, ?_, hend, hdrop⟩
  rw [takeChecked_run, if_neg (by omega), if_neg (by omega), htake]

/-- A loop over items that the body passes one by one. -/
theorem times {encode : γ → List UInt8} {result : γ → α} :
    ∀ {items : List γ}, (∀ item ∈ items, Passes data x (encode item) (result item)) →
      Passes data (Cursor.times items.length x) (items.flatMap encode) (items.map result) := by
  intro items
  induction items with
  | nil => exact fun _ => ret []
  | cons item items ih =>
    intro h
    have hfirst : Passes data (iteration x) (encode item) (result item) :=
      fun m rest hat => h item List.mem_cons_self
        (show Machine.At data { m with iterations := m.iterations + 1 } _ from hat)
    have hrest := ih fun other hmem => h other (List.mem_cons_of_mem _ hmem)
    have hall : Passes data
        (Cursor.times items.length x >>= fun as => pure (result item :: as))
        (items.flatMap encode ++ []) (result item :: items.map result) :=
      bind hrest (ret _)
    refine (hfirst.bind hall).congr ?_
    rw [List.append_nil, List.flatMap_cons]

end Passes

/-! ## Bytes one does not know -/

namespace Paid

theorem ret (a : α) : Paid data 0 0 (pure a : Cursor ε α) :=
  fun m hle => .inl ⟨a, m, rfl, Nat.le_refl _, hle, Nat.le_refl _⟩

theorem fail (spare : Nat) (e : ε) : Paid data spare 0 (Cursor.fail e : Cursor ε α) :=
  fun m hle => .inr ⟨e, m, rfl, by omega⟩

theorem failIf (c : Prop) [Decidable c] (e : ε) : Paid data 0 0 (Cursor.failIf c e) := by
  unfold Cursor.failIf
  split
  · exact fail 0 e
  · exact ret ()

theorem position : Paid data 0 0 (Cursor.position : Cursor ε Nat) :=
  fun m hle => .inl ⟨m.cursor, m, rfl, Nat.le_refl _, hle, Nat.le_refl _⟩

theorem takeChecked (n : Nat) (overflow short : ε) :
    Paid data n 0 (Cursor.takeChecked data n overflow short) := by
  intro m hle
  rw [takeChecked_run]
  split
  · exact .inr ⟨_, m, rfl, by omega⟩
  · split
    · exact .inr ⟨_, m, rfl, by omega⟩
    · refine .inl ⟨_, _, rfl, Nat.le_add_right _ _, ?_, ?_⟩
      · show m.cursor + n ≤ data.length
        omega
      · exact Nat.le_of_eq (Nat.add_assoc _ _ _)

variable {spare spare' debt : Nat} {x : Cursor ε α}

theorem mono {debt' : Nat} (h : Paid data spare debt x) (hspare : spare' ≤ spare)
    (hdebt : debt ≤ debt') : Paid data spare' debt' x := by
  intro m hle
  rcases h m hle with ⟨a, m', hrun, hge, hle', hpaid⟩ | ⟨e, m', hrun, hpaid⟩
  · exact .inl ⟨a, m', hrun, hge, hle', by omega⟩
  · exact .inr ⟨e, m', hrun, by omega⟩

theorem owing (h : Paid data spare debt x) : Paid data spare (debt + 1) x :=
  h.mono (Nat.le_refl _) (Nat.le_succ _)

/-- What one step leaves over pays for the next. -/
theorem bind (hx : Paid data spare debt x) (hf : ∀ a, Paid data spare' debt (f a)) :
    Paid data (spare + spare') debt (x >>= f) := by
  intro m hle
  rcases hx m hle with ⟨a, m₁, hrun₁, hge₁, hle₁, hpaid₁⟩ | ⟨e, m₁, hrun₁, hpaid₁⟩
  · rw [bind_ok hrun₁]
    rcases hf a m₁ hle₁ with ⟨b, m₂, hrun₂, hge₂, hle₂, hpaid₂⟩ | ⟨e, m₂, hrun₂, hpaid₂⟩
    · exact .inl ⟨b, m₂, hrun₂, by omega, hle₂, by omega⟩
    · exact .inr ⟨e, m₂, hrun₂, by omega⟩
  · exact .inr ⟨e, m₁, bind_err hrun₁, hpaid₁⟩

/-- A step that leaves nothing over. -/
theorem andThen (hx : Paid data 0 debt x) (hf : ∀ a, Paid data 0 debt (f a)) :
    Paid data 0 debt (x >>= f) :=
  hx.bind hf

/-- An iteration costs one of the bytes its body passes. -/
theorem iteration (hx : Paid data (spare + 1) debt x) : Paid data spare (debt + 1) x.iteration := by
  intro m hle
  have hrun : x.iteration m = x { m with iterations := m.iterations + 1 } := rfl
  rw [hrun]
  rcases hx { m with iterations := m.iterations + 1 } hle with
    ⟨a, m', h, hge, hle', hpaid⟩ | ⟨e, m', h, hpaid⟩
  · exact .inl ⟨a, m', h, hge, hle', by dsimp only at hpaid; omega⟩
  · exact .inr ⟨e, m', h, by dsimp only at hpaid; omega⟩

theorem times (hx : Paid data 1 debt x) (count : Nat) :
    Paid data 0 (debt + 1) (Cursor.times count x) := by
  induction count with
  | zero => exact (ret []).mono (Nat.le_refl _) (Nat.zero_le _)
  | succ count ih =>
    exact (iteration hx).bind fun a => ih.bind fun as =>
      (ret (a :: as)).mono (Nat.le_refl _) (Nat.zero_le _)

/-- A whole run: it returns, and began at most `debt` more iterations than there are bytes. -/
theorem iterations_le (h : Paid data spare debt x) (hm : m.cursor ≤ data.length)
    (hfresh : m.iterations = 0) : (x m).1 ≠ .panic ∧ (x m).2.iterations ≤ data.length + debt := by
  rcases h m hm with ⟨a, m', hrun, -, hle, hpaid⟩ | ⟨e, m', hrun, hpaid⟩
  · rw [hrun]
    exact ⟨by simp, by dsimp only; omega⟩
  · rw [hrun]
    exact ⟨by simp, by dsimp only; omega⟩

end Paid

end Cursor

end MiningInfra.Lib
