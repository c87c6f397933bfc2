/-!
# Results

When a computation that can fail returns a value.
-/

namespace MiningInfra.Lib.Results

variable {ε α β : Type}

variable {x : Except ε α} {f : α → Except ε β} {b : β}

theorem bind_eq_ok : (x >>= f) = .ok b ↔ ∃ a, x = .ok a ∧ f a = .ok b := by
  cases x <;> simp [bind, Except.bind]

theorem map_eq_ok {f : α → β} : x.map f = .ok b ↔ ∃ a, x = .ok a ∧ f a = b := by
  cases x <;> simp [Except.map]

theorem fmap_eq_ok {f : α → β} : f <$> x = .ok b ↔ ∃ a, x = .ok a ∧ f a = b := by
  rw [← map_eq_ok]
  rfl

/-- A step that fails unless its argument passes a test, run over a list. -/
theorem mapM_eq_ok {g : α → β} {P : α → Prop} (hok : ∀ a, P a → f a = .ok (g a))
    (herror : ∀ a b, f a = .ok b → P a) {l : List α} {r : List β} :
    l.mapM f = .ok r ↔ (∀ a ∈ l, P a) ∧ r = l.map g := by
  induction l generalizing r with
  | nil => simp [pure, Except.pure, eq_comm]
  | cons a l ih =>
    rw [List.mapM_cons, bind_eq_ok]
    constructor
    · rintro ⟨b, hb, h⟩
      obtain ⟨bs, hbs, h⟩ := bind_eq_ok.mp h
      obtain ⟨hall, rfl⟩ := ih.mp hbs
      have ha := herror a b hb
      obtain rfl := Except.ok.inj ((hok a ha).symm.trans hb)
      refine ⟨fun x hx => ?_, (Except.ok.inj h).symm⟩
      rcases List.mem_cons.mp hx with rfl | hx
      · exact ha
      · exact hall x hx
    · rintro ⟨hall, rfl⟩
      refine ⟨g a, hok a (hall a List.mem_cons_self), bind_eq_ok.mpr ⟨l.map g, ih.mpr ⟨?_, rfl⟩, rfl⟩⟩
      exact fun x hx => hall x (List.mem_cons_of_mem a hx)

end MiningInfra.Lib.Results
