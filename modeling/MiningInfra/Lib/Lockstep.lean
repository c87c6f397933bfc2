import MiningInfra.Lib.Reach

/-!
# Two runs side by side

A property of two runs of a system is a property of the pairs of states they are in. In a turn
both runs see the same event, or one of them has an event of its own; an event a run is not ready
for passes it by. `Reach.related` is the rule for such properties: a symmetric relation that holds
at the start, that the common turns keep and that an event of one run alone keeps, holds of every
pair.

Code that can fail is compared by `Outcomes`, which follows the binds of the code.
-/

namespace MiningInfra.Lib

variable {σ ε : Type}

inductive Turn (ε : Type) where
  | both (e : ε)
  | left (e : ε)
  | right (e : ε)

def advance (next : σ → ε → Option σ) (s : σ) (e : ε) : σ := (next s e).getD s

def pairNext (next : σ → ε → Option σ) (st : σ × σ) : Turn ε → Option (σ × σ)
  | .both e => some (advance next st.1 e, advance next st.2 e)
  | .left e => some (advance next st.1 e, st.2)
  | .right e => some (st.1, advance next st.2 e)

/-- The discipline of two runs: which events they may share, and which one may have alone. -/
def Paired (common : σ → σ → ε → Prop) (own : σ → ε → Prop) (st : σ × σ) : Turn ε → Prop
  | .both e => common st.1 st.2 e
  | .left e => own st.1 e
  | .right e => own st.2 e

def Twice (start : σ → Prop) (st : σ × σ) : Prop := start st.1 ∧ start st.2

variable {next : σ → ε → Option σ} {common : σ → σ → ε → Prop} {own : σ → ε → Prop}
  {start : σ → Prop}

theorem Paired.mono {own' : σ → ε → Prop} (himp : ∀ s e, own s e → own' s e) (st : σ × σ)
    (turn : Turn ε) (h : Paired common own st turn) : Paired common own' st turn := by
  cases turn with
  | both e => exact h
  | left e | right e => exact himp _ e h

/-- What holds before and after a step holds after an event. -/
theorem advance_induction {P : σ → Prop} {s : σ} {e : ε} (hs : P s)
    (hstep : ∀ s', next s e = some s' → P s') : P (advance next s e) := by
  unfold advance
  cases h : next s e with
  | none => exact hs
  | some s' => exact hstep s' h

/-- **The rule of two runs.** -/
theorem Reach.related {R : σ → σ → Prop} (hsymm : ∀ s t, R s t → R t s)
    (hstart : ∀ s t, start s → start t → R s t)
    (hboth : ∀ s t e, R s t → common s t e → R (advance next s e) (advance next t e))
    (hown : ∀ s t e s', R s t → own s e → next s e = some s' → R s' t) {st : σ × σ}
    (h : Reach (pairNext next) (Paired common own) (Twice start) st) : R st.1 st.2 := by
  refine h.invariant (I := fun st => R st.1 st.2) (fun st hst => hstart _ _ hst.1 hst.2) ?_
  intro st turn st' hR hok hnext
  cases turn with
  | both e =>
    obtain rfl := Option.some.inj hnext
    exact hboth _ _ e hR hok
  | left e =>
    obtain rfl := Option.some.inj hnext
    exact advance_induction (P := fun s => R s st.2) hR fun s' hs' => hown _ _ e s' hR hok hs'
  | right e =>
    obtain rfl := Option.some.inj hnext
    exact advance_induction (P := fun t => R st.1 t) hR fun t' ht' =>
      hsymm _ _ (hown _ _ e t' (hsymm _ _ hR) hok ht')

/-! ## Outcomes -/

/-- Both fail, or both succeed with related results. -/
inductive Outcomes {α β : Type} (R : α → β → Prop) : Except ε α → Except ε β → Prop where
  | error {e e' : ε} : Outcomes R (.error e) (.error e')
  | ok {a : α} {b : β} : R a b → Outcomes R (.ok a) (.ok b)

theorem Outcomes.refl {α : Type} (x : Except ε α) : Outcomes Eq x x := by
  cases x with
  | error e => exact .error
  | ok a => exact .ok rfl

theorem Outcomes.bind {α β γ δ : Type} {R : α → β → Prop} {S : γ → δ → Prop} {x : Except ε α}
    {y : Except ε β} {f : α → Except ε γ} {g : β → Except ε δ} (h : Outcomes R x y)
    (hfg : ∀ a b, R a b → Outcomes S (f a) (g b)) : Outcomes S (x >>= f) (y >>= g) := by
  cases h with
  | error => exact .error
  | ok hR => exact hfg _ _ hR

end MiningInfra.Lib
