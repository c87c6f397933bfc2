import Mathlib.Logic.Basic

/-!
# Reachability under a discipline

A system is a partial step function on states and events. `Reach next ok start`
is the set of states it reaches from a start state by steps whose event meets the
discipline `ok` in the state it is taken in. With `ok` always true this is plain
reachability, so one relation states both what every run does and what every
*disciplined* run does.
-/

namespace MiningInfra.Lib

variable {σ ε : Type}

/-- States reached by disciplined steps. -/
inductive Reach (next : σ → ε → Option σ) (ok : σ → ε → Prop) (start : σ → Prop) : σ → Prop where
  | init {s : σ} : start s → Reach next ok start s
  | tail {s s' : σ} {e : ε} : Reach next ok start s → ok s e → next s e = some s' →
      Reach next ok start s'

/-- The discipline that allows every step. -/
def Any : σ → ε → Prop := fun _ _ => True

variable {next : σ → ε → Option σ} {ok : σ → ε → Prop} {start : σ → Prop}

variable {I : σ → Prop} {s : σ} {test : σ → ε → Bool} {p : σ → Bool}

/-- **The invariant rule.** What holds at the start and survives every disciplined step
holds in every state reached. -/
theorem Reach.invariant (hinit : ∀ s, start s → I s)
    (hstep : ∀ s e s', I s → ok s e → next s e = some s' → I s') (h : Reach next ok start s) :
    I s := by
  induction h with
  | init hs => exact hinit _ hs
  | tail _ hok hnext ih => exact hstep _ _ _ ih hok hnext

/-- A weaker discipline reaches at least as much. -/
theorem Reach.mono {ok' : σ → ε → Prop} (himp : ∀ s e, ok s e → ok' s e)
    (h : Reach next ok start s) : Reach next ok' start s := by
  induction h with
  | init hs => exact .init hs
  | tail _ hok hnext ih => exact .tail ih (himp _ _ hok) hnext

/-- What is reached from a reached state is reached. -/
theorem Reach.trans {s' : σ} (h : Reach next ok start s) (h' : Reach next ok (Eq s) s') :
    Reach next ok start s' := by
  induction h' with
  | init hs => exact hs ▸ h
  | tail _ hok hnext ih => exact .tail ih hok hnext

/-- Run a list of events, each of which must pass the test. -/
def exec (next : σ → ε → Option σ) (test : σ → ε → Bool) : σ → List ε → Option σ
  | s, [] => some s
  | s, e :: es => if test s e then (next s e).bind fun s' => exec next test s' es else none

/-- An executed list of events is a disciplined run. -/
theorem Reach.of_exec (htest : ∀ s e, test s e = true → ok s e) :
    ∀ (es : List ε) {s s' : σ}, Reach next ok start s → exec next test s es = some s' →
      Reach next ok start s'
  | [], s, s', h, he => by rw [exec] at he; injection he with he; exact he ▸ h
  | e :: es, s, s', h, he => by
    rw [exec] at he
    split at he
    · rename_i ht
      obtain ⟨s₁, h₁, h₂⟩ := Option.bind_eq_some_iff.mp he
      exact Reach.of_exec htest es (.tail h (htest s e ht) h₁) h₂
    · cases he

/-- A predicate that can be tested after an executed run holds of a state reached. -/
theorem Reach.exists_of_exec (test : σ → ε → Bool) (htest : ∀ s e, test s e = true → ok s e) (s : σ)
    (hs : start s) (es : List ε) (h : (exec next test s es).any p = true) :
    ∃ s', Reach next ok start s' ∧ p s' = true := by
  cases he : exec next test s es with
  | none => rw [he] at h; simp at h
  | some s' =>
    rw [he] at h
    exact ⟨s', Reach.of_exec htest es (.init hs) he, by simpa using h⟩

/-- Where every step is allowed, an event has no test to pass. -/
theorem Reach.any_of_exec (s : σ) (hs : start s) (es : List ε)
    (h : (exec next (fun _ _ => true) s es).any p = true) :
    ∃ s', Reach next Any start s' ∧ p s' = true :=
  exists_of_exec _ (fun _ _ _ => trivial) s hs es h

/-- What every event of a run preserves holds at its end. -/
theorem exec_invariant :
    ∀ (es : List ε) {s s' : σ}, (∀ e ∈ es, ∀ s s', I s → next s e = some s' → I s') → I s →
      exec next test s es = some s' → I s'
  | [], s, s', _, hs, he => by rw [exec] at he; injection he with he; exact he ▸ hs
  | e :: es, s, s', hstep, hs, he => by
    rw [exec] at he
    split at he
    · obtain ⟨s₁, h₁, h₂⟩ := Option.bind_eq_some_iff.mp he
      exact exec_invariant es (fun e he => hstep e (List.mem_cons_of_mem _ he))
        (hstep e List.mem_cons_self s s₁ hs h₁) h₂
    · cases he

/-- **The ranking rule.** A run is no longer than the rank of the state it begins in, if every
step leads to a state of lower rank. A state may have several ranks. -/
theorem exec_length_le {R : σ → Nat → Prop}
    (hstep : ∀ s k e s', R s k → next s e = some s' → ∃ k', k' < k ∧ R s' k') :
    ∀ (es : List ε) {s s' : σ} {k : Nat}, R s k → exec next test s es = some s' → es.length ≤ k
  | [], _, _, _, _, _ => Nat.zero_le _
  | e :: es, s, s', k, hk, he => by
    rw [exec] at he
    split at he
    · obtain ⟨s₁, h₁, h₂⟩ := Option.bind_eq_some_iff.mp he
      obtain ⟨k₁, hlt, hk₁⟩ := hstep s k e s₁ hk h₁
      have := exec_length_le hstep es hk₁ h₂
      rw [List.length_cons]
      omega
    · cases he

/-! ## Guarded steps -/

section

variable {α : Type} {c : Prop} [Decidable c] {a b : α}

/-- A step with a guard was taken, so the guard holds. -/
theorem of_guard (h : (if c then some a else none) = some b) : c ∧ a = b :=
  (Option.ite_none_right_eq_some.mp h).imp_right Option.some.inj

/-- A step that a guard stands against. -/
theorem of_guard_not (h : (if c then none else some a) = some b) : ¬ c ∧ a = b :=
  (Option.ite_none_left_eq_some.mp h).imp_right Option.some.inj

end

end MiningInfra.Lib
