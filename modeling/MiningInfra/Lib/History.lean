import Mathlib.Logic.Basic

/-!
# Histories

A history is a list of entries, newest first. `Backed` says that each entry holds of the history
it was added to; `Renewed` says that the newest entry of one kind is not older than the newest of
another, so that of two entries of the second kind the later one came after an entry of the first.
-/

namespace MiningInfra.Lib

variable {α : Type} {P : α → List α → Prop} {history : List α} {e : α}

/-- Each entry holds of what came before it. -/
def Backed (P : α → List α → Prop) : List α → Prop
  | [] => True
  | e :: history => P e history ∧ Backed P history

/-- No entry with `stop` since the last one with `renew`. -/
def Renewed (renew stop : α → Prop) : List α → Prop
  | [] => True
  | e :: history => renew e ∨ ¬ stop e ∧ Renewed renew stop history

theorem Backed.holds {earlier : List α} :
    ∀ {later : List α}, Backed P (later ++ e :: earlier) → P e earlier
  | [], h => h.1
  | _ :: _, h => Backed.holds h.2

theorem Backed.append (h : Backed P history) :
    ∀ {new : List α}, (∀ e ∈ new, ∀ before, P e before) → Backed P (new ++ history)
  | [], _ => h
  | e :: _, hnew => ⟨hnew e List.mem_cons_self _,
      h.append fun e' he' => hnew e' (List.mem_cons_of_mem _ he')⟩

theorem Renewed.append {renew stop : α → Prop} (h : Renewed renew stop history) :
    ∀ {new : List α}, (∀ e ∈ new, ¬ stop e) → Renewed renew stop (new ++ history)
  | [], _ => h
  | e :: _, hnew => Or.inr ⟨hnew e List.mem_cons_self,
      h.append fun e' he' => hnew e' (List.mem_cons_of_mem _ he')⟩

/-- After an entry that stops, only one that renews can have put things right. -/
theorem Renewed.between {renew stop : α → Prop} {older : List α} (hstop : stop e)
    (hrenew : ¬ renew e) :
    ∀ {mid : List α}, Renewed renew stop (mid ++ e :: older) → ∃ x ∈ mid, renew x
  | [], h => by
    rcases h with h | ⟨h, -⟩
    · exact absurd h hrenew
    · exact absurd hstop h
  | x :: mid, h => by
    rcases h with h | ⟨-, h⟩
    · exact ⟨x, List.mem_cons_self, h⟩
    · obtain ⟨y, hy, hrenews⟩ := Renewed.between hstop hrenew h
      exact ⟨y, List.mem_cons_of_mem _ hy, hrenews⟩

end MiningInfra.Lib
