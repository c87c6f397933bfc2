import MiningInfra.Lib.Metered

/-!
# Reading what was written

`Reads r bs a`: at the front of any input, the reader `r` takes the bytes `bs` for `a` and leaves
what follows. Readers that run one after the other read the concatenation of what each of them
reads, so the round trip of a message is the composition of the round trips of its fields.
-/

namespace MiningInfra.Lib

variable {ε α β : Type}

/-- A check that ends the reading early. -/
def Reading.failIf (c : Prop) [Decidable c] (e : ε) : Reading ε Unit :=
  if c then throw e else pure ()

def Reads (r : Reading ε α) (bs : List UInt8) (a : α) : Prop :=
  ∀ rest, r (bs ++ rest) = .ok (a, rest)

namespace Reads

theorem ret (a : α) : Reads (pure a : Reading ε α) [] a := fun _ => rfl

variable {r : Reading ε α} {bs : List UInt8} {a : α}

/-- What follows a reader runs on what it left. -/
theorem run (hr : Reads r bs a) (g : α → Reading ε β) (rest : List UInt8) :
    (r >>= g) (bs ++ rest) = g a rest := by
  have hrun : (r >>= g) (bs ++ rest) = (r (bs ++ rest) >>= fun p => g p.1 p.2) := rfl
  rw [hrun, hr]
  rfl

theorem bind {g : α → Reading ε β} {cs : List UInt8} {b : β} (hr : Reads r bs a)
    (hg : Reads (g a) cs b) : Reads (r >>= g) (bs ++ cs) b := by
  intro rest
  rw [List.append_assoc, hr.run]
  exact hg rest

/-- A check that passes reads nothing. -/
theorem failIf {c : Prop} [Decidable c] {e : ε} (hc : ¬ c) : Reads (Reading.failIf c e) [] () := by
  rw [Reading.failIf, if_neg hc]
  exact ret ()

theorem map (f : α → β) (hr : Reads r bs a) : Reads (f <$> r) bs (f a) := by
  intro rest
  have hrun : (f <$> r) (bs ++ rest) = (r (bs ++ rest)).map fun p => (f p.1, p.2) := rfl
  rw [hrun, hr]
  rfl

theorem exact (bs : List UInt8) (short : ε) : Reads (Reading.readExact bs.length short) bs bs := by
  intro rest
  rw [Reading.readExact, if_neg (by simp), List.take_left, List.drop_left]

end Reads

end MiningInfra.Lib
