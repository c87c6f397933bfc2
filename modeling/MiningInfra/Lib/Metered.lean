import MiningInfra.Lib.Checked
import MiningInfra.Lib.Results

/-!
# Readers whose memory is counted

A reader that allocates what a length in its input asks for, before it has seen the bytes. Here it
runs on a tape with a meter. `Meters` compares it with a reader without memory: the two give the
same answer on every input, nothing panics, and the memory is paid for by the bytes that were read,
up to a *fee* where the code returns and a *debt* where it fails. A loop whose body has no fee has
no fee either, and the debt of one body, however often it runs.
-/

namespace MiningInfra.Lib

variable {ε α β : Type}

/-- The bytes ahead, and the bytes allocated so far. -/
structure Tape where
  rest : List UInt8
  allocated : Nat

def Metered (ε α : Type) := Tape → Outcome ε α × Tape

/-- A reader without memory. -/
abbrev Reading (ε α : Type) := StateT (List UInt8) (Except ε) α

def Reading.readExact (n : Nat) (short : ε) : Reading ε (List UInt8) := fun rest =>
  if rest.length < n then .error short else .ok (rest.take n, rest.drop n)

namespace Metered

instance : Monad (Metered ε) where
  pure a := fun t => (.ok a, t)
  bind x f := fun t => match x t with
    | (.ok a, t') => f a t'
    | (.err e, t') => (.err e, t')
    | (.panic, t') => (.panic, t')

/-- The value of an error is allocated too. -/
def fail (errorBytes : Nat) (e : ε) : Metered ε α := fun t =>
  (.err e, { t with allocated := t.allocated + errorBytes })

def failIf (errorBytes : Nat) (c : Prop) [Decidable c] (e : ε) : Metered ε Unit :=
  if c then fail errorBytes e else pure ()

/-- Memory for `count` elements of `size` bytes. More than `isize::MAX` bytes panics. -/
def allocate (count size : Nat) : Metered ε Unit := fun t =>
  if count * size ≤ isizeMax then (.ok (), { t with allocated := t.allocated + count * size })
  else (.panic, t)

/-- `read_exact` into a buffer that is there. -/
def readExact (errorBytes n : Nat) (short : ε) : Metered ε (List UInt8) := fun t =>
  if t.rest.length < n then (.err short, { t with allocated := t.allocated + errorBytes })
  else (.ok (t.rest.take n), { t with rest := t.rest.drop n })

variable {x : Metered ε α} {f : α → Metered ε β} {t t' : Tape}

theorem bind_ok {a : α} (h : x t = (.ok a, t')) : (x >>= f) t = f a t' := by
  show (match x t with | (.ok a, t') => f a t' | (.err e, t') => _ | (.panic, t') => _) = _
  rw [h]

theorem bind_err {e : ε} (h : x t = (.err e, t')) : (x >>= f) t = (.err e, t') := by
  show (match x t with | (.ok a, t') => f a t' | (.err e, t') => _ | (.panic, t') => _) = _
  rw [h]

end Metered

/-- The code gives the answer of the reader, and what it allocates is paid for by what it reads,
up to a fee where it returns and a debt where it fails. -/
def Meters (fee debt : Nat) (x : Metered ε α) (r : Reading ε α) : Prop :=
  ∀ t, (∃ a t', x t = (.ok a, t') ∧ r t.rest = .ok (a, t'.rest) ∧
      t'.allocated + t'.rest.length ≤ t.allocated + t.rest.length + fee) ∨
    ∃ e t', x t = (.err e, t') ∧ r t.rest = .error e ∧
      t'.allocated ≤ t.allocated + t.rest.length + debt

namespace Meters

theorem ret (debt : Nat) (a : α) : Meters 0 debt (pure a : Metered ε α) (pure a) :=
  fun t => .inl ⟨a, t, rfl, rfl, Nat.le_refl _⟩

variable {fee debt errorBytes : Nat} {x : Metered ε α} {r : Reading ε α}

theorem mono {fee' debt' : Nat} (h : Meters fee debt x r) (hfee : fee ≤ fee')
    (hdebt : debt ≤ debt') : Meters fee' debt' x r := by
  intro t
  rcases h t with ⟨a, t', hx, hr, hle⟩ | ⟨e, t', hx, hr, hle⟩
  · exact .inl ⟨a, t', hx, hr, by omega⟩
  · exact .inr ⟨e, t', hx, hr, by omega⟩

/-- A step without a fee. -/
theorem bind {first : Nat} {f : α → Metered ε β} {g : α → Reading ε β} (hx : Meters 0 first x r)
    (hf : ∀ a, Meters fee debt (f a) (g a)) (hfirst : first ≤ debt) :
    Meters fee debt (x >>= f) (r >>= g) := by
  intro t
  have hrun : (r >>= g) t.rest = (r t.rest >>= fun p => g p.1 p.2) := rfl
  rcases hx t with ⟨a, t₁, hx₁, hr₁, hle₁⟩ | ⟨e, t₁, hx₁, hr₁, hle₁⟩
  · rw [hrun, hr₁, Metered.bind_ok hx₁]
    rcases hf a t₁ with ⟨b, t₂, hx₂, hr₂, hle₂⟩ | ⟨e, t₂, hx₂, hr₂, hle₂⟩
    · exact .inl ⟨b, t₂, hx₂, hr₂, by omega⟩
    · exact .inr ⟨e, t₂, hx₂, hr₂, by omega⟩
  · rw [hrun, hr₁, Metered.bind_err hx₁]
    exact .inr ⟨e, t₁, rfl, rfl, by omega⟩

/-- A check. The reader without memory goes on only where it passes. -/
theorem guard {c : Prop} [Decidable c] {e : ε} {x : Metered ε β} {k : PUnit → Reading ε β}
    {r : Reading ε β} (h : ¬ c → Meters fee debt x r) (hdebt : errorBytes ≤ debt) :
    Meters fee debt (Metered.failIf errorBytes c e >>= fun _ => x)
      (if c then (throw e : Reading ε PUnit) >>= k else r) := by
  intro t
  by_cases hc : c
  · refine .inr ⟨e, { t with allocated := t.allocated + errorBytes }, ?_, by rw [if_pos hc]; rfl,
      ?_⟩
    · rw [Metered.failIf, if_pos hc]
      rfl
    · show t.allocated + errorBytes ≤ _
      omega
  · rw [if_neg hc]
    have hpass : Metered.failIf errorBytes c e t = (.ok (), t) := by
      rw [Metered.failIf, if_neg hc]
      rfl
    rw [Metered.bind_ok hpass]
    exact h hc t

/-- Memory ahead of the bytes is a fee. -/
theorem allocate {count size reserve : Nat} {x : Metered ε β} {r : Reading ε β}
    (hreserve : count * size ≤ reserve) (hfits : reserve ≤ isizeMax) (h : Meters fee debt x r) :
    Meters (reserve + fee) (reserve + debt) (Metered.allocate count size >>= fun _ => x) r := by
  intro t
  have hrun : (Metered.allocate count size : Metered ε Unit) t =
      (.ok (), { t with allocated := t.allocated + count * size }) :=
    if_pos (Nat.le_trans hreserve hfits)
  rw [Metered.bind_ok hrun]
  rcases h { t with allocated := t.allocated + count * size } with
    ⟨a, t', hx, hr, hle⟩ | ⟨e, t', hx, hr, hle⟩
  · exact .inl ⟨a, t', hx, hr, by dsimp only at hle; omega⟩
  · exact .inr ⟨e, t', hx, hr, by dsimp only at hle; omega⟩

theorem map (f : α → β) (h : Meters fee debt x r) :
    Meters fee debt (x >>= fun a => pure (f a)) (f <$> r) := by
  intro t
  have hrun : (f <$> r) t.rest = (r t.rest >>= fun p => pure (f p.1, p.2)) := by
    show (r t.rest).map (fun p => (f p.1, p.2)) = _
    cases r t.rest <;> rfl
  rcases h t with ⟨a, t', hx, hr, hle⟩ | ⟨e, t', hx, hr, hle⟩
  · rw [hrun, hr, Metered.bind_ok hx]
    exact .inl ⟨f a, t', rfl, rfl, hle⟩
  · rw [hrun, hr, Metered.bind_err hx]
    exact .inr ⟨e, t', rfl, rfl, hle⟩

theorem readExact (errorBytes n : Nat) (short : ε) :
    Meters 0 errorBytes (Metered.readExact errorBytes n short) (Reading.readExact n short) := by
  intro t
  by_cases hshort : t.rest.length < n
  · refine .inr ⟨short, { t with allocated := t.allocated + errorBytes }, if_pos hshort,
      if_pos hshort, ?_⟩
    show t.allocated + errorBytes ≤ _
    omega
  · refine .inl ⟨_, { t with rest := t.rest.drop n }, if_neg hshort, if_neg hshort, ?_⟩
    show t.allocated + (t.rest.drop n).length ≤ _
    rw [List.length_drop]
    omega

/-- A buffer that is filled is paid for by the bytes in it. -/
theorem buffer {n : Nat} (hfits : n ≤ isizeMax) (short : ε) :
    Meters 0 (n + errorBytes)
      (Metered.allocate n 1 >>= fun _ => Metered.readExact errorBytes n short)
      (Reading.readExact n short) := by
  intro t
  have hrun : (Metered.allocate n 1 : Metered ε Unit) t =
      (.ok (), { t with allocated := t.allocated + n }) := by
    rw [Metered.allocate, Nat.mul_one, if_pos hfits]
  rw [Metered.bind_ok hrun]
  by_cases hshort : t.rest.length < n
  · refine .inr ⟨short, { t with allocated := t.allocated + n + errorBytes }, if_pos hshort,
      if_pos hshort, ?_⟩
    show t.allocated + n + errorBytes ≤ _
    omega
  · refine .inl ⟨_, { t with rest := t.rest.drop n, allocated := t.allocated + n }, if_neg hshort,
      if_neg hshort, ?_⟩
    show t.allocated + n + (t.rest.drop n).length ≤ _
    rw [List.length_drop]
    omega

end Meters

/-! ## More bytes behind -/

/-- What a reader returned it returns with more bytes behind, which it leaves there. -/
def Stable (r : Reading ε α) : Prop :=
  ∀ ⦃bs rest : List UInt8⦄ ⦃a : α⦄, r bs = .ok (a, rest) →
    ∀ more, r (bs ++ more) = .ok (a, rest ++ more)

namespace Stable

theorem ret (a : α) : Stable (pure a : Reading ε α) := by
  intro bs rest b h more
  cases h
  rfl

variable {r : Reading ε α}

theorem bind {g : α → Reading ε β} (hr : Stable r) (hg : ∀ a, Stable (g a)) : Stable (r >>= g) := by
  intro bs rest b h more
  have hrun : ∀ bs, (r >>= g) bs = (r bs >>= fun p => g p.1 p.2) := fun _ => rfl
  rw [hrun] at h
  obtain ⟨p, hp, hnext⟩ := Results.bind_eq_ok.mp h
  rw [hrun, hr hp more]
  exact hg p.1 hnext more

theorem map (f : α → β) (hr : Stable r) : Stable (f <$> r) := by
  intro bs rest b h more
  have hrun : ∀ bs, (f <$> r) bs = (r bs).map (fun p => (f p.1, p.2)) := fun _ => rfl
  rw [hrun] at h
  obtain ⟨p, hp, hpair⟩ := Results.map_eq_ok.mp h
  obtain ⟨rfl, rfl⟩ := Prod.mk.inj hpair
  rw [hrun, hr hp more]
  rfl

theorem guard {c : Prop} [Decidable c] {e : ε} {k : PUnit → Reading ε β} {r : Reading ε β}
    (h : Stable r) : Stable (if c then (throw e : Reading ε PUnit) >>= k else r) := by
  split
  · intro bs rest b hthrow
    cases hthrow
  · exact h

theorem readExact (n : Nat) (short : ε) : Stable (Reading.readExact n short) := by
  intro bs rest a h more
  unfold Reading.readExact at h ⊢
  split at h
  · cases h
  · rename_i hlong
    obtain ⟨rfl, rfl⟩ := Prod.mk.inj (Except.ok.inj h)
    have hle : n ≤ bs.length := Nat.not_lt.mp hlong
    rw [if_neg (by rw [List.length_append]; omega), List.take_append_of_le_length hle,
      List.drop_append_of_le_length hle]

/-- A reader that uses all the bytes fails on any proper beginning of them. -/
theorem not_ok_of_append (h : Stable r) {bs more rest : List UInt8} {a b : α}
    (hall : r (bs ++ more) = .ok (a, [])) (hmore : more ≠ []) : r bs ≠ .ok (b, rest) := by
  intro hok
  have hlong := h hok more
  rw [hall] at hlong
  have hnil : ([] : List UInt8) = rest ++ more := (Prod.mk.inj (Except.ok.inj hlong)).2
  exact hmore (List.append_eq_nil_iff.mp hnil.symm).2

end Stable

end MiningInfra.Lib
