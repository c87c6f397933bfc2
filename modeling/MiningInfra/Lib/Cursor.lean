import Mathlib.Data.List.Basic

/-!
# Cursor code and decoders

A hand-written parser keeps a cursor into a byte slice and moves it with machine
arithmetic: `Cursor`, whose machine also records every move, loop iteration and
reservation. What it is meant to do is consume the bytes from the front: a
`Decoder`. Both are monads, so a parser reads in the order of its source.
-/

namespace MiningInfra.Lib

/-- How a piece of code ends. -/
inductive Outcome (ε α : Type) where
  | ok (a : α)
  | err (e : ε)
  | panic
  deriving DecidableEq, Repr

def Outcome.isPanic {ε α : Type} : Outcome ε α → Bool
  | .panic => true
  | _ => false

theorem Outcome.isPanic_iff {ε α : Type} {o : Outcome ε α} : o.isPanic = true ↔ o = .panic := by
  cases o <;> simp [isPanic]

namespace Outcome

instance {ε : Type} : Monad (Outcome ε) where
  pure := .ok
  bind o f := match o with
    | .ok a => f a
    | .err e => .err e
    | .panic => .panic

def failIf {ε : Type} (c : Prop) [Decidable c] (e : ε) : Outcome ε Unit :=
  if c then .err e else .ok ()

def mapErr {ε ε' α : Type} (f : ε → ε') : Outcome ε α → Outcome ε' α
  | .ok a => .ok a
  | .err e => .err (f e)
  | .panic => .panic

/-- `ok_or`. -/
def ofOption {ε α : Type} (e : ε) : Option α → Outcome ε α
  | none => .err e
  | some a => .ok a

theorem ofOption_eq_ok {ε α : Type} {e : ε} {o : Option α} {a : α} :
    ofOption e o = .ok a ↔ o = some a := by
  cases o <;> simp [ofOption]

theorem bind_eq_ok {ε α β : Type} {o : Outcome ε α} {f : α → Outcome ε β} {b : β} :
    (o >>= f) = .ok b ↔ ∃ a, o = .ok a ∧ f a = .ok b := by
  cases o <;> simp [bind]

theorem failIf_eq_ok {ε : Type} {c : Prop} [Decidable c] {e : ε} {u : Unit} :
    failIf c e = .ok u ↔ ¬ c := by
  unfold failIf
  split <;> simp [*]

theorem mapErr_eq_ok {ε ε' α : Type} {f : ε → ε'} {o : Outcome ε α} {a : α} :
    o.mapErr f = .ok a ↔ o = .ok a := by
  cases o <;> simp [mapErr]

end Outcome

/-- The cursor, and what the code did so far. -/
structure Machine where
  cursor : Nat
  /-- Every move of the cursor, from and to. -/
  moves : List (Nat × Nat)
  /-- Loop iterations begun. -/
  iterations : Nat
  /-- Element counts for which memory was reserved ahead. -/
  capacities : List Nat
  deriving DecidableEq, Repr

def Machine.init : Machine := ⟨0, [], 0, []⟩

def Cursor (ε α : Type) := Machine → Outcome ε α × Machine

def Decoder (α : Type) := List UInt8 → Option (α × List UInt8)

variable {ε α β : Type}

instance : Monad (Cursor ε) where
  pure a := fun m => (.ok a, m)
  bind x f := fun m => match x m with
    | (.ok a, m') => f a m'
    | (.err e, m') => (.err e, m')
    | (.panic, m') => (.panic, m')

instance : Monad Decoder where
  pure a := fun bs => some (a, bs)
  bind d f := fun bs => (d bs).bind fun r => f r.1 r.2

/-- `isize::MAX`, the most bytes a slice or an allocation may have. -/
def isizeMax : Nat := 9223372036854775807

/-- A byte slice. -/
structure Slice where
  bytes : List UInt8
  fits : bytes.length ≤ isizeMax

/-- Addition of two `usize`. -/
def addUsize (a b : Nat) : Nat := (a + b) % UInt64.size

namespace Cursor

def fail (e : ε) : Cursor ε α := fun m => (.err e, m)

def panic : Cursor ε α := fun m => (.panic, m)

/-- A check that ends the code early. -/
def failIf (c : Prop) [Decidable c] (e : ε) : Cursor ε Unit := if c then fail e else pure ()

def position : Cursor ε Nat := fun m => (.ok m.cursor, m)

/-- `cursor += n`. -/
def advance (n : Nat) : Cursor ε Unit := fun m =>
  (.ok (), { m with
    cursor := addUsize m.cursor n
    moves := (m.cursor, addUsize m.cursor n) :: m.moves })

/-- Begin a loop iteration. -/
def tick : Cursor ε Unit := fun m => (.ok (), { m with iterations := m.iterations + 1 })

/-- `Vec::with_capacity`: more than `isize::MAX` bytes is a panic. -/
def reserve (count size : Nat) : Cursor ε Unit := fun m =>
  if count * size ≤ isizeMax then (.ok (), { m with capacities := count :: m.capacities })
  else (.panic, m)

def iteration (x : Cursor ε α) : Cursor ε α := do
  tick
  x

/-- `for _ in 0..count`, collecting the results. -/
def times : Nat → Cursor ε α → Cursor ε (List α)
  | 0, _ => pure []
  | count + 1, x => do
    let a ← iteration x
    let as ← times count x
    pure (a :: as)

def mapErr {ε' : Type} (f : ε → ε') (x : Cursor ε α) : Cursor ε' α := fun m =>
  ((x m).1.mapErr f, (x m).2)

/-- `data[i]`. -/
def byteAt (data : List UInt8) (i : Nat) : Cursor ε UInt8 :=
  match data[i]? with
  | some b => pure b
  | none => panic

/-- `data[start..stop]`. -/
def slice (data : List UInt8) (start stop : Nat) : Cursor ε (List UInt8) :=
  if start ≤ stop ∧ stop ≤ data.length then pure ((data.drop start).take (stop - start))
  else panic

/-- Check that `n` bytes are left, slice them off and move past them. -/
def takeBytes (data : List UInt8) (n : Nat) (error : Nat → ε) : Cursor ε (List UInt8) := do
  let cursor ← position
  failIf (data.length < addUsize cursor n) (error cursor)
  let result ← slice data cursor (addUsize cursor n)
  advance n
  pure result

/-- Check that `n` bytes are left and move past them without a look. -/
def skipBytes (data : List UInt8) (n : Nat) (error : ε) : Cursor ε Unit := do
  let cursor ← position
  failIf (data.length < addUsize cursor n) error
  advance n

end Cursor

namespace Decoder

def fail : Decoder α := fun _ => none

def failIf (c : Prop) [Decidable c] : Decoder Unit := if c then fail else pure ()

/-- The number of bytes ahead. -/
def remaining : Decoder Nat := fun bs => some (bs.length, bs)

def bytes (n : Nat) : Decoder (List UInt8) := fun bs =>
  if n ≤ bs.length then some (bs.take n, bs.drop n) else none

def times : Nat → Decoder α → Decoder (List α)
  | 0, _ => pure []
  | count + 1, d => do
    let a ← d
    let as ← times count d
    pure (a :: as)

/-- Consume without a result. -/
def void (d : Decoder α) : Decoder Unit := do
  let _ ← d
  pure ()

end Decoder

/-! ## Running the monads -/

variable {m m' : Machine} {bs rest : List UInt8} {b : β} {u : Unit} {c : Prop}
  {p : List UInt8 → Prop} {n count : Nat} {d : Decoder α} {f : α → Cursor ε β} {x : Cursor ε α}
  {a : α}

theorem Cursor.bind_ok (h : x m = (.ok a, m')) : (x >>= f) m = f a m' := by
  show (match x m with | (.ok a, m') => f a m' | (.err e, m') => _ | (.panic, m') => _) = _
  rw [h]

theorem Cursor.bind_err {e : ε} (h : x m = (.err e, m')) : (x >>= f) m = (.err e, m') := by
  show (match x m with | (.ok a, m') => f a m' | (.err e, m') => _ | (.panic, m') => _) = _
  rw [h]

theorem Cursor.bind_panic (h : x m = (.panic, m')) : (x >>= f) m = (.panic, m') := by
  show (match x m with | (.ok a, m') => f a m' | (.err e, m') => _ | (.panic, m') => _) = _
  rw [h]

theorem Decoder.bind_run (d : Decoder α) (f : α → Decoder β) (bs : List UInt8) :
    (d >>= f) bs = (d bs).bind fun r => f r.1 r.2 := rfl

theorem Decoder.pure_run (a : α) (bs : List UInt8) : (pure a : Decoder α) bs = some (a, bs) := rfl

theorem Decoder.unique {rest' : List UInt8} {a' : α} (h : d bs = some (a, rest))
    (h' : d bs = some (a', rest')) : a = a' ∧ rest = rest' := by
  rw [h] at h'
  injection h' with h'
  injection h' with ha hrest
  exact ⟨ha, hrest⟩

theorem Decoder.bind_eq_some {f : α → Decoder β} (h : (d >>= f) bs = some (b, rest)) :
    ∃ a mid, d bs = some (a, mid) ∧ f a mid = some (b, rest) := by
  obtain ⟨⟨a, mid⟩, hd, hf⟩ := Option.bind_eq_some_iff.mp h
  exact ⟨a, mid, hd, hf⟩

theorem Decoder.bind_eq_some_iff {f : α → Decoder β} :
    (d >>= f) bs = some (b, rest) ↔ ∃ a mid, d bs = some (a, mid) ∧ f a mid = some (b, rest) := by
  refine ⟨bind_eq_some, ?_⟩
  rintro ⟨a, mid, hd, hf⟩
  rw [bind_run, hd]
  exact hf

/-- What holds after two steps, step by step. -/
theorem Decoder.forall_bind {f : α → Decoder β} {p : β → List UInt8 → Prop} :
    (∀ b rest, (d >>= f) bs = some (b, rest) → p b rest) ↔
      ∀ a mid, d bs = some (a, mid) → ∀ b rest, f a mid = some (b, rest) → p b rest := by
  simp only [bind_eq_some_iff, forall_exists_index, and_imp]
  exact ⟨fun h a mid ha b rest => h b rest a mid ha, fun h b rest a mid ha => h a mid ha b rest⟩

theorem Decoder.bind_assoc (d : Decoder α) (f : α → Decoder β) {γ : Type} (g : β → Decoder γ) :
    (d >>= f) >>= g = d >>= fun a => f a >>= g :=
  funext fun bs => Option.bind_assoc (d bs) _ _

theorem Decoder.void_unit (d : Decoder Unit) : (d >>= fun _ => pure ()) = d :=
  funext fun bs => Option.bind_fun_some (d bs)

theorem Decoder.void_bind (d : Decoder α) (f : Unit → Decoder β) :
    d.void >>= f = d >>= fun _ => f () := Decoder.bind_assoc d _ f

theorem Decoder.void_eq_some : d.void bs = some (u, rest) ↔ ∃ a, d bs = some (a, rest) := by
  simp [void, bind_eq_some_iff, pure_run]

theorem Decoder.void_eq_none (h : d.void bs = none) : d bs = none := by
  cases hd : d bs with
  | none => rfl
  | some r => exact absurd h (by simp [void, bind_run, hd, pure_run])

theorem Decoder.pure_bind (a : α) (f : α → Decoder β) : (pure a : Decoder α) >>= f = f a := rfl

theorem Decoder.pure_eq_some {b : α} (h : (pure a : Decoder α) bs = some (b, rest)) :
    a = b ∧ bs = rest := by
  injection h with h
  injection h with ha hrest
  exact ⟨ha, hrest⟩

theorem Decoder.map_eq_some {f : α → β} (h : (d >>= fun a => pure (f a)) bs = some (b, rest)) :
    ∃ a, d bs = some (a, rest) ∧ f a = b := by
  obtain ⟨a, mid, hd, hpure⟩ := bind_eq_some h
  obtain ⟨hb, rfl⟩ := pure_eq_some hpure
  exact ⟨a, hd, hb⟩

theorem Decoder.times_succ {as : List α} : Decoder.times (count + 1) d bs = some (as, rest) ↔
      ∃ a mid tail, d bs = some (a, mid) ∧ Decoder.times count d mid = some (tail, rest)
        ∧ as = a :: tail := by
  simp only [times, bind_eq_some_iff, pure_run, Option.some.injEq, Prod.mk.injEq]
  constructor
  · rintro ⟨a, mid, hd, tail, rest', htail, rfl, rfl⟩
    exact ⟨a, mid, tail, hd, htail, rfl⟩
  · rintro ⟨a, mid, tail, hd, htail, rfl⟩
    exact ⟨a, mid, hd, tail, rest, htail, rfl, rfl⟩

/-- Items that decode one after the other decode as a list. -/
theorem Decoder.times_flatMap {encode : α → List UInt8} :
    ∀ {as : List α}, (∀ a ∈ as, ∀ bs, d (encode a ++ bs) = some (a, bs)) →
      Decoder.times as.length d (as.flatMap encode ++ rest) = some (as, rest) := by
  intro as
  induction as with
  | nil => intro _; rfl
  | cons a as ih =>
    intro h
    refine times_succ.mpr ⟨a, as.flatMap encode ++ rest, as, ?_, ?_, rfl⟩
    · rw [List.flatMap_cons, List.append_assoc]
      exact h a List.mem_cons_self _
    · exact ih fun b hb => h b (List.mem_cons_of_mem _ hb)

/-- A loop without results consumes what the loop consumes. -/
theorem Decoder.times_void_eq_some :
    ∀ {bs : List UInt8}, (∃ us, Decoder.times count d.void bs = some (us, rest))
      ↔ ∃ as, Decoder.times count d bs = some (as, rest) := by
  induction count with
  | zero => intro bs; simp [times, pure_run]
  | succ count ih =>
    intro bs
    constructor
    · rintro ⟨us, h⟩
      obtain ⟨u, mid, us', hd, hus, -⟩ := times_succ.mp h
      obtain ⟨a, hd⟩ := void_eq_some.mp hd
      obtain ⟨as, has⟩ := ih.mp ⟨us', hus⟩
      exact ⟨a :: as, times_succ.mpr ⟨a, mid, as, hd, has, rfl⟩⟩
    · rintro ⟨as, h⟩
      obtain ⟨a, mid, as', hd, has, -⟩ := times_succ.mp h
      obtain ⟨us, hus⟩ := ih.mpr ⟨as', has⟩
      exact ⟨() :: us, times_succ.mpr ⟨(), mid, us, void_eq_some.mpr ⟨a, hd⟩, hus, rfl⟩⟩

/-- Items that take at least `width` bytes each. -/
theorem Decoder.length_times {width : Nat}
    (hd : ∀ bs a rest, d bs = some (a, rest) → rest.length + width ≤ bs.length) :
    ∀ {bs rest : List UInt8} {as : List α}, Decoder.times count d bs = some (as, rest) →
      rest.length + count * width ≤ bs.length := by
  induction count with
  | zero =>
    intro bs rest as h
    obtain ⟨-, rfl⟩ := pure_eq_some h
    omega
  | succ count ih =>
    intro bs rest as h
    obtain ⟨a, mid, tail, ha, htail, -⟩ := times_succ.mp h
    have h₁ := hd bs a mid ha
    have h₂ := ih htail
    rw [Nat.succ_mul]
    omega

/-- A loop that ran to its end found an item wherever it stood before. -/
theorem Decoder.times_item {k : Nat} :
    ∀ {count : Nat} {bs mid rest : List UInt8} {as bs' : List α}, k < count →
      Decoder.times count d bs = some (as, rest) → Decoder.times k d bs = some (bs', mid) →
      ∃ a after, d mid = some (a, after) := by
  induction k with
  | zero =>
    intro count bs mid rest as bs' hk hall hpre
    obtain ⟨-, rfl⟩ := pure_eq_some hpre
    obtain ⟨n, rfl⟩ := Nat.exists_eq_add_of_lt hk
    rw [Nat.zero_add] at hall
    obtain ⟨a, after, -, ha, -⟩ := times_succ.mp hall
    exact ⟨a, after, ha⟩
  | succ k ih =>
    intro count bs mid rest as bs' hk hall hpre
    cases count with
    | zero => exact absurd hk (by omega)
    | succ count =>
      obtain ⟨a, b₁, tail, ha, htail, -⟩ := times_succ.mp hall
      obtain ⟨a', b₁', tail', ha', htail', -⟩ := times_succ.mp hpre
      obtain ⟨-, rfl⟩ := Decoder.unique ha ha'
      exact ih (by omega) htail htail'

theorem Decoder.failIf_eq_some [Decidable c] (h : Decoder.failIf c bs = some (u, rest)) :
    ¬ c ∧ bs = rest := by
  unfold failIf at h
  split at h
  · exact absurd h (by simp [fail])
  · exact ⟨‹_›, (pure_eq_some h).2⟩

theorem Decoder.failIf_neg [Decidable c] (h : ¬ c) (bs : List UInt8) :
    Decoder.failIf c bs = some ((), bs) := by
  rw [failIf, if_neg h]
  rfl

/-- Quantifying over what `pure` returns. -/
theorem Decoder.forall_pure {p : α → List UInt8 → Prop} :
    (∀ b rest, (pure a : Decoder α) bs = some (b, rest) → p b rest) ↔ p a bs := by
  refine ⟨fun h => h a bs rfl, fun h b rest hpure => ?_⟩
  obtain ⟨rfl, rfl⟩ := pure_eq_some hpure
  exact h

theorem Decoder.forall_void :
    (∀ u rest, d.void bs = some (u, rest) → p rest) ↔ ∀ a rest, d bs = some (a, rest) → p rest := by
  simp only [void_eq_some]
  exact ⟨fun h a rest hd => h () rest ⟨a, hd⟩, fun h _ rest ⟨a, hd⟩ => h a rest hd⟩

theorem Decoder.forall_times_void :
    (∀ us rest, Decoder.times count d.void bs = some (us, rest) → p rest)
      ↔ ∀ as rest, Decoder.times count d bs = some (as, rest) → p rest := by
  constructor
  · intro h as rest has
    obtain ⟨us, hus⟩ := times_void_eq_some.mpr ⟨as, has⟩
    exact h us rest hus
  · intro h us rest hus
    obtain ⟨as, has⟩ := times_void_eq_some.mp ⟨us, hus⟩
    exact h as rest has

theorem Decoder.forall_failIf [Decidable c] {p : Unit → List UInt8 → Prop} :
    (∀ u rest, failIf c bs = some (u, rest) → p u rest) ↔ (¬ c → p () bs) := by
  by_cases hc : c
  · simp [failIf, hc, fail]
  · rw [failIf, if_neg hc, forall_pure]
    exact ⟨fun h _ => h, fun h => h hc⟩

/-! ## Machine words -/

theorem addUsize_of_lt {a b : Nat} (h : a + b < UInt64.size) : addUsize a b = a + b :=
  Nat.mod_eq_of_lt h

theorem addUsize_of_ge {a b : Nat} (ha : a < UInt64.size) (hb : b < UInt64.size)
    (h : UInt64.size ≤ a + b) : addUsize a b = a + b - UInt64.size := by
  unfold addUsize
  rw [Nat.mod_eq_sub_mod h, Nat.mod_eq_of_lt (by omega)]

/-! ## Taking bytes -/

theorem Cursor.takeBytes_run (data : List UInt8) (n : Nat) (error : Nat → ε) (m : Machine) :
    takeBytes data n error m
      = if data.length < addUsize m.cursor n then (.err (error m.cursor), m)
        else if m.cursor ≤ addUsize m.cursor n then
          (.ok ((data.drop m.cursor).take (addUsize m.cursor n - m.cursor)), { m with
            cursor := addUsize m.cursor n
            moves := (m.cursor, addUsize m.cursor n) :: m.moves })
        else (.panic, m) := by
  by_cases hend : data.length < addUsize m.cursor n
  · rw [if_pos hend]
    simp [takeBytes, bind, position, failIf, hend, fail]
  · rw [if_neg hend]
    by_cases hstart : m.cursor ≤ addUsize m.cursor n
    · rw [if_pos hstart]
      simp [takeBytes, bind, pure, position, failIf, hend, slice, hstart,
        Nat.le_of_not_lt hend, advance]
    · rw [if_neg hstart]
      simp [takeBytes, bind, pure, position, failIf, hend, slice, hstart, panic]

theorem Cursor.skipBytes_run (data : List UInt8) (n : Nat) (error : ε) (m : Machine) :
    skipBytes data n error m
      = if data.length < addUsize m.cursor n then (.err error, m)
        else (.ok (), { m with
          cursor := addUsize m.cursor n
          moves := (m.cursor, addUsize m.cursor n) :: m.moves }) := by
  by_cases hend : data.length < addUsize m.cursor n
  · rw [if_pos hend]
    simp [skipBytes, bind, position, failIf, hend, fail]
  · rw [if_neg hend]
    simp [skipBytes, bind, pure, position, failIf, hend, advance]

theorem Decoder.bytes_eq_some {v : List UInt8} (h : Decoder.bytes n bs = some (v, rest)) :
    n ≤ bs.length ∧ v = bs.take n ∧ rest = bs.drop n := by
  unfold Decoder.bytes at h
  split at h
  · rename_i hle
    injection h with h
    injection h with hv hrest
    exact ⟨hle, hv.symm, hrest.symm⟩
  · cases h

/-- Two fields side by side are one field. -/
theorem Decoder.bytes_add_bind (m n : Nat) (k : Decoder β) :
    (bytes (m + n) >>= fun _ => k) = bytes m >>= fun _ => bytes n >>= fun _ => k := by
  funext bs
  simp only [bind_run, bytes]
  by_cases hm : m ≤ bs.length
  · by_cases hn : m + n ≤ bs.length
    · have : n ≤ bs.length - m := by omega
      simp [hm, hn, this, List.drop_drop]
    · have : ¬ n ≤ bs.length - m := by omega
      simp [hm, hn, this]
  · have hn : ¬ m + n ≤ bs.length := by omega
    simp [hm, hn]

theorem Decoder.bytes_append (v rest : List UInt8) :
    Decoder.bytes v.length (v ++ rest) = some (v, rest) := by
  simp [bytes]

theorem Decoder.bytes_eq_none (h : Decoder.bytes n bs = none) : bs.length < n := by
  by_contra hle
  rw [Decoder.bytes, if_pos (Nat.le_of_not_lt hle)] at h
  cases h

end MiningInfra.Lib
