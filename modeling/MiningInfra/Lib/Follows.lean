import MiningInfra.Lib.Cursor

/-!
# Cursor code that follows a decoder

`Follows` relates cursor code to the decoder it is meant to be. Code that follows a
decoder under a condition on the bytes ahead returns what the decoder returns, fails
where the decoder fails, keeps its cursor moving forward inside the slice and its
reservations small; and where the condition does not hold, it panics or leaves one of
these bounds.

The condition of a sequence of steps is put together from the conditions of the
steps (`Follows.bind`), and that of a counted loop from the condition of its body
(`Follows.times`). So for a whole parser `Follows` gives the exact set of inputs on
which it behaves (`Follows.bounded_iff`).
-/

namespace MiningInfra.Lib

variable {ε α β : Type}

/-! ## Code that follows a decoder -/

section Follows

variable (data : List UInt8) (limit : Nat)

/-- The cursor stands before the bytes `bs`. -/
def Machine.At (m : Machine) (bs : List UInt8) : Prop :=
  m.cursor ≤ data.length ∧ data.drop m.cursor = bs

/-- A move that goes forward and stays inside the slice. -/
def InStep (move : Nat × Nat) : Prop := move.1 ≤ move.2 ∧ move.2 ≤ data.length

/-- From `m` to `m'` the cursor was in step and the reservations were small. -/
structure Machine.Clean (m m' : Machine) : Prop where
  moves : ∀ move ∈ m'.moves, move ∈ m.moves ∨ InStep data move
  capacities : ∀ c ∈ m'.capacities, c ∈ m.capacities ∨ c ≤ limit

/-- The code panicked, or left one of its bounds on the way. -/
def Bad (r : Outcome ε α × Machine) : Prop :=
  r.1 = .panic ∨ (∃ move ∈ r.2.moves, ¬ InStep data move) ∨ ∃ c ∈ r.2.capacities, limit < c

/-- Code never forgets what it did. -/
def Cursor.Grows (x : Cursor ε α) : Prop :=
  ∀ m, m.moves ⊆ (x m).2.moves ∧ m.capacities ⊆ (x m).2.capacities

/-- Code without a loop. -/
def Cursor.Straight (x : Cursor ε α) : Prop := ∀ m, (x m).2.iterations = m.iterations

/-- **The code follows the decoder where the bytes ahead are safe, and only there.** -/
structure Follows (x : Cursor ε α) (d : Decoder α) (safe : List UInt8 → Prop) : Prop where
  grows : x.Grows
  ok : ∀ {m bs a rest}, m.At data bs → safe bs → d bs = some (a, rest) →
    ∃ m', x m = (.ok a, m') ∧ m'.At data rest ∧ m.Clean data limit m'
      ∧ m'.iterations + rest.length ≤ m.iterations + bs.length
  err : ∀ {m bs}, m.At data bs → safe bs → d bs = none →
    ∃ e m', x m = (.err e, m') ∧ m.Clean data limit m'
      ∧ m'.iterations ≤ m.iterations + bs.length + 1
  bad : ∀ {m bs}, m.At data bs → ¬ safe bs → Bad data limit (x m)

end Follows

variable {data : List UInt8} {limit : Nat}

theorem Machine.Clean.refl (m : Machine) : m.Clean data limit m := ⟨fun _ => .inl, fun _ => .inl⟩

theorem Machine.Clean.trans {m₁ m₂ m₃ : Machine} (h₁ : m₁.Clean data limit m₂)
    (h₂ : m₂.Clean data limit m₃) : m₁.Clean data limit m₃ := by
  constructor
  · intro move hmove
    rcases h₂.moves move hmove with hold | hnew
    · exact h₁.moves move hold
    · exact .inr hnew
  · intro c hc
    rcases h₂.capacities c hc with hold | hnew
    · exact h₁.capacities c hold
    · exact .inr hnew

variable {r : Outcome ε α × Machine} {x : Cursor ε α} {f : α → Cursor ε β} {m : Machine}
  {d : Decoder α} {s safe : List UInt8 → Prop} {bs : List UInt8} {n : Nat}

/-- What went wrong stays on record. -/
theorem Bad.mono {m' : Machine} {o : Outcome ε β} (h : Bad data limit r) (hnp : r.1 ≠ .panic)
    (hmoves : r.2.moves ⊆ m'.moves) (hcaps : r.2.capacities ⊆ m'.capacities) :
    Bad data limit (o, m') := by
  rcases h with hp | ⟨move, hmem, hmove⟩ | ⟨c, hmem, hc⟩
  · exact absurd hp hnp
  · exact .inr (.inl ⟨move, hmoves hmem, hmove⟩)
  · exact .inr (.inr ⟨c, hcaps hmem, hc⟩)

theorem Cursor.Grows.bind (hx : x.Grows) (hf : ∀ a, (f a).Grows) : (x >>= f).Grows := by
  intro m
  have h := hx m
  cases hr : x m with
  | mk o m' =>
    rw [hr] at h
    cases o with
    | ok a =>
      rw [bind_ok hr]
      exact ⟨List.Subset.trans h.1 (hf a m').1, List.Subset.trans h.2 (hf a m').2⟩
    | err e => rw [bind_err hr]; exact h
    | panic => rw [bind_panic hr]; exact h

theorem Cursor.Straight.bind (hx : x.Straight) (hf : ∀ a, (f a).Straight) : (x >>= f).Straight := by
  intro m
  have h := hx m
  cases hr : x m with
  | mk o m' =>
    rw [hr] at h
    cases o with
    | ok a => rw [bind_ok hr, hf a m']; exact h
    | err e => rw [bind_err hr]; exact h
    | panic => rw [bind_panic hr]; exact h

/-- A bad first step makes the sequence bad. -/
theorem Bad.bind (hf : ∀ a, (f a).Grows) (h : Bad data limit (x m)) :
    Bad data limit ((x >>= f) m) := by
  cases hr : x m with
  | mk o m' =>
    rw [hr] at h
    cases o with
    | ok a =>
      rw [Cursor.bind_ok hr]
      have hgrow := hf a m'
      exact h.mono (by simp) hgrow.1 hgrow.2
    | err e => rw [Cursor.bind_err hr]; exact h.mono (by simp) (fun _ h => h) fun _ h => h
    | panic => rw [Cursor.bind_panic hr]; exact .inl rfl

theorem Follows.ret (a : α) : Follows data limit (pure a : Cursor ε α) (pure a) fun _ => True where
  grows m := ⟨fun _ h => h, fun _ h => h⟩
  ok := by
    intro m bs a' rest hat _ hd
    obtain ⟨rfl, rfl⟩ := Decoder.pure_eq_some hd
    exact ⟨m, rfl, hat, .refl m, Nat.le_refl _⟩
  err := by intro m bs _ _ hd; exact absurd hd (by simp [Decoder.pure_run])
  bad := by intro m bs _ hs; exact absurd trivial hs

/-- **Sequencing.** The bytes are safe for two steps when they are safe for the first one and
what it leaves is safe for the second. -/
theorem Follows.bind {g : α → Decoder β} {t : α → List UInt8 → Prop} (hx : Follows data limit x d s)
    (hf : ∀ a, Follows data limit (f a) (g a) (t a)) :
    Follows data limit (x >>= f) (d >>= g)
      fun bs => s bs ∧ ∀ a rest, d bs = some (a, rest) → t a rest where
  grows := hx.grows.bind fun a => (hf a).grows
  ok := by
    intro m bs b rest hat hsafe hd
    obtain ⟨a, mid, hda, hdb⟩ := Decoder.bind_eq_some hd
    obtain ⟨m₁, hrun₁, hat₁, hclean₁, hit₁⟩ := hx.ok hat hsafe.1 hda
    obtain ⟨m₂, hrun₂, hat₂, hclean₂, hit₂⟩ := (hf a).ok hat₁ (hsafe.2 a mid hda) hdb
    refine ⟨m₂, ?_, hat₂, hclean₁.trans hclean₂, by omega⟩
    rw [Cursor.bind_ok hrun₁, hrun₂]
  err := by
    intro m bs hat hsafe hd
    cases hda : d bs with
    | none =>
      obtain ⟨e, m₁, hrun₁, hclean₁, hit₁⟩ := hx.err hat hsafe.1 hda
      exact ⟨e, m₁, Cursor.bind_err hrun₁, hclean₁, hit₁⟩
    | some r =>
      obtain ⟨a, mid⟩ := r
      have hdb : g a mid = none := by simpa [Decoder.bind_run, hda] using hd
      obtain ⟨m₁, hrun₁, hat₁, hclean₁, hit₁⟩ := hx.ok hat hsafe.1 hda
      obtain ⟨e, m₂, hrun₂, hclean₂, hit₂⟩ := (hf a).err hat₁ (hsafe.2 a mid hda) hdb
      refine ⟨e, m₂, ?_, hclean₁.trans hclean₂, by omega⟩
      rw [Cursor.bind_ok hrun₁, hrun₂]
  bad := by
    intro m bs hat hbad
    by_cases hs : s bs
    · -- the first step is fine and the second one is not
      have : ∃ a rest, d bs = some (a, rest) ∧ ¬ t a rest := by
        by_contra hall
        refine hbad ⟨hs, fun a rest hda => ?_⟩
        by_contra ht
        exact hall ⟨a, rest, hda, ht⟩
      obtain ⟨a, rest, hda, ht⟩ := this
      obtain ⟨m₁, hrun₁, hat₁, -, -⟩ := hx.ok hat hs hda
      rw [Cursor.bind_ok hrun₁]
      exact (hf a).bad hat₁ ht
    · exact (hx.bad hat hs).bind fun a => (hf a).grows

/-- The same code against an equal decoder and an equivalent condition. -/
theorem Follows.congr {d' : Decoder α} {s' : List UInt8 → Prop} (h : Follows data limit x d s)
    (hd : d' = d) (hs : ∀ bs, s' bs ↔ s bs) : Follows data limit x d' s' := by
  subst hd
  refine ⟨h.grows, ?_, ?_, ?_⟩
  · intro m bs a rest hat hsafe
    exact h.ok hat ((hs bs).mp hsafe)
  · intro m bs hat hsafe
    exact h.err hat ((hs bs).mp hsafe)
  · intro m bs hat hbad
    exact h.bad hat (fun hsafe => hbad ((hs bs).mpr hsafe))

/-- What the code returned is what the decoder returns. -/
theorem Follows.decoded {m' : Machine} {a : α} (h : Follows data limit x d fun _ => True)
    (hat : m.At data bs) (hrun : x m = (.ok a, m')) :
    ∃ rest, d bs = some (a, rest) ∧ m'.At data rest := by
  cases hd : d bs with
  | none =>
    obtain ⟨e, m₁, herr, -⟩ := h.err hat trivial hd
    exact absurd (herr.symm.trans hrun) (by simp)
  | some r =>
    obtain ⟨m₁, hok, hat₁, -⟩ := h.ok hat trivial hd
    obtain ⟨ha, rfl⟩ := Prod.mk.inj (hok.symm.trans hrun)
    exact ⟨r.2, by rw [← Outcome.ok.inj ha], hat₁⟩

/-- The texts of the errors do not matter. -/
theorem Follows.mapErr {ε' : Type} (h : Follows data limit x d s) (f : ε → ε') :
    Follows data limit (x.mapErr f) d s where
  grows m := h.grows m
  ok := by
    intro m bs a rest hat hsafe hd
    obtain ⟨m', hrun, hrest⟩ := h.ok hat hsafe hd
    exact ⟨m', by rw [Cursor.mapErr, hrun]; rfl, hrest⟩
  err := by
    intro m bs hat hsafe hd
    obtain ⟨e, m', hrun, hrest⟩ := h.err hat hsafe hd
    exact ⟨f e, m', by rw [Cursor.mapErr, hrun]; rfl, hrest⟩
  bad := by
    intro m bs hat hsafe
    refine (h.bad hat hsafe).imp_left fun hpanic => ?_
    rw [Cursor.mapErr, hpanic]
    rfl

theorem Follows.fail (e : ε) :
    Follows data limit (Cursor.fail e : Cursor ε α) Decoder.fail fun _ => True where
  grows m := ⟨fun _ h => h, fun _ h => h⟩
  ok := by intro m bs a rest _ _ hd; exact absurd hd (by simp [Decoder.fail])
  err := by intro m bs _ _ _; exact ⟨e, m, rfl, .refl m, by omega⟩
  bad := by intro m bs _ hs; exact absurd trivial hs

theorem Follows.failIf (c : Prop) [Decidable c] (e : ε) :
    Follows data limit (Cursor.failIf c e) (Decoder.failIf c) fun _ => True := by
  unfold Cursor.failIf Decoder.failIf
  split
  · exact Follows.fail e
  · exact Follows.ret ()

theorem Follows.position :
    Follows data limit (Cursor.position : Cursor ε Nat)
      (do let n ← Decoder.remaining; pure (data.length - n)) fun _ => True where
  grows m := ⟨fun _ h => h, fun _ h => h⟩
  ok := by
    intro m bs a rest hat _ hd
    obtain ⟨n, hn, rfl⟩ := Decoder.map_eq_some hd
    injection hn with hn
    injection hn with hlen hbs
    subst hlen hbs
    refine ⟨m, ?_, hat, .refl m, Nat.le_refl _⟩
    have hcursor : data.length - bs.length = m.cursor := by
      rw [← hat.2, List.length_drop]
      have := hat.1
      omega
    rw [hcursor]
    rfl
  err := by intro m bs _ _ hd; exact absurd hd (by simp [Decoder.bind_run, Decoder.remaining, Decoder.pure_run])
  bad := by intro m bs _ hs; exact absurd trivial hs

theorem Follows.reserve (count size : Nat) :
    Follows data limit (Cursor.reserve count size : Cursor ε Unit) (pure ())
      fun _ => count * size ≤ isizeMax ∧ count ≤ limit where
  grows m := by
    unfold Cursor.reserve
    split
    · exact ⟨fun _ h => h, fun _ h => List.mem_cons_of_mem _ h⟩
    · exact ⟨fun _ h => h, fun _ h => h⟩
  ok := by
    intro m bs a rest hat hsafe hd
    obtain ⟨rfl, rfl⟩ := Decoder.pure_eq_some hd
    refine ⟨{ m with capacities := count :: m.capacities }, ?_, hat, ⟨fun _ => .inl, ?_⟩, Nat.le_refl _⟩
    · rw [Cursor.reserve, if_pos hsafe.1]
    · intro c hc
      rcases List.mem_cons.mp hc with rfl | hold
      · exact .inr hsafe.2
      · exact .inl hold
  err := by intro m bs _ _ hd; exact absurd hd (by simp [Decoder.pure_run])
  bad := by
    intro m bs _ hbad
    unfold Cursor.reserve
    split
    · rename_i hfits
      refine .inr (.inr ⟨count, List.mem_cons_self, ?_⟩)
      exact Nat.lt_of_not_le fun hle => hbad ⟨hfits, hle⟩
    · exact .inl rfl

section

variable (hx : Follows data limit x d s) (hstraight : x.Straight)
  (hshrink : ∀ bs a rest, d bs = some (a, rest) → rest.length < bs.length)

include hx hstraight hshrink

/-- One iteration of a loop whose body consumes something. -/
theorem Follows.iteration : Follows data limit x.iteration d s := by
  have hrun : ∀ m, x.iteration m = x { m with iterations := m.iterations + 1 } := fun _ => rfl
  refine ⟨fun m => ?_, ?_, ?_, ?_⟩
  · exact hx.grows { m with iterations := m.iterations + 1 }
  · intro m bs a rest hat hsafe hd
    obtain ⟨m', hm', hat', hclean, -⟩ :=
      hx.ok (m := { m with iterations := m.iterations + 1 }) hat hsafe hd
    have hit := hstraight { m with iterations := m.iterations + 1 }
    have hlt := hshrink bs a rest hd
    rw [hm'] at hit
    simp only at hit
    exact ⟨m', by rw [hrun, hm'], hat', { hclean with }, by omega⟩
  · intro m bs hat hsafe hd
    obtain ⟨e, m', hm', hclean, -⟩ :=
      hx.err (m := { m with iterations := m.iterations + 1 }) hat hsafe hd
    have hit := hstraight { m with iterations := m.iterations + 1 }
    rw [hm'] at hit
    simp only at hit
    exact ⟨e, m', by rw [hrun, hm'], { hclean with }, by omega⟩
  · intro m bs hat hbad
    rw [hrun]
    exact hx.bad (m := { m with iterations := m.iterations + 1 }) hat hbad

/-- **A counted loop.** The bytes are safe for the loop when they are safe for each iteration
it gets to. -/
theorem Follows.times (count : Nat) :
    Follows data limit (Cursor.times count x) (Decoder.times count d)
      fun bs => ∀ k < count, ∀ as rest, Decoder.times k d bs = some (as, rest) → s rest := by
  induction count with
  | zero => exact (Follows.ret []).congr rfl (by simp)
  | succ count ih =>
    refine ((hx.iteration hstraight hshrink).bind fun a => ih.bind fun as =>
      Follows.ret (a :: as)).congr rfl fun bs => ?_
    constructor
    · intro h
      refine ⟨h 0 (by omega) [] bs rfl, fun a mid hd => ⟨fun k hk as rest hk' => ?_, by simp⟩⟩
      refine h (k + 1) (by omega) (a :: as) rest ?_
      simp [Decoder.times, Decoder.bind_run, Decoder.pure_run, hd, hk']
    · rintro ⟨h0, hrest⟩ k hk as rest hk'
      cases k with
      | zero =>
        simp only [Decoder.times, Decoder.pure_run, Option.some.injEq, Prod.mk.injEq] at hk'
        exact hk'.2 ▸ h0
      | succ k =>
        obtain ⟨a, mid, hd, hmid⟩ := Decoder.bind_eq_some hk'
        obtain ⟨as', hk'', -⟩ := Decoder.map_eq_some hmid
        exact (hrest a mid hd).1 k (by omega) as' rest hk''

end

/-! ## Fields of a given length -/

/-- The offset of the bytes ahead in the slice. -/
def offset (data bs : List UInt8) : Nat := data.length - bs.length

theorem Machine.At.cursor_eq (h : m.At data bs) :
    m.cursor = offset data bs ∧ offset data bs + bs.length = data.length := by
  have hlen : bs.length = data.length - m.cursor := by rw [← h.2, List.length_drop]
  have hle := h.1
  unfold offset
  omega

theorem Machine.At.drop (h : m.At data bs) (n : Nat) : data.drop (m.cursor + n) = bs.drop n := by
  rw [← h.2, List.drop_drop]

/-- A move of the cursor past `n` of the bytes ahead. -/
theorem Machine.At.forward (h : m.At data bs) (limit : Nat) (hn : n ≤ bs.length) :
    let m' : Machine := { m with
      cursor := m.cursor + n, moves := (m.cursor, m.cursor + n) :: m.moves }
    m'.At data (bs.drop n) ∧ m.Clean data limit m'
      ∧ m'.iterations + (bs.drop n).length ≤ m.iterations + bs.length := by
  obtain ⟨hcursor, hlen⟩ := h.cursor_eq
  have hle : m.cursor + n ≤ data.length := by omega
  refine ⟨⟨hle, h.drop n⟩, ⟨?_, fun _ => .inl⟩, ?_⟩
  · intro move hmove
    rcases List.mem_cons.mp hmove with rfl | hold
    · exact .inr ⟨Nat.le_add_right _ _, hle⟩
    · exact .inl hold
  · rw [List.length_drop]
    show m.iterations + _ ≤ _
    omega

theorem Cursor.takeBytes_straight (n : Nat) (error : Nat → ε) :
    (Cursor.takeBytes data n error).Straight := by
  intro m
  rw [Cursor.takeBytes_run]
  split
  · rfl
  · split <;> rfl

theorem Cursor.skipBytes_straight (n : Nat) (error : ε) :
    (Cursor.skipBytes data n error).Straight := by
  intro m
  rw [Cursor.skipBytes_run]
  split <;> rfl

section

variable (hdata : data.length ≤ isizeMax)

include hdata

/-- **Taking bytes** follows the decoder as long as the end of the field is a machine word.
Past that the sum wraps below the cursor, passes the check, and the slice panics. -/
theorem Follows.takeBytes (hn : n < UInt64.size) (error : Nat → ε) :
    Follows data limit (Cursor.takeBytes data n error) (Decoder.bytes n)
      fun bs => offset data bs + n < UInt64.size where
  grows m := by
    rw [Cursor.takeBytes_run]
    split
    · exact ⟨fun _ h => h, fun _ h => h⟩
    · split
      · exact ⟨fun _ h => List.mem_cons_of_mem _ h, fun _ h => h⟩
      · exact ⟨fun _ h => h, fun _ h => h⟩
  ok := by
    intro m bs v rest hat hsafe hd
    obtain ⟨hcursor, hlen⟩ := hat.cursor_eq
    obtain ⟨hle, rfl, rfl⟩ := Decoder.bytes_eq_some hd
    have hadd : addUsize m.cursor n = m.cursor + n := addUsize_of_lt (by omega)
    refine ⟨_, ?_, hat.forward limit hle⟩
    rw [Cursor.takeBytes_run, hadd, if_neg (by omega), if_pos (by omega), hat.2,
      Nat.add_sub_cancel_left]
  err := by
    intro m bs hat hsafe hd
    obtain ⟨hcursor, hlen⟩ := hat.cursor_eq
    have hshort := Decoder.bytes_eq_none hd
    have hadd : addUsize m.cursor n = m.cursor + n := addUsize_of_lt (by omega)
    refine ⟨error m.cursor, m, ?_, .refl m, by omega⟩
    rw [Cursor.takeBytes_run, hadd, if_pos (by omega)]
  bad := by
    intro m bs hat hbad
    obtain ⟨hcursor, hlen⟩ := hat.cursor_eq
    have hsmall : isizeMax < UInt64.size := by decide
    have hadd : addUsize m.cursor n = m.cursor + n - UInt64.size :=
      addUsize_of_ge (by omega) hn (by omega)
    refine .inl ?_
    rw [Cursor.takeBytes_run, hadd, if_neg (by omega), if_neg (by omega)]

/-- **Skipping bytes** is bad in another way where the sum wraps: the cursor goes back. -/
theorem Follows.skipBytes (hn : n < UInt64.size) (error : ε) :
    Follows data limit (Cursor.skipBytes data n error) (Decoder.bytes n).void
      fun bs => offset data bs + n < UInt64.size where
  grows m := by
    rw [Cursor.skipBytes_run]
    split
    · exact ⟨fun _ h => h, fun _ h => h⟩
    · exact ⟨fun _ h => List.mem_cons_of_mem _ h, fun _ h => h⟩
  ok := by
    intro m bs v rest hat hsafe hd
    obtain ⟨hcursor, hlen⟩ := hat.cursor_eq
    obtain ⟨raw, hraw⟩ := Decoder.void_eq_some.mp hd
    obtain ⟨hle, -, rfl⟩ := Decoder.bytes_eq_some hraw
    have hadd : addUsize m.cursor n = m.cursor + n := addUsize_of_lt (by omega)
    refine ⟨_, ?_, hat.forward limit hle⟩
    rw [Cursor.skipBytes_run, hadd, if_neg (by omega)]
  err := by
    intro m bs hat hsafe hd
    obtain ⟨hcursor, hlen⟩ := hat.cursor_eq
    have hshort := Decoder.bytes_eq_none (Decoder.void_eq_none hd)
    have hadd : addUsize m.cursor n = m.cursor + n := addUsize_of_lt (by omega)
    refine ⟨error, m, ?_, .refl m, by omega⟩
    rw [Cursor.skipBytes_run, hadd, if_pos (by omega)]
  bad := by
    intro m bs hat hbad
    obtain ⟨hcursor, hlen⟩ := hat.cursor_eq
    have hsmall : isizeMax < UInt64.size := by decide
    have hadd : addUsize m.cursor n = m.cursor + n - UInt64.size :=
      addUsize_of_ge (by omega) hn (by omega)
    refine .inr (.inl ⟨(m.cursor, m.cursor + n - UInt64.size), ?_, ?_⟩)
    · rw [Cursor.skipBytes_run, hadd, if_neg (by omega)]
      exact List.mem_cons_self
    · intro hstep
      have : m.cursor ≤ m.cursor + n - UInt64.size := hstep.1
      omega

/-- A short field cannot wrap: the slice ends long before the machine words do. -/
theorem offset_add_lt (bs : List UInt8) (hn : n ≤ isizeMax) : offset data bs + n < UInt64.size := by
  have hsize : isizeMax + isizeMax < UInt64.size := by decide
  unfold offset
  omega

theorem Follows.takeShort (hn : n ≤ isizeMax) (error : Nat → ε) :
    Follows data limit (Cursor.takeBytes data n error) (Decoder.bytes n) fun _ => True := by
  have hsize : isizeMax < UInt64.size := by decide
  exact (Follows.takeBytes hdata (by omega) error).congr rfl
    fun bs => iff_of_true trivial (offset_add_lt hdata bs hn)

theorem Follows.skipShort (hn : n ≤ isizeMax) (error : ε) :
    Follows data limit (Cursor.skipBytes data n error) (Decoder.bytes n).void fun _ => True := by
  have hsize : isizeMax < UInt64.size := by decide
  exact (Follows.skipBytes hdata (by omega) error).congr rfl
    fun bs => iff_of_true trivial (offset_add_lt hdata bs hn)

end

/-! ## Whole runs -/

/-- What a run of a parser may do. -/
structure Bounded (data : List UInt8) (limit : Nat) (r : Outcome ε α × Machine) : Prop where
  returns : r.1 ≠ .panic
  moves : ∀ move ∈ r.2.moves, InStep data move
  iterations : r.2.iterations ≤ limit
  capacities : ∀ c ∈ r.2.capacities, c ≤ limit

theorem Bad.not_bounded (h : Bad data limit r) : ¬ Bounded data limit r := by
  intro hb
  rcases h with hp | ⟨move, hmem, hmove⟩ | ⟨c, hmem, hc⟩
  · exact hb.returns hp
  · exact hmove (hb.moves move hmem)
  · exact absurd (hb.capacities c hmem) (by omega)

/-- **Code that follows a decoder is bounded exactly where the bytes are safe.** It starts
anywhere in the slice, with a machine that did nothing wrong so far. -/
theorem Follows.bounded_iff (h : Follows data limit x d safe) (hat : m.At data bs)
    (hmoves : ∀ move ∈ m.moves, InStep data move) (hiterations : m.iterations = 0)
    (hcapacities : m.capacities = []) (hlimit : data.length + 1 ≤ limit) :
    Bounded data limit (x m) ↔ safe bs := by
  constructor
  · intro hb
    by_contra hbad
    exact (h.bad hat hbad).not_bounded hb
  · intro hsafe
    obtain ⟨-, hlen⟩ := hat.cursor_eq
    have clean : ∀ {m'}, m.Clean data limit m' →
        (∀ move ∈ m'.moves, InStep data move) ∧ ∀ c ∈ m'.capacities, c ≤ limit := by
      intro m' hclean
      refine ⟨fun move hmove => (hclean.moves move hmove).elim (hmoves move) id, fun c hc => ?_⟩
      rcases hclean.capacities c hc with hold | hsmall
      · rw [hcapacities] at hold
        cases hold
      · exact hsmall
    cases hd : d bs with
    | some r =>
      obtain ⟨a, rest⟩ := r
      obtain ⟨m', hrun, -, hclean, hit⟩ := h.ok hat hsafe hd
      rw [hrun]
      refine ⟨by simp, (clean hclean).1, ?_, (clean hclean).2⟩
      show m'.iterations ≤ limit
      omega
    | none =>
      obtain ⟨e, m', hrun, hclean, hit⟩ := h.err hat hsafe hd
      rw [hrun]
      refine ⟨by simp, (clean hclean).1, ?_, (clean hclean).2⟩
      show m'.iterations ≤ limit
      omega

/-! ## Code that can only panic -/

/-- What the machine has on record is in bounds. -/
structure Machine.Sound (data : List UInt8) (limit : Nat) (m : Machine) : Prop where
  moves : ∀ move ∈ m.moves, InStep data move
  capacities : ∀ c ∈ m.capacities, c ≤ limit

theorem Machine.sound_init : Machine.init.Sound data limit := by
  constructor <;> simp [Machine.init]

/-- Code that puts nothing out of bounds on record, whatever it reads. -/
def Cursor.Steady (data : List UInt8) (limit : Nat) (x : Cursor ε α) : Prop :=
  ∀ m, m.Sound data limit → (x m).2.Sound data limit

theorem Cursor.Steady.bind (hx : x.Steady data limit) (hf : ∀ a, (f a).Steady data limit) :
    (x >>= f).Steady data limit := by
  intro m hm
  have h := hx m hm
  cases hr : x m with
  | mk o m' =>
    rw [hr] at h
    cases o with
    | ok a => rw [bind_ok hr]; exact hf a m' h
    | err e => rw [bind_err hr]; exact h
    | panic => rw [bind_panic hr]; exact h

theorem Cursor.Steady.ret (a : α) : (pure a : Cursor ε α).Steady data limit := fun _ hm => hm

theorem Cursor.Steady.position : (position : Cursor ε Nat).Steady data limit := fun _ hm => hm

theorem Cursor.Steady.failIf (c : Prop) [Decidable c] (e : ε) :
    (Cursor.failIf c e).Steady data limit := by
  unfold Cursor.failIf
  split <;> exact fun _ hm => hm

theorem Cursor.Steady.reserve {count size : Nat} (h : count * size ≤ isizeMax → count ≤ limit) :
    (Cursor.reserve count size : Cursor ε Unit).Steady data limit := by
  intro m hm
  unfold Cursor.reserve
  split
  · refine ⟨hm.moves, fun c hc => ?_⟩
    rcases List.mem_cons.mp hc with rfl | hold
    · exact h ‹_›
    · exact hm.capacities c hold
  · exact hm

theorem Cursor.Steady.takeBytes (n : Nat) (error : Nat → ε) :
    (Cursor.takeBytes data n error).Steady data limit := by
  intro m hm
  rw [Cursor.takeBytes_run]
  split
  · exact hm
  · split
    · refine ⟨fun move hmove => ?_, hm.capacities⟩
      rcases List.mem_cons.mp hmove with rfl | hold
      · exact ⟨‹_›, Nat.le_of_not_lt ‹_›⟩
      · exact hm.moves move hold
    · exact hm

theorem Cursor.Steady.times (hx : x.Steady data limit) (count : Nat) :
    (Cursor.times count x).Steady data limit := by
  induction count with
  | zero => exact .ret []
  | succ count ih =>
    have htick : (Cursor.iteration x).Steady data limit := fun m hm =>
      hx _ { hm with }
    exact htick.bind fun _ => ih.bind fun _ => .ret _

/-- **Steady code has only a panic left where the bytes are not safe.** -/
theorem Follows.panics (h : Follows data limit x d safe) (hx : x.Steady data limit)
    (hat : m.At data bs) (hm : m.Sound data limit) (hbad : ¬ safe bs) : (x m).1 = .panic := by
  have hsound := hx m hm
  rcases h.bad hat hbad with hp | ⟨move, hmem, hmove⟩ | ⟨c, hmem, hc⟩
  · exact hp
  · exact absurd (hsound.moves move hmem) hmove
  · exact absurd (hsound.capacities c hmem) (by omega)

end MiningInfra.Lib
