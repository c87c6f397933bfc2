import MiningInfra.Ingress.Skipping

/-!
# The boundaries of a block

What the block parser does over a whole payload: it moves over a transaction of any version by
exactly the bytes that consensus writes for it, the boundaries it returns cut the payload from the
end of the count to its own end, and it begins at most two more loop iterations than there are
bytes.
-/

namespace MiningInfra.Ingress

open Lib Lib.Cursor Coinbase Relay

variable {payload bs : List UInt8} {m m' : Machine}

section

variable (hpayload : payload.length ≤ isizeMax)

include hpayload

/-! ## The loop over the transactions -/

/-- One round, from where the cursor was to where it is. -/
theorem nextBoundary_run {range : Nat × Nat} (hm : m.cursor ≤ payload.length)
    (h : nextBoundary payload m = (.ok range, m')) :
    range = (m.cursor, m'.cursor) ∧ m.cursor ≤ m'.cursor ∧ m'.cursor ≤ payload.length := by
  rcases paid_skipTransaction hpayload m hm with ⟨u, m₁, hskip, hge, hle, -⟩ | ⟨e, m₁, hskip, -⟩
  · have hrun : nextBoundary payload m = (.ok (m.cursor, m₁.cursor), m₁) :=
      (bind_ok (show position m = (.ok m.cursor, m) from rfl)).trans (bind_ok hskip)
    obtain ⟨hrange, rfl⟩ := Prod.mk.inj (hrun.symm.trans h)
    exact ⟨(Outcome.ok.inj hrange).symm, hge, hle⟩
  · have hrun : nextBoundary payload m = (.err e, m₁) :=
      (bind_ok (show position m = (.ok m.cursor, m) from rfl)).trans (bind_err hskip)
    exact absurd (hrun.symm.trans h) (by simp)

/-- The rounds of the loop follow one another. -/
theorem boundaries_tile {count : Nat} :
    ∀ {m m' : Machine} {boundaries : List (Nat × Nat)}, m.cursor ≤ payload.length →
      times count (nextBoundary payload) m = (.ok boundaries, m') →
      boundaries.length = count ∧ Tiles m.cursor m'.cursor boundaries := by
  induction count with
  | zero =>
    intro m m' boundaries hm h
    obtain ⟨hboundaries, rfl⟩ := Prod.mk.inj h
    obtain rfl := Outcome.ok.inj hboundaries
    exact ⟨rfl, rfl⟩
  | succ count ih =>
    intro m m' boundaries hm h
    obtain ⟨range, m₁, hround, h⟩ := bind_eq_ok h
    obtain ⟨rest, m₂, hrest, hpure⟩ := bind_eq_ok h
    obtain ⟨hboundaries, rfl⟩ := Prod.mk.inj hpure
    obtain rfl := Outcome.ok.inj hboundaries
    obtain ⟨rfl, hge, hle⟩ := @nextBoundary_run payload
      { m with iterations := m.iterations + 1 } m₁ hpayload range hm hround
    obtain ⟨hlen, htiles⟩ := ih hle hrest
    exact ⟨congrArg Nat.succ hlen, rfl, hge, htiles⟩

end

/-! ## Whole payloads -/

/-- The reservation is small: the count was checked before. -/
theorem paid_reserve (count : UInt64) {next : Cursor String (List (Nat × Nat))}
    (hnext : Paid payload 0 2 next) :
    Paid payload 0 2 (do
      Cursor.ofExcept (checkPrefilledIndexRange count.toNat)
      reserve count.toNat 16
      next) := by
  intro m hm
  by_cases hcount : 0xffff + 1 < count.toNat
  · have hcheck : checkPrefilledIndexRange count.toNat =
        .error s!"too many transactions for relay prefilled indices: {count.toNat}" :=
      if_pos hcount
    rw [hcheck]
    exact .inr ⟨_, m, bind_err rfl, by omega⟩
  · have hcheck : checkPrefilledIndexRange count.toNat = .ok () := if_neg hcount
    have hsmall : count.toNat * 16 ≤ isizeMax := by
      have hmax : (0xffff + 1) * 16 ≤ isizeMax := by decide
      omega
    have hreserve : (reserve count.toNat 16 : Cursor String Unit) m =
        (.ok (), { m with capacities := count.toNat :: m.capacities }) := if_pos hsmall
    rw [hcheck, bind_ok (show (Cursor.ofExcept (.ok ()) : Cursor String Unit) m = (.ok (), m) from
      rfl), bind_ok hreserve]
    exact hnext { m with capacities := count.toNat :: m.capacities } hm

theorem paid_countedBoundaries (hpayload : payload.length ≤ isizeMax) :
    Paid payload 0 2 (countedBoundaries payload) := by
  have hend : ∀ boundaries : List (Nat × Nat), Paid payload 0 2 (do
      let cursor ← position
      failIf (cursor ≠ payload.length)
        s!"trailing bytes after block transactions: {payload.length - cursor}"
      pure boundaries : Cursor String (List (Nat × Nat))) := fun boundaries =>
    (Paid.position.andThen fun _ => (Paid.failIf _ _).andThen fun _ =>
      .ret boundaries).owing.owing
  have hloop : ∀ count : UInt64, Paid payload 0 2 (times count.toNat (nextBoundary payload)) :=
    fun count => .times (paid_nextBoundary hpayload) count.toNat
  exact ((paid_decodeCompactSize hpayload).mono (Nat.zero_le _) (Nat.zero_le _)).andThen
    fun count => (Paid.failIf _ _).owing.owing.andThen fun _ =>
    paid_reserve count ((hloop count).andThen hend)

/-- What an accepted payload is made of. -/
theorem countedBoundaries_ok (hpayload : payload.length ≤ isizeMax) {boundaries : List (Nat × Nat)}
    (hat : m.At payload bs) (h : countedBoundaries payload m = (.ok boundaries, m')) :
    ∃ count rest, compactSize bs = some (count, rest) ∧ boundaries.length = count.toNat ∧
      Tiles (payload.length - rest.length) payload.length boundaries := by
  obtain ⟨count, m₁, hcount, h⟩ := bind_eq_ok h
  obtain ⟨rest, hrest, hat₁⟩ := (follows_decodeCompactSize hpayload).decoded hat hcount
  obtain ⟨_, m₂, hzero, h⟩ := bind_eq_ok h
  obtain ⟨_, m₃, hrange, h⟩ := bind_eq_ok h
  obtain ⟨_, m₄, hreserve, h⟩ := bind_eq_ok h
  obtain ⟨found, m₅, hloop, h⟩ := bind_eq_ok h
  obtain ⟨cursor, m₆, hcursor, h⟩ := bind_eq_ok h
  obtain ⟨_, m₇, hall, hpure⟩ := bind_eq_ok h
  -- only the loop moved the cursor
  obtain ⟨-, rfl⟩ := failIf_eq_ok hzero
  obtain rfl := ofExcept_eq_ok hrange
  have hstart := reserve_eq_ok hreserve
  obtain ⟨hlength, htiles⟩ := boundaries_tile hpayload (hstart ▸ hat₁.1) hloop
  obtain ⟨hposition, rfl⟩ := Prod.mk.inj hcursor
  obtain ⟨hend, -⟩ := failIf_eq_ok hall
  obtain rfl := Outcome.ok.inj (Prod.mk.inj hpure).1
  obtain ⟨hoffset, -⟩ := hat₁.cursor_eq
  rw [← Outcome.ok.inj hposition, not_not] at hend
  rw [hstart, hend, hoffset] at htiles
  exact ⟨count, rest, hrest, hlength, htiles⟩

/-- The machine behind the header. -/
def afterHeader : Machine where
  cursor := zcashFullHeaderSize
  moves := [(0, zcashFullHeaderSize)]
  iterations := 0
  capacities := []

/-- **The block parser.** For a transaction of any version and anything that follows, the cursor
moves by exactly the length of the transaction. On every payload the parser returns after at most
two more iterations than there are bytes; and if it accepts, there is one boundary for each
transaction counted, and the boundaries follow one another from the end of the count to the end of
the payload. -/
theorem transactions_cut :
    (∀ (before : List UInt8) (tx : ConsensusTx) (suffix : List UInt8) (m : Machine),
      (before ++ tx.bytes ++ suffix).length ≤ isizeMax → m.cursor = before.length →
      ∃ m', skipTransaction (before ++ tx.bytes ++ suffix) m = (.ok (), m') ∧
        m'.cursor = before.length + tx.bytes.length) ∧
    ∀ payload : List UInt8, payload.length ≤ isizeMax →
      let run := transactionBoundaries payload Machine.init
      run.1 ≠ .panic ∧ run.2.iterations ≤ payload.length + 2 ∧
      ∀ boundaries, run.1 = .ok boundaries →
        ∃ count rest, compactSize (payload.drop zcashFullHeaderSize) = some (count, rest) ∧
          boundaries.length = count.toNat ∧
          Tiles (payload.length - rest.length) payload.length boundaries := by
  constructor
  · intro before tx suffix m hsize hm
    have hat : m.At (before ++ tx.bytes ++ suffix) (tx.bytes ++ suffix) := by
      refine ⟨?_, ?_⟩
      · rw [hm, List.length_append, List.length_append]
        omega
      · rw [hm, List.append_assoc, List.drop_left]
    obtain ⟨m', hrun, hat'⟩ := passes_skipTransaction hsize tx hat
    refine ⟨m', hrun, ?_⟩
    obtain ⟨hcursor, hlen⟩ := hat'.cursor_eq
    simp only [List.length_append] at hlen
    omega
  · intro payload hpayload run
    by_cases hshort : payload.length < zcashFullHeaderSize
    · have hfail : failIf (payload.length < zcashFullHeaderSize)
          "block payload shorter than Zcash header" Machine.init =
            (.err "block payload shorter than Zcash header", Machine.init) := by
        rw [failIf, if_pos hshort]
        rfl
      have hrun : run = (.err "block payload shorter than Zcash header", Machine.init) :=
        bind_err hfail
      rw [hrun]
      exact ⟨by simp, Nat.zero_le _, fun boundaries h => absurd h (by simp)⟩
    · have hfine : failIf (payload.length < zcashFullHeaderSize)
          "block payload shorter than Zcash header" Machine.init = (.ok (), Machine.init) := by
        rw [failIf, if_neg hshort]
        rfl
      have hrun : run = countedBoundaries payload afterHeader :=
        (bind_ok hfine).trans (bind_ok rfl)
      have hle : afterHeader.cursor ≤ payload.length := Nat.le_of_not_lt hshort
      obtain ⟨hreturns, hiterations⟩ := (paid_countedBoundaries hpayload).iterations_le hle rfl
      rw [hrun]
      refine ⟨hreturns, hiterations, fun boundaries h => ?_⟩
      exact countedBoundaries_ok hpayload ⟨hle, rfl⟩ (Prod.ext h rfl)

/-- A field of zeros. -/
def zeros (n : Nat) : Field n := ⟨List.replicate n 0, List.length_replicate⟩

/-- A transaction of version 6 with one action in its first Orchard bundle. -/
def oneAction : ConsensusTx :=
  .v6 0x37a5165b 0 0 ⟨[], []⟩ ⟨[], [], zeros 8, zeros 32, zeros 64⟩
    ⟨[⟨zeros 32, zeros 32, zeros 32, zeros 32, zeros 32, zeros 580, zeros 80, zeros 64⟩], 3,
      zeros 8, zeros 32, [], zeros 64⟩
    ⟨[], 0, zeros 8, zeros 32, [], zeros 64⟩

theorem oneAction_skipped :
    oneAction.bytes.length = 1016 ∧
      (∃ m', skipTransaction ([7] ++ oneAction.bytes ++ [8]) ⟨1, [], 0, []⟩ = (.ok (), m') ∧
        m'.cursor = 1017) ∧
      (transactionBoundaries [] Machine.init).2.iterations ≤ 2 := by
  have hlength : oneAction.bytes.length = 1016 := by decide +kernel
  obtain ⟨hskip, hblock⟩ := transactions_cut
  have hsize : ([7] ++ oneAction.bytes ++ [8]).length ≤ isizeMax := by
    rw [List.length_append, List.length_append, hlength]
    decide
  obtain ⟨m', hrun, hcursor⟩ := hskip [7] oneAction [8] ⟨1, [], 0, []⟩ hsize rfl
  rw [hlength] at hcursor
  exact ⟨hlength, ⟨m', hrun, hcursor⟩, (hblock [] (by decide)).2.1⟩

end MiningInfra.Ingress
