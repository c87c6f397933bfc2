import MiningInfra.Coinbase.TxParse
import Mathlib.Data.Nat.Bitwise

/-!
# `TemplateValidator::parse_transaction`

The second parser of the job declaration server. It walks over a transaction and
checks that the fields are there; it keeps nothing and slices nothing, so where a
sum wraps it does not panic, it loses its place.
-/

namespace MiningInfra.Jd

open Lib Coinbase

/-! ## The code -/

section Code

variable (data : List UInt8)

/-- `zcash_pool_common::read_compact_size`. -/
def readCompactSize : Cursor String UInt64 :=
  readCompactSizeWith data fun _ => "compact size out of bounds"

/-- A field that only overwintered transactions have. -/
def skipIfOverwinter (version : UInt32) (error : String) : Cursor String Unit :=
  if version &&& 0x80000000 ≠ 0 then Cursor.skipBytes data 4 error else pure ()

/-- The script and the sequence number of an input, checked at once. -/
def skipScriptSig (scriptLen : Nat) : Cursor String Unit := do
  let cursor ← Cursor.position
  Cursor.failIf (data.length < addUsize (addUsize cursor scriptLen) 4) "scriptSig out of bounds"
  Cursor.advance scriptLen
  Cursor.advance 4

/-- The body of the input loop. -/
def skipTxIn : Cursor String Unit := do
  Cursor.skipBytes data 36 "input out of bounds"
  let scriptLen ← readCompactSize data
  skipScriptSig data scriptLen.toNat

/-- The body of the output loop. -/
def skipTxOut : Cursor String Unit := do
  Cursor.skipBytes data 8 "output value out of bounds"
  let scriptLen ← readCompactSize data
  Cursor.skipBytes data scriptLen.toNat "output script out of bounds"

/-- What `parse_transaction` does behind the version. -/
def parseFields (version : UInt32) : Cursor String Unit := do
  skipIfOverwinter data version "missing version group id"
  let vinCount ← readCompactSize data
  let _ ← Cursor.times vinCount.toNat (skipTxIn data)
  let voutCount ← readCompactSize data
  let _ ← Cursor.times voutCount.toNat (skipTxOut data)
  Cursor.skipBytes data 4 "missing lock_time"
  skipIfOverwinter data version "missing expiry_height"
  let cursor ← Cursor.position
  Cursor.failIf (data.length < cursor) "transaction parse overflow"

def parseTransaction : Cursor String Unit := do
  Cursor.failIf (data.length < 4) "transaction too short"
  let b₀ ← Cursor.byteAt data 0
  let b₁ ← Cursor.byteAt data 1
  let b₂ ← Cursor.byteAt data 2
  let b₃ ← Cursor.byteAt data 3
  Cursor.advance 4
  parseFields data (UInt32.ofNat (leNat [b₀, b₁, b₂, b₃]))

end Code

/-! ## What the code reads -/

/-- The fields behind the version, without their values. -/
def skipOrder (isOverwinterPlus : Bool) : Decoder Unit := do
  (ifOverwinter isOverwinterPlus).void
  let vinCount ← compactSize
  let _ ← Decoder.times vinCount.toNat txIn.void
  let voutCount ← compactSize
  let _ ← Decoder.times voutCount.toNat txOut.void
  u32.void
  (ifOverwinter isOverwinterPlus).void

/-- What this parser needs. The one check for a script and its sequence number also fails, as it
should, where the sum wraps and still lies past the end. -/
def inRange (data : List UInt8) : FieldConditions where
  header _ := True
  inputCount _ := True
  inputScript pos n :=
    ¬ (UInt64.size ≤ pos + n.toNat + 4 ∧ pos + n.toNat + 4 - UInt64.size ≤ data.length)
  outputCount _ := True
  outputScript pos n := pos + n.toNat < UInt64.size

variable {data : List UInt8} {limit : Nat}

theorem top_bit (h : UInt32) : h >>> 31 = 1 ↔ h &&& 0x80000000 ≠ 0 := by
  have hn : h.toNat < 4294967296 := h.toNat_lt
  have hand : (h &&& 0x80000000).toNat = (h.toNat.testBit 31).toNat * 2147483648 :=
    Nat.and_two_pow h.toNat 31
  have hshift : (h >>> 31).toNat = h.toNat / 2147483648 := Nat.shiftRight_eq_div_pow h.toNat 31
  have hbit : h.toNat.testBit 31 = decide (h.toNat / 2147483648 % 2 = 1) :=
    Nat.testBit_eq_decide_div_mod_eq
  rw [← UInt32.toNat_inj, ne_eq, ← UInt32.toNat_inj, hand, hshift, hbit]
  by_cases hone : h.toNat / 2147483648 % 2 = 1
  · simp [hone]
    omega
  · simp [hone]
    omega

/-- The end of an input as the code computes it. -/
theorem end_of_input {pos n : Nat} (hpos : pos ≤ isizeMax) (hn : n < UInt64.size) :
    addUsize (addUsize pos n) 4
      = if pos + n + 4 < UInt64.size then pos + n + 4 else pos + n + 4 - UInt64.size := by
  have hsize : isizeMax + 4 < UInt64.size := by decide
  unfold addUsize
  rw [Nat.mod_add_mod]
  split
  · exact Nat.mod_eq_of_lt ‹_›
  · rw [Nat.mod_eq_sub_mod (by omega), Nat.mod_eq_of_lt (by omega)]

theorem skipScriptSig_run (n : Nat) (m : Machine) :
    skipScriptSig data n m
      = if data.length < addUsize (addUsize m.cursor n) 4 then
          (.err "scriptSig out of bounds", m)
        else (.ok (), { m with
          cursor := addUsize (addUsize m.cursor n) 4
          moves := (addUsize m.cursor n, addUsize (addUsize m.cursor n) 4)
            :: (m.cursor, addUsize m.cursor n) :: m.moves }) := by
  by_cases h : data.length < addUsize (addUsize m.cursor n) 4
  · rw [if_pos h]
    simp [skipScriptSig, bind, Cursor.position, Cursor.failIf, h, Cursor.fail]
  · rw [if_neg h]
    simp [skipScriptSig, bind, pure, Cursor.position, Cursor.failIf, h, Cursor.advance]

theorem straight_skipScriptSig (n : Nat) : (skipScriptSig data n).Straight := by
  intro m
  rw [skipScriptSig_run]
  split <;> rfl

theorem straight_skipTxIn : (skipTxIn data).Straight :=
  (Cursor.skipBytes_straight _ _).bind fun _ => (straight_readCompactSizeWith _).bind fun _ =>
    straight_skipScriptSig _

theorem straight_skipTxOut : (skipTxOut data).Straight :=
  (Cursor.skipBytes_straight _ _).bind fun _ => (straight_readCompactSizeWith _).bind fun _ =>
    Cursor.skipBytes_straight _ _

theorem inputScriptLength_eq : inputScriptLength = (do (Decoder.bytes 36).void; compactSize) := by
  simp only [inputScriptLength, u32, Decoder.void_bind, Decoder.bind_assoc, Decoder.pure_bind]
  exact (Decoder.bytes_add_bind 32 4 compactSize).symm

theorem outputScriptLength_eq : outputScriptLength = (do (Decoder.bytes 8).void; compactSize) := by
  simp only [outputScriptLength, u64, Decoder.void_bind, Decoder.bind_assoc, Decoder.pure_bind]

/-- The items the loop gets to are the same with and without their values. -/
theorem eachLength_void {α : Type} {item : Decoder α} {length : Decoder UInt64}
    {ok : Nat → UInt64 → Prop} {count : UInt64} {bs : List UInt8} :
    EachLength data item length ok count bs ↔ EachLength data item.void length ok count bs := by
  constructor
  · intro h k hk us rest hus
    obtain ⟨items, hitems⟩ := Decoder.times_void_eq_some.mp ⟨us, hus⟩
    exact h k hk items rest hitems
  · intro h k hk items rest hitems
    obtain ⟨us, hus⟩ := Decoder.times_void_eq_some.mpr ⟨items, hitems⟩
    exact h k hk us rest hus

section Parts

variable (hdata : data.length ≤ isizeMax)

include hdata

theorem follows_skipIfOverwinter (version : UInt32) (error : String) :
    Follows data limit (skipIfOverwinter data version error)
      (ifOverwinter (version >>> 31 = 1)).void fun _ => True := by
  unfold skipIfOverwinter ifOverwinter
  by_cases h : version &&& 0x80000000 ≠ 0
  · rw [if_pos h, if_pos (by simpa using (top_bit version).mpr h)]
    refine (Follows.skipShort hdata (n := 4) (by decide) error).congr ?_ fun _ => Iff.rfl
    simp only [Decoder.void, u32, Decoder.bind_assoc, Decoder.pure_bind]
  · rw [if_neg h, if_neg (by simpa using fun h' => h ((top_bit version).mp h'))]
    exact .ret ()

theorem follows_skipScriptSig (n : UInt64) :
    Follows data limit (skipScriptSig data n.toNat) (Decoder.bytes (n.toNat + 4)).void
      fun bs => (inRange data).inputScript (offset data bs) n where
  grows m := by
    rw [skipScriptSig_run]
    split
    · exact ⟨fun _ h => h, fun _ h => h⟩
    · exact ⟨fun _ h => List.mem_cons_of_mem _ (List.mem_cons_of_mem _ h), fun _ h => h⟩
  ok := by
    intro m bs u rest hat _ hd
    obtain ⟨hcursor, hlen⟩ := hat.cursor_eq
    obtain ⟨raw, hraw⟩ := Decoder.void_eq_some.mp hd
    obtain ⟨hle, -, rfl⟩ := Decoder.bytes_eq_some hraw
    have hsize : isizeMax < UInt64.size := by decide
    have hadd : addUsize m.cursor n.toNat = m.cursor + n.toNat := addUsize_of_lt (by omega)
    have hadd' : addUsize (m.cursor + n.toNat) 4 = m.cursor + n.toNat + 4 :=
      addUsize_of_lt (by omega)
    obtain ⟨hat₁, hclean₁, hit₁⟩ := hat.forward limit (n := n.toNat) (by omega)
    obtain ⟨hat₂, hclean₂, hit₂⟩ := hat₁.forward limit (n := 4) (by rw [List.length_drop]; omega)
    rw [List.drop_drop] at hat₂ hit₂
    refine ⟨_, ?_, hat₂, hclean₁.trans hclean₂, by omega⟩
    rw [skipScriptSig_run, hadd, hadd', if_neg (by omega)]
  err := by
    intro m bs hat hsafe hd
    obtain ⟨hcursor, hlen⟩ := hat.cursor_eq
    have hshort := Decoder.bytes_eq_none (Decoder.void_eq_none hd)
    have hwrap : ¬ (UInt64.size ≤ offset data bs + n.toNat + 4
        ∧ offset data bs + n.toNat + 4 - UInt64.size ≤ data.length) := hsafe
    refine ⟨"scriptSig out of bounds", m, ?_, .refl m, by omega⟩
    rw [skipScriptSig_run, end_of_input (by omega) n.toNat_lt, if_pos]
    -- the true end lies past the slice, and so does the wrapped one
    split <;> omega
  bad := by
    intro m bs hat hbad
    obtain ⟨hcursor, hlen⟩ := hat.cursor_eq
    have hwrap : UInt64.size ≤ offset data bs + n.toNat + 4
        ∧ offset data bs + n.toNat + 4 - UInt64.size ≤ data.length := not_not.mp hbad
    refine .inr (.inl ⟨(m.cursor, addUsize m.cursor n.toNat), ?_, ?_⟩)
    · rw [skipScriptSig_run, if_neg]
      · exact List.mem_cons_of_mem _ List.mem_cons_self
      · rw [end_of_input (by omega) n.toNat_lt, if_neg (by omega)]
        omega
    · -- the move past the script goes back, or past the end
      rintro ⟨hforward, hinside⟩
      have hn : n.toNat < UInt64.size := n.toNat_lt
      have hsize : isizeMax + 4 < UInt64.size := by decide
      simp only at hforward hinside
      by_cases hfit : m.cursor + n.toNat < UInt64.size
      · rw [addUsize_of_lt hfit] at hinside
        omega
      · rw [addUsize_of_ge (by omega) hn (by omega)] at hforward
        omega

theorem follows_skipTxIn :
    Follows data limit (skipTxIn data) txIn.void fun bs =>
      ∀ n after, inputScriptLength bs = some (n, after) →
        (inRange data).inputScript (offset data after) n := by
  refine ((Follows.skipShort hdata (n := 36) (by decide) _).bind fun _ =>
    (follows_readCompactSizeWith hdata _).bind fun n =>
    follows_skipScriptSig hdata n).congr ?_ fun bs => ?_
  · simp only [txIn, script, u32, Decoder.void, Decoder.bind_assoc, Decoder.pure_bind]
    rw [show 36 = 32 + 4 from rfl, Decoder.bytes_add_bind]
    simp only [Decoder.bytes_add_bind]
  · simp only [inputScriptLength_eq, Decoder.forall_bind, true_and]

theorem follows_skipTxOut :
    Follows data limit (skipTxOut data) txOut.void fun bs =>
      ∀ n after, outputScriptLength bs = some (n, after) →
        (inRange data).outputScript (offset data after) n := by
  refine ((Follows.skipShort hdata (n := 8) (by decide) _).bind fun _ =>
    (follows_readCompactSizeWith hdata _).bind fun n =>
    Follows.skipBytes hdata n.toNat_lt _).congr ?_ fun bs => ?_
  · simp only [txOut, script, u64, Decoder.void, Decoder.bind_assoc, Decoder.pure_bind]
  · simp only [outputScriptLength_eq, Decoder.forall_bind, true_and, inRange]

theorem follows_inputs (count : UInt64) :
    Follows data limit (Cursor.times count.toNat (skipTxIn data))
      (Decoder.times count.toNat txIn.void)
      (EachLength data txIn inputScriptLength (inRange data).inputScript count) := by
  refine ((follows_skipTxIn hdata).times straight_skipTxIn (fun bs u rest h => ?_)
    count.toNat).congr rfl fun bs => ?_
  · obtain ⟨x, hx⟩ := Decoder.void_eq_some.mp h
    have := length_txIn hx
    omega
  · exact eachLength_void

theorem follows_outputs (count : UInt64) :
    Follows data limit (Cursor.times count.toNat (skipTxOut data))
      (Decoder.times count.toNat txOut.void)
      (EachLength data txOut outputScriptLength (inRange data).outputScript count) := by
  refine ((follows_skipTxOut hdata).times straight_skipTxOut (fun bs u rest h => ?_)
    count.toNat).congr rfl fun bs => ?_
  · obtain ⟨x, hx⟩ := Decoder.void_eq_some.mp h
    have := length_txOut hx
    omega
  · exact eachLength_void

/-- **The walk goes over a transaction in version 4 order**, whatever its version. -/
theorem follows_parseFields (version : UInt32) :
    Follows data limit (parseFields data version) (skipOrder (version >>> 31 = 1))
      (RestMeets (inRange data) data version) := by
  refine ((follows_skipIfOverwinter hdata version _).bind fun _ =>
    (follows_readCompactSizeWith hdata _).bind fun vinCount =>
    (follows_inputs hdata vinCount).bind fun _ =>
    (follows_readCompactSizeWith hdata _).bind fun voutCount =>
    (follows_outputs hdata voutCount).bind fun _ =>
    (Follows.skipShort hdata (n := 4) (by decide) _).bind fun _ =>
    (follows_skipIfOverwinter hdata version _).bind fun _ =>
    Follows.position.bind fun cursor => Follows.failIf _ _).congr ?_ fun bs => ?_
  · have hend : ((do let n ← Decoder.remaining; pure (data.length - n) : Decoder Nat) >>=
        fun cursor => Decoder.failIf (data.length < cursor)) = pure () := by
      funext bs
      have hle : ¬ data.length < data.length - bs.length := by omega
      simp [Decoder.bind_run, Decoder.remaining, Decoder.pure_run, Decoder.failIf, hle]
    have hu32 : u32.void = (Decoder.bytes 4).void := by
      simp only [u32, Decoder.void, Decoder.bind_assoc, Decoder.pure_bind]
    simp only [hend, skipOrder, hu32, Decoder.void_unit]
  · simp only [RestMeets, Decoder.forall_void, Decoder.forall_times_void, inRange, true_and,
      and_true, implies_true]

end Parts

/-! ## The parser -/

/-- Up to the version. -/
theorem parseTransaction_run :
    parseTransaction data .init
      = match u32 data with
        | none => (.err "transaction too short", .init)
        | some (version, _) => parseFields data version ⟨4, [(0, 4)], 0, []⟩ := by
  match data with
  | [] | [_] | [_, _] | [_, _, _] => rfl
  | b₀ :: b₁ :: b₂ :: b₃ :: rest =>
    have hlong : ¬ rest.length + 1 + 1 + 1 + 1 < 4 := by omega
    have hadd : addUsize 0 4 = 4 := by decide
    have hu : u32 (b₀ :: b₁ :: b₂ :: b₃ :: rest)
        = some (UInt32.ofNat (leNat [b₀, b₁, b₂, b₃]), rest) := by
      simp [u32, Decoder.bind_run, Decoder.bytes, Decoder.pure_run]
    rw [hu]
    simp [parseTransaction, bind, pure, Cursor.failIf, hlong, Cursor.byteAt, Cursor.advance,
      Machine.init, hadd]

/-- Past the version. -/
theorem at_fields {version : UInt32} {rest : List UInt8} (h : u32 data = some (version, rest)) :
    Machine.At data ⟨4, [(0, 4)], 0, []⟩ rest := by
  have hlen := length_u32 h
  exact ⟨by show 4 ≤ data.length; omega, (u32_eq_some h).symm⟩

/-- The walk keeps its bounds exactly where the fields are in range. -/
theorem bounded_parseTransaction (hdata : data.length ≤ isizeMax)
    (hlimit : data.length + 1 ≤ limit) :
    Bounded data limit (parseTransaction data .init) ↔ FieldsMeet (inRange data) data data := by
  rw [parseTransaction_run]
  cases hu : u32 data with
  | none =>
    refine iff_of_true ⟨by simp, by simp [Machine.init], Nat.zero_le _, by simp [Machine.init]⟩ ?_
    intro header b₁ hheader
    rw [hu] at hheader
    cases hheader
  | some r =>
    obtain ⟨version, rest⟩ := r
    have hat := at_fields hu
    have hmoves : ∀ move ∈ [(0, 4)], InStep data move := by
      intro move hmove
      rw [List.mem_singleton.mp hmove]
      exact ⟨Nat.zero_le _, hat.1⟩
    refine ((follows_parseFields hdata version).bounded_iff hat hmoves rfl rfl hlimit).trans ?_
    constructor
    · intro h header b₁ hheader _
      obtain ⟨rfl, rfl⟩ := Decoder.unique hu hheader
      exact h
    · intro h
      exact h version rest hu trivial

/-! ## Both parsers on a declared coinbase -/

/-- A linear bound. Slope and constant are at least 1. -/
def linear (a b : Nat) (data : Slice) : Nat := (a + 1) * data.bytes.length + (b + 1)

/-- What both parsers of a declaration are to do on the bytes of a coinbase. -/
def ParsersBounded (a b : Nat) (data : Slice) : Prop :=
  Bounded data.bytes (linear a b data) (Coinbase.parseTransaction data.bytes .init)
    ∧ Bounded data.bytes (linear a b data) (parseTransaction data.bytes .init)

/-- The fields the two parsers come across are in range for them. -/
def FieldsInRange (a b : Nat) (data : Slice) : Prop :=
  FieldsMeet (Coinbase.inRange (linear a b data)) data.bytes data.bytes
    ∧ FieldsMeet (inRange data.bytes) data.bytes data.bytes

/-- **The parsers keep their bounds exactly on the inputs whose counts and lengths are in
range.** -/
theorem parsersBounded_iff (a b : Nat) (data : Slice) :
    ParsersBounded a b data ↔ FieldsInRange a b data := by
  have hlimit : data.bytes.length + 1 ≤ linear a b data := by
    have := Nat.le_mul_of_pos_left data.bytes.length (show 0 < a + 1 by omega)
    unfold linear
    omega
  exact and_congr (Coinbase.bounded_parseTransaction data.fits hlimit)
    (bounded_parseTransaction data.fits hlimit)

/-- An overwintered version 4 header, one input, and a script length of `2⁶⁴ - 1`. -/
def wrappingCoinbase : Slice where
  bytes := [0x04, 0x00, 0x00, 0x80, 0x85, 0x20, 0x2f, 0x89, 0x01] ++ List.replicate 36 0
    ++ List.replicate 9 0xff
  fits := by decide

/-- No linear bound holds for every input: on this one the pool's parser panics. -/
theorem wrapping_script_length_panics : ¬ ∃ a b, ∀ data, ParsersBounded a b data := by
  rintro ⟨a, b, h⟩
  have hpanic : (Coinbase.parseTransaction wrappingCoinbase.bytes .init).1.isPanic = true := by
    decide +kernel
  exact (h wrappingCoinbase).1.returns (Outcome.isPanic_iff.mp hpanic)

end MiningInfra.Jd
