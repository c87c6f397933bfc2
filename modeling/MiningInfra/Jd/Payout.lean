import MiningInfra.Coinbase.Transaction
import MiningInfra.Jd.Validation

/-!
# The pool payout in a declared coinbase

`TemplateValidator::validate_coinbase` asks `CoinbaseValidator` whether the pool is
paid and then walks over the bytes once more. Both read the transaction in version 4
order, so the verdict is about the outputs found in that order; for a version 5
transaction these are not its outputs.
-/

namespace MiningInfra.Coinbase

open Lib

inductive CoinbaseError where
  | parse (e : ParseError)
  /-- "missing pool payout output (expected script: {})" -/
  | missingPoolPayout (script : List UInt8)
  /-- "pool payout too low: {actual} < {minimum} zat" -/
  | insufficientPayout (actual minimum : UInt64)
  deriving DecidableEq, Repr

structure CoinbaseValidator where
  poolPayoutScript : List UInt8
  minPoolPayout : UInt64

def CoinbaseValidator.validatePayoutOutputs (v : CoinbaseValidator) (coinbaseTx : List UInt8) :
    Outcome CoinbaseError Unit :=
  if v.poolPayoutScript = [] then .ok ()
  else match (parseTransaction coinbaseTx .init).1 with
    | .panic => .panic
    | .err e => .err (.parse e)
    | .ok parsed =>
      if parsed.outputs.any fun output =>
          output.scriptPubkey == v.poolPayoutScript && v.minPoolPayout ≤ output.value then .ok ()
      else match parsed.outputs.find? (·.scriptPubkey == v.poolPayoutScript) with
        | some output => .err (.insufficientPayout output.value v.minPoolPayout)
        | none => .err (.missingPoolPayout v.poolPayoutScript)

end MiningInfra.Coinbase

namespace MiningInfra.Jd

open Lib Coinbase

/-- The fields of `TemplateValidator` that a custom job is checked against. -/
structure TemplateValidator where
  poolPayoutScript : List UInt8
  minPoolPayout : UInt64

namespace TemplateValidator

/-- Whether the pool is paid. A panic of the parser goes through. -/
def validatePoolPayout (v : TemplateValidator) (coinbase : List UInt8) : Outcome String Bool :=
  if v.poolPayoutScript = [] then .ok true
  else
    let validator : CoinbaseValidator := ⟨v.poolPayoutScript, v.minPoolPayout⟩
    match validator.validatePayoutOutputs coinbase with
    | .ok _ => .ok true
    | .err _ => .ok false
    | .panic => .panic

/-- The second parse, with the prefix its error gets. -/
def parseCoinbase (coinbase : List UInt8) : Outcome String Unit :=
  (parseTransaction coinbase .init).1.mapErr fun e => "invalid coinbase transaction: " ++ e

def validateCoinbase (v : TemplateValidator) (coinbase : List UInt8) : Outcome String Unit :=
  if v.poolPayoutScript ≠ [] then
    match v.validatePoolPayout coinbase with
    | .ok false => .err "Missing or insufficient pool payout"
    | .ok true => parseCoinbase coinbase
    | .err e => .err e
    | .panic => .panic
  else parseCoinbase coinbase

end TemplateValidator

/-- Read in version 4 order, the bytes are a transaction that pays the pool. -/
def PaysInV4Order (v : TemplateValidator) (data : List UInt8) : Prop :=
  ∃ p rest, v4Order data data = some (p, rest)
    ∧ PaysPool v.poolPayoutScript v.minPoolPayout p.outputs

variable {data rest : List UInt8} {tx : WireTransaction} {branchId : UInt32} {p : ParsedTx}

theorem inRange_lax (hdata : data.length ≤ isizeMax) : (inRange data).Lax data where
  inputCount _ _ := trivial
  inputScript pos n h := by
    have hsize : isizeMax < UInt64.size := by decide
    rintro ⟨hwrap, -⟩
    omega
  outputCount _ _ := trivial
  outputScript pos n h := by
    have hsize : isizeMax < UInt64.size := by decide
    show _ < _
    omega

/-- What decodes in version 4 order can be walked over. -/
theorem parseTransaction_ok_of_decodes (hdata : data.length ≤ isizeMax)
    (h : v4Order data data = some (p, rest)) : (parseTransaction data .init).1 = .ok () := by
  have hmeet := fieldsMeet_of_decodes (inRange_lax hdata) h
  obtain ⟨header, b₁, hheader, h⟩ := Decoder.bind_eq_some h
  obtain ⟨_, b₁', hversion, h⟩ := Decoder.bind_eq_some h
  obtain ⟨-, rfl⟩ := Decoder.failIf_eq_some hversion
  obtain ⟨group, b₂, hgroup, h⟩ := Decoder.bind_eq_some h
  obtain ⟨inputCount, b₃, hinputCount, h⟩ := Decoder.bind_eq_some h
  obtain ⟨inputs, b₄, hinputs, h⟩ := Decoder.bind_eq_some h
  obtain ⟨outputCount, b₅, houtputCount, h⟩ := Decoder.bind_eq_some h
  obtain ⟨outputs, b₆, houtputs, h⟩ := Decoder.bind_eq_some h
  obtain ⟨lockTime, b₇, hlockTime, h⟩ := Decoder.bind_eq_some h
  obtain ⟨expiry, b₈, hexpiry, -⟩ := Decoder.bind_eq_some h
  obtain ⟨_, hinputs⟩ := Decoder.times_void_eq_some.mpr ⟨inputs, hinputs⟩
  obtain ⟨_, houtputs⟩ := Decoder.times_void_eq_some.mpr ⟨outputs, houtputs⟩
  have hskip : skipOrder (header >>> 31 = 1) b₁ = some ((), b₈) := by
    refine Decoder.bind_eq_some_iff.mpr ⟨(), b₂, Decoder.void_eq_some.mpr ⟨group, hgroup⟩, ?_⟩
    refine Decoder.bind_eq_some_iff.mpr ⟨inputCount, b₃, hinputCount, ?_⟩
    refine Decoder.bind_eq_some_iff.mpr ⟨_, b₄, hinputs, ?_⟩
    refine Decoder.bind_eq_some_iff.mpr ⟨outputCount, b₅, houtputCount, ?_⟩
    refine Decoder.bind_eq_some_iff.mpr ⟨_, b₆, houtputs, ?_⟩
    refine Decoder.bind_eq_some_iff.mpr ⟨(), b₇, Decoder.void_eq_some.mpr ⟨_, hlockTime⟩, ?_⟩
    exact Decoder.void_eq_some.mpr ⟨expiry, hexpiry⟩
  have hfollows : Follows data 0 (parseFields data header) (skipOrder (header >>> 31 = 1))
      (RestMeets (inRange data) data header) := follows_parseFields hdata header
  obtain ⟨m', hrun, -⟩ := hfollows.ok (at_fields hheader) (hmeet header b₁ hheader trivial) hskip
  rw [parseTransaction_run, hheader]
  exact congrArg Prod.fst hrun

/-! ## The verdict -/

theorem any_eq_paysPool (script : List UInt8) (minimum : UInt64) (outputs : List TxOut) :
    (outputs.any fun o => o.scriptPubkey == script && minimum ≤ o.value) = true
      ↔ PaysPool script minimum outputs := by
  simp [PaysPool]

theorem validatePayoutOutputs_ok_iff (v : CoinbaseValidator) (hv : v.poolPayoutScript ≠ [])
    (data : List UInt8) : v.validatePayoutOutputs data = .ok () ↔
      ∃ p, (Coinbase.parseTransaction data .init).1 = .ok p
        ∧ PaysPool v.poolPayoutScript v.minPoolPayout p.outputs := by
  unfold CoinbaseValidator.validatePayoutOutputs
  rw [if_neg hv]
  cases (Coinbase.parseTransaction data .init).1 with
  | panic | err e => simp
  | ok p =>
    simp only [any_eq_paysPool, Outcome.ok.injEq, exists_eq_left']
    by_cases hpays : PaysPool v.poolPayoutScript v.minPoolPayout p.outputs
    · simp [hpays]
    · rw [if_neg hpays]
      refine iff_of_false ?_ hpays
      split <;> simp

/-- **A declared coinbase is accepted exactly when its bytes, read in version 4 order, pay the
pool.** -/
theorem validateCoinbase_ok_iff (v : TemplateValidator) (hv : v.poolPayoutScript ≠ [])
    (hdata : data.length * 8 ≤ isizeMax) :
    v.validateCoinbase data = .ok () ↔ PaysInV4Order v data := by
  have hpayout := validatePayoutOutputs_ok_iff ⟨v.poolPayoutScript, v.minPoolPayout⟩ hv data
  simp only [parseTransaction_ok_iff hdata] at hpayout
  unfold TemplateValidator.validateCoinbase TemplateValidator.validatePoolPayout
  rw [if_pos hv, if_neg hv]
  constructor
  · intro h
    cases hout : CoinbaseValidator.validatePayoutOutputs ⟨_, _⟩ data with
    | ok u =>
      obtain ⟨p, ⟨rest, hp⟩, hpays⟩ := hpayout.mp hout
      exact ⟨p, rest, hp, hpays⟩
    | err e | panic => exact absurd h (by simp [hout])
  · rintro ⟨p, rest, hp, hpays⟩
    have hwalk := parseTransaction_ok_of_decodes (by omega) hp
    simp only [hpayout.mpr ⟨p, ⟨rest, hp⟩, hpays⟩, TemplateValidator.parseCoinbase, hwalk,
      Outcome.mapErr]

/-- In version 4 order a version 4 transaction pays what it pays. -/
theorem paysInV4Order_iff (v : TemplateValidator) (tx : WireTransaction) (hv : tx.format = .v4) :
    PaysInV4Order v tx.serialize ↔ PaysPool v.poolPayoutScript v.minPoolPayout tx.outputs := by
  obtain ⟨p, hp, -, houtputs⟩ := v4Order_serialize tx hv
  constructor
  · rintro ⟨p', rest, hp', hpays⟩
    obtain ⟨rfl, -⟩ := Decoder.unique hp hp'
    rwa [houtputs] at hpays
  · intro hpays
    exact ⟨p, tx.shielded, hp, houtputs ▸ hpays⟩

/-- In version 4 order the lowest byte of a branch id is the number of inputs. -/
theorem v5_length_of_decodes (hf : tx.format = .v5 branchId) (hbyte : branchId.toNat % 256 ≤ 0xfc)
    (h : v4Order tx.serialize tx.serialize = some (p, rest)) :
    9 + branchId.toNat % 256 * 41 ≤ tx.serialize.length := by
  obtain ⟨tail, hs⟩ : ∃ tail, tx.serialize
      = u32Bytes 0x80000005 ++ (u32Bytes 0x26a7270a ++ (UInt8.ofNat branchId.toNat :: tail)) := by
    simp only [Transaction.serialize, hf, List.append_assoc]
    exact ⟨_, rfl⟩
  have hlen := congrArg List.length hs
  simp [u32Bytes, length_leBytes] at hlen
  obtain ⟨_, _, hheader, h⟩ := Decoder.bind_eq_some h
  obtain ⟨_, _, hversion, h⟩ := Decoder.bind_eq_some h
  obtain ⟨_, _, hgroup, h⟩ := Decoder.bind_eq_some h
  obtain ⟨_, _, hinputCount, h⟩ := Decoder.bind_eq_some h
  obtain ⟨_, _, hinputs, -⟩ := Decoder.bind_eq_some h
  obtain ⟨-, rfl⟩ := Decoder.failIf_eq_some hversion
  rw [hs] at hheader
  obtain ⟨rfl, rfl⟩ := Decoder.unique (u32_u32Bytes _ _) hheader
  obtain ⟨rfl, rfl⟩ := Decoder.unique (ifOverwinter_u32Bytes _ _) hgroup
  have hfirst : compactSize (UInt8.ofNat branchId.toNat :: tail)
      = some ((UInt8.ofNat branchId.toNat).toUInt64, tail) := by
    have hle : UInt8.ofNat branchId.toNat ≤ 0xfc := hbyte
    rw [compactSize, compactRest, if_pos hle]
    rfl
  obtain ⟨rfl, rfl⟩ := Decoder.unique hfirst hinputCount
  have hbytes := Decoder.length_times (fun _ _ _ => length_txIn) hinputs
  have hcount : (UInt8.ofNat branchId.toNat).toUInt64.toNat = branchId.toNat % 256 := by simp
  rw [hcount] at hbytes
  omega

/-- So a version 5 coinbase of ordinary size is turned away whatever it pays: 85 inputs that are
not there, for the NU6 branch. -/
theorem v5_rejected_when_short (v : TemplateValidator) (hv : v.poolPayoutScript ≠ [])
    (hf : tx.format = .v5 branchId) (hbyte : branchId.toNat % 256 ≤ 0xfc)
    (hshort : tx.serialize.length < 9 + branchId.toNat % 256 * 41) :
    v.validateCoinbase tx.serialize ≠ .ok () := by
  intro hok
  obtain ⟨p, rest, hp, -⟩ := (validateCoinbase_ok_iff v hv tx.length_mul_le).mp hok
  have := v5_length_of_decodes hf hbyte hp
  omega

/-- The pool asks for 100 zatoshi to the script `51`. -/
def samplePool : TemplateValidator := ⟨[0x51], 100⟩

/-- A coinbase with one input and one output, which pays the pool what it asks for. -/
def sampleCoinbase (format : Format) : Transaction where
  format := format
  inputs := [⟨fun _ => 0, 0xffffffff, [0x02, 0x10, 0x27], 0xffffffff⟩]
  outputs := [⟨100, [0x51]⟩]
  lockTime := 0
  expiryHeight := 10000
  shielded := [0, 0, 0]

theorem nu6_coinbase_rejected :
    samplePool.validateCoinbase (sampleCoinbase (.v5 0xc8e71055)).serialize ≠ .ok () :=
  @v5_rejected_when_short ⟨_, by decide +kernel⟩ _ samplePool (by decide) rfl (by decide)
    (by decide +kernel)

end MiningInfra.Jd
