import MiningInfra.Coinbase.Layout
import MiningInfra.Lib.Follows

/-!
# `zcash_coinbase::tx_parse`

The parser the pool runs on a coinbase transaction to find its outputs. Every offset
is a 64-bit `usize` and every addition wraps, as in a release build; a slice whose
start lies past its end is a panic.

The parser reads the fields of a version 4 transaction in their order, for version 4
and for version 5 alike (`v4Order`).
-/

namespace MiningInfra.Coinbase

open Lib

variable {ε : Type}

inductive ParseError where
  | tooShort (need available : Nat)
  | unsupportedVersion (version : UInt32)
  | invalidCompactSize (offset : Nat)
  deriving DecidableEq, Repr

def ParseError.display : ParseError → String
  | .tooShort need available =>
    "transaction too short: need " ++ toString need ++ " bytes, have " ++ toString available
  | .unsupportedVersion version => "unsupported transaction version: " ++ toString version
  | .invalidCompactSize offset => "invalid compact size at offset " ++ toString offset

structure ParsedTx where
  version : UInt32
  isOverwinterPlus : Bool
  versionGroupId : Option UInt32
  inputs : List TxIn
  outputs : List TxOut
  lockTime : UInt32
  expiryHeight : Option UInt32
  raw : List UInt8
  trailingDataOffset : Option Nat

/-! ## The code -/

section Code

variable (data : List UInt8)

/-- The `match` of `read_compact_size`. The three longer forms differ in their width only. -/
def readCompactRest (error : ε) (first : UInt8) : Cursor ε UInt64 :=
  if first ≤ 0xfc then pure first.toUInt64
  else do
    let value ← Cursor.takeBytes data (compactWidth first) fun _ => error
    pure (UInt64.ofNat (leNat value))

def readCompactSizeWith (error : Nat → ε) : Cursor ε UInt64 := do
  let pos ← Cursor.position
  Cursor.failIf (data.length ≤ pos) (error pos)
  let first ← Cursor.byteAt data pos
  Cursor.advance 1
  readCompactRest data (error pos) first

def readCompactSize : Cursor ParseError UInt64 := readCompactSizeWith data .invalidCompactSize

def readBytes (n : Nat) : Cursor ParseError (List UInt8) :=
  Cursor.takeBytes data n fun cursor => .tooShort (addUsize cursor n) data.length

def readU32Le : Cursor ParseError UInt32 := do
  let bytes ← readBytes data 4
  pure (UInt32.ofNat (leNat bytes))

def readU64Le : Cursor ParseError UInt64 := do
  let bytes ← readBytes data 8
  pure (UInt64.ofNat (leNat bytes))

/-- The body of the input loop. -/
def readTxIn : Cursor ParseError TxIn := do
  let prevoutHash ← readBytes data 32
  let prevoutIndex ← readU32Le data
  let scriptLen ← readCompactSize data
  let scriptSig ← readBytes data scriptLen.toNat
  let sequence ← readU32Le data
  pure ⟨toBytes32 prevoutHash, prevoutIndex, scriptSig, sequence⟩

/-- The body of the output loop. -/
def readTxOut : Cursor ParseError TxOut := do
  let value ← readU64Le data
  let scriptLen ← readCompactSize data
  let scriptPubkey ← readBytes data scriptLen.toNat
  pure ⟨value, scriptPubkey⟩

/-- A field that only overwintered transactions have. -/
def readIfOverwinter (isOverwinterPlus : Bool) : Cursor ParseError (Option UInt32) :=
  if isOverwinterPlus then do
    let v ← readU32Le data
    pure (some v)
  else pure none

/-- What `parse_transaction` does once there is a header to read. A `TxIn` takes 64 bytes of
memory, a `TxOut` 32. -/
def parseFields : Cursor ParseError ParsedTx := do
  let header ← readU32Le data
  let isOverwinterPlus := header >>> 31 = 1
  let version := header &&& 0x7fffffff
  Cursor.failIf (version ≠ 4 ∧ version ≠ 5) (.unsupportedVersion version)
  let versionGroupId ← readIfOverwinter data isOverwinterPlus
  let inputCount ← readCompactSize data
  Cursor.reserve inputCount.toNat 64
  let inputs ← Cursor.times inputCount.toNat (readTxIn data)
  let outputCount ← readCompactSize data
  Cursor.reserve outputCount.toNat 32
  let outputs ← Cursor.times outputCount.toNat (readTxOut data)
  let lockTime ← readU32Le data
  let expiryHeight ← readIfOverwinter data isOverwinterPlus
  let cursor ← Cursor.position
  pure {
    version, isOverwinterPlus, versionGroupId, inputs, outputs, lockTime, expiryHeight
    raw := data
    trailingDataOffset := if cursor < data.length then some cursor else none }

def parseTransaction : Cursor ParseError ParsedTx := do
  Cursor.failIf (data.length < 4) (.tooShort 4 data.length)
  parseFields data

end Code

/-! ## What the code reads -/

/-- A field that only overwintered transactions have. -/
def ifOverwinter (isOverwinterPlus : Bool) : Decoder (Option UInt32) :=
  if isOverwinterPlus then do
    let v ← u32
    pure (some v)
  else pure none

/-- The fields of a transaction in the order of version 4. -/
def v4Order (raw : List UInt8) : Decoder ParsedTx := do
  let header ← u32
  let isOverwinterPlus := header >>> 31 = 1
  let version := header &&& 0x7fffffff
  Decoder.failIf (version ≠ 4 ∧ version ≠ 5)
  let versionGroupId ← ifOverwinter isOverwinterPlus
  let inputCount ← compactSize
  let inputs ← Decoder.times inputCount.toNat txIn
  let outputCount ← compactSize
  let outputs ← Decoder.times outputCount.toNat txOut
  let lockTime ← u32
  let expiryHeight ← ifOverwinter isOverwinterPlus
  let remaining ← Decoder.remaining
  let cursor := raw.length - remaining
  pure {
    version, isOverwinterPlus, versionGroupId, inputs, outputs, lockTime, expiryHeight, raw
    trailingDataOffset := if cursor < raw.length then some cursor else none }

/-- Conditions on the fields that a reader in this order comes across: which headers it goes on
with, the two counts, and the script lengths with the offset they stand at. -/
structure FieldConditions where
  header : UInt32 → Prop
  inputCount : UInt64 → Prop
  inputScript : Nat → UInt64 → Prop
  outputCount : UInt64 → Prop
  outputScript : Nat → UInt64 → Prop

/-- The script lengths of the items a loop gets to. -/
def EachLength {α : Type} (data : List UInt8) (item : Decoder α) (length : Decoder UInt64)
    (ok : Nat → UInt64 → Prop) (count : UInt64) (bs : List UInt8) : Prop :=
  ∀ k < count.toNat, ∀ items rest, Decoder.times k item bs = some (items, rest) →
    ∀ n after, length rest = some (n, after) → ok (offset data after) n

/-- Each field behind the header that the reader gets to meets its condition. -/
def RestMeets (c : FieldConditions) (data : List UInt8) (header : UInt32) (bs : List UInt8) : Prop :=
  ∀ group b₁, ifOverwinter (header >>> 31 = 1) bs = some (group, b₁) →
  ∀ inputCount b₂, compactSize b₁ = some (inputCount, b₂) →
    c.inputCount inputCount ∧ EachLength data txIn inputScriptLength c.inputScript inputCount b₂ ∧
    ∀ inputs b₃, Decoder.times inputCount.toNat txIn b₂ = some (inputs, b₃) →
    ∀ outputCount b₄, compactSize b₃ = some (outputCount, b₄) →
      c.outputCount outputCount
        ∧ EachLength data txOut outputScriptLength c.outputScript outputCount b₄

/-- Each field the reader gets to meets its condition. -/
def FieldsMeet (c : FieldConditions) (data bs : List UInt8) : Prop :=
  ∀ header b₁, u32 bs = some (header, b₁) → c.header header → RestMeets c data header b₁

variable {data : List UInt8} {limit : Nat}

/-! ## The parts -/

theorem compactWidth_le (first : UInt8) : compactWidth first ≤ 8 := by
  unfold compactWidth
  split
  · omega
  · split <;> omega

theorem follows_readCompactRest (hdata : data.length ≤ isizeMax) (error : ε) (first : UInt8) :
    Follows data limit (readCompactRest data error first) (compactRest first) fun _ => True := by
  unfold readCompactRest compactRest
  split
  · exact .ret _
  · have hwidth := compactWidth_le first
    have hsmall : 8 ≤ isizeMax := by decide
    exact ((Follows.takeShort hdata (by omega) _).bind fun _ => .ret _).congr rfl (by simp)

theorem straight_readCompactRest (error : ε) (first : UInt8) :
    (readCompactRest data error first).Straight := by
  unfold readCompactRest
  split
  · exact fun m => rfl
  · exact (Cursor.takeBytes_straight _ _).bind fun _ m => rfl

/-- `read_compact_size` up to the `match`. -/
theorem readCompactSizeWith_run (error : Nat → ε) (m : Machine) :
    readCompactSizeWith data error m
      = if h : m.cursor < data.length then
          readCompactRest data (error m.cursor) data[m.cursor] { m with
            cursor := addUsize m.cursor 1
            moves := (m.cursor, addUsize m.cursor 1) :: m.moves }
        else (.err (error m.cursor), m) := by
  by_cases h : m.cursor < data.length
  · rw [dif_pos h]
    have hle : ¬ data.length ≤ m.cursor := by omega
    simp [readCompactSizeWith, bind, pure, Cursor.position, Cursor.failIf, hle, Cursor.byteAt, h,
      Cursor.advance]
  · rw [dif_neg h]
    have hle : data.length ≤ m.cursor := by omega
    simp [readCompactSizeWith, bind, Cursor.position, Cursor.failIf, hle, Cursor.fail]

theorem straight_readCompactSizeWith (error : Nat → ε) :
    (readCompactSizeWith data error).Straight := by
  intro m
  rw [readCompactSizeWith_run]
  split
  · exact straight_readCompactRest _ _ _
  · rfl

theorem follows_readCompactSizeWith (hdata : data.length ≤ isizeMax) (error : Nat → ε) :
    Follows data limit (readCompactSizeWith data error) compactSize fun _ => True := by
  have hrest (e : ε) (first : UInt8) :
      Follows data limit (readCompactRest data e first) (compactRest first) fun _ => True :=
    follows_readCompactRest hdata e first
  -- past the first byte the cursor stands before the rest
  have hfirst : ∀ {m : Machine} {first : UInt8} {tail : List UInt8}, m.At data (first :: tail) →
      readCompactSizeWith data error m = readCompactRest data (error m.cursor) first
        { m with cursor := m.cursor + 1, moves := (m.cursor, m.cursor + 1) :: m.moves } := by
    intro m first tail hat
    have hlt : m.cursor < data.length := by
      obtain ⟨hcursor, hlen⟩ := hat.cursor_eq
      rw [List.length_cons] at hlen
      omega
    have hget : data[m.cursor] = first := by
      have := hat.2
      rw [List.drop_eq_getElem_cons hlt] at this
      exact (List.cons.inj this).1
    have hsize : isizeMax + 1 < UInt64.size := by decide
    rw [readCompactSizeWith_run, dif_pos hlt, hget, addUsize_of_lt (by omega)]
  refine ⟨fun m => ?_, ?_, ?_, ?_⟩
  · rw [readCompactSizeWith_run]
    split
    · obtain ⟨hmoves, hcaps⟩ := (hrest (error m.cursor) _).grows { m with
        cursor := addUsize m.cursor 1, moves := (m.cursor, addUsize m.cursor 1) :: m.moves }
      exact ⟨fun _ h => hmoves (List.mem_cons_of_mem _ h), hcaps⟩
    · exact ⟨fun _ h => h, fun _ h => h⟩
  · intro m bs n rest hat _ hd
    cases bs with
    | nil => exact absurd hd (by simp [compactSize])
    | cons first tail =>
      obtain ⟨hat₁, hclean₁, hit₁⟩ := hat.forward limit (n := 1) (by simp)
      obtain ⟨m', hrun, hat', hclean', hit'⟩ := (hrest (error m.cursor) first).ok hat₁ trivial hd
      exact ⟨m', by rw [hfirst hat, hrun], hat', hclean₁.trans hclean', by omega⟩
  · intro m bs hat _ hd
    cases bs with
    | nil =>
      have hend : ¬ m.cursor < data.length := by
        obtain ⟨hcursor, hlen⟩ := hat.cursor_eq
        rw [List.length_nil] at hlen
        omega
      exact ⟨error m.cursor, m, by rw [readCompactSizeWith_run, dif_neg hend], .refl m, by omega⟩
    | cons first tail =>
      obtain ⟨hat₁, hclean₁, hit₁⟩ := hat.forward limit (n := 1) (by simp)
      obtain ⟨e, m', hrun, hclean', hit'⟩ := (hrest (error m.cursor) first).err hat₁ trivial hd
      exact ⟨e, m', by rw [hfirst hat, hrun], hclean₁.trans hclean', by omega⟩
  · intro m bs _ hbad
    exact absurd trivial hbad

section Parts

variable (hdata : data.length ≤ isizeMax)

include hdata

theorem follows_readU32Le : Follows data limit (readU32Le data) u32 fun _ => True :=
  ((Follows.takeShort hdata (by decide) _).bind fun _ => .ret _).congr rfl (by simp)

theorem follows_readU64Le : Follows data limit (readU64Le data) u64 fun _ => True :=
  ((Follows.takeShort hdata (by decide) _).bind fun _ => .ret _).congr rfl (by simp)

theorem follows_readIfOverwinter (isOverwinterPlus : Bool) :
    Follows data limit (readIfOverwinter data isOverwinterPlus) (ifOverwinter isOverwinterPlus)
      fun _ => True := by
  unfold readIfOverwinter ifOverwinter
  split
  · exact ((follows_readU32Le hdata).bind fun _ => .ret _).congr rfl (by simp)
  · exact .ret _

theorem follows_readTxIn :
    Follows data limit (readTxIn data) txIn fun bs =>
      ∀ n after, inputScriptLength bs = some (n, after) →
        offset data after + n.toNat < UInt64.size := by
  refine ((Follows.takeShort hdata (n := 32) (by decide) _).bind fun _ =>
    (follows_readU32Le hdata).bind fun _ => (follows_readCompactSizeWith hdata _).bind fun n =>
    (Follows.takeBytes hdata n.toNat_lt _).bind fun _ => (follows_readU32Le hdata).bind fun _ =>
    .ret _).congr ?_ fun bs => ?_
  · simp only [txIn, script, Decoder.bind_assoc]
  · simp only [inputScriptLength, Decoder.forall_bind, true_and, and_true, implies_true]

theorem follows_readTxOut :
    Follows data limit (readTxOut data) txOut fun bs =>
      ∀ n after, outputScriptLength bs = some (n, after) →
        offset data after + n.toNat < UInt64.size := by
  refine ((follows_readU64Le hdata).bind fun _ => (follows_readCompactSizeWith hdata _).bind fun n =>
    (Follows.takeBytes hdata n.toNat_lt _).bind fun _ => .ret _).congr ?_ fun bs => ?_
  · simp only [txOut, script, Decoder.bind_assoc]
  · simp only [outputScriptLength, Decoder.forall_bind, true_and, and_true, implies_true]

end Parts

theorem straight_readU32Le : (readU32Le data).Straight :=
  (Cursor.takeBytes_straight _ _).bind fun _ _ => rfl

theorem straight_readTxIn : (readTxIn data).Straight :=
  (Cursor.takeBytes_straight _ _).bind fun _ => straight_readU32Le.bind fun _ =>
    (straight_readCompactSizeWith _).bind fun _ => (Cursor.takeBytes_straight _ _).bind fun _ =>
    straight_readU32Le.bind fun _ _ => rfl

theorem straight_readTxOut : (readTxOut data).Straight :=
  ((Cursor.takeBytes_straight _ _).bind fun _ _ => rfl).bind fun _ =>
    (straight_readCompactSizeWith _).bind fun _ => (Cursor.takeBytes_straight _ _).bind fun _ _ => rfl

/-! ## The parser -/

/-- What this parser needs: room for the counts, and no script that ends past the machine
words. -/
def inRange (limit : Nat) : FieldConditions where
  header h := h &&& 0x7fffffff = 4 ∨ h &&& 0x7fffffff = 5
  inputCount n := n.toNat * 64 ≤ isizeMax ∧ n.toNat ≤ limit
  inputScript pos n := pos + n.toNat < UInt64.size
  outputCount n := n.toNat * 32 ≤ isizeMax ∧ n.toNat ≤ limit
  outputScript pos n := pos + n.toNat < UInt64.size

section Parser

variable (hdata : data.length ≤ isizeMax)

include hdata

theorem follows_inputs (count : UInt64) :
    Follows data limit (Cursor.times count.toNat (readTxIn data)) (Decoder.times count.toNat txIn)
      (EachLength data txIn inputScriptLength (inRange limit).inputScript count) := by
  refine (follows_readTxIn hdata).times straight_readTxIn (fun bs x rest h => ?_) count.toNat
  have := length_txIn h
  omega

theorem follows_outputs (count : UInt64) :
    Follows data limit (Cursor.times count.toNat (readTxOut data))
      (Decoder.times count.toNat txOut)
      (EachLength data txOut outputScriptLength (inRange limit).outputScript count) := by
  refine (follows_readTxOut hdata).times straight_readTxOut (fun bs x rest h => ?_) count.toNat
  have := length_txOut h
  omega

/-- **`parse_transaction` reads a transaction in version 4 order**, on the inputs whose fields
are in range and on no others. -/
theorem follows_parseFields :
    Follows data limit (parseFields data) (v4Order data) (FieldsMeet (inRange limit) data) := by
  refine ((follows_readU32Le hdata).bind fun header => (Follows.failIf _ _).bind fun _ =>
    (follows_readIfOverwinter hdata _).bind fun group =>
    (follows_readCompactSizeWith hdata _).bind fun inputCount =>
    (Follows.reserve inputCount.toNat 64).bind fun _ =>
    (follows_inputs hdata inputCount).bind fun inputs =>
    (follows_readCompactSizeWith hdata _).bind fun outputCount =>
    (Follows.reserve outputCount.toNat 32).bind fun _ =>
    (follows_outputs hdata outputCount).bind fun outputs =>
    (follows_readU32Le hdata).bind fun lockTime =>
    (follows_readIfOverwinter hdata _).bind fun expiry =>
    Follows.position.bind fun cursor => .ret _).congr ?_ fun bs => ?_
  · simp only [v4Order, Decoder.bind_assoc, Decoder.pure_bind]
  · simp only [FieldsMeet, RestMeets, inRange, Decoder.forall_pure, Decoder.forall_failIf, not_and_or,
      not_not, true_and, and_true, implies_true, ne_eq]

end Parser

theorem parseTransaction_run :
    parseTransaction data .init
      = if data.length < 4 then (.err (.tooShort 4 data.length), .init)
        else parseFields data .init := by
  unfold parseTransaction Cursor.failIf
  split <;> rfl

theorem Machine.at_init : Machine.init.At data data := ⟨Nat.zero_le _, rfl⟩

variable {c : FieldConditions} {bs rest after : List UInt8} {n : UInt64}

/-- Without a header there is nothing to meet a condition. -/
theorem fieldsMeet_of_short (h : data.length < 4) : FieldsMeet c data data := by
  intro header b₁ hheader
  have := length_u32 hheader
  omega

/-- The parser keeps its bounds exactly where the fields are in range. -/
theorem bounded_parseTransaction (hdata : data.length ≤ isizeMax)
    (hlimit : data.length + 1 ≤ limit) :
    Bounded data limit (parseTransaction data .init) ↔ FieldsMeet (inRange limit) data data := by
  rw [parseTransaction_run]
  split
  · rename_i hshort
    exact iff_of_true ⟨by simp, by simp [Machine.init], Nat.zero_le _, by simp [Machine.init]⟩
      (fieldsMeet_of_short hshort)
  · exact (follows_parseFields hdata).bounded_iff Machine.at_init (by simp [Machine.init]) rfl rfl
      hlimit

/-! ## What the parser returns -/

theorem steady_readCompactSize (hdata : data.length ≤ isizeMax) :
    (readCompactSize data).Steady data limit := by
  intro m hm
  unfold readCompactSize
  rw [readCompactSizeWith_run]
  split
  · rename_i hlt
    have hsize : isizeMax + 1 < UInt64.size := by decide
    rw [addUsize_of_lt (by omega)]
    have hfirst : Machine.Sound data limit { m with
        cursor := m.cursor + 1, moves := (m.cursor, m.cursor + 1) :: m.moves } := by
      refine ⟨fun move hmove => ?_, hm.capacities⟩
      rcases List.mem_cons.mp hmove with rfl | hold
      · exact ⟨Nat.le_succ _, hlt⟩
      · exact hm.moves move hold
    unfold readCompactRest
    split
    · exact hfirst
    · exact (Cursor.Steady.takeBytes _ _).bind (fun _ => .ret _) _ hfirst
  · exact hm

theorem steady_readU32Le : (readU32Le data).Steady data limit :=
  (Cursor.Steady.takeBytes _ _).bind fun _ => .ret _

theorem steady_readIfOverwinter (isOverwinterPlus : Bool) :
    (readIfOverwinter data isOverwinterPlus).Steady data limit := by
  unfold readIfOverwinter
  split
  · exact steady_readU32Le.bind fun _ => .ret _
  · exact .ret _

section

variable (hdata : data.length ≤ isizeMax)

include hdata

theorem steady_readTxIn : (readTxIn data).Steady data limit :=
  (Cursor.Steady.takeBytes _ _).bind fun _ => steady_readU32Le.bind fun _ =>
    (steady_readCompactSize hdata).bind fun _ => (Cursor.Steady.takeBytes _ _).bind fun _ =>
    steady_readU32Le.bind fun _ => .ret _

theorem steady_readTxOut : (readTxOut data).Steady data limit :=
  ((Cursor.Steady.takeBytes _ _).bind fun _ => .ret _).bind fun _ =>
    (steady_readCompactSize hdata).bind fun _ => (Cursor.Steady.takeBytes _ _).bind fun _ => .ret _

/-- The parser moves its cursor by what it sliced, so a bad length can only make it panic. -/
theorem steady_parseFields : (parseFields data).Steady data isizeMax :=
  steady_readU32Le.bind fun _ => (Cursor.Steady.failIf _ _).bind fun _ =>
    (steady_readIfOverwinter _).bind fun _ => (steady_readCompactSize hdata).bind fun _ =>
    (Cursor.Steady.reserve (by omega)).bind fun _ =>
    ((steady_readTxIn hdata).times _).bind fun _ => (steady_readCompactSize hdata).bind fun _ =>
    (Cursor.Steady.reserve (by omega)).bind fun _ =>
    ((steady_readTxOut hdata).times _).bind fun _ => steady_readU32Le.bind fun _ =>
    (steady_readIfOverwinter _).bind fun _ => Cursor.Steady.position.bind fun _ => .ret _

end

theorem length_ifOverwinter {isOverwinterPlus : Bool} {v : Option UInt32}
    (h : ifOverwinter isOverwinterPlus bs = some (v, rest)) : rest.length ≤ bs.length := by
  unfold ifOverwinter at h
  split at h
  · obtain ⟨raw, hraw, -⟩ := Decoder.map_eq_some h
    have := length_u32 hraw
    omega
  · obtain ⟨-, rfl⟩ := Decoder.pure_eq_some h
    exact Nat.le_refl _

/-- A script length in front of a script that is there. -/
theorem inputScript_inside {x : TxIn} (hx : txIn bs = some (x, rest))
    (hn : inputScriptLength bs = some (n, after)) (hbs : bs.length ≤ data.length) :
    offset data after + n.toNat + 4 ≤ data.length := by
  obtain ⟨hash, b₁, hhash, hx⟩ := Decoder.bind_eq_some hx
  obtain ⟨index, b₂, hindex, hx⟩ := Decoder.bind_eq_some hx
  obtain ⟨sig, b₃, hsig, hx⟩ := Decoder.bind_eq_some hx
  obtain ⟨seq, b₄, hseq, -⟩ := Decoder.bind_eq_some hx
  obtain ⟨len, b₂', hlen, hbytes⟩ := Decoder.bind_eq_some hsig
  have hsame : inputScriptLength bs = some (len, b₂') := by
    simp [inputScriptLength, Decoder.bind_run, hhash, hindex, hlen]
  obtain ⟨rfl, rfl⟩ := Decoder.unique hsame hn
  have h₁ := length_bytes hhash
  have h₂ := length_u32 hindex
  have h₃ := length_compactSize hlen
  have h₄ := length_bytes hbytes
  have h₅ := length_u32 hseq
  unfold offset
  omega

theorem outputScript_inside {x : TxOut} (hx : txOut bs = some (x, rest))
    (hn : outputScriptLength bs = some (n, after)) (hbs : bs.length ≤ data.length) :
    offset data after + n.toNat ≤ data.length := by
  obtain ⟨value, b₁, hvalue, hx⟩ := Decoder.bind_eq_some hx
  obtain ⟨key, b₂, hkey, -⟩ := Decoder.bind_eq_some hx
  obtain ⟨len, b₁', hlen, hbytes⟩ := Decoder.bind_eq_some hkey
  have hsame : outputScriptLength bs = some (len, b₁') := by
    simp [outputScriptLength, Decoder.bind_run, hvalue, hlen]
  obtain ⟨rfl, rfl⟩ := Decoder.unique hsame hn
  have h₁ := length_u64 hvalue
  have h₂ := length_compactSize hlen
  have h₃ := length_bytes hbytes
  unfold offset
  omega

/-- Conditions that hold of every field that stands inside a slice. -/
structure FieldConditions.Lax (c : FieldConditions) (data : List UInt8) : Prop where
  inputCount : ∀ n, n.toNat * 41 ≤ data.length → c.inputCount n
  inputScript : ∀ pos n, pos + n.toNat + 4 ≤ data.length → c.inputScript pos n
  outputCount : ∀ n, n.toNat * 9 ≤ data.length → c.outputCount n
  outputScript : ∀ pos n, pos + n.toNat ≤ data.length → c.outputScript pos n

/-- In a slice that decodes, every field stands inside. -/
theorem fieldsMeet_of_decodes (hc : c.Lax data) {p : ParsedTx}
    (h : v4Order data data = some (p, rest)) : FieldsMeet c data data := by
  obtain ⟨header, b₁, hheader, h⟩ := Decoder.bind_eq_some h
  obtain ⟨_, b₁', hversion, h⟩ := Decoder.bind_eq_some h
  obtain ⟨group, b₂, hgroup, h⟩ := Decoder.bind_eq_some h
  obtain ⟨inputCount, b₃, hinputCount, h⟩ := Decoder.bind_eq_some h
  obtain ⟨inputs, b₄, hinputs, h⟩ := Decoder.bind_eq_some h
  obtain ⟨outputCount, b₅, houtputCount, h⟩ := Decoder.bind_eq_some h
  obtain ⟨outputs, b₆, houtputs, -⟩ := Decoder.bind_eq_some h
  obtain ⟨-, rfl⟩ := Decoder.failIf_eq_some hversion
  have h₁ := length_u32 hheader
  have h₂ := length_ifOverwinter hgroup
  have h₃ := length_compactSize hinputCount
  have h₄ := Decoder.length_times (fun _ _ _ => length_txIn) hinputs
  have h₅ := length_compactSize houtputCount
  have h₆ := Decoder.length_times (fun _ _ _ => length_txOut) houtputs
  -- what the conditions range over is what the decoder found
  intro header' _ hheader' _ group' _ hgroup' count' _ hcount'
  obtain ⟨rfl, rfl⟩ := Decoder.unique hheader hheader'
  obtain ⟨rfl, rfl⟩ := Decoder.unique hgroup hgroup'
  obtain ⟨rfl, rfl⟩ := Decoder.unique hinputCount hcount'
  refine ⟨hc.inputCount _ (by omega), ?_, ?_⟩
  · intro k hk items mid hitems n after hn
    obtain ⟨x, after', hx⟩ := Decoder.times_item hk hinputs hitems
    have hmid := Decoder.length_times (fun _ _ _ => length_txIn) hitems
    exact hc.inputScript _ _ (inputScript_inside hx hn (by omega))
  · intro inputs' _ hinputs' count' _ hcount'
    obtain ⟨rfl, rfl⟩ := Decoder.unique hinputs hinputs'
    obtain ⟨rfl, rfl⟩ := Decoder.unique houtputCount hcount'
    refine ⟨hc.outputCount _ (by omega), ?_⟩
    intro k hk items mid hitems n after hn
    obtain ⟨x, after', hx⟩ := Decoder.times_item hk houtputs hitems
    have hmid := Decoder.length_times (fun _ _ _ => length_txOut) hitems
    exact hc.outputScript _ _ (outputScript_inside hx hn (by omega))

/-- The memory for one item is a few times its bytes, so a slice of this size has room. -/
theorem inRange_lax (hdata : data.length * 8 ≤ isizeMax) : (inRange isizeMax).Lax data where
  inputCount n h := ⟨by omega, by omega⟩
  inputScript pos n h := by
    have hsize : isizeMax < UInt64.size := by decide
    show _ < _
    omega
  outputCount n h := ⟨by omega, by omega⟩
  outputScript pos n h := by
    have hsize : isizeMax < UInt64.size := by decide
    show _ < _
    omega

/-- **`parse_transaction` returns what version 4 order says, and nothing else.** -/
theorem parseTransaction_ok_iff (hdata : data.length * 8 ≤ isizeMax) (p : ParsedTx) :
    (parseTransaction data .init).1 = .ok p ↔ ∃ rest, v4Order data data = some (p, rest) := by
  have hfits : data.length ≤ isizeMax := by omega
  have hfollows : Follows data isizeMax (parseFields data) (v4Order data)
      (FieldsMeet (inRange isizeMax) data) := follows_parseFields hfits
  rw [parseTransaction_run]
  split
  · rename_i hshort
    refine iff_of_false (by simp) ?_
    rintro ⟨rest, h⟩
    obtain ⟨header, b₁, hheader, -⟩ := Decoder.bind_eq_some h
    have := length_u32 hheader
    omega
  · constructor
    · intro h
      by_cases hsafe : FieldsMeet (inRange isizeMax) data data
      · cases hd : v4Order data data with
        | none =>
          obtain ⟨e, m', hrun, -⟩ := hfollows.err Machine.at_init hsafe hd
          rw [hrun] at h
          cases h
        | some r =>
          obtain ⟨m', hrun, -⟩ := hfollows.ok Machine.at_init hsafe hd
          rw [hrun] at h
          injection h with h
          exact ⟨r.2, by rw [← h]⟩
      · rw [hfollows.panics (steady_parseFields hfits) Machine.at_init Machine.sound_init hsafe] at h
        cases h
    · rintro ⟨rest, h⟩
      have hsafe := fieldsMeet_of_decodes (inRange_lax hdata) h
      obtain ⟨m', hrun, -⟩ := hfollows.ok Machine.at_init hsafe h
      rw [hrun]

end MiningInfra.Coinbase
