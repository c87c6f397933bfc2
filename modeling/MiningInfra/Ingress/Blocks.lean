import MiningInfra.Lib.Passing
import MiningInfra.Relay.Builder

/-!
# The block parser of the ingress

The ingress cuts a block into its transactions without reading them: it walks over the fields
that have a length and skips everything else. It has no reader to fall back on, so a field it
forgets shifts every transaction behind it.
-/

namespace MiningInfra.Ingress

open Lib Lib.Cursor Coinbase Relay

section Code

variable (payload : List UInt8)

/-! ## Words -/

def readU8 : Cursor String UInt8 := do
  let cursor ← position
  match payload[cursor]? with
  | none => fail "unexpected end of payload"
  | some value =>
    Cursor.advance 1
    pure value

/-- `read_exact`. -/
def readExact (n : Nat) : Cursor String (List UInt8) :=
  takeChecked payload n "cursor overflow" "unexpected end of payload"

def readU16Le : Cursor String UInt16 := do
  let bytes ← readExact payload 2
  pure (UInt16.ofNat (leNat bytes))

def readU32Le : Cursor String UInt32 := do
  let bytes ← readExact payload 4
  pure (UInt32.ofNat (leNat bytes))

def readU64Le : Cursor String UInt64 := do
  let bytes ← readExact payload 8
  pure (UInt64.ofNat (leNat bytes))

def decodeCompactSize : Cursor String UInt64 := do
  let first ← readU8 payload
  if first ≤ 252 then pure first.toUInt64
  else if first = 0xfd then do
    let value ← readU16Le payload
    pure value.toUInt64
  else if first = 0xfe then do
    let value ← readU32Le payload
    pure value.toUInt64
  else readU64Le payload

/-! ## Skipping -/

def skipBytes (len : Nat) (label : String) : Cursor String Unit := do
  let _ ← takeChecked payload len s!"{label} cursor overflow"
    s!"unexpected end of payload while reading {label}"
  pure ()

/-- `if c { skip_bytes(..)?; }`. -/
def skipBytesIf (c : Prop) [Decidable c] (len : Nat) (label : String) : Cursor String Unit :=
  if c then skipBytes payload len label else pure ()

/-- A `u64` is a `usize` here, so the length is never too large for one. -/
def skipCountedBytes (len : UInt64) (label : String) : Cursor String Unit :=
  skipBytes payload len.toNat label

def skipFixedItems (count : UInt64) (itemSize : Nat) (label : String) : Cursor String Unit := do
  failIf (UInt64.size ≤ count.toNat * itemSize) s!"{label} byte count overflow"
  skipBytes payload (count.toNat * itemSize) label

/-- `{:#x}`. -/
def hexOf (n : UInt32) : String := "0x" ++ String.ofList (Nat.toDigits 16 n.toNat)

def expectU32 (expected : UInt32) (label : String) : Cursor String Unit := do
  let actual ← readU32Le payload
  failIf (actual ≠ expected)
    (label ++ " mismatch: expected " ++ hexOf expected ++ ", got " ++ hexOf actual)

def skipTransparentInputs : Cursor String Unit := do
  let count ← decodeCompactSize payload
  let _ ← times count.toNat do
    skipBytes payload (32 + 4) "transparent input outpoint"
    let scriptLen ← decodeCompactSize payload
    skipCountedBytes payload scriptLen "transparent input script"
    skipBytes payload 4 "transparent input sequence"
  pure ()

def skipTransparentOutputs : Cursor String Unit := do
  let count ← decodeCompactSize payload
  let _ ← times count.toNat do
    skipBytes payload 8 "transparent output value"
    let scriptLen ← decodeCompactSize payload
    skipCountedBytes payload scriptLen "transparent output script"
  pure ()

def bctv14JoinsplitSize : Nat :=
  8 + 8 + 32 + (32 * 2) + (32 * 2) + 32 + 32 + (32 * 2) + (601 * 2) + 296

def groth16JoinsplitSize : Nat :=
  8 + 8 + 32 + (32 * 2) + (32 * 2) + 32 + 32 + (32 * 2) + (601 * 2) + 192

def saplingV4SpendSize : Nat := 32 + 32 + 32 + 32 + 192 + 64

def saplingV5SpendPrefixSize : Nat := 32 + 32 + 32

def saplingOutputPrefixSize : Nat := 32 + 32 + 32 + 580 + 80

def saplingOutputSize : Nat := saplingOutputPrefixSize + 192

def orchardActionSize : Nat := 5 * 32 + 580 + 80

def reddsaSignatureSize : Nat := 64

def skipJoinsplitData (itemSize : Nat) : Cursor String Unit := do
  let count ← decodeCompactSize payload
  skipFixedItems payload count itemSize "joinsplit"
  if 0 < count then do
    skipBytes payload 32 "joinsplit pubkey"
    skipBytes payload 64 "joinsplit signature"
  else pure ()

def skipV4SaplingAndSprout : Cursor String Unit := do
  skipBytes payload 8 "sapling value balance"
  let spendCount ← decodeCompactSize payload
  skipFixedItems payload spendCount saplingV4SpendSize "v4 sapling spend"
  let outputCount ← decodeCompactSize payload
  skipFixedItems payload outputCount saplingOutputSize "v4 sapling output"
  skipJoinsplitData payload groth16JoinsplitSize
  skipBytesIf payload (0 < spendCount ∨ 0 < outputCount) reddsaSignatureSize
    "sapling binding signature"

def skipV5Sapling : Cursor String Unit := do
  let spendCount ← decodeCompactSize payload
  skipFixedItems payload spendCount saplingV5SpendPrefixSize "v5 sapling spend prefix"
  let outputCount ← decodeCompactSize payload
  skipFixedItems payload outputCount saplingOutputPrefixSize "v5 sapling output prefix"
  if spendCount = 0 ∧ outputCount = 0 then pure ()
  else do
    skipBytes payload 8 "sapling value balance"
    skipBytesIf payload (0 < spendCount) 32 "sapling shared anchor"
    skipFixedItems payload spendCount 192 "v5 sapling spend proof"
    skipFixedItems payload spendCount reddsaSignatureSize "v5 sapling spend auth signature"
    skipFixedItems payload outputCount 192 "v5 sapling output proof"
    skipBytes payload reddsaSignatureSize "sapling binding signature"

def skipOrchard : Cursor String Unit := do
  let actionCount ← decodeCompactSize payload
  skipFixedItems payload actionCount orchardActionSize "orchard action"
  if actionCount = 0 then pure ()
  else do
    skipBytes payload 1 "orchard flags"
    skipBytes payload 8 "orchard value balance"
    skipBytes payload 32 "orchard anchor"
    let proofLen ← decodeCompactSize payload
    skipCountedBytes payload proofLen "orchard proof"
    skipFixedItems payload actionCount reddsaSignatureSize "orchard spend auth signature"
    skipBytes payload reddsaSignatureSize "orchard binding signature"

def overwinteredFlag : UInt32 := (1 : UInt32) <<< 31

def overwinterVersionGroupId : UInt32 := 0x03c48270

def saplingVersionGroupId : UInt32 := 0x892f2085

def txV5VersionGroupId : UInt32 := 0x26a7270a

def txV6VersionGroupId : UInt32 := 0xd884b698

/-! ## Transactions and blocks -/

/-- What versions 5 and 6 share. -/
def skipV5Common (versionGroupId : UInt32) (label : String) : Cursor String Unit := do
  expectU32 payload versionGroupId label
  skipBytes payload 4 "consensus_branch_id"
  skipBytes payload 4 "lock_time"
  skipBytes payload 4 "expiry_height"
  skipTransparentInputs payload
  skipTransparentOutputs payload
  skipV5Sapling payload
  skipOrchard payload

def skipTransaction : Cursor String Unit := do
  let header ← readU32Le payload
  let version := header &&& ~~~ overwinteredFlag
  let overwintered := header &&& overwinteredFlag ≠ 0
  if version = 1 ∧ ¬ overwintered then do
    skipTransparentInputs payload
    skipTransparentOutputs payload
    skipBytes payload 4 "lock_time"
  else if version = 2 ∧ ¬ overwintered then do
    skipTransparentInputs payload
    skipTransparentOutputs payload
    skipBytes payload 4 "lock_time"
    skipJoinsplitData payload bctv14JoinsplitSize
  else if version = 3 ∧ overwintered then do
    expectU32 payload overwinterVersionGroupId "Overwinter version group"
    skipTransparentInputs payload
    skipTransparentOutputs payload
    skipBytes payload 4 "lock_time"
    skipBytes payload 4 "expiry_height"
    skipJoinsplitData payload bctv14JoinsplitSize
  else if version = 4 ∧ overwintered then do
    expectU32 payload saplingVersionGroupId "Sapling version group"
    skipTransparentInputs payload
    skipTransparentOutputs payload
    skipBytes payload 4 "lock_time"
    skipBytes payload 4 "expiry_height"
    skipV4SaplingAndSprout payload
  else if version = 5 ∧ overwintered then
    skipV5Common payload txV5VersionGroupId "v5 version group"
  else if version = 6 ∧ overwintered then do
    -- the Orchard slot, then the Ironwood slot
    skipV5Common payload txV6VersionGroupId "v6 version group"
    skipOrchard payload
  else fail ("unsupported transaction header version=" ++ toString version ++ " overwintered="
    ++ toString (decide overwintered))

/-- One round of the loop over the transactions. -/
def nextBoundary : Cursor String (Nat × Nat) := do
  let start ← position
  skipTransaction payload
  let stop ← position
  pure (start, stop)

/-- The transactions from their count on. A `Range<usize>` takes 16 bytes. -/
def countedBoundaries : Cursor String (List (Nat × Nat)) := do
  let txCount ← decodeCompactSize payload
  failIf (txCount = 0) "block payload has no transactions"
  Cursor.ofExcept (checkPrefilledIndexRange txCount.toNat)
  reserve txCount.toNat 16
  let boundaries ← times txCount.toNat (nextBoundary payload)
  let cursor ← position
  failIf (cursor ≠ payload.length)
    s!"trailing bytes after block transactions: {payload.length - cursor}"
  pure boundaries

/-- `transaction_boundaries`. -/
def transactionBoundaries : Cursor String (List (Nat × Nat)) := do
  failIf (payload.length < zcashFullHeaderSize) "block payload shorter than Zcash header"
  Cursor.advance zcashFullHeaderSize
  countedBoundaries payload

end Code

end MiningInfra.Ingress
