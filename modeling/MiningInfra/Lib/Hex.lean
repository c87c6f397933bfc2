import Mathlib.Data.UInt

/-!
# Hexadecimal text

Reading pairs of hexadecimal digits, in either case, as bytes. Whatever digits a writer uses for
the sixteen values, as long as each is read as its value, its text is read back.
-/

namespace MiningInfra.Lib.Hex

def value (c : Char) : Option Nat :=
  if 'A' ≤ c ∧ c ≤ 'F' then some (c.toNat - 'A'.toNat + 10)
  else if 'a' ≤ c ∧ c ≤ 'f' then some (c.toNat - 'a'.toNat + 10)
  else if '0' ≤ c ∧ c ≤ '9' then some (c.toNat - '0'.toNat)
  else none

def readPairs : List Char → Option (List UInt8)
  | [] => some []
  | [_] => none
  | high :: low :: rest => do
    let high ← value high
    let low ← value low
    let bytes ← readPairs rest
    pure (UInt8.ofNat (high * 16 + low) :: bytes)

/-- `hex::decode`. -/
def decode (text : String) : Option (List UInt8) := readPairs text.toList

theorem readPairs_cons {high low : Char} {rest : List Char} {byte : UInt8}
    (hhigh : value high = some (byte.toNat / 16)) (hlow : value low = some (byte.toNat % 16)) :
    readPairs (high :: low :: rest) = (readPairs rest).map (byte :: ·) := by
  have hbyte : UInt8.ofNat (byte.toNat / 16 * 16 + byte.toNat % 16) = byte := by
    rw [Nat.div_add_mod' byte.toNat 16, UInt8.ofNat_toNat]
  rw [readPairs, hhigh, hlow]
  simp only [Option.bind_eq_bind, Option.bind_some, hbyte]
  cases readPairs rest <;> rfl

/-- The text a writer makes of some bytes is read as those bytes. -/
theorem readPairs_flatMap {digit : Nat → Char} (h : ∀ n < 16, value (digit n) = some n)
    (bytes : List UInt8) :
    readPairs (bytes.flatMap fun b => [digit (b.toNat / 16), digit (b.toNat % 16)])
      = some bytes := by
  induction bytes with
  | nil => rfl
  | cons byte bytes ih =>
    have hbyte := byte.toNat_lt
    rw [List.flatMap_cons, List.cons_append, List.cons_append, List.nil_append,
      readPairs_cons (h _ (by omega)) (h _ (by omega)), ih]
    rfl

end MiningInfra.Lib.Hex
