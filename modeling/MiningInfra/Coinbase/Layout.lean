import Mathlib.Data.Fintype.Basic
import MiningInfra.Lib.Cursor

/-!
# The bytes of a transaction

The transparent part of a transaction as bytes: little-endian integers, compact
sizes, inputs and outputs, each as a decoder that consumes it from the front and as
the bytes it is written as. The decoders know no cursor and no machine word; they say
what the fields are, and the parsers are measured against them.
-/

namespace MiningInfra.Coinbase

open Lib

/-- `[u8; 32]`. -/
abbrev Bytes32 := Fin 32 → UInt8

instance : LawfulBEq Bytes32 := inferInstance

/-- A little-endian number. -/
def leNat : List UInt8 → Nat
  | [] => 0
  | b :: bs => b.toNat + 256 * leNat bs

def toBytes32 (bs : List UInt8) : Bytes32 := fun i => bs.getD i 0

structure TxIn where
  prevoutHash : Bytes32
  prevoutIndex : UInt32
  scriptSig : List UInt8
  sequence : UInt32

structure TxOut where
  value : UInt64
  scriptPubkey : List UInt8
  deriving DecidableEq, Repr

/-! ## Decoders -/

def u32 : Decoder UInt32 := do
  let bs ← Decoder.bytes 4
  pure (UInt32.ofNat (leNat bs))

def u64 : Decoder UInt64 := do
  let bs ← Decoder.bytes 8
  pure (UInt64.ofNat (leNat bs))

/-- How many bytes follow the first byte of a compact size that does not stand for itself. -/
def compactWidth (first : UInt8) : Nat :=
  if first = 0xfd then 2 else if first = 0xfe then 4 else 8

/-- What a compact size is after its first byte. -/
def compactRest (first : UInt8) : Decoder UInt64 :=
  if first ≤ 0xfc then pure first.toUInt64
  else do
    let value ← Decoder.bytes (compactWidth first)
    pure (UInt64.ofNat (leNat value))

/-- A compact size. Longer forms than needed are accepted. -/
def compactSize : Decoder UInt64 := fun bs => match bs with
  | [] => none
  | first :: rest => compactRest first rest

/-- A length and that many bytes. -/
def script : Decoder (List UInt8) := do
  let len ← compactSize
  Decoder.bytes len.toNat

def txIn : Decoder TxIn := do
  let prevoutHash ← Decoder.bytes 32
  let prevoutIndex ← u32
  let scriptSig ← script
  let sequence ← u32
  pure ⟨toBytes32 prevoutHash, prevoutIndex, scriptSig, sequence⟩

def txOut : Decoder TxOut := do
  let value ← u64
  let scriptPubkey ← script
  pure ⟨value, scriptPubkey⟩

/-- An input up to the length of its script. -/
def inputScriptLength : Decoder UInt64 := do
  let _ ← Decoder.bytes 32
  let _ ← u32
  compactSize

/-- An output up to the length of its script. -/
def outputScriptLength : Decoder UInt64 := do
  let _ ← u64
  compactSize

/-! ## Decoders consume -/

variable {bs v rest : List UInt8} {n : UInt64} {x : TxIn} {first : UInt8}

theorem length_bytes {n : Nat} (h : Decoder.bytes n bs = some (v, rest)) :
    rest.length + n = bs.length := by
  obtain ⟨hle, -, rfl⟩ := Decoder.bytes_eq_some h
  rw [List.length_drop]
  omega

theorem length_u32 {v : UInt32} (h : u32 bs = some (v, rest)) : rest.length + 4 = bs.length := by
  obtain ⟨raw, hraw, -⟩ := Decoder.map_eq_some h
  exact length_bytes hraw

theorem u32_eq_some {v : UInt32} (h : u32 bs = some (v, rest)) : rest = bs.drop 4 := by
  obtain ⟨raw, hraw, -⟩ := Decoder.map_eq_some h
  exact (Decoder.bytes_eq_some hraw).2.2

theorem length_u64 {v : UInt64} (h : u64 bs = some (v, rest)) : rest.length + 8 = bs.length := by
  obtain ⟨raw, hraw, -⟩ := Decoder.map_eq_some h
  exact length_bytes hraw

theorem length_compactRest (h : compactRest first bs = some (n, rest)) :
    rest.length ≤ bs.length := by
  unfold compactRest at h
  split at h
  · obtain ⟨-, rfl⟩ := Decoder.pure_eq_some h
    exact Nat.le_refl _
  · obtain ⟨raw, hraw, -⟩ := Decoder.map_eq_some h
    have := length_bytes hraw
    omega

theorem length_compactSize (h : compactSize bs = some (n, rest)) : rest.length < bs.length := by
  cases bs with
  | nil => exact absurd h (by simp [compactSize])
  | cons first tail => exact Nat.lt_succ_of_le (length_compactRest h)

theorem length_script (h : script bs = some (v, rest)) : rest.length < bs.length := by
  obtain ⟨n, mid, hlen, hbytes⟩ := Decoder.bind_eq_some h
  have h₁ := length_compactSize hlen
  have h₂ := length_bytes hbytes
  omega

/-- An input takes at least 41 bytes. -/
theorem length_txIn (h : txIn bs = some (x, rest)) : rest.length + 41 ≤ bs.length := by
  obtain ⟨hash, b₁, hhash, h⟩ := Decoder.bind_eq_some h
  obtain ⟨index, b₂, hindex, h⟩ := Decoder.bind_eq_some h
  obtain ⟨sig, b₃, hsig, h⟩ := Decoder.bind_eq_some h
  obtain ⟨seq, hseq, -⟩ := Decoder.map_eq_some h
  have h₁ := length_bytes hhash
  have h₂ := length_u32 hindex
  have h₃ := length_script hsig
  have h₄ := length_u32 hseq
  omega

/-- An output takes at least 9. -/
theorem length_txOut {x : TxOut} (h : txOut bs = some (x, rest)) : rest.length + 9 ≤ bs.length := by
  obtain ⟨value, b₁, hvalue, h⟩ := Decoder.bind_eq_some h
  obtain ⟨key, hkey, -⟩ := Decoder.map_eq_some h
  have h₁ := length_u64 hvalue
  have h₂ := length_script hkey
  omega

/-! ## Writing -/

/-- The low `width` bytes of a number, lowest first. -/
def leBytes : Nat → Nat → List UInt8
  | 0, _ => []
  | width + 1, n => UInt8.ofNat n :: leBytes width (n / 256)

def u32Bytes (v : UInt32) : List UInt8 := leBytes 4 v.toNat

def u64Bytes (v : UInt64) : List UInt8 := leBytes 8 v.toNat

/-- `push_compact_size`. -/
def pushCompactSize (n : UInt64) : List UInt8 :=
  if n < 0xfd then [n.toUInt8]
  else if n ≤ 0xffff then 0xfd :: leBytes 2 n.toNat
  else if n ≤ 0xffffffff then 0xfe :: leBytes 4 n.toNat
  else 0xff :: leBytes 8 n.toNat

def scriptBytes (s : List UInt8) : List UInt8 := pushCompactSize (UInt64.ofNat s.length) ++ s

def TxIn.bytes (x : TxIn) : List UInt8 :=
  List.ofFn x.prevoutHash ++ u32Bytes x.prevoutIndex ++ scriptBytes x.scriptSig
    ++ u32Bytes x.sequence

def TxOut.bytes (x : TxOut) : List UInt8 := u64Bytes x.value ++ scriptBytes x.scriptPubkey

theorem length_leBytes (width n : Nat) : (leBytes width n).length = width := by
  induction width generalizing n with
  | zero => rfl
  | succ width ih => simp [leBytes, ih]

/-- How many numbers fit in `width` bytes. -/
def span : Nat → Nat
  | 0 => 1
  | width + 1 => 256 * span width

theorem leNat_leBytes {width n : Nat} (h : n < span width) : leNat (leBytes width n) = n := by
  induction width generalizing n with
  | zero => exact (Nat.lt_one_iff.mp h).symm
  | succ width ih =>
    have hdiv : n / 256 < span width := by
      rw [span] at h
      omega
    rw [leBytes, leNat, ih hdiv, UInt8.toNat_ofNat']
    omega

theorem leBytes_leNat (bs : List UInt8) : leBytes bs.length (leNat bs) = bs := by
  induction bs with
  | nil => rfl
  | cons b bs ih =>
    have hlow : UInt8.ofNat (b.toNat + 256 * leNat bs) = b := by
      apply UInt8.toNat_inj.mp
      rw [UInt8.toNat_ofNat']
      have := b.toNat_lt
      omega
    have hhigh : (b.toNat + 256 * leNat bs) / 256 = leNat bs := by
      have := b.toNat_lt
      omega
    rw [List.length_cons, leNat, leBytes, hlow, hhigh, ih]

theorem leNat_lt_span (bs : List UInt8) : leNat bs < span bs.length := by
  induction bs with
  | nil => decide
  | cons b bs ih =>
    have := b.toNat_lt
    rw [List.length_cons, leNat, span]
    omega

/-- A field of fixed width is read back. -/
theorem bytes_leBytes (width n : Nat) (rest : List UInt8) :
    Decoder.bytes width (leBytes width n ++ rest) = some (leBytes width n, rest) := by
  have h := Decoder.bytes_append (leBytes width n) rest
  rwa [length_leBytes] at h

theorem u32_u32Bytes (v : UInt32) (rest : List UInt8) : u32 (u32Bytes v ++ rest) = some (v, rest) := by
  have h : leNat (leBytes 4 v.toNat) = v.toNat := leNat_leBytes v.toNat_lt
  simp [u32, u32Bytes, Decoder.bind_run, bytes_leBytes, Decoder.pure_run, h]

theorem u64_u64Bytes (v : UInt64) (rest : List UInt8) : u64 (u64Bytes v ++ rest) = some (v, rest) := by
  have h : leNat (leBytes 8 v.toNat) = v.toNat := leNat_leBytes v.toNat_lt
  simp [u64, u64Bytes, Decoder.bind_run, bytes_leBytes, Decoder.pure_run, h]

/-- The longer forms of a compact size. -/
theorem compactRest_leBytes (hfirst : ¬ first ≤ 0xfc) (hn : n.toNat < span (compactWidth first))
    (rest : List UInt8) :
    compactRest first (leBytes (compactWidth first) n.toNat ++ rest) = some (n, rest) := by
  rw [compactRest, if_neg hfirst]
  simp [Decoder.bind_run, bytes_leBytes, Decoder.pure_run, leNat_leBytes hn]

theorem compactSize_pushCompactSize (n : UInt64) (rest : List UInt8) :
    compactSize (pushCompactSize n ++ rest) = some (n, rest) := by
  unfold pushCompactSize
  split
  · rename_i hsmall
    have hnat : n.toNat < 253 := hsmall
    have hle : n.toUInt8 ≤ 0xfc := by
      show n.toNat % 256 ≤ 252
      omega
    have hback : n.toUInt8.toUInt64 = n := by
      apply UInt64.toNat_inj.mp
      simp
      omega
    simp [compactSize, compactRest, hle, hback, Decoder.pure_run]
  · split
    · rename_i hsmall
      have hspan : n.toNat < span (compactWidth 0xfd) := Nat.lt_succ_of_le hsmall
      exact compactRest_leBytes (by decide) hspan rest
    · split
      · rename_i hsmall
        have hspan : n.toNat < span (compactWidth 0xfe) := Nat.lt_succ_of_le hsmall
        exact compactRest_leBytes (by decide) hspan rest
      · have hspan : n.toNat < span (compactWidth 0xff) := n.toNat_lt
        exact compactRest_leBytes (by decide) hspan rest

theorem length_pushCompactSize_of_lt {first : UInt8} {n : UInt64}
    (h : n.toNat < span (compactWidth first)) :
    (pushCompactSize n).length ≤ compactWidth first + 1 := by
  have h16 : span 2 = 0xffff + 1 := rfl
  have h32 : span 4 = 0xffffffff + 1 := rfl
  unfold pushCompactSize compactWidth at *
  simp only [UInt64.lt_iff_toNat_lt, UInt64.le_iff_toNat_le, UInt64.reduceToNat]
  split_ifs at h ⊢ <;> simp only [List.length_cons, List.length_nil, length_leBytes] <;> omega

/-- No form of a number is shorter than the one that is written. -/
theorem length_pushCompactSize_le {bs rest : List UInt8} {n : UInt64}
    (h : compactSize bs = some (n, rest)) :
    (pushCompactSize n).length + rest.length ≤ bs.length := by
  cases bs with
  | nil => exact absurd h (by simp [compactSize])
  | cons first tail =>
    change compactRest first tail = _ at h
    unfold compactRest at h
    split at h
    · rename_i hfirst
      obtain ⟨rfl, rfl⟩ := Decoder.pure_eq_some h
      have hsmall : first.toUInt64 < 0xfd := Nat.lt_succ_of_le hfirst
      rw [pushCompactSize, if_pos hsmall]
      exact Nat.le_of_eq (Nat.add_comm _ _)
    · obtain ⟨raw, hraw, rfl⟩ := Decoder.map_eq_some h
      obtain ⟨hle, hv, hrest⟩ := Decoder.bytes_eq_some hraw
      have hlen : raw.length = compactWidth first := hv ▸ List.length_take_of_le hle
      have hspan : leNat raw < span (compactWidth first) := hlen ▸ leNat_lt_span raw
      have hshort := length_pushCompactSize_of_lt (n := UInt64.ofNat (leNat raw))
        (Nat.lt_of_le_of_lt (Nat.mod_le _ _) hspan)
      rw [hrest, List.length_drop, List.length_cons]
      omega

/-- A script is read back when its length is a machine word. -/
theorem script_scriptBytes {s : List UInt8} (hs : s.length < UInt64.size) (rest : List UInt8) :
    script (scriptBytes s ++ rest) = some (s, rest) := by
  have hlen : (UInt64.ofNat s.length).toNat = s.length := UInt64.toNat_ofNat_of_lt' hs
  rw [scriptBytes, List.append_assoc, script, Decoder.bind_run, compactSize_pushCompactSize]
  simp only [Option.bind_some, hlen]
  exact Decoder.bytes_append s rest

theorem toBytes32_ofFn (h : Bytes32) : toBytes32 (List.ofFn h) = h := by
  funext i
  rw [toBytes32, List.getD_eq_getElem?_getD, List.getElem?_ofFn, dif_pos i.isLt]
  rfl

theorem txIn_bytes (hx : x.scriptSig.length < UInt64.size) (rest : List UInt8) :
    txIn (x.bytes ++ rest) = some (x, rest) := by
  have hhash : ∀ tail, Decoder.bytes 32 (List.ofFn x.prevoutHash ++ tail)
      = some (List.ofFn x.prevoutHash, tail) := fun tail => by
    have h := Decoder.bytes_append (List.ofFn x.prevoutHash) tail
    rwa [List.length_ofFn] at h
  simp only [txIn, TxIn.bytes, List.append_assoc, Decoder.bind_run, hhash, Option.bind_some,
    u32_u32Bytes, script_scriptBytes hx, Decoder.pure_run, toBytes32_ofFn]

theorem txOut_bytes {x : TxOut} (hx : x.scriptPubkey.length < UInt64.size) (rest : List UInt8) :
    txOut (x.bytes ++ rest) = some (x, rest) := by
  simp only [txOut, TxOut.bytes, List.append_assoc, Decoder.bind_run, Option.bind_some,
    u64_u64Bytes, script_scriptBytes hx, Decoder.pure_run]

end MiningInfra.Coinbase
