import Mathlib.Data.List.Basic

/-!
# Frames behind a two-byte length

A frame is a payload behind its length in two bytes, most significant byte first. A reader
takes the bytes as they come, never more than it needs for the part it is at. Whatever the
pieces, it returns the payload when the last byte is in (`feed_frame`), and a stream of frames
that is used up leaves no reader in the middle of one.
-/

namespace MiningInfra.Lib.Frames

def lengthBytes (n : Nat) : List UInt8 := [UInt8.ofNat (n / 256), UInt8.ofNat n]

def readLength (hi lo : UInt8) : Nat := hi.toNat * 256 + lo.toNat

def frame (payload : List UInt8) : List UInt8 := lengthBytes payload.length ++ payload

theorem readLength_lengthBytes {n : Nat} (h : n < 65536) :
    readLength (UInt8.ofNat (n / 256)) (UInt8.ofNat n) = n := by
  rw [readLength, UInt8.toNat_ofNat', UInt8.toNat_ofNat']
  omega

theorem lengthBytes_inj {n m : Nat} (hn : n < 65536) (hm : m < 65536)
    (h : lengthBytes n = lengthBytes m) : n = m := by
  simp only [lengthBytes, List.cons.injEq, and_true] at h
  rw [← readLength_lengthBytes hn, ← readLength_lengthBytes hm, h.1, h.2]

/-! ## The reader -/

/-- A read in progress: the bytes of the length, or the length and the bytes of the body. -/
inductive Reading where
  | length (got : List UInt8)
  | body (len : Nat) (got : List UInt8)
  deriving DecidableEq, Repr

namespace Reading

/-- A read that has taken nothing. -/
def start : Reading := .length []

/-- The bytes the current part still needs. -/
def missing : Reading → Nat
  | .length got => 2 - got.length
  | .body len got => len - got.length

/-- What the read has taken from the stream. -/
def bytes : Reading → List UInt8
  | .length got => got
  | .body len got => lengthBytes len ++ got

/-- Go on with some bytes: the read is still in progress or returns the payload. -/
def feed (r : Reading) (bytes : List UInt8) : Reading ⊕ List UInt8 :=
  match r with
  | .length got =>
    match got ++ bytes with
    | [hi, lo] => if readLength hi lo = 0 then .inr [] else .inl (.body (readLength hi lo) [])
    | l => .inl (.length l)
  | .body len got =>
    if (got ++ bytes).length = len then .inr (got ++ bytes) else .inl (.body len (got ++ bytes))

/-- The current part is not complete. -/
def Open : Reading → Prop
  | .length got => got.length < 2
  | .body len got => got.length < len ∧ len < 65536

theorem open_start : start.Open := by simp [start, Open]

theorem missing_pos {r : Reading} (h : r.Open) : 0 < r.missing := by
  cases r with
  | length got => have : got.length < 2 := h; simp only [missing]; omega
  | body len got => have := h.1; simp only [missing]; omega

/-- The part of a frame that a reader at its body has seen fixes the length. -/
theorem body_of_frame {len : Nat} {got payload rest more : List UInt8} (hlen : len < 65536)
    (hpayload : payload.length < 65536)
    (h : (Reading.body len got).bytes ++ rest = frame payload ++ more) :
    len = payload.length ∧ got ++ rest = payload ++ more := by
  simp only [bytes, frame, List.append_assoc] at h
  obtain ⟨hlength, hbody⟩ := List.append_inj h rfl
  exact ⟨lengthBytes_inj hlen hpayload hlength, hbody⟩

/-- **One piece of a frame**: the reader has taken it in, or it was the last one. -/
theorem feed_frame {r : Reading} {piece payload rest more : List UInt8} (hr : r.Open)
    (hne : payload ≠ []) (hpayload : payload.length < 65536) (hpiece : piece.length ≤ r.missing)
    (h : r.bytes ++ (piece ++ rest) = frame payload ++ more) :
    (∃ r', r.feed piece = .inl r' ∧ r'.Open ∧ r'.bytes = r.bytes ++ piece)
      ∨ (r.feed piece = .inr payload ∧ rest = more) := by
  cases r with
  | length got =>
    left
    simp only [missing] at hpiece
    by_cases htwo : (got ++ piece).length = 2
    · -- both bytes of the length are in: they are those of the payload
      have hstream : (got ++ piece) ++ rest = lengthBytes payload.length ++ (payload ++ more) := by
        simpa only [bytes, frame, List.append_assoc] using h
      obtain ⟨hboth, -⟩ := List.append_inj hstream (by rw [htwo]; rfl)
      have hpos : payload.length ≠ 0 := fun h0 => hne (List.length_eq_zero_iff.mp h0)
      refine ⟨.body payload.length [], ?_, ⟨by simp only [List.length_nil]; omega, hpayload⟩, ?_⟩
      · simp only [feed, hboth, lengthBytes, readLength_lengthBytes hpayload, if_neg hpos]
      · simp only [bytes, List.append_nil, hboth]
    · have hshort : (got ++ piece).length < 2 := by
        have : got.length < 2 := hr
        rw [List.length_append] at htwo ⊢
        omega
      refine ⟨.length (got ++ piece), ?_, hshort, rfl⟩
      simp only [feed]
      split
      · rename_i hi lo heq
        rw [heq] at htwo
        exact absurd rfl htwo
      · rfl
  | body len got =>
    obtain ⟨rfl, hbody⟩ := body_of_frame hr.2 hpayload h
    rw [← List.append_assoc] at hbody
    by_cases hfull : (got ++ piece).length = payload.length
    · right
      obtain ⟨hall, hrest⟩ := List.append_inj hbody hfull
      exact ⟨by rw [feed, if_pos hfull, hall], hrest⟩
    · left
      refine ⟨.body payload.length (got ++ piece), by rw [feed, if_neg hfull], ⟨?_, hpayload⟩, ?_⟩
      · have := hr.1
        simp only [missing] at hpiece
        rw [List.length_append] at hfull ⊢
        omega
      · simp only [bytes, List.append_assoc]

/-- A reader that has seen the whole stream is not in the middle of a frame. -/
theorem no_frame_left {r : Reading} {payload more : List UInt8} (hr : r.Open)
    (hpayload : payload.length < 65536) : r.bytes ≠ frame payload ++ more := by
  intro h
  cases r with
  | length got =>
    have hlen := congrArg List.length h
    have : got.length < 2 := hr
    simp only [bytes, frame, lengthBytes, List.length_append, List.length_cons] at hlen
    omega
  | body len got =>
    obtain ⟨hlen, hbody⟩ := body_of_frame hr.2 hpayload (by rw [List.append_nil]; exact h)
    have hcount := congrArg List.length hbody
    have := hr.1
    simp only [List.append_nil, List.length_append] at hcount
    omega

end Reading

end MiningInfra.Lib.Frames
