import MiningInfra.Ingress.Skipping

/-!
# The wire format of the ingress

Compact sizes stand in front of every list on the wire. The pool and the ingress each have a reader
for them, and both have the pool's writer: the readers agree on every slice, get back what is
written, and get no number from fewer bytes.
-/

namespace MiningInfra.Ingress

open Lib Lib.Cursor Coinbase

/-! ## Compact sizes -/

variable {ε : Type}

/-- The reader gets back what is written, wherever that stands, and no number from fewer bytes. -/
def Inverts (read : List UInt8 → Cursor ε UInt64) : Prop :=
  (∀ (v : UInt64) (p s : List UInt8) (m : Machine),
    (p ++ pushCompactSize v ++ s).length ≤ isizeMax → m.cursor = p.length →
      ∃ m', read (p ++ pushCompactSize v ++ s) m = (.ok v, m') ∧
        m'.cursor = p.length + (pushCompactSize v).length) ∧
  ∀ (v : UInt64) (data : List UInt8) (m m' : Machine), data.length ≤ isizeMax →
    m.cursor ≤ data.length → read data m = (.ok v, m') →
      m.cursor + (pushCompactSize v).length ≤ m'.cursor ∧ m'.cursor ≤ data.length

theorem inverts_of_follows {read : List UInt8 → Cursor ε UInt64}
    (h : ∀ data : List UInt8, data.length ≤ isizeMax →
      Follows data 0 (read data) compactSize fun _ => True) : Inverts read := by
  constructor
  · intro v p s m hdata hm
    have hat : m.At (p ++ pushCompactSize v ++ s) (pushCompactSize v ++ s) := by
      rw [Machine.At, hm, List.append_assoc, List.drop_left, List.length_append]
      exact ⟨Nat.le_add_right _ _, rfl⟩
    obtain ⟨m', hrun, hat', -⟩ := (h _ hdata).ok hat trivial (compactSize_pushCompactSize v s)
    obtain ⟨hcursor, hlen⟩ := hat'.cursor_eq
    refine ⟨m', hrun, ?_⟩
    simp only [List.length_append] at hlen
    omega
  · intro v data m m' hdata hm hrun
    obtain ⟨rest, hd, hat'⟩ := (h data hdata).decoded ⟨hm, rfl⟩ hrun
    have hshort := length_pushCompactSize_le hd
    obtain ⟨hcursor, hlen⟩ := hat'.cursor_eq
    rw [List.length_drop] at hshort
    omega

/-- **Compact sizes are read back**, no encoding begins another, and the readers of the pool and of
the ingress give the same number and the same position, or both fail. -/
theorem compact_size_readers_agree (error : Nat → ε) :
    Inverts (fun data => readCompactSizeWith data error) ∧ Inverts decodeCompactSize ∧
    (∀ (v w : UInt64) (t : List UInt8),
      pushCompactSize v ++ t = pushCompactSize w → v = w ∧ t = []) ∧
    ∀ (data : List UInt8) (m : Machine), data.length ≤ isizeMax → m.cursor ≤ data.length →
      (∃ e e' m₁ m₂, readCompactSizeWith data error m = (.err e, m₁) ∧
        decodeCompactSize data m = (.err e', m₂)) ∨
      ∃ v m₁ m₂, readCompactSizeWith data error m = (.ok v, m₁) ∧
        decodeCompactSize data m = (.ok v, m₂) ∧ m₁.cursor = m₂.cursor := by
  refine ⟨inverts_of_follows fun data hdata => follows_readCompactSizeWith hdata error,
    inverts_of_follows fun data hdata => follows_decodeCompactSize hdata, ?_, ?_⟩
  · intro v w t h
    have hv := compactSize_pushCompactSize v t
    have hw := compactSize_pushCompactSize w []
    rw [List.append_nil, ← h] at hw
    exact Decoder.unique hw hv |>.imp Eq.symm Eq.symm
  · intro data m hdata hm
    have hpool : Follows data 0 _ _ _ := follows_readCompactSizeWith hdata error
    have hingress := follows_decodeCompactSize hdata
    cases hd : compactSize (data.drop m.cursor) with
    | none =>
      obtain ⟨e, m₁, hrun₁, -⟩ := hpool.err ⟨hm, rfl⟩ trivial hd
      obtain ⟨e', m₂, hrun₂, -⟩ := hingress.err ⟨hm, rfl⟩ trivial hd
      exact .inl ⟨e, e', m₁, m₂, hrun₁, hrun₂⟩
    | some r =>
      obtain ⟨m₁, hrun₁, hat₁, -⟩ := hpool.ok ⟨hm, rfl⟩ trivial hd
      obtain ⟨m₂, hrun₂, hat₂, -⟩ := hingress.ok ⟨hm, rfl⟩ trivial hd
      exact .inr ⟨r.1, m₁, m₂, hrun₁, hrun₂, hat₁.cursor_eq.1.trans hat₂.cursor_eq.1.symm⟩

end MiningInfra.Ingress
