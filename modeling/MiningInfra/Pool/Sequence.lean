import Mathlib.Data.List.Nodup

/-!
# Replay protection by sequence numbers

`SequenceValidator` answers each `(channel, sequence)` pair the pool receives. It
remembers two things per channel: the highest number it accepted, and a FIFO of
the numbers it accepted last. A number at or below the highest one is accepted
when it lies at most `window_size` behind it and is not in the FIFO.

Those are two different windows. The FIFO holds the last `window_size` *arrivals*;
the acceptance test covers the `window_size + 1` numbers up to the highest. As
long as every number the FIFO gives up has already fallen out of the acceptance
range, nothing is accepted twice (`accepted_nodup_of_steady`). The first eviction
of a number that is still in range opens the door to its replay
(`evicted_in_range_accepted_again`).
-/

namespace MiningInfra.Pool

/-- Sequence state for a single channel. The time stamp that only `cleanup_stale`
reads is left out. -/
structure SequenceState where
  /-- Highest sequence number seen. -/
  highestSeen : UInt32
  /-- Recently seen sequence numbers, oldest first. -/
  seenWindow : List UInt32
  /-- Count of sequence anomalies. -/
  anomalyCount : UInt32
  deriving DecidableEq, Repr

def SequenceState.new : SequenceState := ⟨0, [], 0⟩

/-- Result of sequence validation. -/
inductive SequenceCheckResult where
  | valid
  | validOutOfOrder
  | replay
  | gapTooLarge
  | staleSequence
  deriving DecidableEq, Repr

/-- The result indicates the message should be processed. -/
def SequenceCheckResult.shouldProcess : SequenceCheckResult → Bool
  | .valid | .validOutOfOrder => true
  | _ => false

/-- Push the new number, then pop from the front down to `maxSize`. -/
def addToWindow (window : List UInt32) (seq : UInt32) (maxSize : Nat) : List UInt32 :=
  (window ++ [seq]).drop ((window ++ [seq]).length - maxSize)

/-- One channel's part of `validate`. `window_size` is a 64-bit `usize`; the
distance test casts it down to 32 bits. -/
def validateState (maxGap : UInt32) (windowSize : UInt64) (state : SequenceState)
    (sequence : UInt32) : SequenceCheckResult × SequenceState :=
  if state.highestSeen = 0 ∧ state.seenWindow = [] then
    (.valid, { state with highestSeen := sequence, seenWindow := [sequence] })
  else if sequence ∈ state.seenWindow then
    (.replay, { state with anomalyCount := state.anomalyCount + 1 })
  else if sequence = state.highestSeen + 1 then
    (.valid, { state with
      highestSeen := sequence
      seenWindow := addToWindow state.seenWindow sequence windowSize.toNat })
  else if state.highestSeen < sequence then
    if sequence - state.highestSeen ≤ maxGap then
      (.validOutOfOrder, {
        highestSeen := sequence
        seenWindow := addToWindow state.seenWindow sequence windowSize.toNat
        anomalyCount := state.anomalyCount + 1 })
    else
      (.gapTooLarge, { state with anomalyCount := state.anomalyCount + 1 })
  else if state.highestSeen - sequence ≤ windowSize.toUInt32 then
    (.validOutOfOrder, { state with
      seenWindow := addToWindow state.seenWindow sequence windowSize.toNat
      anomalyCount := state.anomalyCount + 1 })
  else
    (.staleSequence, { state with anomalyCount := state.anomalyCount + 1 })

/-- The validator: the per-channel states and the two bounds it was created with. -/
structure SequenceValidator where
  channels : UInt32 → Option SequenceState
  maxGap : UInt32
  windowSize : UInt64

def SequenceValidator.new (maxGap : UInt32) (windowSize : UInt64) : SequenceValidator :=
  ⟨fun _ => none, maxGap, windowSize⟩

/-- `SequenceValidator::default()`. -/
def SequenceValidator.default : SequenceValidator := .new 1000 128

/-- The state `validate` works on: the channel's entry, or a fresh one. -/
def SequenceValidator.state (v : SequenceValidator) (channelId : UInt32) : SequenceState :=
  (v.channels channelId).getD .new

def SequenceValidator.validate (v : SequenceValidator) (channelId sequence : UInt32) :
    SequenceCheckResult × SequenceValidator :=
  let r := validateState v.maxGap v.windowSize (v.state channelId) sequence
  (r.1, { v with channels := Function.update v.channels channelId (some r.2) })

/-! ## Runs -/

/-- The `(channel, sequence)` pairs a run of `validate` calls lets through, in order. -/
def accepted (v : SequenceValidator) : List (UInt32 × UInt32) → List (UInt32 × UInt32)
  | [] => []
  | (c, s) :: calls =>
    if (v.validate c s).1.shouldProcess then (c, s) :: accepted (v.validate c s).2 calls
    else accepted (v.validate c s).2 calls

/-- The number passes the distance tests and is not in the FIFO. -/
def Admits (maxGap : UInt32) (windowSize : UInt64) (st : SequenceState) (seq : UInt32) : Prop :=
  seq ∉ st.seenWindow ∧
    (seq = st.highestSeen + 1 ∨ (st.highestSeen < seq ∧ seq - st.highestSeen ≤ maxGap) ∨
      (seq ≤ st.highestSeen ∧ st.highestSeen - seq ≤ windowSize.toUInt32))

instance (maxGap : UInt32) (windowSize : UInt64) (st : SequenceState) (seq : UInt32) :
    Decidable (Admits maxGap windowSize st seq) :=
  inferInstanceAs (Decidable (_ ∧ _))

/-- The highest number the channel has seen once it has seen `seq`. -/
def SequenceState.highestWith (st : SequenceState) (seq : UInt32) : UInt32 :=
  if st.highestSeen < seq then seq else st.highestSeen

/-- The number a full FIFO gives up for `seq` lies further than `window_size` behind
the highest number the channel has then seen. -/
def EvictsOutOfRange (windowSize : UInt64) (st : SequenceState) (seq : UInt32) : Prop :=
  windowSize.toNat ≤ st.seenWindow.length →
    ∀ front ∈ st.seenWindow.head?, windowSize.toUInt32 < st.highestWith seq - front

instance (windowSize : UInt64) (st : SequenceState) (seq : UInt32) :
    Decidable (EvictsOutOfRange windowSize st seq) :=
  inferInstanceAs (Decidable (_ → _))

/-- A call that neither wraps the highest number past `u32::MAX` nor evicts a number
that is still in range. -/
def SteadyCall (maxGap : UInt32) (windowSize : UInt64) (st : SequenceState) (seq : UInt32) : Prop :=
  Admits maxGap windowSize st seq →
    ¬(st.highestSeen = 4294967295 ∧ seq = 0) ∧ EvictsOutOfRange windowSize st seq

instance (maxGap : UInt32) (windowSize : UInt64) (st : SequenceState) (seq : UInt32) :
    Decidable (SteadyCall maxGap windowSize st seq) :=
  inferInstanceAs (Decidable (_ → _))

/-- Every call of the run is steady in the state it meets. -/
def Steady (v : SequenceValidator) : List (UInt32 × UInt32) → Prop
  | [] => True
  | (c, s) :: calls =>
    SteadyCall v.maxGap v.windowSize (v.state c) s ∧ Steady (v.validate c s).2 calls

instance : ∀ (v : SequenceValidator) (calls : List (UInt32 × UInt32)), Decidable (Steady v calls)
  | _, [] => .isTrue trivial
  | v, (c, s) :: calls =>
    have := instDecidableSteady (v.validate c s).2 calls
    inferInstanceAs (Decidable (_ ∧ _))

/-! ## What one call does -/

variable {seq maxGap : UInt32} {n : Nat} {windowSize : UInt64} {st st' : SequenceState}
  {acc : UInt32 → Prop}

theorem addToWindow_of_lt {window : List UInt32} (h : window.length < n) :
    addToWindow window seq n = window ++ [seq] := by
  unfold addToWindow
  rw [show (window ++ [seq]).length - n = 0 by simp; omega, List.drop_zero]

/-- A FIFO at its capacity gives up exactly its front. -/
theorem addToWindow_of_full {front : UInt32} {rest : List UInt32} (h : (front :: rest).length = n) :
    addToWindow (front :: rest) seq n = rest ++ [seq] := by
  unfold addToWindow
  rw [show (front :: rest ++ [seq]).length - n = 1 by simp at h ⊢; omega]
  rfl

/-- **The three things a call can do**: open the channel, refuse the number and leave
both windows alone, or admit it. -/
theorem validateState_cases (maxGap : UInt32) (windowSize : UInt64) (st : SequenceState)
    (seq : UInt32) :
    (st.highestSeen = 0 ∧ st.seenWindow = []
      ∧ (validateState maxGap windowSize st seq).1 = .valid
      ∧ (validateState maxGap windowSize st seq).2.highestSeen = seq
      ∧ (validateState maxGap windowSize st seq).2.seenWindow = [seq])
    ∨ (¬Admits maxGap windowSize st seq
      ∧ (validateState maxGap windowSize st seq).1.shouldProcess = false
      ∧ (validateState maxGap windowSize st seq).2.highestSeen = st.highestSeen
      ∧ (validateState maxGap windowSize st seq).2.seenWindow = st.seenWindow)
    ∨ (Admits maxGap windowSize st seq ∧ ¬(st.highestSeen = 0 ∧ st.seenWindow = [])
      ∧ (validateState maxGap windowSize st seq).1.shouldProcess = true
      ∧ (validateState maxGap windowSize st seq).2.highestSeen
          = (if seq = st.highestSeen + 1 ∨ st.highestSeen < seq then seq else st.highestSeen)
      ∧ (validateState maxGap windowSize st seq).2.seenWindow
          = addToWindow st.seenWindow seq windowSize.toNat) := by
  unfold validateState
  split
  · rename_i h0; exact Or.inl ⟨h0.1, h0.2, rfl, rfl, rfl⟩
  · rename_i h0
    refine Or.inr ?_
    split
    · rename_i hmem; exact Or.inl ⟨fun ha => ha.1 hmem, rfl, rfl, rfl⟩
    · rename_i hmem
      split
      · rename_i hexp
        exact Or.inr ⟨⟨hmem, Or.inl hexp⟩, h0, rfl, by simp [hexp], rfl⟩
      · rename_i hexp
        split
        · rename_i hgt
          split
          · rename_i hgap
            exact Or.inr ⟨⟨hmem, Or.inr (Or.inl ⟨hgt, hgap⟩)⟩, h0, rfl, by simp [hgt], rfl⟩
          · rename_i hgap
            exact Or.inl ⟨fun ha => by have := ha.2; grind, rfl, rfl, rfl⟩
        · rename_i hgt
          split
          · rename_i hbehind
            refine Or.inr ⟨⟨hmem, Or.inr (Or.inr ⟨by grind, hbehind⟩)⟩, h0, rfl, ?_, rfl⟩
            simp [hexp, hgt]
          · rename_i hbehind
            exact Or.inl ⟨fun ha => by have := ha.2; grind, rfl, rfl, rfl⟩

/-! ## The FIFO covers the acceptance range -/

/--
What ties the FIFO to the set `acc` of numbers accepted so far: whatever has left
the FIFO is out of the acceptance range for good.
-/
structure Covered (windowSize : UInt64) (st : SequenceState) (acc : UInt32 → Prop) : Prop where
  /-- Nothing was accepted before the channel opened. -/
  fresh : st.seenWindow = [] → st.highestSeen = 0 ∧ ∀ a, ¬acc a
  size : st.seenWindow.length ≤ windowSize.toNat
  nodup : st.seenWindow.Nodup
  /-- The FIFO holds accepted numbers only. -/
  mem : ∀ s ∈ st.seenWindow, acc s
  le : ∀ a, acc a → a ≤ st.highestSeen
  /-- An accepted number is still in the FIFO, or too far behind to be accepted. -/
  seen : ∀ a, acc a → a ∈ st.seenWindow ∨ windowSize.toUInt32 < st.highestSeen - a

theorem covered_new (windowSize : UInt64) : Covered windowSize .new (fun _ => False) :=
  ⟨by simp [SequenceState.new], by simp [SequenceState.new], by simp [SequenceState.new],
    by simp [SequenceState.new], by simp, by simp⟩

/-- Only the two windows matter. -/
theorem Covered.congr (hc : Covered windowSize st acc) (hh : st'.highestSeen = st.highestSeen)
    (hw : st'.seenWindow = st.seenWindow) : Covered windowSize st' acc := by
  refine ⟨?_, ?_, ?_, ?_, ?_, ?_⟩
  · rw [hw, hh]; exact hc.fresh
  · rw [hw]; exact hc.size
  · rw [hw]; exact hc.nodup
  · rw [hw]; exact hc.mem
  · rw [hh]; exact hc.le
  · rw [hw, hh]; exact hc.seen

/-- A steady call never admits a number that was accepted before. -/
theorem not_acc_of_admits (hc : Covered windowSize st acc) (ha : Admits maxGap windowSize st seq)
    (hw : ¬(st.highestSeen = 4294967295 ∧ seq = 0)) : ¬acc seq := by
  intro hacc
  have hle := hc.le seq hacc
  rcases hc.seen seq hacc with hin | hfar
  · exact ha.1 hin
  · rcases ha.2 with h | h | h
    · -- the successor of the highest number is above it unless it wraps
      exact hw ⟨by grind, by grind⟩
    · grind
    · grind

/-- An admitted call that does not wrap moves the highest number up to `seq`, if anywhere. -/
theorem highest_of_admits (hw : ¬(st.highestSeen = 4294967295 ∧ seq = 0)) :
    (if seq = st.highestSeen + 1 ∨ st.highestSeen < seq then seq else st.highestSeen)
      = st.highestWith seq := by
  unfold SequenceState.highestWith
  by_cases hexp : seq = st.highestSeen + 1
  · have : st.highestSeen < seq := by
      have : st.highestSeen ≠ 4294967295 := by
        intro hmax
        exact hw ⟨hmax, by grind⟩
      grind
    rw [if_pos (Or.inr this), if_pos this]
  · simp [hexp]

/-- The channel's opening call. -/
theorem covered_open (hpos : 1 ≤ windowSize.toNat) (hnone : ∀ a, ¬acc a) (hh : st.highestSeen = seq)
    (hw : st.seenWindow = [seq]) : Covered windowSize st (fun a => a = seq ∨ acc a) := by
  refine ⟨?_, ?_, ?_, ?_, ?_, ?_⟩
  · intro h; rw [hw] at h; simp at h
  · rw [hw]; simpa using hpos
  · rw [hw]; simp
  · intro s hmem; rw [hw] at hmem; exact Or.inl (by simpa using hmem)
  · rintro a (rfl | ha)
    · rw [hh]; grind
    · exact absurd ha (hnone a)
  · rintro a (rfl | ha)
    · rw [hw]; simp
    · exact absurd ha (hnone a)

/-- An admitted call keeps the FIFO covering when what it evicts is out of range. -/
theorem covered_admit (hpos : 1 ≤ windowSize.toNat) (hc : Covered windowSize st acc)
    (hadm : Admits maxGap windowSize st seq) (hev : EvictsOutOfRange windowSize st seq)
    (hh : st'.highestSeen = st.highestWith seq)
    (hw : st'.seenWindow = addToWindow st.seenWindow seq windowSize.toNat) :
    Covered windowSize st' (fun a => a = seq ∨ acc a) := by
  have hup : st.highestSeen ≤ st'.highestSeen ∧ seq ≤ st'.highestSeen := by
    rw [hh]; unfold SequenceState.highestWith; split <;> grind
  have hfar : ∀ a, a ≤ st.highestSeen → windowSize.toUInt32 < st.highestSeen - a →
      windowSize.toUInt32 < st'.highestSeen - a := by grind
  have hle : ∀ a, a = seq ∨ acc a → a ≤ st'.highestSeen := by
    rintro a (rfl | ha)
    · exact hup.2
    · exact UInt32.le_trans (hc.le a ha) hup.1
  by_cases hfull : windowSize.toNat ≤ st.seenWindow.length
  · -- the FIFO is full: its front leaves, and the call promises that it is out of range
    obtain ⟨front, rest, hfr⟩ : ∃ front rest, st.seenWindow = front :: rest := by
      cases hq : st.seenWindow with
      | nil => rw [hq] at hfull; simp at hfull; omega
      | cons front rest => exact ⟨front, rest, rfl⟩
    have hlen : (front :: rest).length = windowSize.toNat := by
      have := hc.size; rw [hfr] at this hfull; omega
    rw [hfr, addToWindow_of_full hlen] at hw
    have hfront : windowSize.toUInt32 < st'.highestSeen - front := by
      rw [hh]; exact hev hfull front (by rw [hfr]; rfl)
    have hnd := hc.nodup
    rw [hfr, List.nodup_cons] at hnd
    have hseq : seq ∉ rest := fun h => hadm.1 (by rw [hfr]; exact List.mem_cons_of_mem _ h)
    refine ⟨?_, ?_, ?_, ?_, hle, ?_⟩
    · intro h; rw [hw] at h; simp at h
    · rw [hw]; simp at hlen ⊢; omega
    · rw [hw]; exact List.nodup_append.mpr ⟨hnd.2, by simp, by grind⟩
    · intro s hs
      rw [hw] at hs
      rcases List.mem_append.mp hs with hs | hs
      · exact Or.inr (hc.mem s (by rw [hfr]; exact List.mem_cons_of_mem _ hs))
      · exact Or.inl (by simpa using hs)
    · rintro a (rfl | ha)
      · rw [hw]; simp
      · rcases hc.seen a ha with hin | hout
        · rw [hfr] at hin
          rcases List.mem_cons.mp hin with rfl | hin
          · exact Or.inr hfront
          · exact Or.inl (by rw [hw]; exact List.mem_append_left _ hin)
        · exact Or.inr (hfar a (hc.le a ha) hout)
  · rw [addToWindow_of_lt (by omega)] at hw
    refine ⟨?_, ?_, ?_, ?_, hle, ?_⟩
    · intro h; rw [hw] at h; simp at h
    · rw [hw]; simp; omega
    · rw [hw]; exact List.nodup_append.mpr ⟨hc.nodup, by simp, by have := hadm.1; grind⟩
    · intro s hs
      rw [hw] at hs
      rcases List.mem_append.mp hs with hs | hs
      · exact Or.inr (hc.mem s hs)
      · exact Or.inl (by simpa using hs)
    · rintro a (rfl | ha)
      · rw [hw]; simp
      · rcases hc.seen a ha with hin | hout
        · exact Or.inl (by rw [hw]; exact List.mem_append_left _ hin)
        · exact Or.inr (hfar a (hc.le a ha) hout)

/-- **One steady call.** It admits only new numbers, and keeps the FIFO covering. -/
theorem covered_step (hpos : 1 ≤ windowSize.toNat) (hc : Covered windowSize st acc)
    (hs : SteadyCall maxGap windowSize st seq) :
    ((validateState maxGap windowSize st seq).1.shouldProcess = true →
      ¬acc seq ∧ Covered windowSize (validateState maxGap windowSize st seq).2
        (fun a => a = seq ∨ acc a))
    ∧ ((validateState maxGap windowSize st seq).1.shouldProcess = false →
      Covered windowSize (validateState maxGap windowSize st seq).2 acc) := by
  rcases validateState_cases maxGap windowSize st seq with
    ⟨hh, hwin, hres, hh', hwin'⟩ | ⟨_, hres, hh', hwin'⟩ | ⟨hadm, hopen, hres, hh', hwin'⟩
  · have hnone := (hc.fresh hwin).2
    exact ⟨fun _ => ⟨hnone seq, covered_open hpos hnone hh' hwin'⟩,
      fun h => by rw [hres] at h; exact absurd h (by decide)⟩
  · exact ⟨fun h => by rw [hres] at h; exact absurd h (by simp), fun _ => hc.congr hh' hwin'⟩
  · obtain ⟨hwrap, hev⟩ := hs hadm
    rw [highest_of_admits hwrap] at hh'
    exact ⟨fun _ => ⟨not_acc_of_admits hc hadm hwrap, covered_admit hpos hc hadm hev hh' hwin'⟩,
      fun h => by rw [hres] at h; exact absurd h (by simp)⟩

/-- A number at or below the highest one, within reach and out of the FIFO, gets through. -/
theorem validateState_behind (hopen : st.seenWindow ≠ []) (hmem : seq ∉ st.seenWindow)
    (hle : seq ≤ st.highestSeen) (hnear : st.highestSeen - seq ≤ windowSize.toUInt32) :
    (validateState maxGap windowSize st seq).1.shouldProcess = true := by
  unfold validateState
  rw [if_neg (fun h => hopen h.2), if_neg hmem]
  split
  · rfl
  · rw [if_neg (show ¬st.highestSeen < seq by grind)]; rfl

/--
**Evicting a number that is still in range makes its replay acceptable.** The very next
call may bring the evicted number back, and it is processed a second time.
-/
theorem evicted_in_range_accepted_again {acc : UInt32 → Prop} (hc : Covered windowSize st acc)
    (hadm : Admits maxGap windowSize st seq) (hwrap : ¬(st.highestSeen = 4294967295 ∧ seq = 0))
    (hev : ¬EvictsOutOfRange windowSize st seq) :
    ∃ front, acc front ∧
      (validateState maxGap windowSize (validateState maxGap windowSize st seq).2
        front).1.shouldProcess = true := by
  unfold EvictsOutOfRange at hev
  push Not at hev
  obtain ⟨hfull, front, hfront, hnear⟩ := hev
  obtain ⟨rest, hfr⟩ := List.head?_eq_some_iff.mp hfront
  have hlen : (front :: rest).length = windowSize.toNat := by
    have := hc.size; rw [hfr] at this hfull; omega
  have hacc : acc front := hc.mem front (by rw [hfr]; simp)
  rcases validateState_cases maxGap windowSize st seq with
    ⟨_, hwin, _⟩ | ⟨hnot, _⟩ | ⟨_, _, _, hh', hwin'⟩
  · rw [hfr] at hwin; simp at hwin
  · exact absurd hadm hnot
  · rw [highest_of_admits hwrap] at hh'
    rw [hfr, addToWindow_of_full hlen] at hwin'
    refine ⟨front, hacc, validateState_behind ?_ ?_ ?_ ?_⟩
    · rw [hwin']; simp
    · have hnd := hc.nodup
      rw [hfr, List.nodup_cons] at hnd
      have hne : front ≠ seq := fun h => hadm.1 (by rw [hfr, h]; simp)
      rw [hwin']; simp [hnd.1, hne]
    · have := hc.le front hacc
      rw [hh']; unfold SequenceState.highestWith; split <;> grind
    · rw [hh']; grind

/-! ## Runs over any channels -/

theorem validate_state_self (v : SequenceValidator) (c s : UInt32) :
    (v.validate c s).2.state c = (validateState v.maxGap v.windowSize (v.state c) s).2 := by
  simp [SequenceValidator.validate, SequenceValidator.state]

theorem validate_state_other (v : SequenceValidator) {c d : UInt32} (s : UInt32) (h : d ≠ c) :
    (v.validate c s).2.state d = v.state d := by
  simp [SequenceValidator.validate, SequenceValidator.state, h]

/-- A steady run from a state that covers the history `hist` accepts nothing of `hist`
and nothing twice. -/
theorem accepted_fresh : ∀ (calls : List (UInt32 × UInt32)) (v : SequenceValidator)
    (hist : UInt32 → UInt32 → Prop), 1 ≤ v.windowSize.toNat →
    (∀ c, Covered v.windowSize (v.state c) (hist c)) → Steady v calls →
    (accepted v calls).Nodup ∧ ∀ p ∈ accepted v calls, ¬hist p.1 p.2
  | [], _, _, _, _, _ => by simp [accepted]
  | (c, s) :: calls, v, hist, hpos, hcov, hst => by
    obtain ⟨hcall, hrest⟩ := hst
    obtain ⟨hyes, hno⟩ := covered_step hpos (hcov c) hcall
    cases hres : (v.validate c s).1.shouldProcess with
    | true =>
      obtain ⟨hnew, hcov'⟩ := hyes hres
      -- the channel's history grows by `s`; the other channels keep theirs
      have hall : ∀ d, Covered v.windowSize ((v.validate c s).2.state d)
          (fun a => (d = c ∧ a = s) ∨ hist d a) := by
        intro d
        by_cases hd : d = c
        · subst hd; rw [validate_state_self]; simpa using hcov'
        · rw [validate_state_other v s hd]; simpa [hd] using hcov d
      obtain ⟨hnd, hfresh⟩ := accepted_fresh calls (v.validate c s).2 _ hpos hall hrest
      rw [accepted, if_pos hres]
      refine ⟨List.nodup_cons.mpr ⟨?_, hnd⟩, ?_⟩
      · intro hmem; exact hfresh _ hmem (Or.inl ⟨rfl, rfl⟩)
      · intro p hp
        rcases List.mem_cons.mp hp with rfl | hp
        · exact hnew
        · exact fun h => hfresh p hp (Or.inr h)
    | false =>
      have hall : ∀ d, Covered v.windowSize ((v.validate c s).2.state d) (hist d) := by
        intro d
        by_cases hd : d = c
        · subst hd; rw [validate_state_self]; exact hno hres
        · rw [validate_state_other v s hd]; exact hcov d
      rw [accepted, if_neg (by simp [hres])]
      exact accepted_fresh calls (v.validate c s).2 _ hpos hall hrest

/--
**No sequence number is let through twice.** On every channel of a validator with a
window of at least one, over every run of `validate` calls that neither wraps the
highest number nor evicts a number still in range.
-/
theorem accepted_nodup_of_steady (maxGap : UInt32) (windowSize : UInt64)
    (hpos : 1 ≤ windowSize.toNat) (calls : List (UInt32 × UInt32))
    (hst : Steady (.new maxGap windowSize) calls) :
    (accepted (.new maxGap windowSize) calls).Nodup :=
  (accepted_fresh calls (.new maxGap windowSize) (fun _ _ => False) hpos
    (fun _ => covered_new windowSize) hst).1

/-- A reordered run through the default validator. -/
theorem accepted_nodup_of_steady_reordered :
    (accepted .default [(7, 1), (7, 2), (7, 5), (7, 4), (7, 5)]).Nodup :=
  accepted_nodup_of_steady 1000 128 (by decide) _ (by decide)

/-- The default validator lets `0` through a second time after `0, 1, …, 128`: the FIFO
holds `1, …, 128`, and `0` lies exactly `window_size` behind. -/
theorem default_accepts_replay :
    ¬∀ calls : List (UInt32 × UInt32), (accepted .default calls).Nodup := by
  intro h
  have := h (((List.range 129).map fun n => (1, n.toUInt32)) ++ [(1, 0)])
  revert this
  decide +kernel

end MiningInfra.Pool
