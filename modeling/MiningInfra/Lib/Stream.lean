import MiningInfra.Lib.Cursor
import MiningInfra.Lib.Reach

/-!
# Frames from a byte stream

A reader keeps a buffer between its calls. A call takes a whole frame from the front of the
buffer if there is one, and otherwise reads some of the bytes that have arrived into the buffer
and tries again. It may be dropped whenever it waits for bytes.

If the stream is a sequence of frames with an unfinished one behind them, then a run of the
reader takes exactly these frames, in order, whatever the arrivals and the sizes of the reads: the
frames taken and the bytes in the buffer, in the socket and under way are the stream at all times.
A limit on the buffer is not in the way, if a frame and a read fit under it together.
-/

namespace MiningInfra.Lib

variable {ε μ : Type}

/-- What a reader finds in its buffer, what it makes of a frame, and how much it reads at once. -/
structure StreamReader (ε μ : Type) where
  parse : List UInt8 → Outcome ε (Option (List UInt8) × List UInt8)
  handle : List UInt8 → Outcome ε (Option μ)
  chunk : Nat

structure StreamState (ε μ : Type) where
  /-- Bytes under way. -/
  ahead : List UInt8
  /-- Bytes that have arrived. -/
  socket : List UInt8
  buffer : List UInt8
  taken : List (List UInt8)
  delivered : List μ
  /-- How the reader ended, if it did. -/
  status : Outcome ε Unit

inductive StreamEvent where
  | arrive (n : Nat)
  /-- One turn of the loop, with the size of the read if it comes to one. -/
  | poll (n : Nat)
  /-- The call is dropped. What it read is in the buffer. -/
  | drop
  deriving DecidableEq

namespace StreamReader

variable (r : StreamReader ε μ)

/-- A frame in hand. -/
def take (s : StreamState ε μ) (frame rest : List UInt8) : StreamState ε μ :=
  match r.handle frame with
  | .ok m => { s with
      buffer := rest, taken := s.taken ++ [frame], delivered := s.delivered ++ m.toList }
  | .err e => { s with buffer := rest, taken := s.taken ++ [frame], status := .err e }
  | .panic => { s with buffer := rest, taken := s.taken ++ [frame], status := .panic }

def poll (s : StreamState ε μ) (n : Nat) : Option (StreamState ε μ) :=
  match r.parse s.buffer with
  | .ok (some frame, rest) => some (r.take s frame rest)
  | .ok (none, rest) =>
    if 1 ≤ n ∧ n ≤ r.chunk ∧ n ≤ s.socket.length then
      some { s with buffer := rest ++ s.socket.take n, socket := s.socket.drop n }
    else none
  | .err e => some { s with status := .err e }
  | .panic => some { s with status := .panic }

def next (s : StreamState ε μ) : StreamEvent → Option (StreamState ε μ)
  | .arrive n =>
    if 1 ≤ n ∧ n ≤ s.ahead.length then
      some { s with socket := s.socket ++ s.ahead.take n, ahead := s.ahead.drop n }
    else none
  | .poll n =>
    match s.status with
    | .ok () => r.poll s n
    | _ => none
  | .drop => some s

end StreamReader

def StreamState.start (stream : List UInt8) : StreamState ε μ := ⟨stream, [], [], [], [], .ok ()⟩

/-- A proper front of a frame. -/
def Unfinished (Frame : List UInt8 → Prop) (bs : List UInt8) : Prop :=
  ∃ f, Frame f ∧ bs <+: f ∧ bs.length < f.length

/-- The reader finds a frame in its buffer exactly when there is one, as long as the buffer is
within the limit; and a frame and a read fit under the limit. -/
structure StreamReader.Lawful (r : StreamReader ε μ) (Frame : List UInt8 → Prop) (limit : Nat) :
    Prop where
  reads : 1 ≤ r.chunk
  whole : ∀ f rest, Frame f → (f ++ rest).length ≤ limit → r.parse (f ++ rest) = .ok (some f, rest)
  part : ∀ bs, Unfinished Frame bs → r.parse bs = .ok (none, bs)
  nonempty : ∀ f, Frame f → 1 ≤ f.length
  room : ∀ f, Frame f → f.length + r.chunk ≤ limit + 1

/-- What a frame is delivered as. -/
def StreamReader.message (r : StreamReader ε μ) (frame : List UInt8) : Option μ :=
  match r.handle frame with
  | .ok m => m
  | _ => none

/-- The reader is at work on a stream of frames with a tail. -/
structure Tracks (r : StreamReader ε μ) (limit : Nat) (frames : List (List UInt8))
    (tail : List UInt8) (s : StreamState ε μ) : Prop where
  status : s.status = .ok ()
  rest : ∃ left, frames = s.taken ++ left ∧ s.buffer ++ (s.socket ++ s.ahead) = left.flatten ++ tail
  delivered : s.delivered = s.taken.filterMap r.message
  small : s.buffer.length ≤ limit

variable {r : StreamReader ε μ} {Frame : List UInt8 → Prop} {limit : Nat}
  {frames : List (List UInt8)} {tail : List UInt8} {s s' : StreamState ε μ}

/-- The front of what is left of a stream is a frame, or part of one. -/
theorem front_cases {left : List (List UInt8)} {buffer more : List UInt8}
    (hleft : ∀ f ∈ left, Frame f) (htail : Unfinished Frame tail)
    (h : buffer ++ more = left.flatten ++ tail) :
    (∃ f left' rest, left = f :: left' ∧ buffer = f ++ rest) ∨ Unfinished Frame buffer := by
  cases left with
  | nil =>
    obtain ⟨f, hf, hwithin, hlt⟩ := htail
    have hfront : buffer <+: tail := ⟨more, h⟩
    exact .inr ⟨f, hf, hfront.trans hwithin, Nat.lt_of_le_of_lt hfront.length_le hlt⟩
  | cons f left' =>
    rw [List.flatten_cons, List.append_assoc] at h
    rcases Nat.lt_or_ge buffer.length f.length with hlt | hge
    · have hfront : buffer <+: f :=
        List.prefix_of_prefix_length_le ⟨more, h⟩ ⟨_, rfl⟩ (Nat.le_of_lt hlt)
      exact .inr ⟨f, hleft f List.mem_cons_self, hfront, hlt⟩
    · obtain ⟨rest, hrest⟩ := List.prefix_of_prefix_length_le
        (⟨_, rfl⟩ : f <+: f ++ (left'.flatten ++ tail)) ⟨more, h⟩ hge
      exact .inl ⟨f, left', rest, rfl, hrest.symm⟩

theorem Tracks.start (limit : Nat) : Tracks r limit frames tail (.start (frames.flatten ++ tail)) :=
  ⟨rfl, ⟨frames, rfl, rfl⟩, rfl, Nat.zero_le _⟩

/-- A turn of the loop takes the next frame, or reads. -/
theorem Tracks.poll_cases (h : Tracks r limit frames tail s) (hr : r.Lawful Frame limit)
    (hframes : ∀ f ∈ frames, Frame f) (htail : Unfinished Frame tail) (n : Nat) :
    (∃ f left rest, frames = s.taken ++ f :: left ∧ s.buffer = f ++ rest
      ∧ r.poll s n = some (r.take s f rest))
    ∨ Unfinished Frame s.buffer ∧ r.poll s n
      = if 1 ≤ n ∧ n ≤ r.chunk ∧ n ≤ s.socket.length then
          some { s with buffer := s.buffer ++ s.socket.take n, socket := s.socket.drop n }
        else none := by
  obtain ⟨left, hleft, hstream⟩ := h.rest
  have hgood : ∀ f ∈ left, Frame f := fun f hf =>
    hframes f (hleft ▸ List.mem_append_right _ hf)
  rcases front_cases hgood htail hstream with ⟨f, left', rest, rfl, hbuffer⟩ | hpart
  · refine .inl ⟨f, left', rest, hleft, hbuffer, ?_⟩
    have hparse := hr.whole f rest (hgood f List.mem_cons_self) (hbuffer ▸ h.small)
    rw [StreamReader.poll, hbuffer, hparse]
  · refine .inr ⟨hpart, ?_⟩
    rw [StreamReader.poll, hr.part _ hpart]

theorem Tracks.next_poll (h : Tracks r limit frames tail s) (n : Nat) :
    r.next s (.poll n) = r.poll s n := by
  rw [StreamReader.next, h.status]

section

variable (hr : r.Lawful Frame limit) (hframes : ∀ f ∈ frames, Frame f)
  (htail : Unfinished Frame tail) {e : StreamEvent}

include hr hframes htail

/-- **One step.** Arrivals, turns of the loop and dropped calls keep track of the stream. -/
theorem Tracks.next (h : Tracks r limit frames tail s)
    (hhandle : ∀ f ∈ frames, ∃ m, r.handle f = .ok m) (hnext : r.next s e = some s') :
    Tracks r limit frames tail s' := by
  cases e with
  | drop =>
    injection hnext with hnext
    exact hnext ▸ h
  | arrive n =>
    obtain ⟨-, rfl⟩ := of_guard hnext
    obtain ⟨left, hleft, hstream⟩ := h.rest
    refine ⟨h.status, ⟨left, hleft, ?_⟩, h.delivered, h.small⟩
    simp only [List.append_assoc, List.take_append_drop]
    exact hstream
  | poll n =>
    rw [h.next_poll] at hnext
    rcases h.poll_cases hr hframes htail n with
      ⟨f, left, rest, hleft, hbuffer, hpoll⟩ | ⟨hpart, hpoll⟩
    · -- the next frame is taken
      obtain ⟨m, hm⟩ := hhandle f (hleft ▸ List.mem_append_right _ List.mem_cons_self)
      rw [hpoll] at hnext
      injection hnext with hnext
      rw [StreamReader.take, hm] at hnext
      rw [← hnext]
      obtain ⟨left', hleft', hstream⟩ := h.rest
      obtain rfl : left' = f :: left := List.append_cancel_left (hleft'.symm.trans hleft)
      have hsmall := h.small
      refine ⟨h.status, ⟨left, ?_, ?_⟩, ?_, ?_⟩
      · simpa using hleft
      · rw [hbuffer, List.append_assoc, List.flatten_cons, List.append_assoc] at hstream
        exact List.append_cancel_left hstream
      · have hmessage : r.message f = m := by rw [StreamReader.message, hm]
        simp only [List.filterMap_append, h.delivered, List.filterMap_cons, hmessage]
        cases m <;> rfl
      · rw [hbuffer, List.length_append] at hsmall
        change rest.length ≤ limit
        omega
    · -- bytes are read behind an unfinished frame
      rw [hpoll] at hnext
      obtain ⟨hn, rfl⟩ := of_guard hnext
      obtain ⟨left, hleft, hstream⟩ := h.rest
      refine ⟨h.status, ⟨left, hleft, ?_⟩, h.delivered, ?_⟩
      · rw [List.append_assoc, ← List.append_assoc _ _ s.ahead, List.take_append_drop]
        exact hstream
      · obtain ⟨f, hf, -, hlt⟩ := hpart
        have hroom := hr.room f hf
        change (s.buffer ++ s.socket.take n).length ≤ limit
        rw [List.length_append, List.length_take]
        omega

/-- What is still to be done. -/
def StreamState.load (s : StreamState ε μ) : Nat :=
  3 * s.ahead.length + 2 * s.socket.length + s.buffer.length

/-- Every step but a drop lowers the load. -/
theorem Tracks.load_lt (h : Tracks r limit frames tail s) (hdrop : e ≠ .drop)
    (hnext : r.next s e = some s') : s'.load < s.load := by
  cases e with
  | drop => exact absurd rfl hdrop
  | arrive n =>
    obtain ⟨hn, rfl⟩ := of_guard hnext
    simp only [StreamState.load, List.length_append, List.length_take, List.length_drop]
    omega
  | poll n =>
    rw [h.next_poll] at hnext
    rcases h.poll_cases hr hframes htail n with
      ⟨f, left, rest, hleft, hbuffer, hpoll⟩ | ⟨hpart, hpoll⟩
    · have hf := hr.nonempty f (hframes f (hleft ▸ List.mem_append_right _ List.mem_cons_self))
      rw [hpoll] at hnext
      injection hnext with hnext
      rw [← hnext, StreamReader.take]
      split <;> simp only [StreamState.load, hbuffer, List.length_append] <;> omega
    · rw [hpoll] at hnext
      obtain ⟨hn, rfl⟩ := of_guard hnext
      simp only [StreamState.load, List.length_append, List.length_take, List.length_drop]
      omega

/-- A run has no more arrivals and turns than three for each byte of the stream. -/
theorem Tracks.steps_le (hhandle : ∀ f ∈ frames, ∃ m, r.handle f = .ok m)
    {test : StreamState ε μ → StreamEvent → Bool} :
    ∀ (es : List StreamEvent) {s s' : StreamState ε μ}, Tracks r limit frames tail s →
      exec r.next test s es = some s' → (es.filter (· ≠ .drop)).length ≤ s.load
  | [], _, _, _, _ => Nat.zero_le _
  | e :: es, s, s', h, hexec => by
    rw [exec] at hexec
    split at hexec
    · obtain ⟨s₁, h₁, h₂⟩ := Option.bind_eq_some_iff.mp hexec
      have hrest := steps_le hhandle es (h.next hr hframes htail hhandle h₁) h₂
      by_cases hdrop : e = .drop
      · subst hdrop
        injection h₁ with h₁
        rw [List.filter_cons_of_neg (by simp), h₁]
        exact hrest
      · have hlt := h.load_lt hr hframes htail hdrop h₁
        rw [List.filter_cons_of_pos (by simpa using hdrop), List.length_cons]
        omega
    · cases hexec

/-- **At the end.** When all bytes have arrived and the reader cannot go on, it has taken all
frames, and what is left in the buffer is the tail. -/
theorem Tracks.complete (h : Tracks r limit frames tail s) (hahead : s.ahead = [])
    (hblocked : ∀ n, r.next s (.poll n) = none) : s.taken = frames ∧ s.buffer = tail := by
  have hblocked' : r.poll s 1 = none := h.next_poll 1 ▸ hblocked 1
  rcases h.poll_cases hr hframes htail 1 with
    ⟨f, left, rest, -, -, hpoll⟩ | ⟨⟨g, hg, hwithin, hlt⟩, hpoll⟩
  · exact absurd (hpoll.symm.trans hblocked') (by simp)
  · -- no frame in the buffer, and nothing to read
    have hsocket : s.socket = [] := by
      by_contra hne
      have hpos : 1 ≤ s.socket.length := List.length_pos_iff.mpr hne
      rw [if_pos ⟨Nat.le_refl 1, hr.reads, hpos⟩] at hpoll
      exact absurd (hpoll.symm.trans hblocked') (by simp)
    obtain ⟨left, hleft, hstream⟩ := h.rest
    rw [hsocket, hahead, List.append_nil, List.append_nil] at hstream
    cases left with
    | nil => exact ⟨by simpa using hleft.symm, hstream⟩
    | cons f left' =>
      have hf : Frame f := hframes f (hleft ▸ List.mem_append_right _ List.mem_cons_self)
      have hwhole := hr.whole f (left'.flatten ++ tail) hf (by
        rw [← List.append_assoc, ← List.flatten_cons, ← hstream]
        exact h.small)
      rw [← List.append_assoc, ← List.flatten_cons, ← hstream,
        hr.part _ ⟨g, hg, hwithin, hlt⟩] at hwhole
      cases hwhole

/-- The reader takes the frames of a stream in order, and ends with all of them and the tail. -/
structure StreamReader.Delivers (r : StreamReader ε μ) (frames : List (List UInt8))
    (tail : List UInt8) : Prop where
  inOrder : ∀ s, Reach r.next Any (· = .start (frames.flatten ++ tail)) s →
    s.status = .ok () ∧ s.taken <+: frames ∧ s.delivered = s.taken.filterMap r.message
  complete : ∀ s, Reach r.next Any (· = .start (frames.flatten ++ tail)) s → s.ahead = [] →
    (∀ n, r.next s (.poll n) = none) → s.taken = frames ∧ s.buffer = tail
  steps : ∀ es s, exec r.next (fun _ _ => true) (.start (frames.flatten ++ tail)) es = some s →
    (es.filter (· ≠ .drop)).length ≤ 3 * (frames.flatten ++ tail).length

/-- **A lawful reader delivers every stream of frames that it can handle.** -/
theorem StreamReader.Lawful.delivers (hhandle : ∀ f ∈ frames, ∃ m, r.handle f = .ok m) :
    r.Delivers frames tail := by
  have htracks : ∀ s, Reach r.next Any (· = .start (frames.flatten ++ tail)) s →
      Tracks r limit frames tail s := by
    intro s hs
    refine hs.invariant (I := Tracks r limit frames tail) ?_ ?_
    · rintro _ rfl
      exact .start limit
    · intro s e s' h _ hnext
      exact h.next hr hframes htail hhandle hnext
  refine ⟨fun s hs => ?_, fun s hs => (htracks s hs).complete hr hframes htail, fun es s hexec => ?_⟩
  · obtain ⟨left, hleft, -⟩ := (htracks s hs).rest
    exact ⟨(htracks s hs).status, ⟨left, hleft.symm⟩, (htracks s hs).delivered⟩
  · have hsteps := Tracks.steps_le hr hframes htail hhandle es (.start limit) hexec
    simpa [StreamState.load, StreamState.start] using hsteps

end

end MiningInfra.Lib
