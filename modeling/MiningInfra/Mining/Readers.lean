import MiningInfra.Lib.Stream
import MiningInfra.Mining.RoundTrip

/-!
# The plain readers

Three programs read frames of the mining protocol from a TCP stream: the session of the pool, the
listener of the declaring client and the upstream connection of the proxy. Each keeps a buffer
and is dropped by `select!` whenever another arm is ready. The first two refuse a buffer of more
than 64 KiB, and look at that before they look for a frame.
-/

namespace MiningInfra.Mining

open Lib Coinbase

/-- `Display` of an error. -/
def ProtocolError.display : ProtocolError → String
  | .invalidMessageType msgType =>
    let shown := toString msgType.toNat
    s!"Invalid message type: {shown}"
  | .messageTooShort expected actual => s!"Message too short: expected {expected}, got {actual}"
  | .encodingError message => s!"Encoding error: {message}"

/-- `MAX_BUFFER_SIZE`. -/
def maxBufferSize : Nat := 65536

/-! ## The pool -/

inductive PoolReadError where
  | invalidMessage (message : String)
  | protocol (e : ProtocolError)
  deriving DecidableEq, Repr

/-- `MAX_FRAME_SIZE`. -/
def maxFrameSize : Nat := 1048576

def tryParseMessage (readBuf : List UInt8) :
    Outcome PoolReadError (Option (List UInt8) × List UInt8) := do
  Outcome.failIf (maxBufferSize < readBuf.length)
    (.invalidMessage "Read buffer exceeded maximum size of 64KB")
  if readBuf.length < headerSize then return (none, readBuf)
  let frame ← (MessageFrame.decode readBuf).mapErr .protocol
  let shown := toString frame.length.toNat
  Outcome.failIf (maxFrameSize < frame.length.toNat)
    (.invalidMessage s!"Frame size {shown} exceeds maximum of 1MB")
  let totalLen := headerSize + frame.length.toNat
  if readBuf.length < totalLen then return (none, readBuf)
  return (some (readBuf.take totalLen), readBuf.drop totalLen)

/-- `read_next_message` on a plain transport. -/
def poolReader : StreamReader PoolReadError (List UInt8) :=
  ⟨tryParseMessage, fun frame => .ok (some frame), 1024⟩

/-! ## The declaring client -/

/-- The errors are `io::Error::other` of a text. -/
def tryParseFrame (readBuf : List UInt8) : Outcome String (Option (List UInt8) × List UInt8) := do
  Outcome.failIf (maxBufferSize < readBuf.length) "downstream read buffer exceeded 64KB"
  if readBuf.length < headerSize then return (none, readBuf)
  let frame ← (MessageFrame.decode readBuf).mapErr ProtocolError.display
  let totalLen := headerSize + frame.length.toNat
  if readBuf.length < totalLen then return (none, readBuf)
  return (some (readBuf.take totalLen), readBuf.drop totalLen)

/-- `read_next_frame`. -/
def clientReader : StreamReader String (List UInt8) :=
  ⟨tryParseFrame, fun frame => .ok (some frame), 1024⟩

/-! ## The proxy -/

inductive UpstreamMessage where
  | newJob (job : NewEquihashJob)
  | setTarget (target : SetTarget)
  | submitResponse (response : SubmitSharesResponse)

/-- The header is decoded from the first six bytes. There is no limit on the buffer. -/
def takeUpstream (readBuf : List UInt8) :
    Outcome ProtocolError (Option (List UInt8) × List UInt8) := do
  if headerSize ≤ readBuf.length then
    let header ← Outcome.slice readBuf 0 headerSize
    let frame ← MessageFrame.decode header
    let totalLen := headerSize + frame.length.toNat
    if totalLen ≤ readBuf.length then
      return (some (readBuf.take totalLen), readBuf.drop totalLen)
  return (none, readBuf)

/-- Frames of other types are ignored. -/
def decodeUpstreamMessage (utf8Error : Utf8Error) (frame : List UInt8) :
    Outcome ProtocolError (Option UpstreamMessage) := do
  let parsed ← MessageFrame.decode frame
  if parsed.msgType = 0x20 then
    let job ← decodeNewEquihashJob frame
    return some (.newJob job)
  else if parsed.msgType = 0x23 then
    let target ← decodeSetTarget frame
    return some (.setTarget target)
  else if parsed.msgType = 0x22 then
    let response ← decodeSubmitSharesResponse utf8Error frame
    return some (.submitResponse response)
  else return none

/-- `UpstreamConnection::read_message`. -/
def upstreamReader (utf8Error : Utf8Error) : StreamReader ProtocolError UpstreamMessage :=
  ⟨takeUpstream, decodeUpstreamMessage utf8Error, 4096⟩

/-! ## Frames -/

/-- A frame whose header states its length, of at most 63 KiB. -/
structure WellFramed (frame : List UInt8) : Prop where
  header : headerSize ≤ frame.length
  length : frame.length = headerSize + statedLength frame
  size : frame.length ≤ 64512

/-- The header is in the first six bytes. -/
theorem statedLength_of_front {bs frame : List UInt8} (h : bs <+: frame)
    (hlen : headerSize ≤ bs.length) : statedLength bs = statedLength frame := by
  obtain ⟨rest, rfl⟩ := h
  have hlen' : 6 ≤ bs.length := hlen
  have hdrop : (bs ++ rest).drop 3 = bs.drop 3 ++ rest := List.drop_append_of_le_length (by omega)
  have htake : (bs.drop 3 ++ rest).take 3 = (bs.drop 3).take 3 :=
    List.take_append_of_le_length (by rw [List.length_drop]; omega)
  rw [statedLength, statedLength, hdrop, htake]

/-- What all three readers do with a buffer that begins with a frame or with part of one. -/
def cutFrame (bs : List UInt8) : Option (List UInt8) × List UInt8 :=
  if bs.length < headerSize ∨ bs.length < headerSize + statedLength bs then (none, bs)
  else (some (bs.take (headerSize + statedLength bs)), bs.drop (headerSize + statedLength bs))

variable {bs frame rest : List UInt8} {limit : Nat}

theorem cutFrame_whole (h : WellFramed frame) : cutFrame (frame ++ rest) = (some frame, rest) := by
  have hstated := statedLength_of_front ⟨rest, rfl⟩ h.header
  have hlength := h.length
  rw [cutFrame, ← hstated, ← hlength, if_neg, List.take_left, List.drop_left]
  rw [List.length_append]
  omega

theorem cutFrame_part (h : Unfinished WellFramed bs) : cutFrame bs = (none, bs) := by
  obtain ⟨f, hf, hfront, hlt⟩ := h
  rw [cutFrame, if_pos]
  by_cases hshort : bs.length < headerSize
  · exact .inl hshort
  · right
    rw [statedLength_of_front hfront (by omega), ← hf.length]
    exact hlt

/-- Such a buffer, seen from its length and from the length it states. -/
structure Readable (limit : Nat) (bs : List UInt8) : Prop where
  stated : headerSize ≤ bs.length → statedLength bs ≤ maxFramePayload
  within : bs.length ≤ limit

theorem WellFramed.readable (h : WellFramed frame) (hlimit : (frame ++ rest).length ≤ limit) :
    Readable limit (frame ++ rest) := by
  refine ⟨fun _ => ?_, hlimit⟩
  have hsize := h.size
  have hlength := h.length
  rw [← statedLength_of_front ⟨rest, rfl⟩ h.header, maxFramePayload]
  omega

theorem readable_of_unfinished (h : Unfinished WellFramed bs) (hlimit : 64512 ≤ limit) :
    Readable limit bs := by
  obtain ⟨f, hf, hfront, hlt⟩ := h
  have hsize := hf.size
  have hlength := hf.length
  refine ⟨fun hheader => ?_, by omega⟩
  rw [statedLength_of_front hfront hheader, maxFramePayload]
  omega

/-- A reader that cuts readable buffers is lawful, if a read fits behind a frame. -/
theorem lawful_of_cuts {ε μ : Type} {r : StreamReader ε μ} (hreads : 1 ≤ r.chunk)
    (hroom : 64512 + r.chunk ≤ limit + 1)
    (hparse : ∀ bs, Readable limit bs → r.parse bs = .ok (cutFrame bs)) :
    r.Lawful WellFramed limit where
  reads := hreads
  whole f rest hf hlimit := by rw [hparse _ (hf.readable hlimit), cutFrame_whole hf]
  part bs hbs := by rw [hparse _ (readable_of_unfinished hbs (by omega)), cutFrame_part hbs]
  nonempty f hf := Nat.le_trans (by decide) hf.header
  room f hf := by have := hf.size; omega

/-- The frame header of a readable buffer. -/
theorem Readable.decode (h : Readable limit bs) (hheader : headerSize ≤ bs.length) :
    ∃ parsed, MessageFrame.decode bs = .ok parsed ∧ parsed.length.toNat = statedLength bs := by
  have hstated := h.stated hheader
  rw [MessageFrame.decode_eq hheader, if_neg (by omega)]
  refine ⟨_, rfl, ?_⟩
  rw [UInt32.toNat_ofNat', Nat.mod_eq_of_lt]
  exact Nat.lt_trans (statedLength_lt bs) (by decide)

theorem poolReader_lawful : poolReader.Lawful WellFramed maxBufferSize := by
  refine lawful_of_cuts (by decide) (by decide) fun bs hbs => ?_
  have hlimit : ¬ maxBufferSize < bs.length := Nat.not_lt.mpr hbs.within
  simp only [poolReader, tryParseMessage, cutFrame, Outcome.failIf, hlimit, if_false,
    Outcome.ok_bind]
  by_cases hshort : bs.length < headerSize
  · simp only [hshort, true_or, if_true]
    rfl
  · obtain ⟨parsed, hdecode, hlength⟩ := hbs.decode (by omega)
    have hstated := hbs.stated (by omega)
    have hsize : ¬ maxFrameSize < statedLength bs := by
      simp only [maxFramePayload] at hstated
      simp only [maxFrameSize]
      omega
    simp only [hshort, false_or, if_false, hdecode, Outcome.mapErr, Outcome.ok_bind, hlength, hsize]
    split <;> rfl

theorem clientReader_lawful : clientReader.Lawful WellFramed maxBufferSize := by
  refine lawful_of_cuts (by decide) (by decide) fun bs hbs => ?_
  have hlimit : ¬ maxBufferSize < bs.length := Nat.not_lt.mpr hbs.within
  simp only [clientReader, tryParseFrame, cutFrame, Outcome.failIf, hlimit, if_false,
    Outcome.ok_bind]
  by_cases hshort : bs.length < headerSize
  · simp only [hshort, true_or, if_true]
    rfl
  · obtain ⟨parsed, hdecode, hlength⟩ := hbs.decode (by omega)
    simp only [hshort, false_or, if_false, hdecode, Outcome.mapErr, Outcome.ok_bind, hlength]
    split <;> rfl

theorem upstreamReader_lawful (utf8Error : Utf8Error) :
    (upstreamReader utf8Error).Lawful WellFramed 68608 := by
  refine lawful_of_cuts (by simp [upstreamReader]) (by simp [upstreamReader]) fun bs hbs => ?_
  simp only [upstreamReader, takeUpstream, cutFrame]
  by_cases hshort : bs.length < headerSize
  · have hnot : ¬ headerSize ≤ bs.length := by omega
    simp only [hshort, hnot, true_or, if_true, if_false]
    rfl
  · have hheader : headerSize ≤ bs.length := by omega
    have hstated : statedLength (bs.take headerSize) = statedLength bs :=
      statedLength_of_front (List.take_prefix _ _) (by rw [List.length_take]; omega)
    -- the header alone is readable as well
    have hfront : Readable 68608 (bs.take headerSize) :=
      ⟨fun _ => hstated ▸ hbs.stated hheader, by rw [List.length_take]; have := hbs.within; omega⟩
    obtain ⟨parsed, hdecode, hlength⟩ := hfront.decode (by rw [List.length_take]; omega)
    have hslice : (Outcome.slice bs 0 headerSize : Outcome ProtocolError _)
        = .ok (bs.take headerSize) := Outcome.slice_eq_ok ⟨Nat.zero_le _, hheader⟩
    simp only [hshort, hheader, false_or, if_true, hslice, Outcome.ok_bind, hdecode, hlength,
      hstated, ← Nat.not_le]
    split <;> simp_all <;> rfl

/-- A target, and a message of a type that nobody knows. -/
def sampleFrames : List (List UInt8) :=
  [sealFrame 0x23 (u32Bytes 1 ++ List.replicate 32 0), sealFrame 0x99 [1]]

end MiningInfra.Mining
