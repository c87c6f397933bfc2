import Mathlib.Algebra.Group.Nat.Defs
import MiningInfra.Lib.Frames
import MiningInfra.Lib.Reach

/-!
# A session over a Noise connection

The miner writes frames with `NoiseStream::write_message`; the pool's `Session::run` reads them
with `read_message` in a `select!` against the messages of the server. The read keeps its bytes
in local variables: the two bytes of the length, then the body. When a server message wins, the
read is dropped with whatever it had taken from the socket, and the next turn of the loop starts
a new one.

Bytes get from the wire to the socket in pieces of any size, and a read takes them from the
socket in pieces of any size. What the loop makes of a message that was read (go on or break)
and whether a server message could be written come in with the events.
-/

namespace MiningInfra.Noise

open Lib Lib.Frames

/-- `MAX_MESSAGE_SIZE`. -/
def maxMessageSize : Nat := 65535 - 16

/-- The number of messages the transport state has nonces for. -/
def maxMessages : Nat := 2 ^ 64 - 1

/-- One direction of the transport state, by its nonce. -/
structure Cipher where
  encrypt : Nat → List UInt8 → List UInt8
  decrypt : Nat → List UInt8 → Option (List UInt8)
  length_encrypt : ∀ n p, (encrypt n p).length = p.length + 16
  decrypt_encrypt : ∀ n p, n < maxMessages → decrypt n (encrypt n p) = some p

/-- Why `Session::run` left its loop. -/
inductive EndReason where
  /-- `read_next_message` returned `None`. -/
  | closed
  | decryption
  | unexpectedEof
  /-- A message was read whose handling ends the session. -/
  | handler
  | writeError
  /-- `Shutdown`, or the channel to the server is gone. -/
  | server
  deriving DecidableEq, Repr

/-- A connection with both its ends. `sent` and `delivered` are the messages the miner wrote and
those `read_next_message` returned to the loop. -/
structure Connection where
  sent : List (List UInt8)
  wire : List UInt8
  socket : List UInt8
  reading : Reading
  nonce : Nat
  delivered : List (List UInt8)
  ended : Option EndReason

def Connection.new : Connection := ⟨[], [], [], .start, 0, [], none⟩

inductive Event where
  /-- The miner writes a message. -/
  | send (message : List UInt8)
  /-- Up to `k` bytes arrive. -/
  | arrive (k : Nat)
  /-- The read takes up to `k` bytes; if that completes a message, does the loop go on? -/
  | read (k : Nat) (goOn : Bool)
  /-- A job or a target wins the `select!`; could it be written? -/
  | serverMessage (written : Bool)
  | serverGone
  | hangUp
  deriving DecidableEq

namespace Connection

/-- `write_message` of the miner. -/
def send (cipher : Cipher) (c : Connection) (message : List UInt8) : Option Connection :=
  if maxMessageSize < message.length ∨ maxMessages ≤ c.sent.length then none
  else some { c with
    sent := c.sent ++ [message]
    wire := c.wire ++ frame (cipher.encrypt c.sent.length message) }

def arrive (c : Connection) (k : Nat) : Connection :=
  { c with wire := c.wire.drop k, socket := c.socket ++ c.wire.take k }

/-- The message is there: decrypt it and hand it to the loop. An empty one stands for a closed
connection, whether its frame is empty or what it decrypts to. -/
def finish (cipher : Cipher) (c : Connection) (ciphertext : List UInt8) (goOn : Bool) : Connection :=
  if ciphertext = [] then { c with ended := some .closed }
  else match cipher.decrypt c.nonce ciphertext with
    | none => { c with ended := some .decryption }
    | some plaintext =>
      if plaintext = [] then { c with nonce := c.nonce + 1, ended := some .closed }
      else { c with
        nonce := c.nonce + 1
        reading := .start
        delivered := c.delivered ++ [plaintext]
        ended := if goOn then none else some .handler }

def read (cipher : Cipher) (c : Connection) (k : Nat) (goOn : Bool) : Connection :=
  let piece := c.socket.take (min k c.reading.missing)
  let rest := c.socket.drop (min k c.reading.missing)
  match c.reading.feed piece with
  | .inl reading => { c with socket := rest, reading }
  | .inr ciphertext => finish cipher { c with socket := rest } ciphertext goOn

def next (cipher : Cipher) (c : Connection) : Event → Option Connection
  | .send message => c.send cipher message
  | .arrive k => some (c.arrive k)
  | .read k goOn => if c.ended.isSome then none else some (c.read cipher k goOn)
  | .serverMessage written =>
    if c.ended.isSome then none
    else some { c with reading := .start, ended := if written then none else some .writeError }
  | .serverGone => if c.ended.isSome then none else some { c with ended := some .server }
  | .hangUp =>
    if c.ended.isSome || !c.wire.isEmpty || !c.socket.isEmpty then none
    else some { c with ended := some .unexpectedEof }

def Fresh (c : Connection) : Prop := c = .new

theorem fresh_new : Connection.new.Fresh := rfl

/-- A server message wins only when the read in progress has taken no byte, and no message is
empty. -/
def Uncut (c : Connection) : Event → Prop
  | .serverMessage _ => c.reading.bytes = []
  | .send message => message ≠ []
  | _ => True

end Connection

/-! ## What is on its way -/

/-- The bytes of a list of messages from this nonce on. -/
def frames (cipher : Cipher) : Nat → List (List UInt8) → List UInt8
  | _, [] => []
  | n, message :: messages => frame (cipher.encrypt n message) ++ frames cipher (n + 1) messages

theorem frames_append (cipher : Cipher) (message : List UInt8) :
    ∀ (n : Nat) (messages : List (List UInt8)), frames cipher n (messages ++ [message])
      = frames cipher n messages ++ frame (cipher.encrypt (n + messages.length) message)
  | n, [] => by simp [frames]
  | n, m :: messages => by
    rw [List.cons_append, frames, frames_append cipher message (n + 1) messages, frames,
      List.append_assoc, List.length_cons, Nat.add_right_comm, Nat.add_assoc]

/-- The read, the socket and the wire hold the frames of exactly the messages still to come. -/
structure InStep (cipher : Cipher) (c : Connection) (rest : List (List UInt8)) : Prop where
  messages : c.sent = c.delivered ++ rest
  nonce : c.nonce = c.delivered.length
  bytes : c.reading.bytes ++ (c.socket ++ c.wire) = frames cipher c.nonce rest
  isOpen : c.reading.Open

/-- The ends that are not a matter of what was read. -/
def EndReason.Outside (reason : EndReason) : Prop := reason ≠ .closed ∧ reason ≠ .decryption

structure Inv (cipher : Cipher) (c : Connection) : Prop where
  sizes : ∀ m ∈ c.sent, m ≠ [] ∧ m.length ≤ maxMessageSize
  count : c.sent.length ≤ maxMessages
  delivered : c.delivered <+: c.sent
  ended : ∀ reason, c.ended = some reason → reason.Outside
  inStep : c.ended = none → ∃ rest, InStep cipher c rest

variable {cipher : Cipher}

variable {c c' : Connection} {rest : List (List UInt8)} {message : List UInt8}

theorem inv_fresh (h : c.Fresh) : Inv cipher c := by
  rw [h]
  refine ⟨?_, Nat.zero_le _, List.prefix_refl _, ?_, ?_⟩
  · intro m hm; exact absurd hm (by simp [Connection.new])
  · intro reason h; exact absurd h (by simp [Connection.new])
  · intro _
    exact ⟨[], rfl, rfl, rfl, Reading.open_start⟩

/-- The session ends for a reason of its own. -/
theorem Inv.stop (hc : Inv cipher c) (reading : Reading) {reason : EndReason} (h : reason.Outside) :
    Inv cipher { c with reading, ended := some reason } := by
  refine ⟨hc.sizes, hc.count, hc.delivered, ?_, ?_⟩
  · intro r hr
    injection hr with hr
    exact hr ▸ h
  · intro hnone; cases hnone

theorem inv_send (hc : Inv cipher c) (hne : message ≠ []) (h : c.send cipher message = some c') :
    Inv cipher c' := by
  unfold Connection.send at h
  split at h
  · cases h
  rename_i hfits
  rw [not_or] at hfits
  cases h
  refine ⟨?_, ?_, ?_, hc.ended, ?_⟩
  · intro m hm
    rcases List.mem_append.mp hm with hm | hm
    · exact hc.sizes m hm
    · rw [List.mem_singleton.mp hm]
      exact ⟨hne, by omega⟩
  · have := hfits.2
    simp only [List.length_append, List.length_singleton]
    omega
  · exact List.IsPrefix.trans hc.delivered (List.prefix_append _ _)
  · intro hnone
    obtain ⟨rest, hrest⟩ := hc.inStep hnone
    refine ⟨rest ++ [message], ?_, hrest.nonce, ?_, hrest.isOpen⟩
    · show c.sent ++ [message] = c.delivered ++ (rest ++ [message])
      rw [hrest.messages, List.append_assoc]
    · -- the new frame goes to the end of the wire, with the nonce after all that were sent
      have hlast : c.nonce + rest.length = c.sent.length := by
        rw [hrest.nonce, hrest.messages, List.length_append]
      show c.reading.bytes ++ (c.socket ++ (c.wire ++ frame (cipher.encrypt c.sent.length message)))
        = frames cipher c.nonce (rest ++ [message])
      rw [frames_append, hlast, ← hrest.bytes]
      simp only [List.append_assoc]

theorem inv_arrive (hc : Inv cipher c) (k : Nat) : Inv cipher (c.arrive k) := by
  refine { hc with inStep := ?_ }
  intro hnone
  obtain ⟨rest, hrest⟩ := hc.inStep hnone
  refine ⟨rest, hrest.messages, hrest.nonce, ?_, hrest.isOpen⟩
  show c.reading.bytes ++ ((c.socket ++ c.wire.take k) ++ c.wire.drop k) = frames cipher c.nonce rest
  rw [List.append_assoc, List.take_append_drop]
  exact hrest.bytes

/-- A message of the size limit fits into a frame. -/
theorem encrypt_fits (cipher : Cipher) {m : List UInt8} (hm : m.length ≤ maxMessageSize) (n : Nat) :
    cipher.encrypt n m ≠ [] ∧ (cipher.encrypt n m).length < 65536 := by
  have hlen := cipher.length_encrypt n m
  have hmax : maxMessageSize = 65519 := rfl
  refine ⟨?_, by omega⟩
  intro hnil
  rw [hnil, List.length_nil] at hlen
  omega

/-! ## The read -/

/-- **A piece of the next frame**: it is taken in, or it completes the next message, which is
handed to the loop. -/
theorem read_inStep (hc : InStep cipher c (message :: rest)) (hne : message ≠ [])
    (hsize : message.length ≤ maxMessageSize) (hcount : c.nonce < maxMessages) (k : Nat)
    (goOn : Bool) :
    (∃ reading, c.read cipher k goOn
        = { c with socket := c.socket.drop (min k c.reading.missing), reading }
      ∧ InStep cipher { c with socket := c.socket.drop (min k c.reading.missing), reading }
        (message :: rest))
    ∨ (c.read cipher k goOn
        = { c with
            socket := c.socket.drop (min k c.reading.missing)
            nonce := c.nonce + 1
            reading := .start
            delivered := c.delivered ++ [message]
            ended := if goOn then none else some .handler }
      ∧ InStep cipher (c.read cipher k goOn) rest) := by
  obtain ⟨hfull, hfits⟩ := encrypt_fits cipher hsize c.nonce
  have hbytes := hc.bytes
  rw [← List.take_append_drop (min k c.reading.missing) c.socket, List.append_assoc, frames]
    at hbytes
  have hpiece : (c.socket.take (min k c.reading.missing)).length ≤ c.reading.missing := by
    rw [List.length_take]; omega
  rcases Reading.feed_frame hc.isOpen hfull hfits hpiece hbytes with
    ⟨reading, hfeed, hopen, htaken⟩ | ⟨hfeed, hmore⟩
  · refine .inl ⟨reading, by simp only [Connection.read, hfeed], ?_⟩
    refine ⟨hc.messages, hc.nonce, ?_, hopen⟩
    show reading.bytes ++ (c.socket.drop (min k c.reading.missing) ++ c.wire)
      = frames cipher c.nonce (message :: rest)
    rw [htaken, List.append_assoc, hbytes, frames]
  · right
    have hread : c.read cipher k goOn = { c with
        socket := c.socket.drop (min k c.reading.missing)
        nonce := c.nonce + 1
        reading := .start
        delivered := c.delivered ++ [message]
        ended := if goOn then none else some .handler } := by
      simp only [Connection.read, hfeed, Connection.finish, hfull, if_false,
        cipher.decrypt_encrypt c.nonce message hcount, hne]
    refine ⟨hread, ?_⟩
    rw [hread]
    refine ⟨?_, ?_, ?_, Reading.open_start⟩
    · show c.sent = (c.delivered ++ [message]) ++ rest
      rw [hc.messages, List.append_assoc, List.singleton_append]
    · show c.nonce + 1 = (c.delivered ++ [message]).length
      rw [hc.nonce, List.length_append, List.length_singleton]
    · exact hmore

/-- Where no message is to come there is no byte to read. -/
theorem read_nothing (hc : InStep cipher c []) (k : Nat) (goOn : Bool) :
    c.read cipher k goOn = c := by
  have hbytes := hc.bytes
  simp only [frames, List.append_eq_nil_iff] at hbytes
  obtain ⟨hreading, hsocket, -⟩ := hbytes
  have hstart : c.reading = .length [] := by
    cases hr : c.reading with
    | length got => rw [hr] at hreading; exact congrArg Reading.length hreading
    | body len got => rw [hr] at hreading; exact absurd hreading (by simp [Reading.bytes, lengthBytes])
  obtain ⟨sent, wire, socket, reading, nonce, delivered, ended⟩ := c
  simp only at hstart hsocket
  subst hstart hsocket
  simp [Connection.read, Reading.feed]

theorem nonce_lt (hc : Inv cipher c) (h : InStep cipher c (message :: rest)) :
    c.nonce < maxMessages := by
  have hcount := hc.count
  rw [h.messages, List.length_append, List.length_cons] at hcount
  rw [h.nonce]
  omega

theorem inv_read (hc : Inv cipher c) (hnone : c.ended = none) (k : Nat) (goOn : Bool) :
    Inv cipher (c.read cipher k goOn) := by
  obtain ⟨rest, hrest⟩ := hc.inStep hnone
  cases rest with
  | nil => rw [read_nothing hrest]; exact hc
  | cons message rest =>
    have hmem : message ∈ c.sent := by rw [hrest.messages]; simp
    obtain ⟨hne, hsize⟩ := hc.sizes message hmem
    rcases read_inStep hrest hne hsize (nonce_lt hc hrest) k goOn with
      ⟨reading, hread, hstep⟩ | ⟨hread, hstep⟩
    · rw [hread]
      exact { hc with inStep := fun _ => ⟨_, hstep⟩ }
    · refine ⟨?_, ?_, ?_, ?_, fun _ => ⟨rest, hstep⟩⟩
      · rw [hread]; exact hc.sizes
      · rw [hread]; exact hc.count
      · exact ⟨rest, hstep.messages.symm⟩
      · rw [hread]
        intro reason hreason
        cases goOn with
        | true => cases hreason
        | false =>
          cases hreason
          exact ⟨by decide, by decide⟩

/-- **Every uncut step keeps the connection in step.** -/
theorem inv_step {e : Event} (hc : Inv cipher c) (hok : c.Uncut e)
    (hnext : c.next cipher e = some c') : Inv cipher c' := by
  cases e with
  | send message => exact inv_send hc hok hnext
  | arrive k =>
    cases hnext
    exact inv_arrive hc k
  | read k goOn =>
    obtain ⟨hended, rfl⟩ := of_guard_not hnext
    exact inv_read hc (by simpa using hended) k goOn
  | serverMessage written =>
    obtain ⟨hended, rfl⟩ := of_guard_not hnext
    cases written with
    | false => exact hc.stop .start ⟨by decide, by decide⟩
    | true =>
      refine ⟨hc.sizes, hc.count, hc.delivered, fun _ h => absurd h (by simp), fun _ => ?_⟩
      obtain ⟨rest, hrest⟩ := hc.inStep (by simpa using hended)
      have hempty : c.reading.bytes = [] := hok
      -- nothing was taken, so nothing is lost with the read
      have hbytes := hrest.bytes
      rw [hempty] at hbytes
      exact ⟨rest, hrest.messages, hrest.nonce, hbytes, Reading.open_start⟩
  | serverGone | hangUp =>
    obtain ⟨-, rfl⟩ := of_guard_not hnext
    exact hc.stop c.reading ⟨by decide, by decide⟩

theorem inv_of_reach (h : Reach (Connection.next cipher) Connection.Uncut Connection.Fresh c) :
    Inv cipher c :=
  Reach.invariant (fun _ => inv_fresh) (fun _ _ _ => inv_step) h

/-! ## Every message arrives -/

/-- The bytes arrive and the read takes them. -/
def Event.Inward : Event → Prop
  | .arrive _ => True
  | .read _ goOn => goOn = true
  | _ => False

/-- With the stream used up, everything has been delivered. -/
theorem delivered_of_used_up (hc : Inv cipher c) (hrest : InStep cipher c rest)
    (hsocket : c.socket = []) (hwire : c.wire = []) : c.delivered = c.sent := by
  cases rest with
  | nil => rw [hrest.messages, List.append_nil]
  | cons message rest =>
    have hmem : message ∈ c.sent := by rw [hrest.messages]; simp
    have hbytes := hrest.bytes
    rw [hsocket, hwire, List.append_nil, List.append_nil, frames] at hbytes
    exact absurd hbytes (Reading.no_frame_left hrest.isOpen
      (encrypt_fits cipher (hc.sizes message hmem).2 c.nonce).2)

/-- Reading on takes bytes from the socket, one at least. -/
theorem read_progress (hc : Inv cipher c) (hrest : InStep cipher c rest) (hnone : c.ended = none)
    (hsocket : c.socket ≠ []) :
    (c.read cipher c.reading.missing true).socket.length < c.socket.length
      ∧ (c.read cipher c.reading.missing true).ended = none
      ∧ (c.read cipher c.reading.missing true).wire = c.wire
      ∧ (c.read cipher c.reading.missing true).sent = c.sent := by
  cases rest with
  | nil =>
    have hbytes := hrest.bytes
    simp only [frames, List.append_eq_nil_iff] at hbytes
    exact absurd hbytes.2.1 hsocket
  | cons message rest =>
    have hmem : message ∈ c.sent := by rw [hrest.messages]; simp
    obtain ⟨hne, hsize⟩ := hc.sizes message hmem
    have hpos := Reading.missing_pos hrest.isOpen
    have hlen := List.length_pos_of_ne_nil hsocket
    have hless : (c.socket.drop (min c.reading.missing c.reading.missing)).length
        < c.socket.length := by
      rw [List.length_drop]; omega
    rcases read_inStep hrest hne hsize (nonce_lt hc hrest) c.reading.missing true with
      ⟨reading, hread, -⟩ | ⟨hread, -⟩
    · rw [hread]; exact ⟨hless, hnone, rfl, rfl⟩
    · rw [hread]; exact ⟨hless, rfl, rfl, rfl⟩

/-- From where all bytes are at the socket, reading delivers them all. -/
theorem reads_deliver (n : Nat) : ∀ {c : Connection}, Inv cipher c → c.ended = none → c.wire = [] →
    c.socket.length ≤ n →
    ∃ es c', (∀ e ∈ es, Event.Inward e) ∧ exec (Connection.next cipher) (fun _ _ => true) c es
      = some c' ∧ c'.ended = none ∧ c'.sent = c.sent ∧ c'.delivered = c.sent := by
  induction n with
  | zero =>
    intro c hc hnone hwire hlen
    obtain ⟨rest, hrest⟩ := hc.inStep hnone
    have hsocket : c.socket = [] := List.length_eq_zero_iff.mp (by omega)
    exact ⟨[], c, by simp, rfl, hnone, rfl, delivered_of_used_up hc hrest hsocket hwire⟩
  | succ n ih =>
    intro c hc hnone hwire hlen
    obtain ⟨rest, hrest⟩ := hc.inStep hnone
    by_cases hsocket : c.socket = []
    · exact ⟨[], c, by simp, rfl, hnone, rfl, delivered_of_used_up hc hrest hsocket hwire⟩
    · obtain ⟨hless, hnone', hwire', hsent'⟩ := read_progress hc hrest hnone hsocket
      obtain ⟨es, c', hes, hexec, hend, hsent, hdelivered⟩ :=
        ih (inv_read hc hnone c.reading.missing true) hnone' (hwire'.trans hwire) (by omega)
      refine ⟨.read c.reading.missing true :: es, c', ?_, ?_, hend, hsent.trans hsent',
        hdelivered.trans hsent'⟩
      · intro e he
        rcases List.mem_cons.mp he with rfl | he
        · rfl
        · exact hes e he
      · simp only [exec, Connection.next, hnone, Option.isSome_none, if_true]
        exact hexec

/-- **The messages arrive, each once and in order.** In every run in which no server message wins
over a read that has taken bytes, what the loop got is a beginning of what the miner wrote, the
session has not ended over a frame, and while it has not ended at all, arrivals and reads are all
it takes to deliver the rest. -/
theorem messages_delivered {c : Connection}
    (h : Reach (Connection.next cipher) Connection.Uncut Connection.Fresh c) :
    c.delivered <+: c.sent
      ∧ (∀ reason, c.ended = some reason → reason ≠ .closed ∧ reason ≠ .decryption)
      ∧ (c.ended = none → c.socket = [] → c.wire = [] → c.delivered = c.sent)
      ∧ (c.ended = none → ∃ es c', (∀ e ∈ es, Event.Inward e)
        ∧ exec (Connection.next cipher) (fun _ _ => true) c es = some c'
        ∧ c'.ended = none ∧ c'.sent = c.sent ∧ c'.delivered = c.sent) := by
  have hc := inv_of_reach h
  refine ⟨hc.delivered, hc.ended, ?_, ?_⟩
  · intro hnone hsocket hwire
    obtain ⟨rest, hrest⟩ := hc.inStep hnone
    exact delivered_of_used_up hc hrest hsocket hwire
  · intro hnone
    have hwire : (c.arrive c.wire.length).wire = [] := List.drop_length
    obtain ⟨es, c', hes, hexec, hrest⟩ := reads_deliver _ (inv_arrive hc c.wire.length)
      hnone hwire (Nat.le_refl _)
    refine ⟨.arrive c.wire.length :: es, c', ?_, hexec, hrest⟩
    intro e he
    rcases List.mem_cons.mp he with rfl | he
    · trivial
    · exact hes e he

/-! ## Two schedules -/

/-- The identity message of a worker "rig-1". -/
def identityMessage : List UInt8 :=
  [0, 0, 0x24, 6, 0, 0, 5, 0x72, 0x69, 0x67, 0x2d, 0x31]

/-- That message under ChaCha20-Poly1305 with nonce 0 and the key 77 1b 00 … 00. -/
def identityCiphertext : List UInt8 :=
  [0x00, 0x1a, 0xae, 0x3e, 0xa2, 0x38, 0xa0, 0xab, 0x21, 0x18, 0x31, 0x29, 0x01, 0xb7, 0xec,
    0xb1, 0xfb, 0xb2, 0x69, 0x5d, 0xc7, 0x1b, 0xce, 0x31, 0xd7, 0x28, 0x9d, 0x3a]

def zeroTag : List UInt8 := List.replicate 16 0

/-- The cipher of the runs. Other messages than the one above get a tag of zeros. -/
def sampleCipher : Cipher where
  encrypt n p := if n = 0 ∧ p = identityMessage then identityCiphertext else p ++ zeroTag
  decrypt n c :=
    if n = 0 ∧ c = identityCiphertext then some identityMessage
    else if c.drop (c.length - 16) = zeroTag then some (c.take (c.length - 16)) else none
  length_encrypt n p := by
    split
    · rename_i h; rw [h.2]; rfl
    · rw [List.length_append]; rfl
  decrypt_encrypt n p _ := by
    by_cases h : n = 0 ∧ p = identityMessage
    · simp only [h, and_self, if_true]
    · have hlen : (p ++ zeroTag).length - 16 = p.length := by
        rw [List.length_append]; exact Nat.add_sub_cancel _ 16
      have hother : ¬ (n = 0 ∧ p ++ zeroTag = identityCiphertext) := by
        rintro ⟨-, heq⟩
        have hp : p.length = 12 := by
          have := congrArg List.length heq
          rw [List.length_append] at this
          exact Nat.add_right_cancel this
        have htag := congrArg (List.drop 12) heq
        rw [← hp, List.drop_left, hp] at htag
        exact absurd htag (by decide)
      simp only [h, hother, if_false, hlen, List.drop_left, List.take_left, if_true]

def uncut (c : Connection) : Event → Bool
  | .serverMessage _ => c.reading.bytes = []
  | .send message => message ≠ []
  | _ => true

theorem uncut_of_test (c : Connection) (e : Event) (h : uncut c e = true) : c.Uncut e := by
  cases e with
  | serverMessage written | send message => simpa [uncut, Connection.Uncut] using h
  | _ => trivial

/-- The frame comes in three pieces; a job is sent before and after it. -/
theorem message_delivered_between_jobs :
    ∃ c : Connection, Reach (Connection.next sampleCipher) Connection.Uncut Connection.Fresh c
      ∧ c.delivered <+: c.sent ∧ c.delivered = [identityMessage] ∧ c.ended = none := by
  have hrun : ∃ c : Connection,
      Reach (Connection.next sampleCipher) Connection.Uncut Connection.Fresh c
        ∧ decide (c.delivered = [identityMessage] ∧ c.ended = none) = true := by
    refine Reach.exists_of_exec uncut uncut_of_test .new Connection.fresh_new
      [.send identityMessage, .serverMessage true, .arrive 1, .read 2 true, .arrive 11, .read 2 true,
        .read 65535 true, .arrive 65535, .read 65535 true, .serverMessage true] ?_
    decide +kernel
  obtain ⟨c, hreach, hc⟩ := hrun
  obtain ⟨hdelivered, hended⟩ := of_decide_eq_true hc
  exact ⟨c, hreach, (messages_delivered hreach).1, hdelivered, hended⟩

/-- **A job in the middle of a frame.** The length of the frame has been read when a job wins the
`select!`; the next read takes the first two bytes of the body for a length, 26, and the other 26
bytes for a frame, which does not decrypt. -/
theorem job_cuts_frame :
    ¬ ∀ (cipher : Cipher) (c : Connection),
      Reach (Connection.next cipher) (fun _ e => e ≠ .send []) Connection.Fresh c →
      c.ended ≠ some .decryption := by
  have hrun : ∃ c : Connection,
      Reach (Connection.next sampleCipher) (fun _ e => e ≠ .send []) Connection.Fresh c
        ∧ decide (c.ended = some .decryption) = true := by
    refine Reach.exists_of_exec (fun _ e => decide (e ≠ Event.send []))
      (fun _ _ h => of_decide_eq_true h) Connection.new Connection.fresh_new
      [.send identityMessage, .arrive 2, .read 2 true, .serverMessage true, .arrive 65535,
        .read 2 true, .read 65535 true] ?_
    decide +kernel
  obtain ⟨c, hreach, hc⟩ := hrun
  intro hall
  exact hall sampleCipher c hreach (of_decide_eq_true hc)

end MiningInfra.Noise
