import MiningInfra.Lib.Reach
import MiningInfra.Lib.Recent
import MiningInfra.Relay.Compact
import MiningInfra.Relay.Parse

/-!
# The relay bridge

Any number of copies of a block reach the bridge at once, from peers and from the pool gateway,
and only one of them is to be sent. A copy whose body was validated *claims* its header while it
is sent; the others wait for the claim to end, without holding a parse permit. A claim that ends
without a commit leaves the block open, and one of those that waited claims it next.

A call is a phase: what it has done so far, and which `await` it stands at. What the calls share
is behind two locks and two semaphores. Every step below is what one call does between two locks
or two `await`s, so an execution of the steps is an interleaving of the calls.
-/

namespace MiningInfra.Ingress

open Lib Coinbase Relay

/-! ## Blocks forwarded and being sent -/

/-- Hashes of blocks forwarded lately, and for each block being sent the call that sends it. The
call stands for the channel that the others wait on: it is closed by removing its entry. -/
structure RecentForwardedHashes (n : Nat) where
  recent : Recent Bytes32
  inFlight : Table Bytes32 (Fin n)

/-- Where a block stands, by its header hash. -/
inductive ForwardState (n : Nat) where
  | opened
  | inFlight (sender : Fin n)
  | forwarded
  deriving DecidableEq, Repr

namespace RecentForwardedHashes

variable {n : Nat}

def new (capacity window : Nat) : RecentForwardedHashes n := ⟨Recent.new capacity window, ∅⟩

/-- Asking where a block stands drops what has expired. -/
def evict (r : RecentForwardedHashes n) (now : Nat) : RecentForwardedHashes n :=
  { r with recent := r.recent.evictExpired now }

def state (r : RecentForwardedHashes n) (hash : Bytes32) (now : Nat) : ForwardState n :=
  if (r.recent.contains hash now).1 then .forwarded
  else match r.inFlight.lookup hash with
    | some sender => .inFlight sender
    | none => .opened

def record (r : RecentForwardedHashes n) (hash : Bytes32) (now : Nat) : RecentForwardedHashes n :=
  { r with
    recent := if r.recent.capacity = 0 then r.recent.evictExpired now else r.recent.record hash now }

def claim (r : RecentForwardedHashes n) (hash : Bytes32) (sender : Fin n) :
    RecentForwardedHashes n :=
  { r with inFlight := r.inFlight.insert hash sender }

/-- What dropping a claim does. -/
def reopen (r : RecentForwardedHashes n) (hash : Bytes32) : RecentForwardedHashes n :=
  { r with inFlight := r.inFlight.erase hash }

end RecentForwardedHashes

/-! ## Bodies forwarded without validation -/

structure UnverifiedBody where
  headerHash : Bytes32
  digest : Bytes32
  deriving DecidableEq

structure UnverifiedEntry where
  body : UnverifiedBody
  since : Nat
  sent : Bool
  deriving DecidableEq

structure UnverifiedForwards where
  capacity : Nat
  window : Nat
  perHeader : Nat
  entries : List UnverifiedEntry
  deriving DecidableEq

inductive UnverifiedReservation where
  | reserved
  | repeated
  | headerFull
  deriving DecidableEq, Repr

namespace UnverifiedForwards

def new (capacity window perHeader : Nat) : UnverifiedForwards := ⟨capacity, window, perHeader, []⟩

/-- An entry that was not sent yet never expires: its drop guard still owns it. -/
def retainFresh (f : UnverifiedForwards) (now : Nat) : UnverifiedForwards :=
  { f with entries := f.entries.filter fun e => !e.sent || decide (now - e.since ≤ f.window) }

def reserve (f : UnverifiedForwards) (body : UnverifiedBody) (now : Nat) :
    UnverifiedReservation × UnverifiedForwards :=
  let f := f.retainFresh now
  if f.entries.any fun e => e.body = body then (.repeated, f)
  else if f.perHeader ≤ (f.entries.filter fun e => e.body.headerHash = body.headerHash).length then
    (.headerFull, f)
  else if max f.capacity f.perHeader ≤ f.entries.length then (.headerFull, f)
  else (.reserved, { f with entries := f.entries ++ [⟨body, now, false⟩] })

def sent (f : UnverifiedForwards) (body : UnverifiedBody) (now : Nat) : Bool :=
  f.entries.any fun e => decide (e.body = body) && e.sent && decide (now - e.since ≤ f.window)

/-- Only the first entry of the body is marked. -/
def commitEntries (body : UnverifiedBody) (now : Nat) : List UnverifiedEntry → List UnverifiedEntry
  | [] => []
  | e :: es => if e.body = body then { e with since := now, sent := true } :: es
    else e :: commitEntries body now es

def commit (f : UnverifiedForwards) (body : UnverifiedBody) (now : Nat) : UnverifiedForwards :=
  { f with entries := commitEntries body now f.entries }

def release (f : UnverifiedForwards) (body : UnverifiedBody) : UnverifiedForwards :=
  { f with entries := f.entries.filter fun e => e.body ≠ body }

end UnverifiedForwards

/-! ## Calls -/

/-- Who delivered the block. Peers and the pool gateway have parse permits of their own. -/
inductive Source where
  | p2p
  | pool
  deriving DecidableEq, Repr

/-- Why a call failed on its block: a finding about the body, or that nothing to send could be
built from it. -/
inductive Refusal where
  | invalidBlockBody (error : BlockBodyError)
  | relay
  deriving DecidableEq, Repr

/-- What the preparation of a block hands back. Objects are left out; whether they can be built is
up to the step. -/
inductive Prepared where
  | previouslySent (since : Nat)
  | validated
  | unverified
  | refused (why : Refusal)
  deriving DecidableEq, Repr

/-- The preparation, which runs on a thread of its own. -/
inductive Job where
  | checking
  | parsing
  | reserved
  | finished (result : Prepared)
  deriving DecidableEq, Repr

/-- How a call ended, with the time at which that was settled. -/
inductive ForwardResult where
  | refused (why : Refusal)
  | deduplicated (time : Nat)
  | forwarded (time : Nat)
  | forwardedUnverified (time : Nat)
  | sendFailed
  | cancelled
  deriving DecidableEq, Repr

inductive Phase (n : Nat) where
  | arriving
  | looking
  | waiting (sender : Fin n)
  | queued
  | granted
  /-- The preparation runs; `attended` until the caller is cancelled, which does not stop it. -/
  | preparing (attended : Bool) (job : Job)
  | reclaiming
  | claimWaiting (sender : Fin n)
  | sending
  | committing (now : Nat)
  | recorded (time : Nat)
  | sendingUnverified
  | done (result : ForwardResult)
  deriving DecidableEq, Repr

/-- The bridge and the calls made to it. -/
structure Bridge (n : Nat) where
  hashes : Hashes
  reader : TxReader
  pow : PowValidator
  /-- `header_meets_stated_target` for the limit of the peers, if there is one. -/
  peerPowLimit : Option (List UInt8 → Bool)
  permits : Source → Nat
  dedupCapacity : Nat
  dedupWindow : Nat
  forwardUnreadableBlocks : Bool
  unreadableBodiesPerHeader : Nat
  source : Fin n → Source
  block : Fin n → List UInt8

structure Shared (n : Nat) where
  forwards : RecentForwardedHashes n
  unverified : UnverifiedForwards
  available : Source → Nat

namespace Shared

variable {n : Nat}

def acquire (s : Shared n) (source : Source) : Shared n :=
  { s with available := Function.update s.available source (s.available source - 1) }

def give (s : Shared n) (source : Source) : Shared n :=
  { s with available := Function.update s.available source (s.available source + 1) }

def look (s : Shared n) (now : Nat) : Shared n := { s with forwards := s.forwards.evict now }

def reopen (s : Shared n) (hash : Bytes32) : Shared n :=
  { s with forwards := s.forwards.reopen hash }

def release (s : Shared n) (body : UnverifiedBody) : Shared n :=
  { s with unverified := s.unverified.release body }

end Shared

namespace Bridge

variable {n : Nat} (b : Bridge n)

def header (i : Fin n) : List UInt8 := (b.block i).take zcashFullHeaderSize

def headerHash (i : Fin n) : Bytes32 := zcashBlockHash b.hashes (b.header i)

def body (i : Fin n) : UnverifiedBody := ⟨b.headerHash i, b.hashes.sha256 (b.block i)⟩

def powLimit (i : Fin n) : Option (List UInt8 → Bool) :=
  match b.source i with
  | .p2p => b.peerPowLimit
  | .pool => none

/-- What is looked at before anything waits or copies the payload. -/
def checkHeader (i : Fin n) : Except BlockBodyError Unit :=
  if maxBlockBytes < (b.block i).length then .error (.tooLarge (b.block i).length)
  else if (b.block i).length < zcashFullHeaderSize then .error .invalidHeaderLength
  else if (b.powLimit i).any fun met => !met (b.header i) then .error .headerTarget
  else .ok ()

/-- A body that the reader stopped at may go out under the bypass; every other finding is about
the body. -/
def prepareUnreadable (i : Fin n) (error : BlockBodyError) (s : Shared n) (now : Nat) :
    Job × Shared n :=
  match error, b.forwardUnreadableBlocks with
  | .transaction _, true =>
    let r := s.unverified.reserve (b.body i) now
    match r.1 with
    | .reserved => (.reserved, { s with unverified := r.2 })
    | _ => (.finished (.refused (.invalidBlockBody error)), { s with unverified := r.2 })
  | _, _ => (.finished (.refused (.invalidBlockBody error)), s)

/-- The error a body that the reader stopped at is refused with. -/
def unreadable (i : Fin n) : Refusal :=
  match parseBlockBody b.hashes b.reader (b.block i) with
  | .error error => .invalidBlockBody error
  | .ok _ => .relay

/-- One step of the preparation. -/
def prepareForward (i : Fin n) (s : Shared n) (now : Nat) : Job → Job × Shared n
  | .checking =>
    if b.forwardUnreadableBlocks && s.unverified.sent (b.body i) now then
      (.finished (.previouslySent now), s)
    else (.parsing, s)
  | .parsing =>
    match parseBlockBody b.hashes b.reader (b.block i) with
    | .error error => b.prepareUnreadable i error s now
    | .ok _ => (.finished .validated, s)
  | .reserved =>
    if b.pow (b.header i) = .valid then (.finished .unverified, s)
    else (.finished (.refused (b.unreadable i)), s.release (b.body i))
  | .finished result => (.finished result, s)

/-- What is to be sent cannot be built, or the thread panics: a place that was reserved is given
back. -/
def prepareFails (i : Fin n) (s : Shared n) : Job → Job × Shared n
  | .reserved => (.finished (.refused .relay), s.release (b.body i))
  | _ => (.finished (.refused .relay), s)

/-- One attempt to claim the block. -/
def claimForward (i : Fin n) (s : Shared n) (now : Nat) : Phase n × Shared n :=
  match s.forwards.state (b.headerHash i) now with
  | .opened =>
    (.sending, { s with forwards := (s.forwards.evict now).claim (b.headerHash i) i })
  | .forwarded => (.done (.deduplicated now), s.look now)
  | .inFlight sender => (.claimWaiting sender, s.look now)

/-- The caller goes on with what was prepared, and gives up the permit. -/
def resume (i : Fin n) (s : Shared n) (now : Nat) : Prepared → Phase n × Shared n
  | .previouslySent since => (.done (.deduplicated since), s.give (b.source i))
  | .refused why => (.done (.refused why), s.give (b.source i))
  | .unverified => (.sendingUnverified, s.give (b.source i))
  | .validated =>
    let r := b.claimForward i s now
    (r.1, r.2.give (b.source i))

/-- What was prepared for a caller that is gone is dropped. -/
def discard (i : Fin n) (s : Shared n) : Prepared → Shared n
  | .unverified => (s.release (b.body i)).give (b.source i)
  | _ => s.give (b.source i)

end Bridge

/-- How a step turns out where the call does not decide it. -/
inductive Act where
  | proceed
  | fail
  | cancel
  deriving DecidableEq, Repr

namespace Bridge

variable {n : Nat} (b : Bridge n)

/-- What one call does next, at a time. `none`: it waits, or has ended. -/
def turn (i : Fin n) (now : Nat) (s : Shared n) : Phase n → Act → Option (Phase n × Shared n)
  | .arriving, .proceed =>
    match b.checkHeader i with
    | .error error => some (.done (.refused (.invalidBlockBody error)), s)
    | .ok () => some (.looking, s)
  | .looking, .proceed =>
    match s.forwards.state (b.headerHash i) now with
    | .opened => some (.queued, s.look now)
    | .forwarded => some (.done (.deduplicated now), s.look now)
    | .inFlight sender => some (.waiting sender, s.look now)
  | .waiting sender, .proceed =>
    if s.forwards.inFlight.lookup (b.headerHash i) = some sender then none else some (.looking, s)
  | .waiting _, .cancel => some (.done .cancelled, s)
  | .queued, .proceed =>
    if s.available (b.source i) = 0 then none else some (.granted, s.acquire (b.source i))
  | .queued, .cancel => some (.done .cancelled, s)
  | .granted, .proceed =>
    match s.forwards.state (b.headerHash i) now with
    | .opened => some (.preparing true .checking, s.look now)
    | _ => some (.looking, (s.look now).give (b.source i))
  | .preparing true (.finished result), .proceed => some (b.resume i s now result)
  | .preparing false (.finished result), .proceed => some (.done .cancelled, b.discard i s result)
  | .preparing _ (.finished _), .fail => none
  | .preparing true job, .cancel => some (.preparing false job, s)
  | .preparing attended job, .proceed =>
    let r := b.prepareForward i s now job
    some (.preparing attended r.1, r.2)
  | .preparing attended job, .fail =>
    let r := b.prepareFails i s job
    some (.preparing attended r.1, r.2)
  | .claimWaiting sender, .proceed =>
    if s.forwards.inFlight.lookup (b.headerHash i) = some sender then none
    else some (.reclaiming, s)
  | .claimWaiting _, .cancel => some (.done .cancelled, s)
  | .reclaiming, .proceed => some (b.claimForward i s now)
  | .sending, .proceed => some (.committing now, s)
  | .sending, .fail => some (.done .sendFailed, s.reopen (b.headerHash i))
  | .sending, .cancel => some (.done .cancelled, s.reopen (b.headerHash i))
  | .committing since, .proceed =>
    some (.recorded now, { s with forwards := s.forwards.record (b.headerHash i) since })
  | .recorded time, .proceed => some (.done (.forwarded time), s.reopen (b.headerHash i))
  | .sendingUnverified, .proceed =>
    some (.done (.forwardedUnverified now),
      { s with unverified := s.unverified.commit (b.body i) now })
  | .sendingUnverified, .fail => some (.done .sendFailed, s.release (b.body i))
  | .sendingUnverified, .cancel => some (.done .cancelled, s.release (b.body i))
  | _, _ => none

end Bridge

/-! ## Runs -/

structure Forwarding (n : Nat) where
  clock : Nat
  shared : Shared n
  phases : Fin n → Phase n

/-- One call takes its next step, some time after the step before. -/
structure Event (n : Nat) where
  wait : Nat
  call : Fin n
  act : Act
  deriving DecidableEq, Repr

namespace Bridge

variable {n : Nat} (b : Bridge n)

def start : Forwarding n where
  clock := 0
  shared :=
    { forwards := .new b.dedupCapacity b.dedupWindow
      unverified := .new b.dedupCapacity b.dedupWindow b.unreadableBodiesPerHeader
      available := b.permits }
  phases := fun _ => .arriving

def next (w : Forwarding n) (e : Event n) : Option (Forwarding n) :=
  (b.turn e.call (w.clock + e.wait) w.shared (w.phases e.call) e.act).map fun r =>
    { clock := w.clock + e.wait
      shared := r.2
      phases := Function.update w.phases e.call r.1 }

/-- States reached by any interleaving of the calls. -/
def Reachable (w : Forwarding n) : Prop := Reach b.next Any (· = b.start) w

end Bridge

end MiningInfra.Ingress
