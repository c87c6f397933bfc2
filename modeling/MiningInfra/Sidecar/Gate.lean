import Mathlib.Data.UInt
import MiningInfra.Lib.Recent
import MiningInfra.Sidecar.Candidate

/-!
# The submit gate

A check in front of `submit_block`: the candidate's parent is known, its height is near the tip
and its hash was not let through lately. What the gate knows of the chain is a polled tip and a
cache of parents that were looked up; the height comes from the candidate's own lookup of its
parent, and a candidate whose lookup gave nothing is taken to be at height one.
-/

namespace MiningInfra.Sidecar

open Lib Coinbase Relay

/-! ## The view of the chain -/

def checkedAdd (a b : Nat) : Option UInt64 :=
  if a + b < 2 ^ 64 then some (UInt64.ofNat (a + b)) else none

def saturatingAdd (a b : UInt64) : UInt64 := (checkedAdd a.toNat b.toNat).getD (2 ^ 64 - 1)

def saturatingSub (a b : UInt64) : UInt64 := if b ≤ a then a - b else 0

/-- The polled tip, and the parents that were confirmed, the least recent first. -/
structure CachedChainState where
  tipHeight : UInt64
  knownParents : List Bytes32
  parentCacheCapacity : Nat
  deriving DecidableEq

namespace CachedChainState

def new (parentCacheCapacity : Nat) : CachedChainState := ⟨0, [], parentCacheCapacity⟩

def parentKnown (s : CachedChainState) (hash : Bytes32) : Bool := s.knownParents.contains hash

/-- A hash that is there moves to the end; a new one displaces the oldest of a full cache. -/
def admitParent (s : CachedChainState) (hash : Bytes32) : CachedChainState :=
  let kept :=
    if s.knownParents.contains hash then s.knownParents.erase hash
    else if s.knownParents.length = s.parentCacheCapacity then s.knownParents.tail
    else s.knownParents
  { s with knownParents := kept ++ [hash] }

def setTipHeight (s : CachedChainState) (height : UInt64) : CachedChainState :=
  { s with tipHeight := height }

end CachedChainState

/-- What the node said about a candidate's parent. -/
structure ParentObservation where
  parentHash : Bytes32
  height : UInt64
  confirmations : Option Int64
  deriving DecidableEq

/-- The answer to `getblockheader`, after the retries. -/
inductive HeaderAnswer where
  | failed
  | unknown
  /-- `matching` says whether the hash in the answer is the one asked for. -/
  | header (matching : Bool) (height : UInt64) (confirmations : Option Int64)
  deriving DecidableEq

def parentHashFromHeader (header : List UInt8) : Option Bytes32 :=
  if header.length < 36 then none else some (toBytes32 ((header.drop 4).take 32))

/-- `observe_candidate_parent`: a confirmed parent goes into the cache. A header too short for a
parent, an unknown parent, a failed call and an answer for another block all give nothing. -/
def observeCandidateParent (s : CachedChainState) (header : List UInt8) (answer : HeaderAnswer) :
    Option ParentObservation × CachedChainState :=
  match parentHashFromHeader header, answer with
  | some parentHash, .header true height confirmations =>
    (some ⟨parentHash, height, confirmations⟩, s.admitParent parentHash)
  | _, _ => (none, s)

/-! ## What the gate is told about a candidate -/

structure CandidateMeta where
  height : UInt64
  parentHash : Bytes32
  blockHashHex : String
  observedTip : Option UInt64
  parentConfirmations : Option Int64
  deriving DecidableEq

inductive CandidateMetaError where
  | headerTooShort
  | parentHeightOverflow
  | observationForOtherParent
  | observedTipOverflow
  deriving DecidableEq, Repr

def CandidateMetaError.asStr : CandidateMetaError → String
  | .headerTooShort => "header too short"
  | .parentHeightOverflow => "parent height overflow"
  | .observationForOtherParent => "parent observation is for a different parent"
  | .observedTipOverflow => "observed tip overflow"

/-- The height and the confirmations of the parent. Without an observation the height is 0. -/
def parentFacts (parentHash : Bytes32) (parent : Option ParentObservation) :
    Except CandidateMetaError (UInt64 × Option Int64) :=
  match parent with
  | some observed =>
    if observed.parentHash ≠ parentHash then .error .observationForOtherParent
    else .ok (observed.height, observed.confirmations)
  | none => .ok (0, none)

/-- The tip at the lookup, when it placed the parent on the best chain. -/
def observedTipOf (parentHeight : UInt64) (confirmations : Option Int64) :
    Except CandidateMetaError (Option UInt64) :=
  match confirmations with
  | some c =>
    if 1 ≤ c.toInt then
      match checkedAdd parentHeight.toNat (c.toInt - 1).toNat with
      | some tip => .ok (some tip)
      | none => .error .observedTipOverflow
    else .ok none
  | none => .ok none

def CandidateMeta.fromHeaderBytes (header : List UInt8) (blockHashHex : String)
    (parent : Option ParentObservation) : Except CandidateMetaError CandidateMeta :=
  match parentHashFromHeader header with
  | none => .error .headerTooShort
  | some parentHash => do
    let (parentHeight, parentConfirmations) ← parentFacts parentHash parent
    match checkedAdd parentHeight.toNat 1 with
    | none => .error .parentHeightOverflow
    | some height =>
      let observedTip ← observedTipOf parentHeight parentConfirmations
      pure ⟨height, parentHash, blockHashHex, observedTip, parentConfirmations⟩

/-! ## The gate -/

structure GateConfig where
  enabled : Bool
  allowedBelow : UInt64
  dedupWindow : Nat
  dedupCapacity : Nat
  unreadableAttemptsPerBlock : Nat
  deriving DecidableEq, Repr

inductive RejectReason where
  | headerMutated
  | unknownParent
  | outOfHeightWindow
  | duplicateSubmit
  | unverifiedLimit
  deriving DecidableEq, Repr

def RejectReason.asStr : RejectReason → String
  | .headerMutated => "header_mutated"
  | .unknownParent => "unknown_parent"
  | .outOfHeightWindow => "out_of_height_window"
  | .duplicateSubmit => "duplicate_submit"
  | .unverifiedLimit => "unverified_limit"

/-- `DedupRing`. -/
abbrev DedupRing := Recent String

/-- The gate, apart from its view of the chain. `inFlight` are the digests of the unverified
bodies that are at Zebra. -/
structure SubmitGate where
  config : GateConfig
  dedup : DedupRing
  unverifiedAttempts : DedupRing
  inFlight : List Bytes32
  deriving DecidableEq

namespace SubmitGate

def new (config : GateConfig) : SubmitGate where
  config
  dedup := .new config.dedupCapacity config.dedupWindow
  unverifiedAttempts := .new config.dedupCapacity config.dedupWindow
  inFlight := []

def chainRejection (g : SubmitGate) (chain : CachedChainState) (candidate : SubmissionCandidate)
    (info : CandidateMeta) : Option RejectReason :=
  if info.blockHashHex ≠ candidate.blockHash then some .headerMutated
  else if !chain.parentKnown info.parentHash then some .unknownParent
  else
    let tip := info.observedTip.elim chain.tipHeight (max · chain.tipHeight)
    let lower := saturatingSub tip g.config.allowedBelow
    let upper := saturatingAdd tip 1
    if info.height < lower ∨ upper < info.height then some .outOfHeightWindow else none

/-- `GateDecision` is an `Except`: no value for an accept, the reason of a rejection. -/
abbrev Decision := Except RejectReason Unit

def applyAt (g : SubmitGate) (chain : CachedChainState) (candidate : SubmissionCandidate)
    (info : CandidateMeta) (now : Nat) : Decision × SubmitGate :=
  if !g.config.enabled then (.ok (), g)
  else match g.chainRejection chain candidate info with
    | some reason => (.error reason, g)
    | none =>
      let (known, dedup) := g.dedup.contains candidate.blockHash now
      if known then (.error .duplicateSubmit, { g with dedup })
      else (.ok (), { g with dedup := dedup.record candidate.blockHash now })

/-- `Sha256::digest(candidate.block_hex.as_bytes())`. -/
def bodyDigest (hashes : Hashes) (candidate : SubmissionCandidate) : Bytes32 :=
  hashes.sha256 candidate.blockHex.toUTF8.toList

/-- The checks of a reservation that come before the body: the chain and the recent hashes. -/
def refuseUnverified (g : SubmitGate) (chain : CachedChainState) (candidate : SubmissionCandidate)
    (info : CandidateMeta) (now : Nat) : Decision × SubmitGate :=
  if !g.config.enabled then (.ok (), g)
  else match g.chainRejection chain candidate info with
    | some reason => (.error reason, g)
    | none =>
      let (known, dedup) := g.dedup.contains candidate.blockHash now
      (if known then .error .duplicateSubmit else .ok (), { g with dedup })

/-- One of the attempts a block has in the window. -/
def takeAttempt (g : SubmitGate) (candidate : SubmissionCandidate) (now : Nat) :
    Decision × SubmitGate :=
  if !g.config.enabled then (.ok (), g)
  else
    let (attempts, unverifiedAttempts) := g.unverifiedAttempts.count candidate.blockHash now
    if g.config.unreadableAttemptsPerBlock ≤ attempts then
      (.error .unverifiedLimit, { g with unverifiedAttempts })
    else
      (.ok (), { g with
        unverifiedAttempts := unverifiedAttempts.record candidate.blockHash now })

def reserveUnverifiedAt (hashes : Hashes) (g : SubmitGate) (chain : CachedChainState)
    (candidate : SubmissionCandidate) (info : CandidateMeta) (now : Nat) : Decision × SubmitGate :=
  match g.refuseUnverified chain candidate info now with
  | (.error reason, g) => (.error reason, g)
  | (.ok (), g) =>
    let body := bodyDigest hashes candidate
    if body ∈ g.inFlight then (.error .duplicateSubmit, g)
    else match g.takeAttempt candidate now with
      | (.error reason, g) => (.error reason, g)
      | (.ok (), g) => (.ok (), { g with inFlight := body :: g.inFlight })

/-- The end of an `UnverifiedSlot`. -/
def dropSlot (hashes : Hashes) (g : SubmitGate) (candidate : SubmissionCandidate) : SubmitGate :=
  { g with inFlight := g.inFlight.erase (bodyDigest hashes candidate) }

def recordSubmittedAt (g : SubmitGate) (candidate : SubmissionCandidate) (now : Nat) : SubmitGate :=
  { g with dedup := g.dedup.record candidate.blockHash now }

/-! ## Without an observation -/

theorem toNat_saturatingSub (a b : UInt64) : (saturatingSub a b).toNat = a.toNat - b.toNat := by
  unfold saturatingSub
  split
  · rename_i h
    exact UInt64.toNat_sub_of_le a b h
  · rename_i h
    have hlt : a.toNat < b.toNat := Nat.lt_of_not_le fun hle => h (UInt64.le_iff_toNat_le.mpr hle)
    rw [Nat.sub_eq_zero_of_le (Nat.le_of_lt hlt)]
    rfl

variable {info : CandidateMeta} {g : SubmitGate} {chain : CachedChainState}
  {candidate : SubmissionCandidate} {now : Nat} {reason : RejectReason} {hashes : Hashes}

/-- A candidate whose lookup gave nothing is taken to be at height one. -/
theorem fromHeaderBytes_none {header : List UInt8} {blockHashHex : String}
    (h : CandidateMeta.fromHeaderBytes header blockHashHex none = .ok info) :
    parentHashFromHeader header = some info.parentHash ∧ info.height = 1
      ∧ info.observedTip = none := by
  unfold CandidateMeta.fromHeaderBytes at h
  cases hparent : parentHashFromHeader header with
  | none => rw [hparent] at h; cases h
  | some parentHash =>
    rw [hparent] at h
    cases h
    exact ⟨rfl, rfl, rfl⟩

/-- The parent is not in the cache, or height one is below the window of the polled tip. -/
def Screens (g : SubmitGate) (chain : CachedChainState) (parentHash : Bytes32) : Prop :=
  chain.parentKnown parentHash = false ∨ g.config.allowedBelow.toNat + 1 < chain.tipHeight.toNat

theorem chainRejection_unobserved (candidate : SubmissionCandidate) (hheight : info.height = 1)
    (htip : info.observedTip = none) (hscreens : g.Screens chain info.parentHash) :
    ∃ reason, g.chainRejection chain candidate info = some reason := by
  unfold chainRejection
  split
  · exact ⟨_, rfl⟩
  split
  · exact ⟨_, rfl⟩
  rename_i hknown
  rcases hscreens with hunknown | hbelow
  · exact absurd hunknown (by simpa using hknown)
  · -- the lower end of the window is above one
    refine ⟨.outOfHeightWindow, if_pos (Or.inl ?_)⟩
    rw [htip, hheight, UInt64.lt_iff_toNat_lt, Option.elim_none, toNat_saturatingSub]
    have : (1 : UInt64).toNat = 1 := rfl
    omega

section

variable (henabled : g.config.enabled = true)
  (h : g.chainRejection chain candidate info = some reason)

include henabled h

theorem applyAt_of_rejection : g.applyAt chain candidate info now = (.error reason, g) := by
  unfold applyAt
  rw [henabled, h]
  rfl

theorem reserveUnverifiedAt_of_rejection :
    g.reserveUnverifiedAt hashes chain candidate info now = (.error reason, g) := by
  unfold reserveUnverifiedAt refuseUnverified
  rw [henabled, h]
  rfl

end

/-! ## What a decision leaves behind -/

/-- Nothing but the passing of time. -/
structure Ages (g g' : SubmitGate) : Prop where
  config : g'.config = g.config
  inFlight : g'.inFlight = g.inFlight
  window : g'.dedup.window = g.dedup.window
  entries : ∀ e ∈ g'.dedup.entries, e ∈ g.dedup.entries
  ordered : ∀ now, g.dedup.Ordered now → g'.dedup.Ordered now

theorem Ages.refl (g : SubmitGate) : g.Ages g :=
  ⟨rfl, rfl, rfl, fun _ he => he, fun _ h => h⟩

theorem Ages.trans {g₁ g₂ g₃ : SubmitGate} (h : g₁.Ages g₂) (h' : g₂.Ages g₃) : g₁.Ages g₃ :=
  ⟨h'.config.trans h.config, h'.inFlight.trans h.inFlight, h'.window.trans h.window,
    fun e he => h.entries e (h'.entries e he), fun now ho => h'.ordered now (h.ordered now ho)⟩

theorem ages_contains (g : SubmitGate) (hash : String) (now : Nat) :
    g.Ages { g with dedup := (g.dedup.contains hash now).2 } :=
  ⟨rfl, rfl, rfl, fun _ he => Recent.mem_of_mem_evictExpired he, fun _ h =>
    ⟨h.sorted.sublist (List.dropWhile_sublist _),
      fun e he => h.past e (Recent.mem_of_mem_evictExpired he)⟩⟩

theorem chainRejection_ne_duplicate :
    g.chainRejection chain candidate info ≠ some .duplicateSubmit := by
  unfold chainRejection
  split
  · simp
  split
  · simp
  dsimp only
  split <;> simp

/-- `apply_at` lets time pass, and records the hash of what it accepts. -/
theorem applyAt_leaves (g : SubmitGate) (chain : CachedChainState)
    (candidate : SubmissionCandidate) (info : CandidateMeta) (now : Nat) :
    ∃ g', g.Ages g' ∧ ((g.applyAt chain candidate info now).2 = g'
      ∨ (g.applyAt chain candidate info now).1 = .ok ()
        ∧ (g.applyAt chain candidate info now).2 = g'.recordSubmittedAt candidate now) := by
  unfold applyAt
  split
  · exact ⟨g, Ages.refl g, Or.inl rfl⟩
  split
  · exact ⟨g, Ages.refl g, Or.inl rfl⟩
  refine ⟨_, g.ages_contains candidate.blockHash now, ?_⟩
  dsimp only
  split
  · exact Or.inl rfl
  · exact Or.inr ⟨rfl, rfl⟩

theorem applyAt_duplicate (h : (g.applyAt chain candidate info now).1 = .error .duplicateSubmit) :
    (g.dedup.contains candidate.blockHash now).1 = true := by
  unfold applyAt at h
  split at h
  · cases h
  split at h
  · rename_i hreason
    injection h with h
    exact absurd (h ▸ hreason) chainRejection_ne_duplicate
  dsimp only at h
  split at h
  · assumption
  · cases h

theorem ages_refuseUnverified (g : SubmitGate) (chain : CachedChainState)
    (candidate : SubmissionCandidate) (info : CandidateMeta) (now : Nat) :
    g.Ages (g.refuseUnverified chain candidate info now).2 := by
  unfold refuseUnverified
  split
  · exact Ages.refl g
  split
  · exact Ages.refl g
  · exact g.ages_contains candidate.blockHash now

theorem ages_takeAttempt (g : SubmitGate) (candidate : SubmissionCandidate) (now : Nat) :
    g.Ages (g.takeAttempt candidate now).2 := by
  unfold takeAttempt
  split
  · exact Ages.refl g
  dsimp only
  split <;> exact ⟨rfl, rfl, rfl, fun _ he => he, fun _ h => h⟩

/-- A reservation lets time pass; one that is granted puts a body in flight that was not. -/
theorem reserveUnverifiedAt_leaves (hashes : Hashes) (g : SubmitGate) (chain : CachedChainState)
    (candidate : SubmissionCandidate) (info : CandidateMeta) (now : Nat) :
    ∃ g', g.Ages g' ∧ ((∃ reason, (g.reserveUnverifiedAt hashes chain candidate info now)
        = (.error reason, g'))
      ∨ bodyDigest hashes candidate ∉ g.inFlight
        ∧ g.reserveUnverifiedAt hashes chain candidate info now
          = (.ok (), { g' with inFlight := bodyDigest hashes candidate :: g'.inFlight })) := by
  have hrefuse := g.ages_refuseUnverified chain candidate info now
  unfold reserveUnverifiedAt
  rcases hr : g.refuseUnverified chain candidate info now with ⟨reason | _, g₁⟩
  · rw [hr] at hrefuse
    exact ⟨g₁, hrefuse, Or.inl ⟨reason, rfl⟩⟩
  rw [hr] at hrefuse
  dsimp only
  split
  · exact ⟨g₁, hrefuse, Or.inl ⟨_, rfl⟩⟩
  rename_i hbody
  have htake := g₁.ages_takeAttempt candidate now
  rcases ht : g₁.takeAttempt candidate now with ⟨reason | _, g₂⟩
  · rw [ht] at htake
    exact ⟨g₂, hrefuse.trans htake, Or.inl ⟨reason, rfl⟩⟩
  · rw [ht] at htake
    refine ⟨g₂, hrefuse.trans htake, Or.inr ⟨?_, rfl⟩⟩
    rwa [hrefuse.inFlight] at hbody

theorem refuseUnverified_duplicate
    (h : (g.refuseUnverified chain candidate info now).1 = .error .duplicateSubmit) :
    (g.dedup.contains candidate.blockHash now).1 = true := by
  unfold refuseUnverified at h
  split at h
  · cases h
  split at h
  · rename_i hreason
    injection h with h
    exact absurd (h ▸ hreason) chainRejection_ne_duplicate
  dsimp only at h
  split at h
  · assumption
  · cases h

theorem takeAttempt_ne_duplicate (g : SubmitGate) (candidate : SubmissionCandidate) (now : Nat) :
    (g.takeAttempt candidate now).1 ≠ .error .duplicateSubmit := by
  unfold takeAttempt
  split
  · simp
  dsimp only
  split <;> simp

/-- The two ways a reservation is refused as a duplicate. -/
theorem reserveUnverifiedAt_duplicate
    (h : (g.reserveUnverifiedAt hashes chain candidate info now).1 = .error .duplicateSubmit) :
    (g.dedup.contains candidate.blockHash now).1 = true
      ∨ bodyDigest hashes candidate ∈ g.inFlight := by
  have hrefuse := g.ages_refuseUnverified chain candidate info now
  unfold reserveUnverifiedAt at h
  rcases hr : g.refuseUnverified chain candidate info now with ⟨reason | _, g₁⟩
  · rw [hr] at h
    have hdup : (g.refuseUnverified chain candidate info now).1 = .error .duplicateSubmit := by
      rw [hr]
      exact h
    exact Or.inl (refuseUnverified_duplicate hdup)
  rw [hr] at h hrefuse
  dsimp only at h
  split at h
  · rename_i hbody
    rw [hrefuse.inFlight] at hbody
    exact Or.inr hbody
  · rcases ht : g₁.takeAttempt candidate now with ⟨reason | _, g₂⟩
    · rw [ht] at h
      injection h with h
      have hne := takeAttempt_ne_duplicate g₁ candidate now
      rw [ht, h] at hne
      exact absurd rfl hne
    · rw [ht] at h
      cases h

end SubmitGate

end MiningInfra.Sidecar
