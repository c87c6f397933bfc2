import MiningInfra.Equihash.Validator
import MiningInfra.Jd.World

/-!
# Shares for declared jobs

`handle_submit_shares_jd`, cut at its lock acquisitions. A batch is worked off share by
share: the checks up to the Equihash verification with the first look at `seen_shares`,
then the entry in `seen_shares`, then the credit under the guard on the tip. The credit
itself belongs to the payout tracker and is left to the caller of `ShareCall.settle`.
-/

namespace MiningInfra.Jd

open Lib Coinbase Equihash

structure JdShare where
  version : UInt32
  time : UInt32
  nonce : Bytes32
  solution : List UInt8
  deriving DecidableEq

structure SubmitSharesJd where
  channelId : UInt32
  requestId : UInt32
  jobId : UInt32
  shares : List JdShare

inductive JdShareErrorCode where
  | unknownJob
  | staleJob
  | lowDifficulty
  | badSolution
  | duplicate
  | channelMismatch
  deriving DecidableEq, Repr

def JdShareErrorCode.asU8 : JdShareErrorCode → UInt8
  | .unknownJob => 1
  | .staleJob => 2
  | .lowDifficulty => 3
  | .badSolution => 4
  | .duplicate => 5
  | .channelMismatch => 6

structure SubmitSharesJdResponse where
  channelId : UInt32
  requestId : UInt32
  accepted : UInt16
  rejected : UInt16
  firstErrorCode : UInt8

/-- The counters of a batch. -/
structure Tally where
  accepted : UInt16
  rejected : UInt16
  firstError : Option JdShareErrorCode

def Tally.reject (t : Tally) (code : JdShareErrorCode) : Tally :=
  ⟨t.accepted, t.rejected + 1, t.firstError.or (some code)⟩

def Tally.accept (t : Tally) : Tally := { t with accepted := t.accepted + 1 }

def Tally.response (t : Tally) (msg : SubmitSharesJd) : SubmitSharesJdResponse :=
  ⟨msg.channelId, msg.requestId, t.accepted, t.rejected, (t.firstError.map (·.asU8)).getD 0⟩

/-- `MAX_SEEN_SHARES_PER_JOB`. -/
def maxSeenSharesPerJob : Nat := 10000

/-- The keys of the shares seen for each declared job. -/
abbrev SeenShares := Table UInt32 (List Bytes32)

/-- `find_job_by_id` on the tokens. -/
def findJobById (tokens : Tokens) (now : Nat) (jobId : UInt32) : Option DeclaredJobInfo :=
  tokens.entries.findSome? fun e =>
    if e.2.isExpired now then none else e.2.jobInfo.filter fun job => job.jobId = jobId

def DeclaredJobInfo.buildHeader (job : DeclaredJobInfo) (time : UInt32) (nonce : Bytes32) :
    List UInt8 :=
  headerBytes job.version job.prevHash job.merkleRoot job.blockCommitments time job.bits
    nonce.toList

def shareDedupKey (hashes : Hashes) (share : JdShare) : Bytes32 :=
  hashes.sha256 (share.nonce.toList ++ u32Bytes share.time ++ share.solution.take 64)

/-! ## Sections -/

/-- A batch in progress: the job, the tip read for the whole batch, the shares still to do. -/
structure Batch where
  msg : SubmitSharesJd
  job : DeclaredJobInfo
  tip : Option Bytes32
  rest : List JdShare
  tally : Tally

/-- The section a batch runs next. -/
inductive ShareCall where
  | findJob (msg : SubmitSharesJd)
  | readTip (msg : SubmitSharesJd) (job : DeclaredJobInfo)
  | nextShare (batch : Batch)
  | record (batch : Batch) (share : JdShare) (equihashOk : Bool)
  | credit (batch : Batch) (share : JdShare)

/-- Entries for jobs that can no longer be found are dropped at the head of each call. -/
def evictSeenShares (seen : SeenShares) (tokens : Tokens) (now : Nat) : SeenShares :=
  seen.retain fun jobId _ => (findJobById tokens now jobId).isSome

/-- The checks that need no verification: channel, version, time and the batch's tip. -/
def Batch.precheck (b : Batch) (share : JdShare) : Option JdShareErrorCode :=
  if b.msg.channelId ≠ b.job.channelId then some .channelMismatch
  else if share.version ≠ b.job.version then some .staleJob
  else if !timeInRange b.job.time share.time then some .staleJob
  else if b.tip.any (· ≠ b.job.prevHash) then some .staleJob
  else none

def Batch.reject (b : Batch) (code : JdShareErrorCode) : Batch :=
  { b with tally := b.tally.reject code }

/-- The checks of one share up to the verification, which says whether the target is met. -/
def Batch.check (v : EquihashValidator) (seen : SeenShares) (b : Batch) (share : JdShare) :
    Except JdShareErrorCode Bool :=
  match b.precheck share with
  | some code => .error code
  | none =>
    if (seen.lookup b.msg.jobId).any fun keys => keys.contains (shareDedupKey v.hashes share) then
      .error .duplicate
    else match v.verifyShare (b.job.buildHeader share.time share.nonce) share.solution
        b.job.shareTarget with
      | .ok _ => .ok true
      | .error .targetNotMet => .ok false
      | .error _ => .error .badSolution

/-- The entry in `seen_shares`; none when the key is there or the job is full. -/
def recordShare (seen : SeenShares) (jobId : UInt32) (key : Bytes32) : SeenShares × Bool :=
  let keys := (seen.lookup jobId).getD []
  if key ∈ keys ∨ maxSeenSharesPerJob ≤ keys.length then (seen.insert jobId keys, false)
  else (seen.insert jobId (keys ++ [key]), true)

/-- Run the next section of a batch, up to the credit. A finished batch answers. -/
def ShareCall.advance (v : EquihashValidator) (server : JdState) (seen : SeenShares) (now : Nat) :
    ShareCall → SeenShares × (SubmitSharesJdResponse ⊕ ShareCall)
  | .findJob msg =>
    (seen, match findJobById server.tokens now msg.jobId with
      | none => .inl ⟨msg.channelId, msg.requestId, 0, UInt16.ofNat msg.shares.length,
          JdShareErrorCode.unknownJob.asU8⟩
      | some job =>
        if job.mode = .fullTemplate then
          .inl ⟨msg.channelId, msg.requestId, 0, UInt16.ofNat msg.shares.length,
            JdShareErrorCode.staleJob.asU8⟩
        else .inr (.readTip msg job))
  | .readTip msg job =>
    (seen, .inr (.nextShare ⟨msg, job, server.currentPrevHash, msg.shares, ⟨0, 0, none⟩⟩))
  | .nextShare b =>
    (seen, match b.rest with
      | [] => .inl (b.tally.response b.msg)
      | share :: rest =>
        match b.check v seen share with
        | .error code => .inr (.nextShare { b.reject code with rest })
        | .ok equihashOk => .inr (.record { b with rest } share equihashOk))
  | .record b share equihashOk =>
    let recorded := recordShare seen b.msg.jobId (shareDedupKey v.hashes share)
    (recorded.1,
      if !recorded.2 then .inr (.nextShare (b.reject .duplicate))
      else if !equihashOk then .inr (.nextShare (b.reject .lowDifficulty))
      else .inr (.credit b share))
  | .credit b share => (seen, .inr (.credit b share))

/-- The tip at the time of the credit lets the share through. -/
def Batch.stillCurrent (b : Batch) (tip : Option Bytes32) : Bool := tip.all (· = b.job.prevHash)

/-- The section after the credit: `none` for a stale job, otherwise whether it was credited. -/
def ShareCall.settle (b : Batch) : Option Bool → ShareCall
  | none => .nextShare (b.reject .staleJob)
  | some true => .nextShare { b with tally := b.tally.accept }
  | some false => .nextShare (b.reject .duplicate)

/-! ## The shares of a call -/

/-- The shares a call still has to deal with. -/
def ShareCall.shares : ShareCall → List JdShare
  | .findJob msg => msg.shares
  | .readTip msg _ => msg.shares
  | .nextShare b => b.rest
  | .record b share _ => share :: b.rest
  | .credit b share => share :: b.rest

variable {v : EquihashValidator} {seen : SeenShares} {now credited : Nat} {call : ShareCall}
  {b : Batch} {w : World} {hashes : Hashes} {config : JdServerConfig} {share : JdShare}

/-- A section brings in no shares. -/
theorem ShareCall.shares_advance {server : JdState} {call' : ShareCall}
    (h : (call.advance v server seen now).2 = .inr call') : call'.shares ⊆ call.shares := by
  cases call with
  | findJob msg =>
    simp only [advance] at h
    split at h
    · cases h
    · split at h
      · cases h
      · injection h with h; subst h; exact List.Subset.refl _
  | readTip msg job | credit b share =>
    injection h with h; subst h; exact List.Subset.refl _
  | nextShare b =>
    simp only [advance] at h
    split at h
    · cases h
    · rename_i share rest hrest
      split at h
      · cases h
        simp only [shares, hrest]
        exact List.subset_cons_self _ _
      · cases h
        simp only [shares, hrest]
        exact List.Subset.refl _
  | record b share equihashOk =>
    simp only [advance] at h
    split at h
    · injection h with h; subst h; exact List.subset_cons_self _ _
    · split at h
      · injection h with h; subst h; exact List.subset_cons_self _ _
      · injection h with h; subst h; exact List.Subset.refl _

theorem ShareCall.shares_settle (b : Batch) (credited : Option Bool) :
    (settle b credited).shares = b.rest := by
  cases credited with
  | none => rfl
  | some c => cases c <;> rfl

/-! ## The balance of a call -/

/-- The solution is a solution for the job's header. -/
def JdShare.Structured (v : EquihashValidator) (job : DeclaredJobInfo) (share : JdShare) : Prop :=
  v.verifySolution (job.buildHeader share.time share.nonce) share.solution = .ok ()

/-- It also meets the job's share target. -/
def JdShare.Verified (v : EquihashValidator) (job : DeclaredJobInfo) (share : JdShare) : Prop :=
  ∃ hash, v.verifyShare (job.buildHeader share.time share.nonce) share.solution job.shareTarget
    = .ok hash

/-- The counters of a batch with `credited` credits so far and `todo` shares to go. -/
structure Batch.Balanced (b : Batch) (credited todo : Nat) : Prop where
  job : b.job.jobId = b.msg.jobId
  rest : b.rest ⊆ b.msg.shares
  accepted : b.tally.accepted.toNat = credited
  total : b.tally.accepted.toNat + b.tally.rejected.toNat + todo = b.msg.shares.length
  firstError : b.tally.firstError.isSome ↔ 0 < b.tally.rejected.toNat

def ShareCall.msg : ShareCall → SubmitSharesJd
  | .findJob msg => msg
  | .readTip msg _ => msg
  | .nextShare b => b.msg
  | .record b _ _ => b.msg
  | .credit b _ => b.msg

/-- What is known of a call at each of its sections, `credited` credits in. -/
def ShareCall.Balanced (v : EquihashValidator) (credited : Nat) : ShareCall → Prop
  | .findJob _ => credited = 0
  | .readTip msg job => credited = 0 ∧ job.jobId = msg.jobId
  | .nextShare b => b.Balanced credited b.rest.length
  | .record b share equihashOk => b.Balanced credited (b.rest.length + 1) ∧ share ∈ b.msg.shares
      ∧ share.Structured v b.job ∧ (equihashOk = true → share.Verified v b.job)
  | .credit b share => b.Balanced credited (b.rest.length + 1) ∧ share ∈ b.msg.shares
      ∧ share.Verified v b.job

/-- The answer to a batch with that many credits. -/
structure SubmitSharesJdResponse.Balanced (r : SubmitSharesJdResponse) (msg : SubmitSharesJd)
    (credited : Nat) : Prop where
  accepted : r.accepted.toNat = credited
  total : r.accepted.toNat + r.rejected.toNat = msg.shares.length
  firstError : r.firstErrorCode ≠ 0 ↔ 0 < r.rejected.toNat

/-- The sections a call still has at most. -/
def ShareCall.work : ShareCall → Nat
  | .findJob msg => 3 * msg.shares.length + 3
  | .readTip msg _ => 3 * msg.shares.length + 2
  | .nextShare b => 3 * b.rest.length + 1
  | .record b _ _ => 3 * b.rest.length + 3
  | .credit b _ => 3 * b.rest.length + 2

/-- `MAX_SHARE_COUNT`, the shares a message on the wire can hold. -/
def maxShareCount : Nat := 64

/-- The decoder lets through one share at least. -/
def SubmitSharesJd.OnWire (msg : SubmitSharesJd) : Prop :=
  1 ≤ msg.shares.length ∧ msg.shares.length ≤ maxShareCount

theorem JdShareErrorCode.asU8_ne_zero (code : JdShareErrorCode) : code.asU8 ≠ 0 := by
  cases code <;> decide

theorem toNat_succ_of_lt {n : UInt16} (h : n.toNat < maxShareCount) :
    (n + 1).toNat = n.toNat + 1 := by
  rw [UInt16.toNat_add]
  have hmax : maxShareCount = 64 := rfl
  have hone : (1 : UInt16).toNat = 1 := rfl
  omega

theorem findJobById_jobId {tokens : Tokens} {jobId : UInt32} {job : DeclaredJobInfo}
    (h : findJobById tokens now jobId = some job) : job.jobId = jobId := by
  obtain ⟨e, -, he⟩ := List.exists_of_findSome?_eq_some h
  split at he
  · cases he
  · simpa using (Option.filter_eq_some_iff.mp he).2

namespace Batch.Balanced

variable {todo : Nat}

section

variable (hb : b.Balanced credited (todo + 1)) (hwire : b.msg.shares.length ≤ maxShareCount)

include hb hwire

/-- A rejected share is counted, whatever the reason. -/
theorem reject (code : JdShareErrorCode) : (b.reject code).Balanced credited todo := by
  have htotal := hb.total
  have hsucc : (b.tally.rejected + 1).toNat = b.tally.rejected.toNat + 1 :=
    toNat_succ_of_lt (by omega)
  refine ⟨hb.job, hb.rest, hb.accepted, ?_, ?_⟩
  · show b.tally.accepted.toNat + (b.tally.rejected + 1).toNat + todo = b.msg.shares.length
    omega
  · show (b.tally.firstError.or (some code)).isSome ↔ 0 < (b.tally.rejected + 1).toNat
    rw [hsucc]
    simp

theorem accept :
    ({ b with tally := b.tally.accept } : Batch).Balanced (credited + 1) todo := by
  have htotal := hb.total
  have hsucc : (b.tally.accepted + 1).toNat = b.tally.accepted.toNat + 1 :=
    toNat_succ_of_lt (by omega)
  refine ⟨hb.job, hb.rest, ?_, ?_, hb.firstError⟩
  · show (b.tally.accepted + 1).toNat = credited + 1
    rw [hsucc, hb.accepted]
  · show (b.tally.accepted + 1).toNat + b.tally.rejected.toNat + todo = b.msg.shares.length
    omega

end

/-- The next share is taken up. -/
theorem take {share : JdShare} {rest : List JdShare}
    (hb : b.Balanced credited b.rest.length) (hrest : b.rest = share :: rest) :
    ({ b with rest } : Batch).Balanced credited (rest.length + 1) ∧ share ∈ b.msg.shares := by
  have hsub := hb.rest
  have htotal := hb.total
  rw [hrest] at hsub htotal
  rw [List.length_cons] at htotal
  exact ⟨⟨hb.job, (List.cons_subset.mp hsub).2, hb.accepted, htotal, hb.firstError⟩,
    (List.cons_subset.mp hsub).1⟩

theorem response (hb : b.Balanced credited 0) :
    (b.tally.response b.msg).Balanced b.msg credited := by
  refine ⟨hb.accepted, hb.total, ?_⟩
  show (b.tally.firstError.map (·.asU8)).getD 0 ≠ 0 ↔ 0 < b.tally.rejected.toNat
  rw [← hb.firstError]
  cases b.tally.firstError with
  | none => simp
  | some code => simpa using code.asU8_ne_zero

end Batch.Balanced

/-- The verification of a share that is not turned down as structurally broken. -/
theorem Batch.structured_of_check {equihashOk : Bool} (h : b.check v seen share = .ok equihashOk) :
    share.Structured v b.job ∧ (equihashOk = true → share.Verified v b.job) := by
  rw [Batch.check] at h
  split at h
  · cases h
  split at h
  · cases h
  unfold JdShare.Structured JdShare.Verified
  cases hs : v.verifySolution (b.job.buildHeader share.time share.nonce) share.solution with
  | ok u =>
    refine ⟨rfl, fun hok => ?_⟩
    subst hok
    split at h
    · rename_i hash hv
      exact ⟨hash, hv⟩
    · cases h
    · cases h
  | error e =>
    -- the error of `verify_solution` is never `TargetNotMet`
    have hne : e ≠ .targetNotMet := by
      rintro rfl
      rw [EquihashValidator.verifySolution] at hs
      split at hs
      · cases hs
      split at hs
      · cases hs
      split at hs <;> cases hs
    rw [EquihashValidator.verifyShare, hs] at h
    cases e with
    | targetNotMet => exact absurd rfl hne
    | _ => cases h

theorem balanced_rejectAll {msg : SubmitSharesJd} (hwire : msg.OnWire) (code : JdShareErrorCode) :
    SubmitSharesJdResponse.Balanced
      ⟨msg.channelId, msg.requestId, 0, UInt16.ofNat msg.shares.length, code.asU8⟩ msg 0 := by
  have hlen : (UInt16.ofNat msg.shares.length).toNat = msg.shares.length := by
    have hmax : maxShareCount = 64 := rfl
    have := hwire.2
    rw [UInt16.toNat_ofNat']
    omega
  have hpos := hwire.1
  refine ⟨rfl, ?_, ?_⟩
  · show 0 + (UInt16.ofNat msg.shares.length).toNat = msg.shares.length
    rw [hlen, Nat.zero_add]
  · show code.asU8 ≠ 0 ↔ 0 < (UInt16.ofNat msg.shares.length).toNat
    rw [hlen]
    exact iff_of_true code.asU8_ne_zero hpos

/-- **One section of a call keeps the balance**: the next section has it, or the answer. -/
theorem ShareCall.Balanced.advance (hcall : call.Balanced v credited) (hwire : call.msg.OnWire)
    (server : JdState) (seen : SeenShares) (now : Nat) :
    (∀ r, (call.advance v server seen now).2 = .inl r → r.Balanced call.msg credited)
      ∧ ∀ call', (call.advance v server seen now).2 = .inr call' →
        call'.msg = call.msg ∧ call'.Balanced v credited
          ∧ ((∃ b share, call = .credit b share) ∨ call'.work < call.work) := by
  cases call with
  | findJob msg =>
    obtain rfl : credited = 0 := hcall
    simp only [ShareCall.advance]
    cases hjob : findJobById server.tokens now msg.jobId with
    | none =>
      refine ⟨fun r h => ?_, fun call' h => absurd h (by simp)⟩
      cases h
      exact balanced_rejectAll hwire .unknownJob
    | some job =>
      by_cases hmode : job.mode = .fullTemplate
      · simp only [hmode, if_true]
        refine ⟨fun r h => ?_, fun call' h => absurd h (by simp)⟩
        cases h
        exact balanced_rejectAll hwire .staleJob
      · simp only [hmode, if_false]
        refine ⟨fun r h => absurd h (by simp), fun call' h => ?_⟩
        cases h
        exact ⟨rfl, ⟨rfl, findJobById_jobId hjob⟩, .inr (by simp [work])⟩
  | readTip msg job =>
    obtain ⟨rfl, hjob⟩ := hcall
    refine ⟨fun r h => absurd h (by simp [ShareCall.advance]), fun call' h => ?_⟩
    cases h
    refine ⟨rfl, ⟨hjob, List.Subset.refl _, rfl, ?_, by simp⟩, .inr (by simp [work])⟩
    show 0 + 0 + msg.shares.length = msg.shares.length
    omega
  | nextShare b =>
    simp only [ShareCall.advance]
    cases hrest : b.rest with
    | nil =>
      refine ⟨fun r h => ?_, fun call' h => absurd h (by simp)⟩
      cases h
      have hb : b.Balanced credited b.rest.length := hcall
      rw [hrest] at hb
      exact hb.response
    | cons share rest =>
      obtain ⟨htake, hmem⟩ := Batch.Balanced.take hcall hrest
      cases hcheck : b.check v seen share with
      | error code =>
        simp only [hcheck]
        refine ⟨fun r h => absurd h (by simp), fun call' h => ?_⟩
        cases h
        refine ⟨rfl, htake.reject hwire.2 code, .inr ?_⟩
        simp only [work, hrest, List.length_cons]
        omega
      | ok equihashOk =>
        simp only [hcheck]
        refine ⟨fun r h => absurd h (by simp), fun call' h => ?_⟩
        cases h
        refine ⟨rfl, ⟨htake, hmem, Batch.structured_of_check hcheck⟩, .inr ?_⟩
        simp only [work, hrest, List.length_cons]
        omega
  | record b share equihashOk =>
    obtain ⟨hb, hmem, -, hverified⟩ := hcall
    refine ⟨fun r h => ?_, fun call' h => ?_⟩
    · simp only [ShareCall.advance] at h
      split at h
      · cases h
      · split at h <;> cases h
    · simp only [ShareCall.advance] at h
      split at h
      · cases h
        exact ⟨rfl, hb.reject hwire.2 _, .inr (by simp [work, Batch.reject])⟩
      · split at h
        · cases h
          exact ⟨rfl, hb.reject hwire.2 _, .inr (by simp [work, Batch.reject])⟩
        · rename_i hok
          cases h
          exact ⟨rfl, ⟨hb, hmem, hverified (by simpa using hok)⟩, .inr (by simp [work])⟩
  | credit b share =>
    refine ⟨fun r h => absurd h (by simp [ShareCall.advance]), fun call' h => ?_⟩
    cases h
    exact ⟨rfl, hcall, .inl ⟨b, share, rfl⟩⟩

/-- A batch from the wire needs a bounded number of sections. -/
theorem ShareCall.Balanced.work_le (hcall : call.Balanced v credited) (hwire : call.msg.OnWire) :
    call.work ≤ 3 * maxShareCount + 3 := by
  have hlen := hwire.2
  cases call with
  | findJob msg | readTip msg job => simp only [work, ShareCall.msg] at hlen ⊢; omega
  | nextShare b =>
    have htotal := Batch.Balanced.total hcall
    simp only [work, ShareCall.msg] at hlen ⊢; omega
  | record b share equihashOk | credit b share =>
    have htotal := Batch.Balanced.total hcall.1
    simp only [work, ShareCall.msg] at hlen ⊢; omega

/-- The credit is counted if there was one. -/
theorem ShareCall.Balanced.settle (hcall : (ShareCall.credit b share).Balanced v credited)
    (hwire : b.msg.OnWire) (result : Option Bool) :
    (ShareCall.settle b result).msg = b.msg
      ∧ (ShareCall.settle b result).Balanced v (credited + if result = some true then 1 else 0)
      ∧ (ShareCall.settle b result).work < (ShareCall.credit b share).work := by
  obtain ⟨hb, -, -⟩ := hcall
  match result with
  | none | some false =>
    exact ⟨rfl, hb.reject hwire.2 _, by simp [ShareCall.settle, work, Batch.reject]⟩
  | some true => exact ⟨rfl, hb.accept hwire.2, by simp [ShareCall.settle, work]⟩

/-! ## No job before the first tip

`handle_declare_job` turns everything down until there is a tip, and a tip is only ever replaced.
So where there is no tip yet there is no job either. -/

/-- The sections a call can be at while there is no tip. -/
def Call.BeforeTip : Call → Prop
  | .tokenLimits .. => True
  | .takeTokenCounter .. => True
  | .storeToken _ token => token.jobInfo = none
  | .readTip .. => True
  | _ => False

structure World.Jobless (w : World) : Prop where
  tokens : ∀ name token, w.server.tokens.lookup name = some token → token.jobInfo = none
  calls : ∀ t call, w.calls.lookup t = some call → call.BeforeTip

theorem World.jobless_new : World.new.Jobless :=
  ⟨fun _ _ h => absurd h (by simp [World.new]), fun _ _ h => absurd h (by simp [World.new])⟩

theorem World.Jobless.position (hw : w.Jobless) (thread : Nat) {call : Option Call}
    (hcall : ∀ c, call = some c → c.BeforeTip) : (w.position thread call).Jobless := by
  refine ⟨hw.tokens, ?_⟩
  intro t c hc
  rw [World.lookup_position] at hc
  split at hc
  · exact hcall c hc
  · exact hw.calls t c hc

theorem World.Jobless.start (hw : w.Jobless) (now : Nat) (req : Request) :
    (w.start now req).1.Jobless ∧ ∀ c, (w.start now req).2 = some c → c.BeforeTip := by
  cases req with
  | allocateToken clientId grantedMode randomBytes =>
    refine ⟨⟨?_, hw.calls⟩, ?_⟩
    · intro name token htoken
      exact hw.tokens name token (Table.of_lookup_retain htoken).1
    · intro c hc
      injection hc with hc
      rw [← hc]; trivial
  | declareJob request =>
    refine ⟨hw, ?_⟩
    intro c hc
    obtain ⟨token, -, rfl⟩ := follow_eq_some.mp hc
    trivial

theorem World.Jobless.advance (hw : w.Jobless) (htip : w.server.currentPrevHash = none) (now : Nat)
    {call : Call} (hcall : call.BeforeTip) :
    (w.advance hashes config now call).1.Jobless
      ∧ ∀ c, (w.advance hashes config now call).2 = some c → c.BeforeTip := by
  cases call with
  | tokenLimits clientId grantedMode randomBytes =>
    refine ⟨hw, fun c hc => ?_⟩
    simp only [World.advance] at hc
    split at hc
    · injection hc with hc; rw [← hc]; trivial
    · cases hc
  | takeTokenCounter clientId grantedMode randomBytes =>
    refine ⟨⟨hw.tokens, hw.calls⟩, fun c hc => ?_⟩
    injection hc with hc; rw [← hc]; rfl
  | storeToken name token =>
    refine ⟨⟨?_, hw.calls⟩, fun c hc => absurd hc (by simp [World.advance])⟩
    intro name' token' htoken'
    rcases Table.of_lookup_insert htoken' with ⟨-, rfl⟩ | htoken'
    · exact hcall
    · exact hw.tokens name' token' htoken'
  | readTip request token =>
    -- this is where a declaration fails while there is no tip
    refine ⟨hw, fun c hc => ?_⟩
    obtain ⟨u, hu, -⟩ := follow_eq_some.mp hc
    rw [htip, checkTip] at hu
    cases hu
  | readTemplate | validateCoinbase | takeJobId | storeJob => exact hcall.elim

/-- **No job without a tip**, after any step. -/
theorem jobless_step {w' : World} {e : Event} (hw : w.server.currentPrevHash = none → w.Jobless)
    (hnext : next hashes config w e = some w') (htip' : w'.server.currentPrevHash = none) :
    w.server.currentPrevHash = none ∧ w'.Jobless := by
  cases e with
  | begin thread req now =>
    obtain ⟨-, rfl⟩ := next_begin hnext
    have htip := ((w.keeps_start now req).currentPrevHash).symm.trans htip'
    obtain ⟨hstart, hcall⟩ := (hw htip).start now req
    exact ⟨htip, hstart.position thread hcall⟩
  | resume thread now =>
    obtain ⟨call, hlookup, rfl⟩ := next_resume hnext
    have htip := ((w.keeps_advance hashes config now call).currentPrevHash).symm.trans htip'
    obtain ⟨hadvance, hcall⟩ := (hw htip).advance htip now ((hw htip).calls thread call hlookup)
    exact ⟨htip, hadvance.position thread hcall⟩
  | newTemplate t =>
    obtain ⟨-, rfl⟩ := next_newTemplate hnext
    exact absurd htip' (by simp [World.beginUpdate])
  | update =>
    obtain ⟨u, -, rfl⟩ := next_update hnext
    unfold World.advanceUpdate at htip' ⊢
    split at htip'
    · exact ⟨htip', ⟨(hw htip').tokens, (hw htip').calls⟩⟩
    · cases htip'
    · exact ⟨htip', ⟨(hw htip').tokens, (hw htip').calls⟩⟩

theorem World.Jobless.findJobById (hw : w.Jobless) (now : Nat) (jobId : UInt32) :
    findJobById w.server.tokens now jobId = none := by
  rw [Jd.findJobById, List.findSome?_eq_none_iff]
  intro e he
  rw [hw.tokens e.1 e.2 (Table.mem_entries.mp he)]
  simp

theorem DeclaredJobInfo.headerPrevHash_buildHeader (job : DeclaredJobInfo) (time : UInt32)
    (nonce : Bytes32) : headerPrevHash (job.buildHeader time nonce) = job.prevHash :=
  headerPrevHash_headerBytes ..

end MiningInfra.Jd
