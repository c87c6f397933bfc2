import MiningInfra.Jd.Handler
import MiningInfra.Jd.Relay

/-!
# Two checkers for one share

The listener and the server judge a share for the same declared job with code of their own. Here
they run against each other: sessions take shares in any order, what they accept waits, and the
server takes what waits in any order while others use its books. Where both look at the same thing
they agree: the header is the same, so is the key, and a session never accepts two shares under one
key. What only the server looks at is the time, which the listener does not bound, and the
difficulty of the target.
-/

namespace MiningInfra.Jd.Client

open Lib Coinbase Equihash Payout
open Pool (SubmitEquihashShare ShareResult)

/-- The server accepted this request with this response, and keeps this job for it. -/
def Declared (hashes : Hashes) (config : JdServerConfig) (request : SetCustomMiningJob)
    (response : SetCustomMiningJobSuccess) (job : DeclaredJobInfo) : Prop :=
  ∃ s now, (handleDeclareJob hashes config s now request).2 = .ok response
    ∧ acceptedJob hashes config s now request = some job

/-! ## Submissions -/

/-- The sessions by their channel id, the relayed shares that wait and those the server has judged,
and its books. -/
structure Floor (F : Type) where
  sessions : UInt32 → DownstreamSession
  waiting : List JdShare
  judged : List JdShare
  books : Books F

inductive FloorEvent (F : Type) where
  /-- A proxy submits a share to its session. -/
  | submit (channelId : UInt32) (share : SubmitEquihashShare)
  /-- The server judges a share that waits, in whatever batch it came. -/
  | judge (i now : Nat) (b : Batch) (tip : Option Bytes32)
  /-- The server works for others. -/
  | other (books : Books F)

namespace Floor

variable {F : Type}

/-- Nothing has been submitted for the job. -/
def Start (jobId : UInt32) (w : Floor F) : Prop :=
  w.sessions = DownstreamSession.new ∧ w.waiting = [] ∧ w.judged = []
    ∧ (w.books.seen.lookup jobId).getD [] = []

/-- A session takes a share for the current job. -/
def submit (v : EquihashValidator) (job : CurrentDeclaredJob) (w : Floor F) (channelId : UInt32)
    (share : SubmitEquihashShare) : Floor F :=
  let handled := (w.sessions channelId).handleShare v (some job) share
  { w with
    sessions := Function.update w.sessions channelId handled.1
    waiting := w.waiting ++ (handled.2.relay.map fun r => r.1.share).toList }

section Code

variable [Float64 F] (v : EquihashValidator) (targetToDifficulty : Bytes32 → F)
  (job : CurrentDeclaredJob)

def next (w : Floor F) : FloorEvent F → Option (Floor F)
  | .submit channelId share => some (w.submit v job channelId share)
  | .judge i now b tip => w.waiting[i]?.map fun share =>
    { w with
      waiting := w.waiting.eraseIdx i
      judged := w.judged ++ [share]
      books := (b.judge v targetToDifficulty tip now w.books share).1 }
  | .other books =>
    if books.seen.lookup job.jobId = w.books.seen.lookup job.jobId then some { w with books }
    else none

end Code

end Floor

/-! ## What the sessions keep -/

/-- The bytes under the key of a relayed share. -/
def input (r : JdShare) : List UInt8 := dedupInput r.nonce r.time r.solution

variable {r : JdShare}

theorem nonce_of_input_eq {r' : JdShare} (h : input r = input r') : r.nonce = r'.nonce := by
  rw [input, input, dedupInput, dedupInput, List.append_assoc, List.append_assoc] at h
  have hlist := (List.append_inj h (by rw [length_toList, length_toList])).1
  rw [← toBytes32_ofFn r.nonce, ← toBytes32_ofFn r'.nonce]
  exact congrArg toBytes32 hlist

/-- A nonce of the session with this channel id. -/
def NonceOf (channelId : UInt32) (nonce : Bytes32) : Prop :=
  nonce.toList.take 4 = u32Bytes channelId

variable {nonce : Bytes32} {s : DownstreamSession} {jobId c : UInt32}

theorem NonceOf.unique {c' : UInt32} (h : NonceOf c nonce) (h' : NonceOf c' nonce) : c = c' := by
  have hbytes : u32Bytes c = u32Bytes c' := h.symm.trans h'
  have hnat := congrArg leNat hbytes
  rw [u32Bytes, u32Bytes, leNat_leBytes c.toNat_lt, leNat_leBytes c'.toNat_lt] at hnat
  exact UInt32.toNat_inj.mp hnat

theorem nonceOf_reassembleNonce {nonce2 : List UInt8}
    (h : reassembleNonce s.nonce1 nonce2 = some nonce) : NonceOf s.channelId nonce := by
  unfold reassembleNonce at h
  split at h
  · cases h
  · split at h
    · cases h
    · rename_i hlen
      cases h
      have hlen : (s.nonce1 ++ nonce2).length = 32 := by
        rw [List.length_append]
        exact not_not.mp hlen
      rw [NonceOf, toList_toBytes32 hlen, ← length_u32Bytes s.channelId]
      exact List.take_left

/-- The keys of a session belong to the job. -/
def InScope (jobId : UInt32) (s : DownstreamSession) : Prop :=
  s.lastJobId = some jobId ∨ s.seenShares = []

theorem InScope.seenShares_forJob (h : InScope jobId s) :
    (s.forJob jobId).seenShares = s.seenShares := by
  unfold DownstreamSession.forJob
  split
  · rename_i hlast
    exact (h.resolve_left hlast).symm
  · rfl

theorem lastJobId_forJob (jobId : UInt32) (s : DownstreamSession) :
    (s.forJob jobId).lastJobId = some jobId := by
  unfold DownstreamSession.forJob
  split
  · rfl
  · rename_i hlast
    exact not_not.mp hlast

section Handled

variable {v : EquihashValidator} {job : CurrentDeclaredJob} {share : SubmitEquihashShare}

/-- A share may add a key to its session. Nothing else changes while the job stays. -/
theorem keeps_handleShare (hs : InScope job.jobId s) (share : SubmitEquihashShare) :
    (s.handleShare v (some job) share).1.channelId = s.channelId
      ∧ InScope job.jobId (s.handleShare v (some job) share).1
      ∧ s.seenShares ⊆ (s.handleShare v (some job) share).1.seenShares := by
  rcases s.handleShare_cases v (some job) share with
    ⟨s', reason, hreject, rfl | ⟨job', hjob', rfl⟩, -⟩ | ⟨job', nonce, hjudged⟩
  · rw [hreject]
    exact ⟨rfl, hs, List.Subset.refl _⟩
  · cases hjob'
    rw [hreject]
    refine ⟨s.channelId_forJob _, .inl (lastJobId_forJob _ _), ?_⟩
    rw [hs.seenShares_forJob]
    exact List.Subset.refl _
  · cases hjudged.isCurrent
    rw [hjudged.handled]
    refine ⟨s.channelId_forJob _, .inl (lastJobId_forJob _ _), ?_⟩
    rw [hs.seenShares_forJob]
    exact List.subset_append_left _ _

/-- A relayed share was judged and verified. -/
theorem judged_of_relay {r : RelayShare} {block : Bool}
    (h : (s.handleShare v (some job) share).2.relay = some (r, block)) :
    ∃ nonce hash, DownstreamSession.Judged v s (some job) share job nonce
      ∧ r = ⟨job.jobId, ⟨job.version, share.time, nonce, share.solution⟩⟩
      ∧ v.verifyShare (job.buildHeader share.time nonce) share.solution job.shareTarget
        = .ok hash := by
  rcases s.handleShare_cases v (some job) share with
    ⟨s', reason, hreject, -⟩ | ⟨job', nonce, hjudged⟩
  · rw [hreject] at h
    cases h
  · cases hjudged.isCurrent
    rw [hjudged.handled] at h
    simp only [DownstreamSession.Verdict.of, verifyShare] at h
    cases hverify : v.verifyShare (job.buildHeader share.time nonce) share.solution
        job.shareTarget with
    | ok hash =>
      simp only [hverify, Option.some.injEq, Prod.mk.injEq] at h
      exact ⟨nonce, hash, hjudged, h.1.symm, hverify⟩
    | error e => cases e <;> simp [hverify] at h

/-- An answer other than a refusal says what the verification said. -/
theorem verifyShare_of_result
    (h : (s.handleShare v (some job) share).2.result = .accepted ∨
      (s.handleShare v (some job) share).2.result = .rejected .lowDifficulty ∨
      (s.handleShare v (some job) share).2.result = .rejected .invalidSolution) :
    ∃ nonce, reassembleNonce s.nonce1 share.nonce2 = some nonce
      ∧ (s.handleShare v (some job) share).2
        = .of job share (verifyShare v job share.time nonce share.solution) := by
  obtain ⟨job', nonce, hjudged⟩ := DownstreamSession.judged_of_result h
  cases hjudged.isCurrent
  exact ⟨nonce, hjudged.hasNonce, by rw [hjudged.handled]⟩

theorem toShareResult_verifyShare_eq_accepted {time : UInt32} {solution : List UInt8} :
    (verifyShare v job time nonce solution).toShareResult = .accepted ↔
      ∃ hash, v.verifyShare (job.buildHeader time nonce) solution job.shareTarget = .ok hash := by
  unfold verifyShare
  cases v.verifyShare (job.buildHeader time nonce) solution job.shareTarget with
  | ok hash => simp [ShareOutcome.toShareResult]
  | error e => cases e <;> simp [ShareOutcome.toShareResult]

end Handled

/-! ## The invariant -/

/-- What is known of a relayed share: it is for the job, its solution meets the share target, and
its session remembers its key. -/
structure Relayed (v : EquihashValidator) (job : CurrentDeclaredJob)
    (sessions : UInt32 → DownstreamSession) (r : JdShare) : Prop where
  version : r.version = job.version
  verified : ∃ hash, v.verifyShare (job.buildHeader r.time r.nonce) r.solution job.shareTarget
    = .ok hash
  remembered : ∃ c, NonceOf c r.nonce ∧ v.hashes.sha256 (input r) ∈ (sessions c).seenShares

theorem Relayed.mono {v : EquihashValidator} {job : CurrentDeclaredJob}
    {sessions sessions' : UInt32 → DownstreamSession} (h : Relayed v job sessions r)
    (hsub : ∀ c, (sessions c).seenShares ⊆ (sessions' c).seenShares) : Relayed v job sessions' r :=
  ⟨h.version, h.verified, h.remembered.imp fun c hc => ⟨hc.1, hsub c hc.2⟩⟩

structure Floor.Inv {F : Type} (v : EquihashValidator) (job : CurrentDeclaredJob) (w : Floor F) :
    Prop where
  channel : ∀ c, (w.sessions c).channelId = c
  scope : ∀ c, InScope job.jobId (w.sessions c)
  relayed : ∀ r ∈ w.waiting ++ w.judged, Relayed v job w.sessions r
  distinct : ((w.waiting ++ w.judged).map input).Nodup
  keys : ∀ k ∈ w.books.seen.keys job.jobId, ∃ r ∈ w.judged, k = v.hashes.sha256 (input r)

namespace Floor.Inv

variable {F : Type} {v : EquihashValidator} {job : CurrentDeclaredJob} {w : Floor F}

theorem start (h : w.Start job.jobId) : w.Inv v job := by
  obtain ⟨hsessions, hwaiting, hjudged, hkeys⟩ := h
  refine ⟨?_, ?_, ?_, ?_, ?_⟩
  · intro c
    rw [hsessions]
    rfl
  · intro c
    rw [hsessions]
    exact .inr rfl
  · rw [hwaiting, hjudged]
    exact fun r hr => absurd hr List.not_mem_nil
  · rw [hwaiting, hjudged]
    exact List.nodup_nil
  · rw [SeenShares.keys, hkeys]
    exact fun k hk => absurd hk List.not_mem_nil

/-- A session never accepts a second share with the bytes of a first one under its key: the nonce
says which session took the first, and that one remembers it. -/
theorem input_notMem (h : w.Inv v job) {share : SubmitEquihashShare}
    (hjudged : (w.sessions c).Judged v (some job) share job nonce) :
    dedupInput nonce share.time share.solution ∉ (w.waiting ++ w.judged).map input := by
  intro hmem
  obtain ⟨r, hr, heq⟩ := List.mem_map.mp hmem
  obtain ⟨c', hnonce, hkey⟩ := (h.relayed r hr).remembered
  have hsame : r.nonce = nonce :=
    @nonce_of_input_eq r ⟨0, share.time, nonce, share.solution⟩ heq
  have hchannel : c' = c := by
    have hc := nonceOf_reassembleNonce hjudged.hasNonce
    rw [h.channel c] at hc
    exact NonceOf.unique (hsame ▸ hnonce) hc
  subst hchannel
  refine hjudged.fresh ?_
  rw [(h.scope c').seenShares_forJob, shareDedupKey, ← heq]
  exact hkey

/-- A submission keeps the invariant, whatever the session makes of it. -/
theorem submit (h : w.Inv v job) (c : UInt32) (share : SubmitEquihashShare) :
    (w.submit v job c share).Inv v job := by
  obtain ⟨hchannel, hscope, hsub⟩ := keeps_handleShare (v := v) (h.scope c) share
  have hkeeps : ∀ c', (w.sessions c').seenShares
      ⊆ ((w.submit v job c share).sessions c').seenShares := by
    intro c'
    by_cases hc : c' = c
    · subst hc
      simpa [Floor.submit] using hsub
    · simp [Floor.submit, Function.update_of_ne hc]
  have hsessions : ∀ c', ((w.submit v job c share).sessions c').channelId = c'
      ∧ InScope job.jobId ((w.submit v job c share).sessions c') := by
    intro c'
    by_cases hc : c' = c
    · subst hc
      simpa [Floor.submit] using ⟨hchannel.trans (h.channel c'), hscope⟩
    · simpa [Floor.submit, Function.update_of_ne hc] using ⟨h.channel c', h.scope c'⟩
  have hold : ∀ r ∈ w.waiting ++ w.judged, Relayed v job (w.submit v job c share).sessions r :=
    fun r hr => (h.relayed r hr).mono hkeeps
  cases hrelay : ((w.sessions c).handleShare v (some job) share).2.relay with
  | none =>
    have hwaiting : (w.submit v job c share).waiting = w.waiting := by
      simp [Floor.submit, hrelay]
    refine ⟨fun c' => (hsessions c').1, fun c' => (hsessions c').2, ?_, ?_, h.keys⟩
    · rw [hwaiting]
      exact hold
    · rw [hwaiting]
      exact h.distinct
  | some r =>
    obtain ⟨nonce, hash, hjudged, hr, hverify⟩ := judged_of_relay hrelay
    have hwaiting : (w.submit v job c share).waiting = w.waiting ++ [r.1.share] := by
      simp [Floor.submit, hrelay]
    have hperm : (w.waiting ++ [r.1.share] ++ w.judged).Perm
        (r.1.share :: (w.waiting ++ w.judged)) := by
      rw [List.append_assoc]
      exact List.perm_middle
    have hnew : Relayed v job (w.submit v job c share).sessions r.1.share := by
      rw [hr]
      refine ⟨rfl, ⟨hash, hverify⟩, c, ?_, ?_⟩
      · have := nonceOf_reassembleNonce hjudged.hasNonce
        rwa [h.channel c] at this
      · simp [Floor.submit, hjudged.handled, input, shareDedupKey]
    refine ⟨fun c' => (hsessions c').1, fun c' => (hsessions c').2, ?_, ?_, h.keys⟩
    · rw [hwaiting]
      intro r' hr'
      rcases List.mem_cons.mp (hperm.subset hr') with rfl | hr'
      · exact hnew
      · exact hold r' hr'
    · rw [hwaiting]
      refine ((hperm.map input).nodup_iff).mpr (List.nodup_cons.mpr ⟨?_, h.distinct⟩)
      rw [hr]
      exact h.input_notMem hjudged

variable [Float64 F] {targetToDifficulty : Bytes32 → F}

/-- So does a judgement of the server: the key it records is that of a share it has judged. -/
theorem judge (h : w.Inv v job) {i : Nat} {share : JdShare} (hi : w.waiting[i]? = some share)
    (now : Nat) (b : Batch) (tip : Option Bytes32) :
    Floor.Inv v job { w with
      waiting := w.waiting.eraseIdx i
      judged := w.judged ++ [share]
      books := (b.judge v targetToDifficulty tip now w.books share).1 } := by
  have hperm : (w.waiting.eraseIdx i ++ (w.judged ++ [share])).Perm (w.waiting ++ w.judged) := by
    obtain ⟨hlt, hshare⟩ := List.getElem?_eq_some_iff.mp hi
    have hmoved := (List.getElem_cons_eraseIdx_perm hlt).append_right w.judged
    rw [hshare] at hmoved
    rw [← List.append_assoc]
    exact (List.perm_append_singleton _ _).trans hmoved
  refine ⟨h.channel, h.scope, fun r hr => h.relayed r (hperm.subset hr), ?_, ?_⟩
  · exact ((hperm.map input).nodup_iff).mpr h.distinct
  · intro k hk
    rcases Batch.mem_keys_judge hk with hk | rfl
    · obtain ⟨r, hr, hk⟩ := h.keys k hk
      exact ⟨r, List.mem_append_left _ hr, hk⟩
    · exact ⟨share, List.mem_append_right _ (List.mem_singleton_self _), rfl⟩

theorem step {w' : Floor F} {e : FloorEvent F} (h : w.Inv v job)
    (hnext : w.next v targetToDifficulty job e = some w') : w'.Inv v job := by
  cases e with
  | submit c share =>
    cases hnext
    exact h.submit c share
  | judge i now b tip =>
    obtain ⟨share, hi, rfl⟩ := Option.map_eq_some_iff.mp hnext
    exact h.judge hi now b tip
  | other books =>
    obtain ⟨hsame, rfl⟩ := of_guard hnext
    refine { h with keys := ?_ }
    rw [SeenShares.keys, hsame]
    exact h.keys

end Floor.Inv

/-! ## The declared job on both sides -/

section Agreement

variable {F : Type} [Float64 F] {v : EquihashValidator} {targetToDifficulty : Bytes32 → F}
  {config : JdServerConfig} {request : SetCustomMiningJob} {response : SetCustomMiningJobSuccess}
  {job : DeclaredJobInfo} {hashes : Hashes} {msg : SubmitSharesJd}

theorem Declared.exists_token (h : Declared hashes config request response job) :
    ∃ token, job = declaredJob config request token response.jobId
      ∧ response.shareTarget = config.shareTarget ∧ token.grantedMode ≠ .fullTemplate := by
  obtain ⟨s, now, hok, hjob⟩ := h
  obtain ⟨token, hmode, hresponse, haccepted⟩ := acceptedJob_of_success hok
  rw [haccepted] at hjob
  exact ⟨token, (Option.some.inj hjob).symm, by rw [hresponse], hmode⟩

/-- The batch the server makes of a message for the job. -/
theorem Declared.resolveBatch (h : Declared hashes config request response job) {server : JdState}
    {now : Nat} (hfound : findJobById server.tokens now response.jobId = some job)
    (hmsg : msg.jobId = response.jobId) :
    resolveBatch server now msg
      = .ok ⟨msg, job, server.currentPrevHash, msg.shares, ⟨0, 0, none⟩⟩ := by
  obtain ⟨token, rfl, -, hmode⟩ := h.exists_token
  rw [Jd.resolveBatch, hmsg, hfound]
  exact if_neg hmode

/-- Different inputs have different digests. -/
def NoCollision (hashes : Hashes) (inputs : List (List UInt8)) : Prop :=
  ∀ x ∈ inputs, ∀ y ∈ inputs, hashes.sha256 x = hashes.sha256 y → x = y

omit [Float64 F] in
/-- The server has not recorded the key of a share that waits. -/
theorem Floor.Inv.key_notMem {cjob : CurrentDeclaredJob} {w : Floor F} (h : w.Inv v cjob)
    (hcollision : NoCollision v.hashes ((w.waiting ++ w.judged).map input)) (hr : r ∈ w.waiting) :
    Jd.shareDedupKey v.hashes r ∉ w.books.seen.keys cjob.jobId := by
  intro hkey
  obtain ⟨r', hr', heq⟩ := h.keys _ hkey
  have hsame : input r = input r' :=
    hcollision _ (List.mem_map_of_mem (List.mem_append_left _ hr)) _
      (List.mem_map_of_mem (List.mem_append_right _ hr')) heq
  have hdistinct := h.distinct
  rw [List.map_append] at hdistinct
  exact (List.nodup_append.mp hdistinct).2.2 _ (List.mem_map_of_mem hr) _
    (List.mem_map_of_mem hr') hsame

theorem Batch.precheck_declaredJob {token : MiningJobToken} {rest : List JdShare} {tally : Tally}
    (hchannel : msg.channelId = request.channelId) (hversion : r.version = request.version) :
    Batch.precheck ⟨msg, declaredJob config request token jobId, some request.prevHash, rest, tally⟩
      r = none ↔ timeInRange request.time r.time = true := by
  unfold Batch.precheck
  by_cases htime : timeInRange request.time r.time = true
  · simp [declaredJob, hchannel, hversion, htime]
  · simp [declaredJob, hchannel, hversion, htime]

/-- **The two checkers agree** on a declared job, up to the time and the difficulty. In every order
of submissions: an accepted share goes on to the server; the server credits a share that waits
exactly when its time is in the window, the granted target has a difficulty and the solution was not
credited before; and what the listener finds too easy or invalid the server would not credit. -/
theorem listener_and_server_agree
    (hdeclared : Declared v.hashes config request response job)
    (hchannel : request.channelId = jdChannelId) {w : Floor F}
    (hw : Reach (Floor.next v targetToDifficulty (.of request response)) Any
      (Floor.Start response.jobId) w)
    {server : JdState} {now : Nat} {msg : SubmitSharesJd} {b : Batch}
    (hmsg : msg.channelId = jdChannelId ∧ msg.jobId = response.jobId)
    (hfound : findJobById server.tokens now response.jobId = some job)
    (hb : resolveBatch server now msg = .ok b)
    (htip : server.currentPrevHash = some request.prevHash)
    (hroom : (w.books.seen.keys response.jobId).length < maxSeenSharesPerJob)
    (hcollision : NoCollision v.hashes ((w.waiting ++ w.judged).map input)) :
    (∀ c share,
      ((w.sessions c).handleShare v (some (.of request response)) share).2.result = .accepted →
      ∃ nonce, reassembleNonce (w.sessions c).nonce1 share.nonce2 = some nonce ∧
        (w.submit v (.of request response) c share).waiting =
          w.waiting ++ [⟨request.version, share.time, nonce, share.solution⟩]) ∧
    (∀ r ∈ w.waiting,
      (b.judge v targetToDifficulty server.currentPrevHash now w.books r).2 = .ok () ↔
        timeInRange request.time r.time = true ∧
        validDifficulty (targetToDifficulty response.shareTarget) = true ∧
        v.hashes.sha256 r.solution ∉ w.books.ledger.seenSolutions.order) ∧
    ∀ c share nonce, reassembleNonce (w.sessions c).nonce1 share.nonce2 = some nonce →
      (((w.sessions c).handleShare v (some (.of request response)) share).2.result
          = .rejected .lowDifficulty ∨
        ((w.sessions c).handleShare v (some (.of request response)) share).2.result
          = .rejected .invalidSolution) →
      (b.judge v targetToDifficulty server.currentPrevHash now w.books
        ⟨request.version, share.time, nonce, share.solution⟩).2 ≠ .ok () := by
  have hinv : w.Inv v (.of request response) :=
    hw.invariant (fun _ h => .start h) fun _ _ _ h _ hnext => h.step hnext
  rw [hdeclared.resolveBatch hfound hmsg.2] at hb
  cases hb
  obtain ⟨token, rfl, htarget, -⟩ := hdeclared.exists_token
  have hstill : ∀ rest tally, Batch.stillCurrent ⟨msg, declaredJob config request token
      response.jobId, some request.prevHash, rest, tally⟩ (some request.prevHash) = true := by
    simp [Batch.stillCurrent, declaredJob]
  refine ⟨fun c share hresult => ?_, fun r hr => ?_, fun c share nonce hnonce hresult => ?_⟩
  · obtain ⟨nonce, hnonce, hverdict⟩ := verifyShare_of_result (.inl hresult)
    rw [hverdict, DownstreamSession.Verdict.result_of] at hresult
    obtain ⟨hash, hok⟩ := toShareResult_verifyShare_eq_accepted.mp hresult
    refine ⟨nonce, hnonce, ?_⟩
    rw [Floor.submit, hverdict]
    simp only [DownstreamSession.Verdict.of, verifyShare, hok]
    rfl
  · have hrelayed := hinv.relayed r (List.mem_append_left _ hr)
    have hkey := hinv.key_notMem hcollision hr
    have hverified : r.Verified v (declaredJob config request token response.jobId) := by
      obtain ⟨hash, hok⟩ := hrelayed.verified
      refine ⟨hash, ?_⟩
      rw [← hok]
      show _ = v.verifyShare _ _ response.shareTarget
      rw [htarget]
      rfl
    rw [Batch.judge_eq_ok_iff, htip, Batch.precheck_declaredJob (hmsg.1.trans hchannel.symm)
      hrelayed.version, hmsg.2, htarget]
    constructor
    · rintro ⟨⟨htime, -, -⟩, -, hdifficulty, hnew⟩
      exact ⟨htime, hdifficulty, hnew⟩
    · rintro ⟨htime, hdifficulty, hnew⟩
      exact ⟨⟨htime, hstill _ _, hverified⟩, ⟨hkey, hroom⟩, hdifficulty, hnew⟩
  · obtain ⟨nonce', hnonce', hverdict⟩ := verifyShare_of_result (.inr hresult)
    cases hnonce.symm.trans hnonce'
    intro hok
    obtain ⟨⟨-, -, hash, hverified⟩, -⟩ := Batch.judge_eq_ok_iff.mp hok
    have haccepted : (verifyShare v (.of request response) share.time nonce
        share.solution).toShareResult = .accepted := by
      refine toShareResult_verifyShare_eq_accepted.mpr ⟨hash, ?_⟩
      rw [← hverified]
      show v.verifyShare _ _ response.shareTarget = _
      rw [htarget]
      rfl
    rw [hverdict] at hresult
    simp [DownstreamSession.Verdict.of, haccepted] at hresult

end Agreement

/-! ## A share from the future -/

def sampleResponse : SetCustomMiningJobSuccess := ⟨1, 1, 1, fun _ => 0xff⟩

def sampleJob : DeclaredJobInfo := Jd.sampleJob plainHashes [] plainWire.serialize plainWire.inputs

theorem declared_sample : Declared plainHashes sampleConfig sampleRequest sampleResponse sampleJob :=
  ⟨_, _, success_of_acceptedJob (plain_accepted plainHashes []), plain_accepted plainHashes []⟩

/-- The server once it has accepted the plain coinbase. -/
def sampleServer : JdState :=
  { Jd.sampleServer (sampleTemplate []) with
    tokens := (∅ : Tokens).insert [0x01] ⟨0, 300, "miner", .coinbaseOnly, some sampleJob⟩ }

/-- The same share as it is relayed. -/
def sampleRelay (time : UInt32) : JdShare := ⟨4, time, toBytes32 [1], List.replicate 1344 0⟩

def sampleBatch (time : UInt32) : Batch :=
  ⟨⟨jdChannelId, 1, 1, [sampleRelay time]⟩, sampleJob, some fun _ => 7, [sampleRelay time],
    ⟨0, 0, none⟩⟩

def sampleFloor : Floor Nat := ⟨DownstreamSession.new, [], [], ⟨∅, .new false⟩⟩

/-- The target of the sample job is met by every hash. -/
theorem sample_verified (time : UInt32) : ∃ hash,
    sampleValidator.verifyShare ((CurrentDeclaredJob.of sampleRequest sampleResponse).buildHeader
      (sampleShare time).time (toBytes32 [1])) (sampleShare time).solution
      (CurrentDeclaredJob.of sampleRequest sampleResponse).shareTarget = .ok hash := by
  have hheader : ((CurrentDeclaredJob.of sampleRequest sampleResponse).buildHeader
      (sampleShare time).time (toBytes32 [1])).length = 140 := by
    rw [CurrentDeclaredJob.buildHeader, length_headerBytes, length_toList]
  have hlength : (sampleShare time).solution.length = 1344 := List.length_replicate
  have hsolution : sampleValidator.verifySolution
      ((CurrentDeclaredJob.of sampleRequest sampleResponse).buildHeader (sampleShare time).time
        (toBytes32 [1])) (sampleShare time).solution = .ok () := by
    rw [EquihashValidator.verifySolution, if_neg (not_not_intro hheader),
      if_neg (not_not_intro hlength)]
    rfl
  have hmet : ∀ hash, EquihashValidator.meetsTarget hash
      (CurrentDeclaredJob.of sampleRequest sampleResponse).shareTarget = true :=
    EquihashValidator.meetsTarget_max
  simp only [EquihashValidator.verifyShare, hsolution, hmet, if_true]
  exact ⟨_, rfl⟩

theorem sample_nonce (time : UInt32) :
    reassembleNonce (DownstreamSession.new 1).nonce1 (sampleShare time).nonce2
      = some (toBytes32 [1]) := by
  have hbytes : toBytes32 (u32Bytes 1 ++ List.replicate 28 0) = toBytes32 [1] := by decide
  exact congrArg some hbytes

theorem sample_accepted (time : UInt32) :
    ((DownstreamSession.new 1).handleShare sampleValidator (some (.of sampleRequest sampleResponse))
      (sampleShare time)).2.result = .accepted := by
  have hseen : ((DownstreamSession.new 1).forJob
      (CurrentDeclaredJob.of sampleRequest sampleResponse).jobId).seenShares = [] := rfl
  rw [DownstreamSession.handleShare_of_nonce rfl (sample_nonce time), DownstreamSession.checkShare,
    if_neg (by rw [hseen]; exact List.not_mem_nil), if_neg (by rw [hseen]; decide)]
  rw [DownstreamSession.Verdict.result_of, toShareResult_verifyShare_eq_accepted]
  exact sample_verified time

theorem findJobById_sampleServer :
    findJobById sampleServer.tokens 0 sampleResponse.jobId = some sampleJob := rfl

theorem resolveBatch_sampleServer (time : UInt32) :
    resolveBatch sampleServer 0 ⟨jdChannelId, 1, 1, [sampleRelay time]⟩ = .ok (sampleBatch time) :=
  declared_sample.resolveBatch findJobById_sampleServer rfl

/-- The floor once the share was submitted to the first session. -/
def sampleSubmitted : Floor Nat :=
  sampleFloor.submit sampleValidator (.of sampleRequest sampleResponse) 1 (sampleShare 1700000000)

/-- A share that was submitted in time is credited. -/
theorem punctual_share_credited :
    ((sampleBatch 1700000000).judge sampleValidator (fun _ => 1) sampleServer.currentPrevHash 0
      sampleSubmitted.books (sampleRelay 1700000000)).2 = .ok () := by
  have hstart : Reach (Floor.next sampleValidator (fun _ => 1) (.of sampleRequest sampleResponse))
      Any (Floor.Start sampleResponse.jobId) sampleFloor := .init ⟨rfl, rfl, rfl, rfl⟩
  have hrun := hstart.tail trivial
    (show Floor.next sampleValidator (fun _ => 1) (.of sampleRequest sampleResponse) sampleFloor
      (.submit 1 (sampleShare 1700000000)) = some sampleSubmitted from rfl)
  have hroom : (sampleFloor.books.seen.keys sampleResponse.jobId).length < maxSeenSharesPerJob := by
    decide
  have haccepted : ((sampleFloor.sessions 1).handleShare sampleValidator
      (some (.of sampleRequest sampleResponse)) (sampleShare 1700000000)).2.result = .accepted :=
    sample_accepted 1700000000
  obtain ⟨nonce, hnonce, hwaiting⟩ :=
    (listener_and_server_agree (v := sampleValidator) declared_sample rfl hstart ⟨rfl, rfl⟩
      findJobById_sampleServer (resolveBatch_sampleServer 1700000000) rfl hroom
      (fun x hx => absurd hx List.not_mem_nil)).1 1 (sampleShare 1700000000) haccepted
  cases (sample_nonce 1700000000).symm.trans hnonce
  have hwaiting : sampleSubmitted.waiting = [sampleRelay 1700000000] := hwaiting
  have hjudged : sampleSubmitted.judged = [] := rfl
  refine ((listener_and_server_agree (v := sampleValidator) declared_sample rfl hrun ⟨rfl, rfl⟩
      findJobById_sampleServer (resolveBatch_sampleServer 1700000000) rfl hroom ?_).2.1
      (sampleRelay 1700000000) ?_).mpr ⟨by decide, rfl, List.not_mem_nil⟩
  · rw [hwaiting, hjudged]
    intro x hx y hy _
    rw [List.mem_singleton.mp hx, List.mem_singleton.mp hy]
  · rw [hwaiting]
    exact List.mem_singleton_self _

/-- **A share two hours and a second ahead of the job**: the listener tells the miner that it is
accepted, and the server rejects it as stale. -/
theorem late_share_lost :
    Declared plainHashes sampleConfig sampleRequest sampleResponse sampleJob ∧
    ((DownstreamSession.new 1).handleShare sampleValidator (some (.of sampleRequest sampleResponse))
      (sampleShare 1700007201)).2.result = .accepted ∧
    ((sampleBatch 1700007201).judge sampleValidator (fun _ => 1) sampleServer.currentPrevHash 0
      sampleFloor.books (sampleRelay 1700007201)).2 = .error .staleJob :=
  ⟨declared_sample, sample_accepted 1700007201, rfl⟩

end MiningInfra.Jd.Client
