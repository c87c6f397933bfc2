import MiningInfra.Jd.Shares
import MiningInfra.Payout.Solutions

/-!
# A batch of shares in one go

`handle_submit_shares_jd` without anybody in between: the job is looked up once, and the shares are
judged one after the other on the books, which are the keys seen for each job and the payout
ledger. This is the run of the sections of `ShareCall` from the first to the answer.
-/

namespace MiningInfra.Jd

open Lib Coinbase Equihash Payout

/-- What the shares of a batch are entered into. -/
structure Books (F : Type) where
  seen : SeenShares
  ledger : Ledger F

section Code

variable {F : Type} [Float64 F]

/- The validator, and the conversion of a target to a difficulty. -/
variable (v : EquihashValidator) (targetToDifficulty : Bytes32 → F)

/-- The checks and the credit of one share, with the tip at the time of the credit. -/
def Batch.judge (tip : Option Bytes32) (now : Nat) (books : Books F) (b : Batch) (share : JdShare) :
    Books F × Except JdShareErrorCode Unit :=
  match b.check v books.seen share with
  | .error code => (books, .error code)
  | .ok equihashOk =>
    let recorded := recordShare books.seen b.msg.jobId (shareDedupKey v.hashes share)
    if !recorded.2 then (⟨recorded.1, books.ledger⟩, .error .duplicate)
    else if !equihashOk then (⟨recorded.1, books.ledger⟩, .error .lowDifficulty)
    else if !b.stillCurrent tip then (⟨recorded.1, books.ledger⟩, .error .staleJob)
    else
      let credited := books.ledger.tryRecordShareOnce v.hashes b.job.clientId
        (targetToDifficulty b.job.shareTarget) share.solution now
      (⟨recorded.1, credited.1⟩, if credited.2 then .ok () else .error .duplicate)

/-- One round of the loop over the shares. -/
def Batch.serve (tip : Option Bytes32) (now : Nat) (b : Batch) (books : Books F)
    (share : JdShare) : Batch × Books F :=
  let judged := b.judge v targetToDifficulty tip now books share
  (match judged.2 with
    | .ok () => { b with tally := b.tally.accept }
    | .error code => b.reject code, judged.1)

def Batch.serveAll (tip : Option Bytes32) (now : Nat) (b : Batch) (books : Books F) :
    List JdShare → Batch × Books F
  | [] => (b, books)
  | share :: rest =>
    let served := { b with rest }.serve v targetToDifficulty tip now books share
    served.1.serveAll tip now served.2 rest

/-- The head of the call: the job of the batch, or the answer when there is none to serve. -/
def resolveBatch (server : JdState) (now : Nat) (msg : SubmitSharesJd) :
    Except JdShareErrorCode Batch :=
  match findJobById server.tokens now msg.jobId with
  | none => .error .unknownJob
  | some job =>
    if job.mode = .fullTemplate then .error .staleJob
    else .ok ⟨msg, job, server.currentPrevHash, msg.shares, ⟨0, 0, none⟩⟩

def handleSubmitSharesJd (server : JdState) (now : Nat) (books : Books F) (msg : SubmitSharesJd) :
    Books F × SubmitSharesJdResponse :=
  let books := { books with seen := evictSeenShares books.seen server.tokens now }
  match resolveBatch server now msg with
  | .error code => (books,
      ⟨msg.channelId, msg.requestId, 0, UInt16.ofNat msg.shares.length, code.asU8⟩)
  | .ok b =>
    let served := b.serveAll v targetToDifficulty server.currentPrevHash now books msg.shares
    (served.2, served.1.tally.response msg)

/-! ## The same as the sections -/

/-- The next section, the credit included. -/
def ShareCall.nextSection (server : JdState) (now : Nat) (books : Books F) :
    ShareCall → Books F × (SubmitSharesJdResponse ⊕ ShareCall)
  | .credit b share =>
    if b.stillCurrent server.currentPrevHash then
      let credited := books.ledger.tryRecordShareOnce v.hashes b.job.clientId
        (targetToDifficulty b.job.shareTarget) share.solution now
      ({ books with ledger := credited.1 }, .inr (.settle b (some credited.2)))
    else (books, .inr (.settle b none))
  | call =>
    let advanced := call.advance v server books.seen now
    ({ books with seen := advanced.1 }, advanced.2)

/-- Section after section until the call answers. -/
inductive ShareCall.Runs (server : JdState) (now : Nat) :
    Books F → ShareCall → Books F → SubmitSharesJdResponse → Prop
  | answer {books books' : Books F} {call : ShareCall} {response : SubmitSharesJdResponse}
      (h : call.nextSection v targetToDifficulty server now books = (books', .inl response)) :
      Runs server now books call books' response
  | step {books books' books'' : Books F} {call call' : ShareCall}
      {response : SubmitSharesJdResponse}
      (h : call.nextSection v targetToDifficulty server now books = (books', .inr call'))
      (rest : Runs server now books' call' books'' response) :
      Runs server now books call books'' response

end Code

variable {F : Type} [Float64 F] {v : EquihashValidator} {targetToDifficulty : Bytes32 → F}

variable {server : JdState} {now : Nat} {books books' : Books F} {b : Batch} {seen : SeenShares}
  {share : JdShare} {jobId : UInt32} {k : Bytes32} {tip : Option Bytes32}

section

variable {b' : Batch} {books'' : Books F} {response : SubmitSharesJdResponse}
  (hserve : b.serve v targetToDifficulty server.currentPrevHash now books share = (b', books'))

include hserve

/-- A round of the loop keeps to its batch. -/
theorem Batch.serve_keeps : b'.msg = b.msg ∧ b'.rest = b.rest := by
  obtain ⟨rfl, -⟩ := Prod.mk.inj hserve
  split <;> exact ⟨rfl, rfl⟩

variable (h : ShareCall.Runs v targetToDifficulty server now books' (.nextShare b') books'' response)

include h

/-- The sections behind the verification end where the second half of `judge` does. -/
theorem ShareCall.Runs.record {equihashOk : Bool}
    (hcheck : b.check v books.seen share = .ok equihashOk) :
    Runs v targetToDifficulty server now books (.record b share equihashOk) books'' response := by
  unfold Batch.serve Batch.judge at hserve
  rw [hcheck] at hserve
  cases hnew : (recordShare books.seen b.msg.jobId (shareDedupKey v.hashes share)).2 with
  | false =>
    simp only [hnew, Bool.not_false, if_true] at hserve
    cases hserve
    refine .step ?_ h
    simp [nextSection, advance, hnew]
  | true =>
    cases equihashOk with
    | false =>
      simp only [hnew, Bool.not_true, Bool.not_false, Bool.false_eq_true, if_true,
        if_false] at hserve
      cases hserve
      refine .step ?_ h
      simp [nextSection, advance, hnew]
    | true =>
      have hstep : nextSection v targetToDifficulty server now books (.record b share true) =
          (⟨(recordShare books.seen b.msg.jobId (shareDedupKey v.hashes share)).1,
            books.ledger⟩, .inr (.credit b share)) := by
        simp [nextSection, advance, hnew]
      refine .step hstep ?_
      simp only [hnew, Bool.not_true, Bool.false_eq_true, if_false] at hserve
      cases hcurrent : b.stillCurrent server.currentPrevHash with
      | false =>
        simp only [hcurrent, Bool.not_false, if_true] at hserve
        cases hserve
        refine .step ?_ h
        simp [nextSection, hcurrent, settle]
      | true =>
        simp only [hcurrent, Bool.not_true, Bool.false_eq_true, if_false] at hserve
        cases hserve
        refine .step ?_ h
        simp only [nextSection, hcurrent, if_true]
        cases (books.ledger.tryRecordShareOnce v.hashes b.job.clientId
          (targetToDifficulty b.job.shareTarget) share.solution now).2 <;> rfl

/-- The sections of one share end where `serve` does. -/
theorem ShareCall.Runs.serve : Runs v targetToDifficulty server now books
    (.nextShare { b with rest := share :: b.rest }) books'' response := by
  have hsame : Batch.check v books.seen { b with rest := share :: b.rest } share
      = b.check v books.seen share := rfl
  cases hcheck : b.check v books.seen share with
  | error code =>
    unfold Batch.serve Batch.judge at hserve
    rw [hcheck] at hserve
    cases hserve
    refine .step ?_ h
    simp only [nextSection, advance, hsame, hcheck]
    rfl
  | ok equihashOk =>
    refine .step ?_ (.record hserve h hcheck)
    simp only [nextSection, advance, hsame, hcheck]

end

theorem ShareCall.Runs.serveAll (shares : List JdShare) :
    ∀ {books : Books F} {b : Batch}, b.rest = shares →
      Runs v targetToDifficulty server now books (.nextShare b)
        (b.serveAll v targetToDifficulty server.currentPrevHash now books shares).2
        ((b.serveAll v targetToDifficulty server.currentPrevHash now books shares).1.tally.response
          b.msg) := by
  induction shares with
  | nil =>
    intro books b hrest
    refine .answer ?_
    simp only [nextSection, advance, hrest]
    rfl
  | cons share rest ih =>
    rintro books ⟨msg, job, tip, _, tally⟩ rfl
    cases hserve : Batch.serve v targetToDifficulty server.currentPrevHash now
        ⟨msg, job, tip, rest, tally⟩ books share with
    | mk b' books' =>
      obtain ⟨hmsg, hrest⟩ := Batch.serve_keeps hserve
      rw [Batch.serveAll, hserve, ← hmsg]
      exact .serve hserve (ih hrest)

/-- **The handler is the run of its sections** from the first one, on books without the keys of the
jobs that are gone. -/
theorem runs_handleSubmitSharesJd (server : JdState) (now : Nat) (books : Books F)
    (msg : SubmitSharesJd) :
    ShareCall.Runs v targetToDifficulty server now
      { books with seen := evictSeenShares books.seen server.tokens now } (.findJob msg)
      (handleSubmitSharesJd v targetToDifficulty server now books msg).1
      (handleSubmitSharesJd v targetToDifficulty server now books msg).2 := by
  unfold handleSubmitSharesJd resolveBatch
  cases hjob : findJobById server.tokens now msg.jobId with
  | none =>
    refine .answer ?_
    simp only [ShareCall.nextSection, ShareCall.advance, hjob]
  | some job =>
    by_cases hmode : job.mode = .fullTemplate
    · simp only [hmode, if_true]
      refine .answer ?_
      simp only [ShareCall.nextSection, ShareCall.advance, hjob, hmode, if_true]
    · simp only [hmode, if_false]
      have hfind : ShareCall.nextSection v targetToDifficulty server now
          { books with seen := evictSeenShares books.seen server.tokens now } (.findJob msg) =
          ({ books with seen := evictSeenShares books.seen server.tokens now },
            .inr (.readTip msg job)) := by
        simp only [ShareCall.nextSection, ShareCall.advance, hjob, hmode, if_false]
      exact .step hfind (.step rfl (.serveAll msg.shares rfl))

/-! ## When a share is credited -/

/-- The keys recorded for a job. -/
def SeenShares.keys (seen : SeenShares) (jobId : UInt32) : List Bytes32 :=
  (seen.lookup jobId).getD []

theorem SeenShares.any_contains (seen : SeenShares) (jobId : UInt32) (key : Bytes32) :
    ((seen.lookup jobId).any fun keys => keys.contains key) = true ↔ key ∈ seen.keys jobId := by
  unfold keys
  cases seen.lookup jobId with
  | none | some keys => simp

theorem recordShare_iff (seen : SeenShares) (jobId : UInt32) (key : Bytes32) :
    (recordShare seen jobId key).2 = true ↔
      key ∉ seen.keys jobId ∧ (seen.keys jobId).length < maxSeenSharesPerJob := by
  unfold recordShare SeenShares.keys
  dsimp only
  split
  · rename_i hfull
    refine iff_of_false Bool.false_ne_true fun hnew => ?_
    exact Nat.not_lt.mpr (hfull.resolve_left hnew.1) hnew.2
  · rename_i hnew
    rw [not_or, Nat.not_le] at hnew
    exact iff_of_true rfl hnew

/-- Recording a share adds its key to its job at most. -/
theorem mem_keys_recordShare {jobId' : UInt32} {key : Bytes32}
    (h : k ∈ (recordShare seen jobId key).1.keys jobId') :
    k ∈ seen.keys jobId' ∨ jobId' = jobId ∧ k = key := by
  unfold recordShare at h
  dsimp only at h
  split at h
  all_goals
    unfold SeenShares.keys at h ⊢
    rw [Table.lookup_insert_eq] at h
    split at h
    · rename_i heq
      subst heq
      simp only [Option.getD_some, List.mem_append, List.mem_singleton] at h
      grind
    · exact .inl h

/-- Judging a share does no more to the keys than recording it. -/
theorem Batch.mem_keys_judge
    (h : k ∈ (b.judge v targetToDifficulty tip now books share).1.seen.keys jobId) :
    k ∈ books.seen.keys jobId ∨ k = shareDedupKey v.hashes share := by
  have hrecorded : ∀ {k}, k ∈ (recordShare books.seen b.msg.jobId
      (shareDedupKey v.hashes share)).1.keys jobId →
      k ∈ books.seen.keys jobId ∨ k = shareDedupKey v.hashes share :=
    fun hk => (mem_keys_recordShare hk).imp_right And.right
  unfold judge at h
  cases hcheck : b.check v books.seen share with
  | error code =>
    rw [hcheck] at h
    exact .inl h
  | ok equihashOk =>
    rw [hcheck] at h
    dsimp only at h
    repeat' split at h
    all_goals exact hrecorded h

/-- The checks up to the verification all pass. -/
theorem Batch.check_eq_ok_true : b.check v seen share = .ok true ↔ b.precheck share = none
      ∧ shareDedupKey v.hashes share ∉ seen.keys b.msg.jobId ∧ share.Verified v b.job := by
  unfold check JdShare.Verified
  cases hpre : b.precheck share with
  | some code => simp
  | none =>
    by_cases hseen : shareDedupKey v.hashes share ∈ seen.keys b.msg.jobId
    · rw [if_pos ((seen.any_contains _ _).mpr hseen)]
      simp [hseen]
    · rw [if_neg (mt (seen.any_contains _ _).mp hseen)]
      cases v.verifyShare (b.job.buildHeader share.time share.nonce) share.solution
          b.job.shareTarget with
      | ok hash => simp [hseen]
      | error e => cases e <;> simp

/-- **When a share is credited**. -/
theorem Batch.judge_eq_ok_iff : (b.judge v targetToDifficulty tip now books share).2 = .ok () ↔
      (b.precheck share = none ∧ b.stillCurrent tip = true ∧ share.Verified v b.job)
      ∧ (shareDedupKey v.hashes share ∉ books.seen.keys b.msg.jobId
        ∧ (books.seen.keys b.msg.jobId).length < maxSeenSharesPerJob)
      ∧ validDifficulty (targetToDifficulty b.job.shareTarget) = true
      ∧ v.hashes.sha256 share.solution ∉ books.ledger.seenSolutions.order := by
  have htrue := @check_eq_ok_true v b books.seen share
  have hcredit := books.ledger.tryRecordShareOnce_iff b.job.clientId
    (targetToDifficulty b.job.shareTarget) v.hashes share.solution now
  have hrecord := recordShare_iff books.seen b.msg.jobId (shareDedupKey v.hashes share)
  unfold judge
  cases hcheck : b.check v books.seen share with
  | error code =>
    rw [hcheck] at htrue
    simp only [reduceCtorEq, false_iff]
    tauto
  | ok equihashOk =>
    rw [hcheck, Except.ok.injEq] at htrue
    dsimp only
    cases hnew : (recordShare books.seen b.msg.jobId (shareDedupKey v.hashes share)).2 with
    | false =>
      rw [hnew] at hrecord
      simp only [Bool.not_false, if_true, reduceCtorEq, false_iff]
      tauto
    | true =>
      cases equihashOk with
      | false =>
        simp only [Bool.not_true, Bool.not_false, Bool.false_eq_true, if_true, if_false,
          reduceCtorEq, false_iff]
        tauto
      | true =>
        rw [hnew] at hrecord
        simp only [Bool.not_true, Bool.false_eq_true, if_false]
        cases hcurrent : b.stillCurrent tip with
        | false => simp
        | true =>
          simp only [Bool.not_true, Bool.false_eq_true, if_false]
          rw [← hcredit]
          split
          · simp only [true_iff]
            tauto
          · simp only [reduceCtorEq, false_iff]
            tauto

end MiningInfra.Jd
