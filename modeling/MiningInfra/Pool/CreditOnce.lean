import MiningInfra.Jd.Agreement
import MiningInfra.Pool.Jobs

/-!
# No share is credited twice

Within one block the set of credited solutions keeps a share from being credited on both
paths. A new block clears the set, and what keeps old shares out from then on is that their
jobs are stale: on the declaration path the guard on the tip, on the pool path the jobs that
the broadcast deactivates. Three things break this: a tip that comes back to a block for
which shares were credited, a credit for the new block before the set is cleared, and a
channel id taken by two connections. In runs without them every pair of a header and a
solution is credited at most once.

The invariants: which channels have a session, the tip of the declaration server and of the
distributor, active jobs build on the distributor's block, and the solutions of the credits
for the current block are in the set.
-/

namespace MiningInfra.Pool

open Lib Coinbase Equihash Payout

variable {F : Type}

/-! ## The discipline -/

/-- A template for a new block has been taken up and the solutions are not yet cleared. -/
def newBlockPending (d : JobDistributor) : MainLoop F → Bool
  | .updateJd t => d.prevHash ≠ some t.prevHash
  | .readSessions cleanJobs => cleanJobs
  | .createJobs cleanJobs _ => cleanJobs
  | .dropSlow cleanJobs _ => cleanJobs
  | .collectActive => true
  | .pruneDetector _ => true
  | .clearSolutions => true
  | _ => false

/-- A new tip is one for which no share was credited; no declared share is credited while a new
block is pending; a connection gets a channel id that is free. -/
def Disciplined (w : World F) : Event → Prop
  | .template t => w.jd.server.currentPrevHash ≠ some t.prevHash →
      ∀ c ∈ w.credits, headerPrevHash c.1 ≠ t.prevHash
  | .resumeJd thread _ => ∀ b share, w.batches.lookup thread = some (.credit b share) →
      newBlockPending w.pool.distributor w.main = false
  | .connect _ => IdFree w.pool w.main w.pool.nextChannelId
  | _ => True

/-! ## The invariant -/

/-- The tips of the declaration server and of the distributor. -/
structure InStep (jd : Jd.World) (d : JobDistributor) (main : MainLoop F) : Prop where
  updating : ∀ t, main = .updateJd t → jd.server.currentPrevHash = some t.prevHash
    ∧ ∀ u, jd.update = some u → u.template.prevHash = t.prevHash
  settled : (∀ t, main ≠ .updateJd t) → jd.update = none ∧ d.prevHash = jd.server.currentPrevHash

/-- The share the main loop is dealing with. -/
def MainLoop.share : MainLoop F → Option SubmitEquihashShare
  | .lookupJob _ share => some share
  | .validateShare _ share _ _ => some share
  | .creditShare _ share _ _ => some share
  | _ => none

/-- Every solution in the set and every solution in progress has been submitted. -/
structure Sources (hashes : Hashes) (w : World F) : Prop where
  keys : ∀ k ∈ w.ledger.seenSolutions.order, ∃ solution ∈ w.submitted, hashes.sha256 solution = k
  main : ∀ share, w.main.share = some share → share.solution ∈ w.submitted
  batches : ∀ thread call, w.batches.lookup thread = some call →
    ∀ share ∈ call.shares, share.solution ∈ w.submitted
  capacity : w.ledger.seenSolutions.capacity = maxCrossPathSolutions

/-- While a new block is pending there is no credit for it; otherwise the solutions credited for
the current block are in the set. -/
structure CreditsKept (hashes : Hashes) (w : World F) : Prop where
  pending : newBlockPending w.pool.distributor w.main = true →
    ∀ c ∈ w.credits, w.jd.server.currentPrevHash.all (· = headerPrevHash c.1) = false
  kept : newBlockPending w.pool.distributor w.main = false →
    ∀ c ∈ w.credits, w.jd.server.currentPrevHash.all (· = headerPrevHash c.1) = true →
      hashes.sha256 c.2 ∈ w.ledger.seenSolutions.order
  nodup : w.credits.Nodup

/-- The distinct solutions submitted so far fit into the set. -/
def SolutionsFit (w : World F) : Prop := w.submitted.dedup.length < maxCrossPathSolutions

structure Inv (hashes : Hashes) (w : World F) : Prop where
  registered : Registered w.pool w.main
  inStep : InStep w.jd w.pool.distributor w.main
  jobs : JobsCurrent w.pool w.main
  sources : Sources hashes w
  credits : SolutionsFit w → CreditsKept hashes w

theorem inv_new (hashes : Hashes) (persistent : Bool) : Inv hashes (.new persistent : World F) := by
  refine ⟨⟨?_, ?_, ?_⟩, ⟨?_, ?_⟩, ⟨?_, ?_, ?_⟩, ⟨?_, ?_, ?_, rfl⟩, fun _ => ⟨?_, ?_, ?_⟩⟩
  all_goals simp [World.new, PoolState.new, JobDistributor.new, Jd.World.new, MainLoop.share,
    Ledger.new, BoundedSet.new, newBlockPending]

/-! ## Parts of the invariant under small changes -/

variable {hashes : Hashes}

variable {jd : Jd.World} {main : MainLoop F} {w w' : World F} {env : Env F} {t : BlockTemplate}
  {now thread : Nat} {cleanJobs : Bool}

theorem InStep.of_main {d : JobDistributor} {main' : MainLoop F} (h : InStep jd d main)
    (hmain : ∀ t, main ≠ .updateJd t) (hmain' : ∀ t, main' ≠ .updateJd t) : InStep jd d main' :=
  ⟨fun t ht => absurd ht (hmain' t), fun _ => h.settled hmain⟩

theorem CreditsKept.congr (h : CreditsKept hashes w)
    (htip : w'.jd.server.currentPrevHash = w.jd.server.currentPrevHash)
    (hpending : newBlockPending w'.pool.distributor w'.main
      = newBlockPending w.pool.distributor w.main)
    (hledger : w'.ledger.seenSolutions = w.ledger.seenSolutions)
    (hcredits : w'.credits = w.credits) : CreditsKept hashes w' := by
  refine ⟨?_, ?_, hcredits ▸ h.nodup⟩
  · rw [htip, hpending, hcredits]
    exact h.pending
  · rw [htip, hpending, hcredits, hledger]
    exact h.kept

theorem SolutionsFit.of_subset (hsub : w.submitted ⊆ w'.submitted) (h : SolutionsFit w') :
    SolutionsFit w := by
  have hdedup : w.submitted.dedup ⊆ w'.submitted.dedup := by
    intro x hx
    exact List.mem_dedup.mpr (hsub (List.mem_dedup.mp hx))
  exact Nat.lt_of_le_of_lt (List.subperm_of_subset (List.nodup_dedup _) hdedup).length_le h

/-! ## The credit -/

variable [Float64 F]

section Credit

variable {minerId : MinerId} {difficulty : F} {header solution : List UInt8}
  (hsubmitted : solution ∈ w.submitted)

include hsubmitted

theorem sources_credit (hw : Sources env.hashes w) :
    Sources env.hashes (w.credit env minerId difficulty header solution now).1 := by
  rcases w.ledger.tryRecordShareOnce_cases minerId difficulty env.hashes solution now with
    ⟨hseen, -⟩ | ⟨hseen, -, -⟩
  · refine ⟨?_, hw.main, hw.batches, ?_⟩
    · simp only [World.credit, hseen]
      exact hw.keys
    · simp only [World.credit, hseen]
      exact hw.capacity
  · refine ⟨?_, hw.main, hw.batches, ?_⟩
    · simp only [World.credit, hseen]
      intro k hk
      rcases BoundedSet.mem_of_mem_insertIfNew hk with heq | hk
      · exact ⟨solution, hsubmitted, heq.symm⟩
      · exact hw.keys k hk
    · simp only [World.credit, hseen, BoundedSet.capacity_insertIfNew]
      exact hw.capacity

variable (hpending : newBlockPending w.pool.distributor w.main = false)
  (hcurrent : w.jd.server.currentPrevHash.all (· = headerPrevHash header) = true)

include hpending hcurrent

/-- **A credit for the current block keeps the credits apart**: a pair that was credited before
has its solution in the set. -/
theorem creditsKept_credit (hsources : Sources env.hashes w) (hfit : SolutionsFit w)
    (hw : CreditsKept env.hashes w) :
    CreditsKept env.hashes (w.credit env minerId difficulty header solution now).1 := by
  rcases w.ledger.tryRecordShareOnce_cases minerId difficulty env.hashes solution now with
    ⟨hseen, hnot⟩ | ⟨hseen, hkey, hnew⟩
  · refine hw.congr rfl rfl hseen ?_
    simp only [World.credit, hnot]
    rfl
  · have hcredits : (w.credit env minerId difficulty header solution now).1.credits
        = w.credits ++ [(header, solution)] := by
      simp only [World.credit, hnew, if_true]
    have hkeys : ∀ k ∈ env.hashes.sha256 solution :: w.ledger.seenSolutions.order,
        ∃ s ∈ w.submitted, env.hashes.sha256 s = k := by
      intro k hk
      rcases List.mem_cons.mp hk with heq | hk
      · exact ⟨solution, hsubmitted, heq.symm⟩
      · exact hsources.keys k hk
    have hroom : w.ledger.seenSolutions.order.length < w.ledger.seenSolutions.capacity := by
      rw [hsources.capacity]
      exact Nat.lt_trans (BoundedSet.length_lt_of_sources hkeys hkey) hfit
    refine ⟨?_, ?_, ?_⟩
    · intro h
      exact absurd (hpending.symm.trans h) (by simp)
    · intro _ c hc hcur
      rw [hcredits] at hc
      show env.hashes.sha256 c.2 ∈ (w.ledger.tryRecordShareOnce env.hashes minerId difficulty
        solution now).1.seenSolutions.order
      rw [hseen]
      rcases List.mem_append.mp hc with hc | hc
      · exact BoundedSet.mem_insertIfNew_of_lt hroom (hw.kept hpending c hc hcur)
      · rw [List.mem_singleton.mp hc]
        exact BoundedSet.mem_insertIfNew_self _ _
    · rw [hcredits]
      refine List.nodup_append.mpr ⟨hw.nodup, List.nodup_singleton _, ?_⟩
      intro c hc c' hc' heq
      rw [List.mem_singleton.mp hc'] at heq
      subst heq
      exact hkey (hw.kept hpending _ hc hcurrent)

theorem inv_credit (hw : Inv env.hashes w) :
    Inv env.hashes (w.credit env minerId difficulty header solution now).1 :=
  ⟨hw.registered, hw.inStep, hw.jobs, sources_credit hsubmitted hw.sources, fun hfit =>
    creditsKept_credit hsubmitted hpending hcurrent hw.sources hfit (hw.credits hfit)⟩

end Credit

/-! ## Steps beside the main loop -/

section

omit [Float64 F]

/-- A change of the pool that leaves the distributor alone. -/
theorem Inv.setPool (hw : Inv hashes w) {s : PoolState} (hregistered : Registered s w.main)
    (hjobs : JobsCurrent s w.main) (hd : s.distributor = w.pool.distributor) :
    Inv hashes { w with pool := s } := by
  refine ⟨hregistered, ?_, hjobs, { hw.sources with }, ?_⟩
  · rw [hd]
    exact hw.inStep
  · intro hfit
    refine (hw.credits hfit).congr rfl ?_ rfl rfl
    rw [hd]

/-- A change of the declaration server that leaves the tip alone. -/
theorem Inv.setJd (hw : Inv hashes w)
    (htip : jd.server.currentPrevHash = w.jd.server.currentPrevHash)
    (hinStep : InStep jd w.pool.distributor w.main) : Inv hashes { w with jd } :=
  ⟨hw.registered, hinStep, hw.jobs, { hw.sources with },
    fun hfit => (hw.credits hfit).congr htip rfl rfl rfl⟩

theorem Inv.setBatch (hw : Inv hashes w) (thread : Nat) {call : Option Jd.ShareCall}
    (hcall : ∀ c, call = some c → ∀ share ∈ c.shares, share.solution ∈ w.submitted) :
    Inv hashes (w.setBatch thread call) := by
  refine ⟨hw.registered, hw.inStep, hw.jobs, { hw.sources with batches := ?_ },
    fun hfit => (hw.credits hfit).congr rfl rfl rfl rfl⟩
  intro thread' c hc
  cases call with
  | none =>
    exact hw.sources.batches thread' c (Table.of_lookup_erase hc)
  | some call =>
    simp only [World.setBatch, Table.lookup_insert_eq] at hc
    split at hc
    · exact hcall c hc
    · exact hw.sources.batches thread' c hc

/-- More solutions are submitted. -/
theorem Inv.submit (hw : Inv hashes w) {seenShares : Jd.SeenShares}
    {batches : Table Nat Jd.ShareCall} (solutions : List (List UInt8))
    (hregistered : Registered w.pool main) (hinStep : InStep w.jd w.pool.distributor main)
    (hjobs : JobsCurrent w.pool main)
    (hpending : newBlockPending w.pool.distributor main = newBlockPending w.pool.distributor w.main)
    (hmain : ∀ share, main.share = some share → share.solution ∈ w.submitted ++ solutions)
    (hbatches : ∀ thread call, batches.lookup thread = some call →
      ∀ share ∈ call.shares, share.solution ∈ w.submitted ++ solutions) :
    Inv hashes { w with main, seenShares, batches, submitted := w.submitted ++ solutions } := by
  refine ⟨hregistered, hinStep, hjobs, ⟨?_, hmain, hbatches, hw.sources.capacity⟩, ?_⟩
  · intro k hk
    obtain ⟨solution, hmem, heq⟩ := hw.sources.keys k hk
    exact ⟨solution, List.mem_append_left _ hmem, heq⟩
  · intro hfit
    have hfit' : SolutionsFit w := hfit.of_subset (List.subset_append_left _ _)
    exact (hw.credits hfit').congr rfl hpending rfl rfl

/-- The sections of a declaration leave the tip and the update alone. -/
theorem inv_jdCall (hw : Inv env.hashes w) {jd' : Jd.World} (hkeeps : w.jd.Keeps jd')
    (htip : jd.server.currentPrevHash = jd'.server.currentPrevHash)
    (hupdate : jd.update = jd'.update) : Inv env.hashes { w with jd } := by
  have htip' := htip.trans hkeeps.currentPrevHash
  have hupdate' := hupdate.trans hkeeps.update
  refine hw.setJd htip' ⟨?_, ?_⟩
  · rw [htip', hupdate']
    exact hw.inStep.updating
  · rw [htip', hupdate']
    exact hw.inStep.settled

/-- An update runs only while the main loop waits for it, and sets the tip it has set before. -/
theorem inv_jdUpdate (hw : Inv env.hashes w) {u : Jd.Update} (hu : w.jd.update = some u) :
    Inv env.hashes { w with jd := w.jd.advanceUpdate u } := by
  have hmain : ∃ t, w.main = .updateJd t := by
    by_contra hno
    have hnone := (hw.inStep.settled fun t ht => hno ⟨t, ht⟩).1
    rw [hu] at hnone
    cases hnone
  obtain ⟨t, ht⟩ := hmain
  obtain ⟨htip, htemplate⟩ := hw.inStep.updating t ht
  have hprev := htemplate u hu
  have htip' : (w.jd.advanceUpdate u).server.currentPrevHash = w.jd.server.currentPrevHash := by
    unfold Jd.World.advanceUpdate
    split
    · rfl
    · rw [htip, ← hprev]
    · rfl
  have hupdate' : ∀ u', (w.jd.advanceUpdate u).update = some u' → u'.template = u.template := by
    intro u' hu'
    unfold Jd.World.advanceUpdate at hu'
    split at hu'
    · injection hu' with hu'; rw [← hu']
    · injection hu' with hu'; rw [← hu']
    · cases hu'
  refine hw.setJd htip' ⟨?_, fun hno => absurd ht (hno t)⟩
  intro t' ht'
  obtain ⟨htip₁, -⟩ := hw.inStep.updating t' ht'
  have hsame : t = t' := by
    have heq := ht.symm.trans ht'
    injection heq
  refine ⟨htip'.trans htip₁, ?_⟩
  intro u' hu'
  rw [hupdate' u' hu', hprev, hsame]

/-- The main loop takes up a template. -/
theorem inv_template (hw : Inv env.hashes w) (hidle : w.main = .idle)
    (hok : Disciplined w (.template t)) :
    Inv env.hashes { w with jd := w.jd.beginUpdate t.context, main := .updateJd t } := by
  have hd : w.pool.distributor.prevHash = w.jd.server.currentPrevHash :=
    (hw.inStep.settled (by simp [hidle])).2
  refine ⟨hw.registered.of_main (by simp), ⟨?_, by simp⟩, ?_,
    { hw.sources with main := by simp [MainLoop.share] }, ?_⟩
  · intro t' ht'
    cases ht'
    refine ⟨rfl, ?_⟩
    intro u hu
    cases hu
    rfl
  · refine hw.jobs.of_main ?_ (by simp) (by simp)
    intro id hawaits
    simp [AwaitsClean, hidle] at hawaits
  · intro hfit
    have hcredits := hw.credits hfit
    by_cases hsame : w.jd.server.currentPrevHash = some t.prevHash
    · refine hcredits.congr hsame.symm ?_ rfl rfl
      simp [newBlockPending, hidle, hd, hsame]
    · refine ⟨?_, ?_, hcredits.nodup⟩
      · intro _ c hc
        have hne := hok hsame c hc
        simpa [Jd.World.beginUpdate, BlockTemplate.context] using fun h => hne h.symm
      · intro hpending
        exact absurd hpending (by simp [newBlockPending, hd, hsame])

end

/-! ## Share batches -/

theorem inv_creditJd (hw : Inv env.hashes w) {b : Jd.Batch} {share : Jd.JdShare}
    (hsubmitted : share.solution ∈ w.submitted)
    (hpending : newBlockPending w.pool.distributor w.main = false) :
    Inv env.hashes (w.creditJd env b share now).1 := by
  unfold World.creditJd
  split
  · rename_i hcurrent
    refine inv_credit hsubmitted hpending ?_ hw
    rw [Jd.DeclaredJobInfo.headerPrevHash_buildHeader]
    exact hcurrent
  · exact hw

theorem submitted_creditJd (env : Env F) (w : World F) (b : Jd.Batch) (share : Jd.JdShare)
    (now : Nat) : (w.creditJd env b share now).1.submitted = w.submitted := by
  unfold World.creditJd
  split <;> rfl

/-- A batch takes its next section; a credit only when no new block is pending. -/
theorem inv_advanceBatch (hw : Inv env.hashes w) {call : Jd.ShareCall}
    (hcall : w.batches.lookup thread = some call) (hok : Disciplined w (.resumeJd thread now)) :
    Inv env.hashes ((w.advanceBatch env now call).1.setBatch thread
      (w.advanceBatch env now call).2) := by
  have hshares := hw.sources.batches thread call hcall
  by_cases hcredit : ∃ b share, call = .credit b share
  · obtain ⟨b, share, rfl⟩ := hcredit
    have hinv : Inv env.hashes (w.creditJd env b share now).1 :=
      inv_creditJd hw (hshares share List.mem_cons_self) (hok b share hcall)
    refine hinv.setBatch thread ?_
    intro c hc share' hshare'
    injection hc with hc
    rw [← hc, Jd.ShareCall.shares_settle] at hshare'
    rw [submitted_creditJd]
    exact hshares share' (List.mem_cons_of_mem _ hshare')
  · rw [w.advanceBatch_of_not_credit env now hcredit]
    have hinv : Inv env.hashes { w with seenShares :=
        (call.advance env.toEquihashValidator w.jd.server w.seenShares now).1 } :=
      ⟨hw.registered, hw.inStep, hw.jobs, { hw.sources with },
        fun hfit => (hw.credits hfit).congr rfl rfl rfl rfl⟩
    refine hinv.setBatch thread ?_
    intro c hc share hshare
    have hright := Sum.getRight?_eq_some_iff.mp hc
    exact hshares share (Jd.ShareCall.shares_advance hright hshare)

/-! ## Steps of the main loop -/

section

variable (hw : Inv hashes w)

include hw

section

omit [Float64 F]

/-- The main loop moves on and nothing else happens. -/
theorem Inv.setMain (hregistered : Registered w.pool main)
    (hinStep : InStep w.jd w.pool.distributor main) (hjobs : JobsCurrent w.pool main)
    (hpending : newBlockPending w.pool.distributor main = newBlockPending w.pool.distributor w.main)
    (hshare : ∀ share, main.share = some share → share.solution ∈ w.submitted) :
    Inv hashes { w with main } :=
  ⟨hregistered, hinStep, hjobs, { hw.sources with main := hshare },
    fun hfit => (hw.credits hfit).congr rfl hpending rfl rfl⟩

/-- The main loop goes back to idle from a section in which no new block is pending. -/
theorem Inv.setIdle (hmain : ∀ t, w.main ≠ .updateJd t)
    (hawaits : ∀ id, ¬ AwaitsClean w.pool w.main id)
    (hpending : newBlockPending w.pool.distributor w.main = false) :
    Inv hashes { w with main := .idle } :=
  hw.setMain (hw.registered.of_main (by simp)) (hw.inStep.of_main hmain (by simp))
    (hw.jobs.of_main hawaits (by simp) (by simp)) hpending.symm (by simp [MainLoop.share])

theorem Inv.setDetector (detector : DuplicateDetector) :
    Inv hashes { w with pool := { w.pool with detector } } :=
  hw.setPool { hw.registered with } { hw.jobs with } rfl

theorem inv_updateTemplate (hmain : w.main = .updateJd t) (hdone : w.jd.update = none) :
    Inv hashes { w with
      pool := { w.pool with distributor := (w.pool.distributor.updateTemplate t).1 }
      main := .readSessions (w.pool.distributor.updateTemplate t).2 } := by
  refine ⟨?_, ⟨by simp, ?_⟩, ?_, { hw.sources with main := by simp [MainLoop.share] }, ?_⟩
  · exact (hw.registered.of_main (by simp)).congr rfl rfl fun _ => rfl
  · intro _
    exact ⟨hdone, (hw.inStep.updating t hmain).1.symm⟩
  · refine jobsCurrent_updateTemplate hw.jobs hw.registered ?_ t
    intro id hawaits
    simp [AwaitsClean, hmain] at hawaits
  · intro hfit
    refine (hw.credits hfit).congr rfl ?_ rfl rfl
    simp [newBlockPending, hmain, JobDistributor.updateTemplate]

theorem inv_createJobs {ids : List UInt32} (hmain : w.main = .createJobs cleanJobs ids)
    (now : Nat) :
    Inv hashes { w with
      pool := (w.pool.broadcast cleanJobs ids now).1
      main := .dropSlow cleanJobs (w.pool.broadcast cleanJobs ids now).2 } := by
  have hshape := (PoolState.broadcast_shape cleanJobs now ids (w.pool, [])).1
  refine ⟨registered_broadcast hw.registered cleanJobs ids now, ⟨by simp, ?_⟩,
    jobsCurrent_createJobs (hmain ▸ hw.jobs) now,
    { hw.sources with main := by simp [MainLoop.share] }, ?_⟩
  · intro _
    rw [PoolState.broadcast, hshape.distributor]
    exact hw.inStep.settled (by simp [hmain])
  · intro hfit
    refine (hw.credits hfit).congr rfl ?_ rfl rfl
    simp [newBlockPending, hmain]

theorem inv_dropSlow {sent : List UInt32} (hmain : w.main = .dropSlow cleanJobs sent)
    (slow : List UInt32) :
    Inv hashes { w with
      pool := w.pool.drop (sent.filter slow.contains)
      main := if cleanJobs then .collectActive else .idle } := by
  have hregistered : Registered (w.pool.drop (sent.filter slow.contains)) w.main := by
    refine registered_drop hw.registered ?_
    intro k id hk hmem
    exact (hw.registered.setup k id hk).2.2 cleanJobs sent hmain (List.mem_of_mem_filter hmem)
  have hdropped := hw.setPool hregistered (jobsCurrent_drop hw.jobs _) rfl
  have hawaits : ∀ id, ¬ AwaitsClean (w.pool.drop (sent.filter slow.contains)) w.main id := by
    intro id h
    simp [AwaitsClean, hmain] at h
  refine hdropped.setMain (hregistered.of_main ?_) (hdropped.inStep.of_main ?_ ?_)
    (hdropped.jobs.of_main hawaits ?_ ?_) ?_ ?_
  all_goals cases cleanJobs <;> simp [hmain, newBlockPending, MainLoop.share]

/-- The solutions are cleared: there is no credit for the new block yet. -/
theorem inv_clearSolutions (hmain : w.main = .clearSolutions) :
    Inv hashes { w with ledger := w.ledger.clearCrossPathSolutions, main := .idle } := by
  refine ⟨hw.registered.of_main (by simp), hw.inStep.of_main (by simp [hmain]) (by simp),
    hw.jobs.of_main ?_ (by simp) (by simp), ⟨?_, by simp [MainLoop.share], hw.sources.batches, rfl⟩,
    ?_⟩
  · intro id h
    simp [AwaitsClean, hmain] at h
  · intro k hk
    exact absurd hk (by simp [Ledger.clearCrossPathSolutions, BoundedSet.new])
  · intro hfit
    have hcredits := hw.credits hfit
    refine ⟨by simp [newBlockPending], ?_, hcredits.nodup⟩
    intro _ c hc hcurrent
    have hnone := hcredits.pending (by simp [newBlockPending, hmain]) c hc
    exact absurd (hnone.symm.trans hcurrent) (by simp)

/-- The job of a share that is looked up builds on the distributor's block. -/
theorem inv_lookupJob {channelId : UInt32} {share : SubmitEquihashShare}
    (hmain : w.main = .lookupJob channelId share) (now : Nat) :
    Inv hashes { w with main := w.lookupJob channelId share now } := by
  have hawaits : ∀ id, ¬ AwaitsClean w.pool w.main id := by
    intro id h
    simp [AwaitsClean, hmain] at h
  have hidle : Inv hashes { w with main := .idle } :=
    hw.setIdle (by simp [hmain]) hawaits (by simp [newBlockPending, hmain])
  unfold World.lookupJob
  split
  · exact hidle
  · rename_i channel hchannel
    split
    · rename_i hactive
      split
      · exact hidle
      · rename_i j hj
        have hcurrent : w.pool.distributor.prevHash = some j.job.prevHash := by
          rcases hw.jobs.channels channelId channel hchannel with h | h
          · rw [Channel.isJobActive, hj, Option.any_some, Bool.and_eq_true] at hactive
            exact h share.jobId j hj hactive.1
          · exact absurd h (hawaits channelId)
        refine hw.setMain (hw.registered.of_main (by simp))
          (hw.inStep.of_main (by simp [hmain]) (by simp)) (hw.jobs.of_main hawaits ?_ (by simp))
          (by simp [newBlockPending, hmain]) ?_
        · rintro _ _ _ _ ⟨rfl, rfl, rfl, rfl⟩
          exact hcurrent
        · rintro _ ⟨rfl⟩
          exact hw.sources.main share (by simp [hmain, MainLoop.share])
    · exact hidle

end

end

section

variable (hw : Inv env.hashes w) {share : SubmitEquihashShare} {channelId : UInt32}

include hw

omit [Float64 F] in
theorem inv_validateShare {job : NewEquihashJob} {template : BlockTemplate}
    (hmain : w.main = .validateShare channelId share job template) :
    Inv env.hashes (w.validateShare env channelId share job template) := by
  have hawaits : ∀ id, ¬ AwaitsClean w.pool w.main id := by
    intro id h
    simp [AwaitsClean, hmain] at h
  have hdetector := hw.setDetector
    (validateShareWithJob env.toPrimitives w.pool.detector share job template.target).1
  have hidle := hdetector.setIdle (by simp [hmain]) hawaits (by simp [newBlockPending, hmain])
  unfold World.validateShare
  simp only
  split
  · rename_i r header hresult hheader
    split
    · refine hdetector.setMain (hdetector.registered.of_main (by simp))
        (hdetector.inStep.of_main (by simp [hmain]) (by simp))
        (hdetector.jobs.of_main hawaits (by simp) ?_) (by simp [newBlockPending, hmain]) ?_
      · rintro _ _ _ _ ⟨rfl, rfl, rfl, rfl⟩
        rw [NewEquihashJob.headerPrevHash_shareHeader hheader]
        exact hw.jobs.validating _ _ _ _ hmain
      · rintro _ ⟨rfl⟩
        exact hw.sources.main share (by simp [hmain, MainLoop.share])
    · exact hidle
  · exact hidle

/-- A share of the pool is credited for the tip. -/
theorem inv_creditShare {header : List UInt8} {difficulty : Option F}
    (hmain : w.main = .creditShare channelId share header difficulty) (now : Nat) :
    Inv env.hashes (w.creditShare env channelId share header difficulty now) := by
  have hidle : Inv env.hashes { w with main := .idle } := by
    refine hw.setIdle (by simp [hmain]) ?_ (by simp [newBlockPending, hmain])
    intro id h
    simp [AwaitsClean, hmain] at h
  have htip : w.jd.server.currentPrevHash = some (headerPrevHash header) := by
    rw [← (hw.inStep.settled (by simp [hmain])).2]
    exact hw.jobs.crediting _ _ _ _ hmain
  unfold World.creditShare
  simp only
  split
  · split
    · refine inv_credit (hw.sources.main share (by simp [hmain, MainLoop.share])) rfl ?_ hidle
      simp [htip]
    · exact hidle
  · exact hidle

theorem inv_mainStep {slow : List UInt32} (hnext : w.mainStep env now slow = some w') :
    Inv env.hashes w' := by
  unfold World.mainStep at hnext
  split at hnext
  · cases hnext
  · rename_i t hmain
    obtain ⟨hdone, rfl⟩ := of_guard_not hnext
    exact inv_updateTemplate hw hmain (by simpa using hdone)
  · rename_i cleanJobs hmain
    cases hnext
    refine hw.setMain (hw.registered.of_main (by simp))
      (hw.inStep.of_main (by simp [hmain]) (by simp)) (jobsCurrent_readSessions (hmain ▸ hw.jobs))
      (by simp [newBlockPending, hmain]) (by simp [MainLoop.share])
  · rename_i cleanJobs ids hmain
    cases hnext
    exact inv_createJobs hw hmain now
  · rename_i cleanJobs sent hmain
    cases hnext
    exact inv_dropSlow hw hmain slow
  · rename_i hmain
    cases hnext
    refine hw.setMain (hw.registered.of_main (by simp))
      (hw.inStep.of_main (by simp [hmain]) (by simp)) (hw.jobs.of_main ?_ (by simp) (by simp))
      (by simp [newBlockPending, hmain]) (by simp [MainLoop.share])
    intro id h
    simp [AwaitsClean, hmain] at h
  · rename_i active hmain
    cases hnext
    have hpruned := hw.setDetector (w.pool.detector.pruneInactive active)
    refine hpruned.setMain (hpruned.registered.of_main (by simp))
      (hpruned.inStep.of_main (by simp [hmain]) (by simp))
      (hpruned.jobs.of_main ?_ (by simp) (by simp))
      (by simp [newBlockPending, hmain]) (by simp [MainLoop.share])
    intro id h
    simp [AwaitsClean, hmain] at h
  · rename_i hmain
    cases hnext
    exact inv_clearSolutions hw hmain
  · rename_i channelId share hmain
    cases hnext
    exact inv_lookupJob hw hmain now
  · rename_i channelId share job template hmain
    cases hnext
    exact inv_validateShare hw hmain
  · rename_i channelId share header difficulty hmain
    cases hnext
    exact inv_creditShare hw hmain now

/-! ## Runs -/

theorem inv_jd {e : Jd.Event} (hnext : next env w (.jd e) = some w') : Inv env.hashes w' := by
  cases e with
  | newTemplate t => exact absurd hnext (by simp [next])
  | begin t req now =>
    obtain ⟨jd, hjd, rfl⟩ := Option.map_eq_some_iff.mp hnext
    obtain ⟨-, rfl⟩ := Jd.next_begin hjd
    exact inv_jdCall hw (w.jd.keeps_start now req) rfl rfl
  | resume t now =>
    obtain ⟨jd, hjd, rfl⟩ := Option.map_eq_some_iff.mp hnext
    obtain ⟨call, -, rfl⟩ := Jd.next_resume hjd
    exact inv_jdCall hw (w.jd.keeps_advance env.hashes env.jdConfig now call) rfl rfl
  | update =>
    obtain ⟨jd, hjd, rfl⟩ := Option.map_eq_some_iff.mp hnext
    obtain ⟨u, hu, rfl⟩ := Jd.next_update hjd
    exact inv_jdUpdate hw hu

theorem inv_submit {admitted : Bool}
    (hnext : next env w (.submit channelId share admitted) = some w') : Inv env.hashes w' := by
  simp only [next] at hnext
  split at hnext
  · rename_i hidle
    cases hnext
    refine hw.submit [share.solution] (hw.registered.of_main ?_) (hw.inStep.of_main ?_ ?_)
      (hw.jobs.of_main ?_ ?_ ?_) ?_ ?_ ?_
    · cases admitted <;> simp
    · simp [hidle]
    · cases admitted <;> simp
    · intro id h
      simp [AwaitsClean, hidle] at h
    · cases admitted <;> simp
    · cases admitted <;> simp
    · cases admitted <;> simp [newBlockPending, hidle]
    · cases admitted <;> simp [MainLoop.share]
    · intro thread call hcall s hs
      exact List.mem_append_left _ (hw.sources.batches thread call hcall s hs)
  · cases hnext

theorem inv_submitJd {msg : Jd.SubmitSharesJd}
    (hnext : next env w (.submitJd thread msg now) = some w') : Inv env.hashes w' := by
  obtain ⟨-, rfl⟩ := of_guard_not hnext
  refine hw.submit (msg.shares.map Jd.JdShare.solution) hw.registered hw.inStep hw.jobs rfl ?_ ?_
  · intro share hshare
    exact List.mem_append_left _ (hw.sources.main share hshare)
  · intro thread' call hcall s hs
    rcases Table.of_lookup_insert hcall with ⟨-, rfl⟩ | hcall
    · exact List.mem_append_right _ (List.mem_map_of_mem hs)
    · exact List.mem_append_left _ (hw.sources.batches thread' call hcall s hs)

theorem inv_setup {k : Nat} (hnext : next env w (.setup k now) = some w') : Inv env.hashes w' := by
  simp only [next] at hnext
  split at hnext
  · rename_i id hk
    cases hnext
    exact hw.setPool (registered_storeChannel hw.registered hk)
      (jobsCurrent_storeChannel hw.jobs k id) rfl
  · rename_i id hk
    cases hnext
    refine hw.setPool (registered_initialJob hw.registered hk now)
      (jobsCurrent_initialJob hw.jobs k id now) ?_
    unfold PoolState.initialJob
    repeat' split
    all_goals rfl
  · cases hnext

/-- **Every disciplined step keeps the invariant.** -/
theorem inv_step {e : Event} (hok : Disciplined w e) (hnext : next env w e = some w') :
    Inv env.hashes w' := by
  cases Step.of_next hnext with
  | jd => exact inv_jd hw hnext
  | template hidle hjd =>
    obtain ⟨-, rfl⟩ := Jd.next_newTemplate hjd
    exact inv_template hw hidle hok
  | submit => exact inv_submit hw hnext
  | main hnext => exact inv_mainStep hw hnext
  | @connect k =>
    exact hw.setPool (registered_connect hw.registered hok k) (jobsCurrent_connect hw.jobs k) rfl
  | storeChannel | initialJob => exact inv_setup hw hnext
  | @disconnect k id hk =>
    exact hw.setPool (registered_disconnect hw.registered hk)
      { jobsCurrent_drop hw.jobs [id] with } rfl
  | retarget channelId | @identify channelId =>
    exact hw.setPool (registered_modifyChannel hw.registered channelId _)
      (jobsCurrent_modifyChannel hw.jobs channelId fun _ => rfl) rfl
  | submitJd => exact inv_submitJd hw hnext
  | resumeJd hcall => exact inv_advanceBatch hw hcall hok

end

/-- **No pair of a header and a solution is credited twice** in a disciplined run with fewer
distinct solutions than the set has room for. -/
theorem credited_once {env : Env F} {w : World F} (h : Reach (next env) Disciplined Fresh w)
    (hfit : SolutionsFit w) : w.credits.Nodup := by
  have hw : Inv env.hashes w := by
    refine Reach.invariant ?_ ?_ h
    · rintro s ⟨persistent, rfl⟩
      exact inv_new env.hashes persistent
    · intro s e s' hs hok hnext
      exact inv_step hs hok hnext
  exact (hw.credits hfit).nodup

/-! ## Two runs -/

omit [Float64 F] in
theorem solutionsFit_of_few {w : World F} (h : w.submitted.length < maxCrossPathSolutions) :
    SolutionsFit w := Nat.lt_of_le_of_lt (List.dedup_sublist _).length_le h

def disciplined (w : World F) : Event → Bool
  | .template t => w.jd.server.currentPrevHash = some t.prevHash
      || w.credits.all fun c => headerPrevHash c.1 ≠ t.prevHash
  | .resumeJd thread _ =>
    match w.batches.lookup thread with
    | some (.credit _ _) => !newBlockPending w.pool.distributor w.main
    | _ => true
  | .connect _ => (w.pool.channels.lookup w.pool.nextChannelId).isNone
      && (w.pool.connections.entries.all fun e => e.2.channelId ≠ w.pool.nextChannelId)
      && match w.main with
        | .dropSlow _ sent => !sent.contains w.pool.nextChannelId
        | _ => true
  | _ => true

omit [Float64 F] in
theorem disciplined_of_test (w : World F) (e : Event) (h : disciplined w e = true) :
    Disciplined w e := by
  cases e with
  | template t =>
    intro hne c hc
    simp only [disciplined, Bool.or_eq_true, decide_eq_true_eq, List.all_eq_true] at h
    rcases h with h | h
    · exact absurd h hne
    · exact h c hc
  | resumeJd thread now =>
    intro b share hcall
    simpa [disciplined, hcall] using h
  | connect k =>
    simp only [disciplined, Bool.and_eq_true, List.all_eq_true, decide_eq_true_eq] at h
    obtain ⟨⟨hchannel, hconnections⟩, hsent⟩ := h
    refine ⟨by simpa using hchannel, ?_, ?_⟩
    · intro k' c hc
      exact hconnections _ (Table.mem_entries.mpr hc)
    · intro cleanJobs sent hmain
      simpa [hmain] using hsent
  | _ => trivial

/-- The template for which the plain coinbase can be declared. -/
def sampleBlock : BlockTemplate where
  version := 4
  prevHash := fun _ => 7
  merkleRoot := Jd.plainDigests.2
  blockCommitments := Jd.plainCoinbaseDigests.2
  time := 1700000000
  bits := 0x1d00ffff
  target := fun _ => 0
  transactions := []
  coinbase := Jd.plainWire.serialize
  chainHistoryRoot := fun _ => 1
  consensusBranchId := 0xc8e71055

def otherBlock : BlockTemplate := { sampleBlock with prevHash := fun _ => 8 }

def sampleNonce2 : List UInt8 := List.replicate 28 0

/-- The header of the first channel with that nonce. -/
def sampleHeader : List UInt8 :=
  headerBytes sampleBlock.version sampleBlock.prevHash sampleBlock.merkleRoot
    sampleBlock.blockCommitments sampleBlock.time sampleBlock.bits ([1, 0, 0, 0] ++ sampleNonce2)

/-- An Equihash solution for it. -/
def sampleSolution : List UInt8 :=
  [0x339a8b1d4c640273e3853afb583f18738b3d90e6ba106af34742049275289300,
    0x3696cbdcd67fe52c143d13f2419153791fd6e589d71f24f8def934f9595395c6,
    0xe0967879ad00abeed464fe11d0c41baa35c3bdd38cdbd88c328f6fd275811391,
    0x82304e42fc65ff446549875aa230542b2b09ff405fdd226dc2b818fcc93deebd,
    0xc3633ddd0d69d81d0889c78052986638d5ee4ed7f19ba117359e1db7a7eebd4b,
    0x34464a508de3056694f72cab680143393bf3e159f70181081c30bc94839bc0ed,
    0x47f0c258f79ab139ca1d49c5e80ef26b3cb0b9e98cc407bea575e24c7ad78437,
    0x441dac0ca44f77361a1a457f942af5f6e3bf8e0e9b146e5c1525225945dd5ecd,
    0x4b62198b0b571281929f3b6dcf940e43deda09b8251ac6b931256610dd66c404,
    0xc1e8a453528ad9df938cc51a75faf2e345de613ba68603ebd2285bc73a51ee26,
    0x86757c7aa353f8d6db73470d5cda6401e63cd3dff6b538e13974359945efaa1d,
    0xd9e0def9481c259db7aac1d26174b5d1776392fbd564ab412fab535327fc30e1,
    0x09b2f3e361e7d7720e57899a3ed3c15c2451f7720b7879bcf5062945b3041bb3,
    0xb7cb70b6bf8b12b7ee6cfc397c65a9c6b520fbfecbd1f39b206b4306f32c5d5c,
    0x9215fb4e709451a7abb75a4b06ddf046900889633f1a2aa3fd27de5a2388f8e1,
    0x89a725e5f5d64104e0c47b5a5543d045242d54ef6127811858d461d91b585b7e,
    0xaffd5d2158769a00c46a0439a49dbbe5743b29a2e37e29a3e52260d41be2c6e3,
    0x59037fd6e3f6643328fee6368895fe92318e23a540f05d12685954bf250acca7,
    0xc33e50d581ee4647de42ee7941dc5d47bbf794061d06ed812711356c223403f8,
    0xcdc2879d6ad998e8260995533998b96e36daada967bc570f1b6047ba5a2021db,
    0xf7395bf45273506a711df36ff0ea02182a1187470fd733ac0645b58b30e6f1e0,
    0x21f1fbae2a59a017aa55087115e89bf7189a60ab9cb1196321f0994fb1324401,
    0x29e62b56733a31f715808ba1e87207afdf4f2c06ff031c4912ad8ec17d4d280a,
    0xa7512616e77c925a481d7e0e6b91bdfb2c861046901b5533b1afe418715752a7,
    0xa710bfdf97bc04b1725af8f6128394efd00d8106ce960fac958c1e703cce50f2,
    0x4d95a78b1b3f7063736d97263146c937ffff2dd09d38b7a341739e844bb84d0a,
    0x7b8202e0ba3d91ff3a244bcadaa086e7d94b79671cf3760282b73aa5ccb2a3d1,
    0x7c3318517ca21d560326fd64d3046ce6ff482c4f18ba956b1389999a48cd5be5,
    0x76c8e2069c8f71ec2c8ab4528879976b46cf7d9867d5edb44be8926b8bc9a4b7,
    0xe67eff91f8d9113dce211766d2f930099a3b6992b9bc971e5292069dc3541eb1,
    0x2e73eb064177c43e0149a523e0f187d432074d041f3a21372321437bdc881577,
    0x190c4e84d100b9e6c347288ce5c6e602b43fff6cd4c67760d147050cfe94bb55,
    0x0e549507b4133cd2bb051b55f23ade4f33918b55d0a7bcacac481972aeb43242,
    0x0c7e81335813360def99ebb76a95cedb3bd9503bfa8b4e14c4089801ee9cb82e,
    0xff4f6985ea0334a3983750a6d5716a09f3120029adc85ac054c2e21aa315de2a,
    0xea02c343de166fc9b49acbf965c859ee78289dae7fe1d1e105db337285b5a6d3,
    0x7b132477369bbb08fc68b40a646e7172afafc60ec874f614fea00f3653878a19,
    0x98f869a2829c1e2b13daee76134607ac47dd114fccd976cdcd6464c6bd047eb6,
    0xd2533db3d103fccb2ac85ab87ae11576fe3ad83217441fc856f7b6315c0e3ed8,
    0x8b2dfca7957c49237702e99ac57921db5bc4380f7a68794f603596f9974165dc,
    0x3252a9fa542d5bd3b91304de7bd31ecac8dc329522e69c216a9f6b3d0290171a,
    0x69b89e8ba949edb48ac3355fcc0e8e1856a0b95d2eaf963bfd135a75c991ff52].flatMap (leBytes 32)

/-- SHA-256 of the solution, of its key for a declared job, and once and twice of the header with
the solution. -/
def solutionDigests : Bytes32 × Bytes32 × Bytes32 × Bytes32 :=
  (toBytes32 [0xa6, 0x7c, 0x03, 0x3a, 0x82, 0xd2, 0x44, 0xea, 0xa7, 0x5c, 0x6e, 0x34, 0x4b, 0x42,
    0x8c, 0x8d, 0xae, 0xdd, 0xeb, 0xf2, 0x44, 0x51, 0x26, 0x15, 0x2f, 0x35, 0xe7, 0x09, 0x31, 0x5c,
    0x40, 0xa0],
  toBytes32 [0x37, 0x72, 0x10, 0xd5, 0x9a, 0x86, 0xf1, 0xdd, 0x41, 0xb5, 0xad, 0x8f, 0xc4, 0x1b,
    0x2c, 0x7f, 0x2e, 0xfb, 0xe1, 0xc8, 0xb3, 0x7f, 0xae, 0xed, 0x8c, 0x75, 0x2c, 0x81, 0x2a, 0xc8,
    0x2d, 0x21],
  toBytes32 [0xbe, 0xe2, 0x75, 0xc1, 0x5f, 0xd7, 0x60, 0x46, 0xa9, 0x8a, 0x32, 0xe5, 0x20, 0x77,
    0x8a, 0x47, 0x33, 0xc9, 0xe7, 0xa1, 0x50, 0xd1, 0xd9, 0x6d, 0x6c, 0x5f, 0xb9, 0xcb, 0x8b, 0xf0,
    0x3a, 0x87],
  toBytes32 [0x16, 0x5e, 0x29, 0x58, 0x58, 0x70, 0x96, 0x7a, 0x0b, 0x4e, 0x04, 0x81, 0x56, 0x19,
    0x07, 0x0f, 0x36, 0x34, 0x8f, 0x95, 0x86, 0x64, 0x35, 0x56, 0xb1, 0x92, 0xa2, 0xf6, 0x9e, 0x39,
    0x7d, 0x9d])

/-- A pool on which these inputs are known. Difficulties are counted in units of `2⁻²⁹`, the
difficulty of the highest target. -/
def sampleEnv : Env Nat where
  hashes := .ofTables (Jd.plainSha256 ++ [(sampleSolution, solutionDigests.1),
      ([1] ++ List.replicate 31 0 ++ u32Bytes 1700000000 ++ sampleSolution.take 64,
        solutionDigests.2.1),
      (sampleHeader ++ scriptBytes sampleSolution, solutionDigests.2.2.1),
      (solutionDigests.2.2.1.toList, solutionDigests.2.2.2)])
    Jd.plainBlake2b
  isValidSolution input nonce solution :=
    input ++ nonce = sampleHeader && solution = sampleSolution
  hashShare nonce2 solution :=
    if nonce2 = sampleNonce2 ∧ solution = sampleSolution then 0xe603592b8b72afb6 else 0
  targetToDifficulty _ := 1
  jdConfig := Jd.sampleConfig
  nonce1Len := 4
  initialTarget := fun _ => 0xff

/-- A template for a new block is taken up, up to the clearing of the solutions. -/
def blockEvents (t : BlockTemplate) : List Event :=
  [.template t, .jd .update, .jd .update, .jd .update] ++ List.replicate 7 (.main 1 [])

/-- A miner connects. -/
def connectEvents : List Event := [.connect 0, .setup 0 1, .setup 0 1]

/-- The plain coinbase is declared for the block. -/
def declareEvents : List Event := (Jd.declareEvents sampleBlock.context).map .jd

/-- A client submits the solution for the declared job. -/
def submitJdEvents (jobId : UInt32) : List Event :=
  .submitJd 2 ⟨1, 1, jobId, [⟨4, 1700000000, toBytes32 [1], sampleSolution⟩]⟩ 1
    :: List.replicate 6 (.resumeJd 2 1)

/-- The miner submits the same solution on the pool path. -/
def submitEvents : List Event :=
  [.submit 1 ⟨1, 1, sampleNonce2, 1700000000, sampleSolution⟩ true, .main 1 [], .main 1 [],
    .main 1 []]

/-- The same solution on both paths, and then the next block. -/
theorem credited_once_both_paths :
    ∃ w : World Nat, Reach (next sampleEnv) Disciplined Fresh w ∧ SolutionsFit w
      ∧ w.credits.Nodup ∧ w.credits = [(sampleHeader, sampleSolution)]
      ∧ w.submitted = [sampleSolution, sampleSolution] := by
  have hrun : ∃ w : World Nat, Reach (next sampleEnv) Disciplined Fresh w
      ∧ decide (w.credits = [(sampleHeader, sampleSolution)]
        ∧ w.submitted = [sampleSolution, sampleSolution]) = true := by
    refine Reach.exists_of_exec disciplined disciplined_of_test (.new true) (fresh_new true)
      (connectEvents ++ Jd.allocateEvents.map .jd ++ blockEvents sampleBlock ++ declareEvents
        ++ submitJdEvents 1 ++ submitEvents ++ blockEvents otherBlock) ?_
    decide +kernel
  obtain ⟨w, hreach, hw⟩ := hrun
  obtain ⟨hcredits, hsubmitted⟩ := of_decide_eq_true hw
  have hfit : SolutionsFit w := solutionsFit_of_few (by simp [hsubmitted, maxCrossPathSolutions])
  exact ⟨w, hreach, hfit, credited_once hreach hfit, hcredits, hsubmitted⟩

/-- **The tip comes back.** A share is credited for a block; the next block clears the solutions;
the tip returns to the first block; the job is declared again, and the share credited again. -/
theorem returning_tip_credits_twice :
    ¬ ∀ (env : Env Nat) (w : World Nat), Reach (next env) Any Fresh w → SolutionsFit w →
      w.submitted.length < Jd.maxSeenSharesPerJob → w.submitted.length < maxSharesPerJob →
      (∀ s ∈ w.submitted, ∀ s' ∈ w.submitted, env.hashes.sha256 s = env.hashes.sha256 s' → s = s') →
      w.credits.Nodup := by
  have hrun : ∃ w : World Nat, Reach (next sampleEnv) Any Fresh w
      ∧ decide (w.credits = [(sampleHeader, sampleSolution), (sampleHeader, sampleSolution)]
        ∧ w.submitted = [sampleSolution, sampleSolution]) = true := by
    refine Reach.any_of_exec (World.new true) (fresh_new true)
      (Jd.allocateEvents.map .jd ++ blockEvents sampleBlock ++ declareEvents ++ submitJdEvents 1
        ++ blockEvents otherBlock ++ blockEvents sampleBlock ++ declareEvents ++ submitJdEvents 2) ?_
    decide +kernel
  obtain ⟨w, hreach, hw⟩ := hrun
  obtain ⟨hcredits, hsubmitted⟩ := of_decide_eq_true hw
  intro hall
  have hfit : SolutionsFit w := solutionsFit_of_few (by simp [hsubmitted, maxCrossPathSolutions])
  have hnodup := hall sampleEnv w hreach hfit (by simp [hsubmitted, Jd.maxSeenSharesPerJob])
    (by simp [hsubmitted, maxSharesPerJob]) (by simp [hsubmitted])
  rw [hcredits] at hnodup
  simp at hnodup

end MiningInfra.Pool
