import MiningInfra.Equihash.Target
import MiningInfra.Jd.Listener

/-!
# Shares that are blocks

A share whose hash meets the target of nBits is a block. Before the pool looks whether it is one,
it asks whether the share meets the share target of its job and whether the detector still takes
shares for that job; the declaring client asks for the share target as well. This module says
exactly which blocks get through.
-/

namespace MiningInfra.Pool

open Lib Coinbase Equihash

variable {F : Type} {header solution : List UInt8} {v : EquihashValidator}

/-! ## What validation does -/

/-- The keys recorded for a job. -/
def DuplicateDetector.keys (d : DuplicateDetector) (jobId : UInt32) : List UInt64 :=
  (d.lookup jobId).getD []

theorem DuplicateDetector.isSeen_iff (d : DuplicateDetector) (jobId : UInt32) (hash : UInt64) :
    d.isSeen jobId hash = true ↔ hash ∈ d.keys jobId := by
  rw [isSeen, DuplicateDetector.keys]
  cases d.lookup jobId with
  | none | some shares => simp

theorem DuplicateDetector.checkAndRecord_eq_false (d : DuplicateDetector) (jobId : UInt32)
    (hash : UInt64) : (d.checkAndRecord jobId hash).2 = false
      ↔ (d.keys jobId).length < maxSharesPerJob ∧ hash ∉ d.keys jobId := by
  simp only [checkAndRecord, DuplicateDetector.keys]
  split
  · rename_i h
    simp only [Bool.true_eq_false, false_iff, not_and, not_not]
    intro hroom
    exact h.resolve_left (Nat.not_le.mpr hroom)
  · rename_i h
    obtain ⟨hroom, hnew⟩ := not_or.mp h
    exact ⟨fun _ => ⟨Nat.not_le.mp hroom, hnew⟩, fun _ => rfl⟩

/-- The outcomes of `validate_share_with_job`, each with the checks that led to it. -/
inductive Validated (p : Primitives F) (d : DuplicateDetector) (share : SubmitEquihashShare)
    (job : NewEquihashJob) (blockTarget : Bytes32) :
    DuplicateDetector × Except String (ShareValidationResult F) → Prop where
  | seen : p.hashShare share.nonce2 share.solution ∈ d.keys share.jobId →
      Validated p d share job blockTarget (d, .ok (.reject .duplicate))
  | outOfTime : timeInRange job.time share.time = false →
      Validated p d share job blockTarget
        (d, .ok (.reject (.other "timestamp out of range")))
  | badNonce : job.shareHeader share = none →
      Validated p d share job blockTarget (d, .error "Invalid nonce_2 length")
  | taken {header : List UInt8} {hash : Bytes32} : job.shareHeader share = some header →
      p.verifyShare header share.solution job.target = .ok hash →
      (d.checkAndRecord share.jobId (p.hashShare share.nonce2 share.solution)).2 = true →
      Validated p d share job blockTarget
        ((d.checkAndRecord share.jobId (p.hashShare share.nonce2 share.solution)).1,
          .ok (.reject .duplicate))
  | accepted {header : List UInt8} {hash : Bytes32} : timeInRange job.time share.time = true →
      job.shareHeader share = some header →
      p.verifyShare header share.solution job.target = .ok hash →
      (d.checkAndRecord share.jobId (p.hashShare share.nonce2 share.solution)).2 = false →
      Validated p d share job blockTarget
        ((d.checkAndRecord share.jobId (p.hashShare share.nonce2 share.solution)).1,
          .ok ⟨.accepted, some (p.targetToDifficulty job.target),
            EquihashValidator.meetsTarget hash blockTarget⟩)
  | lowDifficulty {header : List UInt8} : job.shareHeader share = some header →
      p.verifyShare header share.solution job.target = .error .targetNotMet →
      Validated p d share job blockTarget
        ((d.checkAndRecord share.jobId (p.hashShare share.nonce2 share.solution)).1,
          .ok (.reject .lowDifficulty))
  | invalid {header : List UInt8} {e : ValidationError} : job.shareHeader share = some header →
      p.verifyShare header share.solution job.target = .error e → e ≠ .targetNotMet →
      Validated p d share job blockTarget (d, .ok (.reject .invalidSolution))

/-- **Validation, inverted.** -/
theorem validated (p : Primitives F) (d : DuplicateDetector) (share : SubmitEquihashShare)
    (job : NewEquihashJob) (blockTarget : Bytes32) :
    Validated p d share job blockTarget (validateShareWithJob p d share job blockTarget) := by
  simp only [validateShareWithJob]
  split
  · rename_i hseen
    exact .seen ((d.isSeen_iff _ _).mp hseen)
  · split
    · rename_i htime
      exact .outOfTime (by simpa using htime)
    · rename_i htime
      split
      · rename_i hnone
        exact .badNonce hnone
      · rename_i header hheader
        split
        · rename_i hash hverify
          split
          · rename_i htaken
            exact .taken hheader hverify htaken
          · rename_i hnew
            exact .accepted (by simpa using htime) hheader hverify (by simpa using hnew)
        · rename_i hverify
          exact .lowDifficulty hheader hverify
        · rename_i e hne hverify
          exact .invalid hheader hverify hne

/-! ## Blocks -/

/-- A share that is a block: its solution verifies, and its hash meets nBits. -/
structure FoundBlock (v : EquihashValidator) (header solution : List UInt8) (bits : UInt32) :
    Prop where
  valid : v.verifySolution header solution = .ok ()
  meets : value (v.computeSolutionHash header solution) ≤ value (compactToTarget bits)

/-- Whether such a share passes `verify_share` depends on the target it is held against. -/
theorem FoundBlock.verifyShare {bits : UInt32} (h : FoundBlock v header solution bits)
    (target : Bytes32) :
    v.verifyShare header solution target
      = if value (v.computeSolutionHash header solution) ≤ value target
        then .ok (v.computeSolutionHash header solution) else .error .targetNotMet := by
  rw [EquihashValidator.verifyShare, h.valid]
  simp only [EquihashValidator.meetsTarget_iff]

/-- Validation says that a share is a block. -/
def reportsBlock (r : Except String (ShareValidationResult F)) : Prop :=
  ∃ result, r = .ok result ∧ result.isBlock = true

/-- What a block needs to be reported by the pool. -/
theorem FoundBlock.reportsBlock_iff {p : Primitives F} {share : SubmitEquihashShare}
    {job : NewEquihashJob} (htime : timeInRange job.time share.time = true)
    (hheader : job.shareHeader share = some header)
    (h : FoundBlock p.toEquihashValidator header share.solution job.bits) (d : DuplicateDetector)
    (blockTarget : Bytes32) :
    reportsBlock (validateShareWithJob p d share job blockTarget).2
      ↔ p.hashShare share.nonce2 share.solution ∉ d.keys share.jobId
        ∧ (d.keys share.jobId).length < maxSharesPerJob
        ∧ value (p.computeSolutionHash header share.solution) ≤ value job.target
        ∧ value (p.computeSolutionHash header share.solution) ≤ value blockTarget := by
  have hverify := h.verifyShare job.target
  have hcase := validated p d share job blockTarget
  generalize validateShareWithJob p d share job blockTarget = out at hcase
  cases hcase with
  | seen hseen => simp [reportsBlock, ShareValidationResult.reject, hseen]
  | outOfTime hout => exact absurd (htime.symm.trans hout) (by simp)
  | badNonce hnone => exact absurd (hheader.symm.trans hnone) (by simp)
  | taken _ _ htaken =>
    constructor
    · rintro ⟨r, hr, hblock⟩
      injection hr with hr
      rw [← hr] at hblock
      exact absurd hblock (by simp [ShareValidationResult.reject])
    · rintro ⟨hnew, hroom, -⟩
      rw [(d.checkAndRecord_eq_false _ _).mpr ⟨hroom, hnew⟩] at htaken
      cases htaken
  | @accepted header' hash _ hheader' hok hnew =>
    obtain rfl : header = header' := Option.some.inj (hheader.symm.trans hheader')
    rw [hverify] at hok
    split at hok
    · rename_i hmeets
      injection hok with hok
      obtain ⟨hroom, hfresh⟩ := (d.checkAndRecord_eq_false _ _).mp hnew
      rw [← EquihashValidator.meetsTarget_iff _ blockTarget, hok]
      constructor
      · rintro ⟨r, hr, hblock⟩
        injection hr with hr
        rw [← hr] at hblock
        exact ⟨hfresh, hroom, hok ▸ hmeets, hblock⟩
      · rintro ⟨-, -, -, hblock⟩
        exact ⟨_, rfl, hblock⟩
    · cases hok
  | @lowDifficulty header' hheader' hlow =>
    obtain rfl : header = header' := Option.some.inj (hheader.symm.trans hheader')
    rw [hverify] at hlow
    split at hlow
    · cases hlow
    · rename_i hmisses
      simp [reportsBlock, ShareValidationResult.reject, hmisses]
  | @invalid header' e hheader' herror hne =>
    obtain rfl : header = header' := Option.some.inj (hheader.symm.trans hheader')
    rw [hverify] at herror
    split at herror
    · cases herror
    · injection herror with herror
      exact absurd herror.symm hne

/-- The declaring client reports a block exactly when it meets the share target it was granted. -/
theorem FoundBlock.client_reports_iff {job : Jd.Client.CurrentDeclaredJob} {time : UInt32}
    {nonce : Bytes32} (h : FoundBlock v (job.buildHeader time nonce) solution job.bits) :
    Jd.Client.verifyShare v job time nonce solution = .accepted nonce true
      ↔ value (v.computeSolutionHash (job.buildHeader time nonce) solution)
        ≤ value job.shareTarget := by
  have hblock := (EquihashValidator.meetsTarget_iff _ _).mpr h.meets
  rw [Jd.Client.verifyShare, h.verifyShare]
  split
  · rename_i hash hok
    split at hok
    · rename_i hmeets
      injection hok with hok
      rw [← hok, hblock]
      simpa using hmeets
    · cases hok
  · rename_i hlow
    split at hlow
    · cases hlow
    · rename_i hmisses
      simpa using hmisses
  · rename_i hne herror
    split at herror
    · cases herror
    · injection herror with herror
      exact absurd herror.symm hne

/-- **Which blocks are kept.** A share in the time window that is a block is reported as one by the
pool exactly when its key is not recorded for the job, fewer than `MAX_SHARES_PER_JOB` keys are,
and its hash meets the share target of the job and the block target of the template. The declaring
client reports a block exactly when it meets the share target. -/
theorem found_block_kept_iff :
    (∀ (p : Primitives F) (d : DuplicateDetector) (share : SubmitEquihashShare)
      (job : NewEquihashJob) (header : List UInt8) (blockTarget : Bytes32),
      timeInRange job.time share.time = true → job.shareHeader share = some header →
      FoundBlock p.toEquihashValidator header share.solution job.bits →
      (reportsBlock (validateShareWithJob p d share job blockTarget).2
        ↔ p.hashShare share.nonce2 share.solution ∉ d.keys share.jobId
          ∧ (d.keys share.jobId).length < maxSharesPerJob
          ∧ value (p.computeSolutionHash header share.solution) ≤ value job.target
          ∧ value (p.computeSolutionHash header share.solution) ≤ value blockTarget))
    ∧ ∀ (v : EquihashValidator) (job : Jd.Client.CurrentDeclaredJob) (time : UInt32)
      (nonce : Bytes32) (solution : List UInt8),
      FoundBlock v (job.buildHeader time nonce) solution job.bits →
      (Jd.Client.verifyShare v job time nonce solution = .accepted nonce true
        ↔ value (v.computeSolutionHash (job.buildHeader time nonce) solution)
          ≤ value job.shareTarget) :=
  ⟨fun _ d _ _ _ blockTarget htime hheader h => h.reportsBlock_iff htime hheader d blockTarget,
    fun _ _ _ _ _ h => h.client_reports_iff⟩

/-! ## A share target below the block target -/

/-- `2 ^ 228`, above the difficulty one of shares and below the easiest block of the test
network. -/
def sampleHash : Bytes32 := fun i => if i = 28 then 0x10 else 0

/-- Every solution verifies, and every header has the same hash. -/
def samplePrimitives : Primitives Nat where
  hashes := ⟨fun _ => sampleHash, fun _ _ => sampleHash⟩
  isValidSolution _ _ _ := true
  hashShare _ _ := 0
  targetToDifficulty _ := 1

/-- A job for the easiest block of the test network. -/
def easyJob (target : Bytes32) : NewEquihashJob where
  channelId := 1
  jobId := 1
  version := 4
  prevHash := fun _ => 0
  merkleRoot := fun _ => 0
  blockCommitments := fun _ => 0
  nonce1 := [1, 0, 0, 0]
  nonce2Len := 28
  time := 1700000000
  bits := 0x2007ffff
  target

/-- `Target::max_mainnet`, the target of difficulty one. -/
def difficultyOne : Bytes32 := fun i => if 29 ≤ i.val then 0 else if i.val = 28 then 7 else 0xff

def easyShare : SubmitEquihashShare :=
  ⟨1, 1, List.replicate 28 0, 1700000000, List.replicate 1344 0⟩

def easyHeader (target : Bytes32) : List UInt8 :=
  (easyJob target).buildHeader ([1, 0, 0, 0] ++ List.replicate 28 0)

def easyClientJob (shareTarget : Bytes32) : Jd.Client.CurrentDeclaredJob where
  jobId := 1
  version := 4
  prevHash := fun _ => 0
  merkleRoot := fun _ => 0
  blockCommitments := fun _ => 0
  time := 1700000000
  bits := 0x2007ffff
  shareTarget

theorem shareHeader_easy (target : Bytes32) :
    (easyJob target).shareHeader easyShare = some (easyHeader target) := by
  have hnonce : (easyJob target).buildNonce easyShare.nonce2
      = some ([1, 0, 0, 0] ++ List.replicate 28 0) := rfl
  rw [NewEquihashJob.shareHeader, hnonce, Option.map_some, NewEquihashJob.buildHeader,
    setTime_headerBytes, easyHeader, NewEquihashJob.buildHeader]
  congr 1

theorem verifySolution_sample (hlen : header.length = 140) :
    samplePrimitives.verifySolution header easyShare.solution = .ok () := by
  have hsolution : easyShare.solution.length = 1344 := List.length_replicate
  rw [EquihashValidator.verifySolution, if_neg (not_not.mpr hlen), if_neg (not_not.mpr hsolution)]
  rfl

theorem value_sampleHash_le : value sampleHash ≤ value (compactToTarget 0x2007ffff) := by
  decide +kernel

theorem foundBlock_easy (target : Bytes32) :
    FoundBlock samplePrimitives.toEquihashValidator (easyHeader target) easyShare.solution
      (easyJob target).bits := by
  refine ⟨verifySolution_sample ?_, value_sampleHash_le⟩
  rw [easyHeader, NewEquihashJob.buildHeader, length_headerBytes]
  rfl

theorem foundBlock_easyClient (shareTarget : Bytes32) :
    FoundBlock samplePrimitives.toEquihashValidator
      ((easyClientJob shareTarget).buildHeader 1700000000 fun _ => 0) easyShare.solution
      (easyClientJob shareTarget).bits := by
  refine ⟨verifySolution_sample ?_, value_sampleHash_le⟩
  rw [Jd.Client.CurrentDeclaredJob.buildHeader, length_headerBytes, length_toList]

/-- With the highest share target the block is reported on both sides. -/
theorem easy_block_kept :
    reportsBlock (validateShareWithJob samplePrimitives ∅ easyShare (easyJob fun _ => 0xff)
      (compactToTarget 0x2007ffff)).2
    ∧ Jd.Client.verifyShare samplePrimitives.toEquihashValidator (easyClientJob fun _ => 0xff)
      1700000000 (fun _ => 0) easyShare.solution = .accepted (fun _ => 0) true := by
  have hmax : value sampleHash ≤ value fun _ => 0xff := by decide +kernel
  constructor
  · refine (found_block_kept_iff.1 _ _ _ _ _ _ (by decide) (shareHeader_easy _)
      (foundBlock_easy _)).mpr ⟨by simp [DuplicateDetector.keys], ?_, hmax, value_sampleHash_le⟩
    simp [DuplicateDetector.keys, maxSharesPerJob]
  · exact ((found_block_kept_iff (F := Nat)).2 _ _ _ _ _ (foundBlock_easyClient _)).mpr hmax

/-- A detector that has taken all the shares it takes for a job. -/
def fullDetector : DuplicateDetector :=
  (∅ : DuplicateDetector).insert 1 (List.replicate maxSharesPerJob 1)

theorem keys_fullDetector : fullDetector.keys 1 = List.replicate maxSharesPerJob 1 := by
  rw [DuplicateDetector.keys, fullDetector, Table.lookup_insert_eq, if_pos rfl, Option.getD_some]

/-- **Blocks that are lost.** At difficulty one, the easiest block of the test network misses the
share target: the pool and the client answer that its difficulty is low. And at any share target,
a job that has its hundred thousand shares takes the block for a duplicate. -/
theorem found_block_lost :
    (¬ ∀ (p : Primitives Nat) (share : SubmitEquihashShare) (job : NewEquihashJob)
      (header : List UInt8), timeInRange job.time share.time = true →
      job.shareHeader share = some header →
      FoundBlock p.toEquihashValidator header share.solution job.bits →
      reportsBlock (validateShareWithJob p ∅ share job (compactToTarget job.bits)).2)
    ∧ (¬ ∀ (v : EquihashValidator) (job : Jd.Client.CurrentDeclaredJob) (time : UInt32)
      (nonce : Bytes32) (solution : List UInt8),
      FoundBlock v (job.buildHeader time nonce) solution job.bits →
      Jd.Client.verifyShare v job time nonce solution = .accepted nonce true)
    ∧ ¬ ∀ (p : Primitives Nat) (d : DuplicateDetector) (share : SubmitEquihashShare)
      (job : NewEquihashJob) (header : List UInt8), timeInRange job.time share.time = true →
      job.shareHeader share = some header →
      FoundBlock p.toEquihashValidator header share.solution job.bits →
      p.hashShare share.nonce2 share.solution ∉ d.keys share.jobId →
      (job.target = fun _ => 0xff) →
      reportsBlock (validateShareWithJob p d share job (compactToTarget job.bits)).2 := by
  have hmiss : ¬ value sampleHash ≤ value difficultyOne := by decide +kernel
  refine ⟨fun hall => ?_, fun hall => ?_, fun hall => ?_⟩
  · have hblock := hall samplePrimitives easyShare (easyJob difficultyOne) _ (by decide)
      (shareHeader_easy _) (foundBlock_easy _)
    rw [(foundBlock_easy _).reportsBlock_iff (by decide) (shareHeader_easy _)] at hblock
    exact hmiss hblock.2.2.1
  · have hblock := hall samplePrimitives.toEquihashValidator (easyClientJob difficultyOne)
      1700000000 (fun _ => 0) easyShare.solution (foundBlock_easyClient _)
    rw [(foundBlock_easyClient _).client_reports_iff] at hblock
    exact hmiss hblock
  · have hnew : samplePrimitives.hashShare easyShare.nonce2 easyShare.solution
        ∉ fullDetector.keys 1 := by
      rw [keys_fullDetector, List.mem_replicate]
      exact fun h => absurd h.2 (by decide)
    have hblock := hall samplePrimitives fullDetector easyShare (easyJob fun _ => 0xff) _
      (by decide) (shareHeader_easy _) (foundBlock_easy _) hnew rfl
    rw [(foundBlock_easy _).reportsBlock_iff (by decide) (shareHeader_easy _)] at hblock
    have hroom : (fullDetector.keys 1).length < maxSharesPerJob := hblock.2.1
    rw [keys_fullDetector, List.length_replicate] at hroom
    exact Nat.lt_irrefl _ hroom

end MiningInfra.Pool
