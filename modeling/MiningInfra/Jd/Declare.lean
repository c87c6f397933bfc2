import Mathlib.Data.Fintype.Pi
import MiningInfra.Coinbase.AuthDigest
import MiningInfra.Jd.Payout
import MiningInfra.Lib.Table

/-!
# Declaring a job

`handle_declare_job` with what it calls: the token manager, the check of the block hash
against the tip, and `validate_custom_job_request`. The handler is written as the
sections between its lock acquisitions, so that it can be run in one go
(`handleDeclareJob`) and cut into steps.

Times are counted from an arbitrary instant. A panic of a parser ends the handler.
-/

namespace MiningInfra.Jd

open Lib Coinbase

/-! ## Data -/

inductive JobDeclarationMode where
  | coinbaseOnly
  | fullTemplate
  deriving DecidableEq, Repr

structure DeclaredJobInfo where
  jobId : UInt32
  clientId : String
  mode : JobDeclarationMode
  channelId : UInt32
  version : UInt32
  prevHash : Bytes32
  merkleRoot : Bytes32
  blockCommitments : Bytes32
  bits : UInt32
  time : UInt32
  coinbaseTx : List UInt8
  shareTarget : Bytes32
  deriving DecidableEq

structure MiningJobToken where
  issuedAt : Nat
  lifetime : Nat
  clientId : String
  grantedMode : JobDeclarationMode
  jobInfo : Option DeclaredJobInfo
  deriving DecidableEq

def MiningJobToken.isExpired (token : MiningJobToken) (now : Nat) : Bool :=
  token.lifetime < now - token.issuedAt

/-- The configuration that tokens and declarations depend on. -/
structure JdServerConfig where
  coinbaseOutputMaxAdditionalSize : UInt32
  poolPayoutScript : List UInt8
  minPoolPayout : UInt64
  shareTarget : Bytes32
  tokenLifetime : Nat
  maxTokensPerClient : Nat

/-- `CurrentTemplateContext`. Its own `block_commitments` are never read. -/
structure TemplateContext where
  version : UInt32
  prevHash : Bytes32
  chainHistoryRoot : Bytes32
  consensusBranchId : UInt32
  bits : UInt32
  time : UInt32
  txids : List Bytes32
  coinbaseTxLen : Nat
  deriving DecidableEq

structure SetCustomMiningJob where
  channelId : UInt32
  requestId : UInt32
  miningJobToken : List UInt8
  version : UInt32
  prevHash : Bytes32
  merkleRoot : Bytes32
  blockCommitments : Bytes32
  coinbaseTx : List UInt8
  time : UInt32
  bits : UInt32
  deriving DecidableEq

structure SetCustomMiningJobSuccess where
  channelId : UInt32
  requestId : UInt32
  jobId : UInt32
  shareTarget : Bytes32
  deriving DecidableEq

inductive ErrorCode where
  | invalidToken
  | tokenExpired
  | invalidCoinbase
  | coinbaseConstraintViolation
  | stalePrevHash
  | invalidMerkleRoot
  | invalidVersion
  | invalidBits
  | other
  deriving DecidableEq, Repr

def ErrorCode.display : ErrorCode → String
  | .invalidToken => "invalid token"
  | .tokenExpired => "token expired"
  | .invalidCoinbase => "invalid coinbase"
  | .coinbaseConstraintViolation => "coinbase constraint violation"
  | .stalePrevHash => "stale previous hash"
  | .invalidMerkleRoot => "invalid merkle root"
  | .invalidVersion => "invalid version"
  | .invalidBits => "invalid bits"
  | .other => "other error"

structure SetCustomMiningJobError where
  channelId : UInt32
  requestId : UInt32
  errorCode : ErrorCode
  errorMessage : String
  deriving DecidableEq, Repr

/-- What the token manager answers, with its text. -/
inductive JdServerError where
  | invalidToken
  | tokenExpired
  | protocol (message : String)
  deriving DecidableEq, Repr

def JdServerError.display : JdServerError → String
  | .invalidToken => "Invalid token"
  | .tokenExpired => "Token expired"
  | .protocol message => "Protocol error: " ++ message

/-- The state of the server that declarations and template updates share. -/
structure JdState where
  tokens : Table (List UInt8) MiningJobToken
  tokenCounter : UInt64
  nextJobId : UInt32
  currentPrevHash : Option Bytes32
  currentTemplate : Option TemplateContext

/-! ## The token manager -/

abbrev Tokens := Table (List UInt8) MiningJobToken

def validateToken (tokens : Tokens) (now : Nat) (token : List UInt8) :
    Except JdServerError MiningJobToken :=
  match tokens.lookup token with
  | none => .error .invalidToken
  | some miningToken => if miningToken.isExpired now then .error .tokenExpired else .ok miningToken

def setJobInfo (tokens : Tokens) (now : Nat) (token : List UInt8) (jobInfo : DeclaredJobInfo) :
    Except JdServerError Tokens :=
  match tokens.lookup token with
  | none => .error .invalidToken
  | some miningToken =>
    if miningToken.isExpired now then .error .tokenExpired
    else .ok (tokens.insert token { miningToken with jobInfo := some jobInfo })

/-- `next_positive_job_id`: the id, and the counter behind it. -/
def nextPositiveJobId (counter : UInt32) : UInt32 × UInt32 :=
  let jobId := if counter = 0 ∨ 0xfffffffe < counter then 1 else counter
  (jobId, if 0xfffffffe ≤ jobId then 1 else jobId + 1)

/-! ## Checks against the template -/

section Checks

variable (hashes : Hashes) (config : JdServerConfig)

def computeTxid (data : List UInt8) : Bytes32 := hashes.sha256d data

/-- The node the index loop of `merkle_root_from_txids` hashes. -/
def txidNode (left right : Bytes32) : Bytes32 := computeTxid hashes (left.toList ++ right.toList)

def merkleRootFromTxids (txids : List Bytes32) : Bytes32 :=
  (Merkle.collapse (Merkle.indexLevel (txidNode hashes)) txids.length txids).head?.getD fun _ => 0

def computeMerkleRoot (coinbase : List UInt8) (txids : List Bytes32) : Option Bytes32 :=
  if coinbase = [] then none
  else some (merkleRootFromTxids hashes (computeTxid hashes coinbase :: txids))

def recomputeCoinbaseOnlyBlockCommitments (coinbaseTx : List UInt8) (chainHistoryRoot : Bytes32)
    (consensusBranchId : UInt32) : Outcome String Bytes32 := do
  let parsed ← (Coinbase.parseTransaction coinbaseTx .init).1.mapErr fun e =>
    "declared coinbase cannot be parsed for commitments: " ++ e.display
  Outcome.failIf (parsed.inputs = []) "declared coinbase has no transparent inputs for commitments"
  let scriptSigs := parsed.inputs.flatMap TxIn.scriptSig
  let coinbaseDigest := hashes.computeCoinbaseAuthDigest scriptSigs consensusBranchId
  match hashes.computeAuthDataRoot [coinbaseDigest] with
  | none => .panic
  | some authDataRoot => .ok (hashes.calculateBlockCommitmentsHash chainHistoryRoot authDataRoot)

namespace SetCustomMiningJob

def reject (request : SetCustomMiningJob) (code : ErrorCode) (message : String) :
    SetCustomMiningJobError := ⟨request.channelId, request.requestId, code, message⟩

def validate (request : SetCustomMiningJob) : Except ErrorCode Unit :=
  if request.miningJobToken = [] then .error .invalidToken
  else if request.coinbaseTx = [] then .error .invalidCoinbase
  else .ok ()

end SetCustomMiningJob

/-- `validate_header_fields` on the template that was read. -/
def validateHeaderFields (template : Option TemplateContext) (request : SetCustomMiningJob) :
    Outcome SetCustomMiningJobError Unit :=
  match template with
  | none => .ok ()
  | some t => do
    Outcome.failIf (request.version ≠ t.version)
      (request.reject .invalidVersion "block version does not match current template")
    Outcome.failIf (request.bits ≠ t.bits)
      (request.reject .invalidBits "difficulty bits do not match current template")
    Outcome.failIf (request.time.toNat < t.time.toNat - 60
        ∨ min (t.time.toNat + 7200) 0xffffffff < request.time.toNat)
      (request.reject .other "template time is out of range")

/-- The checks that need a template: length, merkle root, commitments. -/
def validateAgainstTemplate (t : TemplateContext) (request : SetCustomMiningJob) :
    Outcome SetCustomMiningJobError Unit := do
  let maxCoinbaseLen := t.coinbaseTxLen + config.coinbaseOutputMaxAdditionalSize.toNat
  Outcome.failIf (maxCoinbaseLen < request.coinbaseTx.length)
    (request.reject .coinbaseConstraintViolation ("coinbase length "
      ++ toString request.coinbaseTx.length ++ " exceeds maximum " ++ toString maxCoinbaseLen))
  let expectedMerkleRoot ← Outcome.ofOption
    (request.reject .invalidCoinbase "coinbase transaction is empty")
    (computeMerkleRoot hashes request.coinbaseTx t.txids)
  Outcome.failIf (expectedMerkleRoot ≠ request.merkleRoot)
    (request.reject .invalidMerkleRoot "merkle root does not match pool transaction set")
  let expectedBlockCommitments ← (recomputeCoinbaseOnlyBlockCommitments hashes request.coinbaseTx
    t.chainHistoryRoot t.consensusBranchId).mapErr (request.reject .other)
  Outcome.failIf (expectedBlockCommitments ≠ request.blockCommitments)
    (request.reject .other
      "declared block commitments do not verify against declared coinbase and chain tip")

/-- The part of `validate_custom_job_request` that needs no lock on the template. -/
def validateDeclaredCoinbase (template : Option TemplateContext) (request : SetCustomMiningJob) :
    Outcome SetCustomMiningJobError Unit := do
  (TemplateValidator.validateCoinbase ⟨config.poolPayoutScript, config.minPoolPayout⟩
    request.coinbaseTx).mapErr (request.reject .coinbaseConstraintViolation)
  match template with
  | none => .ok ()
  | some t => validateAgainstTemplate hashes config t request

/-- `validate_custom_job_request` on the template that was read. -/
def validateCustomJobRequest (template : Option TemplateContext) (request : SetCustomMiningJob) :
    Outcome SetCustomMiningJobError Unit := do
  validateHeaderFields template request
  validateDeclaredCoinbase hashes config template request

end Checks

/-! ## The handler -/

def fullTemplateUnavailable : String :=
  "FullTemplate is unavailable: current-version consensus transaction parsing, selected-fee payout authorization and commitment validation are not implemented"

/-- The request by itself and its token. -/
def checkToken (tokens : Tokens) (now : Nat) (request : SetCustomMiningJob) :
    Outcome SetCustomMiningJobError MiningJobToken :=
  match request.validate with
  | .error code => .err (request.reject code ("Validation failed: " ++ code.display))
  | .ok () =>
    match validateToken tokens now request.miningJobToken with
    | .error .invalidToken =>
      .err (request.reject .invalidToken "Invalid or unknown mining job token")
    | .error .tokenExpired => .err (request.reject .tokenExpired "Mining job token has expired")
    | .error e => .err (request.reject .other ("Token validation error: " ++ e.display))
    | .ok token =>
      if token.grantedMode = .fullTemplate then
        .err (request.reject .other fullTemplateUnavailable)
      else .ok token

def checkTip (currentPrevHash : Option Bytes32) (request : SetCustomMiningJob) :
    Outcome SetCustomMiningJobError Unit :=
  match currentPrevHash with
  | some expectedPrevHash =>
    Outcome.failIf (request.prevHash ≠ expectedPrevHash)
      (request.reject .stalePrevHash "Previous block hash does not match current chain tip")
  | none => .err (request.reject .stalePrevHash "Server has not received a block template yet")

def declaredJob (config : JdServerConfig) (request : SetCustomMiningJob) (token : MiningJobToken)
    (jobId : UInt32) : DeclaredJobInfo where
  jobId := jobId
  clientId := token.clientId
  mode := token.grantedMode
  channelId := request.channelId
  version := request.version
  prevHash := request.prevHash
  merkleRoot := request.merkleRoot
  blockCommitments := request.blockCommitments
  bits := request.bits
  time := request.time
  coinbaseTx := request.coinbaseTx
  shareTarget := config.shareTarget

/-- Store the job with its token. A failure leaves the tokens as they are. -/
def storeJob (config : JdServerConfig) (tokens : Tokens) (now : Nat) (request : SetCustomMiningJob)
    (token : MiningJobToken) (jobId : UInt32) :
    Tokens × Outcome SetCustomMiningJobError SetCustomMiningJobSuccess :=
  match setJobInfo tokens now request.miningJobToken (declaredJob config request token jobId) with
  | .error e =>
    (tokens, .err (request.reject .other ("Failed to store job info: " ++ e.display)))
  | .ok tokens' => (tokens', .ok ⟨request.channelId, request.requestId, jobId, config.shareTarget⟩)

/-- Everything before a job id is taken. -/
def declareChecks (hashes : Hashes) (config : JdServerConfig) (s : JdState) (now : Nat)
    (request : SetCustomMiningJob) : Outcome SetCustomMiningJobError MiningJobToken := do
  let token ← checkToken s.tokens now request
  checkTip s.currentPrevHash request
  validateCustomJobRequest hashes config s.currentTemplate request
  pure token

/-- `handle_declare_job` with nothing in between. -/
def handleDeclareJob (hashes : Hashes) (config : JdServerConfig) (s : JdState) (now : Nat)
    (request : SetCustomMiningJob) :
    JdState × Outcome SetCustomMiningJobError SetCustomMiningJobSuccess :=
  match declareChecks hashes config s now request with
  | .err e => (s, .err e)
  | .panic => (s, .panic)
  | .ok token =>
    let id := nextPositiveJobId s.nextJobId
    let stored := storeJob config s.tokens now request token id.1
    ({ s with tokens := stored.1, nextJobId := id.2 }, stored.2)

/-- The job that a successful declaration leaves with its token. -/
def acceptedJob (hashes : Hashes) (config : JdServerConfig) (s : JdState) (now : Nat)
    (request : SetCustomMiningJob) : Option DeclaredJobInfo :=
  match handleDeclareJob hashes config s now request with
  | (s', .ok _) => (s'.tokens.lookup request.miningJobToken).bind MiningJobToken.jobInfo
  | _ => none

/-! ## What an accepted declaration has passed -/

/-- The declared fields agree with the template. -/
structure MatchesTemplate (hashes : Hashes) (config : JdServerConfig) (t : TemplateContext)
    (request : SetCustomMiningJob) : Prop where
  version : request.version = t.version
  bits : request.bits = t.bits
  timeFrom : t.time.toNat - 60 ≤ request.time.toNat
  timeTo : request.time.toNat ≤ min (t.time.toNat + 7200) 0xffffffff
  length : request.coinbaseTx.length
    ≤ t.coinbaseTxLen + config.coinbaseOutputMaxAdditionalSize.toNat
  merkleRoot : computeMerkleRoot hashes request.coinbaseTx t.txids = some request.merkleRoot
  commitments : recomputeCoinbaseOnlyBlockCommitments hashes request.coinbaseTx t.chainHistoryRoot
    t.consensusBranchId = .ok request.blockCommitments

variable {hashes : Hashes} {config : JdServerConfig}

variable {t : TemplateContext} {request : SetCustomMiningJob} {tokens : Tokens} {now : Nat}
  {token : MiningJobToken} {success : SetCustomMiningJobSuccess} {s : JdState}
  {job : DeclaredJobInfo} {p : ParsedTx} {rest data : List UInt8}

/-- **What a request is checked for when there is a template.** -/
theorem validateCustomJobRequest_some_iff :
    validateCustomJobRequest hashes config (some t) request = .ok () ↔
      MatchesTemplate hashes config t request
        ∧ TemplateValidator.validateCoinbase ⟨config.poolPayoutScript, config.minPoolPayout⟩
          request.coinbaseTx = .ok () := by
  simp only [validateCustomJobRequest, validateHeaderFields, validateDeclaredCoinbase,
    validateAgainstTemplate, Outcome.bind_eq_ok, Outcome.failIf_eq_ok, Outcome.mapErr_eq_ok,
    Outcome.ofOption_eq_ok]
  constructor
  · rintro ⟨_, ⟨_, hversion, _, hbits, htime⟩, _, hcoinbase, _, hlen, root, hroot, _, heq, c, hc,
      hceq⟩
    refine ⟨⟨not_not.mp hversion, not_not.mp hbits, by omega, by omega, by omega, ?_, ?_⟩, hcoinbase⟩
    · rw [hroot, not_not.mp heq]
    · rw [hc, not_not.mp hceq]
  · rintro ⟨⟨hversion, hbits, hfrom, hto, hlen, hroot, hc⟩, hcoinbase⟩
    exact ⟨(), ⟨(), not_not.mpr hversion, (), not_not.mpr hbits, by omega⟩, (), hcoinbase, (),
      by omega, _, hroot, (), not_not.mpr rfl, _, hc, not_not.mpr rfl⟩

theorem checkTip_eq_ok {tip : Option Bytes32} :
    checkTip tip request = .ok () ↔ tip = some request.prevHash := by
  cases tip with
  | none => simp [checkTip]
  | some p =>
    rw [checkTip, Outcome.failIf_eq_ok, not_not, Option.some.injEq]
    exact eq_comm

/-- A stored job is the declared one. -/
theorem lookup_storeJob {jobId : UInt32}
    (h : (storeJob config tokens now request token jobId).2 = .ok success) :
    ∃ t, (storeJob config tokens now request token jobId).1.lookup request.miningJobToken = some t
      ∧ t.jobInfo = some (declaredJob config request token jobId) := by
  unfold storeJob setJobInfo at *
  cases htoken : tokens.lookup request.miningJobToken with
  | none => simp [htoken] at h
  | some t =>
    by_cases hexpired : t.isExpired now = true
    · simp [htoken, hexpired] at h
    · simp only [hexpired]
      exact ⟨_, AList.lookup_insert tokens, rfl⟩

/-- **What an accepted declaration leaves behind**: a job with the declared fields, all of which
passed against the template that stood. -/
theorem acceptedJob_eq_some (h : acceptedJob hashes config s now request = some job) :
    ∃ token jobId, job = declaredJob config request token jobId
      ∧ s.currentPrevHash = some request.prevHash
      ∧ validateCustomJobRequest hashes config s.currentTemplate request = .ok () := by
  unfold acceptedJob handleDeclareJob at h
  cases hchecks : declareChecks hashes config s now request with
  | err e | panic => simp [hchecks] at h
  | ok token =>
    simp only [hchecks] at h
    cases hstore : (storeJob config s.tokens now request token
        (nextPositiveJobId s.nextJobId).1).2 with
    | err e | panic => simp [hstore] at h
    | ok success =>
      obtain ⟨t, hlookup, hjob⟩ := lookup_storeJob hstore
      simp only [hstore, hlookup, Option.bind_some, hjob, Option.some.injEq] at h
      simp only [declareChecks, Outcome.bind_eq_ok] at hchecks
      obtain ⟨_, -, _, htip, _, hvalid, -⟩ := hchecks
      exact ⟨token, _, h.symm, checkTip_eq_ok.mp htip, hvalid⟩

theorem grantedMode_of_checkToken (h : checkToken tokens now request = .ok token) :
    token.grantedMode ≠ .fullTemplate := by
  unfold checkToken at h
  cases hrequest : request.validate with
  | error code => simp [hrequest] at h
  | ok _ =>
    cases htoken : validateToken tokens now request.miningJobToken with
    | error e => cases e <;> simp [hrequest, htoken] at h
    | ok found =>
      by_cases hmode : found.grantedMode = .fullTemplate
      · simp [hrequest, htoken, hmode] at h
      · simp only [hrequest, htoken, hmode, if_false] at h
        cases h
        exact hmode

/-- A success names the job that was stored. -/
theorem acceptedJob_of_success
    (h : (handleDeclareJob hashes config s now request).2 = .ok success) :
    ∃ token, token.grantedMode ≠ .fullTemplate
      ∧ success = ⟨request.channelId, request.requestId, success.jobId, config.shareTarget⟩
      ∧ acceptedJob hashes config s now request
        = some (declaredJob config request token success.jobId) := by
  unfold acceptedJob
  unfold handleDeclareJob at h ⊢
  cases hchecks : declareChecks hashes config s now request with
  | err e | panic => simp [hchecks] at h
  | ok token =>
    simp only [hchecks] at h ⊢
    obtain ⟨t, hlookup, hjob⟩ := lookup_storeJob h
    have hsuccess : success = ⟨request.channelId, request.requestId,
        (nextPositiveJobId s.nextJobId).1, config.shareTarget⟩ := by
      unfold storeJob at h
      cases hset : setJobInfo s.tokens now request.miningJobToken
          (declaredJob config request token (nextPositiveJobId s.nextJobId).1) with
      | error e => simp [hset] at h
      | ok tokens =>
        simp only [hset] at h
        cases h
        rfl
    rw [h]
    subst hsuccess
    simp only [declareChecks, Outcome.bind_eq_ok] at hchecks
    obtain ⟨checked, htoken, _, -, _, -, hpure⟩ := hchecks
    cases hpure
    exact ⟨token, grantedMode_of_checkToken htoken, rfl, by
      simp only [hlookup, Option.bind_some, hjob]⟩

theorem success_of_acceptedJob (h : acceptedJob hashes config s now request = some job) :
    (handleDeclareJob hashes config s now request).2
      = .ok ⟨request.channelId, request.requestId, job.jobId, config.shareTarget⟩ := by
  have haccepted := h
  unfold acceptedJob at h
  split at h
  · rename_i s' success heq
    have hok : (handleDeclareJob hashes config s now request).2 = .ok success := by rw [heq]
    obtain ⟨token, -, hsuccess, hjob⟩ := acceptedJob_of_success hok
    rw [haccepted] at hjob
    rw [hok, hsuccess, Option.some.inj hjob]
    rfl
  · cases h

/-- A declaration with a live token that passes every check is accepted. -/
theorem acceptedJob_of_valid (htoken : s.tokens.lookup request.miningJobToken = some token)
    (hlive : token.isExpired now = false) (hmode : token.grantedMode = .coinbaseOnly)
    (hname : request.miningJobToken ≠ []) (hbytes : request.coinbaseTx ≠ [])
    (htip : s.currentPrevHash = some request.prevHash)
    (hvalid : validateCustomJobRequest hashes config s.currentTemplate request = .ok ()) :
    acceptedJob hashes config s now request
      = some (declaredJob config request token (nextPositiveJobId s.nextJobId).1) := by
  have hcheck : checkToken s.tokens now request = .ok token := by
    simp [checkToken, SetCustomMiningJob.validate, hname, hbytes, validateToken, htoken, hlive, hmode]
  have hchecks : declareChecks hashes config s now request = .ok token := by
    simp only [declareChecks, Outcome.bind_eq_ok]
    exact ⟨token, hcheck, (), checkTip_eq_ok.mpr htip, (), hvalid, rfl⟩
  have hstore : setJobInfo s.tokens now request.miningJobToken
      (declaredJob config request token (nextPositiveJobId s.nextJobId).1)
      = .ok (s.tokens.insert request.miningJobToken { token with
        jobInfo := some (declaredJob config request token (nextPositiveJobId s.nextJobId).1) }) := by
    simp [setJobInfo, htoken, hlive]
  simp [acceptedJob, handleDeclareJob, hchecks, storeJob, hstore]

/-! ## A declaration made for the template -/

/-- The request for a coinbase that reads as these inputs: every other field as the template has
it, the merkle root and the commitments as the server computes them. -/
def requestFor (hashes : Hashes) (t : TemplateContext) (token coinbaseTx : List UInt8)
    (inputs : List TxIn) : SetCustomMiningJob where
  channelId := 1
  requestId := 1
  miningJobToken := token
  version := t.version
  prevHash := t.prevHash
  merkleRoot := merkleRootFromTxids hashes (computeTxid hashes coinbaseTx :: t.txids)
  blockCommitments := hashes.calculateBlockCommitmentsHash t.chainHistoryRoot
    (hashes.computeCoinbaseAuthDigest (inputs.flatMap TxIn.scriptSig) t.consensusBranchId)
  coinbaseTx := coinbaseTx
  time := t.time
  bits := t.bits

theorem recompute_of_decodes (hdata : data.length * 8 ≤ isizeMax)
    (h : v4Order data data = some (p, rest)) (hinputs : p.inputs ≠ []) (root : Bytes32)
    (branchId : UInt32) :
    recomputeCoinbaseOnlyBlockCommitments hashes data root branchId
      = .ok (hashes.calculateBlockCommitmentsHash root
        (hashes.computeCoinbaseAuthDigest (p.inputs.flatMap TxIn.scriptSig) branchId)) := by
  have hparse := (parseTransaction_ok_iff hdata p).mpr ⟨rest, h⟩
  simp only [recomputeCoinbaseOnlyBlockCommitments, hparse, Outcome.mapErr, Outcome.bind_eq_ok,
    Outcome.failIf_eq_ok]
  exact ⟨p, rfl, (), hinputs, rfl⟩

/-- **Such a request is accepted** when the coinbase pays the pool and is not too long. -/
theorem acceptedJob_requestFor {name : List UInt8} (hdata : data.length * 8 ≤ isizeMax)
    (hlen : data.length ≤ t.coinbaseTxLen + config.coinbaseOutputMaxAdditionalSize.toNat)
    (hscript : config.poolPayoutScript ≠ []) (h : v4Order data data = some (p, rest))
    (hinputs : p.inputs ≠ [])
    (hpays : PaysPool config.poolPayoutScript config.minPoolPayout p.outputs)
    (htoken : s.tokens.lookup name = some token) (hname : name ≠ [])
    (hlive : token.isExpired now = false) (hmode : token.grantedMode = .coinbaseOnly)
    (htip : s.currentPrevHash = some t.prevHash) (htemplate : s.currentTemplate = some t) :
    acceptedJob hashes config s now (requestFor hashes t name data p.inputs)
      = some (declaredJob config (requestFor hashes t name data p.inputs) token
        (nextPositiveJobId s.nextJobId).1) := by
  have hbytes : data ≠ [] := by
    rintro rfl
    exact absurd h (by simp [v4Order, u32, Decoder.bind_run, Decoder.bytes])
  have hcoinbase : TemplateValidator.validateCoinbase
      ⟨config.poolPayoutScript, config.minPoolPayout⟩ data = .ok () :=
    (validateCoinbase_ok_iff _ hscript hdata).mpr ⟨p, rest, h, hpays⟩
  refine acceptedJob_of_valid htoken hlive hmode hname hbytes htip ?_
  rw [htemplate, validateCustomJobRequest_some_iff]
  refine ⟨⟨rfl, rfl, ?_, ?_, hlen, ?_, recompute_of_decodes hdata h hinputs _ _⟩, hcoinbase⟩
  · exact Nat.sub_le _ _
  · have := t.time.toNat_lt
    show t.time.toNat ≤ min (t.time.toNat + 7200) 0xffffffff
    omega
  · exact if_neg hbytes

/-- A server that holds this template and one token, `01`. -/
def sampleServer (t : TemplateContext) : JdState where
  tokens := (∅ : Tokens).insert [0x01] ⟨0, 300, "miner", .coinbaseOnly, none⟩
  tokenCounter := 2
  nextJobId := 1
  currentPrevHash := some t.prevHash
  currentTemplate := some t

def sampleConfig : JdServerConfig := ⟨4096, [0x51], 100, fun _ => 0xff, 300, 10⟩

def sampleTemplate (txids : List Bytes32) : TemplateContext where
  version := 4
  prevHash := fun _ => 7
  chainHistoryRoot := fun _ => 1
  consensusBranchId := 0xc8e71055
  bits := 0x1d00ffff
  time := 1700000000
  txids := txids
  coinbaseTxLen := 200

def sampleRequest (hashes : Hashes) (txids : List Bytes32) (data : List UInt8)
    (inputs : List TxIn) : SetCustomMiningJob :=
  requestFor hashes (sampleTemplate txids) [0x01] data inputs

def sampleJob (hashes : Hashes) (txids : List Bytes32) (data : List UInt8) (inputs : List TxIn) :
    DeclaredJobInfo :=
  declaredJob sampleConfig (sampleRequest hashes txids data inputs)
    ⟨0, 300, "miner", .coinbaseOnly, none⟩ 1

/-- A plain version 4 coinbase. -/
def plainWire : WireTransaction := ⟨sampleCoinbase .v4, by decide +kernel⟩

/-- The first and the second SHA-256 of the version 4 coinbase. -/
def plainDigests : Bytes32 × Bytes32 :=
  (toBytes32 [0x3f, 0x96, 0xd4, 0x72, 0xd1, 0x15, 0xf3, 0xde, 0x5d, 0xcc, 0x27, 0x1f, 0xbc, 0x3c,
    0x43, 0x98, 0xca, 0xc8, 0xde, 0xd3, 0xd2, 0x0e, 0x72, 0x46, 0x81, 0x0d, 0xf6, 0xa3, 0x2e, 0x4e,
    0x6b, 0xc7],
  toBytes32 [0x4c, 0x21, 0xcd, 0xa1, 0x5e, 0x27, 0x15, 0x61, 0x4e, 0xb3, 0xf7, 0x87, 0xaf, 0x54,
    0x67, 0xde, 0xee, 0xcb, 0xc2, 0xec, 0xad, 0xaf, 0xc4, 0xab, 0x34, 0x11, 0xc5, 0xb4, 0x5c, 0x3a,
    0xdc, 0x27])

/-- BLAKE2b of the parts of the coinbase digest: transparent, Sapling, Orchard. -/
def plainPartDigests : Bytes32 × Bytes32 × Bytes32 :=
  (toBytes32 [0x7c, 0x29, 0x60, 0x0e, 0x8a, 0x9c, 0xd7, 0xb0, 0x08, 0x96, 0x69, 0x85, 0xec, 0xb1,
    0xd1, 0x77, 0x7f, 0xcc, 0xac, 0xf6, 0x1c, 0x23, 0xf9, 0x7d, 0x9a, 0xf3, 0xed, 0xac, 0x77, 0xc4,
    0xef, 0x57],
  toBytes32 [0x6e, 0x1d, 0xd2, 0x1e, 0x20, 0x16, 0x43, 0xd5, 0xb4, 0x4d, 0xd3, 0x03, 0xae, 0x32,
    0x4e, 0xc5, 0xd1, 0x68, 0xfd, 0x61, 0x5a, 0x14, 0x1b, 0xbd, 0x42, 0x1b, 0x31, 0xb2, 0x5a, 0x60,
    0x8a, 0x50],
  toBytes32 [0x2a, 0x14, 0x47, 0x2c, 0xdd, 0x35, 0x55, 0x46, 0x36, 0x93, 0xad, 0x2b, 0x52, 0xba,
    0xb2, 0x64, 0x26, 0xac, 0x95, 0x3f, 0xcf, 0x31, 0x31, 0x52, 0xf5, 0x6b, 0xee, 0x7e, 0xb5, 0x3b,
    0x2b, 0x94])

/-- The digest of the plain coinbase on the NU6 branch, and the commitments over it. -/
def plainCoinbaseDigests : Bytes32 × Bytes32 :=
  (toBytes32 [0x90, 0xde, 0x2e, 0x96, 0x43, 0x08, 0xc4, 0x94, 0x12, 0x42, 0xfe, 0xf6, 0xf8, 0xdf,
    0x6a, 0xcd, 0x17, 0x13, 0xb5, 0x89, 0x8a, 0xe3, 0x0f, 0x2a, 0xc6, 0xc5, 0x7d, 0x81, 0x50, 0xa7,
    0x8e, 0x7a],
  toBytes32 [0xc5, 0x21, 0x09, 0x22, 0xcc, 0xa9, 0x50, 0x21, 0xef, 0x0e, 0xe5, 0x07, 0x29, 0xaa,
    0x07, 0x26, 0xfc, 0x55, 0xe4, 0xaf, 0x72, 0x4a, 0xd9, 0xfe, 0x14, 0xaa, 0x01, 0x37, 0x5c, 0x85,
    0xda, 0x0c])

/-- What is hashed for it, and the digests. -/
def plainSha256 : List (List UInt8 × Bytes32) :=
  [(plainWire.serialize, plainDigests.1), (plainDigests.1.toList, plainDigests.2)]

def plainBlake2b : List ((List UInt8 × List UInt8) × Bytes32) :=
  [((transparentAuthPersonalization, [0x02, 0x10, 0x27]), plainPartDigests.1),
    ((saplingAuthPersonalization, noAuthData), plainPartDigests.2.1),
    ((orchardAuthPersonalization, noAuthData), plainPartDigests.2.2),
    ((Hashes.authPersonalization 0xc8e71055, plainPartDigests.1.toList
      ++ plainPartDigests.2.1.toList ++ plainPartDigests.2.2.toList), plainCoinbaseDigests.1),
    ((blockCommitPersonalization, Hashes.commitmentsData (fun _ => 1) plainCoinbaseDigests.1),
      plainCoinbaseDigests.2)]

def plainHashes : Hashes := .ofTables plainSha256 plainBlake2b

/-- The server takes the plain coinbase, whatever the template holds. -/
theorem plain_accepted (hashes : Hashes) (txids : List Bytes32) :
    acceptedJob hashes sampleConfig (sampleServer (sampleTemplate txids)) 0
        (sampleRequest hashes txids plainWire.serialize plainWire.inputs)
      = some (sampleJob hashes txids plainWire.serialize plainWire.inputs) := by
  obtain ⟨p, hp, hinputs, houtputs⟩ := v4Order_serialize plainWire rfl
  have haccepted : acceptedJob hashes sampleConfig (sampleServer (sampleTemplate txids)) 0
      (sampleRequest hashes txids plainWire.serialize p.inputs)
        = some (sampleJob hashes txids plainWire.serialize p.inputs) :=
    acceptedJob_requestFor plainWire.length_mul_le
      (show plainWire.serialize.length ≤ 4296 by decide +kernel) (by decide) hp
      (by rw [hinputs]; simp [plainWire, sampleCoinbase]) (by rw [houtputs]; decide) rfl (by decide)
      (by decide) rfl rfl rfl
  rw [hinputs] at haccepted
  exact haccepted

end MiningInfra.Jd
