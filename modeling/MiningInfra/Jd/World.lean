import MiningInfra.Jd.Declare
import MiningInfra.Lib.Reach

/-!
# Declarations and template updates at once

A world is the server, the update the pool has begun and the calls in progress. The
handlers are cut at their lock acquisitions: `begin` runs a call's first section, `resume`
the next one, `newTemplate` the first section of `set_current_prev_hash` and `update` the
next section of it and of `set_current_template`. The pool handles one template at a time,
so there is at most one update.

`passed` and `accepted` are not part of the program. They record the templates given to
`set_current_template` and the jobs that were accepted.
-/

namespace MiningInfra.Jd

open Lib Coinbase

/-! ## Allocating a token -/

def maxTotalTokens : Nat := 100000

def cleanupExpired (tokens : Tokens) (now : Nat) : Tokens :=
  tokens.retain fun _ token => !token.isExpired now

/-- The two limits of `allocate_token_with_mode`. -/
def checkTokenLimits (config : JdServerConfig) (tokens : Tokens) (now : Nat) (clientId : String) :
    Except JdServerError Unit :=
  let clientTokenCount := (tokens.entries.filter fun e =>
    e.2.clientId = clientId && !e.2.isExpired now).length
  if maxTotalTokens ≤ tokens.entries.length then
    .error (.protocol "Server at capacity: too many active tokens")
  else if config.maxTokensPerClient ≤ clientTokenCount then
    .error (.protocol ("Max tokens per client exceeded (" ++ toString config.maxTokensPerClient
      ++ ")"))
  else .ok ()

/-- Eight bytes of the counter and the random bytes. -/
def tokenBytes (counter : UInt64) (randomBytes : List UInt8) : List UInt8 :=
  u64Bytes counter ++ randomBytes

/-! ## Worlds -/

inductive Request where
  | allocateToken (clientId : String) (grantedMode : JobDeclarationMode) (randomBytes : List UInt8)
  | declareJob (request : SetCustomMiningJob)

/-- Where a call in progress stands: the section it runs next and what it carries there. -/
inductive Call where
  | tokenLimits (clientId : String) (grantedMode : JobDeclarationMode) (randomBytes : List UInt8)
  | takeTokenCounter (clientId : String) (grantedMode : JobDeclarationMode)
      (randomBytes : List UInt8)
  | storeToken (name : List UInt8) (token : MiningJobToken)
  | readTip (request : SetCustomMiningJob) (token : MiningJobToken)
  | readTemplate (request : SetCustomMiningJob) (token : MiningJobToken)
  | validateCoinbase (request : SetCustomMiningJob) (token : MiningJobToken)
      (template : Option TemplateContext)
  | takeJobId (request : SetCustomMiningJob) (token : MiningJobToken)
  | storeJob (request : SetCustomMiningJob) (token : MiningJobToken) (jobId : UInt32)

/-- The section a template update runs next. -/
inductive UpdateStage where
  /-- The second section of `set_current_prev_hash`. -/
  | patchTemplate
  /-- The two sections of `set_current_template`. -/
  | setPrevHash
  | setTemplate
  deriving DecidableEq, Repr

structure Update where
  template : TemplateContext
  /-- Whether `set_current_prev_hash` found another tip. -/
  changed : Bool
  stage : UpdateStage

structure Accepted where
  request : SetCustomMiningJob
  job : DeclaredJobInfo

structure World where
  server : JdState
  update : Option Update
  calls : Table Nat Call
  passed : List TemplateContext
  accepted : List Accepted

inductive Event where
  | begin (thread : Nat) (request : Request) (now : Nat)
  | resume (thread : Nat) (now : Nat)
  | newTemplate (template : TemplateContext)
  | update

/-- `JdServer::new`. -/
def World.new : World := ⟨⟨∅, 1, 1, none, none⟩, none, ∅, [], []⟩

def Fresh (w : World) : Prop := w = .new

theorem fresh_new : Fresh .new := rfl

def World.position (w : World) (thread : Nat) (call : Option Call) : World :=
  { w with
    calls := match call with
      | some call => w.calls.insert thread call
      | none => w.calls.erase thread }

/-! ## Template updates -/

/-- The first section of `set_current_prev_hash`. -/
def World.beginUpdate (w : World) (t : TemplateContext) : World :=
  { w with
    server := { w.server with currentPrevHash := some t.prevHash }
    update := some ⟨t, w.server.currentPrevHash ≠ some t.prevHash, .patchTemplate⟩ }

def World.advanceUpdate (w : World) (u : Update) : World :=
  match u.stage with
  | .patchTemplate =>
    { w with
      server := { w.server with
        currentTemplate := w.server.currentTemplate.map fun t =>
          { t with prevHash := u.template.prevHash } }
      update := some { u with stage := .setPrevHash } }
  | .setPrevHash =>
    { w with
      server := { w.server with currentPrevHash := some u.template.prevHash }
      update := some { u with stage := .setTemplate }
      passed := w.passed ++ [u.template] }
  | .setTemplate =>
    { w with
      server := { w.server with currentTemplate := some u.template }
      update := none }

/-! ## Calls

Each section returns the new world and the section that follows, if any. -/

/-- Go on with the result, or leave the call. -/
def follow {ε α : Type} (x : Outcome ε α) (call : α → Call) : Option Call :=
  match x with
  | .ok a => some (call a)
  | _ => none

def World.start (w : World) (now : Nat) : Request → World × Option Call
  | .allocateToken clientId grantedMode randomBytes =>
    ({ w with server := { w.server with tokens := cleanupExpired w.server.tokens now } },
      some (.tokenLimits clientId grantedMode randomBytes))
  | .declareJob request => (w, follow (checkToken w.server.tokens now request) (.readTip request))

/-- The last section of `handle_declare_job`. -/
def World.acceptJob (config : JdServerConfig) (w : World) (now : Nat)
    (request : SetCustomMiningJob) (token : MiningJobToken) (jobId : UInt32) : World :=
  let stored := Jd.storeJob config w.server.tokens now request token jobId
  { w with
    server := { w.server with tokens := stored.1 }
    accepted := match stored.2 with
      | .ok _ => w.accepted ++ [⟨request, declaredJob config request token jobId⟩]
      | _ => w.accepted }

def World.advance (hashes : Hashes) (config : JdServerConfig) (w : World) (now : Nat) :
    Call → World × Option Call
  | .tokenLimits clientId grantedMode randomBytes =>
    (w, match checkTokenLimits config w.server.tokens now clientId with
      | .ok () => some (.takeTokenCounter clientId grantedMode randomBytes)
      | .error _ => none)
  | .takeTokenCounter clientId grantedMode randomBytes =>
    ({ w with server := { w.server with tokenCounter := w.server.tokenCounter + 1 } },
      some (.storeToken (tokenBytes w.server.tokenCounter randomBytes)
        ⟨now, config.tokenLifetime, clientId, grantedMode, none⟩))
  | .storeToken name token =>
    ({ w with server := { w.server with tokens := w.server.tokens.insert name token } }, none)
  | .readTip request token =>
    (w, follow (checkTip w.server.currentPrevHash request) fun _ => .readTemplate request token)
  | .readTemplate request token =>
    (w, follow (validateHeaderFields w.server.currentTemplate request) fun _ =>
      .validateCoinbase request token w.server.currentTemplate)
  | .validateCoinbase request token template =>
    (w, follow (validateDeclaredCoinbase hashes config template request) fun _ =>
      .takeJobId request token)
  | .takeJobId request token =>
    let id := nextPositiveJobId w.server.nextJobId
    ({ w with server := { w.server with nextJobId := id.2 } }, some (.storeJob request token id.1))
  | .storeJob request token jobId => (w.acceptJob config now request token jobId, none)

/-- One step: an idle thread begins a call, a thread with a call runs its next section, or the
pool begins an update or runs its next section. -/
def next (hashes : Hashes) (config : JdServerConfig) (w : World) : Event → Option World
  | .begin thread request now =>
    if (w.calls.lookup thread).isSome then none
    else some ((w.start now request).1.position thread (w.start now request).2)
  | .resume thread now =>
    (w.calls.lookup thread).map fun call =>
      (w.advance hashes config now call).1.position thread (w.advance hashes config now call).2
  | .newTemplate t => if w.update.isSome then none else some (w.beginUpdate t)
  | .update => w.update.map w.advanceUpdate

/-! ## What a step can do -/

theorem World.lookup_position (w : World) (t t' : Nat) (call : Option Call) :
    (w.position t' call).calls.lookup t = if t = t' then call else w.calls.lookup t := by
  cases call with
  | none => exact Table.lookup_erase_eq ..
  | some call => exact Table.lookup_insert_eq ..

/-- What the sections of a call leave alone. -/
structure World.Keeps (w w' : World) : Prop where
  calls : w'.calls = w.calls
  currentPrevHash : w'.server.currentPrevHash = w.server.currentPrevHash
  currentTemplate : w'.server.currentTemplate = w.server.currentTemplate
  update : w'.update = w.update
  passed : w'.passed = w.passed

theorem World.keeps_start (w : World) (now : Nat) (req : Request) :
    w.Keeps (w.start now req).1 := by
  cases req with
  | allocateToken clientId mode random | declareJob request => exact ⟨rfl, rfl, rfl, rfl, rfl⟩

theorem World.keeps_advance (hashes : Hashes) (config : JdServerConfig) (w : World) (now : Nat)
    (call : Call) : w.Keeps (w.advance hashes config now call).1 := by
  cases call <;> exact ⟨rfl, rfl, rfl, rfl, rfl⟩

theorem World.accepted_start (w : World) (now : Nat) (req : Request) :
    (w.start now req).1.accepted = w.accepted := by
  cases req <;> rfl

variable {w w' : World} {now t : Nat} {call : Call}

/-- Only the last section of a declaration accepts a job. -/
theorem World.mem_accepted_advance {hashes : Hashes} {config : JdServerConfig} {a : Accepted}
    (h : a ∈ (w.advance hashes config now call).1.accepted) :
    a ∈ w.accepted ∨ ∃ request token jobId, call = .storeJob request token jobId
      ∧ a = ⟨request, declaredJob config request token jobId⟩ := by
  cases call with
  | storeJob request token jobId =>
    simp only [advance, acceptJob] at h
    split at h
    · rcases List.mem_append.mp h with h | h
      · exact .inl h
      · exact .inr ⟨request, token, jobId, rfl, List.mem_singleton.mp h⟩
    · exact .inl h
  | _ => exact .inl h

theorem follow_eq_some {ε α : Type} {x : Outcome ε α} {f : α → Call} :
    follow x f = some call ↔ ∃ a, x = .ok a ∧ f a = call := by
  cases x with
  | ok a | err e | panic => simp [follow]

variable {hashes : Hashes} {config : JdServerConfig}

theorem next_begin {req : Request} (h : next hashes config w (.begin t req now) = some w') :
    w.calls.lookup t = none ∧ w' = (w.start now req).1.position t (w.start now req).2 := by
  obtain ⟨hidle, rfl⟩ := of_guard_not h
  exact ⟨by simpa using hidle, rfl⟩

theorem next_resume (h : next hashes config w (.resume t now) = some w') :
    ∃ call, w.calls.lookup t = some call ∧ w' = (w.advance hashes config now call).1.position t
      (w.advance hashes config now call).2 := by
  obtain ⟨call, hcall, h⟩ := Option.map_eq_some_iff.mp h
  exact ⟨call, hcall, h.symm⟩

theorem next_newTemplate {t : TemplateContext}
    (h : next hashes config w (.newTemplate t) = some w') :
    w.update = none ∧ w' = w.beginUpdate t := by
  obtain ⟨hidle, rfl⟩ := of_guard_not h
  exact ⟨by simpa using hidle, rfl⟩

theorem next_update (h : next hashes config w .update = some w') :
    ∃ u, w.update = some u ∧ w' = w.advanceUpdate u := by
  obtain ⟨u, hu, h⟩ := Option.map_eq_some_iff.mp h
  exact ⟨u, hu, h.symm⟩

end MiningInfra.Jd
