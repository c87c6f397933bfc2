import MiningInfra.Jd.Shares

/-!
# The workers of the declaration server

A token names the worker it was allocated for. The name goes from the token into the jobs
declared with it and from a job into the batches for it, and nowhere does another one come in.
-/

namespace MiningInfra.Jd

open Lib Coinbase

def MiningJobToken.clientIds (token : MiningJobToken) : List String :=
  token.clientId :: (token.jobInfo.map (·.clientId)).toList

def Call.clientIds : Call → List String
  | .tokenLimits clientId _ _ => [clientId]
  | .takeTokenCounter clientId _ _ => [clientId]
  | .storeToken _ token => token.clientIds
  | .readTip _ token => [token.clientId]
  | .readTemplate _ token => [token.clientId]
  | .validateCoinbase _ token _ => [token.clientId]
  | .takeJobId _ token => [token.clientId]
  | .storeJob _ token _ => [token.clientId]

def ShareCall.clientIds : ShareCall → List String
  | .findJob _ => []
  | .readTip _ job => [job.clientId]
  | .nextShare b => [b.job.clientId]
  | .record b _ _ => [b.job.clientId]
  | .credit b _ => [b.job.clientId]

/-- The workers of the tokens, their jobs and the calls in progress. -/
def World.workers (w : World) : List String :=
  w.server.tokens.gather MiningJobToken.clientIds ++ w.calls.gather Call.clientIds

/-- The worker a new call brings in. -/
def Event.newWorkers : Event → List String
  | .begin _ (.allocateToken clientId _ _) _ => [clientId]
  | _ => []

variable {w : World} {token : MiningJobToken} {thread now : Nat} {call : Call} {hashes : Hashes}
  {config : JdServerConfig}

theorem World.workers_position {w₁ : World} {l : List String} (hkeeps : w.Keeps w₁)
    (htokens : w₁.server.tokens.gather MiningJobToken.clientIds ⊆ l ++ w.workers) (thread : Nat)
    {call : Option Call} (hcall : ∀ c, call = some c → c.clientIds ⊆ l ++ w.workers) :
    (w₁.position thread call).workers ⊆ l ++ w.workers := by
  have hold : w.calls.gather Call.clientIds ⊆ l ++ w.workers :=
    List.Subset.trans (List.subset_append_right _ _) (List.subset_append_right _ _)
  refine List.append_subset.mpr ⟨htokens, ?_⟩
  cases call with
  | none =>
    refine List.Subset.trans (Table.gather_erase_subset _ _ _) ?_
    rw [hkeeps.calls]
    exact hold
  | some c =>
    refine List.Subset.trans (Table.gather_insert_subset _ _ _ _) ?_
    rw [hkeeps.calls]
    exact List.append_subset.mpr ⟨hcall c rfl, hold⟩

theorem mem_workers_of_token {name : List UInt8} (h : w.server.tokens.lookup name = some token) :
    token.clientIds ⊆ w.workers := by
  intro id hid
  exact List.mem_append_left _ (Table.mem_gather.mpr ⟨name, token, h, hid⟩)

theorem mem_workers_of_call (h : w.calls.lookup thread = some call) :
    call.clientIds ⊆ w.workers := by
  intro id hid
  exact List.mem_append_right _ (Table.mem_gather.mpr ⟨thread, call, h, hid⟩)

theorem checkToken_eq_ok {tokens : Tokens} {request : SetCustomMiningJob}
    (h : checkToken tokens now request = .ok token) :
    tokens.lookup request.miningJobToken = some token := by
  unfold checkToken validateToken at h
  cases hlookup : tokens.lookup request.miningJobToken with
  | none =>
    rw [hlookup] at h
    split at h <;> cases h
  | some t =>
    rw [hlookup] at h
    by_cases hexpired : t.isExpired now = true
    · simp only [hexpired, if_true] at h
      split at h <;> cases h
    · simp only [hexpired] at h
      split at h
      · cases h
      · simp only [Bool.false_eq_true, if_false] at h
        split at h
        · cases h
        · injection h with h
          rw [h]

theorem World.workers_start (w : World) (thread now : Nat) (req : Request) :
    ((w.start now req).1.position thread (w.start now req).2).workers
      ⊆ Event.newWorkers (.begin thread req now) ++ w.workers := by
  cases req with
  | allocateToken clientId grantedMode randomBytes =>
    refine World.workers_position (w.keeps_start now _) ?_ thread ?_
    · refine List.Subset.trans (Table.gather_retain_subset _ _ _) ?_
      exact List.Subset.trans (List.subset_append_left _ _) (List.subset_append_right _ _)
    · intro c hc
      cases hc
      exact List.subset_append_left _ _
  | declareJob request =>
    refine World.workers_position (w.keeps_start now _) ?_ thread ?_
    · exact List.Subset.trans (List.subset_append_left _ _) (List.subset_append_right _ _)
    · intro c hc
      obtain ⟨token, htoken, rfl⟩ := follow_eq_some.mp hc
      have hids := mem_workers_of_token (w := w) (checkToken_eq_ok htoken)
      exact List.cons_subset.mpr ⟨List.mem_append_right _ (hids List.mem_cons_self),
        List.nil_subset _⟩

/-- Storing a job keeps to the worker of the call. -/
theorem gather_storeJob (config : JdServerConfig) (tokens : Tokens) (now : Nat)
    (request : SetCustomMiningJob) (token : MiningJobToken) (jobId : UInt32) :
    Table.gather MiningJobToken.clientIds (storeJob config tokens now request token jobId).1
      ⊆ [token.clientId] ++ tokens.gather MiningJobToken.clientIds := by
  have hsame : tokens.gather MiningJobToken.clientIds
      ⊆ [token.clientId] ++ tokens.gather MiningJobToken.clientIds := List.subset_append_right _ _
  unfold storeJob setJobInfo
  cases hlookup : tokens.lookup request.miningJobToken with
  | none => exact hsame
  | some t =>
    by_cases hexpired : t.isExpired now = true
    · simp only [hexpired, if_true]
      exact hsame
    · simp only [hexpired]
      refine List.Subset.trans (Table.gather_insert_subset _ _ _ _) ?_
      refine List.append_subset.mpr ⟨?_, hsame⟩
      refine List.cons_subset.mpr ⟨?_, ?_⟩
      · exact List.mem_append_right _
          (Table.mem_gather.mpr ⟨_, t, hlookup, List.mem_cons_self⟩)
      · exact List.subset_append_left _ _

theorem World.workers_advance (hcall : w.calls.lookup thread = some call) (now : Nat) :
    ((w.advance hashes config now call).1.position thread
      (w.advance hashes config now call).2).workers ⊆ w.workers := by
  have hids := mem_workers_of_call hcall
  have hkeeps := w.keeps_advance hashes config now call
  have htokens : w.server.tokens.gather MiningJobToken.clientIds ⊆ w.workers :=
    List.subset_append_left _ _
  cases call with
  | tokenLimits clientId grantedMode randomBytes =>
    refine World.workers_position (l := []) hkeeps htokens thread ?_
    intro c hc
    simp only [World.advance] at hc
    split at hc
    · injection hc with hc; rw [← hc]; exact hids
    · cases hc
  | takeTokenCounter clientId grantedMode randomBytes | takeJobId request token =>
    refine World.workers_position (l := []) hkeeps htokens thread ?_
    intro c hc
    injection hc with hc; rw [← hc]; exact hids
  | storeToken name token =>
    refine World.workers_position (l := []) hkeeps ?_ thread
      (fun c hc => absurd hc (by simp [World.advance]))
    refine List.Subset.trans (Table.gather_insert_subset _ _ _ _) ?_
    exact List.append_subset.mpr ⟨hids, htokens⟩
  | storeJob request token jobId =>
    refine World.workers_position (l := []) hkeeps ?_ thread
      (fun c hc => absurd hc (by simp [World.advance]))
    refine List.Subset.trans (gather_storeJob config _ now request token jobId) ?_
    exact List.append_subset.mpr ⟨hids, htokens⟩
  | _ =>
    -- the checks of a declaration pass its token on
    refine World.workers_position (l := []) hkeeps htokens thread ?_
    intro c hc
    obtain ⟨a, -, rfl⟩ := follow_eq_some.mp hc
    exact hids

/-- **The server brings in no worker but those tokens are allocated for.** -/
theorem World.workers_next {w' : World} {e : Event} (h : next hashes config w e = some w') :
    w'.workers ⊆ e.newWorkers ++ w.workers := by
  cases e with
  | begin thread req now =>
    obtain ⟨-, rfl⟩ := next_begin h
    exact w.workers_start thread now req
  | resume thread now =>
    obtain ⟨call, hcall, rfl⟩ := next_resume h
    exact World.workers_advance hcall now
  | newTemplate t =>
    obtain ⟨-, rfl⟩ := next_newTemplate h
    exact List.Subset.refl _
  | update =>
    obtain ⟨u, -, rfl⟩ := next_update h
    unfold World.advanceUpdate
    split <;> exact List.Subset.refl _

/-! ## The workers of a batch -/

theorem clientId_mem_of_findJobById {jobId : UInt32} {job : DeclaredJobInfo}
    (h : findJobById w.server.tokens now jobId = some job) : job.clientId ∈ w.workers := by
  obtain ⟨e, hmem, he⟩ := List.exists_of_findSome?_eq_some h
  split at he
  · cases he
  · refine mem_workers_of_token (Table.mem_entries.mp hmem) ?_
    have hjob := (Option.filter_eq_some_iff.mp he).1
    simp [MiningJobToken.clientIds, hjob]

/-- A batch takes over the worker of its job and keeps to it. -/
theorem ShareCall.clientIds_advance {v : Equihash.EquihashValidator} {seen : SeenShares}
    {call call' : ShareCall} (h : (call.advance v w.server seen now).2 = .inr call') :
    call'.clientIds ⊆ call.clientIds ++ w.workers := by
  cases call with
  | findJob msg =>
    simp only [ShareCall.advance] at h
    split at h
    · cases h
    · rename_i job hjob
      split at h
      · cases h
      · cases h
        exact List.cons_subset.mpr ⟨List.mem_append_right _ (clientId_mem_of_findJobById hjob),
          List.nil_subset _⟩
  | readTip msg job | credit b share =>
    injection h with h; subst h; exact List.subset_append_left _ _
  | nextShare b =>
    simp only [ShareCall.advance] at h
    split at h
    · cases h
    · split at h <;>
      · injection h with h; subst h; exact List.subset_append_left _ _
  | record b share equihashOk =>
    simp only [ShareCall.advance] at h
    split at h
    · injection h with h; subst h; exact List.subset_append_left _ _
    · split at h <;>
      · injection h with h; subst h; exact List.subset_append_left _ _

theorem ShareCall.clientIds_settle (b : Batch) (credited : Option Bool) :
    (settle b credited).clientIds = [b.job.clientId] := by
  match credited with
  | none | some true | some false => rfl

end MiningInfra.Jd
