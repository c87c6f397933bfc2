import MiningInfra.Jd.World

/-!
# One template for each accepted job

A declaration reads the tip and the template under different locks, and an update that
moves the tip first gives the old template the new block hash. A declaration that reads the
template in between is checked against a mixture of two templates.

Declarations that read the template outside such an update, and while the tip is still
the one they were made for, are checked against one template the pool has passed on. The
invariant behind it: outside an update that moves the tip, the stored template is one that
was passed on, under its own block hash.
-/

namespace MiningInfra.Jd

open Lib Coinbase

section Spec

variable (hashes : Hashes) (config : JdServerConfig)

/-- The request agrees with one template of the list, which is for the same block. -/
def Fits (passed : List TemplateContext) (request : SetCustomMiningJob) : Prop :=
  ∃ t ∈ passed, t.prevHash = request.prevHash ∧ MatchesTemplate hashes config t request

/-- Every accepted job carries the declared fields, and they agree with one template. -/
def AcceptedFit (w : World) : Prop :=
  ∀ a ∈ w.accepted, (∃ token jobId, a.job = declaredJob config a.request token jobId)
    ∧ Fits hashes config w.passed a.request

end Spec

/-- No update is moving the tip. -/
def World.TipSteady (w : World) : Prop := ∀ u, w.update = some u → u.changed = false

/-- A declaration reads the template only while no update moves the tip, and the tip is still
the one it was made for. -/
def SteadyRead (w : World) : Event → Prop
  | .resume thread _ => ∀ request token, w.calls.lookup thread = some (.readTemplate request token) →
      w.TipSteady ∧ w.server.currentPrevHash = some request.prevHash
  | _ => True

/-! ## The invariant -/

section Invariant

variable (hashes : Hashes) (config : JdServerConfig)

/-- What a declaration that has read the template knows. -/
def CallFits (passed : List TemplateContext) : Call → Prop
  | .validateCoinbase request _ template => ∃ t ∈ passed, t.prevHash = request.prevHash
      ∧ template = some t ∧ validateHeaderFields template request = .ok ()
  | .takeJobId request _ => Fits hashes config passed request
  | .storeJob request _ _ => Fits hashes config passed request
  | _ => True

structure Consistent (w : World) : Prop where
  tip : ∀ u, w.update = some u → w.server.currentPrevHash = some u.template.prevHash
  passing : ∀ u, w.update = some u → u.stage = .setTemplate → u.template ∈ w.passed
  stored : w.TipSteady → ∀ p, w.server.currentPrevHash = some p →
    ∃ t ∈ w.passed, t.prevHash = p ∧ w.server.currentTemplate = some t
  calls : ∀ thread call, w.calls.lookup thread = some call → CallFits hashes config w.passed call
  accepted : AcceptedFit hashes config w

end Invariant

variable {hashes : Hashes} {config : JdServerConfig}

variable {passed' passed : List TemplateContext} {call : Call} {w w' : World} {t now : Nat}

theorem Fits.mono {request : SetCustomMiningJob} (hsub : passed ⊆ passed')
    (h : Fits hashes config passed request) : Fits hashes config passed' request := by
  obtain ⟨t, ht, hprev, hmatch⟩ := h
  exact ⟨t, hsub ht, hprev, hmatch⟩

theorem CallFits.mono (hsub : passed ⊆ passed') (h : CallFits hashes config passed call) :
    CallFits hashes config passed' call := by
  cases call with
  | validateCoinbase request token template =>
    obtain ⟨t, ht, hrest⟩ := h
    exact ⟨t, hsub ht, hrest⟩
  | takeJobId request token | storeJob request token jobId => exact Fits.mono hsub h
  | _ => trivial

theorem consistent_new : Consistent hashes config .new := by
  refine ⟨?_, ?_, ?_, ?_, ?_⟩
  · intro u h; exact absurd h (by simp [World.new])
  · intro u h; exact absurd h (by simp [World.new])
  · intro _ p h; exact absurd h (by simp [World.new])
  · intro t call h; exact absurd h (by simp [World.new])
  · intro a h; exact absurd h (by simp [World.new])

/-! ## Steps of a declaration -/

section

variable (hw : Consistent hashes config w)

include hw

/-- The section a call goes on to knows what the section before it has found out. -/
theorem callFits_advance {call' : Call} (hcall : w.calls.lookup t = some call)
    (hread : SteadyRead w (.resume t now)) (h : (w.advance hashes config now call).2 = some call') :
    CallFits hashes config w.passed call' := by
  have hfits := hw.calls t call hcall
  cases call with
  | tokenLimits clientId mode random =>
    simp only [World.advance] at h
    split at h
    · injection h with h; subst h; trivial
    · cases h
  | takeTokenCounter clientId mode random =>
    injection h with h; subst h; trivial
  | storeToken name token | storeJob request token jobId => exact absurd h (by simp [World.advance])
  | readTip request token =>
    obtain ⟨_, -, rfl⟩ := follow_eq_some.mp h
    trivial
  | readTemplate request token =>
    obtain ⟨_, hheader, rfl⟩ := follow_eq_some.mp h
    obtain ⟨hsteady, htip⟩ := hread request token hcall
    obtain ⟨t', hmem, hprev, htemplate⟩ := hw.stored hsteady _ htip
    exact ⟨t', hmem, hprev, htemplate, hheader⟩
  | validateCoinbase request token template =>
    obtain ⟨_, hcoinbase, rfl⟩ := follow_eq_some.mp h
    obtain ⟨t', hmem, hprev, rfl, hheader⟩ := hfits
    have hvalid : validateCustomJobRequest hashes config (some t') request = .ok () :=
      Outcome.bind_eq_ok.mpr ⟨(), hheader, hcoinbase⟩
    exact ⟨t', hmem, hprev, (validateCustomJobRequest_some_iff.mp hvalid).1⟩
  | takeJobId request token =>
    injection h with h; subst h; exact hfits

/-- A call may go on when the section it goes on to knows enough. -/
theorem Consistent.position (hkeeps : w.Keeps w') (haccepted : AcceptedFit hashes config w')
    {call : Option Call} (hcall : ∀ c, call = some c → CallFits hashes config w.passed c) :
    Consistent hashes config (w'.position t call) := by
  have hcalls : ∀ t' c, (w'.position t call).calls.lookup t' = some c →
      CallFits hashes config w.passed c := by
    intro t' c hc
    rw [World.lookup_position, hkeeps.calls] at hc
    split at hc
    · exact hcall c hc
    · exact hw.calls t' c hc
  refine ⟨?_, ?_, ?_, ?_, haccepted⟩
  · intro u hu
    exact hkeeps.currentPrevHash.trans (hw.tip u (hkeeps.update ▸ hu))
  · intro u hu hstage
    show u.template ∈ w'.passed
    rw [hkeeps.passed]
    exact hw.passing u (hkeeps.update ▸ hu) hstage
  · intro hsteady p hp
    show ∃ t ∈ w'.passed, t.prevHash = p ∧ w'.server.currentTemplate = some t
    rw [hkeeps.passed, hkeeps.currentTemplate]
    exact hw.stored (fun u hu => hsteady u (hkeeps.update.trans hu)) p
      (hkeeps.currentPrevHash.symm.trans hp)
  · show ∀ t' c, (w'.position t call).calls.lookup t' = some c →
      CallFits hashes config w'.passed c
    rw [hkeeps.passed]
    exact hcalls

theorem consistent_begin (t now : Nat) (req : Request) :
    Consistent hashes config ((w.start now req).1.position t (w.start now req).2) := by
  have hkeeps := w.keeps_start now req
  refine hw.position hkeeps ?_ ?_
  · intro a ha
    rw [hkeeps.passed]
    exact hw.accepted a (w.accepted_start now req ▸ ha)
  · intro c hc
    cases req with
    | allocateToken clientId mode random =>
      injection hc with hc; subst hc; trivial
    | declareJob request =>
      obtain ⟨token, -, rfl⟩ := follow_eq_some.mp hc
      trivial

theorem consistent_resume (hcall : w.calls.lookup t = some call)
    (hread : SteadyRead w (.resume t now)) :
    Consistent hashes config ((w.advance hashes config now call).1.position t
      (w.advance hashes config now call).2) := by
  have hkeeps := w.keeps_advance hashes config now call
  refine hw.position hkeeps ?_ fun c hc => callFits_advance hw hcall hread hc
  intro a ha
  rw [hkeeps.passed]
  rcases World.mem_accepted_advance ha with ha | ⟨request, token, jobId, rfl, rfl⟩
  · exact hw.accepted a ha
  · exact ⟨⟨token, jobId, rfl⟩, hw.calls t _ hcall⟩

/-! ## Steps of an update -/

/-- An update that finds the tip as it is leaves the stored template in its place. -/
theorem consistent_beginUpdate (hidle : w.update = none) (t : TemplateContext) :
    Consistent hashes config (w.beginUpdate t) := by
  refine ⟨?_, ?_, ?_, hw.calls, hw.accepted⟩
  · rintro u ⟨rfl⟩; rfl
  · rintro u ⟨rfl⟩ hstage; cases hstage
  · intro hsteady p hp
    have hsame : w.server.currentPrevHash = some t.prevHash := by
      simpa using hsteady _ rfl
    exact hw.stored (by rw [World.TipSteady, hidle]; simp) p (hsame.trans hp)

theorem consistent_advanceUpdate {u : Update} (hu : w.update = some u) :
    Consistent hashes config (w.advanceUpdate u) := by
  have htip := hw.tip u hu
  obtain ⟨template, changed, stage⟩ := u
  cases stage with
  | patchTemplate =>
    refine ⟨?_, ?_, ?_, hw.calls, hw.accepted⟩
    · rintro u' ⟨rfl⟩; exact htip
    · rintro u' ⟨rfl⟩ hstage; cases hstage
    · intro hsteady p hp
      have hchanged : changed = false := hsteady _ rfl
      obtain ⟨t, hmem, hprev, htemplate⟩ :=
        hw.stored (by rw [World.TipSteady, hu]; rintro u' ⟨rfl⟩; exact hchanged) p hp
      -- the template already stands under this block hash, so the patch changes nothing
      have hsame : template.prevHash = t.prevHash := by
        rw [hprev]
        exact Option.some.inj (htip.symm.trans hp)
      refine ⟨t, hmem, hprev, ?_⟩
      simp only [World.advanceUpdate, htemplate, Option.map_some, hsame]
  | setPrevHash =>
    have hsub : w.passed ⊆ w.passed ++ [template] := List.subset_append_left _ _
    refine ⟨?_, ?_, ?_, ?_, ?_⟩
    · rintro u' ⟨rfl⟩; rfl
    · rintro u' ⟨rfl⟩ -; exact List.mem_append_right _ (List.mem_singleton_self _)
    · intro hsteady p hp
      have hchanged : changed = false := hsteady _ rfl
      obtain ⟨t, hmem, hprev, htemplate⟩ :=
        hw.stored (by rw [World.TipSteady, hu]; rintro u' ⟨rfl⟩; exact hchanged) p (htip.trans hp)
      exact ⟨t, hsub hmem, hprev, htemplate⟩
    · intro t call hcall
      exact (hw.calls t call hcall).mono hsub
    · intro a ha
      exact ⟨(hw.accepted a ha).1, (hw.accepted a ha).2.mono hsub⟩
  | setTemplate =>
    refine ⟨?_, ?_, ?_, hw.calls, hw.accepted⟩
    · intro u' h; exact absurd h (by simp [World.advanceUpdate])
    · intro u' h; exact absurd h (by simp [World.advanceUpdate])
    · intro _ p hp
      exact ⟨template, hw.passing _ hu rfl, Option.some.inj (htip.symm.trans hp), rfl⟩

/-! ## Runs -/

theorem consistent_step {e : Event} (hread : SteadyRead w e)
    (hnext : next hashes config w e = some w') : Consistent hashes config w' := by
  cases e with
  | begin t req now =>
    obtain ⟨-, rfl⟩ := next_begin hnext
    exact consistent_begin hw t now req
  | resume t now =>
    obtain ⟨call, hcall, rfl⟩ := next_resume hnext
    exact consistent_resume hw hcall hread
  | newTemplate t =>
    obtain ⟨hidle, rfl⟩ := next_newTemplate hnext
    exact consistent_beginUpdate hw hidle t
  | update =>
    obtain ⟨u, hu, rfl⟩ := next_update hnext
    exact consistent_advanceUpdate hw hu

end

/-- **Every accepted job was checked against one template passed on by the pool**, for its own
block, in every run whose declarations read the template steadily. -/
theorem accepted_fit_one_template {w : World}
    (h : Reach (next hashes config) SteadyRead Fresh w) : AcceptedFit hashes config w := by
  have hw : Consistent hashes config w := by
    refine Reach.invariant ?_ ?_ h
    · rintro s rfl; exact consistent_new
    · intro s e s' hs hread hnext; exact consistent_step hs hread hnext
  exact hw.accepted

/-! ## Two runs -/

def readsSteadily (w : World) : Event → Bool
  | .resume thread _ =>
    match w.calls.lookup thread with
    | some (.readTemplate request _) =>
      w.update.all (!·.changed) && w.server.currentPrevHash == some request.prevHash
    | _ => true
  | _ => true

theorem steadyRead_of_readsSteadily (w : World) (e : Event) (h : readsSteadily w e = true) :
    SteadyRead w e := by
  cases e with
  | resume thread now =>
    intro request token hcall
    simp only [readsSteadily, hcall, Bool.and_eq_true, beq_iff_eq] at h
    obtain ⟨hupdate, htip⟩ := h
    refine ⟨?_, htip⟩
    intro u hu
    simpa [hu] using hupdate
  | _ => trivial

/-- Thread 0 allocates a token for `miner`. -/
def allocateEvents : List Event :=
  [.begin 0 (.allocateToken "miner" .coinbaseOnly (List.replicate 16 0x2a)) 0, .resume 0 0,
    .resume 0 0, .resume 0 0]

def sampleToken : List UInt8 := tokenBytes 1 (List.replicate 16 0x2a)

def updateEvents (t : TemplateContext) : List Event := [.newTemplate t, .update, .update, .update]

/-- Thread 1 declares the plain coinbase for this template, from the token check to the store. -/
def declareEvents (t : TemplateContext) : List Event :=
  [.begin 1 (.declareJob (requestFor plainHashes t sampleToken plainWire.serialize
    plainWire.inputs)) 1, .resume 1 1, .resume 1 1, .resume 1 1, .resume 1 1, .resume 1 1]

theorem accepted_fit_one_template_one_job :
    ∃ w : World, Reach (next plainHashes sampleConfig) SteadyRead Fresh w
      ∧ AcceptedFit plainHashes sampleConfig w ∧ w.accepted.length = 1 := by
  have hrun : ∃ w : World, Reach (next plainHashes sampleConfig) SteadyRead Fresh w
      ∧ decide (w.accepted.length = 1) = true := by
    refine Reach.exists_of_exec readsSteadily steadyRead_of_readsSteadily .new fresh_new
      (allocateEvents ++ updateEvents (sampleTemplate []) ++ declareEvents (sampleTemplate [])) ?_
    decide +kernel
  obtain ⟨w, hreach, hw⟩ := hrun
  exact ⟨w, hreach, accepted_fit_one_template hreach, of_decide_eq_true hw⟩

/-- The next block, with another difficulty. -/
def nextBlock : TemplateContext :=
  { sampleTemplate [] with prevHash := fun _ => 8, bits := 0x1c7fffff }

/-- **The mixed template.** The pool has given the old template the hash of the next block and not
yet stored the next template. A job for the next block with the old difficulty is accepted. -/
theorem mixed_template_accepted :
    ¬ ∀ (hashes : Hashes) (config : JdServerConfig) (w : World),
      Reach (next hashes config) Any Fresh w → AcceptedFit hashes config w := by
  have hrun : ∃ w : World, Reach (next plainHashes sampleConfig) Any Fresh w
      ∧ (w.accepted.any fun a => w.passed.all fun t =>
        t.prevHash ≠ a.request.prevHash || t.bits ≠ a.request.bits) = true := by
    refine Reach.any_of_exec World.new fresh_new
      (allocateEvents ++ updateEvents (sampleTemplate []) ++ [.newTemplate nextBlock, .update]
        ++ declareEvents { sampleTemplate [] with prevHash := fun _ => 8 } ++ [.update, .update]) ?_
    decide +kernel
  obtain ⟨w, hreach, hw⟩ := hrun
  intro hall
  obtain ⟨a, ha, hmixed⟩ := List.any_eq_true.mp hw
  obtain ⟨-, t, ht, hprev, hmatch⟩ := hall _ _ w hreach a ha
  have hdiffers := List.all_eq_true.mp hmixed t ht
  simp [hprev, hmatch.bits] at hdiffers

end MiningInfra.Jd
