import MiningInfra.Pool.CreditOnce

/-!
# The books of a share batch

A journal beside the pool: the batches that came in, numbered in the order of their arrival, and
for each of them the credits it recorded, the keys it entered in `seen_shares` and its answer.
The journal is written from what the sections of the batches return and is read by nobody.
-/

namespace MiningInfra.Pool

open Lib Coinbase Payout

variable {F : Type}

/-- A credit of a batch, with the tip under whose guard it was recorded. -/
structure JdCredit where
  call : Nat
  job : Jd.DeclaredJobInfo
  share : Jd.JdShare
  tip : Option Bytes32

/-- A share whose key went into `seen_shares` under `jobId`. -/
structure JdEntry where
  jobId : UInt32
  job : Jd.DeclaredJobInfo
  share : Jd.JdShare

structure Journal where
  received : List Jd.SubmitSharesJd
  /-- The number of the batch each thread worked on last. -/
  callIds : Table Nat Nat
  credited : List JdCredit
  entered : List JdEntry
  answers : List (Nat × Jd.SubmitSharesJdResponse)

def Journal.new : Journal := ⟨[], ∅, [], [], []⟩

def Journal.creditsOf (j : Journal) (id : Nat) : Nat :=
  (j.credited.filter fun c => c.call = id).length

structure Audited (F : Type) where
  world : World F
  journal : Journal

namespace Journal

def receive (j : Journal) (thread : Nat) (msg : Jd.SubmitSharesJd) : Journal :=
  { j with
    received := j.received ++ [msg]
    callIds := j.callIds.insert thread j.received.length }

variable [Float64 F]

/-- What the next section of batch `id` does. -/
def advance (env : Env F) (j : Journal) (w : World F) (now id : Nat) : Jd.ShareCall → Journal
  | .credit b share =>
    if (w.creditJd env b share now).2 = some true then
      { j with credited := j.credited ++ [⟨id, b.job, share, w.jd.server.currentPrevHash⟩] }
    else j
  | .record b share _ =>
    if (Jd.recordShare w.seenShares b.msg.jobId (Jd.shareDedupKey env.hashes share)).2 then
      { j with entered := j.entered ++ [⟨b.msg.jobId, b.job, share⟩] }
    else j
  | call =>
    match (call.advance env.toEquihashValidator w.jd.server w.seenShares now).2 with
    | .inl r => { j with answers := j.answers ++ [(id, r)] }
    | .inr _ => j

def write (env : Env F) (j : Journal) (w : World F) : Event → Journal
  | .submitJd thread msg _ => j.receive thread msg
  | .resumeJd thread now =>
    match w.batches.lookup thread, j.callIds.lookup thread with
    | some call, some id => j.advance env w now id call
    | _, _ => j
  | _ => j

end Journal

namespace Audited

variable [Float64 F]

def next (env : Env F) (a : Audited F) (e : Event) : Option (Audited F) :=
  (Pool.next env a.world e).map fun w => ⟨w, a.journal.write env a.world e⟩

omit [Float64 F] in
/-- A pool that has just started, and an empty journal. -/
def Fresh (a : Audited F) : Prop := Pool.Fresh a.world ∧ a.journal = .new

omit [Float64 F] in
/-- Batches come from the decoder. -/
def FromWire (_ : Audited F) : Event → Prop
  | .submitJd _ msg _ => msg.OnWire
  | _ => True

end Audited

/-! ## The books -/

/-- Every answer is for a batch that came in and agrees with its credits; every credit and every
entry in `seen_shares` is for a share that passed what it had to pass. -/
structure Journal.Sound (env : Env F) (j : Journal) (seen : Jd.SeenShares) : Prop where
  answers : ∀ id r, (id, r) ∈ j.answers →
    ∃ msg, j.received[id]? = some msg ∧ r.Balanced msg (j.creditsOf id)
  credited : ∀ c ∈ j.credited, ∃ msg, j.received[c.call]? = some msg ∧ c.job.jobId = msg.jobId
    ∧ c.share ∈ msg.shares ∧ c.share.Verified env.toEquihashValidator c.job
    ∧ c.tip = some c.job.prevHash
  entered : ∀ e ∈ j.entered, e.share.Structured env.toEquihashValidator e.job
  /-- The journal misses no entry. -/
  seen : ∀ jobId keys, seen.lookup jobId = some keys → ∀ key ∈ keys,
    ∃ e ∈ j.entered, e.jobId = jobId ∧ Jd.shareDedupKey env.hashes e.share = key

/-- A call at work, with its number. -/
structure Journal.Working (env : Env F) (j : Journal) (id : Nat) (call : Jd.ShareCall) : Prop where
  received : j.received[id]? = some call.msg
  onWire : call.msg.OnWire
  balanced : call.Balanced env.toEquihashValidator (j.creditsOf id)
  unanswered : ∀ r, (id, r) ∉ j.answers

structure Books (env : Env F) (a : Audited F) : Prop where
  sound : a.journal.Sound env a.world.seenShares
  working : ∀ thread call, a.world.batches.lookup thread = some call →
    ∃ id, a.journal.callIds.lookup thread = some id ∧ a.journal.Working env id call
  distinct : ∀ thread thread' id, (a.world.batches.lookup thread).isSome →
    (a.world.batches.lookup thread').isSome → a.journal.callIds.lookup thread = some id →
    a.journal.callIds.lookup thread' = some id → thread = thread'

/-! ## What a batch leaves alone -/

section Frame

variable [Float64 F]

variable {env : Env F} {w w' : World F} {e : Event}

theorem batches_mainStep {now : Nat} {slow : List UInt32} (h : w.mainStep env now slow = some w') :
    w'.batches = w.batches ∧ w'.seenShares = w.seenShares ∧ w'.jd = w.jd := by
  cases hmain : w.main <;> simp only [World.mainStep, hmain, reduceCtorEq] at h
  case updateJd template =>
    obtain ⟨-, rfl⟩ := of_guard_not h
    exact ⟨rfl, rfl, rfl⟩
  case creditShare channelId share header difficulty =>
    cases h
    simp only [World.creditShare]
    split
    · split <;> exact ⟨rfl, rfl, rfl⟩
    · exact ⟨rfl, rfl, rfl⟩
  all_goals injection h with h; subst h; exact ⟨rfl, rfl, rfl⟩

/-- Only the sections of the batches touch them and `seen_shares`. -/
theorem batches_next (hsubmit : ∀ thread msg now, e ≠ .submitJd thread msg now)
    (hresume : ∀ thread now, e ≠ .resumeJd thread now) (h : next env w e = some w') :
    w'.batches = w.batches ∧ w'.seenShares = w.seenShares := by
  cases Step.of_next h with
  | main h =>
    obtain ⟨hbatches, hseen, -⟩ := batches_mainStep h
    exact ⟨hbatches, hseen⟩
  | submitJd => exact absurd rfl (hsubmit _ _ _)
  | resumeJd => exact absurd rfl (hresume _ _)
  | _ => exact ⟨rfl, rfl⟩

theorem batches_creditJd (env : Env F) (w : World F) (b : Jd.Batch) (share : Jd.JdShare)
    (now : Nat) : (w.creditJd env b share now).1.batches = w.batches
      ∧ (w.creditJd env b share now).1.seenShares = w.seenShares
      ∧ (w.creditJd env b share now).1.jd = w.jd := by
  unfold World.creditJd
  split <;> exact ⟨rfl, rfl, rfl⟩

theorem jd_advanceBatch (env : Env F) (w : World F) (now : Nat) (call : Jd.ShareCall) :
    (w.advanceBatch env now call).1.jd = w.jd := by
  cases call with
  | credit b share => exact (batches_creditJd env w b share now).2.2
  | _ => rfl

/-- The declaration server stands still or takes a step of its own. -/
theorem jd_next (h : next env w e = some w') :
    w'.jd = w.jd ∨ ∃ e', Jd.next env.hashes env.jdConfig w.jd e' = some w'.jd := by
  cases Step.of_next h with
  | jd _ hjd | template _ hjd => exact .inr ⟨_, hjd⟩
  | main h => exact .inl (batches_mainStep h).2.2
  | @resumeJd thread now call => exact .inl (jd_advanceBatch env w now call)
  | _ => exact .inl rfl

end Frame

/-! ## No batch has a job before the first tip -/

/-- While there is no tip, no job is declared and no batch has found one. -/
def TipFirst (w : World F) : Prop :=
  w.jd.server.currentPrevHash = none →
    w.jd.Jobless ∧ ∀ thread call, w.batches.lookup thread = some call → ∃ msg, call = .findJob msg

theorem tipFirst_step [Float64 F] {env : Env F} {w w' : World F} {e : Event} (hw : TipFirst w)
    (hnext : next env w e = some w') : TipFirst w' := by
  intro htip'
  have hjd : w.jd.server.currentPrevHash = none ∧ w'.jd.Jobless := by
    rcases jd_next hnext with hsame | ⟨e', he'⟩
    · rw [hsame] at htip' ⊢
      exact ⟨htip', (hw htip').1⟩
    · exact Jd.jobless_step (fun htip => (hw htip).1) he' htip'
  obtain ⟨htip, hjobless'⟩ := hjd
  obtain ⟨hjobless, hbatches⟩ := hw htip
  refine ⟨hjobless', ?_⟩
  by_cases hsubmit : ∃ thread msg now, e = .submitJd thread msg now
  · obtain ⟨thread, msg, now, rfl⟩ := hsubmit
    simp only [next] at hnext
    split at hnext
    · cases hnext
    cases hnext
    intro t call hcall
    have hlookup := w.lookup_setBatch thread (some (.findJob msg)) t
    rw [show (w.setBatch thread (some (.findJob msg))).batches.lookup t = some call from hcall]
      at hlookup
    split at hlookup
    · exact ⟨msg, Option.some.inj hlookup⟩
    · exact hbatches t call hlookup.symm
  by_cases hresume : ∃ thread now, e = .resumeJd thread now
  · obtain ⟨thread, now, rfl⟩ := hresume
    obtain ⟨call, hcall, rfl⟩ := Option.map_eq_some_iff.mp hnext
    obtain ⟨msg, rfl⟩ := hbatches thread call hcall
    -- the batch looks for its job in vain and ends
    have hnone : (w.advanceBatch env now (.findJob msg)).2 = none := by
      simp only [World.advanceBatch, Jd.ShareCall.advance, hjobless.findJobById]
      rfl
    intro t call hcall'
    rw [hnone, World.lookup_setBatch] at hcall'
    split at hcall'
    · cases hcall'
    · exact hbatches t call hcall'
  · obtain ⟨hsame, -⟩ := batches_next (fun t m n h => hsubmit ⟨t, m, n, h⟩)
      (fun t n h => hresume ⟨t, n, h⟩) hnext
    rw [hsame]
    exact hbatches

/-! ## A batch comes in -/

namespace Journal

variable {env : Env F} {j : Journal} {seen : Jd.SeenShares} {msg : Jd.SubmitSharesJd}
  {call : Jd.ShareCall}

theorem getElem?_receive {id : Nat} (h : j.received[id]? = some msg) (thread : Nat)
    (msg' : Jd.SubmitSharesJd) : (j.receive thread msg').received[id]? = some msg := by
  obtain ⟨hlt, -⟩ := List.getElem?_eq_some_iff.mp h
  show (j.received ++ [msg'])[id]? = some msg
  rw [List.getElem?_append_left hlt, h]

section

variable (hj : j.Sound env seen)

include hj

theorem Sound.receive (thread : Nat) (msg : Jd.SubmitSharesJd) :
    (j.receive thread msg).Sound env seen := by
  refine ⟨?_, ?_, hj.entered, hj.seen⟩
  · intro id r hr
    obtain ⟨msg', hmsg', hbalanced⟩ := hj.answers id r hr
    exact ⟨msg', getElem?_receive hmsg' thread msg, hbalanced⟩
  · intro c hc
    obtain ⟨msg', hmsg', hrest⟩ := hj.credited c hc
    exact ⟨msg', getElem?_receive hmsg' thread msg, hrest⟩

/-- Nothing is known of a batch before it comes in. -/
theorem Sound.creditsOf_length : j.creditsOf j.received.length = 0 := by
  rw [creditsOf, List.length_eq_zero_iff, List.filter_eq_nil_iff]
  intro c hc heq
  obtain ⟨msg, hmsg, -⟩ := hj.credited c hc
  obtain ⟨hlt, -⟩ := List.getElem?_eq_some_iff.mp hmsg
  have := of_decide_eq_true heq
  omega

theorem Sound.not_answered_length (r : Jd.SubmitSharesJdResponse) :
    (j.received.length, r) ∉ j.answers := by
  intro hr
  obtain ⟨msg, hmsg, -⟩ := hj.answers _ r hr
  obtain ⟨hlt, -⟩ := List.getElem?_eq_some_iff.mp hmsg
  exact Nat.lt_irrefl _ hlt

theorem working_receive (thread : Nat) (hwire : msg.OnWire) :
    (j.receive thread msg).Working env j.received.length (.findJob msg) :=
  ⟨List.getElem?_concat_length, hwire, hj.creditsOf_length, hj.not_answered_length⟩

end

theorem Working.receive {id : Nat} (h : j.Working env id call) (thread : Nat)
    (msg : Jd.SubmitSharesJd) : (j.receive thread msg).Working env id call :=
  { h with received := getElem?_receive h.received thread msg }

theorem Working.lt_length {id : Nat} (h : j.Working env id call) : id < j.received.length :=
  (List.getElem?_eq_some_iff.mp h.received).1

/-- Keys that are dropped from `seen_shares` need no entry any more. -/
theorem Sound.evict (hj : j.Sound env seen) (tokens : Jd.Tokens) (now : Nat) :
    j.Sound env (Jd.evictSeenShares seen tokens now) := by
  refine { hj with seen := ?_ }
  intro jobId keys hkeys
  exact hj.seen jobId keys (Table.of_lookup_retain hkeys).1

end Journal

section Step

variable [Float64 F]

variable {env : Env F} {a a' : Audited F} {thread now id : Nat} {w' : World F} {call : Jd.ShareCall}
  {j : Journal} {seen : Jd.SeenShares} {b : Jd.Batch} {e : Event} {share : Jd.JdShare}

theorem books_submitJd (ha : Books env a) {msg : Jd.SubmitSharesJd} (hwire : msg.OnWire)
    (hnext : next env a.world (.submitJd thread msg now) = some w') :
    Books env ⟨w', a.journal.receive thread msg⟩ := by
  simp only [next] at hnext
  split at hnext
  · cases hnext
  cases hnext
  have hbatches : ∀ t, ((a.world.setBatch thread (some (.findJob msg))).batches.lookup t)
      = if t = thread then some (.findJob msg) else a.world.batches.lookup t :=
    fun t => a.world.lookup_setBatch thread _ t
  have hids : ∀ t, (a.journal.receive thread msg).callIds.lookup t
      = if t = thread then some a.journal.received.length else a.journal.callIds.lookup t :=
    fun t => Table.lookup_insert_eq _ _ _ _
  refine ⟨(ha.sound.evict _ now).receive thread msg, ?_, ?_⟩
  · intro t call hcall
    rw [show _ = _ from hbatches t] at hcall
    rw [hids t]
    split at hcall
    · cases hcall
      rename_i ht
      exact ⟨_, if_pos ht, Journal.working_receive ha.sound thread hwire⟩
    · rename_i ht
      obtain ⟨id, hid, hworking⟩ := ha.working t call hcall
      exact ⟨id, by rw [if_neg ht, hid], hworking.receive thread msg⟩
  · -- the new number is above all that are in use
    have hbelow : ∀ t id, t ≠ thread →
        ((a.world.setBatch thread (some (.findJob msg))).batches.lookup t).isSome →
        (a.journal.receive thread msg).callIds.lookup t = some id →
        (a.world.batches.lookup t).isSome ∧ a.journal.callIds.lookup t = some id
          ∧ id < a.journal.received.length := by
      intro t id ht hsome hid
      rw [hbatches t, if_neg ht] at hsome
      rw [hids t, if_neg ht] at hid
      obtain ⟨call, hcall⟩ := Option.isSome_iff_exists.mp hsome
      obtain ⟨id', hid', hworking⟩ := ha.working t call hcall
      rw [hid] at hid'
      injection hid' with hid'
      exact ⟨hsome, hid, hid' ▸ hworking.lt_length⟩
    have hnew : ∀ t id, t = thread →
        (a.journal.receive thread msg).callIds.lookup t = some id →
        id = a.journal.received.length := by
      intro t id ht hid
      rw [hids t, if_pos ht] at hid
      injection hid with hid
      exact hid.symm
    intro t t' id hsome hsome' hid hid'
    by_cases ht : t = thread <;> by_cases ht' : t' = thread
    · rw [ht, ht']
    · have := (hbelow t' id ht' hsome' hid').2.2
      have := hnew t id ht hid
      omega
    · have := (hbelow t id ht hsome hid).2.2
      have := hnew t' id ht' hid'
      omega
    · obtain ⟨hs, hi, -⟩ := hbelow t id ht hsome hid
      obtain ⟨hs', hi', -⟩ := hbelow t' id ht' hsome' hid'
      exact ha.distinct t t' id hs hs' hi hi'

/-! ## A section of a batch -/

/-- A journal that goes on from another in a section of batch `id`. -/
structure Journal.Extends (j j' : Journal) (id : Nat) : Prop where
  received : j'.received = j.received
  callIds : j'.callIds = j.callIds
  creditsOf : ∀ id', id' ≠ id → j'.creditsOf id' = j.creditsOf id'
  answers : ∀ id' r, id' ≠ id → (id', r) ∈ j'.answers → (id', r) ∈ j.answers

section

omit [Float64 F]

/-- The books after a section of one batch, given what the section did to that batch. -/
theorem Books.resume (ha : Books env a) (hcall : a.world.batches.lookup thread = some call)
    (hid : a.journal.callIds.lookup thread = some id) {j' : Journal} {call' : Option Jd.ShareCall}
    (hext : a.journal.Extends j' id)
    (hbatches : w'.batches = (a.world.setBatch thread call').batches)
    (hsound : j'.Sound env w'.seenShares) (hworking : ∀ c, call' = some c → j'.Working env id c) :
    Books env ⟨w', j'⟩ := by
  have hlookup : ∀ t, w'.batches.lookup t = if t = thread then call' else a.world.batches.lookup t :=
    fun t => by rw [hbatches]; exact a.world.lookup_setBatch thread call' t
  have hsome : ∀ t, (w'.batches.lookup t).isSome → (a.world.batches.lookup t).isSome := by
    intro t ht
    by_cases heq : t = thread
    · rw [heq, hcall]; rfl
    · rwa [hlookup t, if_neg heq] at ht
  refine ⟨hsound, ?_, ?_⟩
  · intro t c hc
    rw [show w'.batches.lookup t = _ from hlookup t] at hc
    rw [show (Audited.mk w' j').journal.callIds = _ from hext.callIds]
    by_cases ht : t = thread
    · rw [if_pos ht] at hc
      exact ⟨id, ht ▸ hid, hworking c hc⟩
    · rw [if_neg ht] at hc
      obtain ⟨id', hid', h'⟩ := ha.working t c hc
      have hne : id' ≠ id := by
        intro heq
        refine ht (ha.distinct t thread id ?_ ?_ (heq ▸ hid') hid)
        · rw [hc]; rfl
        · rw [hcall]; rfl
      refine ⟨id', hid', ⟨?_, h'.onWire, ?_, ?_⟩⟩
      · rw [hext.received]; exact h'.received
      · rw [hext.creditsOf id' hne]; exact h'.balanced
      · intro r hr
        exact h'.unanswered r (hext.answers id' r hne hr)
  · intro t t' id' ht ht' hi hi'
    rw [show (Audited.mk w' j').journal.callIds = _ from hext.callIds] at hi hi'
    exact ha.distinct t t' id' (hsome t ht) (hsome t' ht') hi hi'

/-- The journal of a section that answers. -/
theorem Journal.Sound.answer (hj : j.Sound env seen) (hworking : j.Working env id call)
    {r : Jd.SubmitSharesJdResponse} (hr : r.Balanced call.msg (j.creditsOf id)) :
    ({ j with answers := j.answers ++ [(id, r)] } : Journal).Sound env seen := by
  refine { hj with answers := ?_ }
  intro id' r' hmem
  rcases List.mem_append.mp hmem with hold | hnew
  · exact hj.answers id' r' hold
  · obtain ⟨rfl, rfl⟩ := Prod.mk.inj (List.mem_singleton.mp hnew)
    exact ⟨call.msg, hworking.received, hr⟩

theorem Journal.creditsOf_append (j : Journal) (c : JdCredit) (id : Nat) :
    ({ j with credited := j.credited ++ [c] } : Journal).creditsOf id
      = j.creditsOf id + if c.call = id then 1 else 0 := by
  simp only [Journal.creditsOf, List.filter_append, List.length_append]
  by_cases h : c.call = id <;> simp [h]

/-- The journal of a section that credits: the batch counts one more. -/
theorem Journal.Sound.credit (hj : j.Sound env seen) (hworking : j.Working env id (.credit b share))
    {tip : Option Bytes32} (htip : tip = some b.job.prevHash) :
    ({ j with credited := j.credited ++ [⟨id, b.job, share, tip⟩] } : Journal).Sound env seen := by
  obtain ⟨hb, hmem, hverified⟩ := hworking.balanced
  refine ⟨?_, ?_, hj.entered, hj.seen⟩
  · intro id' r hr
    obtain ⟨msg, hmsg, hbalanced⟩ := hj.answers id' r hr
    have hne : id ≠ id' := by
      rintro rfl
      exact hworking.unanswered r hr
    refine ⟨msg, hmsg, ?_⟩
    rw [creditsOf_append, if_neg hne]
    exact hbalanced
  · intro c hc
    rcases List.mem_append.mp hc with hold | hnew
    · exact hj.credited c hold
    · obtain rfl := List.mem_singleton.mp hnew
      exact ⟨b.msg, hworking.received, hb.job, hmem, hverified, htip⟩

/-- The journal of a section that goes through the entry in `seen_shares`. -/
theorem Journal.Sound.record (hj : j.Sound env seen)
    (hshare : share.Structured env.toEquihashValidator b.job) :
    (if (Jd.recordShare seen b.msg.jobId (Jd.shareDedupKey env.hashes share)).2 then
        { j with entered := j.entered ++ [⟨b.msg.jobId, b.job, share⟩] } else j : Journal).Sound env
      (Jd.recordShare seen b.msg.jobId (Jd.shareDedupKey env.hashes share)).1 := by
  have hold : ∀ key ∈ (seen.lookup b.msg.jobId).getD [],
      ∃ e ∈ j.entered, e.jobId = b.msg.jobId ∧ Jd.shareDedupKey env.hashes e.share = key := by
    intro key hkey
    cases hkeys : seen.lookup b.msg.jobId with
    | none => simp [hkeys] at hkey
    | some keys => exact hj.seen _ keys hkeys key (by simpa [hkeys] using hkey)
  simp only [Jd.recordShare]
  split
  · refine { hj with seen := ?_ }
    intro jobId keys hkeys
    rcases Table.of_lookup_insert hkeys with ⟨rfl, rfl⟩ | hkeys
    · exact hold
    · exact hj.seen jobId keys hkeys
  · refine ⟨hj.answers, hj.credited, ?_, ?_⟩
    · intro e he
      rcases List.mem_append.mp he with he | he
      · exact hj.entered e he
      · obtain rfl := List.mem_singleton.mp he
        exact hshare
    · intro jobId keys hkeys key hkey
      rcases Table.of_lookup_insert hkeys with ⟨rfl, rfl⟩ | hkeys
      · rcases List.mem_append.mp hkey with hkey | hkey
        · obtain ⟨e, he, hprops⟩ := hold key hkey
          exact ⟨e, List.mem_append_left _ he, hprops⟩
        · obtain rfl := List.mem_singleton.mp hkey
          exact ⟨_, List.mem_append_right _ (List.mem_singleton_self _), rfl, rfl⟩
      · obtain ⟨e, he, hprops⟩ := hj.seen jobId keys hkeys key hkey
        exact ⟨e, List.mem_append_left _ he, hprops⟩

theorem Journal.Extends.refl (j : Journal) (id : Nat) : j.Extends j id :=
  ⟨rfl, rfl, fun _ _ => rfl, fun _ _ _ h => h⟩

end

/-- The guard of a credit, where there is a tip. -/
theorem tip_of_creditJd {w : World F} {credited : Bool} (htip : w.jd.server.currentPrevHash ≠ none)
    (h : (w.creditJd env b share now).2 = some credited) :
    w.jd.server.currentPrevHash = some b.job.prevHash := by
  unfold World.creditJd at h
  split at h
  · rename_i hcurrent
    obtain ⟨tip, hsome⟩ := Option.ne_none_iff_exists'.mp htip
    rw [hsome] at hcurrent ⊢
    simp only [Jd.Batch.stillCurrent, Option.all_some, decide_eq_true_eq] at hcurrent
    rw [hcurrent]
  · cases h

section

variable (ha : Books env a) (hid : a.journal.callIds.lookup thread = some id)

include ha hid

theorem books_credit (htip : TipFirst a.world)
    (hcall : a.world.batches.lookup thread = some (.credit b share))
    (hworking : a.journal.Working env id (.credit b share)) :
    Books env ⟨(a.world.advanceBatch env now (.credit b share)).1.setBatch thread
      (a.world.advanceBatch env now (.credit b share)).2,
      a.journal.advance env a.world now id (.credit b share)⟩ := by
  obtain ⟨hbatches, hseen, -⟩ := batches_creditJd env a.world b share now
  have hknown : a.world.jd.server.currentPrevHash ≠ none := by
    intro hnone
    obtain ⟨msg, hmsg⟩ := (htip hnone).2 thread _ hcall
    cases hmsg
  obtain ⟨hmsg, hbalanced, -⟩ := hworking.balanced.settle hworking.onWire
    (a.world.creditJd env b share now).2
  have hset : ((a.world.creditJd env b share now).1.setBatch thread
      (some (.settle b (a.world.creditJd env b share now).2))).batches
      = (a.world.setBatch thread (some (.settle b (a.world.creditJd env b share now).2))).batches := by
    simp only [World.setBatch, hbatches]
  have hwire : (Jd.ShareCall.settle b (a.world.creditJd env b share now).2).msg.OnWire := by
    rw [hmsg]; exact hworking.onWire
  by_cases hcredited : (a.world.creditJd env b share now).2 = some true
  · have hsound := ha.sound.credit hworking (tip_of_creditJd hknown hcredited)
    simp only [Journal.advance, hcredited, if_true] at hbalanced ⊢
    refine ha.resume hcall hid ⟨rfl, rfl, ?_, fun _ _ _ h => h⟩ hset ?_ ?_
    · intro id' hne
      rw [Journal.creditsOf_append, if_neg (Ne.symm hne)]
      rfl
    · exact (hseen ▸ hsound : Journal.Sound env _ (a.world.creditJd env b share now).1.seenShares)
    · intro c hc
      cases hc
      refine ⟨by rw [hmsg]; exact hworking.received, hwire, ?_, hworking.unanswered⟩
      rw [Journal.creditsOf_append, if_pos rfl, hcredited]
      exact hbalanced
  · simp only [Journal.advance, hcredited, if_false, Nat.add_zero] at hbalanced ⊢
    refine ha.resume hcall hid (.refl _ id) hset ?_ ?_
    · exact (hseen ▸ ha.sound : Journal.Sound env _ (a.world.creditJd env b share now).1.seenShares)
    · intro c hc
      cases hc
      exact ⟨by rw [hmsg]; exact hworking.received, hwire, hbalanced, hworking.unanswered⟩

theorem books_record {equihashOk : Bool}
    (hcall : a.world.batches.lookup thread = some (.record b share equihashOk))
    (hworking : a.journal.Working env id (.record b share equihashOk)) :
    Books env ⟨(a.world.advanceBatch env now (.record b share equihashOk)).1.setBatch thread
      (a.world.advanceBatch env now (.record b share equihashOk)).2,
      a.journal.advance env a.world now id (.record b share equihashOk)⟩ := by
  have hadvance := hworking.balanced.advance hworking.onWire a.world.jd.server
    a.world.seenShares now
  have hext : a.journal.Extends
      (a.journal.advance env a.world now id (.record b share equihashOk)) id := by
    simp only [Journal.advance]
    split <;> exact ⟨rfl, rfl, fun _ _ => rfl, fun _ _ _ h => h⟩
  refine ha.resume hcall hid hext rfl (ha.sound.record hworking.balanced.2.2.1) ?_
  intro c hc
  obtain ⟨hmsg, hbalanced, -⟩ := hadvance.2 c (Sum.getRight?_eq_some_iff.mp hc)
  simp only [Journal.advance]
  split <;> exact ⟨by rw [hmsg]; exact hworking.received, by rw [hmsg]; exact hworking.onWire,
    hbalanced, hworking.unanswered⟩

/-- A section that neither credits nor records: the call goes on, or answers. -/
theorem books_check (hcall : a.world.batches.lookup thread = some call)
    (hworking : a.journal.Working env id call)
    (hseen : (call.advance env.toEquihashValidator a.world.jd.server a.world.seenShares now).1
      = a.world.seenShares) (hcredit : ¬ ∃ b share, call = .credit b share)
    (hjournal : a.journal.advance env a.world now id call
      = match (call.advance env.toEquihashValidator a.world.jd.server a.world.seenShares now).2 with
        | .inl r => { a.journal with answers := a.journal.answers ++ [(id, r)] }
        | .inr _ => a.journal) :
    Books env ⟨(a.world.advanceBatch env now call).1.setBatch thread
      (a.world.advanceBatch env now call).2, a.journal.advance env a.world now id call⟩ := by
  have hadvance := hworking.balanced.advance hworking.onWire a.world.jd.server
    a.world.seenShares now
  rw [a.world.advanceBatch_of_not_credit env now hcredit, hseen, hjournal]
  cases hres : (call.advance env.toEquihashValidator a.world.jd.server a.world.seenShares now).2 with
  | inl r =>
    refine ha.resume hcall hid ⟨rfl, rfl, fun _ _ => rfl, ?_⟩ rfl
      (ha.sound.answer hworking (hadvance.1 r hres)) (fun c hc => absurd hc (by simp))
    intro id' r' hne hmem
    rcases List.mem_append.mp hmem with hmem | hmem
    · exact hmem
    · exact absurd (Prod.mk.inj (List.mem_singleton.mp hmem)).1 hne
  | inr call' =>
    obtain ⟨hmsg, hbalanced, -⟩ := hadvance.2 call' hres
    refine ha.resume hcall hid (.refl _ id) rfl ha.sound ?_
    intro c hc
    obtain rfl : call' = c := by simpa using hc
    exact ⟨by rw [hmsg]; exact hworking.received, by rw [hmsg]; exact hworking.onWire, hbalanced,
      hworking.unanswered⟩

theorem books_advance (htip : TipFirst a.world) (hcall : a.world.batches.lookup thread = some call)
    (hworking : a.journal.Working env id call) :
    Books env ⟨(a.world.advanceBatch env now call).1.setBatch thread
      (a.world.advanceBatch env now call).2, a.journal.advance env a.world now id call⟩ := by
  cases call with
  | credit b share => exact books_credit ha hid htip hcall hworking
  | record b share equihashOk => exact books_record ha hid hcall hworking
  | _ => exact books_check ha hid hcall hworking rfl (by simp) rfl

end

/-- **Every step keeps the books.** -/
theorem books_step (ha : Books env a) (htip : TipFirst a.world) (hwire : Audited.FromWire a e)
    (hnext : Audited.next env a e = some a') : Books env a' := by
  obtain ⟨w', hw', rfl⟩ := Option.map_eq_some_iff.mp hnext
  by_cases hsubmit : ∃ thread msg now, e = .submitJd thread msg now
  · obtain ⟨thread, msg, now, rfl⟩ := hsubmit
    exact books_submitJd ha hwire hw'
  by_cases hresume : ∃ thread now, e = .resumeJd thread now
  · obtain ⟨thread, now, rfl⟩ := hresume
    obtain ⟨call, hcall, rfl⟩ := Option.map_eq_some_iff.mp hw'
    obtain ⟨id, hid, hworking⟩ := ha.working thread call hcall
    simp only [Journal.write, hcall, hid]
    exact books_advance ha hid htip hcall hworking
  · obtain ⟨hbatches, hseen⟩ := batches_next (fun t m n h => hsubmit ⟨t, m, n, h⟩)
      (fun t n h => hresume ⟨t, n, h⟩) hw'
    have hjournal : a.journal.write env a.world e = a.journal := by
      cases e with
      | submitJd thread msg now => exact absurd ⟨thread, msg, now, rfl⟩ hsubmit
      | resumeJd thread now => exact absurd ⟨thread, now, rfl⟩ hresume
      | _ => rfl
    rw [hjournal]
    refine ⟨hseen ▸ ha.sound, ?_, ?_⟩
    · intro thread call hcall
      exact ha.working thread call (hbatches ▸ hcall)
    · intro thread thread' id h h'
      exact ha.distinct thread thread' id (hbatches ▸ h) (hbatches ▸ h')

theorem tipFirst_audited (htip : TipFirst a.world) (hnext : Audited.next env a e = some a') :
    TipFirst a'.world := by
  obtain ⟨w', hw', rfl⟩ := Option.map_eq_some_iff.mp hnext
  exact tipFirst_step htip hw'

/-! ## Every batch is answered -/

/-- A thread that goes on with its batch comes closer to the answer. -/
theorem resume_progress (ha : Books env a) (hcall : a.world.batches.lookup thread = some call)
    (hid : a.journal.callIds.lookup thread = some id) (now : Nat) :
    ∃ a', Audited.next env a (.resumeJd thread now) = some a'
      ∧ ((∃ r, (id, r) ∈ a'.journal.answers)
        ∨ ∃ call', a'.world.batches.lookup thread = some call'
          ∧ a'.journal.callIds.lookup thread = some id ∧ call'.work < call.work) := by
  obtain ⟨id', hid', hworking⟩ := ha.working thread call hcall
  obtain rfl : id' = id := Option.some.inj (hid'.symm.trans hid)
  refine ⟨_, by rw [Audited.next, next, hcall]; rfl, ?_⟩
  simp only [Journal.write, hcall, hid, World.lookup_setBatch, if_true]
  by_cases hcredit : ∃ b share, call = .credit b share
  · obtain ⟨b, share, rfl⟩ := hcredit
    refine .inr ⟨_, rfl, ?_, (hworking.balanced.settle hworking.onWire _).2.2⟩
    simp only [Journal.advance]
    split <;> exact hid
  · have hadvance := hworking.balanced.advance hworking.onWire a.world.jd.server
      a.world.seenShares now
    rw [a.world.advanceBatch_of_not_credit env now hcredit]
    cases hres : (call.advance env.toEquihashValidator a.world.jd.server
      a.world.seenShares now).2 with
    | inl r =>
      refine .inl ⟨r, ?_⟩
      cases call with
      | credit b share => exact absurd ⟨b, share, rfl⟩ hcredit
      | record b share equihashOk =>
        -- the entry in `seen_shares` is never the last section
        simp only [Jd.ShareCall.advance] at hres
        split at hres
        · cases hres
        · split at hres <;> cases hres
      | _ =>
        simp only [Journal.advance, hres]
        exact List.mem_append_right _ (List.mem_singleton_self _)
    | inr call' =>
      have hwork := ((hadvance.2 call' hres).2.2).resolve_left hcredit
      refine .inr ⟨call', rfl, ?_, hwork⟩
      cases call with
      | record b share equihashOk =>
        simp only [Journal.advance]
        split <;> exact hid
      | credit b share => exact absurd ⟨b, share, rfl⟩ hcredit
      | _ =>
        simp only [Journal.advance, hres]
        exact hid

/-- A thread that gets enough turns answers, at whatever times it gets them. -/
theorem resume_answers (nows : List Nat) :
    ∀ {a : Audited F} {call : Jd.ShareCall}, Books env a → TipFirst a.world →
      a.world.batches.lookup thread = some call → a.journal.callIds.lookup thread = some id →
      call.work ≤ nows.length →
      ∃ k a', exec (Audited.next env) (fun _ _ => true) a ((nows.take k).map (.resumeJd thread))
        = some a' ∧ ∃ r, (id, r) ∈ a'.journal.answers := by
  induction nows with
  | nil =>
    intro a call _ _ _ _ hwork
    exact absurd hwork (by cases call <;> simp [Jd.ShareCall.work])
  | cons now nows ih =>
    intro a call ha htip hcall hid hwork
    obtain ⟨a₁, hnext, hanswer | ⟨call', hcall', hid', hless⟩⟩ := resume_progress ha hcall hid now
    · refine ⟨1, a₁, ?_, hanswer⟩
      simp [exec, hnext]
    · rw [List.length_cons] at hwork
      have hwire : Audited.FromWire a (.resumeJd thread now) := trivial
      obtain ⟨k, a', hexec, hanswer⟩ := ih (books_step ha htip hwire hnext)
        (tipFirst_audited htip hnext) hcall' hid' (by omega)
      refine ⟨k + 1, a', ?_, hanswer⟩
      simpa [exec, hnext] using hexec

omit [Float64 F] in
theorem books_fresh (env : Env F) (h : Audited.Fresh a) : Books env a := by
  obtain ⟨w, j⟩ := a
  obtain ⟨⟨persistent, rfl⟩, rfl⟩ := h
  refine ⟨⟨?_, ?_, ?_, ?_⟩, ?_, ?_⟩
  · intro id r hr; exact absurd hr (by simp [Journal.new])
  · intro c hc; exact absurd hc (by simp [Journal.new])
  · intro e he; exact absurd he (by simp [Journal.new])
  · intro jobId keys hkeys; exact absurd hkeys (by simp [World.new])
  · intro thread call hcall; exact absurd hcall (by simp [World.new])
  · intro thread thread' id h; exact absurd h (by simp [World.new])

theorem books_of_reach (h : Reach (Audited.next env) Audited.FromWire Audited.Fresh a) :
    Books env a ∧ TipFirst a.world := by
  refine Reach.invariant (I := fun a => Books env a ∧ TipFirst a.world) ?_ ?_ h
  · intro a ha
    refine ⟨books_fresh env ha, ?_⟩
    obtain ⟨⟨persistent, hw⟩, -⟩ := ha
    rw [hw]
    exact fun _ => ⟨Jd.World.jobless_new, fun _ _ h => absurd h (by simp [World.new])⟩
  · rintro a e a' ⟨ha, htip⟩ hwire hnext
    exact ⟨books_step ha htip hwire hnext, tipFirst_audited htip hnext⟩

end Step

/-! ## A batch -/

/-- A share for the declared job, one with another version, and the first one again. -/
def mixedShares : List Jd.JdShare :=
  [⟨4, 1700000000, toBytes32 [1], sampleSolution⟩, ⟨5, 1700000000, toBytes32 [1], sampleSolution⟩,
    ⟨4, 1700000000, toBytes32 [1], sampleSolution⟩]

def mixedEvents : List Event :=
  .submitJd 2 ⟨1, 1, 1, mixedShares⟩ 1 :: List.replicate 8 (.resumeJd 2 1)

def fromWire (_ : Audited Nat) : Event → Bool
  | .submitJd _ msg _ => 1 ≤ msg.shares.length && msg.shares.length ≤ Jd.maxShareCount
  | _ => true

theorem fromWire_of_test (a : Audited Nat) (e : Event) (h : fromWire a e = true) :
    Audited.FromWire a e := by
  cases e with
  | submitJd thread msg now => simpa [fromWire, Audited.FromWire, Jd.SubmitSharesJd.OnWire] using h
  | _ => trivial

end MiningInfra.Pool
