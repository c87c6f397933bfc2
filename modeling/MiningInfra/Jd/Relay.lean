import MiningInfra.Jd.Listener

/-!
# Batches of shares

The relay of the declaring client collects accepted shares by job and hands out a message when a
job has enough of them, or one for every job when the timer fires.
-/

namespace MiningInfra.Jd.Client

/-- The shares of a message, each with its job. -/
def items (msg : SubmitSharesJd) : List RelayShare := msg.shares.map (RelayShare.mk msg.jobId)

/-- `MAX_BATCH`. -/
def maxBatch : Nat := 32

/-- `JD_CHANNEL_ID`. -/
def jdChannelId : UInt32 := 1

/-- The shares of each job in the order they came. -/
abbrev Groups := List (UInt32 × List JdShare)

namespace Groups

/-- Add a share to the first group of its job, or begin one. -/
def add : Groups → RelayShare → Groups
  | [], item => [(item.jobId, [item.share])]
  | (jobId, shares) :: rest, item =>
    if jobId = item.jobId then (jobId, shares ++ [item.share]) :: rest
    else (jobId, shares) :: add rest item

/-- The first group of a job. -/
def find : Groups → UInt32 → List JdShare
  | [], _ => []
  | (jobId', shares) :: rest, jobId => if jobId' = jobId then shares else find rest jobId

/-- The groups once that group was taken. -/
def take : Groups → UInt32 → Groups
  | [], _ => []
  | (jobId', shares) :: rest, jobId =>
    if jobId' = jobId then (jobId', []) :: rest else (jobId', shares) :: take rest jobId

/-- The groups that hold something. -/
def filled (groups : Groups) : Groups := groups.filter fun g => !g.2.isEmpty

/-- The shares in all groups. -/
def items (groups : Groups) : List RelayShare :=
  groups.flatMap fun g => g.2.map (RelayShare.mk g.1)

end Groups

structure RelayBatcher where
  pending : Groups
  nextRequestId : UInt32
  channelId : UInt32

namespace RelayBatcher

def new (channelId : UInt32) : RelayBatcher := ⟨[], 1, channelId⟩

def buildMessage (b : RelayBatcher) (jobId : UInt32) (shares : List JdShare) :
    RelayBatcher × SubmitSharesJd :=
  ({ b with nextRequestId := b.nextRequestId + 1 }, ⟨b.channelId, b.nextRequestId, jobId, shares⟩)

def push (b : RelayBatcher) (item : RelayShare) : RelayBatcher × Option SubmitSharesJd :=
  let pending := b.pending.add item
  let group := pending.find item.jobId
  if maxBatch ≤ group.length then
    let built := { b with pending := (pending.take item.jobId).filled }.buildMessage item.jobId group
    (built.1, some built.2)
  else ({ b with pending }, none)

/-- One message for each group. -/
def buildAll : RelayBatcher → Groups → RelayBatcher × List SubmitSharesJd
  | b, [] => (b, [])
  | b, (jobId, shares) :: rest =>
    let built := b.buildMessage jobId shares
    let all := buildAll built.1 rest
    (all.1, built.2 :: all.2)

def flushAll (b : RelayBatcher) : RelayBatcher × List SubmitSharesJd :=
  buildAll { b with pending := [] } b.pending.filled

end RelayBatcher

/-! ## No share is lost or made up -/

namespace Groups

theorem items_add (groups : Groups) (item : RelayShare) :
    (groups.add item).items.Perm (groups.items ++ [item]) := by
  induction groups with
  | nil => exact List.Perm.refl _
  | cons g rest ih =>
    rw [add]
    split
    · rename_i hjob
      simp only [items, List.flatMap_cons, List.map_append, List.map_cons, List.map_nil, hjob,
        List.append_assoc]
      exact (List.perm_append_comm).append_left _
    · simp only [items, List.flatMap_cons, List.append_assoc] at ih ⊢
      exact ih.append_left _

theorem items_take (groups : Groups) (jobId : UInt32) :
    ((groups.find jobId).map (RelayShare.mk jobId) ++ (groups.take jobId).items).Perm
      groups.items := by
  induction groups with
  | nil => exact List.Perm.refl _
  | cons g rest ih =>
    rw [find, take]
    split
    · rename_i hjob
      simp only [items, List.flatMap_cons, List.map_nil, List.nil_append, hjob]
      exact List.Perm.refl _
    · simp only [items, List.flatMap_cons] at ih ⊢
      rw [← List.append_assoc]
      refine (List.perm_append_comm.append_right _).trans ?_
      rw [List.append_assoc]
      exact ih.append_left _

theorem items_filled (groups : Groups) : groups.filled.items = groups.items := by
  induction groups with
  | nil => rfl
  | cons g rest ih =>
    rw [filled, List.filter_cons]
    split
    · simp only [items, List.flatMap_cons] at ih ⊢
      rw [← ih]
      rfl
    · rename_i hempty
      have hnil : g.2 = [] := by simpa using hempty
      simp only [items, List.flatMap_cons, hnil, List.map_nil, List.nil_append] at ih ⊢
      exact ih

end Groups

namespace RelayBatcher

section

variable (b : RelayBatcher)

/-- **A push loses nothing**: the share is in the message or waits with the others. -/
theorem items_push (item : RelayShare) :
    ((b.push item).2.toList.flatMap Client.items ++ (b.push item).1.pending.items).Perm
      (b.pending.items ++ [item]) := by
  rw [push]
  split
  · simp only [buildMessage, Option.toList_some, List.flatMap_cons, List.flatMap_nil,
      List.append_nil, Client.items, Groups.items_filled]
    exact (Groups.items_take _ _).trans (Groups.items_add _ _)
  · exact Groups.items_add _ _

theorem items_buildAll (groups : Groups) :
    (b.buildAll groups).2.flatMap Client.items = groups.items := by
  induction groups generalizing b with
  | nil => rfl
  | cons g rest ih =>
    rw [buildAll]
    simp only [List.flatMap_cons, buildMessage, ih]
    rfl

theorem pending_buildAll (groups : Groups) : (b.buildAll groups).1.pending = b.pending := by
  induction groups generalizing b with
  | nil => rfl
  | cons g rest ih => exact ih _

/-- **A flush hands out everything.** -/
theorem items_flushAll :
    b.flushAll.2.flatMap Client.items = b.pending.items ∧ b.flushAll.1.pending = [] := by
  rw [flushAll, items_buildAll, pending_buildAll, Groups.items_filled]
  exact ⟨rfl, rfl⟩

end

end RelayBatcher

/-! ## Batches keep the order of the shares -/

namespace Groups

/-- The shares of a job that wait. -/
def ofJob (groups : Groups) (jobId : UInt32) : List RelayShare :=
  groups.items.filter (·.jobId = jobId)

/-- A job has one group. -/
def Distinct : Groups → Prop
  | [] => True
  | g :: rest => ofJob rest g.1 = [] ∧ Distinct rest

theorem ofJob_cons (g : UInt32 × List JdShare) (rest : Groups) (jobId : UInt32) :
    ofJob (g :: rest) jobId =
      (if g.1 = jobId then g.2.map (RelayShare.mk g.1) else []) ++ ofJob rest jobId := by
  simp only [ofJob, items, List.flatMap_cons, List.filter_append, List.filter_map]
  split <;> simp [Function.comp_def, *]

variable {groups : Groups}

/-- A share is added behind those of its job. -/
theorem Distinct.add (h : groups.Distinct) (item : RelayShare) : (groups.add item).Distinct ∧
    ∀ jobId, (groups.add item).ofJob jobId =
      groups.ofJob jobId ++ [item].filter (·.jobId = jobId) := by
  obtain ⟨job, share⟩ := item
  induction groups with
  | nil => exact ⟨⟨rfl, trivial⟩, fun _ => rfl⟩
  | cons g rest ih =>
    obtain ⟨hone, hrest⟩ := h
    obtain ⟨hdistinct, hadd⟩ := ih hrest
    rw [Groups.add]
    split
    · exact ⟨⟨hone, hrest⟩, by grind [ofJob_cons]⟩
    · exact ⟨⟨by grind, hdistinct⟩, by grind [ofJob_cons]⟩

/-- The group of a job has all its shares, and without it those of the others are left. -/
theorem Distinct.take (h : groups.Distinct) (taken : UInt32) :
    (groups.find taken).map (RelayShare.mk taken) = groups.ofJob taken ∧
      (groups.take taken).Distinct ∧ ∀ jobId,
        (groups.take taken).ofJob jobId = if jobId = taken then [] else groups.ofJob jobId := by
  induction groups with
  | nil => exact ⟨rfl, trivial, fun _ => (ite_self _).symm⟩
  | cons g rest ih =>
    obtain ⟨hone, hrest⟩ := h
    obtain ⟨hfind, hdistinct, htake⟩ := ih hrest
    rw [Groups.take, Groups.find]
    split
    · exact ⟨by grind [ofJob_cons], ⟨by grind, hrest⟩, by grind [ofJob_cons]⟩
    · exact ⟨by grind [ofJob_cons], ⟨by grind, hdistinct⟩, by grind [ofJob_cons]⟩

theorem ofJob_filled : groups.filled.ofJob = groups.ofJob := by
  funext jobId
  rw [ofJob, items_filled, ofJob]

theorem Distinct.filled (h : groups.Distinct) : groups.filled.Distinct := by
  induction groups with
  | nil => trivial
  | cons g rest ih =>
    rw [Groups.filled, List.filter_cons]
    split
    · exact ⟨(congrFun ofJob_filled _).trans h.1, ih h.2⟩
    · exact ih h.2

end Groups

/-- A message of a flush has something, and no more than what waited for its job. -/
theorem RelayBatcher.length_buildAll {groups : Groups} {b : RelayBatcher} {msg : SubmitSharesJd}
    (h : msg ∈ (b.buildAll groups.filled).2) :
    1 ≤ msg.shares.length ∧ msg.shares.length ≤ (groups.ofJob msg.jobId).length := by
  induction groups generalizing b with
  | nil => cases h
  | cons g rest ih =>
    rw [Groups.filled, List.filter_cons] at h
    rw [Groups.ofJob_cons, List.length_append]
    split at h
    · rename_i hfilled
      rcases List.mem_cons.mp h with rfl | h
      · rw [buildMessage, if_pos rfl, List.length_map]
        exact ⟨List.length_pos_iff.mpr (by simpa using hfilled), Nat.le_add_right _ _⟩
      · have := ih h
        omega
    · have := ih h
      omega

def RelayBatcher.isEmpty (b : RelayBatcher) : Bool := b.pending.all fun g => g.2.isEmpty

/-- A call of the batcher. -/
inductive BatchOp where
  | push (item : RelayShare)
  | flushAll

/-- The batcher with what was pushed and what it handed out. -/
structure Batches where
  batcher : RelayBatcher
  pushed : List RelayShare
  sent : List SubmitSharesJd

namespace Batches

def step (s : Batches) : BatchOp → Batches
  | .push item =>
    ⟨(s.batcher.push item).1, s.pushed ++ [item], s.sent ++ (s.batcher.push item).2.toList⟩
  | .flushAll => ⟨s.batcher.flushAll.1, s.pushed, s.sent ++ s.batcher.flushAll.2⟩

/-- What the messages and the groups hold of a job are the shares pushed for it, in order. -/
structure Kept (s : Batches) : Prop where
  distinct : s.batcher.pending.Distinct
  waiting : ∀ jobId, (s.batcher.pending.ofJob jobId).length < maxBatch
  order : ∀ jobId, (s.sent.flatMap items).filter (·.jobId = jobId) ++
    s.batcher.pending.ofJob jobId = s.pushed.filter (·.jobId = jobId)
  sizes : ∀ msg ∈ s.sent, 1 ≤ msg.shares.length ∧ msg.shares.length ≤ maxBatch

variable {s : Batches}

theorem Kept.flushAll (h : s.Kept) : (s.step .flushAll).Kept := by
  obtain ⟨hitems, hpending⟩ := s.batcher.items_flushAll
  refine ⟨?_, ?_, fun jobId => ?_, fun msg hmsg => ?_⟩
  · rw [step, hpending]
    trivial
  · rw [step, hpending]
    exact fun _ => Nat.zero_lt_succ 31
  · rw [step, hpending, ← h.order, List.flatMap_append, hitems, List.filter_append]
    exact List.append_nil _
  · rcases List.mem_append.mp hmsg with hmsg | hmsg
    · exact h.sizes msg hmsg
    · obtain ⟨hpos, hle⟩ := RelayBatcher.length_buildAll hmsg
      exact ⟨hpos, Nat.le_trans hle (Nat.le_of_lt (h.waiting _))⟩

theorem Kept.push (h : s.Kept) (item : RelayShare) : (s.step (.push item)).Kept := by
  obtain ⟨hdistinct, hadd⟩ := h.distinct.add item
  obtain ⟨hfind, htaken, htake⟩ := hdistinct.take item.jobId
  have hlength : ((s.batcher.pending.add item).find item.jobId).length =
      (s.batcher.pending.ofJob item.jobId).length + 1 := by
    have hlength := congrArg List.length (hfind.trans (hadd item.jobId))
    simpa using hlength
  have hother : ∀ jobId, jobId ≠ item.jobId →
      (s.batcher.pending.add item).ofJob jobId = s.batcher.pending.ofJob jobId := by
    intro jobId hne
    simpa [Ne.symm hne] using hadd jobId
  have hold := h.waiting item.jobId
  rw [step, RelayBatcher.push]
  split
  · refine ⟨htaken.filled, fun jobId => ?_, fun jobId => ?_, ?_⟩
    · simp only [RelayBatcher.buildMessage, Groups.ofJob_filled, htake]
      split
      · exact Nat.zero_lt_succ 31
      · exact hother jobId ‹_› ▸ h.waiting jobId
    · simp only [RelayBatcher.buildMessage, Groups.ofJob_filled, htake, Option.toList_some,
        List.flatMap_append, List.flatMap_cons, List.flatMap_nil, List.append_nil, items, hfind,
        List.filter_append, ← h.order, List.append_assoc, ← hadd]
      by_cases hsame : jobId = item.jobId
      · simp [hsame, Groups.ofJob]
      · have hnone : ((s.batcher.pending.add item).ofJob item.jobId).filter (·.jobId = jobId) = [] :=
          List.filter_eq_nil_iff.mpr (by grind [Groups.ofJob])
        rw [if_neg hsame, hnone, List.nil_append]
    · intro msg hmsg
      rcases List.mem_append.mp hmsg with hmsg | hmsg
      · exact h.sizes msg hmsg
      · obtain rfl := List.mem_singleton.mp hmsg
        simp only [RelayBatcher.buildMessage]
        omega
  · refine ⟨hdistinct, fun jobId => ?_, fun jobId => ?_, fun msg hmsg => ?_⟩
    · by_cases hsame : jobId = item.jobId
      · rw [hsame, ← hfind, List.length_map]
        exact Nat.lt_of_not_le ‹_›
      · exact hother jobId hsame ▸ h.waiting jobId
    · simp only [Option.toList_none, List.append_nil, List.filter_append, ← h.order, hadd,
        List.append_assoc]
    · exact h.sizes msg (by simpa using hmsg)

end Batches

/-- **The messages hold what was pushed.** After a flush they have the shares of every job in the
order they were pushed, each message has a share at least and no more than a batch, and nothing
waits; at any time fewer shares of a job wait than a batch has. -/
theorem batches_keep_order (channelId : UInt32) (ops : List BatchOp) :
    let s := ops.foldl Batches.step ⟨.new channelId, [], []⟩
    let flushed := s.step .flushAll
    (∀ jobId, (flushed.sent.flatMap items).filter (·.jobId = jobId) =
        s.pushed.filter (·.jobId = jobId)) ∧
      (∀ msg ∈ flushed.sent, 1 ≤ msg.shares.length ∧ msg.shares.length ≤ maxBatch) ∧
      flushed.batcher.isEmpty = true ∧
      ∀ jobId, (s.batcher.pending.ofJob jobId).length ≤ maxBatch - 1 := by
  intro s flushed
  have hnew : Batches.Kept ⟨.new channelId, [], []⟩ :=
    ⟨trivial, fun _ => Nat.zero_lt_succ 31, fun _ => rfl, nofun⟩
  have hs : s.Kept := List.foldlRecOn ops _ hnew fun s hs op _ => by
    cases op with
    | push item => exact hs.push item
    | flushAll => exact hs.flushAll
  have hpending : flushed.batcher.pending = [] := s.batcher.items_flushAll.2
  refine ⟨fun jobId => ?_, hs.flushAll.sizes, ?_, fun jobId => Nat.le_pred_of_lt (hs.waiting jobId)⟩
  · have horder := hs.flushAll.order jobId
    rw [hpending] at horder
    exact (List.append_nil _).symm.trans horder
  · rw [RelayBatcher.isEmpty, hpending]
    rfl

end MiningInfra.Jd.Client
