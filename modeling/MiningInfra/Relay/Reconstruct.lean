import MiningInfra.Lib.Gaps
import MiningInfra.Relay.Compact
import MiningInfra.Relay.Parse

/-!
# What the reconstructor computes

What each pass of the reconstruction leaves: the table of short ids, the slots after the prefilled
transactions and the slots after the short ids.
-/

namespace MiningInfra.Relay

open Lib Coinbase

/-! ## The table of short ids -/

section Prepare

variable (sip : SipHash) (mempool : Mempool) (headerHash : Bytes32) (nonce : UInt64)

/-- What the table has for the wtxids of a short id: the wtxid if there is only one. -/
def tableEntry : List WtxId → Option (Option WtxId)
  | [] => none
  | [wtxid] => some (some wtxid)
  | _ :: _ :: _ => some none

/-- The wtxids of the mempool with this short id. -/
def candidates (shortId : ShortId) : List WtxId :=
  mempool.wtxids.filter fun wtxid => ShortId.compute sip wtxid headerHash nonce = shortId

theorem tableEntry_concat {wtxids : List WtxId} {wtxid : WtxId} :
    tableEntry (wtxids ++ [wtxid]) =
      match tableEntry wtxids with
      | some _ => some none
      | none => some (some wtxid) := by
  match wtxids with
  | [] => rfl
  | [_] => rfl
  | _ :: _ :: _ => rfl

theorem lookup_prepare (shortId : ShortId) :
    (prepare sip mempool headerHash nonce).lookup shortId =
      tableEntry (candidates sip mempool headerHash nonce shortId) := by
  rw [prepare, candidates]
  -- over the wtxids that were seen, the last one at the end
  induction mempool.wtxids using List.reverseRecOn with
  | nil => rfl
  | append_singleton seen wtxid ih =>
    rw [List.foldl_append, List.filter_append, List.foldl_cons, List.foldl_nil]
    generalize seen.foldl _ _ = map at ih ⊢
    dsimp only
    by_cases hid : ShortId.compute sip wtxid headerHash nonce = shortId
    · have hlast : [wtxid].filter (fun wtxid => ShortId.compute sip wtxid headerHash nonce
          = shortId) = [wtxid] := by simp [hid]
      rw [hid, ih, hlast, tableEntry_concat]
      cases tableEntry _ with
      | none | some entry => exact AList.lookup_insert _
    · have hlast : [wtxid].filter (fun wtxid => ShortId.compute sip wtxid headerHash nonce
          = shortId) = [] := by simp [hid]
      rw [hlast, List.append_nil, ← ih]
      split <;> exact AList.lookup_insert_ne (Ne.symm hid)

/-- A short id resolves: the mempool has one wtxid for it, and the transaction. -/
def resolution (shortId : ShortId) : Option (List UInt8) :=
  match candidates sip mempool headerHash nonce shortId with
  | [wtxid] => mempool.txData wtxid
  | _ => none

end Prepare

/-! ## The slots -/

/-- The transaction a table and the mempool have for a short id. -/
def resolveWith (mempool : Mempool) (map : Table ShortId (Option WtxId)) (shortId : ShortId) :
    Option (List UInt8) :=
  (map.lookup shortId).join.bind mempool.txData

theorem resolveWith_prepare (sip : SipHash) (mempool : Mempool) (headerHash : Bytes32)
    (nonce : UInt64) (shortId : ShortId) :
    resolveWith mempool (prepare sip mempool headerHash nonce) shortId =
      resolution sip mempool headerHash nonce shortId := by
  rw [resolveWith, lookup_prepare, resolution]
  match candidates sip mempool headerHash nonce shortId with
  | [] => rfl
  | [_] => rfl
  | _ :: _ :: _ => rfl

/-- The positions of the prefilled transactions. -/
def prefilledPositions (compact : CompactBlock) : List Nat :=
  positionsFrom 0 (compact.prefilledTxs.map fun prefilled => prefilled.index.toNat)

variable {total : Nat} {prefilled : List PrefilledTx} {compact : CompactBlock}
  {slots : List (Option (List UInt8))} {mempool : Mempool} {hashes : Hashes} {reader : TxReader}
  {P : List UInt8 → Prop} {map : Table ShortId (Option WtxId)}

theorem fillPrefilled_spec :
    ∀ {start : Nat} {slots slots' : List (Option (List UInt8))}, slots.length = total →
      (∀ i, start ≤ i → slots.getD i none = none) →
      fillPrefilled total start slots prefilled = .ok slots' →
      slots'.length = total ∧
        (∀ position ∈ positionsFrom start (prefilled.map fun p => p.index.toNat),
          position < total) ∧
        ∀ i, (slots'.getD i none).isNone = ((slots.getD i none).isNone &&
          i ∉ positionsFrom start (prefilled.map fun p => p.index.toNat)) := by
  induction prefilled with
  | nil =>
    intro start slots slots' hlen _ h
    obtain rfl := Except.ok.inj h
    exact ⟨hlen, fun _ hmem => absurd hmem (by simp [positionsFrom]), fun i => by
      simp [positionsFrom]⟩
  | cons tx prefilled ih =>
    intro start slots slots' hlen hempty h
    rw [fillPrefilled] at h
    split at h
    · rename_i hlt
      split at h
      · cases h
      · have hset : ∀ i, (slots.set (start + tx.index.toNat) (some tx.txData)).getD i none =
            if start + tx.index.toNat = i then some tx.txData else slots.getD i none := by
          intro i
          rw [List.getD_eq_getElem?_getD, List.getElem?_set]
          split
          · rename_i heq
            rw [if_pos (hlen ▸ hlt)]
            rfl
          · rw [List.getD_eq_getElem?_getD]
        have hlen' : (slots.set (start + tx.index.toNat) (some tx.txData)).length = total := by
          rw [List.length_set, hlen]
        have hempty' : ∀ i, start + tx.index.toNat + 1 ≤ i →
            (slots.set (start + tx.index.toNat) (some tx.txData)).getD i none = none := by
          intro i hi
          rw [hset, if_neg (by omega)]
          exact hempty i (by omega)
        obtain ⟨hlength, hbounds, hslots⟩ := ih hlen' hempty' h
        refine ⟨hlength, fun position hmem => ?_, fun i => ?_⟩
        · rcases List.mem_cons.mp hmem with rfl | hmem
          · exact hlt
          · exact hbounds position hmem
        · rw [hslots, hset, List.map_cons, positionsFrom]
          by_cases hi : start + tx.index.toNat = i
          · simp [hi]
          · simp [hi, Ne.symm hi]
    · cases h

/-- The positions that are not prefilled. -/
def freePositions (compact : CompactBlock) : List Nat :=
  (List.range compact.txCount).filter (· ∉ prefilledPositions compact)

/-- From empty slots, the prefilled transactions leave the free positions. -/
theorem fillPrefilled_start
    (h : fillPrefilled compact.txCount 0 (List.replicate compact.txCount none)
      compact.prefilledTxs = .ok slots) :
    slots.length = compact.txCount ∧
      (∀ position ∈ prefilledPositions compact, position < compact.txCount) ∧
      emptyFrom 0 slots = freePositions compact := by
  have hempty : ∀ i,
      (List.replicate compact.txCount (none : Option (List UInt8))).getD i none = none := by
    intro i
    rw [List.getD_eq_getElem?_getD, List.getElem?_replicate]
    split <;> rfl
  obtain ⟨hlen, hpositions, hslots⟩ :=
    fillPrefilled_spec List.length_replicate (fun i _ => hempty i) h
  refine ⟨hlen, hpositions, ?_⟩
  rw [emptyFrom_zero, hlen, freePositions]
  refine List.filter_congr fun i _ => ?_
  rw [hslots, hempty]
  exact Bool.true_and _

/-- One step of the loop over the slots: what the short id resolves to goes into the slot, and
a slot that stays empty is counted once. -/
theorem resolveSlots_empty {shortId : ShortId} {ids : List ShortId} {r : Resolved}
    (h : resolveSlots mempool map (none :: slots) (shortId :: ids) = .ok r) :
    ∃ r', resolveSlots mempool map slots ids = .ok r' ∧ r.leftOver = r'.leftOver ∧
      r.slots = resolveWith mempool map shortId :: r'.slots ∧
      r.missingWtxids.length + r.unresolvedShortIds.length =
        r'.missingWtxids.length + r'.unresolvedShortIds.length +
          if (resolveWith mempool map shortId).isNone then 1 else 0 := by
  rw [resolveSlots] at h
  obtain ⟨r', hr, h⟩ := Results.bind_eq_ok.mp h
  refine ⟨r', hr, ?_⟩
  split at h
  · rename_i wtxid hlookup
    have hresolve : resolveWith mempool map shortId = mempool.txData wtxid := by
      rw [resolveWith, hlookup]
      rfl
    split at h
    · rename_i tx htx
      obtain rfl := Except.ok.inj h
      rw [hresolve, htx]
      exact ⟨rfl, rfl, rfl⟩
    · rename_i htx
      obtain rfl := Except.ok.inj h
      rw [hresolve, htx]
      exact ⟨rfl, rfl, Nat.succ_add _ _⟩
  · rename_i hlookup
    have hresolve : resolveWith mempool map shortId = none := by
      rw [resolveWith]
      match hentry : map.lookup shortId with
      | none => rfl
      | some none => rfl
      | some (some wtxid) => exact absurd hentry (hlookup wtxid)
    obtain rfl := Except.ok.inj h
    rw [hresolve]
    exact ⟨rfl, rfl, Nat.add_succ _ _⟩

/-- What the loop over the slots leaves: the slots that were empty and whose short id did not
resolve. -/
theorem resolveSlots_spec :
    ∀ (start : Nat) {ids : List ShortId} {r : Resolved},
      resolveSlots mempool map slots ids = .ok r →
      r.slots.length = slots.length ∧
        (emptyFrom start slots).length + r.leftOver.length = ids.length ∧
        emptyFrom start r.slots = (((emptyFrom start slots).zip ids).filter fun slot =>
          (resolveWith mempool map slot.2).isNone).map Prod.fst ∧
        (emptyFrom start r.slots).length =
          r.missingWtxids.length + r.unresolvedShortIds.length := by
  induction slots with
  | nil =>
    intro start ids r h
    obtain rfl := Except.ok.inj h
    exact ⟨rfl, Nat.zero_add _, rfl, rfl⟩
  | cons slot slots ih =>
    intro start ids r h
    cases slot with
    | some tx =>
      rw [resolveSlots] at h
      obtain ⟨r', hr, h⟩ := Results.bind_eq_ok.mp h
      obtain rfl := Except.ok.inj h
      obtain ⟨hlen, hids, hempty, hcount⟩ := ih (start + 1) hr
      exact ⟨congrArg Nat.succ hlen, hids, hempty, hcount⟩
    | none =>
      cases ids with
      | nil => exact absurd h (by simp [resolveSlots])
      | cons shortId ids =>
        obtain ⟨r', hr, hleft, hslots, hsum⟩ := resolveSlots_empty h
        obtain ⟨hlen, hids, hempty, hcount⟩ := ih (start + 1) hr
        have hids' : (emptyFrom start (none :: slots)).length + r.leftOver.length =
            (shortId :: ids).length := by
          rw [emptyFrom, List.length_cons, List.length_cons, hleft]
          omega
        refine ⟨?_, hids', ?_, ?_⟩
        · rw [hslots, List.length_cons, List.length_cons, hlen]
        · rw [hslots, emptyFrom, List.zip_cons_cons, List.filter_cons]
          cases hresolve : resolveWith mempool map shortId with
          | none | some tx => simpa [emptyFrom] using hempty
        · rw [hsum, ← hcount, hslots]
          cases hresolve : resolveWith mempool map shortId with
          | none => rfl
          | some tx => rfl

/-! ## The results -/

/-- A result that is not a refusal comes from slots that were filled from both sources. -/
theorem reconstruct_cases (hashes : Hashes) (reader : TxReader) (mempool : Mempool)
    (map : Table ShortId (Option WtxId)) (compact : CompactBlock) :
    (∃ reason, reconstruct hashes reader mempool map compact = .invalid reason) ∨
      ∃ slots r, fillPrefilled compact.txCount 0 (List.replicate compact.txCount none)
          compact.prefilledTxs = .ok slots ∧
        resolveSlots mempool map slots compact.shortIds = .ok r ∧ r.leftOver = [] ∧
        reconstruct hashes reader mempool map compact = assemble hashes reader compact.header r := by
  rw [reconstruct]
  cases hfill : fillPrefilled compact.txCount 0 (List.replicate compact.txCount none)
      compact.prefilledTxs with
  | error reason => exact .inl ⟨reason, rfl⟩
  | ok slots =>
    dsimp only
    cases hresolve : resolveSlots mempool map slots compact.shortIds with
    | error reason => exact .inl ⟨reason, rfl⟩
    | ok r =>
      dsimp only
      split
      · exact .inl ⟨_, rfl⟩
      · rename_i hleft
        exact .inr ⟨slots, r, rfl, hresolve, not_not.mp hleft, rfl⟩

/-- A complete block passed the check. -/
theorem reconstruct_complete {txs : List (List UInt8)}
    (h : reconstruct hashes reader mempool map compact = .complete txs) :
    ∃ count, validateBlockTransactions hashes reader compact.header txs = .ok count := by
  rcases reconstruct_cases hashes reader mempool map compact with ⟨reason, hr⟩ | hr
  · exact absurd (hr.symm.trans h) (by simp)
  · obtain ⟨slots, r, -, -, -, hr⟩ := hr
    rw [hr, assemble] at h
    split at h
    · dsimp only at h
      split at h
      · cases h
      · rename_i count hcount
        obtain rfl := ReconstructionResult.complete.inj h
        exact ⟨count, hcount⟩
    · cases h

/-- **What an incomplete reconstruction lacks.** Every free position has its short id, and the
slots that are empty are those whose short id did not resolve. -/
theorem reconstruct_incomplete {missing : List WtxId} {unresolved : List ShortId}
    (h : reconstruct hashes reader mempool map compact = .incomplete slots missing unresolved) :
    slots.length = compact.txCount ∧
      (freePositions compact).length = compact.shortIds.length ∧
      emptyFrom 0 slots = (((freePositions compact).zip compact.shortIds).filter fun slot =>
        (resolveWith mempool map slot.2).isNone).map Prod.fst ∧
      (emptyFrom 0 slots).length = missing.length + unresolved.length := by
  rcases reconstruct_cases hashes reader mempool map compact with ⟨reason, hr⟩ | hr
  · exact absurd (hr.symm.trans h) (by simp)
  · obtain ⟨filled, r, hfill, hresolve, hleft, hr⟩ := hr
    obtain ⟨hfilled, -, hfree⟩ := fillPrefilled_start hfill
    obtain ⟨hlen, hids, hempty, hcount⟩ := resolveSlots_spec 0 hresolve
    rw [hfree, hleft, List.length_nil, Nat.add_zero] at hids
    rw [hfree] at hempty
    rw [hr, assemble] at h
    split at h
    · dsimp only at h
      split at h
      · cases h
      · cases h
    · obtain ⟨rfl, rfl, rfl⟩ := ReconstructionResult.incomplete.inj h
      exact ⟨hlen.trans hfilled, hids, hempty, hcount⟩

/-! ## The data of the slots -/

/-- What fills the slots is prefilled data or what the mempool has. -/
theorem fillPrefilled_data (hprefilled : ∀ tx ∈ prefilled, P tx.txData) :
    ∀ {offset : Nat} {slots slots' : List (Option (List UInt8))},
      (∀ tx, some tx ∈ slots → P tx) →
      fillPrefilled total offset slots prefilled = .ok slots' → ∀ tx, some tx ∈ slots' → P tx := by
  induction prefilled with
  | nil =>
    intro offset slots slots' hslots h
    obtain rfl := Except.ok.inj h
    exact hslots
  | cons tx prefilled ih =>
    intro offset slots slots' hslots h
    have hrest : ∀ tx ∈ prefilled, P tx.txData :=
      fun tx hmem => hprefilled tx (List.mem_cons_of_mem _ hmem)
    rw [fillPrefilled] at h
    split at h
    · split at h
      · cases h
      · refine ih hrest (fun data hmem => ?_) h
        rcases List.mem_or_eq_of_mem_set hmem with hmem | heq
        · exact hslots data hmem
        · exact Option.some.inj heq ▸ hprefilled tx List.mem_cons_self
    · cases h

theorem resolveSlots_data (hmempool : ∀ wtxid tx, mempool.txData wtxid = some tx → P tx) :
    ∀ {ids : List ShortId} {r : Resolved}, (∀ tx, some tx ∈ slots → P tx) →
      resolveSlots mempool map slots ids = .ok r → ∀ tx, some tx ∈ r.slots → P tx := by
  induction slots with
  | nil =>
    intro ids r hslots h
    obtain rfl := Except.ok.inj h
    exact hslots
  | cons slot slots ih =>
    intro ids r hslots h
    have hrest : ∀ tx, some tx ∈ slots → P tx :=
      fun tx hmem => hslots tx (List.mem_cons_of_mem _ hmem)
    cases slot with
    | some tx =>
      rw [resolveSlots] at h
      obtain ⟨r', hr, h⟩ := Results.bind_eq_ok.mp h
      obtain rfl := Except.ok.inj h
      intro data hmem
      rcases List.mem_cons.mp hmem with heq | hmem
      · exact hslots data (heq ▸ List.mem_cons_self)
      · exact ih hrest hr data hmem
    | none =>
      cases ids with
      | nil => exact absurd h (by simp [resolveSlots])
      | cons shortId ids =>
        obtain ⟨r', hr, -, hcons, -⟩ := resolveSlots_empty h
        intro data hmem
        rw [hcons] at hmem
        rcases List.mem_cons.mp hmem with heq | hmem
        · obtain ⟨wtxid, -, hdata⟩ := Option.bind_eq_some_iff.mp heq.symm
          exact hmempool wtxid data hdata
        · exact ih hrest hr data hmem

end MiningInfra.Relay
