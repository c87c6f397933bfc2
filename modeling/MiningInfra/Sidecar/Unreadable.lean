import MiningInfra.Relay.Parse
import MiningInfra.Sidecar.Receive

/-!
# What the two unexplained refusals say

`Transaction` and `TrailingBytes` are the refusals of `read_checked` that say nothing against what
was read. A transaction that did not parse is what the emergency bypass may override, so it must
not stand for a body that is already known to be wrong: a repeated txid comes first, and the root
is compared before the bytes that are left over.
-/

namespace MiningInfra.Sidecar

open Coinbase Relay

/-- The transactions at the front of the bytes, one after the other, with what is left. -/
inductive ReadsRun (reader : TxReader) : List UInt8 → List Bytes32 → List UInt8 → Prop
  | nil {left : List UInt8} : ReadsRun reader left [] left
  | cons {rest left : List UInt8} {tx : ReadTransaction} {ids : List Bytes32} :
      reader.read rest = some tx → ReadsRun reader (rest.drop tx.position) ids left →
      ReadsRun reader rest (tx.txid :: ids) left

/-- The checks before the first transaction: the size, the header and a count that is not zero. -/
structure Opens (raw : List UInt8) (count : Nat) (rest : List UInt8) : Prop where
  size : raw.length ≤ maxBlockBytes
  header : zcashFullHeaderSize ≤ raw.length
  declared : readCompactSizeStrict (raw.drop zcashFullHeaderSize) = some (count, rest)
  nonzero : count ≠ 0

variable {hashes : Hashes} {reader : TxReader} {raw rest left left' : List UInt8} {count : Nat}
  {e : BlockBodyError} {txids : List Bytes32} {boundaries : List (Nat × Nat)}

/-- What the read loop reports when the transaction behind `txids` does not parse. -/
def stoppedBy (txids : List Bytes32) : BlockBodyError :=
  match firstRepeatedTxid txids with
  | some index => .duplicateTxid index
  | none => .transaction txids.length

theorem stoppedBy_eq_transaction {i : Nat} :
    stoppedBy txids = .transaction i ↔ txids.Nodup ∧ txids.length = i := by
  rw [stoppedBy, ← firstRepeatedTxid_eq_none]
  cases firstRepeatedTxid txids with
  | some index | none => simp

theorem stoppedBy_ne_trailingBytes {k : Nat} : stoppedBy txids ≠ .trailingBytes k := by
  rw [stoppedBy]
  cases firstRepeatedTxid txids with
  | some index | none => simp

/-- **The read loop**: it stops at the first transaction that does not parse, or reads all. -/
theorem readTransactions_run (reader : TxReader) (count : Nat) :
    ∀ (start : Nat) (rest : List UInt8) (txids : List Bytes32) (boundaries : List (Nat × Nat)),
      (∃ ids left, ReadsRun reader rest ids left ∧ ids.length < count ∧ reader.read left = none ∧
        readTransactions reader txids boundaries count start rest =
          .error (stoppedBy (txids ++ ids))) ∨
      ∃ ids left boundaries', ReadsRun reader rest ids left ∧ ids.length = count ∧
        readTransactions reader txids boundaries count start rest =
          .ok (txids ++ ids, boundaries', left) := by
  induction count with
  | zero =>
    intro start rest txids boundaries
    exact .inr ⟨[], rest, boundaries, .nil, rfl, by rw [List.append_nil]; rfl⟩
  | succ count ih =>
    intro start rest txids boundaries
    rw [readTransactions]
    cases hread : reader.read rest with
    | none => exact .inl ⟨[], rest, .nil, Nat.succ_pos _, hread, by rw [List.append_nil]; rfl⟩
    | some tx =>
      -- the txid that was just read moves from the run to what has been read
      have hmove : ∀ ids, txids ++ [tx.txid] ++ ids = txids ++ tx.txid :: ids :=
        fun ids => List.append_assoc ..
      rcases ih (start + tx.position) (rest.drop tx.position) (txids ++ [tx.txid])
          (boundaries ++ [(start, start + tx.position)]) with
        ⟨ids, left, hrun, hlen, hnone, heq⟩ | ⟨ids, left, boundaries', hrun, hlen, heq⟩
      · refine .inl ⟨tx.txid :: ids, left, .cons hread hrun, Nat.succ_lt_succ hlen, hnone, ?_⟩
        rw [← hmove]
        exact heq
      · refine .inr ⟨tx.txid :: ids, left, boundaries', .cons hread hrun, congrArg (· + 1) hlen, ?_⟩
        rw [← hmove]
        exact heq

/-- A run is determined by its bytes and its length. -/
theorem ReadsRun.unique {ids ids' : List Bytes32} (h : ReadsRun reader rest ids left)
    (h' : ReadsRun reader rest ids' left') (hlen : ids.length = ids'.length) :
    ids = ids' ∧ left = left' := by
  induction h generalizing ids' with
  | nil =>
    cases h' with
    | nil => exact ⟨rfl, rfl⟩
    | cons => cases hlen
  | cons hread _ ih =>
    cases h' with
    | nil => cases hlen
    | cons hread' hrun' =>
      obtain rfl := Option.some.inj (hread.symm.trans hread')
      obtain ⟨rfl, rfl⟩ := ih hrun' (Nat.succ.inj hlen)
      exact ⟨rfl, rfl⟩

/-- A run that stops at bytes that do not parse is the longest. -/
theorem ReadsRun.length_le {ids ids' : List Bytes32} (h : ReadsRun reader rest ids left)
    (hstop : reader.read left = none) (h' : ReadsRun reader rest ids' left') :
    ids'.length ≤ ids.length := by
  induction h generalizing ids' with
  | nil =>
    cases h' with
    | nil => exact Nat.le_refl _
    | cons hread' => cases hstop.symm.trans hread'
  | cons hread _ ih =>
    cases h' with
    | nil => exact Nat.zero_le _
    | cons hread' hrun' =>
      obtain rfl := Option.some.inj (hread.symm.trans hread')
      exact Nat.succ_le_succ (ih hstop hrun')

/-- A body that does not open is refused for that. -/
theorem opens_of_error (h : readChecked hashes reader raw = .error e)
    (hlarge : ∀ n, e ≠ .tooLarge n) (hheader : e ≠ .invalidHeaderLength)
    (hcount : e ≠ .invalidCount) (hempty : e ≠ .emptyTransactions) :
    ∃ count rest, Opens raw count rest := by
  rw [readChecked] at h
  split at h
  · exact absurd (Except.error.inj h).symm (hlarge _)
  · split at h
    · exact absurd (Except.error.inj h).symm hheader
    · dsimp only at h
      split at h
      · exact absurd (Except.error.inj h).symm hcount
      · split at h
        · exact absurd (Except.error.inj h).symm hempty
        · exact ⟨_, _, by omega, by omega, ‹_›, ‹_›⟩

/-- Behind the first checks come the read loop, the txids and the bytes that are left. -/
theorem Opens.readChecked_eq (h : Opens raw count rest) :
    readChecked hashes reader raw = (do
      let (txids, boundaries, left) ←
        readTransactions reader [] [] count (raw.length - rest.length) rest
      checkTxids hashes (raw.take zcashFullHeaderSize) txids
      if left = [] then .ok boundaries else .error (.trailingBytes left.length)) := by
  have hsize := h.size
  have hheader := h.header
  rw [readChecked, if_neg (by omega), if_neg (by omega)]
  dsimp only
  rw [h.declared]
  exact if_neg h.nonzero

/-- Once all is read the refusal is about the txids, or about the bytes that are left. -/
theorem refused_when_read {header : List UInt8}
    (h : (do
      checkTxids hashes header txids
      if left = [] then .ok boundaries else .error (.trailingBytes left.length)) =
        Except.error e) :
    (∃ index, e = .duplicateTxid index) ∨ e = .merkleMismatch ∨
      (checkTxids hashes header txids = .ok () ∧ left ≠ [] ∧ e = .trailingBytes left.length) := by
  cases hcheck : checkTxids hashes header txids with
  | error e' =>
    rw [hcheck] at h
    obtain rfl := Except.error.inj h
    rw [checkTxids] at hcheck
    split at hcheck
    · exact .inl ⟨_, (Except.error.inj hcheck).symm⟩
    · dsimp only at hcheck
      split at hcheck
      · exact .inr (.inl (Except.error.inj hcheck).symm)
      · cases hcheck
  | ok u =>
    rw [hcheck] at h
    change (if left = [] then _ else _) = _ at h
    split at h
    · cases h
    · exact .inr (.inr ⟨rfl, ‹_›, (Except.error.inj h).symm⟩)

/-- **What a body is refused with behind the first checks**, by how far its transactions parse. -/
theorem Opens.readChecked_cases (h : Opens raw count rest) (hashes : Hashes) (reader : TxReader) :
    (∃ ids left, ReadsRun reader rest ids left ∧ ids.length < count ∧ reader.read left = none ∧
      readChecked hashes reader raw = .error (stoppedBy ids)) ∨
    ∃ ids left boundaries, ReadsRun reader rest ids left ∧ ids.length = count ∧
      readChecked hashes reader raw = (do
        checkTxids hashes (raw.take zcashFullHeaderSize) ids
        if left = [] then .ok boundaries else .error (.trailingBytes left.length)) := by
  rw [h.readChecked_eq]
  rcases readTransactions_run reader count (raw.length - rest.length) rest [] [] with
    ⟨ids, left, hrun, hlen, hnone, heq⟩ | ⟨ids, left, boundaries, hrun, hlen, heq⟩
  · exact .inl ⟨ids, left, hrun, hlen, hnone, by rw [heq]; rfl⟩
  · exact .inr ⟨ids, left, boundaries, hrun, hlen, by rw [heq]; rfl⟩

theorem validateBlockBody_eq_error :
    validateBlockBody hashes reader raw = .error e ↔ readChecked hashes reader raw = .error e := by
  rw [validateBlockBody]
  cases readChecked hashes reader raw <;> simp [Except.map]

/-- The transactions parse up to one that does not, and no txid repeats. -/
def StopsAt (reader : TxReader) (raw : List UInt8) (i : Nat) : Prop :=
  ∃ count rest ids left, Opens raw count rest ∧ ReadsRun reader rest ids left ∧ ids.length = i ∧
    i < count ∧ reader.read left = none ∧ ids.Nodup

/-- All transactions parse, they are those of the header, and `k` bytes are left. -/
def LeavesOver (hashes : Hashes) (reader : TxReader) (raw : List UInt8) (k : Nat) : Prop :=
  ∃ count rest ids left, Opens raw count rest ∧ ReadsRun reader rest ids left ∧
    ids.length = count ∧ ids.Nodup ∧
    merkleRoot hashes ids = headerMerkleRoot (raw.take zcashFullHeaderSize) ∧ left.length = k

theorem transaction_iff (i : Nat) :
    readChecked hashes reader raw = .error (.transaction i) ↔ StopsAt reader raw i := by
  constructor
  · intro h
    obtain ⟨count, rest, hopens⟩ := opens_of_error h (by simp) (by simp) (by simp) (by simp)
    rcases hopens.readChecked_cases hashes reader with
      ⟨ids, left, hrun, hlen, hnone, heq⟩ | ⟨ids, left, boundaries, hrun, hlen, heq⟩
    · obtain ⟨hnodup, rfl⟩ := stoppedBy_eq_transaction.mp (Except.error.inj (heq.symm.trans h))
      exact ⟨count, rest, ids, left, hopens, hrun, rfl, hlen, hnone, hnodup⟩
    · rcases refused_when_read (heq.symm.trans h) with ⟨index, he⟩ | he | ⟨-, -, he⟩
      · cases he
      · cases he
      · cases he
  · rintro ⟨count, rest, ids, left, hopens, hrun, rfl, hlt, hnone, hnodup⟩
    rcases hopens.readChecked_cases hashes reader with
      ⟨ids', left', hrun', hlen', hnone', heq⟩ | ⟨ids', left', boundaries, hrun', hlen', -⟩
    · have hsame : ids.length = ids'.length :=
        Nat.le_antisymm (hrun'.length_le hnone' hrun) (hrun.length_le hnone hrun')
      obtain ⟨rfl, -⟩ := hrun.unique hrun' hsame
      rw [heq, stoppedBy_eq_transaction.mpr ⟨hnodup, rfl⟩]
    · have hle := hrun.length_le hnone hrun'
      omega

theorem trailingBytes_iff (k : Nat) : readChecked hashes reader raw = .error (.trailingBytes k) ↔
      0 < k ∧ LeavesOver hashes reader raw k := by
  constructor
  · intro h
    obtain ⟨count, rest, hopens⟩ := opens_of_error h (by simp) (by simp) (by simp) (by simp)
    rcases hopens.readChecked_cases hashes reader with
      ⟨ids, left, -, -, -, heq⟩ | ⟨ids, left, boundaries, hrun, hlen, heq⟩
    · exact absurd (Except.error.inj (heq.symm.trans h)) stoppedBy_ne_trailingBytes
    · rcases refused_when_read (heq.symm.trans h) with ⟨index, he⟩ | he | ⟨hcheck, hleft, he⟩
      · cases he
      · cases he
      · obtain ⟨hnodup, -, hroot⟩ := checkTxids_eq_ok.mp hcheck
        cases he
        exact ⟨List.length_pos_iff.mpr hleft, count, rest, ids, left, hopens, hrun, hlen, hnodup,
          hroot, rfl⟩
  · rintro ⟨hpos, count, rest, ids, left, hopens, hrun, hlen, hnodup, hroot, rfl⟩
    rcases hopens.readChecked_cases hashes reader with
      ⟨ids', left', hrun', hlen', hnone', -⟩ | ⟨ids', left', boundaries, hrun', hlen', heq⟩
    · have hle := hrun'.length_le hnone' hrun
      omega
    · obtain ⟨rfl, rfl⟩ := hrun.unique hrun' (hlen.trans hlen'.symm)
      have hne : ids ≠ [] := fun hnil => hopens.nonzero (by rw [← hlen, hnil]; rfl)
      rw [heq, checkTxids_eq_ok.mpr ⟨hnodup, hne, hroot⟩]
      exact if_neg (List.length_pos_iff.mp hpos)

/-- **The unexplained refusals of a body.** It is refused for transaction `i` exactly when the
transactions before it parse and do not repeat and it does not, and for `k` bytes left over
exactly when all are read and are those of the header. What the bypass may override is a refusal
of the first kind, so nothing that was read is known to be wrong. -/
theorem unexplained_refusals (hashes : Hashes) (reader : TxReader) (raw : List UInt8) :
    (∀ i, validateBlockBody hashes reader raw = .error (.transaction i) ↔ StopsAt reader raw i) ∧
    (∀ k, validateBlockBody hashes reader raw = .error (.trailingBytes k) ↔
      0 < k ∧ LeavesOver hashes reader raw k) ∧
    ∀ e e', validateBlockBody hashes reader raw = .error e →
      unreadableBody (.error (.invalidBlockBody e)) = some e' →
      ∃ i, e' = .transaction i ∧ StopsAt reader raw i := by
  refine ⟨fun i => validateBlockBody_eq_error.trans (transaction_iff i),
    fun k => validateBlockBody_eq_error.trans (trailingBytes_iff k), ?_⟩
  intro e e' herror hunreadable
  cases e with
  | transaction i =>
    exact ⟨i, (Option.some.inj hunreadable).symm,
      (transaction_iff i).mp (validateBlockBody_eq_error.mp herror)⟩
  | _ => cases hunreadable

/-- Two transactions are declared and there is one. -/
theorem unreadable_second_transaction :
    validateBlockBody threeHashes byteReader (twoHeader ++ [2, 1]) = .error (.transaction 1) ∧
      StopsAt byteReader (twoHeader ++ [2, 1]) 1 := by
  have herror : validateBlockBody threeHashes byteReader (twoHeader ++ [2, 1]) =
      .error (.transaction 1) := by decide +kernel
  obtain ⟨i, hi, hstops⟩ :=
    (unexplained_refusals threeHashes byteReader (twoHeader ++ [2, 1])).2.2 _ _ herror rfl
  cases hi
  exact ⟨herror, hstops⟩

end MiningInfra.Sidecar
