import MiningInfra.Lib.Results
import MiningInfra.Lib.Tiling
import MiningInfra.Relay.Body

/-!
# Two validators of one block

`validate_block_body` finds the boundaries of the transactions by reading them one after another
from the bytes of the block; `validate_block_transactions` is given the boundaries and checks that
every slice is one transaction. They accept the same blocks when the reader of a transaction looks
only at the bytes it consumes, and the boundaries `parse_block_body` keeps are those of the only
cut that the other validator accepts.

The order of the argument: the count has one encoding; a run of the stream reader is a list of
slices that the reader consumes exactly; and so is a run over slices.
-/

namespace MiningInfra.Relay

open Lib Coinbase

/-- A block that was accepted, with the boundaries of its transactions. The coinbase as it was
read is left out. -/
structure ParsedBlockBody where
  raw : List UInt8
  boundaries : List (Nat × Nat)

namespace ParsedBlockBody

def header (parsed : ParsedBlockBody) : List UInt8 := parsed.raw.take zcashFullHeaderSize

def transactions (parsed : ParsedBlockBody) : List (List UInt8) :=
  parsed.boundaries.map (select parsed.raw)

end ParsedBlockBody

def parseBlockBody (hashes : Hashes) (reader : TxReader) (rawBlock : List UInt8) :
    Except BlockBodyError ParsedBlockBody :=
  (readChecked hashes reader rawBlock).map fun boundaries => ⟨rawBlock, boundaries⟩

/-! ## The count -/

/-- The canonical compact size of a number. -/
def canonicalCompactSize (n : Nat) : List UInt8 := pushCompactSize (UInt64.ofNat n)

variable {n width : Nat} {rest bs : List UInt8}

/-- What is accepted as a count has one of three forms. -/
theorem canonicalCompactSize_eq (h : n ≤ 0x02000000) :
    canonicalCompactSize n =
      if n < 253 then [UInt8.ofNat n]
      else if n ≤ 0xffff then 0xfd :: leBytes 2 n else 0xfe :: leBytes 4 n := by
  have hnat : (UInt64.ofNat n).toNat = n := UInt64.toNat_ofNat_of_lt' (by
    show n < 18446744073709551616
    omega)
  have hbyte : (UInt64.ofNat n).toUInt8 = UInt8.ofNat n := by
    apply UInt8.toNat_inj.mp
    rw [UInt64.toNat_toUInt8, hnat, UInt8.toNat_ofNat']
  rw [canonicalCompactSize, pushCompactSize]
  simp only [UInt64.lt_iff_toNat_lt, UInt64.le_iff_toNat_le, hnat, hbyte]
  have hlast : n ≤ (0xffffffff : UInt64).toNat := by
    show n ≤ 4294967295
    omega
  rw [if_pos hlast]
  rfl

theorem length_canonicalCompactSize (h : n ≤ 0x02000000) :
    (canonicalCompactSize n).length = compactSizeSerializedSize n := by
  rw [canonicalCompactSize_eq h, compactSizeSerializedSize]
  have hlast : n ≤ 0xffffffff := by omega
  rw [if_pos hlast]
  split
  · rfl
  · split
    · rw [List.length_cons, length_leBytes]
    · rw [List.length_cons, length_leBytes]

/-- A number of a wider form, from what was checked of it. -/
theorem readCompactSizeStrict_wide {first : UInt8} (hfirst : ¬ first < 253) :
    readCompactSizeStrict (first :: rest) =
      if rest.length < compactWidth first ∨
          leNat (rest.take (compactWidth first)) < compactSizeFloor (compactWidth first) ∨
          0x02000000 < leNat (rest.take (compactWidth first)) then none
      else some (leNat (rest.take (compactWidth first)), rest.drop (compactWidth first)) := by
  rw [readCompactSizeStrict, if_neg hfirst]
  by_cases hshort : rest.length < compactWidth first
  · rw [if_pos hshort, if_pos (Or.inl hshort)]
  · simp only [hshort, false_or, if_false]

/-- A field of `width` bytes at the front of the bytes. -/
theorem leBytes_append_drop (h : width ≤ bs.length) :
    leBytes width (leNat (bs.take width)) ++ bs.drop width = bs := by
  have hlen : (bs.take width).length = width := by
    rw [List.length_take]
    omega
  have hbytes := leBytes_leNat (bs.take width)
  rw [hlen] at hbytes
  rw [hbytes, List.take_append_drop]

theorem leNat_take_lt (h : width ≤ bs.length) : leNat (bs.take width) < span width := by
  have hspan := leNat_lt_span (bs.take width)
  rwa [List.length_take, Nat.min_eq_left h] at hspan

/-- What the wider forms read is written the same way. -/
theorem canonicalCompactSize_of_read (h : readCompactSizeStrict bs = some (n, rest)) :
    n ≤ 0x02000000 ∧ bs = canonicalCompactSize n ++ rest := by
  cases bs with
  | nil => exact absurd h (by simp [readCompactSizeStrict])
  | cons first bs =>
    by_cases hfirst : first < 253
    · rw [readCompactSizeStrict, if_pos hfirst] at h
      obtain ⟨rfl, rfl⟩ := Prod.mk.inj (Option.some.inj h)
      have hnat : first.toNat < 253 := hfirst
      refine ⟨by omega, ?_⟩
      rw [canonicalCompactSize_eq (by omega), if_pos hnat, UInt8.ofNat_toNat]
      rfl
    · rw [readCompactSizeStrict_wide hfirst] at h
      split at h
      · cases h
      · rename_i hok
        obtain ⟨rfl, rfl⟩ := Prod.mk.inj (Option.some.inj h)
        rw [not_or, not_or, not_lt, not_lt, not_lt] at hok
        obtain ⟨hlong, hfloor, hmax⟩ := hok
        refine ⟨hmax, ?_⟩
        rw [canonicalCompactSize_eq hmax]
        have hspan := leNat_take_lt hlong
        have hback := leBytes_append_drop hlong
        by_cases hfd : first = 0xfd
        · have hwidth : compactWidth first = 2 := by rw [hfd, compactWidth, if_pos rfl]
          rw [hwidth] at hfloor hspan hback ⊢
          have hfloor' : 253 ≤ leNat (bs.take 2) := hfloor
          have hspan' : leNat (bs.take 2) < 65536 := hspan
          rw [if_neg (by omega), if_pos (by omega), List.cons_append, hback, hfd]
        · by_cases hfe : first = 0xfe
          · have hwidth : compactWidth first = 4 := by rw [compactWidth, if_neg hfd, if_pos hfe]
            rw [hwidth] at hfloor hback ⊢
            have hfloor' : 0x10000 ≤ leNat (bs.take 4) := hfloor
            rw [if_neg (by omega), if_neg (by omega), List.cons_append, hback, hfe]
          · -- eight bytes are needed only above the maximum
            have hwidth : compactWidth first = 8 := by rw [compactWidth, if_neg hfd, if_neg hfe]
            rw [hwidth] at hfloor hmax
            have hfloor' : 0x100000000 ≤ leNat (bs.take 8) := hfloor
            omega

theorem readCompactSizeStrict_append (h : n ≤ 0x02000000) (rest : List UInt8) :
    readCompactSizeStrict (canonicalCompactSize n ++ rest) = some (n, rest) := by
  have hwide : ∀ {first : UInt8}, ¬ first < 253 → n < span (compactWidth first) →
      compactSizeFloor (compactWidth first) ≤ n →
      readCompactSizeStrict (first :: leBytes (compactWidth first) n ++ rest) = some (n, rest) := by
    intro first hfirst hspan hfloor
    have hlen := length_leBytes (compactWidth first) n
    have htake : (leBytes (compactWidth first) n ++ rest).take (compactWidth first)
        = leBytes (compactWidth first) n := by
      nth_rewrite 1 [← hlen]
      exact List.take_left
    have hdrop : (leBytes (compactWidth first) n ++ rest).drop (compactWidth first) = rest := by
      nth_rewrite 1 [← hlen]
      exact List.drop_left
    rw [List.cons_append, readCompactSizeStrict_wide hfirst, htake, hdrop, leNat_leBytes hspan,
      List.length_append, hlen, if_neg]
    omega
  rw [canonicalCompactSize_eq h]
  split
  · rename_i hsmall
    have hnat : (UInt8.ofNat n).toNat = n := by
      rw [UInt8.toNat_ofNat']
      omega
    have hfirst : UInt8.ofNat n < 253 := by
      rw [UInt8.lt_iff_toNat_lt, hnat]
      exact hsmall
    rw [List.singleton_append, readCompactSizeStrict, if_pos hfirst, hnat]
  · split
    · exact hwide (by decide) (by show n < 65536; omega) (by show 253 ≤ n; omega)
    · exact hwide (by decide) (by show n < 4294967296; omega) (by show 0x10000 ≤ n; omega)

/-! ## Slices that are transactions -/

namespace TxReader

/-- What is assumed of `Transaction::read`: it consumes a prefix, and what it returns depends on
that prefix only. -/
def ReadsPrefix (reader : TxReader) : Prop :=
  ∀ bytes tx, reader.read bytes = some tx →
    tx.position ≤ bytes.length ∧
      ∀ rest, reader.read (bytes.take tx.position ++ rest) = some tx

/-- The slice is exactly one transaction, with this txid. -/
def ReadsExactly (reader : TxReader) (slice : List UInt8) (txid : Bytes32) : Prop :=
  ∃ tx, reader.read slice = some tx ∧ tx.position = slice.length ∧ tx.txid = txid

variable {reader : TxReader} {slice : List UInt8}

/-- The front of the bytes the reader consumes is a transaction of its own. -/
theorem ReadsPrefix.exactly (h : reader.ReadsPrefix) {bytes : List UInt8} {tx : ReadTransaction}
    (hread : reader.read bytes = some tx) :
    reader.ReadsExactly (bytes.take tx.position) tx.txid := by
  obtain ⟨hle, hprefix⟩ := h bytes tx hread
  refine ⟨tx, ?_, ?_, rfl⟩
  · have := hprefix []
    rwa [List.append_nil] at this
  · rw [List.length_take, Nat.min_eq_left hle]

/-- A transaction is found in front of whatever follows it. -/
theorem ReadsExactly.read_append (h : reader.ReadsPrefix) {txid : Bytes32}
    (hslice : reader.ReadsExactly slice txid) (rest : List UInt8) :
    ∃ tx, reader.read (slice ++ rest) = some tx ∧ tx.position = slice.length ∧ tx.txid = txid := by
  obtain ⟨tx, hread, hpos, htxid⟩ := hslice
  have hprefix := (h slice tx hread).2 rest
  rw [hpos, List.take_length] at hprefix
  exact ⟨tx, hprefix, hpos, htxid⟩

theorem ReadsExactly.unique {txid txid' : Bytes32} (h : reader.ReadsExactly slice txid)
    (h' : reader.ReadsExactly slice txid') : txid = txid' := by
  obtain ⟨tx, hread, -, rfl⟩ := h
  obtain ⟨tx', hread', -, rfl⟩ := h'
  rw [hread] at hread'
  rw [Option.some.inj hread']

/-- Without a repeated txid at most one slice is empty, so there are hardly more slices than
bytes. -/
theorem length_le_of_nodup {slices : List (List UInt8)} {txids : List Bytes32}
    (h : List.Forall₂ reader.ReadsExactly slices txids) (hnodup : txids.Nodup) :
    slices.length ≤ slices.flatten.length + 1 := by
  have hfull : ∀ {slices : List (List UInt8)}, [] ∉ slices →
      slices.length ≤ slices.flatten.length := by
    intro slices hmem
    induction slices with
    | nil => rfl
    | cons slice slices ih =>
      rw [List.mem_cons, not_or] at hmem
      have hpos : 0 < slice.length := List.length_pos_iff.mpr fun h => hmem.1 h.symm
      have := ih hmem.2
      rw [List.flatten_cons, List.length_append, List.length_cons]
      omega
  induction h with
  | nil => exact Nat.zero_le _
  | @cons slice txid slices txids hslice hslices ih =>
    rw [List.nodup_cons] at hnodup
    rw [List.flatten_cons, List.length_append, List.length_cons]
    cases slice with
    | nil =>
      -- another empty slice would have the same txid
      have hnone : [] ∉ slices := by
        intro hmem
        obtain ⟨i, hi, hget⟩ := List.getElem_of_mem hmem
        have hi' : i < txids.length := hslices.length_eq ▸ hi
        have hat := hslices.get hi hi'
        rw [List.get_eq_getElem, hget] at hat
        exact hnodup.1 (hslice.unique hat ▸ List.getElem_mem hi')
      have := hfull hnone
      omega
    | cons byte bytes =>
      have := ih hnodup.2
      rw [List.length_cons]
      omega

end TxReader

section Runs

variable {hashes : Hashes} {reader : TxReader} {slices : List (List UInt8)} {header raw : List UInt8}

/-- **A run over slices.** -/
theorem readSlices_eq_ok : ∀ {index bytes : Nat} {txids : List Bytes32}, bytes ≤ maxBlockBytes →
      (readSlices reader index bytes slices = .ok txids ↔
        List.Forall₂ reader.ReadsExactly slices txids ∧
          bytes + slices.flatten.length ≤ maxBlockBytes) := by
  induction slices with
  | nil =>
    intro index bytes txids hbytes
    rw [readSlices, Except.ok.injEq, List.forall₂_nil_left_iff, eq_comm]
    exact (and_iff_left hbytes).symm
  | cons slice slices ih =>
    intro index bytes txids hbytes
    rw [readSlices, List.flatten_cons, List.length_append, ← Nat.add_assoc,
      List.forall₂_cons_left_iff]
    split
    · rename_i hlarge
      refine ⟨fun h => absurd h (by simp), fun ⟨_, hsize⟩ => ?_⟩
      omega
    · rename_i hsmall
      have ih' := fun txids => @ih (index + 1) (bytes + slice.length) txids (by omega)
      cases hread : reader.read slice with
      | none =>
        refine ⟨fun h => absurd h (by simp), fun ⟨⟨_, _, ⟨tx, htx, _⟩, _⟩, _⟩ => ?_⟩
        exact absurd (hread.symm.trans htx) (by simp)
      | some tx =>
        dsimp only
        split
        · rename_i hpos
          refine ⟨fun h => absurd h (by simp), fun ⟨⟨_, _, ⟨tx', htx, hpos', _⟩, _⟩, _⟩ => ?_⟩
          rw [Option.some.inj (hread.symm.trans htx)] at hpos
          exact absurd hpos' hpos
        · rename_i hpos
          rw [not_not] at hpos
          constructor
          · intro h
            obtain ⟨txids', hrest, rfl⟩ := Results.fmap_eq_ok.mp h
            obtain ⟨hslices, hsize⟩ := (ih' txids').mp hrest
            exact ⟨⟨tx.txid, txids', ⟨tx, hread, hpos, rfl⟩, hslices, rfl⟩, hsize⟩
          · rintro ⟨⟨txid, txids', ⟨tx', htx, _, rfl⟩, hslices, rfl⟩, hsize⟩
            rw [Option.some.inj (hread.symm.trans htx)]
            exact Results.fmap_eq_ok.mpr ⟨txids', (ih' txids').mpr ⟨hslices, hsize⟩, rfl⟩

/-- **A run over the bytes of a block.** -/
theorem readTransactions_eq_ok (h : reader.ReadsPrefix) {count : Nat} :
    ∀ {start : Nat} {rest left : List UInt8} {txids txids' : List Bytes32}
      {boundaries boundaries' : List (Nat × Nat)},
      readTransactions reader txids boundaries count start rest = .ok (txids', boundaries', left) ↔
        ∃ slices ids, slices.length = count ∧ rest = slices.flatten ++ left ∧
          List.Forall₂ reader.ReadsExactly slices ids ∧ txids' = txids ++ ids ∧
          boundaries' = boundaries ++ cuts start slices := by
  induction count with
  | zero =>
    intro start rest left txids txids' boundaries boundaries'
    rw [readTransactions, Except.ok.injEq, Prod.mk.injEq, Prod.mk.injEq]
    constructor
    · rintro ⟨rfl, rfl, rfl⟩
      exact ⟨[], [], rfl, rfl, .nil, (List.append_nil _).symm, (List.append_nil _).symm⟩
    · rintro ⟨slices, ids, hlen, rfl, hslices, rfl, rfl⟩
      obtain rfl := List.length_eq_zero_iff.mp hlen
      obtain rfl := List.forall₂_nil_left_iff.mp hslices
      exact ⟨(List.append_nil _).symm, (List.append_nil _).symm, rfl⟩
  | succ count ih =>
    intro start rest left txids txids' boundaries boundaries'
    rw [readTransactions]
    cases hread : reader.read rest with
    | none =>
      refine ⟨fun h => absurd h (by simp), ?_⟩
      rintro ⟨slices, ids, hlen, rfl, hslices, -, -⟩
      cases hslices with
      | nil => cases hlen
      | cons hslice hslices =>
        obtain ⟨tx, htx, -, -⟩ := hslice.read_append h _
        rw [List.flatten_cons, List.append_assoc, htx] at hread
        cases hread
    | some tx =>
      rw [ih]
      constructor
      · rintro ⟨slices, ids, rfl, hrest, hslices, rfl, rfl⟩
        have hlen : (rest.take tx.position).length = tx.position := by
          rw [List.length_take, Nat.min_eq_left (h rest tx hread).1]
        refine ⟨rest.take tx.position :: slices, tx.txid :: ids, rfl, ?_,
          .cons (h.exactly hread) hslices, ?_, ?_⟩
        · rw [List.flatten_cons, List.append_assoc, ← hrest, List.take_append_drop]
        · rw [List.append_assoc, List.singleton_append]
        · rw [cuts, hlen, List.append_assoc, List.singleton_append]
      · rintro ⟨slices, ids, hlen, rfl, hslices, rfl, rfl⟩
        cases hslices with
        | nil => cases hlen
        | @cons slice txid slices ids hslice hslices =>
          rw [List.flatten_cons, List.append_assoc] at hread ⊢
          obtain ⟨tx', htx, hpos, rfl⟩ := hslice.read_append h (slices.flatten ++ left)
          obtain rfl := Option.some.inj (htx.symm.trans hread)
          refine ⟨slices, ids, Nat.succ.inj hlen, ?_, hslices, ?_, ?_⟩
          · rw [hpos, List.drop_left]
          · rw [List.append_assoc, List.singleton_append]
          · rw [cuts, hpos, List.append_assoc, List.singleton_append]

/-! ## The same blocks -/

/-- What both validators check of a header and the slices behind it. -/
structure WellCut (hashes : Hashes) (reader : TxReader) (header : List UInt8)
    (slices : List (List UInt8)) : Prop where
  headerLength : header.length = zcashFullHeaderSize
  size : header.length + compactSizeSerializedSize slices.length + slices.flatten.length
    ≤ maxBlockBytes
  txids : ∃ txids, List.Forall₂ reader.ReadsExactly slices txids ∧
    checkTxids hashes header txids = .ok ()

theorem WellCut.ne_nil (h : WellCut hashes reader header slices) : slices ≠ [] := by
  rintro rfl
  obtain ⟨txids, hslices, hok⟩ := h.txids
  obtain rfl := List.forall₂_nil_left_iff.mp hslices
  exact (checkTxids_eq_ok.mp hok).2.1 rfl

/-- A count that the reader of compact sizes accepts. -/
theorem WellCut.length_le (h : WellCut hashes reader header slices) :
    slices.length ≤ 0x02000000 := by
  obtain ⟨txids, hslices, hok⟩ := h.txids
  have hlen := TxReader.length_le_of_nodup hslices (checkTxids_eq_ok.mp hok).1
  have hsize := h.size
  rw [maxBlockBytes] at hsize
  omega

/-- The header and the count of a block are within the limit. -/
theorem bytes_le_maxBlockBytes (h : header.length = zcashFullHeaderSize) (count : Nat) :
    header.length + compactSizeSerializedSize count ≤ maxBlockBytes := by
  have hsmall : compactSizeSerializedSize count ≤ 9 := by
    unfold compactSizeSerializedSize
    split_ifs <;> omega
  rw [h, zcashFullHeaderSize, maxBlockBytes]
  omega

theorem validateBlockTransactions_eq_ok :
    validateBlockTransactions hashes reader header slices = .ok n ↔
      n = slices.length ∧ WellCut hashes reader header slices := by
  rw [validateBlockTransactions]
  split
  · rename_i hheader
    exact ⟨fun h => absurd h (by simp), fun h => absurd h.2.headerLength hheader⟩
  · rename_i hheader
    rw [not_not] at hheader
    split
    · rename_i hnil
      exact ⟨fun h => absurd h (by simp), fun h => absurd hnil h.2.ne_nil⟩
    · have hbytes := bytes_le_maxBlockBytes hheader slices.length
      simp only [Results.bind_eq_ok, readSlices_eq_ok hbytes]
      constructor
      · rintro ⟨txids, ⟨hslices, hsize⟩, _, hok, hn⟩
        refine ⟨?_, hheader, hsize, txids, hslices, hok⟩
        rw [hslices.length_eq]
        exact (Except.ok.inj hn).symm
      · rintro ⟨rfl, h⟩
        obtain ⟨txids, hslices, hok⟩ := h.txids
        refine ⟨txids, ⟨hslices, h.size⟩, (), hok, ?_⟩
        rw [hslices.length_eq]
        rfl

/-- The bytes of a block. -/
def serializeBlock (header : List UInt8) (slices : List (List UInt8)) : List UInt8 :=
  header ++ canonicalCompactSize slices.length ++ slices.flatten

theorem readChecked_serializeBlock (h : reader.ReadsPrefix)
    (hcut : WellCut hashes reader header slices) :
    readChecked hashes reader (serializeBlock header slices) =
      .ok (cuts (header.length + (canonicalCompactSize slices.length).length) slices) := by
  obtain ⟨txids, hslices, hok⟩ := hcut.txids
  have hcount := length_canonicalCompactSize hcut.length_le
  have hlen : (serializeBlock header slices).length =
      header.length + compactSizeSerializedSize slices.length + slices.flatten.length := by
    rw [serializeBlock, List.length_append, List.length_append, hcount]
  have hsize := hcut.size
  have htake : (serializeBlock header slices).take zcashFullHeaderSize = header := by
    rw [serializeBlock, List.append_assoc, ← hcut.headerLength, List.take_left]
  have hdrop : (serializeBlock header slices).drop zcashFullHeaderSize =
      canonicalCompactSize slices.length ++ slices.flatten := by
    rw [serializeBlock, List.append_assoc, ← hcut.headerLength, List.drop_left]
  have hstart : (serializeBlock header slices).length - slices.flatten.length =
      header.length + (canonicalCompactSize slices.length).length := by
    rw [hlen, hcount]
    omega
  have hrun : readTransactions reader [] [] slices.length
      (header.length + (canonicalCompactSize slices.length).length) slices.flatten =
      .ok ([] ++ txids, [] ++ cuts (header.length + (canonicalCompactSize slices.length).length)
        slices, []) := (readTransactions_eq_ok h).mpr
    ⟨slices, txids, rfl, (List.append_nil slices.flatten).symm, hslices, rfl, rfl⟩
  rw [readChecked, if_neg (by omega), if_neg (by rw [hlen, hcut.headerLength]; omega), htake, hdrop]
  dsimp only
  rw [readCompactSizeStrict_append hcut.length_le]
  dsimp only
  rw [if_neg (by rw [List.length_eq_zero_iff]; exact hcut.ne_nil), hstart, hrun]
  simp only [List.nil_append, bind, Except.bind, hok, if_true]

theorem eq_serializeBlock_of_readChecked (h : reader.ReadsPrefix) {boundaries : List (Nat × Nat)}
    (hread : readChecked hashes reader raw = .ok boundaries) :
    ∃ header slices, raw = serializeBlock header slices ∧ WellCut hashes reader header slices := by
  rw [readChecked] at hread
  split at hread
  · cases hread
  split at hread
  · cases hread
  dsimp only at hread
  split at hread
  · cases hread
  rename_i count rest hcount
  split at hread
  · cases hread
  obtain ⟨⟨txids, boundaries', left⟩, hrun, hread⟩ := Results.bind_eq_ok.mp hread
  obtain ⟨_, hok, hread⟩ := Results.bind_eq_ok.mp hread
  split at hread
  · rename_i hleft
    subst hleft
    obtain ⟨slices, ids, rfl, hrest, hslices, htxids, -⟩ := (readTransactions_eq_ok h).mp hrun
    rw [List.nil_append] at htxids
    subst htxids
    rw [List.append_nil] at hrest
    obtain ⟨hmax, hbody⟩ := canonicalCompactSize_of_read hcount
    have hheader : (raw.take zcashFullHeaderSize).length = zcashFullHeaderSize := by
      rw [List.length_take]
      omega
    have hraw : raw = serializeBlock (raw.take zcashFullHeaderSize) slices := by
      rw [serializeBlock, List.append_assoc, ← hrest, ← hbody, List.take_append_drop]
    refine ⟨_, slices, hraw, hheader, ?_, txids, hslices, hok⟩
    have hlen := congrArg List.length hraw
    rw [serializeBlock, List.length_append, List.length_append,
      length_canonicalCompactSize hmax] at hlen
    omega
  · cases hread

/-- The bytes are a header, the canonical count and `n` slices the validator of slices accepts. -/
def CutInto (hashes : Hashes) (reader : TxReader) (raw : List UInt8) (n : Nat)
    (header : List UInt8) (slices : List (List UInt8)) : Prop :=
  header.length = zcashFullHeaderSize ∧ slices.length = n ∧
    raw = header ++ canonicalCompactSize n ++ slices.flatten ∧
    validateBlockTransactions hashes reader header slices = .ok n

theorem cutInto_iff : CutInto hashes reader raw n header slices ↔
      n = slices.length ∧ raw = serializeBlock header slices ∧
        WellCut hashes reader header slices := by
  rw [CutInto, validateBlockTransactions_eq_ok]
  constructor
  · rintro ⟨-, rfl, hraw, -, hcut⟩
    exact ⟨rfl, hraw, hcut⟩
  · rintro ⟨rfl, hraw, hcut⟩
    exact ⟨hcut.headerLength, rfl, hraw, rfl, hcut⟩

/-- A reader whose transactions are one byte, which is repeated in the txid. -/
def byteReader : TxReader where
  read bytes := bytes.head?.map fun byte => ⟨.v4, fun _ => byte, 1⟩
  zip244Txid _ := fun _ => 0
  Standard _ := False
  read_v4 _ h := h.elim
  read_v5 _ _ h := h.elim

theorem readsPrefix_byteReader : byteReader.ReadsPrefix := by
  intro bytes tx hread
  cases bytes with
  | nil => exact absurd hread (by simp [byteReader])
  | cons byte bytes =>
    obtain rfl := Option.some.inj hread
    exact ⟨Nat.le_add_left 1 _, fun rest => rfl⟩

/-- A header with the root of the txids `01..01` and `02..02`. -/
def twoHeader : List UInt8 :=
  List.replicate 36 0 ++ (threeDigests.getD 0 (fun _ => 0, fun _ => 0)).2.toList
    ++ List.replicate 1419 0

end Runs

end MiningInfra.Relay
