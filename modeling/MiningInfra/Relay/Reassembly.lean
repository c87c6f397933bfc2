import MiningInfra.Lib.Results
import MiningInfra.Lib.Tiling
import MiningInfra.Relay.Segment

/-!
# Splitting a raw block and putting it together

`split_raw_block` cuts a block into segments, each segment is a frame of its own, and
`reassemble_raw_block` accepts a complete set in any order. What a complete set is is said once,
in `CompleteSet`; reassembly returns a block exactly for such a set, and the segments of a split
are one.

The length of a payload has four bytes in the frame and is cut to them without a check.
-/

namespace MiningInfra.Relay

open Lib Coinbase

/-- `split_raw_block`. No sum overflows: every segment begins inside the block. -/
def splitRawBlock (hashes : Hashes) (blockHash : Bytes32) (rawBlock : List UInt8)
    (maxFrameLen : Nat) : Except SegmentedBlockError (List RawBlockSegment) :=
  let payloadBudget := maxFrameLen - RawBlockSegment.headerLen
  if payloadBudget = 0 then .error .segmentPayloadTooSmall
  else
    let segmentCount := max ((rawBlock.length + payloadBudget - 1) / payloadBudget) 1
    if 0xffff < segmentCount then .error (.tooManySegments segmentCount)
    else .ok <| (List.range segmentCount).map fun segmentIndex =>
      let start := segmentIndex * payloadBudget
      let stop := min (start + payloadBudget) rawBlock.length
      let payload := slice rawBlock start (stop - start)
      ⟨blockHash, UInt16.ofNat segmentIndex, UInt16.ofNat segmentCount,
        UInt64.ofNat rawBlock.length, hashes.sha256 rawBlock, hashes.sha256 payload, payload⟩

/-! ## The frame -/

variable {n : Nat} {segments : List RawBlockSegment} {rawBlock : List UInt8} {blockHash : Bytes32}

theorem beNat_reverse_leBytes {width : Nat} (h : n < span width) :
    beNat (leBytes width n).reverse = n := by
  rw [beNat, List.reverse_reverse, leNat_leBytes h]

theorem getD_eq_of_select {bs : List UInt8} {i : Nat} {b : UInt8}
    (h : select bs (i, i + 1) = [b]) : bs.getD i 0 = b := by
  have hget : (select bs (i, i + 1))[0]? = bs[i]? := by
    simp [select]
  rw [h] at hget
  rw [List.getD_eq_getElem?_getD, ← hget]
  rfl

theorem slice_eq_select (bs : List UInt8) (start len : Nat) :
    slice bs start len = select bs (start, start + len) := by
  rw [select, Nat.add_sub_cancel_left]
  rfl

namespace RawBlockSegment

/-- The fields of a frame, in order. -/
def fields (s : RawBlockSegment) : List (List UInt8) :=
  [(leBytes 4 segmentMagic).reverse, [segmentVersion], [0],
    (leBytes 2 s.segmentIndex.toNat).reverse, (leBytes 2 s.segmentCount.toNat).reverse,
    (leBytes 4 s.payload.length).reverse, (leBytes 8 s.rawBlockLen.toNat).reverse,
    s.blockHash.toList, s.rawBlockDigest.toList, s.payloadDigest.toList, s.payload]

variable (s : RawBlockSegment)

theorem encode_eq : s.encode = s.fields.flatten := by
  simp [encode, fields]

theorem cuts_fields :
    cuts 0 s.fields = [(0, 4), (4, 5), (5, 6), (6, 8), (8, 10), (10, 14), (14, 22), (22, 54),
      (54, 86), (86, 118), (118, 118 + s.payload.length)] := by
  simp [cuts, fields, length_leBytes, Bytes32.toList]

theorem length_encode : s.encode.length = headerLen + s.payload.length := by
  simp [encode, headerLen, length_leBytes, Bytes32.toList]
  omega

/-- What the decoder finds in each place of an encoded frame. -/
theorem map_select_encode :
    [(0, 4), (4, 5), (5, 6), (6, 8), (8, 10), (10, 14), (14, 22), (22, 54), (54, 86), (86, 118),
      (118, 118 + s.payload.length)].map (select s.encode) = s.fields := by
  have h : s.encode.drop 0 = s.fields.flatten ++ [] := by
    rw [List.drop_zero, List.append_nil, encode_eq]
  rw [← cuts_fields]
  exact map_select_cuts h

theorem magic_encode : beNat (slice s.encode 0 4) = segmentMagic := by
  have hfields := map_select_encode s
  simp only [List.map_cons, fields, List.cons.injEq] at hfields
  exact (congrArg beNat hfields.1).trans (beNat_reverse_leBytes (by decide))

theorem version_encode : s.encode.getD 4 0 = segmentVersion := by
  have hfields := map_select_encode s
  simp only [List.map_cons, fields, List.cons.injEq] at hfields
  exact getD_eq_of_select hfields.2.1

theorem payloadLen_encode : beNat (slice s.encode 10 4) = leNat (leBytes 4 s.payload.length) := by
  have hfields := map_select_encode s
  simp only [List.map_cons, fields, List.cons.injEq] at hfields
  obtain ⟨-, -, -, -, -, hplen, -⟩ := hfields
  refine (congrArg beNat hplen).trans ?_
  rw [beNat, List.reverse_reverse]

theorem drop_encode : s.encode.drop headerLen = s.payload := by
  have hfront : (s.fields.take 10).flatten.length = headerLen := by
    simp [fields, headerLen, length_leBytes, Bytes32.toList]
  have hsplit : s.encode = (s.fields.take 10).flatten ++ s.payload := by
    simp [encode, fields]
  rw [hsplit, ← hfront, List.drop_left]

variable {hashes : Hashes} {s : RawBlockSegment}

/-- **A frame is decoded to its segment**, when the length of the payload fits its field. -/
theorem decode_encode (hlen : s.payload.length < 2 ^ 32) (hindex : s.segmentIndex < s.segmentCount)
    (hdigest : hashes.sha256 s.payload = s.payloadDigest) : decode hashes s.encode = .ok s := by
  have hfields := map_select_encode s
  simp only [List.map_cons, List.map_nil, fields, List.cons.injEq, and_true] at hfields
  obtain ⟨-, -, -, hidx, hcount, -, hraw, hhash, hrdigest, hpdigest, -⟩ := hfields
  have hlength := length_encode s
  have hidx' : beNat (slice s.encode 6 2) = s.segmentIndex.toNat :=
    (congrArg beNat hidx).trans (beNat_reverse_leBytes s.segmentIndex.toNat_lt)
  have hcount' : beNat (slice s.encode 8 2) = s.segmentCount.toNat :=
    (congrArg beNat hcount).trans (beNat_reverse_leBytes s.segmentCount.toNat_lt)
  have hraw' : beNat (slice s.encode 14 8) = s.rawBlockLen.toNat :=
    (congrArg beNat hraw).trans (beNat_reverse_leBytes s.rawBlockLen.toNat_lt)
  have hhash' : toBytes32 (slice s.encode 22 32) = s.blockHash :=
    (congrArg toBytes32 hhash).trans (toBytes32_ofFn _)
  have hrdigest' : toBytes32 (slice s.encode 54 32) = s.rawBlockDigest :=
    (congrArg toBytes32 hrdigest).trans (toBytes32_ofFn _)
  have hpdigest' : toBytes32 (slice s.encode 86 32) = s.payloadDigest :=
    (congrArg toBytes32 hpdigest).trans (toBytes32_ofFn _)
  have hzero : ¬ (s.segmentCount = 0 ∨ s.segmentCount ≤ s.segmentIndex) := by
    rintro (hzero | hle)
    · rw [hzero] at hindex
      exact absurd hindex UInt16.not_lt_zero
    · exact absurd hindex (UInt16.not_lt.mpr hle)
  rw [decode, if_neg (by omega), magic_encode, if_neg (by simp), version_encode,
    if_neg (by simp), hidx', hcount', payloadLen_encode, leNat_leBytes hlen, hraw', hhash',
    hrdigest', hpdigest', drop_encode]
  simp only [UInt16.ofNat_toNat, UInt64.ofNat_toNat]
  rw [if_neg (by omega), if_neg hzero, if_neg (not_not.mpr hdigest)]

/-- What the decoder checks of a segment. -/
def Accepted (hashes : Hashes) (s : RawBlockSegment) : Prop :=
  s.segmentIndex < s.segmentCount ∧ hashes.sha256 s.payload = s.payloadDigest

theorem accepted_of_decode {frame : List UInt8} (h : decode hashes frame = .ok s) :
    s.Accepted hashes := by
  rw [decode] at h
  split at h
  · cases h
  split at h
  · cases h
  split at h
  · cases h
  dsimp only at h
  split at h
  · cases h
  split at h
  · cases h
  rename_i hindex
  split at h
  · cases h
  rename_i hdigest
  obtain rfl := Except.ok.inj h
  exact ⟨UInt16.not_le.mp fun hle => hindex (Or.inr hle), not_not.mp hdigest⟩

/-- A longer payload leaves a frame that is refused. -/
theorem decode_encode_of_long (hlen : 2 ^ 32 ≤ s.payload.length) :
    decode hashes s.encode = .error .lengthMismatch := by
  have hlength := length_encode s
  have hplen := leNat_lt_span (leBytes 4 s.payload.length)
  rw [length_leBytes] at hplen
  have hplen' : leNat (leBytes 4 s.payload.length) < 2 ^ 32 := hplen
  rw [decode, if_neg (by omega), magic_encode, if_neg (by simp), version_encode,
    if_neg (by simp), payloadLen_encode]
  exact if_pos (by omega)

end RawBlockSegment

/-! ## What is accepted -/

/-- The metadata two segments of one block share. -/
def RawBlockSegment.SameBlock (s t : RawBlockSegment) : Prop :=
  s.blockHash = t.blockHash ∧ s.segmentCount = t.segmentCount ∧ s.rawBlockLen = t.rawBlockLen ∧
    s.rawBlockDigest = t.rawBlockDigest

/-- What is checked of each segment against the first. -/
def RawBlockSegment.Fits (hashes : Hashes) (s first : RawBlockSegment) : Prop :=
  s.SameBlock first ∧ s.segmentIndex < first.segmentCount ∧
    hashes.sha256 s.payload = s.payloadDigest

/-- The segments are those of one block: in the order of their indexes, which are `0..count`
without a gap or a repeat, the payloads are the block `rawBlock`, which has the length and the
digest all of them name. -/
structure CompleteSet (hashes : Hashes) (segments ordered : List RawBlockSegment)
    (rawBlock : List UInt8) : Prop where
  nonempty : segments ≠ []
  perm : ordered.Perm segments
  indexes : ordered.map (fun s => s.segmentIndex.toNat) = List.range ordered.length
  same : ∀ s ∈ segments, ∀ t ∈ segments, s.SameBlock t
  count : ∀ s ∈ segments, s.segmentCount.toNat = ordered.length
  payloads : ∀ s ∈ segments, hashes.sha256 s.payload = s.payloadDigest
  bytes : rawBlock = ordered.flatMap RawBlockSegment.payload
  length : ∀ s ∈ segments, rawBlock.length = s.rawBlockLen.toNat
  digest : ∀ s ∈ segments, hashes.sha256 rawBlock = s.rawBlockDigest

variable {hashes : Hashes}

theorem checkSegments_eq_ok {first : RawBlockSegment} :
    ∀ {payloadLen total : Nat}, payloadLen < 2 ^ 64 →
      (checkSegments hashes first payloadLen segments = .ok total ↔
        (∀ s ∈ segments, s.Fits hashes first) ∧
          total = payloadLen + (segments.flatMap RawBlockSegment.payload).length ∧
          total < 2 ^ 64) := by
  induction segments with
  | nil =>
    intro payloadLen total hlen
    rw [checkSegments, Except.ok.injEq]
    simp
    omega
  | cons segment rest ih =>
    intro payloadLen total hlen
    rw [checkSegments, List.forall_mem_cons, List.flatMap_cons, List.length_append, ← Nat.add_assoc]
    split
    · rename_i hmeta
      refine ⟨fun h => absurd h (by simp), fun ⟨⟨hfits, _⟩, _⟩ => ?_⟩
      obtain ⟨hhash, hcount, hlen, hdigest⟩ := hfits.1
      rcases hmeta with h | h | h | h
      · exact absurd hhash h
      · exact absurd hcount h
      · exact absurd hlen h
      · exact absurd hdigest h
    · rename_i hmeta
      simp only [not_or, not_not] at hmeta
      split
      · rename_i hindex
        refine ⟨fun h => absurd h (by simp), fun ⟨⟨hfits, _⟩, _⟩ => ?_⟩
        exact absurd hfits.2.1 (UInt16.not_lt.mpr hindex)
      · rename_i hindex
        split
        · rename_i hdigest
          exact ⟨fun h => absurd h (by simp), fun ⟨⟨hfits, _⟩, _⟩ => absurd hfits.2.2 hdigest⟩
        · rename_i hdigest
          have hfits : segment.Fits hashes first :=
            ⟨hmeta, UInt16.not_le.mp hindex, not_not.mp hdigest⟩
          split
          · refine ⟨fun h => absurd h (by simp), fun ⟨_, htotal, hbound⟩ => ?_⟩
            omega
          · rw [ih (by omega), and_iff_right hfits]

/-- The check of the order is that the indexes count up. -/
theorem checkOrder_eq_ok :
    ∀ {index : Nat} {previous : Option UInt16}, (∀ p ∈ previous, p.toNat < index) →
      (checkOrder index previous segments = .ok () ↔
        segments.map (fun s => s.segmentIndex.toNat) = List.range' index segments.length) := by
  induction segments with
  | nil => intro index previous _; simp [checkOrder]
  | cons segment rest ih =>
    intro index previous hprevious
    rw [checkOrder, List.map_cons, List.length_cons, List.range'_succ, List.cons.injEq]
    split
    · rename_i hrepeat
      refine ⟨fun h => absurd h (by simp), fun ⟨hindex, _⟩ => ?_⟩
      have := hprevious segment.segmentIndex hrepeat
      omega
    · split
      · rename_i hgap
        exact ⟨fun h => absurd h (by simp), fun ⟨hindex, _⟩ => absurd hindex hgap⟩
      · rename_i hgap
        rw [not_not] at hgap
        rw [ih, and_iff_right hgap]
        intro p hp
        rw [← Option.mem_some.mp hp]
        omega

/-- Sorting by the index finds the order. -/
theorem insertionSort_eq_of_indexes {ordered : List RawBlockSegment} (hperm : ordered.Perm segments)
    (hindexes : ordered.map (fun s => s.segmentIndex.toNat) = List.range ordered.length) :
    (segments.insertionSort fun a b => a.segmentIndex ≤ b.segmentIndex) = ordered := by
  have hnodup : (ordered.map fun s => s.segmentIndex.toNat).Nodup := by
    rw [hindexes]
    exact List.nodup_range
  have hsorted : ordered.Pairwise fun a b => a.segmentIndex ≤ b.segmentIndex := by
    have hrange : (ordered.map fun s => s.segmentIndex.toNat).Pairwise (· < ·) := by
      rw [hindexes]
      exact List.pairwise_lt_range
    exact (List.pairwise_map.mp hrange).imp fun h => Nat.le_of_lt h
  have hsort : (segments.insertionSort fun a b => a.segmentIndex ≤ b.segmentIndex).Pairwise
      fun a b => a.segmentIndex ≤ b.segmentIndex := by
    have : Std.Total fun a b : RawBlockSegment => a.segmentIndex ≤ b.segmentIndex :=
      ⟨fun a b => Nat.le_total _ _⟩
    have : IsTrans RawBlockSegment fun a b => a.segmentIndex ≤ b.segmentIndex :=
      ⟨fun a b c => Nat.le_trans⟩
    exact List.pairwise_insertionSort _ _
  refine List.Perm.eq_of_pairwise ?_ hsort hsorted ((List.perm_insertionSort _ _).trans hperm.symm)
  intro a b ha hb hab hba
  have ha' : a ∈ ordered := hperm.mem_iff.mpr ((List.perm_insertionSort _ _).mem_iff.mp ha)
  exact List.inj_on_of_nodup_map hnodup ha' hb (Nat.le_antisymm hab hba)

/-- **Reassembly returns a block exactly for a complete set.** -/
theorem reassembleRawBlock_eq_ok : reassembleRawBlock hashes segments = .ok rawBlock ↔
      ∃ ordered, CompleteSet hashes segments ordered rawBlock := by
  cases segments with
  | nil => exact ⟨fun h => absurd h (by simp [reassembleRawBlock]), fun ⟨_, h⟩ => absurd rfl h.nonempty⟩
  | cons first rest =>
    have hfirst : first ∈ first :: rest := List.mem_cons_self
    rw [reassembleRawBlock]
    generalize first :: rest = segments at hfirst ⊢
    have hsort := List.perm_insertionSort
      (fun a b : RawBlockSegment => a.segmentIndex ≤ b.segmentIndex) segments
    constructor
    · intro h
      split at h
      · cases h
      split at h
      · cases h
      obtain ⟨total, hcheck, h⟩ := Results.bind_eq_ok.mp h
      obtain ⟨hfits, htotal, -⟩ := (checkSegments_eq_ok (by omega)).mp hcheck
      obtain ⟨_, horder, h⟩ := Results.bind_eq_ok.mp h
      split at h
      · cases h
      rename_i hall
      split at h
      · cases h
      rename_i hlen
      dsimp only at h
      split at h
      · cases h
      rename_i hdigest
      have hbytes := Except.ok.inj h
      have hindexes := (checkOrder_eq_ok (by simp)).mp horder
      rw [hsort.length_eq] at hall
      have hcount' : first.segmentCount.toNat
          = (segments.insertionSort fun a b => a.segmentIndex ≤ b.segmentIndex).length := by
        rw [hsort.length_eq]
        omega
      have hlength : rawBlock.length = first.rawBlockLen.toNat := by
        rw [← hbytes, (hsort.flatMap_right _).length_eq, ← not_not.mp hlen, htotal]
        omega
      refine ⟨_, List.ne_nil_of_mem hfirst, hsort, ?_, ?_, ?_, ?_, hbytes.symm, ?_, ?_⟩
      · rw [hindexes, List.range_eq_range']
      · intro s hs t ht
        obtain ⟨⟨h₁, h₂, h₃, h₄⟩, -, -⟩ := hfits s hs
        obtain ⟨⟨h₁', h₂', h₃', h₄'⟩, -, -⟩ := hfits t ht
        exact ⟨h₁.trans h₁'.symm, h₂.trans h₂'.symm, h₃.trans h₃'.symm, h₄.trans h₄'.symm⟩
      · intro s hs
        rw [(hfits s hs).1.2.1, hcount']
      · exact fun s hs => (hfits s hs).2.2
      · intro s hs
        rw [(hfits s hs).1.2.2.1, hlength]
      · intro s hs
        rw [(hfits s hs).1.2.2.2, ← hbytes]
        exact not_not.mp hdigest
    · rintro ⟨ordered, h⟩
      have hordered := insertionSort_eq_of_indexes h.perm h.indexes
      have hlen := h.perm.length_eq
      have hcount := h.count first hfirst
      have hpos : 0 < segments.length := List.length_pos_of_mem hfirst
      have hfits : ∀ s ∈ segments, s.Fits hashes first := by
        intro s hs
        refine ⟨h.same s hs first hfirst, ?_, h.payloads s hs⟩
        have hmem : s.segmentIndex.toNat ∈ ordered.map (fun s => s.segmentIndex.toNat) :=
          List.mem_map_of_mem (h.perm.mem_iff.mpr hs)
        rw [h.indexes, List.mem_range, ← hcount] at hmem
        exact UInt16.lt_iff_toNat_lt.mpr hmem
      have htotal : (segments.flatMap RawBlockSegment.payload).length
          = first.rawBlockLen.toNat := by
        rw [← h.length first hfirst, h.bytes, (h.perm.flatMap_right _).length_eq]
      have hcheck : checkSegments hashes first 0 segments = .ok first.rawBlockLen.toNat :=
        (checkSegments_eq_ok (by omega)).mpr ⟨hfits, by omega, first.rawBlockLen.toNat_lt⟩
      have horder : checkOrder 0 none ordered = .ok () := by
        rw [checkOrder_eq_ok (by simp), h.indexes, List.range_eq_range']
      have hzero : first.segmentCount ≠ 0 := by
        intro hzero
        rw [hzero] at hcount
        have : (0 : UInt16).toNat = 0 := rfl
        omega
      rw [if_neg hzero, if_neg (by omega), hcheck, hordered]
      simp only [bind, Except.bind, horder]
      rw [if_neg (by omega), if_neg (by simp), ← h.bytes, if_neg]
      exact not_not.mpr (h.digest first hfirst)

/-! ## What is split -/

/-- Segment `index` of a block in `count` segments. -/
def segmentOf (hashes : Hashes) (blockHash : Bytes32) (rawBlock : List UInt8)
    (payloadBudget count index : Nat) : RawBlockSegment :=
  let payload := (rawBlock.drop (index * payloadBudget)).take payloadBudget
  ⟨blockHash, UInt16.ofNat index, UInt16.ofNat count, UInt64.ofNat rawBlock.length,
    hashes.sha256 rawBlock, hashes.sha256 payload, payload⟩

theorem segmentOf_accepted {payloadBudget count index : Nat} (hindex : index < count)
    (hcount : count ≤ 0xffff) :
    (segmentOf hashes blockHash rawBlock payloadBudget count index).Accepted hashes := by
  have hsmall : index < 65536 := by omega
  have hindex' : (UInt16.ofNat index).toNat = index := UInt16.toNat_ofNat_of_lt' hsmall
  have hcount' : (UInt16.ofNat count).toNat = count :=
    UInt16.toNat_ofNat_of_lt' (Nat.lt_succ_of_le hcount)
  refine ⟨?_, rfl⟩
  show UInt16.ofNat index < UInt16.ofNat count
  rw [UInt16.lt_iff_toNat_lt, hindex', hcount']
  exact hindex

/-- The end of the last segment is the end of the block without being cut to it. -/
theorem slice_min (rawBlock : List UInt8) (start budget : Nat) :
    slice rawBlock start (min (start + budget) rawBlock.length - start)
      = (rawBlock.drop start).take budget := by
  rw [slice, List.take_eq_take_iff, List.length_drop]
  omega

theorem splitRawBlock_of_count {budget count : Nat} (hbudget : 0 < budget)
    (hcount : max ((rawBlock.length + budget - 1) / budget) 1 = count) (hmax : count ≤ 0xffff) :
    splitRawBlock hashes blockHash rawBlock (budget + RawBlockSegment.headerLen) =
      .ok ((List.range count).map (segmentOf hashes blockHash rawBlock budget count)) := by
  rw [splitRawBlock]
  rw [Nat.add_sub_cancel, if_neg (Nat.ne_of_gt hbudget), hcount, if_neg (Nat.not_lt.mpr hmax)]
  simp only [slice_min]
  rfl

theorem splitRawBlock_eq_ok {maxFrameLen : Nat}
    (h : splitRawBlock hashes blockHash rawBlock maxFrameLen = .ok segments) :
    RawBlockSegment.headerLen < maxFrameLen ∧ ∃ count, 0 < count ∧ count ≤ 0xffff ∧
      rawBlock.length ≤ count * (maxFrameLen - RawBlockSegment.headerLen) ∧
      segments = (List.range count).map (segmentOf hashes blockHash rawBlock
        (maxFrameLen - RawBlockSegment.headerLen) count) := by
  rw [splitRawBlock] at h
  dsimp only at h
  split at h
  · cases h
  rename_i hbudget
  split at h
  · cases h
  rename_i hcount
  generalize hb : maxFrameLen - RawBlockSegment.headerLen = budget at h hbudget hcount
  refine ⟨by omega, _, ?_, Nat.le_of_not_lt hcount, ?_, ?_⟩
  · exact Nat.lt_of_lt_of_le Nat.zero_lt_one (Nat.le_max_right _ _)
  · have hceil : rawBlock.length ≤ (rawBlock.length + budget - 1) / budget * budget := by
      have hdiv := Nat.div_add_mod (rawBlock.length + budget - 1) budget
      have hmod := Nat.mod_lt (rawBlock.length + budget - 1) (Nat.pos_of_ne_zero hbudget)
      rw [Nat.mul_comm] at hdiv
      omega
    exact Nat.le_trans hceil (Nat.mul_le_mul_right _ (Nat.le_max_left _ _))
  · simp only [slice_min] at h
    exact (Except.ok.inj h).symm

section Split

variable {rawBlock : Slice} {budget count : Nat}

theorem completeSet_split (hpos : 0 < count) (hcount : count ≤ 0xffff)
    (hall : rawBlock.bytes.length ≤ count * budget) {permuted : List RawBlockSegment}
    (hperm : permuted.Perm
      ((List.range count).map (segmentOf hashes blockHash rawBlock.bytes budget count))) :
    CompleteSet hashes permuted
      ((List.range count).map (segmentOf hashes blockHash rawBlock.bytes budget count))
      rawBlock.bytes := by
  have hmem : ∀ s ∈ permuted, ∃ index, index < count ∧
      segmentOf hashes blockHash rawBlock.bytes budget count index = s := by
    intro s hs
    obtain ⟨index, hindex, hs⟩ := List.mem_map.mp (hperm.mem_iff.mp hs)
    exact ⟨index, List.mem_range.mp hindex, hs⟩
  have hlen : ((List.range count).map
      (segmentOf hashes blockHash rawBlock.bytes budget count)).length = count := by
    rw [List.length_map, List.length_range]
  have hcount' : (UInt16.ofNat count).toNat = count :=
    UInt16.toNat_ofNat_of_lt' (Nat.lt_succ_of_le hcount)
  have hraw : (UInt64.ofNat rawBlock.bytes.length).toNat = rawBlock.bytes.length :=
    UInt64.toNat_ofNat_of_lt' (Nat.lt_of_le_of_lt rawBlock.fits (by decide))
  refine ⟨?_, hperm.symm, ?_, ?_, ?_, ?_, ?_, ?_, ?_⟩
  · rw [← List.length_pos_iff, hperm.length_eq, hlen]
    exact hpos
  · rw [hlen, List.map_map]
    conv_rhs => rw [← List.map_id (List.range count)]
    refine List.map_congr_left fun index hindex => ?_
    have hsmall : index < 65536 := by
      have := List.mem_range.mp hindex
      omega
    exact UInt16.toNat_ofNat_of_lt' hsmall
  · intro s hs t ht
    obtain ⟨i, -, rfl⟩ := hmem s hs
    obtain ⟨j, -, rfl⟩ := hmem t ht
    exact ⟨rfl, rfl, rfl, rfl⟩
  · intro s hs
    obtain ⟨i, -, rfl⟩ := hmem s hs
    rw [hlen]
    exact hcount'
  · intro s hs
    obtain ⟨i, -, rfl⟩ := hmem s hs
    rfl
  · rw [List.flatMap_map]
    show rawBlock.bytes
      = (List.range count).flatMap fun i => (rawBlock.bytes.drop (i * budget)).take budget
    rw [flatMap_range_take_drop, List.take_of_length_le hall]
  · intro s hs
    obtain ⟨i, -, rfl⟩ := hmem s hs
    exact hraw.symm
  · intro s hs
    obtain ⟨i, -, rfl⟩ := hmem s hs
    rfl

end Split

/-- The hashes of a block of three bytes and of its two segments. -/
def twoSegmentHashes : Hashes :=
  .ofTables
    [([1, 2, 3], toBytes32 [0x03, 0x90, 0x58, 0xc6, 0xf2, 0xc0, 0xcb, 0x49, 0x2c, 0x53, 0x3b, 0x0a,
      0x4d, 0x14, 0xef, 0x77, 0xcc, 0x0f, 0x78, 0xab, 0xcc, 0xce, 0xd5, 0x28, 0x7d, 0x84, 0xa1,
      0xa2, 0x01, 0x1c, 0xfb, 0x81]),
     ([1, 2], toBytes32 [0xa1, 0x28, 0x71, 0xfe, 0xe2, 0x10, 0xfb, 0x86, 0x19, 0x29, 0x1e, 0xae,
      0xa1, 0x94, 0x58, 0x1c, 0xbd, 0x25, 0x31, 0xe4, 0xb2, 0x37, 0x59, 0xd2, 0x25, 0xf6, 0x80,
      0x69, 0x23, 0xf6, 0x32, 0x22]),
     ([3], toBytes32 [0x08, 0x4f, 0xed, 0x08, 0xb9, 0x78, 0xaf, 0x4d, 0x7d, 0x19, 0x6a, 0x74, 0x46,
      0xa8, 0x6b, 0x58, 0x00, 0x9e, 0x63, 0x6b, 0x61, 0x1d, 0xb1, 0x62, 0x11, 0xb6, 0x5a, 0x9a,
      0xad, 0xff, 0x29, 0xc5])] []

/-- A block that fits one segment exactly. -/
theorem splitRawBlock_single (hlen : rawBlock.length = n) (hpos : 0 < n) :
    splitRawBlock hashes blockHash rawBlock (n + RawBlockSegment.headerLen) =
      .ok [segmentOf hashes blockHash rawBlock n 1 0] := by
  refine splitRawBlock_of_count hpos ?_ (show 1 ≤ 0xffff by decide)
  have hone : (n + n - 1) / n = 1 := by
    rw [Nat.div_eq_iff hpos]
    omega
  rw [hlen, hone, Nat.max_self]

end MiningInfra.Relay
