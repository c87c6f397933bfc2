import MiningInfra.Ingress.Blocks
import MiningInfra.Ingress.Format

/-!
# Skipping transactions

Every part of a transaction is passed whole by the code that skips it, whatever follows; and
whatever the bytes are, every loop iteration is paid for by bytes that were passed.
-/

namespace MiningInfra.Ingress

open Lib Lib.Cursor Coinbase

/-! ## Counts -/

variable {α : Type} {n : Nat} {items : List α} {label : String}

theorem ofNat_eq_zero (h : (UInt64.ofNat items.length).toNat = items.length) :
    UInt64.ofNat items.length = 0 ↔ items = [] := by
  rw [← UInt64.toNat_inj, h]
  exact List.length_eq_zero_iff

theorem ofNat_pos (h : (UInt64.ofNat items.length).toNat = items.length) :
    0 < UInt64.ofNat items.length ↔ items ≠ [] := by
  rw [UInt64.lt_iff_toNat_lt, h]
  exact List.length_pos_iff

theorem isEmpty_iff {x : Sapling} : x.isEmpty = true ↔ x.spends = [] ∧ x.outputs = [] := by
  rw [Sapling.isEmpty, Bool.and_eq_true, List.isEmpty_iff, List.isEmpty_iff]

theorem toUInt64_ofNat_u16 (h : n < span 2) : (UInt16.ofNat n).toUInt64 = UInt64.ofNat n := by
  have hlt : n < UInt64.size := Nat.lt_of_lt_of_le h (by decide)
  apply UInt64.toNat_inj.mp
  rw [UInt16.toNat_toUInt64, UInt16.toNat_ofNat_of_lt' h, UInt64.toNat_ofNat_of_lt' hlt]

theorem toUInt64_ofNat_u32 (h : n < span 4) : (UInt32.ofNat n).toUInt64 = UInt64.ofNat n := by
  have hlt : n < UInt64.size := Nat.lt_of_lt_of_le h (by decide)
  apply UInt64.toNat_inj.mp
  rw [UInt32.toNat_toUInt64, UInt32.toNat_ofNat_of_lt' h, UInt64.toNat_ofNat_of_lt' hlt]

/-! ## The readers of a compact size -/

section Passing

variable {payload : List UInt8} (hpayload : payload.length ≤ isizeMax)

/-- The first byte, where there is one. -/
theorem readU8_run (m : Machine) :
    readU8 payload m = if h : m.cursor < payload.length then
        (.ok payload[m.cursor], { m with
          cursor := addUsize m.cursor 1
          moves := (m.cursor, addUsize m.cursor 1) :: m.moves })
      else (.err "unexpected end of payload", m) := by
  split
  · rename_i h
    simp [readU8, bind, position, List.getElem?_eq_getElem h, Cursor.advance, pure]
  · rename_i h
    simp [readU8, bind, position, List.getElem?_eq_none (Nat.le_of_not_lt h), fail]

variable {m : Machine}

include hpayload

/-- Where no sum wraps, `checked_add` and `get` do what the check and the slice do. -/
theorem readExact_eq_takeBytes (hm : m.cursor ≤ payload.length) (hn : n ≤ 8) :
    readExact payload n m = takeBytes payload n (fun _ => "unexpected end of payload") m := by
  have hsize : isizeMax + 8 < UInt64.size := by decide
  rw [readExact, takeChecked_run, if_neg (by omega), takeBytes_run, addUsize_of_lt (by omega)]
  split
  · rfl
  · rw [if_pos (Nat.le_add_right _ _), Nat.add_sub_cancel_left]

/-- A word, widened afterwards or read at its width. -/
theorem readWord_eq {f g : List UInt8 → UInt64} (hm : m.cursor ≤ payload.length) (hn : n ≤ 8)
    (hfg : ∀ v : List UInt8, v.length = n → f v = g v) :
    (readExact payload n >>= fun v => pure (f v)) m =
      (takeBytes payload n (fun _ => "unexpected end of payload") >>= fun v => pure (g v)) m := by
  have hread := readExact_eq_takeBytes hpayload hm hn
  cases hrun : readExact payload n m with
  | mk o m' =>
    rw [hrun] at hread
    cases o with
    | ok v =>
      obtain ⟨hle, hv, -⟩ := takeChecked_at ⟨hm, rfl⟩ hrun
      have hlen : v.length = n := hv ▸ List.length_take_of_le hle
      rw [bind_ok hrun, bind_ok hread.symm, hfg v hlen]
    | err e => rw [bind_err hrun, bind_err hread.symm]
    | panic => rw [bind_panic hrun, bind_panic hread.symm]

/-- **The reader of the ingress is the one of the pool**, on every slice. -/
theorem decodeCompactSize_eq : decodeCompactSize payload =
    readCompactSizeWith payload fun _ => "unexpected end of payload" := by
  funext m
  rw [readCompactSizeWith_run]
  split
  · rename_i h
    have hsize : isizeMax + 8 < UInt64.size := by decide
    have hread := (readU8_run m).trans (dif_pos h)
    rw [addUsize_of_lt (by omega)] at hread ⊢
    rw [decodeCompactSize, bind_ok hread]
    generalize payload[m.cursor] = first
    unfold readCompactRest compactWidth
    split
    · rfl
    · split
      · rw [readU16Le, bind_assoc]
        exact readWord_eq hpayload h (by decide) fun v hv =>
          toUInt64_ofNat_u16 (hv ▸ leNat_lt_span v)
      · split
        · rw [readU32Le, bind_assoc]
          exact readWord_eq hpayload h (by decide) fun v hv =>
            toUInt64_ofNat_u32 (hv ▸ leNat_lt_span v)
        · exact readWord_eq hpayload h (by decide) fun _ _ => rfl
  · rename_i h
    exact bind_err ((readU8_run m).trans (dif_neg h))

theorem follows_decodeCompactSize :
    Follows payload 0 (decodeCompactSize payload) compactSize fun _ => True := by
  rw [decodeCompactSize_eq hpayload]
  exact follows_readCompactSizeWith hpayload _

/-! ## Words are passed -/

variable {bytes : List UInt8} {encode : α → List UInt8} {next : Cursor String Unit}

theorem passes_readExact (h : bytes.length = n) :
    Passes payload (readExact payload n) bytes bytes :=
  .takeChecked hpayload h _ _

theorem passes_readU32Le (hn : n < span 4) :
    Passes payload (readU32Le payload) (leBytes 4 n) (UInt32.ofNat n) :=
  (passes_readExact hpayload (length_leBytes 4 n)).map (congrArg _ (leNat_leBytes hn))

theorem passes_u32Bytes (v : UInt32) : Passes payload (readU32Le payload) (u32Bytes v) v := by
  have hread := passes_readU32Le hpayload v.toNat_lt
  rwa [UInt32.ofNat_toNat] at hread

theorem passes_decodeCompactSize (n : UInt64) :
    Passes payload (decodeCompactSize payload) (pushCompactSize n) n := by
  intro m rest hat
  obtain ⟨m', hrun, hat', -⟩ := (follows_decodeCompactSize hpayload).ok hat trivial
    (compactSize_pushCompactSize n rest)
  exact ⟨m', hrun, hat'⟩

/-! ## Fields are passed -/

theorem passes_skipBytes (h : bytes.length = n) :
    Passes payload (skipBytes payload n label) bytes () :=
  (Passes.takeChecked hpayload h _ _).map rfl

theorem passes_field (field : Field n) : Passes payload (skipBytes payload n label) field.1 () :=
  passes_skipBytes hpayload field.2

theorem passes_skipBytesIf {c : Prop} [Decidable c] (hpos : c → bytes.length = n)
    (hneg : ¬ c → bytes = []) : Passes payload (skipBytesIf payload c n label) bytes () := by
  rw [skipBytesIf]
  split
  · exact passes_skipBytes hpayload (hpos ‹_›)
  · rw [hneg ‹_›]
    exact .ret ()

theorem passes_word (v : UInt32) : Passes payload (skipBytes payload 4 label) (u32Bytes v) () :=
  passes_skipBytes hpayload (length_leBytes 4 v.toNat)

theorem passes_expectU32 (v : UInt32) :
    Passes payload (expectU32 payload v label) (u32Bytes v) () := by
  refine ((passes_u32Bytes hpayload v).bind ?_ : Passes payload _ (u32Bytes v ++ []) ()).congr
    (List.append_nil _).symm
  rw [failIf, if_neg (by simp)]
  exact .ret ()

/-- A length and that many bytes. -/
theorem passes_script (s : List UInt8) :
    Passes payload (decodeCompactSize payload >>= fun len => skipCountedBytes payload len label)
      (scriptBytes s) () := by
  refine .of_length_le fun hle => ?_
  have hlen : (UInt64.ofNat s.length).toNat = s.length := by
    refine UInt64.toNat_ofNat_of_lt' ?_
    have hsize : isizeMax < UInt64.size := by decide
    rw [scriptBytes, List.length_append] at hle
    omega
  exact (passes_decodeCompactSize hpayload _).bind (passes_skipBytes hpayload hlen.symm)

/-- A script with something behind it. -/
theorem passes_scriptThen (s : List UInt8) (hnext : Passes payload next bytes ()) :
    Passes payload (do
      let len ← decodeCompactSize payload
      skipCountedBytes payload len label
      next) (scriptBytes s ++ bytes) () := by
  rw [← Cursor.bind_assoc]
  exact (passes_script hpayload s).bind hnext

/-- Items of one size. -/
theorem passes_skipFixedItems {size : Nat} (hsize : 0 < size)
    (hitem : ∀ item ∈ items, (encode item).length = size) :
    Passes payload (skipFixedItems payload (UInt64.ofNat items.length) size label)
      (items.flatMap encode) () := by
  refine .of_length_le fun hle => ?_
  have hlength : (items.flatMap encode).length = items.length * size := by
    rw [List.length_flatMap, List.map_congr_left hitem, List.map_const', List.sum_replicate_nat]
  have hmax : isizeMax < UInt64.size := by decide
  have hcount : (UInt64.ofNat items.length).toNat = items.length := by
    refine UInt64.toNat_ofNat_of_lt' ?_
    have := Nat.le_mul_of_pos_right items.length hsize
    omega
  rw [skipFixedItems, hcount, failIf, if_neg (by omega)]
  exact passes_skipBytes hpayload hlength

/-- A count is a machine word: its items are in the payload. -/
theorem count_toNat (hitem : ∀ item ∈ items, 0 < (encode item).length)
    (hle : (countedBytes encode items).length ≤ payload.length) :
    (UInt64.ofNat items.length).toNat = items.length := by
  have hmax : isizeMax < UInt64.size := by decide
  have hitems : items.length ≤ (items.flatMap encode).length := by
    clear hle
    induction items with
    | nil => exact Nat.le_refl _
    | cons item items ih =>
      have hfirst := hitem item List.mem_cons_self
      have hrest := ih fun other hmem => hitem other (List.mem_cons_of_mem _ hmem)
      rw [List.flatMap_cons, List.length_append, List.length_cons]
      omega
  refine UInt64.toNat_ofNat_of_lt' ?_
  rw [countedBytes, List.length_append] at hle
  omega

/-- A count and a loop over the items. -/
theorem passes_counted {body : Cursor String Unit}
    (hitem : ∀ item ∈ items, 0 < (encode item).length)
    (hbody : ∀ item ∈ items, Passes payload body (encode item) ()) :
    Passes payload (do
      let count ← decodeCompactSize payload
      let _ ← times count.toNat body
      pure ()) (countedBytes encode items) () := by
  refine .of_length_le fun hle => (passes_decodeCompactSize hpayload _).bind ?_
  rw [count_toNat hpayload hitem hle]
  have hloop : Passes payload (times items.length body) (items.flatMap encode)
      (items.map fun _ => ()) := .times hbody
  exact hloop.map rfl

/-- A count, that many items of one size, and something behind them. -/
theorem passes_countedItems {size : Nat} {next : UInt64 → Cursor String Unit} (hsize : 0 < size)
    (hitem : ∀ item, (encode item).length = size)
    (hnext : (UInt64.ofNat items.length).toNat = items.length →
      Passes payload (next (UInt64.ofNat items.length)) bytes ()) :
    Passes payload (do
      let count ← decodeCompactSize payload
      skipFixedItems payload count size label
      next count) (countedBytes encode items ++ bytes) () := by
  refine .of_length_le fun hle => ?_
  rw [List.length_append] at hle
  have hcount := count_toNat hpayload (fun item _ => hitem item ▸ hsize)
    (Nat.le_trans (Nat.le_add_right _ _) hle)
  rw [countedBytes, List.append_assoc]
  exact (passes_decodeCompactSize hpayload _).bind
    ((passes_skipFixedItems hpayload hsize fun item _ => hitem item).bind (hnext hcount))

theorem passes_skipTransparentInputs (inputs : List TxIn) :
    Passes payload (skipTransparentInputs payload) (countedBytes TxIn.bytes inputs) () := by
  refine passes_counted hpayload (fun input _ => ?_) fun input _ => ?_
  · simp [TxIn.bytes, u32Bytes, length_leBytes]
  · have houtpoint : (List.ofFn input.prevoutHash ++ u32Bytes input.prevoutIndex).length = 32 + 4 := by
      simp [u32Bytes, length_leBytes]
    refine ((passes_skipBytes hpayload houtpoint).bind (passes_scriptThen hpayload input.scriptSig
      (passes_word hpayload input.sequence))).congr ?_
    rw [TxIn.bytes, List.append_assoc _ (scriptBytes _)]

theorem passes_skipTransparentOutputs (outputs : List TxOut) :
    Passes payload (skipTransparentOutputs payload) (countedBytes TxOut.bytes outputs) () := by
  refine passes_counted hpayload (fun output _ => ?_) fun output _ => ?_
  · rw [TxOut.bytes, List.length_append, u64Bytes, length_leBytes]
    omega
  · exact (passes_skipBytes hpayload (length_leBytes 8 _)).bind (passes_script hpayload _)

theorem passes_skipJoinsplitData {proofSize : Nat} (x : JoinSplits proofSize) {itemSize : Nat}
    (hsize : itemSize = 1506 + proofSize) :
    Passes payload (skipJoinsplitData payload itemSize) x.bytes () := by
  refine passes_countedItems hpayload (by omega) (fun y => hsize ▸ y.length_bytes) fun hcount => ?_
  by_cases hnil : x.joinSplits = []
  · rw [if_neg (by rw [ofNat_pos hcount]; exact not_not.mpr hnil), if_pos hnil]
    exact .ret ()
  · rw [if_pos ((ofNat_pos hcount).mpr hnil), if_neg hnil]
    exact (passes_field hpayload x.pubKey).bind (passes_field hpayload x.sig)

theorem passes_skipV4SaplingAndSprout (x : Sapling) (joinSplits : JoinSplits 192) :
    Passes payload (skipV4SaplingAndSprout payload) (x.v4Bytes joinSplits) () := by
  simp only [Sapling.v4Bytes, List.append_assoc]
  refine (passes_field hpayload x.valueBalance).bind
    (passes_countedItems hpayload (by decide) SaplingSpend.length_bytes fun hspends =>
    passes_countedItems hpayload (by decide) SaplingOutput.length_bytes fun houtputs =>
    (passes_skipJoinsplitData hpayload joinSplits rfl).bind ?_)
  have hempty : 0 < UInt64.ofNat x.spends.length ∨ 0 < UInt64.ofNat x.outputs.length ↔
      ¬ x.isEmpty = true := by
    rw [ofNat_pos hspends, ofNat_pos houtputs, isEmpty_iff, not_and_or]
  refine passes_skipBytesIf hpayload (fun hsome => ?_) fun hnone => ?_
  · rw [if_neg (hempty.mp hsome), Field.length]
    rfl
  · rw [if_pos (not_not.mp (mt hempty.mpr hnone))]

theorem passes_skipV5Sapling (x : Sapling) :
    Passes payload (skipV5Sapling payload) x.v5Bytes () := by
  simp only [Sapling.v5Bytes, List.append_assoc]
  refine passes_countedItems hpayload (by decide) SaplingSpend.length_prefixBytes fun hspends =>
    passes_countedItems hpayload (by decide) SaplingOutput.length_prefixBytes fun houtputs => ?_
  have hempty : UInt64.ofNat x.spends.length = 0 ∧ UInt64.ofNat x.outputs.length = 0 ↔
      x.isEmpty = true := by
    rw [ofNat_eq_zero hspends, ofNat_eq_zero houtputs, isEmpty_iff]
  by_cases hnone : x.isEmpty = true
  · rw [if_pos (hempty.mpr hnone), if_pos hnone]
    exact .ret ()
  · rw [if_neg (fun h => hnone (hempty.mp h)), if_neg hnone]
    have hanchor : Passes payload (skipBytesIf payload (0 < UInt64.ofNat x.spends.length) 32
        "sapling shared anchor") (if x.spends = [] then [] else x.anchor.1) () := by
      refine passes_skipBytesIf hpayload (fun hsome => ?_) fun hnone => ?_
      · rw [if_neg ((ofNat_pos hspends).mp hsome), Field.length]
      · rw [if_pos (not_not.mp (mt (ofNat_pos hspends).mpr hnone))]
    exact (passes_field hpayload x.valueBalance).bind (hanchor.bind
      ((passes_skipFixedItems hpayload (by decide) (fun y _ => y.zkproof.2)).bind
      ((passes_skipFixedItems hpayload (by decide) (fun y _ => y.spendAuthSig.2)).bind
      ((passes_skipFixedItems hpayload (by decide) (fun y _ => y.zkproof.2)).bind
      (passes_field hpayload x.bindingSig)))))

theorem passes_skipOrchard (x : Orchard) : Passes payload (skipOrchard payload) x.bytes () := by
  simp only [Orchard.bytes, List.append_assoc]
  refine passes_countedItems hpayload (by decide) OrchardAction.length_bytes fun hactions => ?_
  by_cases hnil : x.actions = []
  · rw [if_pos ((ofNat_eq_zero hactions).mpr hnil), if_pos hnil]
    exact .ret ()
  · rw [if_neg (fun h => hnil ((ofNat_eq_zero hactions).mp h)), if_neg hnil]
    have hflags : [x.flags].length = 1 := rfl
    exact (passes_skipBytes hpayload hflags).bind ((passes_field hpayload x.valueBalance).bind
      ((passes_field hpayload x.anchor).bind (passes_scriptThen hpayload x.proofs
      ((passes_skipFixedItems hpayload (by decide) (fun y _ => y.spendAuthSig.2)).bind
      (passes_field hpayload x.bindingSig)))))

/-! ## Transactions are passed -/

theorem passes_transparent (x : Transparent) (hnext : Passes payload next bytes ()) :
    Passes payload (do
      skipTransparentInputs payload
      skipTransparentOutputs payload
      next) (x.bytes ++ bytes) () := by
  rw [Transparent.bytes, List.append_assoc]
  exact (passes_skipTransparentInputs hpayload x.inputs).bind
    ((passes_skipTransparentOutputs hpayload x.outputs).bind hnext)

theorem passes_skipV5Common (versionGroupId : UInt32) (label : String)
    (consensusBranchId lockTime expiryHeight : UInt32) (transparent : Transparent)
    (sapling : Sapling) (orchard : Orchard) :
    Passes payload (skipV5Common payload versionGroupId label)
      (u32Bytes versionGroupId ++ (u32Bytes consensusBranchId ++ (u32Bytes lockTime ++
        (u32Bytes expiryHeight ++ (transparent.bytes ++ (sapling.v5Bytes ++ orchard.bytes)))))) () :=
  (passes_expectU32 hpayload versionGroupId).bind
    ((passes_word hpayload consensusBranchId).bind ((passes_word hpayload lockTime).bind
    ((passes_word hpayload expiryHeight).bind (passes_transparent hpayload transparent
    ((passes_skipV5Sapling hpayload sapling).bind (passes_skipOrchard hpayload orchard))))))

/-- **A transaction is passed whole.** -/
theorem passes_skipTransaction (tx : ConsensusTx) :
    Passes payload (skipTransaction payload) tx.bytes () := by
  rw [skipTransaction]
  cases tx with
  | v1 transparent lockTime =>
    rw [ConsensusTx.bytes, List.append_assoc]
    refine (passes_u32Bytes hpayload 1).bind ?_
    rw [if_pos (by decide)]
    exact passes_transparent hpayload transparent (passes_word hpayload lockTime)
  | v2 transparent lockTime joinSplits =>
    simp only [ConsensusTx.bytes, List.append_assoc]
    refine (passes_u32Bytes hpayload 2).bind ?_
    rw [if_neg (by decide), if_pos (by decide)]
    exact passes_transparent hpayload transparent ((passes_word hpayload lockTime).bind
      (passes_skipJoinsplitData hpayload joinSplits rfl))
  | v3 transparent lockTime expiryHeight joinSplits =>
    simp only [ConsensusTx.bytes, List.append_assoc]
    refine (passes_u32Bytes hpayload 0x80000003).bind ?_
    rw [if_neg (by decide), if_neg (by decide), if_pos (by decide)]
    exact (passes_expectU32 hpayload _).bind (passes_transparent hpayload transparent
      ((passes_word hpayload lockTime).bind ((passes_word hpayload expiryHeight).bind
      (passes_skipJoinsplitData hpayload joinSplits rfl))))
  | v4 transparent lockTime expiryHeight sapling joinSplits =>
    simp only [ConsensusTx.bytes, List.append_assoc]
    refine (passes_u32Bytes hpayload 0x80000004).bind ?_
    rw [if_neg (by decide), if_neg (by decide), if_neg (by decide), if_pos (by decide)]
    exact (passes_expectU32 hpayload _).bind (passes_transparent hpayload transparent
      ((passes_word hpayload lockTime).bind ((passes_word hpayload expiryHeight).bind
      (passes_skipV4SaplingAndSprout hpayload sapling joinSplits))))
  | v5 consensusBranchId lockTime expiryHeight transparent sapling orchard =>
    simp only [ConsensusTx.bytes, List.append_assoc]
    refine (passes_u32Bytes hpayload 0x80000005).bind ?_
    rw [if_neg (by decide), if_neg (by decide), if_neg (by decide), if_neg (by decide),
      if_pos (by decide)]
    exact passes_skipV5Common hpayload _ _ consensusBranchId lockTime expiryHeight transparent
      sapling orchard
  | v6 consensusBranchId lockTime expiryHeight transparent sapling orchard ironwood =>
    have hboth := (passes_skipV5Common hpayload txV6VersionGroupId "v6 version group"
      consensusBranchId lockTime expiryHeight transparent sapling orchard).bind
      (f := fun _ => skipOrchard payload) (passes_skipOrchard hpayload ironwood)
    simp only [List.append_assoc] at hboth
    simp only [ConsensusTx.bytes, List.append_assoc]
    refine (passes_u32Bytes hpayload 0x80000006).bind ?_
    rw [if_neg (by decide), if_neg (by decide), if_neg (by decide), if_neg (by decide),
      if_neg (by decide), if_pos (by decide)]
    exact hboth

end Passing

/-! ## Iterations are paid for -/

section Payment

variable {payload : List UInt8}

theorem paid_skipBytes : Paid payload n 0 (skipBytes payload n label) :=
  (Paid.takeChecked n _ _).bind fun _ => .ret _

/-- Where it does not matter how many bytes are passed. -/
theorem paid_skipAny : Paid payload 0 0 (skipBytes payload n label) :=
  paid_skipBytes.mono (Nat.zero_le _) (Nat.le_refl _)

theorem paid_skipBytesIf (c : Prop) [Decidable c] :
    Paid payload 0 0 (skipBytesIf payload c n label) := by
  rw [skipBytesIf]
  split
  · exact paid_skipAny
  · exact .ret ()

theorem paid_skipFixedItems {count : UInt64} {size : Nat} :
    Paid payload 0 0 (skipFixedItems payload count size label) :=
  (Paid.failIf _ _).bind fun _ => paid_skipAny

theorem paid_readU32Le : Paid payload 4 0 (readU32Le payload) :=
  (Paid.takeChecked 4 _ _).bind fun _ => .ret _

theorem paid_expectU32 {expected : UInt32} : Paid payload 0 0 (expectU32 payload expected label) :=
  (paid_readU32Le.bind fun _ => .failIf _ _).mono (Nat.zero_le _) (Nat.le_refl _)

variable (hpayload : payload.length ≤ isizeMax)

include hpayload

theorem paid_readU8 : Paid payload 1 0 (readU8 payload) := by
  intro m hle
  rw [readU8_run]
  split
  · rename_i hlt
    have hsize : isizeMax < UInt64.size := by decide
    rw [addUsize_of_lt (by omega)]
    exact .inl ⟨_, _, rfl, Nat.le_succ _, hlt, Nat.le_refl _⟩
  · exact .inr ⟨_, m, rfl, by omega⟩

theorem paid_decodeCompactSize : Paid payload 1 0 (decodeCompactSize payload) := by
  refine (paid_readU8 hpayload).bind (fun first => ?_ : ∀ _, Paid payload 0 0 _)
  split
  · exact .ret _
  · split
    · exact (((Paid.takeChecked 2 _ _).bind fun _ => .ret _).bind fun _ => .ret _).mono
        (Nat.zero_le _) (Nat.le_refl _)
    · split
      · exact (paid_readU32Le.bind fun _ => .ret _).mono (Nat.zero_le _) (Nat.le_refl _)
      · exact ((Paid.takeChecked 8 _ _).bind fun _ => .ret _).mono (Nat.zero_le _) (Nat.le_refl _)

/-- A count, of which only that it is there matters. -/
theorem paid_count {f : UInt64 → Cursor String Unit} {debt : Nat}
    (hf : ∀ count, Paid payload 0 debt (f count)) :
    Paid payload 0 debt (decodeCompactSize payload >>= f) :=
  (((paid_decodeCompactSize hpayload).mono (Nat.le_refl _) (Nat.zero_le _)).bind hf).mono
    (Nat.zero_le _) (Nat.le_refl _)

/-- A loop is paid for where its body passes something. -/
theorem paid_counted {body : Cursor String Unit} (hn : 0 < n) (hbody : Paid payload n 0 body) :
    Paid payload 0 1 (do
      let count ← decodeCompactSize payload
      let _ ← times count.toNat body
      pure ()) :=
  paid_count hpayload fun count => (Paid.times (hbody.mono hn (Nat.le_refl _)) count.toNat).bind
    fun _ => (Paid.ret ()).owing

theorem paid_skipTransparentInputs : Paid payload 0 1 (skipTransparentInputs payload) :=
  paid_counted hpayload (by omega) (paid_skipBytes.bind fun _ => paid_count hpayload fun _ =>
    paid_skipAny.bind fun _ => paid_skipAny)

theorem paid_skipTransparentOutputs : Paid payload 0 1 (skipTransparentOutputs payload) :=
  paid_counted hpayload (by omega) (paid_skipBytes.bind fun _ => paid_count hpayload fun _ =>
    paid_skipAny)

theorem paid_skipJoinsplitData (itemSize : Nat) :
    Paid payload 0 0 (skipJoinsplitData payload itemSize) := by
  refine paid_count hpayload fun count => paid_skipFixedItems.andThen fun _ => ?_
  split
  · exact paid_skipAny.andThen fun _ => paid_skipAny
  · exact .ret ()

theorem paid_skipV4SaplingAndSprout : Paid payload 0 0 (skipV4SaplingAndSprout payload) :=
  paid_skipAny.andThen fun _ => paid_count hpayload fun _ =>
    paid_skipFixedItems.andThen fun _ => paid_count hpayload fun _ =>
    paid_skipFixedItems.andThen fun _ => (paid_skipJoinsplitData hpayload _).andThen fun _ =>
    paid_skipBytesIf _

theorem paid_skipV5Sapling : Paid payload 0 0 (skipV5Sapling payload) := by
  refine paid_count hpayload fun _ => paid_skipFixedItems.andThen fun _ =>
    paid_count hpayload fun _ => paid_skipFixedItems.andThen fun _ => ?_
  split
  · exact .ret ()
  · exact paid_skipAny.andThen fun _ => (paid_skipBytesIf _).andThen fun _ =>
      paid_skipFixedItems.andThen fun _ => paid_skipFixedItems.andThen fun _ =>
      paid_skipFixedItems.andThen fun _ => paid_skipAny

theorem paid_skipOrchard : Paid payload 0 0 (skipOrchard payload) := by
  refine paid_count hpayload fun _ => paid_skipFixedItems.andThen fun _ => ?_
  split
  · exact .ret ()
  · exact paid_skipAny.andThen fun _ => paid_skipAny.andThen fun _ =>
      paid_skipAny.andThen fun _ => paid_count hpayload fun _ =>
      paid_skipAny.andThen fun _ => paid_skipFixedItems.andThen fun _ => paid_skipAny

theorem paid_transparent {next : Cursor String Unit} (hnext : Paid payload 0 0 next) :
    Paid payload 0 1 (do
      skipTransparentInputs payload
      skipTransparentOutputs payload
      next) :=
  (paid_skipTransparentInputs hpayload).andThen fun _ =>
    (paid_skipTransparentOutputs hpayload).andThen fun _ => hnext.owing

theorem paid_skipV5Common {versionGroupId : UInt32} :
    Paid payload 0 1 (skipV5Common payload versionGroupId label) :=
  paid_expectU32.owing.andThen fun _ => paid_skipAny.owing.andThen fun _ =>
    paid_skipAny.owing.andThen fun _ => paid_skipAny.owing.andThen fun _ =>
    paid_transparent hpayload ((paid_skipV5Sapling hpayload).andThen fun _ =>
    paid_skipOrchard hpayload)

/-- The first word of a transaction pays for the iteration it takes in its block. -/
theorem paid_skipTransaction : Paid payload 1 1 (skipTransaction payload) := by
  refine (paid_readU32Le.owing.bind (fun header => ?_ : ∀ _, Paid payload 0 1 _)).mono
    (by omega) (Nat.le_refl _)
  dsimp only
  split
  · exact paid_transparent hpayload paid_skipAny
  split
  · exact paid_transparent hpayload (paid_skipAny.andThen fun _ =>
      paid_skipJoinsplitData hpayload _)
  split
  · exact paid_expectU32.owing.andThen fun _ => paid_transparent hpayload
      (paid_skipAny.andThen fun _ => paid_skipAny.andThen fun _ =>
      paid_skipJoinsplitData hpayload _)
  split
  · exact paid_expectU32.owing.andThen fun _ => paid_transparent hpayload
      (paid_skipAny.andThen fun _ => paid_skipAny.andThen fun _ =>
      paid_skipV4SaplingAndSprout hpayload)
  split
  · exact paid_skipV5Common hpayload
  split
  · exact (paid_skipV5Common hpayload).andThen fun _ => (paid_skipOrchard hpayload).owing
  · exact (Paid.fail 0 _).owing

theorem paid_nextBoundary : Paid payload 1 1 (nextBoundary payload) := by
  have hrest : ∀ start : Nat, Paid payload 1 1 (do
      skipTransaction payload
      let stop ← position
      pure (start, stop)) := fun start =>
    ((paid_skipTransaction hpayload).bind fun _ => (Paid.position.andThen fun _ =>
      .ret _).owing).mono (by omega) (Nat.le_refl _)
  exact (Paid.position.owing.bind hrest).mono (by omega) (Nat.le_refl _)

end Payment

end MiningInfra.Ingress
