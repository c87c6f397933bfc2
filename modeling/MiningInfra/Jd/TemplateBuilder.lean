import MiningInfra.Lib.Hex
import MiningInfra.Pool.World

/-!
# The coinbase the client declares

`TemplateBuilder` puts the output of the pool into the coinbase of a template, and computes the
merkle root and the commitments for it. It works on the bytes: it walks over the transaction to its
outputs, gives the first of them the script of the pool, may split off an output for the miner, and
writes the outputs anew between the bytes before and behind them. When the script already occurs in
the bytes, wherever that is, it leaves the coinbase as it is.
-/

namespace MiningInfra.Jd.Client

open Lib Coinbase

/-! ## Reading the outputs -/

/-- The parts of a coinbase: the bytes before the number of outputs, the outputs, the bytes behind
them. -/
structure CoinbaseOutputs where
  before : List UInt8
  voutCount : UInt64
  outputs : List TxOut
  suffix : List UInt8

section Parser

variable (tx : List UInt8)

/-- The script and the sequence number of an input, checked at once. -/
def skipCoinbaseScript (scriptLen : Nat) : Cursor String Unit := do
  let cursor ← Cursor.position
  Cursor.failIf (tx.length < addUsize (addUsize cursor scriptLen) 4)
    "coinbase scriptSig out of bounds"
  Cursor.advance scriptLen
  Cursor.advance 4

/-- The body of the input loop. -/
def skipCoinbaseInput : Cursor String Unit := do
  Cursor.skipBytes tx 36 "coinbase input out of bounds"
  let scriptLen ← readCompactSize tx
  skipCoinbaseScript tx scriptLen.toNat

/-- The body of the output loop. -/
def readCoinbaseOutput : Cursor String TxOut := do
  let value ← Cursor.takeBytes tx 8 fun _ => "coinbase output value out of bounds"
  let scriptLen ← readCompactSize tx
  let script ← Cursor.takeBytes tx scriptLen.toNat fun _ => "coinbase output script out of bounds"
  pure ⟨UInt64.ofNat (leNat value), script⟩

/-- Everything behind the version up to the number of outputs. -/
def skipToOutputs (version : UInt32) : Cursor String Unit := do
  skipIfOverwinter tx version "coinbase missing version group id"
  let vinCount ← readCompactSize tx
  let _ ← Cursor.times vinCount.toNat (skipCoinbaseInput tx)

/-- The outputs with their number. A `TxOut` takes 32 bytes of memory. -/
def readOutputs : Cursor String (UInt64 × List TxOut) := do
  let voutCount ← readCompactSize tx
  let cursor ← Cursor.position
  Cursor.reserve (min voutCount.toNat ((tx.length - cursor) / 9)) 32
  let outputs ← Cursor.times voutCount.toNat (readCoinbaseOutput tx)
  pure (voutCount, outputs)

/-- What `parse_coinbase_outputs` does behind the version. -/
def splitAtOutputs (version : UInt32) : Cursor String CoinbaseOutputs := do
  skipToOutputs tx version
  let voutCountOffset ← Cursor.position
  let read ← readOutputs tx
  let before ← Cursor.slice tx 0 voutCountOffset
  let cursor ← Cursor.position
  let suffix ← Cursor.slice tx cursor tx.length
  pure ⟨before, read.1, read.2, suffix⟩

def parseCoinbaseOutputs : Cursor String CoinbaseOutputs := do
  Cursor.failIf (tx.length < 4) "coinbase too short"
  let b₀ ← Cursor.byteAt tx 0
  let b₁ ← Cursor.byteAt tx 1
  let b₂ ← Cursor.byteAt tx 2
  let b₃ ← Cursor.byteAt tx 3
  Cursor.advance 4
  splitAtOutputs tx (UInt32.ofNat (leNat [b₀, b₁, b₂, b₃]))

end Parser

/-! ## `TemplateBuilder` -/

structure TemplateBuilder where
  poolCoinbaseOutput : List UInt8
  maxAdditionalSize : UInt32
  minerPayoutAddress : Option String

/-- Whether some window of the coinbase is the script. -/
def containsScript (coinbase script : List UInt8) : Bool :=
  script.isEmpty || coinbase.tails.any fun w => w.take script.length == script

/-- The reason the hex library gives for a refusal is left out. -/
def parseScriptHex (address : String) : Outcome String (List UInt8) :=
  if "hex:".toList.isPrefixOf address.toList then
    match Hex.readPairs (address.toList.drop 4) with
    | some script => .ok script
    | none => .err "invalid script hex"
  else .err "miner payout address must be hex:<script>"

namespace TemplateBuilder

/-- Split one zatoshi off the first output for the miner, unless an output has its script. -/
def payMiner (b : TemplateBuilder) (voutCount : UInt64) (first : TxOut) (rest : List TxOut) :
    Outcome String (UInt64 × List TxOut) :=
  match b.minerPayoutAddress with
  | none => .ok (voutCount, first :: rest)
  | some address => do
    let minerScript ← parseScriptHex address
    if (first :: rest).any fun out => out.scriptPubkey == minerScript then
      pure (voutCount, first :: rest)
    else do
      Outcome.failIf (first.value = 0) "Coinbase output value is zero; cannot split miner payout"
      pure (voutCount + 1, { first with value := first.value - 1 } :: rest ++ [⟨1, minerScript⟩])

/-- Replace the outputs of a coinbase that does not have the script yet. -/
def rebuildCoinbase (b : TemplateBuilder) (coinbase : List UInt8) :
    Outcome String (List UInt8) := do
  let parsed ← (parseCoinbaseOutputs coinbase .init).1
  match parsed.outputs with
  | [] => .err "Template coinbase has no outputs"
  | first :: rest => do
    let paid ← b.payMiner parsed.voutCount { first with scriptPubkey := b.poolCoinbaseOutput } rest
    pure (parsed.before ++ pushCompactSize paid.1 ++ paid.2.flatMap TxOut.bytes ++ parsed.suffix)

def buildCoinbase (b : TemplateBuilder) (t : Pool.BlockTemplate) : Outcome String (List UInt8) := do
  let additionalSize := UInt32.ofNat b.poolCoinbaseOutput.length
  Outcome.failIf (b.maxAdditionalSize < additionalSize) ("Pool output too large: "
    ++ toString additionalSize ++ " > " ++ toString b.maxAdditionalSize)
  if b.poolCoinbaseOutput = [] then pure t.coinbase
  else if containsScript t.coinbase b.poolCoinbaseOutput then pure t.coinbase
  else b.rebuildCoinbase t.coinbase

end TemplateBuilder

section Declaration

variable (hashes : Hashes)

/-- `compute_txid` and `merkle_root_from_txids` are the ones of the server, line for line. -/
def calculateMerkleRoot (t : Pool.BlockTemplate) (coinbase : List UInt8) : Outcome String Bytes32 :=
  if coinbase = t.coinbase then .ok t.merkleRoot
  else match t.transactions.mapM id with
    | none => .err "invalid tx hash"
    | some txids => .ok (merkleRootFromTxids hashes (computeTxid hashes coinbase :: txids))

def blockCommitments (t : Pool.BlockTemplate) (coinbase : List UInt8) : Outcome String Bytes32 := do
  let parsed ← (Coinbase.parseTransaction coinbase .init).1.mapErr fun e =>
    "invalid coinbase transaction for block commitments: " ++ e.display
  Outcome.failIf (parsed.inputs = []) "coinbase has no transparent inputs for block commitments"
  let scriptSigs := parsed.inputs.flatMap TxIn.scriptSig
  let coinbaseDigest := hashes.computeCoinbaseAuthDigest scriptSigs t.consensusBranchId
  match hashes.computeAuthDataRoot [coinbaseDigest] with
  | none => .panic
  | some authDataRoot => .ok (hashes.calculateBlockCommitmentsHash t.chainHistoryRoot authDataRoot)

/-- The message `handle_coinbase_only_job` makes of a coinbase. -/
def declaration (t : Pool.BlockTemplate) (channelId requestId : UInt32)
    (token coinbase : List UInt8) :
    Outcome String SetCustomMiningJob := do
  let merkleRoot ← calculateMerkleRoot hashes t coinbase
  let blockCommitments ← blockCommitments hashes t coinbase
  pure {
    channelId, requestId, miningJobToken := token, version := t.version, prevHash := t.prevHash
    merkleRoot, blockCommitments, coinbaseTx := coinbase, time := t.time, bits := t.bits }

end Declaration

/-! ## The outputs of a version 4 coinbase -/

/-- The server's check of a script and its sequence number, under another text. -/
theorem skipCoinbaseScript_eq (tx : List UInt8) (n : Nat) :
    skipCoinbaseScript tx n
      = (skipScriptSig tx n).mapErr fun _ => "coinbase scriptSig out of bounds" := by
  funext m
  rw [Cursor.mapErr, skipScriptSig_run]
  by_cases h : tx.length < addUsize (addUsize m.cursor n) 4
  · simp [skipCoinbaseScript, bind, Cursor.position, Cursor.failIf, h, Cursor.fail, Outcome.mapErr]
  · simp [skipCoinbaseScript, bind, pure, Cursor.position, Cursor.failIf, h, Cursor.advance,
      Outcome.mapErr]

theorem straight_skipCoinbaseInput (tx : List UInt8) : (skipCoinbaseInput tx).Straight := by
  refine (Cursor.skipBytes_straight _ _).bind fun _ => (straight_readCompactSizeWith _).bind
    fun n => ?_
  rw [skipCoinbaseScript_eq]
  exact straight_skipScriptSig n.toNat

theorem straight_readCoinbaseOutput (tx : List UInt8) : (readCoinbaseOutput tx).Straight :=
  (Cursor.takeBytes_straight _ _).bind fun _ => (straight_readCompactSizeWith _).bind fun _ =>
    (Cursor.takeBytes_straight _ _).bind fun _ _ => rfl

section Reading

variable {tx : List UInt8} {limit : Nat} (hdata : tx.length ≤ isizeMax)

include hdata

theorem follows_skipCoinbaseInput :
    Follows tx limit (skipCoinbaseInput tx) txIn.void fun bs =>
      ∀ n after, inputScriptLength bs = some (n, after) →
        (inRange tx).inputScript (offset tx after) n := by
  have hscript : ∀ n : UInt64, Follows tx limit (skipCoinbaseScript tx n.toNat)
      (Decoder.bytes (n.toNat + 4)).void fun bs => (inRange tx).inputScript (offset tx bs) n := by
    intro n
    rw [skipCoinbaseScript_eq]
    exact (follows_skipScriptSig hdata n).mapErr _
  refine ((Follows.skipShort hdata (n := 36) (by decide) _).bind fun _ =>
    (follows_readCompactSizeWith hdata _).bind fun n => hscript n).congr ?_ fun bs => ?_
  · simp only [txIn, script, u32, Decoder.void, Decoder.bind_assoc, Decoder.pure_bind]
    rw [show 36 = 32 + 4 from rfl, Decoder.bytes_add_bind]
    simp only [Decoder.bytes_add_bind]
  · simp only [inputScriptLength_eq, Decoder.forall_bind, true_and]

theorem follows_readCoinbaseOutput :
    Follows tx limit (readCoinbaseOutput tx) txOut fun bs =>
      ∀ n after, outputScriptLength bs = some (n, after) →
        (inRange tx).outputScript (offset tx after) n := by
  refine ((Follows.takeShort hdata (n := 8) (by decide) _).bind fun _ =>
    (follows_readCompactSizeWith hdata _).bind fun n =>
    (Follows.takeBytes hdata n.toNat_lt _).bind fun _ => .ret _).congr ?_ fun bs => ?_
  · simp only [txOut, script, u64, Decoder.bind_assoc, Decoder.pure_bind]
  · simp only [outputScriptLength, u64, inRange, Decoder.bind_assoc, Decoder.pure_bind,
      Decoder.forall_bind, true_and, and_true, implies_true]

theorem follows_coinbaseInputs (count : UInt64) :
    Follows tx limit (Cursor.times count.toNat (skipCoinbaseInput tx))
      (Decoder.times count.toNat txIn.void)
      (EachLength tx txIn inputScriptLength (inRange tx).inputScript count) := by
  refine ((follows_skipCoinbaseInput hdata).times (straight_skipCoinbaseInput tx)
    (fun bs u rest h => ?_) count.toNat).congr rfl fun bs => eachLength_void
  obtain ⟨x, hx⟩ := Decoder.void_eq_some.mp h
  have := length_txIn hx
  omega

theorem follows_coinbaseOutputs (count : UInt64) :
    Follows tx limit (Cursor.times count.toNat (readCoinbaseOutput tx))
      (Decoder.times count.toNat txOut)
      (EachLength tx txOut outputScriptLength (inRange tx).outputScript count) := by
  refine (follows_readCoinbaseOutput hdata).times (straight_readCoinbaseOutput tx)
    (fun bs x rest h => ?_) count.toNat
  have := length_txOut h
  omega

end Reading

/-- The bytes of a version 4 transaction before the number of its outputs. -/
def beforeOutputs (tx : Transaction) : List UInt8 :=
  u32Bytes 0x80000004 ++ (u32Bytes 0x892f2085
    ++ (pushCompactSize (UInt64.ofNat tx.inputs.length) ++ tx.inputs.flatMap TxIn.bytes))

def outputBytes (outputs : List TxOut) : List UInt8 :=
  pushCompactSize (UInt64.ofNat outputs.length) ++ outputs.flatMap TxOut.bytes

/-- The bytes behind its outputs. -/
def afterOutputs (tx : Transaction) : List UInt8 :=
  u32Bytes tx.lockTime ++ (u32Bytes tx.expiryHeight ++ tx.shielded)

theorem serialize_v4 (tx : Transaction) (hv : tx.format = .v4) :
    tx.serialize = beforeOutputs tx ++ (outputBytes tx.outputs ++ afterOutputs tx) := by
  simp only [Transaction.serialize, hv, Transaction.transparent, beforeOutputs, outputBytes,
    afterOutputs, List.append_assoc]

variable {data : List UInt8} {version : UInt32}

/-- Up to the version. -/
theorem parseCoinbaseOutputs_run {rest : List UInt8} (h : u32 data = some (version, rest)) :
    parseCoinbaseOutputs data .init = splitAtOutputs data version ⟨4, [(0, 4)], 0, []⟩ := by
  match data, h with
  | [], h | [_], h | [_, _], h | [_, _, _], h => cases h
  | b₀ :: b₁ :: b₂ :: b₃ :: tail, h =>
    have hlong : ¬ tail.length + 1 + 1 + 1 + 1 < 4 := by omega
    have hadd : addUsize 0 4 = 4 := by decide
    have hu : u32 (b₀ :: b₁ :: b₂ :: b₃ :: tail)
        = some (UInt32.ofNat (leNat [b₀, b₁, b₂, b₃]), tail) := by
      simp [u32, Decoder.bind_run, Decoder.bytes, Decoder.pure_run]
    obtain ⟨rfl, -⟩ := Decoder.unique hu h
    simp [parseCoinbaseOutputs, bind, pure, Cursor.failIf, hlong, Cursor.byteAt, Cursor.advance,
      Machine.init, hadd]

variable {m : Machine} {b₄ coinbase : List UInt8} {outputs rest : List TxOut} {b : TemplateBuilder}
  {t : Pool.BlockTemplate} {tx : WireTransaction} {hashes : Hashes} {first : TxOut}

/-- The loop over the inputs ends before the number of outputs. -/
theorem skipToOutputs_ok (hdata : data.length ≤ isizeMax) {b₁ b₂ b₃ : List UInt8}
    {group : Option UInt32} {inputCount : UInt64} {inputs : List TxIn} (hat : m.At data b₁)
    (hgroup : ifOverwinter (version >>> 31 = 1) b₁ = some (group, b₂))
    (hcount : compactSize b₂ = some (inputCount, b₃))
    (hsafe : EachLength data txIn inputScriptLength (inRange data).inputScript inputCount b₃)
    (hinputs : Decoder.times inputCount.toNat txIn b₃ = some (inputs, b₄)) :
    ∃ m', skipToOutputs data version m = (.ok (), m') ∧ m'.At data b₄ := by
  have hskip : Follows data 0 (skipIfOverwinter data version "coinbase missing version group id")
      (ifOverwinter (version >>> 31 = 1)).void fun _ => True :=
    follows_skipIfOverwinter hdata version _
  have hread : Follows data 0 (readCompactSize data) compactSize fun _ => True :=
    follows_readCompactSizeWith hdata _
  have hloop : Follows data 0 (Cursor.times inputCount.toNat (skipCoinbaseInput data)) _ _ :=
    follows_coinbaseInputs hdata inputCount
  obtain ⟨m₁, h₁, hat₁, -⟩ := hskip.ok (a := ()) hat trivial (Decoder.void_eq_some.mpr ⟨_, hgroup⟩)
  obtain ⟨m₂, h₂, hat₂, -⟩ := hread.ok hat₁ trivial hcount
  obtain ⟨us, hus⟩ := Decoder.times_void_eq_some.mpr ⟨inputs, hinputs⟩
  obtain ⟨m₃, h₃, hat₃, -⟩ := hloop.ok hat₂ hsafe hus
  refine ⟨m₃, ?_, hat₃⟩
  rw [skipToOutputs, Cursor.bind_ok h₁, Cursor.bind_ok h₂, Cursor.bind_ok h₃]
  rfl

/-- The outputs are read as they are. -/
theorem readOutputs_ok (hdata : data.length * 8 ≤ isizeMax) {b₅ b₆ : List UInt8}
    {outputCount : UInt64} (hat : m.At data b₄) (hcount : compactSize b₄ = some (outputCount, b₅))
    (hsafe : EachLength data txOut outputScriptLength (inRange data).outputScript outputCount b₅)
    (houtputs : Decoder.times outputCount.toNat txOut b₅ = some (outputs, b₆)) :
    ∃ m', readOutputs data m = (.ok (outputCount, outputs), m') ∧ m'.At data b₆ := by
  have hfits : data.length ≤ isizeMax := by omega
  have hread : Follows data 0 (readCompactSize data) compactSize fun _ => True :=
    follows_readCompactSizeWith hfits _
  have hloop : Follows data 0 (Cursor.times outputCount.toNat (readCoinbaseOutput data)) _ _ :=
    follows_coinbaseOutputs hfits outputCount
  obtain ⟨m₁, h₁, hat₁, -⟩ := hread.ok hat trivial hcount
  -- the reservation is bounded by the bytes that are left
  have hroom : min outputCount.toNat ((data.length - m₁.cursor) / 9) * 32 ≤ isizeMax := by
    have : min outputCount.toNat ((data.length - m₁.cursor) / 9) ≤ data.length / 9 :=
      Nat.le_trans (Nat.min_le_right _ _) (Nat.div_le_div_right (Nat.sub_le _ _))
    omega
  obtain ⟨m₂, h₂, hat₂⟩ : ∃ m₂, (Cursor.reserve (min outputCount.toNat
      ((data.length - m₁.cursor) / 9)) 32 : Cursor String Unit) m₁ = (.ok (), m₂)
      ∧ m₂.At data b₅ := by
    rw [Cursor.reserve, if_pos hroom]
    exact ⟨_, rfl, hat₁⟩
  obtain ⟨m₃, h₃, hat₃, -⟩ := hloop.ok hat₂ hsafe houtputs
  have hposition : (Cursor.position : Cursor String Nat) m₁ = (.ok m₁.cursor, m₁) := rfl
  refine ⟨m₃, ?_, hat₃⟩
  rw [readOutputs, Cursor.bind_ok h₁, Cursor.bind_ok hposition, Cursor.bind_ok h₂,
    Cursor.bind_ok h₃]
  rfl

/-- **A version 4 coinbase is split at its outputs.** -/
theorem parseCoinbaseOutputs_serialize (tx : WireTransaction) (hv : tx.format = .v4) :
    (parseCoinbaseOutputs tx.serialize .init).1 = .ok ⟨beforeOutputs tx.toTransaction,
      UInt64.ofNat tx.outputs.length, tx.outputs, afterOutputs tx.toTransaction⟩ := by
  have hdata := tx.length_mul_le
  have hfits : tx.serialize.length ≤ isizeMax := by omega
  obtain ⟨p, hp, hpin, hpout⟩ := v4Order_serialize tx hv
  have hmeet := fieldsMeet_of_decodes (inRange_lax hfits) hp
  have hserialize := serialize_v4 tx.toTransaction hv
  have hsize : UInt32.size < UInt64.size := by decide
  have hlength := tx.fits
  rw [hserialize] at hlength
  simp only [beforeOutputs, outputBytes, List.length_append] at hlength
  -- the fields one after the other, as they were written
  have hheader : u32 tx.serialize = some (0x80000004, u32Bytes 0x892f2085
      ++ (pushCompactSize (UInt64.ofNat tx.inputs.length) ++ (tx.inputs.flatMap TxIn.bytes
        ++ (outputBytes tx.outputs ++ afterOutputs tx.toTransaction)))) := by
    rw [hserialize, beforeOutputs]
    simp only [List.append_assoc]
    exact u32_u32Bytes _ _
  have hcount₁ := compactSize_pushCompactSize (UInt64.ofNat tx.inputs.length)
    (tx.inputs.flatMap TxIn.bytes ++ (outputBytes tx.outputs ++ afterOutputs tx.toTransaction))
  have hcount₂ : compactSize (outputBytes tx.outputs ++ afterOutputs tx.toTransaction)
      = some (UInt64.ofNat tx.outputs.length,
        tx.outputs.flatMap TxOut.bytes ++ afterOutputs tx.toTransaction) := by
    rw [outputBytes, List.append_assoc]
    exact compactSize_pushCompactSize _ _
  have htimes₁ := times_list tx.inputs TxIn.length_bytes (fun _ h => txIn_bytes h) (by omega)
    (outputBytes tx.outputs ++ afterOutputs tx.toTransaction)
  have htimes₂ := times_list tx.outputs TxOut.length_bytes (fun _ h => txOut_bytes h) (by omega)
    (afterOutputs tx.toTransaction)
  have hgroup := ifOverwinter_u32Bytes 0x892f2085 (pushCompactSize (UInt64.ofNat tx.inputs.length)
    ++ (tx.inputs.flatMap TxIn.bytes ++ (outputBytes tx.outputs ++ afterOutputs tx.toTransaction)))
  obtain ⟨-, hsafe₁, hsafe₂⟩ := hmeet _ _ hheader trivial _ _ hgroup _ _ hcount₁
  obtain ⟨-, hsafe₂⟩ := hsafe₂ _ _ htimes₁ _ _ hcount₂
  obtain ⟨m₁, h₁, hat₁⟩ : ∃ m', skipToOutputs tx.serialize 0x80000004 ⟨4, [(0, 4)], 0, []⟩
      = (.ok (), m') ∧ m'.At tx.serialize (outputBytes tx.outputs ++ afterOutputs tx.toTransaction) :=
    skipToOutputs_ok hfits (at_fields hheader) hgroup hcount₁ hsafe₁ htimes₁
  obtain ⟨m₂, h₂, hat₂⟩ := readOutputs_ok hdata hat₁ hcount₂ hsafe₂ htimes₂
  have hcursor : m₁.cursor = (beforeOutputs tx.toTransaction).length := by
    have hoffset := hat₁.cursor_eq
    have hlen := congrArg List.length hserialize
    rw [List.length_append] at hlen
    omega
  have hbefore : (Cursor.slice tx.serialize 0 m₁.cursor : Cursor String _) m₂
      = (.ok (beforeOutputs tx.toTransaction), m₂) := by
    rw [Cursor.slice, if_pos ⟨Nat.zero_le _, hat₁.1⟩, hcursor, hserialize, List.drop_zero,
      Nat.sub_zero, List.take_left]
    rfl
  have hafter : (Cursor.slice tx.serialize m₂.cursor tx.serialize.length : Cursor String _) m₂
      = (.ok (afterOutputs tx.toTransaction), m₂) := by
    rw [Cursor.slice, if_pos ⟨hat₂.1, Nat.le_refl _⟩, hat₂.2]
    have hlen : tx.serialize.length - m₂.cursor = (afterOutputs tx.toTransaction).length := by
      have hoffset := hat₂.cursor_eq
      omega
    rw [hlen, List.take_length]
    rfl
  have hposition : ∀ m : Machine, (Cursor.position : Cursor String Nat) m = (.ok m.cursor, m) :=
    fun m => rfl
  rw [parseCoinbaseOutputs_run hheader, splitAtOutputs, Cursor.bind_ok h₁,
    Cursor.bind_ok (hposition m₁), Cursor.bind_ok h₂, Cursor.bind_ok hbefore,
    Cursor.bind_ok (hposition m₂), Cursor.bind_ok hafter]
  rfl

/-! ## What is declared -/

/-- The sum of the output values. -/
def outputTotal (outputs : List TxOut) : Nat := (outputs.map fun o => o.value.toNat).sum

/-- What the split for the miner leaves: as many outputs as it counts, the same sum, and an output
with the script of the first that has lost one zatoshi at most. -/
theorem TemplateBuilder.payMiner_ok {count : UInt64}
    (h : b.payMiner (UInt64.ofNat (first :: rest).length) first rest = .ok (count, outputs)) :
    count = UInt64.ofNat outputs.length ∧ outputTotal outputs = outputTotal (first :: rest)
      ∧ ∀ minimum, minimum < first.value → PaysPool first.scriptPubkey minimum outputs := by
  have hsame : ∀ minimum, minimum < first.value →
      PaysPool first.scriptPubkey minimum (first :: rest) := by
    intro minimum hvalue
    exact ⟨first, List.mem_cons_self, rfl, UInt64.le_of_lt hvalue⟩
  unfold payMiner at h
  cases haddress : b.minerPayoutAddress with
  | none =>
    rw [haddress] at h
    cases h
    exact ⟨rfl, rfl, hsame⟩
  | some address =>
    simp only [haddress, Outcome.bind_eq_ok] at h
    obtain ⟨minerScript, -, h⟩ := h
    split at h
    · cases h
      exact ⟨rfl, rfl, hsame⟩
    · obtain ⟨_, hzero, h⟩ := Outcome.bind_eq_ok.mp h
      cases h
      rw [Outcome.failIf_eq_ok] at hzero
      have hpos : 1 ≤ first.value.toNat := by
        rcases Nat.eq_zero_or_pos first.value.toNat with hnat | hnat
        · exact absurd (UInt64.toNat_inj.mp hnat) hzero
        · exact hnat
      have hone : (1 : UInt64) ≤ first.value := hpos
      have hsub : (first.value - 1).toNat = first.value.toNat - 1 :=
        UInt64.toNat_sub_of_le _ _ hone
      refine ⟨?_, ?_, ?_⟩
      · simp only [List.length_cons, List.length_append, List.length_nil]
        rw [UInt64.ofNat_add (rest.length + 1) 1]
        rfl
      · simp only [outputTotal, List.cons_append, List.map_cons, List.map_append, List.map_nil,
          List.sum_cons, List.sum_append, List.sum_nil, hsub]
        have : (1 : UInt64).toNat = 1 := rfl
        omega
      · intro minimum hvalue
        refine ⟨_, List.mem_cons_self, rfl, ?_⟩
        have hnat : minimum.toNat < first.value.toNat := hvalue
        show minimum.toNat ≤ (first.value - 1).toNat
        omega

/-- The transaction with other outputs. -/
def withOutputs (tx : Transaction) (outputs : List TxOut) : Transaction := { tx with outputs }

/-- **What `build_coinbase` gives for a version 4 coinbase**: the coinbase as it is, when the script
is empty or occurs in it, or the coinbase with other outputs of the same sum, the first of which
pays the pool. -/
theorem TemplateBuilder.buildCoinbase_cases (hv : tx.format = .v4) (ht : t.coinbase = tx.serialize)
    (hfirst : tx.outputs = first :: rest) (h : b.buildCoinbase t = .ok coinbase) :
    (coinbase = t.coinbase ∧ (b.poolCoinbaseOutput = []
        ∨ containsScript t.coinbase b.poolCoinbaseOutput = true))
    ∨ (b.poolCoinbaseOutput ≠ [] ∧ containsScript t.coinbase b.poolCoinbaseOutput = false
        ∧ ∃ outputs, coinbase = (withOutputs tx.toTransaction outputs).serialize
          ∧ outputTotal outputs = outputTotal tx.outputs
          ∧ ∀ minimum, minimum < first.value → PaysPool b.poolCoinbaseOutput minimum outputs) := by
  unfold buildCoinbase at h
  obtain ⟨_, -, h⟩ := Outcome.bind_eq_ok.mp h
  by_cases hempty : b.poolCoinbaseOutput = []
  · rw [if_pos hempty] at h
    cases h
    exact .inl ⟨rfl, .inl hempty⟩
  · rw [if_neg hempty] at h
    cases hcontains : containsScript t.coinbase b.poolCoinbaseOutput with
    | true =>
      rw [hcontains, if_pos rfl] at h
      cases h
      exact .inl ⟨rfl, .inr rfl⟩
    | false =>
      rw [hcontains, if_neg Bool.false_ne_true] at h
      refine .inr ⟨hempty, rfl, ?_⟩
      unfold rebuildCoinbase at h
      rw [ht, parseCoinbaseOutputs_serialize tx hv] at h
      simp only [hfirst] at h
      obtain ⟨parsed, hparsed, h⟩ := Outcome.bind_eq_ok.mp h
      cases hparsed
      obtain ⟨⟨count, outputs⟩, hpaid, h⟩ := Outcome.bind_eq_ok.mp h
      cases h
      obtain ⟨hcount, htotal, hpays⟩ :=
        @payMiner_ok outputs rest b ⟨first.value, b.poolCoinbaseOutput⟩ count hpaid
      refine ⟨outputs, ?_, ?_, hpays⟩
      · rw [serialize_v4 (withOutputs tx.toTransaction outputs) hv, outputBytes]
        simp only [List.append_assoc, hcount]
        rfl
      · rw [htotal, hfirst]
        rfl

/-- The client and the server compute the same commitments. -/
theorem blockCommitments_eq_ok {commitments : Bytes32} :
    blockCommitments hashes t coinbase = .ok commitments ↔
      recomputeCoinbaseOnlyBlockCommitments hashes coinbase t.chainHistoryRoot t.consensusBranchId
        = .ok commitments := by
  constructor
  all_goals
    intro h
    simp only [blockCommitments, recomputeCoinbaseOnlyBlockCommitments, Outcome.bind_eq_ok,
      Outcome.mapErr_eq_ok, Outcome.failIf_eq_ok] at h ⊢
    exact h

theorem mapM_id_map_some {α : Type} (as : List α) : (as.map some).mapM id = some as := by
  induction as with
  | nil => rfl
  | cons a as ih =>
    rw [List.map_cons, List.mapM_cons, ih]
    rfl

/-- The client's merkle root is the one of the coinbase and the transactions, computed or taken from
the header. -/
theorem calculateMerkleRoot_ok {txids : List Bytes32} (htxids : t.transactions = txids.map some)
    (hroot : t.merkleRoot = merkleRootFromTxids hashes (computeTxid hashes t.coinbase :: txids))
    (coinbase : List UInt8) :
    calculateMerkleRoot hashes t coinbase
      = .ok (merkleRootFromTxids hashes (computeTxid hashes coinbase :: txids)) := by
  unfold calculateMerkleRoot
  by_cases hsame : coinbase = t.coinbase
  · rw [if_pos hsame, hroot, hsame]
  · rw [if_neg hsame, htxids, mapM_id_map_some]

/-- A version 4 coinbase passes when it pays the pool, or the pool asks for nothing. -/
theorem validateCoinbase_serialize (hv : tx.format = .v4) {script : List UInt8} {minimum : UInt64} :
    TemplateValidator.validateCoinbase ⟨script, minimum⟩ tx.serialize = .ok () ↔
      script = [] ∨ PaysPool script minimum tx.outputs := by
  by_cases hscript : script = []
  · obtain ⟨p, hp, -⟩ := v4Order_serialize tx hv
    have hdata := tx.length_mul_le
    have hwalk := parseTransaction_ok_of_decodes (by omega) hp
    refine iff_of_true ?_ (.inl hscript)
    rw [TemplateValidator.validateCoinbase, if_neg (not_not.mpr hscript),
      TemplateValidator.parseCoinbase, hwalk]
    rfl
  · rw [validateCoinbase_ok_iff _ hscript tx.length_mul_le, paysInV4Order_iff _ tx hv]
    exact (or_iff_right hscript).symm

section Verdict

variable {hashes : Hashes} {config : JdServerConfig} {t : Pool.BlockTemplate} {txids : List Bytes32}
  (htxids : t.transactions = txids.map some)
  (hroot : t.merkleRoot = merkleRootFromTxids hashes (computeTxid hashes t.coinbase :: txids))

include htxids hroot

/-- **A version 4 coinbase is declared, and passes when it is short enough and pays the pool.** -/
theorem declaration_iff {tx : WireTransaction} (hv : tx.format = .v4) (hinputs : tx.inputs ≠ [])
    (channelId requestId : UInt32) (token : List UInt8) :
    ∃ request, declaration hashes t channelId requestId token tx.serialize = .ok request
      ∧ request.coinbaseTx = tx.serialize
      ∧ (validateCustomJobRequest hashes config (some t.context) request = .ok () ↔
        tx.serialize.length ≤ t.coinbase.length + config.coinbaseOutputMaxAdditionalSize.toNat
        ∧ (config.poolPayoutScript = []
          ∨ PaysPool config.poolPayoutScript config.minPoolPayout tx.outputs)) := by
  obtain ⟨p, hp, hpin, hpout⟩ := v4Order_serialize tx hv
  have hdata := tx.length_mul_le
  have hbytes : tx.serialize ≠ [] := by
    intro hnil
    rw [hnil] at hp
    exact absurd hp (by simp [v4Order, u32, Decoder.bind_run, Decoder.bytes])
  have hcommitments := @recompute_of_decodes hashes _ _ _ hdata hp (hpin ▸ hinputs)
    t.chainHistoryRoot t.consensusBranchId
  have hmerkle := calculateMerkleRoot_ok htxids hroot tx.serialize
  have hcontext : t.context.txids = txids := by
    show t.transactions.filterMap id = txids
    rw [htxids, List.filterMap_map]
    exact List.filterMap_some
  refine ⟨{
    channelId, requestId, miningJobToken := token, version := t.version, prevHash := t.prevHash
    merkleRoot := merkleRootFromTxids hashes (computeTxid hashes tx.serialize :: txids)
    blockCommitments := hashes.calculateBlockCommitmentsHash t.chainHistoryRoot
      (hashes.computeCoinbaseAuthDigest (p.inputs.flatMap TxIn.scriptSig) t.consensusBranchId)
    coinbaseTx := tx.serialize, time := t.time, bits := t.bits }, ?_, rfl, ?_⟩
  · simp only [declaration, hmerkle, blockCommitments_eq_ok.mpr hcommitments]
    rfl
  · rw [validateCustomJobRequest_some_iff, ← validateCoinbase_serialize hv]
    refine ⟨fun h => ⟨h.1.length, h.2⟩, fun h => ⟨⟨rfl, rfl, ?_, ?_, h.1, ?_, hcommitments⟩, h.2⟩⟩
    · exact Nat.sub_le _ _
    · have := t.time.toNat_lt
      show t.time.toNat ≤ min (t.time.toNat + 7200) 0xffffffff
      omega
    · rw [hcontext]
      exact if_neg hbytes

/-- **When the declaration of a built coinbase passes**: the coinbase must not have grown by more
than the pool allows, and where the search finds the script of the pool, an output must pay it. The
outputs have the sum they had, and the bytes around them are the ones of the template. -/
theorem built_declaration_iff {b : TemplateBuilder} {tx : WireTransaction} (hv : tx.format = .v4)
    (hinputs : tx.inputs ≠ []) (ht : t.coinbase = tx.serialize) {first : TxOut} {rest : List TxOut}
    (hfirst : tx.outputs = first :: rest) (hvalue : config.minPoolPayout < first.value)
    (hpool : b.poolCoinbaseOutput = config.poolPayoutScript) {coinbase : List UInt8}
    (hbuild : b.buildCoinbase t = .ok coinbase) (hfits : coinbase.length < UInt32.size)
    (channelId requestId : UInt32) (token : List UInt8) :
    (∃ request, declaration hashes t channelId requestId token coinbase = .ok request
      ∧ (validateCustomJobRequest hashes config (some t.context) request = .ok () ↔
        coinbase.length ≤ t.coinbase.length + config.coinbaseOutputMaxAdditionalSize.toNat
        ∧ (containsScript t.coinbase config.poolPayoutScript = true → config.poolPayoutScript = []
          ∨ PaysPool config.poolPayoutScript config.minPoolPayout tx.outputs)))
    ∧ ∃ outputs, outputTotal outputs = outputTotal tx.outputs
      ∧ t.coinbase = beforeOutputs tx.toTransaction
        ++ (outputBytes tx.outputs ++ afterOutputs tx.toTransaction)
      ∧ coinbase = beforeOutputs tx.toTransaction
        ++ (outputBytes outputs ++ afterOutputs tx.toTransaction) := by
  have hbytes : t.coinbase = beforeOutputs tx.toTransaction
      ++ (outputBytes tx.outputs ++ afterOutputs tx.toTransaction) :=
    ht.trans (serialize_v4 tx.toTransaction hv)
  rcases TemplateBuilder.buildCoinbase_cases hv ht hfirst hbuild with ⟨rfl, hsearch⟩ |
    ⟨hscript, hsearch, outputs, rfl, htotal, hpays⟩
  · rw [hpool] at hsearch
    refine ⟨?_, tx.outputs, rfl, hbytes, hbytes⟩
    obtain ⟨request, hrequest, -, hiff⟩ := @declaration_iff hashes config t txids htxids hroot tx hv
      hinputs channelId requestId token
    rw [← ht] at hrequest hiff
    refine ⟨request, hrequest, hiff.trans (and_congr_right fun _ => ?_)⟩
    rcases hsearch with hempty | hfound
    · exact iff_of_true (.inl hempty) fun _ => .inl hempty
    · exact ⟨fun h _ => h, fun h => h hfound⟩
  · rw [hpool] at hscript hsearch hpays
    refine ⟨?_, outputs, htotal, hbytes, serialize_v4 (withOutputs tx.toTransaction outputs) hv⟩
    obtain ⟨request, hrequest, -, hiff⟩ := @declaration_iff hashes config t txids htxids hroot
      ⟨withOutputs tx.toTransaction outputs, hfits⟩ hv hinputs channelId requestId token
    refine ⟨request, hrequest, hiff.trans (and_congr_right fun _ => ?_)⟩
    refine iff_of_true (.inr (hpays _ hvalue)) fun hfound => ?_
    rw [hsearch] at hfound
    cases hfound

end Verdict

/-! ## Samples -/

/-- A coinbase with one output, which does not pay the pool, and this script in its input. -/
def otherCoinbase (scriptSig : List UInt8) : Transaction where
  format := .v4
  inputs := [⟨fun _ => 0, 0xffffffff, scriptSig, 0xffffffff⟩]
  outputs := [⟨200, [0x52]⟩]
  lockTime := 0
  expiryHeight := 10000
  shielded := [0, 0, 0]

/-- At height 10000 the input is free of the script of the pool, at height 10065 it is not. -/
def freeWire : WireTransaction := ⟨otherCoinbase [0x02, 0x10, 0x27], by decide +kernel⟩

def heightWire : WireTransaction := ⟨otherCoinbase [0x02, 0x51, 0x27], by decide +kernel⟩

/-- A template with this coinbase only. -/
def templateOf (tx : Transaction) : Pool.BlockTemplate where
  version := 4
  prevHash := fun _ => 7
  merkleRoot := merkleRootFromTxids plainHashes [computeTxid plainHashes tx.serialize]
  blockCommitments := fun _ => 0
  time := 1700000000
  bits := 0x1d00ffff
  target := fun _ => 0
  transactions := []
  coinbase := tx.serialize
  chainHistoryRoot := fun _ => 1
  consensusBranchId := 0xc8e71055

def sampleBuilder (address : Option String) : TemplateBuilder := ⟨[0x51], 4096, address⟩

/-- The pool is put in the place of the output, and a zatoshi goes to the miner. -/
theorem miner_split_declared :
    ∃ coinbase, (sampleBuilder (some "hex:53")).buildCoinbase (templateOf freeWire.toTransaction)
        = .ok coinbase
      ∧ ∃ request, declaration plainHashes (templateOf freeWire.toTransaction) 1 1 [0x01] coinbase
          = .ok request
        ∧ validateCustomJobRequest plainHashes sampleConfig
          (some (templateOf freeWire.toTransaction).context) request = .ok () := by
  have hbuild : (sampleBuilder (some "hex:53")).buildCoinbase (templateOf freeWire.toTransaction)
      = .ok (withOutputs freeWire.toTransaction [⟨199, [0x51]⟩, ⟨1, [0x53]⟩]).serialize := by
    decide +kernel
  have hinputs : freeWire.inputs ≠ [] := by simp [freeWire, otherCoinbase]
  obtain ⟨⟨request, hrequest, hiff⟩, -⟩ := @built_declaration_iff plainHashes sampleConfig
    (templateOf freeWire.toTransaction) [] rfl rfl (sampleBuilder (some "hex:53")) freeWire rfl hinputs
    rfl ⟨200, [0x52]⟩ [] rfl (by decide) rfl _ hbuild (by decide +kernel) 1 1 [0x01]
  refine ⟨_, hbuild, request, hrequest, hiff.mpr ⟨by decide +kernel, ?_⟩⟩
  intro hfound
  exact absurd hfound (by decide +kernel)

/-- **A script that is found elsewhere**: the height in the input happens to hold the byte that is
the script of the pool. Nothing is built, and the server misses its output. -/
theorem script_in_input_rejected :
    ¬ ∀ (hashes : Hashes) (config : JdServerConfig) (b : TemplateBuilder) (t : Pool.BlockTemplate)
      (tx : WireTransaction) (first : TxOut) (rest : List TxOut) (txids : List Bytes32)
      (coinbase : List UInt8) (request : SetCustomMiningJob),
      tx.format = .v4 → tx.inputs ≠ [] → t.coinbase = tx.serialize →
      t.transactions = txids.map some →
      t.merkleRoot = merkleRootFromTxids hashes (computeTxid hashes t.coinbase :: txids) →
      tx.outputs = first :: rest → config.minPoolPayout < first.value →
      b.poolCoinbaseOutput = config.poolPayoutScript →
      b.maxAdditionalSize = config.coinbaseOutputMaxAdditionalSize →
      b.buildCoinbase t = .ok coinbase →
      coinbase.length ≤ t.coinbase.length + config.coinbaseOutputMaxAdditionalSize.toNat →
      declaration hashes t 1 1 [0x01] coinbase = .ok request →
      validateCustomJobRequest hashes config (some t.context) request = .ok () := by
  intro hall
  have hbuild : (sampleBuilder none).buildCoinbase (templateOf heightWire.toTransaction)
      = .ok heightWire.serialize := by
    decide +kernel
  have hinputs : heightWire.inputs ≠ [] := by simp [heightWire, otherCoinbase]
  obtain ⟨request, hrequest, -, hiff⟩ := @declaration_iff plainHashes sampleConfig
    (templateOf heightWire.toTransaction) [] rfl rfl heightWire rfl hinputs 1 1 [0x01]
  have hok := hall plainHashes sampleConfig (sampleBuilder none)
    (templateOf heightWire.toTransaction) heightWire ⟨200, [0x52]⟩ [] [] heightWire.serialize request
    rfl hinputs rfl rfl rfl rfl (by decide) rfl rfl hbuild (Nat.le_add_right _ _) hrequest
  exact absurd (hiff.mp hok).2 (by decide)

end MiningInfra.Jd.Client
