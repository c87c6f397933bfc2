import MiningInfra.Mining.Codec

/-!
# Every message comes back, except a text that was cut in two

The encoder and the decoder of each message agree field by field. The one message that does not
always come back is a rejection with a text of more than 255 bytes: the encoder cuts the bytes,
and where the cut goes through a character the decoder refuses the message.
-/

namespace MiningInfra.Mining

open Lib Coinbase Equihash
open Pool (RejectReason ShareResult)

/-! ## Frames -/

/-- The length of the payload that a frame header states. -/
def statedLength (data : List UInt8) : Nat := leNat ((data.drop 3).take 3)

theorem statedLength_lt (data : List UInt8) : statedLength data < 2 ^ 24 := by
  have hlt := leNat_lt_span ((data.drop 3).take 3)
  have hlen : ((data.drop 3).take 3).length ≤ 3 := List.length_take_le _ _
  rw [statedLength]
  generalize ((data.drop 3).take 3).length = n at hlt hlen
  have hspan : span n ≤ 2 ^ 24 := by
    match n, hlen with
    | 0, _ | 1, _ | 2, _ | 3, _ => decide
  omega

theorem leNat_snoc_zero (bs : List UInt8) : leNat (bs ++ [0]) = leNat bs := by
  induction bs with
  | nil => rfl
  | cons b bs ih => rw [List.cons_append, leNat, leNat, ih]

variable {data : List UInt8}

/-- What `MessageFrame::decode` does with at least six bytes. -/
theorem MessageFrame.decode_eq (h : headerSize ≤ data.length) :
    MessageFrame.decode data
      = if maxFramePayload < statedLength data then .err (payloadTooLarge (statedLength data))
        else .ok ⟨UInt16.ofNat (leNat (data.take 2)), data.getD 2 0,
          UInt32.ofNat (statedLength data)⟩ := by
  have hsize : 6 ≤ data.length := h
  have hvalue : UInt32.ofNat (leNat ((data.drop 3).take (6 - 3) ++ [0]))
      = UInt32.ofNat (statedLength data) := by rw [leNat_snoc_zero]; rfl
  have hlength : (UInt32.ofNat (statedLength data)).toNat = statedLength data := by
    rw [UInt32.toNat_ofNat', Nat.mod_eq_of_lt]
    exact Nat.lt_trans (statedLength_lt data) (by decide)
  have hpass : (Outcome.failIf (data.length < headerSize)
      (.messageTooShort headerSize data.length) : Outcome ProtocolError Unit) = .ok () :=
    if_neg (Nat.not_lt.mpr h)
  obtain ⟨a, b, c, rest, rfl⟩ : ∃ a b c rest, data = a :: b :: c :: rest := by
    match data, hsize with
    | a :: b :: c :: rest, _ => exact ⟨a, b, c, rest, rfl⟩
  rw [MessageFrame.decode, hpass]
  simp only [Outcome.ok_bind]
  rw [Outcome.index_eq_ok (by omega), Outcome.ok_bind, Outcome.index_eq_ok (by omega),
    Outcome.ok_bind, Outcome.index_eq_ok (by omega), Outcome.ok_bind,
    Outcome.slice_eq_ok ⟨by omega, hsize⟩, Outcome.ok_bind]
  simp only [hvalue, hlength, Outcome.failIf]
  split <;> rfl

theorem MessageFrame.decode_of_short (h : data.length < headerSize) :
    MessageFrame.decode data = .err (.messageTooShort headerSize data.length) := by
  rw [MessageFrame.decode, Outcome.failIf, if_pos h]
  rfl

variable {payload : List UInt8}

/-- The header of a sealed payload. -/
theorem sealFrame_header (msgType : UInt8) (h : payload.length ≤ maxFramePayload) :
    (sealFrame msgType payload).length = headerSize + payload.length
      ∧ statedLength (sealFrame msgType payload) = payload.length
      ∧ (sealFrame msgType payload).getD 2 0 = msgType
      ∧ (sealFrame msgType payload).drop headerSize = payload := by
  have hlen : (UInt32.ofNat payload.length).toNat = payload.length := by
    rw [UInt32.toNat_ofNat', Nat.mod_eq_of_lt]
    exact Nat.lt_of_le_of_lt h (by decide)
  have hbytes : (u32Bytes (UInt32.ofNat payload.length)).take 3 = leBytes 3 payload.length := by
    rw [u32Bytes, hlen]
    rfl
  have hseal : sealFrame msgType payload
      = 0 :: 0 :: msgType :: (leBytes 3 payload.length ++ payload) := by
    have hzero : leBytes 2 (0 : UInt16).toNat = [0, 0] := by decide
    rw [sealFrame, MessageFrame.encode, hbytes, hzero]
    simp only [List.cons_append, List.nil_append]
  rw [hseal]
  refine ⟨?_, ?_, rfl, ?_⟩
  · simp only [List.length_cons, List.length_append, length_leBytes, headerSize]
    omega
  · have hthree : ((leBytes 3 payload.length ++ payload)).take 3 = leBytes 3 payload.length := rfl
    change leNat ((leBytes 3 payload.length ++ payload).take 3) = _
    rw [hthree, leNat_leBytes]
    exact Nat.lt_of_le_of_lt h (by decide)
  · rfl

/-- Opening a frame gives what was sealed in it. -/
theorem openFrame_sealFrame (msgType : UInt8) (h : payload.length ≤ maxFramePayload) :
    openFrame msgType (sealFrame msgType payload) = .ok payload := by
  obtain ⟨hlen, hstated, htype, hdrop⟩ := sealFrame_header msgType h
  have hnat : (UInt32.ofNat payload.length).toNat = payload.length := by
    rw [UInt32.toNat_ofNat', Nat.mod_eq_of_lt]
    exact Nat.lt_of_le_of_lt h (by decide)
  rw [openFrame, MessageFrame.decode_eq (by rw [hlen]; exact Nat.le_add_right _ _), hstated,
    if_neg (Nat.not_lt.mpr h), Outcome.ok_bind]
  simp only [htype, hnat, hlen, Outcome.failIf, ne_eq, not_true_eq_false, if_false,
    Nat.lt_irrefl, Outcome.ok_bind]
  rw [Outcome.slice_eq_ok ⟨Nat.le_add_right _ _, Nat.le_of_eq hlen.symm⟩, hdrop,
    Nat.add_sub_cancel_left, List.take_length]

theorem MessageFrame.decode_ne_panic (data : List UInt8) : MessageFrame.decode data ≠ .panic := by
  rcases Nat.lt_or_ge data.length headerSize with hshort | hlong
  · rw [decode_of_short hshort]
    exact fun h => by cases h
  · rw [decode_eq hlong]
    split <;> exact fun h => by cases h

/-- No input makes the checks of a frame panic: the payload is sliced where the frame ends. -/
theorem openFrame_ne_panic (msgType : UInt8) (data : List UInt8) :
    openFrame msgType data ≠ .panic := by
  refine Outcome.bind_ne_panic (MessageFrame.decode_ne_panic data) fun frame _ => ?_
  refine Outcome.bind_ne_panic (Outcome.failIf_ne_panic _ _) fun _ _ => ?_
  refine Outcome.bind_ne_panic (Outcome.failIf_ne_panic _ _) fun _ hlong => ?_
  refine Outcome.bind_ne_panic (Outcome.failIf_ne_panic _ _) fun _ _ => ?_
  rw [Outcome.failIf_eq_ok] at hlong
  rw [Outcome.slice_eq_ok ⟨Nat.le_add_right _ _, Nat.not_lt.mp hlong⟩]
  exact fun h => by cases h

variable {α : Type} {bs : List UInt8} {reason : RejectReason} {result : ShareResult}
  {resp : SubmitSharesResponse}

theorem decodeWith_ne_panic (msgType : UInt8) (reader : Reader α) (data : List UInt8) :
    decodeWith msgType reader data ≠ .panic :=
  Outcome.bind_ne_panic (openFrame_ne_panic msgType data) fun _ _ => Outcome.ofExcept_ne_panic _

/-- A message that its reader reads from its payload comes back from its frame. -/
theorem decodeWith_sealFrame {msgType : UInt8} {reader : Reader α} {a : α}
    (hlen : payload.length ≤ maxFramePayload) (hreads : Reads reader payload a) :
    decodeWith msgType reader (sealFrame msgType payload) = .ok a := by
  have hrun := hreads []
  rw [List.append_nil] at hrun
  rw [decodeWith, openFrame_sealFrame msgType hlen, Outcome.ok_bind, StateT.run', hrun]
  rfl

/-! ## Fields -/

theorem reads_exact (bs : List UInt8) : Reads (readExact bs.length) bs bs := .exact bs eof

theorem reads_u8 (b : UInt8) : Reads readU8 [b] b := .map _ (reads_exact [b])

theorem reads_u32 (v : UInt32) : Reads readU32 (u32Bytes v) v := by
  have h := (reads_exact (u32Bytes v)).map fun bs => UInt32.ofNat (leNat bs)
  rw [length_u32Bytes, u32Bytes, leNat_leBytes v.toNat_lt, UInt32.ofNat_toNat] at h
  exact h

theorem reads_flag (b : Bool) : Reads readFlag [flagByte b] b := by
  have h := (reads_u8 (flagByte b)).map fun b => decide (b ≠ 0)
  cases b with
  | true | false => exact h

theorem reads_hash (hash : Bytes32) : Reads readHash hash.toList hash := by
  have h := (reads_exact hash.toList).map toBytes32
  rw [length_toList, Bytes32.toList, toBytes32_ofFn] at h
  exact h

theorem reads_solution (solution : Solution) :
    Reads readSolution (List.ofFn solution) solution := by
  have h := (reads_exact (List.ofFn solution)).map fun bs (i : Fin 1344) => bs.getD i 0
  have hback : (fun i : Fin 1344 => (List.ofFn solution).getD i 0) = solution := by
    funext i
    rw [List.getD_eq_getElem?_getD, List.getElem?_ofFn, dif_pos i.isLt, Option.getD_some]
  rw [List.length_ofFn, hback] at h
  exact h

/-- A length in one byte, and what it is the length of. -/
theorem reads_sized {len : UInt8} (h : len.toNat = bs.length) :
    Reads (readExact len.toNat) bs bs := by
  rw [h]
  exact reads_exact bs

/-! ## Messages -/

theorem toNat_length (h : bs.length ≤ 255) : (UInt8.ofNat bs.length).toNat = bs.length := by
  rw [UInt8.toNat_ofNat', Nat.mod_eq_of_lt]
  exact Nat.lt_succ_of_le h

theorem reads_job {job : NewEquihashJob} (h : job.validateNonceLen) :
    Reads readJob job.payload job := by
  rw [NewEquihashJob.validateNonceLen] at h
  have hlen : (UInt8.ofNat job.nonce1.length).toNat = job.nonce1.length := toNat_length (by omega)
  have hpayload : job.payload = u32Bytes job.channelId ++ (u32Bytes job.jobId
      ++ ([flagByte job.futureJob] ++ (u32Bytes job.version ++ (job.prevHash.toList
      ++ (job.merkleRoot.toList ++ (job.blockCommitments.toList
      ++ ([UInt8.ofNat job.nonce1.length] ++ ([] ++ (job.nonce1 ++ ([job.nonce2Len]
      ++ ([] ++ ([] ++ (u32Bytes job.time ++ (u32Bytes job.bits ++ (job.target.toList
      ++ ([flagByte job.cleanJobs] ++ [])))))))))))))))) := by
    simp only [NewEquihashJob.payload, List.append_assoc, List.nil_append, List.append_nil]
  rw [hpayload]
  exact .bind (reads_u32 _) (.bind (reads_u32 _) (.bind (reads_flag _) (.bind (reads_u32 _)
    (.bind (reads_hash _) (.bind (reads_hash _) (.bind (reads_hash _) (.bind (reads_u8 _)
    (.bind (.failIf (by omega)) (.bind (reads_sized hlen) (.bind (reads_u8 _)
    (.bind (.failIf (by omega)) (.bind (.failIf (by omega)) (.bind (reads_u32 _)
    (.bind (reads_u32 _) (.bind (reads_hash _) (.bind (reads_flag _) (.ret job)))))))))))))))))

theorem reads_share {share : SubmitEquihashShare} (h : share.nonce2.length ≤ 32) :
    Reads readShare share.payload share := by
  have hlen : (UInt8.ofNat share.nonce2.length).toNat = share.nonce2.length :=
    toNat_length (by omega)
  have hpayload : share.payload = u32Bytes share.channelId ++ (u32Bytes share.sequenceNumber
      ++ (u32Bytes share.jobId ++ ([UInt8.ofNat share.nonce2.length] ++ ([] ++ (share.nonce2
      ++ (u32Bytes share.time ++ (List.ofFn share.solution ++ []))))))) := by
    simp only [SubmitEquihashShare.payload, List.append_assoc, List.nil_append, List.append_nil]
  rw [hpayload]
  exact .bind (reads_u32 _) (.bind (reads_u32 _) (.bind (reads_u32 _) (.bind (reads_u8 _)
    (.bind (.failIf (by omega)) (.bind (reads_sized hlen) (.bind (reads_u32 _)
    (.bind (reads_solution _) (.ret share))))))))

theorem reads_target (msg : SetTarget) : Reads readTarget msg.payload msg := by
  have hpayload : msg.payload = u32Bytes msg.channelId ++ (msg.target.toList ++ []) := by
    rw [SetTarget.payload, List.append_nil]
  rw [hpayload]
  exact .bind (reads_u32 _) (.bind (reads_hash _) (.ret msg))

/-! ## Worker names -/

theorem length_workerName {name : String} (h : validateWorkerName name = .ok ()) :
    (utf8 name).length ≤ maxWorkerNameLen := by
  rw [validateWorkerName] at h
  split at h
  · cases h
  · rename_i hlen
    simp only [Bool.or_eq_true, decide_eq_true_eq, not_or, Nat.not_lt] at hlen
    exact hlen.2

theorem decode_workerIdentity {msg : SetWorkerIdentity}
    (h : validateWorkerName msg.workerName = .ok ()) :
    decodeSetWorkerIdentity (sealFrame 0x24 msg.payload) = .ok msg := by
  have hname : (utf8 msg.workerName).length ≤ 64 := length_workerName h
  have hlen : (UInt8.ofNat (utf8 msg.workerName).length).toNat = (utf8 msg.workerName).length :=
    toNat_length (by omega)
  have hsmall : msg.payload.length ≤ maxFramePayload := by
    simp only [SetWorkerIdentity.payload, List.length_append, List.length_singleton,
      maxFramePayload]
    omega
  have hread : readWorkerIdentity msg.payload msg.payload = .ok (msg, []) := by
    generalize hshown : msg.payload.length - 1 = shown
    have hfirst := (Reads.exact [UInt8.ofNat (utf8 msg.workerName).length]
      (.messageTooShort 1 0 : ProtocolError)).map fun bs => bs.headD 0
    have hsecond := Reads.exact (utf8 msg.workerName)
      (.messageTooShort (utf8 msg.workerName).length shown : ProtocolError)
    have hrest : ∀ g : List UInt8 → Reader SetWorkerIdentity,
        (Reading.readExact (utf8 msg.workerName).length
          (.messageTooShort (utf8 msg.workerName).length shown) >>= g) (utf8 msg.workerName)
          = g (utf8 msg.workerName) [] := by
      intro g
      have hrun := hsecond.run g []
      rwa [List.append_nil] at hrun
    rw [readWorkerIdentity, hshown, SetWorkerIdentity.payload]
    refine (hfirst.run _ _).trans ?_
    simp only [List.headD_cons, hlen]
    rw [hrest]
    simp only [fromUtf8_utf8, h]
    rfl
  rw [decodeSetWorkerIdentity, openFrame_sealFrame 0x24 hsmall, Outcome.ok_bind, StateT.run', hread]
  rfl

/-! ## Responses -/

/-- The cut of a text, if there is one, does not go through a character. -/
def CutsClean (result : ShareResult) : Prop :=
  ∀ message, result = .rejected (.other message) → (fromUtf8 ((utf8 message).take 255)).isSome

/-- The same result, or a rejection with the first 255 bytes of a longer text. -/
def Shortened (result back : ShareResult) : Prop :=
  back = result ∨ ∃ message text, result = .rejected (.other message)
    ∧ back = .rejected (.other text) ∧ 255 < (utf8 message).length
    ∧ utf8 text = (utf8 message).take 255

variable (utf8Error : Utf8Error) {message : String}

/-- A reason without a text. -/
theorem reads_reason (h : ∀ message, reason ≠ .other message) :
    Reads (readReason utf8Error) (reasonBytes reason) reason := by
  cases reason with
  | other message => exact absurd rfl (h message)
  | staleJob => exact fun rest => (reads_u8 0x00).run _ rest
  | duplicate => exact fun rest => (reads_u8 0x01).run _ rest
  | invalidSolution => exact fun rest => (reads_u8 0x02).run _ rest
  | lowDifficulty => exact fun rest => (reads_u8 0x03).run _ rest

theorem reasonBytes_other (message : String) :
    reasonBytes (.other message) = [0xff] ++ ([UInt8.ofNat ((utf8 message).take 255).length]
      ++ (utf8 message).take 255) := by
  have hlen : ((utf8 message).take 255).length = min (utf8 message).length 255 := by
    rw [List.length_take, Nat.min_comm]
  have htake : (utf8 message).take (min (utf8 message).length 255) = (utf8 message).take 255 := by
    rw [← hlen, List.length_take, ← List.take_take, List.take_length]
  rw [reasonBytes, hlen, htake]
  rfl

/-- The bytes of a text, which may or may not be one. -/
theorem reads_cut (message : String) : Reads readSized
    ([UInt8.ofNat ((utf8 message).take 255).length] ++ (utf8 message).take 255)
    ((utf8 message).take 255) :=
  .bind (reads_u8 _) (reads_sized (toNat_length (List.length_take_le _ _)))

theorem readReason_other (message : String) (rest : List UInt8) :
    readReason utf8Error (reasonBytes (.other message) ++ rest)
      = readMessage utf8Error ([UInt8.ofNat ((utf8 message).take 255).length]
        ++ (utf8 message).take 255 ++ rest) := by
  rw [reasonBytes_other, List.append_assoc]
  exact (reads_u8 0xff).run _ _

/-- A text whose cut is clean is read as what is left of it. -/
theorem reads_message {text : String} (h : fromUtf8 ((utf8 message).take 255) = some text) :
    Reads (readReason utf8Error) (reasonBytes (.other message)) (.other text) := by
  intro rest
  rw [readReason_other, readMessage, (reads_cut message).run, otherReason, h]
  rfl

/-- A text that is cut in two is refused. -/
theorem readReason_of_none (h : fromUtf8 ((utf8 message).take 255) = none) (rest : List UInt8) :
    ∃ e, readReason utf8Error (reasonBytes (.other message) ++ rest) = .error e := by
  rw [readReason_other, readMessage, (reads_cut message).run, otherReason, h]
  exact ⟨_, rfl⟩

theorem reads_rejected {back : RejectReason}
    (h : Reads (readReason utf8Error) (reasonBytes reason) back) :
    Reads (readResult utf8Error) (resultBytes (.rejected reason)) (.rejected back) :=
  .bind (reads_u8 0x01) (.map _ h)

/-- A result that is not cut through a character is read as itself, or shortened. -/
theorem reads_result (h : CutsClean result) :
    ∃ back, Shortened result back ∧ Reads (readResult utf8Error) (resultBytes result) back := by
  cases result with
  | accepted => exact ⟨.accepted, .inl rfl, .bind (reads_u8 0x00) (.ret _)⟩
  | rejected reason =>
    by_cases hother : ∃ message, reason = .other message
    · obtain ⟨message, rfl⟩ := hother
      obtain ⟨text, htext⟩ := Option.isSome_iff_exists.mp (h message rfl)
      refine ⟨.rejected (.other text), ?_, reads_rejected utf8Error (reads_message _ htext)⟩
      rcases Nat.lt_or_ge 255 (utf8 message).length with hlong | hshort
      · exact .inr ⟨message, text, rfl, rfl, hlong, fromUtf8_eq_some.mp htext⟩
      · rw [List.take_of_length_le hshort, fromUtf8_utf8] at htext
        exact .inl (by rw [Option.some.inj htext])
    · exact ⟨_, .inl rfl, reads_rejected utf8Error
        (reads_reason _ fun message hm => hother ⟨message, hm⟩)⟩

/-- A result that is cut through a character is refused. -/
theorem readResult_of_not_clean (h : ¬ CutsClean result) (rest : List UInt8) :
    ∃ e, readResult utf8Error (resultBytes result ++ rest) = .error e := by
  rw [CutsClean] at h
  push Not at h
  obtain ⟨message, rfl, hnone⟩ := h
  obtain ⟨e, he⟩ := readReason_of_none utf8Error (Option.not_isSome_iff_eq_none.mp hnone) rest
  refine ⟨e, ?_⟩
  have hrun : (ShareResult.rejected <$> readReason utf8Error)
      (reasonBytes (.other message) ++ rest) = .error e := by
    change (readReason utf8Error (reasonBytes (.other message) ++ rest)).map _ = _
    rw [he]
    rfl
  rw [resultBytes, List.append_assoc]
  exact ((reads_u8 0x01).run _ _).trans hrun

theorem length_resultBytes (result : ShareResult) : (resultBytes result).length ≤ 258 := by
  cases result with
  | accepted => decide
  | rejected reason =>
    cases reason with
    | other message =>
      have hlen := List.length_take_le 255 (utf8 message)
      rw [resultBytes, reasonBytes_other]
      simp only [List.length_append, List.length_singleton]
      omega
    | _ => decide

theorem payload_response_small (resp : SubmitSharesResponse) :
    resp.payload.length ≤ maxFramePayload := by
  have hlen := length_resultBytes resp.result
  rw [SubmitSharesResponse.payload]
  simp only [List.length_append, length_u32Bytes, maxFramePayload]
  omega

/-- A response whose text is not cut in two comes back, shortened at most. -/
theorem decode_response_of_clean (h : CutsClean resp.result) :
    ∃ back, Shortened resp.result back
      ∧ decodeSubmitSharesResponse utf8Error (sealFrame 0x22 resp.payload)
        = .ok { resp with result := back } := by
  obtain ⟨back, hback, hreads⟩ := reads_result utf8Error h
  refine ⟨back, hback, decodeWith_sealFrame (payload_response_small resp) ?_⟩
  have hpayload : resp.payload = u32Bytes resp.channelId ++ (u32Bytes resp.sequenceNumber
      ++ (resultBytes resp.result ++ [])) := by
    rw [SubmitSharesResponse.payload, List.append_nil, List.append_assoc]
  rw [hpayload]
  exact .bind (reads_u32 _) (.bind (reads_u32 _) (.bind hreads (.ret _)))

/-- Any other response is refused. -/
theorem decode_response_of_not_clean (h : ¬ CutsClean resp.result) :
    ∃ e, decodeSubmitSharesResponse utf8Error (sealFrame 0x22 resp.payload) = .err e := by
  obtain ⟨e, he⟩ := readResult_of_not_clean utf8Error h []
  have hread : readResponse utf8Error resp.payload = .error e := by
    rw [SubmitSharesResponse.payload, List.append_assoc]
    refine ((reads_u32 _).run _ _).trans (((reads_u32 _).run _ _).trans ?_)
    rw [List.append_nil] at he
    change (readResult utf8Error (resultBytes resp.result) >>= _) = _
    rw [he]
    rfl
  refine ⟨e, ?_⟩
  rw [decodeSubmitSharesResponse, decodeWith, openFrame_sealFrame 0x22 (payload_response_small resp),
    Outcome.ok_bind, StateT.run', hread]
  rfl

/-! ## The round trips -/

/-- **What comes back.** Every job with a whole nonce, every share with a nonce of at most 32
bytes, every target and every valid worker name is encoded and decoded to itself. Every response is
encoded; it is decoded exactly when its text is not cut through a character, and then to itself or
to a rejection with the first 255 bytes of the text. No decoder panics. -/
theorem codec_round_trips :
    (∀ job : NewEquihashJob, job.validateNonceLen →
      ∃ bytes, encodeNewEquihashJob job = .ok bytes ∧ decodeNewEquihashJob bytes = .ok job)
    ∧ (∀ share : SubmitEquihashShare, share.nonce2.length ≤ 32 →
      ∃ bytes, encodeSubmitShare share = .ok bytes ∧ decodeSubmitShare bytes = .ok share)
    ∧ (∀ msg : SetTarget,
      ∃ bytes, encodeSetTarget msg = .ok bytes ∧ decodeSetTarget bytes = .ok msg)
    ∧ (∀ msg : SetWorkerIdentity, validateWorkerName msg.workerName = .ok () →
      ∃ bytes, encodeSetWorkerIdentity msg = .ok bytes ∧ decodeSetWorkerIdentity bytes = .ok msg)
    ∧ (∀ resp : SubmitSharesResponse, ∃ bytes, encodeSubmitSharesResponse resp = .ok bytes
      ∧ ((∃ back, decodeSubmitSharesResponse utf8Error bytes = .ok back)
        ↔ CutsClean resp.result)
      ∧ ∀ back, decodeSubmitSharesResponse utf8Error bytes = .ok back →
        Shortened resp.result back.result ∧ back = { resp with result := back.result })
    ∧ ∀ data, decodeNewEquihashJob data ≠ .panic ∧ decodeSubmitShare data ≠ .panic
      ∧ decodeSetTarget data ≠ .panic ∧ decodeSetWorkerIdentity data ≠ .panic
      ∧ decodeSubmitSharesResponse utf8Error data ≠ .panic := by
  refine ⟨fun job h => ⟨_, rfl, ?_⟩, fun share h => ⟨_, rfl, ?_⟩, fun msg => ⟨_, rfl, ?_⟩,
    fun msg h => ⟨sealFrame 0x24 msg.payload, ?_, decode_workerIdentity h⟩,
    fun resp => ⟨_, rfl, ?_, ?_⟩, fun data => ⟨decodeWith_ne_panic _ _ _, decodeWith_ne_panic _ _ _,
      decodeWith_ne_panic _ _ _, ?_, decodeWith_ne_panic _ _ _⟩⟩
  · refine decodeWith_sealFrame ?_ (reads_job h)
    rw [NewEquihashJob.validateNonceLen] at h
    simp only [NewEquihashJob.payload, List.length_append, length_u32Bytes, length_toList,
      List.length_singleton, maxFramePayload]
    omega
  · refine decodeWith_sealFrame ?_ (reads_share h)
    simp only [SubmitEquihashShare.payload, List.length_append, length_u32Bytes, List.length_ofFn,
      List.length_singleton, maxFramePayload]
    omega
  · refine decodeWith_sealFrame ?_ (reads_target msg)
    simp only [SetTarget.payload, List.length_append, length_u32Bytes, length_toList,
      maxFramePayload]
    omega
  · rw [encodeSetWorkerIdentity, h]
    rfl
  · constructor
    · rintro ⟨back, hback⟩
      by_contra hcut
      obtain ⟨e, he⟩ := decode_response_of_not_clean utf8Error hcut
      rw [he] at hback
      cases hback
    · intro hclean
      obtain ⟨back, -, hdecode⟩ := decode_response_of_clean utf8Error hclean
      exact ⟨_, hdecode⟩
  · intro back hback
    by_cases hclean : CutsClean resp.result
    · obtain ⟨result, hshort, hdecode⟩ := decode_response_of_clean utf8Error hclean
      rw [hdecode] at hback
      cases hback
      exact ⟨hshort, rfl⟩
    · obtain ⟨e, he⟩ := decode_response_of_not_clean utf8Error hclean
      rw [he] at hback
      cases hback
  · exact Outcome.bind_ne_panic (openFrame_ne_panic _ _) fun _ _ => Outcome.ofExcept_ne_panic _

/-- A share with a full nonce comes back, and a response that is short. -/
theorem sample_round_trips :
    (∃ bytes, encodeSubmitShare ⟨1, 2, 3, List.replicate 28 0xaa, 5, fun _ => 7⟩ = .ok bytes
      ∧ decodeSubmitShare bytes = .ok ⟨1, 2, 3, List.replicate 28 0xaa, 5, fun _ => 7⟩)
    ∧ ∃ bytes, encodeSetWorkerIdentity ⟨"rig-1"⟩ = .ok bytes
      ∧ decodeSetWorkerIdentity bytes = .ok ⟨"rig-1"⟩ :=
  ⟨(codec_round_trips fun _ => "").2.1 _ (by decide),
    (codec_round_trips fun _ => "").2.2.2.1 _ (by decide +kernel)⟩

/-- 254 letters and one that has two bytes. -/
def longMessage : String := String.ofList (List.replicate 254 'a' ++ ['é'])

/-- **The cut goes through the last letter**, and the response cannot be decoded. -/
theorem cut_message_refused :
    ¬ ∀ (utf8Error : Utf8Error) (resp : SubmitSharesResponse),
      ∃ bytes, encodeSubmitSharesResponse resp = .ok bytes
        ∧ ∃ back, decodeSubmitSharesResponse utf8Error bytes = .ok back
          ∧ Shortened resp.result back.result := by
  intro hall
  obtain ⟨bytes, hbytes, back, hback, -⟩ :=
    hall (fun _ => "") ⟨1, 1, .rejected (.other longMessage)⟩
  have hcut : ¬ CutsClean (.rejected (.other longMessage)) := by
    intro hclean
    exact absurd (hclean longMessage rfl) (by decide +kernel)
  injection hbytes with hbytes
  obtain ⟨e, he⟩ := @decode_response_of_not_clean
    ⟨1, 1, .rejected (.other longMessage)⟩ (fun _ => "") hcut
  rw [← hbytes, he] at hback
  cases hback

end MiningInfra.Mining
