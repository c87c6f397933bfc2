import MiningInfra.Lib.Utf8
import MiningInfra.Lib.Wire
import MiningInfra.Pool.Share

/-!
# The codec of the mining protocol

Frames of six header bytes and a payload, and the five messages that travel in them. An encoder
writes the payload field by field; a decoder checks the frame and reads the fields back with a
cursor over the payload. Indexing and slicing can panic, and are written so.
-/

namespace MiningInfra.Mining

open Lib Coinbase
open Pool (RejectReason ShareResult)

/-! ## Messages -/

abbrev Solution := Fin 1344 → UInt8

structure NewEquihashJob where
  channelId : UInt32
  jobId : UInt32
  futureJob : Bool
  version : UInt32
  prevHash : Bytes32
  merkleRoot : Bytes32
  blockCommitments : Bytes32
  nonce1 : List UInt8
  nonce2Len : UInt8
  time : UInt32
  bits : UInt32
  target : Bytes32
  cleanJobs : Bool

/-- `validate_nonce_len`: the two parts of the nonce have 32 bytes together. -/
def NewEquihashJob.validateNonceLen (job : NewEquihashJob) : Prop :=
  job.nonce1.length + job.nonce2Len.toNat = 32

structure SubmitEquihashShare where
  channelId : UInt32
  sequenceNumber : UInt32
  jobId : UInt32
  nonce2 : List UInt8
  time : UInt32
  solution : Solution

structure SubmitSharesResponse where
  channelId : UInt32
  sequenceNumber : UInt32
  result : ShareResult
  deriving DecidableEq

structure SetTarget where
  channelId : UInt32
  target : Bytes32

structure SetWorkerIdentity where
  workerName : String
  deriving DecidableEq

/-- The errors of the codec. -/
inductive ProtocolError where
  | invalidMessageType (msgType : UInt8)
  | messageTooShort (expected actual : Nat)
  | encodingError (message : String)
  deriving DecidableEq, Repr

/-! ## Frames -/

/-- `MAX_FRAME_PAYLOAD`. -/
def maxFramePayload : Nat := 1048576

def payloadTooLarge (length : Nat) : ProtocolError :=
  .encodingError s!"frame payload {length} exceeds maximum of {maxFramePayload} bytes"

structure MessageFrame where
  extensionType : UInt16
  msgType : UInt8
  length : UInt32
  deriving DecidableEq, Repr

/-- `HEADER_SIZE`. -/
def headerSize : Nat := 6

namespace MessageFrame

/-- The length has three bytes. -/
def encode (frame : MessageFrame) : List UInt8 :=
  leBytes 2 frame.extensionType.toNat ++ [frame.msgType] ++ (u32Bytes frame.length).take 3

def decode (data : List UInt8) : Outcome ProtocolError MessageFrame := do
  Outcome.failIf (data.length < headerSize) (.messageTooShort headerSize data.length)
  let low ← Outcome.index data 0
  let high ← Outcome.index data 1
  let msgType ← Outcome.index data 2
  let lenBytes ← Outcome.slice data 3 6
  let length := UInt32.ofNat (leNat (lenBytes ++ [0]))
  Outcome.failIf (maxFramePayload < length.toNat) (payloadTooLarge length.toNat)
  return ⟨UInt16.ofNat (leNat [low, high]), msgType, length⟩

end MessageFrame

/-- A payload behind its frame header. -/
def sealFrame (msgType : UInt8) (payload : List UInt8) : List UInt8 :=
  MessageFrame.encode ⟨0, msgType, UInt32.ofNat payload.length⟩ ++ payload

/-- The checks that all decoders begin with, and the payload. -/
def openFrame (msgType : UInt8) (data : List UInt8) : Outcome ProtocolError (List UInt8) := do
  let frame ← MessageFrame.decode data
  Outcome.failIf (frame.msgType ≠ msgType) (.invalidMessageType frame.msgType)
  let totalLen := headerSize + frame.length.toNat
  Outcome.failIf (data.length < totalLen) (.messageTooShort totalLen data.length)
  Outcome.failIf (totalLen < data.length) (.encodingError "trailing bytes in message")
  Outcome.slice data headerSize totalLen

/-! ## Fields -/

abbrev Reader := Reading ProtocolError

/-- `UnexpectedEof`, as every field reports it. -/
def eof : ProtocolError := .encodingError "failed to fill whole buffer"

def readExact (n : Nat) : Reader (List UInt8) := Reading.readExact n eof

def readU8 : Reader UInt8 := (fun bs => bs.headD 0) <$> readExact 1

def readU32 : Reader UInt32 := (fun bs => UInt32.ofNat (leNat bs)) <$> readExact 4

def readFlag : Reader Bool := (fun b => decide (b ≠ 0)) <$> readU8

def readHash : Reader Bytes32 := toBytes32 <$> readExact 32

def readSolution : Reader Solution := (fun bs i => bs.getD i 0) <$> readExact 1344

def flagByte (b : Bool) : UInt8 := if b then 1 else 0

/-! ## Jobs -/

def NewEquihashJob.payload (job : NewEquihashJob) : List UInt8 :=
  u32Bytes job.channelId ++ u32Bytes job.jobId ++ [flagByte job.futureJob] ++ u32Bytes job.version
    ++ job.prevHash.toList ++ job.merkleRoot.toList ++ job.blockCommitments.toList
    ++ [UInt8.ofNat job.nonce1.length] ++ job.nonce1 ++ [job.nonce2Len] ++ u32Bytes job.time
    ++ u32Bytes job.bits ++ job.target.toList ++ [flagByte job.cleanJobs]

def encodeNewEquihashJob (job : NewEquihashJob) : Except ProtocolError (List UInt8) :=
  .ok (sealFrame 0x20 job.payload)

/-- A length of a part of the nonce, which may not exceed 32. -/
def nonceTooLong (field : String) (len : UInt8) : ProtocolError :=
  let shown := toString len.toNat
  .encodingError s!"{field} {shown} exceeds maximum of 32"

def readJob : Reader NewEquihashJob := do
  let channelId ← readU32
  let jobId ← readU32
  let futureJob ← readFlag
  let version ← readU32
  let prevHash ← readHash
  let merkleRoot ← readHash
  let blockCommitments ← readHash
  let nonce1Len ← readU8
  Reading.failIf (32 < nonce1Len.toNat) (nonceTooLong "nonce_1_len" nonce1Len)
  let nonce1 ← readExact nonce1Len.toNat
  let nonce2Len ← readU8
  Reading.failIf (32 < nonce2Len.toNat) (nonceTooLong "nonce_2_len" nonce2Len)
  let first := toString nonce1Len.toNat
  let second := toString nonce2Len.toNat
  Reading.failIf (nonce1Len.toNat + nonce2Len.toNat ≠ 32)
    (.encodingError s!"nonce_1_len ({first}) + nonce_2_len ({second}) must equal 32")
  let time ← readU32
  let bits ← readU32
  let target ← readHash
  let cleanJobs ← readFlag
  return ⟨channelId, jobId, futureJob, version, prevHash, merkleRoot, blockCommitments, nonce1,
    nonce2Len, time, bits, target, cleanJobs⟩

/-- Run a reader over the payload of a frame. What it leaves is not looked at. -/
def decodeWith {α : Type} (msgType : UInt8) (reader : Reader α) (data : List UInt8) :
    Outcome ProtocolError α := do
  let payload ← openFrame msgType data
  Outcome.ofExcept (reader.run' payload)

def decodeNewEquihashJob (data : List UInt8) : Outcome ProtocolError NewEquihashJob :=
  decodeWith 0x20 readJob data

/-! ## Shares -/

def SubmitEquihashShare.payload (share : SubmitEquihashShare) : List UInt8 :=
  u32Bytes share.channelId ++ u32Bytes share.sequenceNumber ++ u32Bytes share.jobId
    ++ [UInt8.ofNat share.nonce2.length] ++ share.nonce2 ++ u32Bytes share.time
    ++ List.ofFn share.solution

def encodeSubmitShare (share : SubmitEquihashShare) : Except ProtocolError (List UInt8) :=
  .ok (sealFrame 0x21 share.payload)

def readShare : Reader SubmitEquihashShare := do
  let channelId ← readU32
  let sequenceNumber ← readU32
  let jobId ← readU32
  let nonce2Len ← readU8
  Reading.failIf (32 < nonce2Len.toNat) (nonceTooLong "nonce_2_len" nonce2Len)
  let nonce2 ← readExact nonce2Len.toNat
  let time ← readU32
  let solution ← readSolution
  return ⟨channelId, sequenceNumber, jobId, nonce2, time, solution⟩

def decodeSubmitShare (data : List UInt8) : Outcome ProtocolError SubmitEquihashShare :=
  decodeWith 0x21 readShare data

/-! ## Targets -/

def SetTarget.payload (msg : SetTarget) : List UInt8 := u32Bytes msg.channelId ++ msg.target.toList

def encodeSetTarget (msg : SetTarget) : Except ProtocolError (List UInt8) :=
  .ok (sealFrame 0x23 msg.payload)

def readTarget : Reader SetTarget := do
  let channelId ← readU32
  let target ← readHash
  return ⟨channelId, target⟩

def decodeSetTarget (data : List UInt8) : Outcome ProtocolError SetTarget :=
  decodeWith 0x23 readTarget data

/-! ## Worker names -/

/-- `MAX_WORKER_NAME_LEN`. -/
def maxWorkerNameLen : Nat := 64

/-- `[A-Za-z0-9._-]`. -/
def nameByte (b : UInt8) : Bool :=
  (0x30 ≤ b && b ≤ 0x39) || (0x41 ≤ b && b ≤ 0x5a) || (0x61 ≤ b && b ≤ 0x7a)
    || b = 0x2e || b = 0x5f || b = 0x2d

def validateWorkerName (name : String) : Except ProtocolError Unit :=
  if (utf8 name).isEmpty || maxWorkerNameLen < (utf8 name).length then
    .error (.encodingError s!"worker name must be 1-{maxWorkerNameLen} bytes")
  else if !(utf8 name).all nameByte then
    .error (.encodingError "worker name may only contain [A-Za-z0-9._-]")
  else .ok ()

def SetWorkerIdentity.payload (msg : SetWorkerIdentity) : List UInt8 :=
  [UInt8.ofNat (utf8 msg.workerName).length] ++ utf8 msg.workerName

def encodeSetWorkerIdentity (msg : SetWorkerIdentity) : Except ProtocolError (List UInt8) := do
  validateWorkerName msg.workerName
  return sealFrame 0x24 msg.payload

/-- The length, the name, and nothing after it. -/
def readWorkerIdentity (payload : List UInt8) : Reader SetWorkerIdentity := do
  let nameLen ← (fun bs => bs.headD 0) <$> Reading.readExact 1 (.messageTooShort 1 0)
  let name ← Reading.readExact nameLen.toNat (.messageTooShort nameLen.toNat (payload.length - 1))
  let rest ← get
  Reading.failIf (rest ≠ []) (.encodingError "trailing bytes in payload")
  match fromUtf8 name with
  | none => throw (.encodingError "worker name is not UTF-8")
  | some workerName =>
    validateWorkerName workerName
    return ⟨workerName⟩

def decodeSetWorkerIdentity (data : List UInt8) : Outcome ProtocolError SetWorkerIdentity := do
  let payload ← openFrame 0x24 data
  Outcome.ofExcept ((readWorkerIdentity payload).run' payload)

/-! ## Responses -/

/-- The reason of a rejection. A text is cut after 255 bytes, wherever that is. -/
def reasonBytes : RejectReason → List UInt8
  | .staleJob => [0x00]
  | .duplicate => [0x01]
  | .invalidSolution => [0x02]
  | .lowDifficulty => [0x03]
  | .other message =>
    let len := min (utf8 message).length 255
    [0xff, UInt8.ofNat len] ++ (utf8 message).take len

def resultBytes : ShareResult → List UInt8
  | .accepted => [0x00]
  | .rejected reason => [0x01] ++ reasonBytes reason

def SubmitSharesResponse.payload (resp : SubmitSharesResponse) : List UInt8 :=
  u32Bytes resp.channelId ++ u32Bytes resp.sequenceNumber ++ resultBytes resp.result

def encodeSubmitSharesResponse (resp : SubmitSharesResponse) : Except ProtocolError (List UInt8) :=
  .ok (sealFrame 0x22 resp.payload)

/-- How the standard library words that bytes are not UTF-8. -/
abbrev Utf8Error := List UInt8 → String

/-- A length in one byte, and so many bytes. -/
def readSized : Reader (List UInt8) := do
  let len ← readU8
  readExact len.toNat

def otherReason (utf8Error : Utf8Error) (msgBytes : List UInt8) : Reader RejectReason :=
  match fromUtf8 msgBytes with
  | some msg => return .other msg
  | none =>
    let shown := utf8Error msgBytes
    throw (.encodingError s!"invalid UTF-8 in reject reason: {shown}")

/-- The text of a rejection. -/
def readMessage (utf8Error : Utf8Error) : Reader RejectReason := do
  let msgBytes ← readSized
  otherReason utf8Error msgBytes

def unknownCode (what : String) (code : UInt8) : ProtocolError :=
  let shown := toString code.toNat
  .encodingError s!"unknown {what} code: {shown}"

def readReason (utf8Error : Utf8Error) : Reader RejectReason := do
  let code ← readU8
  if code = 0x00 then return .staleJob
  else if code = 0x01 then return .duplicate
  else if code = 0x02 then return .invalidSolution
  else if code = 0x03 then return .lowDifficulty
  else if code = 0xff then readMessage utf8Error
  else throw (unknownCode "reject reason" code)

def readResult (utf8Error : Utf8Error) : Reader ShareResult := do
  let code ← readU8
  if code = 0x00 then return .accepted
  else if code = 0x01 then ShareResult.rejected <$> readReason utf8Error
  else throw (unknownCode "share result" code)

def readResponse (utf8Error : Utf8Error) : Reader SubmitSharesResponse := do
  let channelId ← readU32
  let sequenceNumber ← readU32
  let result ← readResult utf8Error
  return ⟨channelId, sequenceNumber, result⟩

def decodeSubmitSharesResponse (utf8Error : Utf8Error) (data : List UInt8) :
    Outcome ProtocolError SubmitSharesResponse :=
  decodeWith 0x22 (readResponse utf8Error) data

end MiningInfra.Mining
