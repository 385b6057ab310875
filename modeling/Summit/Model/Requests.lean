/-
**Parsing execution requests**: `execution_request.rs` and the bounds of `protocol_params.rs`.

An entry of the execution layer is a type byte and a body. A deposit body is cut into 288-byte
chunks, each of which is a deposit or, when a key does not decode, the refund data of a malformed
one. Withdrawal bodies are cut into 76-byte chunks, protocol-parameter bodies into records that
carry their own length.
-/

import Summit.Lib.Reader
import Summit.Model.Types

set_option linter.unusedSectionVars false

namespace Summit

open Bytes

/-! ### Bounds of protocol parameters -/

def minEpochLength : Nat := 10
def maxEpochLength : Nat := 1_814_400
def minAllowedTimestampFutureMs : Nat := 1_000
def maxAllowedTimestampFutureMs : Nat := 600_000
def maxMaxDepositsPerEpoch : Nat := 256
def maxWithdrawalsPerEpochMin : Nat := 1
def maxWithdrawalsPerEpochMax : Nat := 256
def maxObserversPerValidator : Nat := 256
def minMinimumValidatorCount : Nat := 1
def maxInvalidDepositTax : Nat := 100
def maxPendingWithdrawalsPerValidatorMin : Nat := 1
def maxPendingWithdrawalsPerValidatorMax : Nat := 256
def minMaxValidatorCount : Nat := 1
def maxMaxValidatorCount : Nat := 4_096

/-- A parameter value outside its bounds. -/
inductive ParamBoundsError where
  | epochLength (value : Nat)
  | allowedTimestampFuture (value : Nat)
  | maxDepositsPerEpoch (value : Nat)
  | maxWithdrawalsPerEpoch (value : Nat)
  | observersPerValidator (value : Nat)
  | maxPendingWithdrawalsPerValidator (value : Nat)
  | maxValidatorCount (value : Nat)
  deriving DecidableEq, Repr

namespace ParamBoundsError

/-- The reason the codec reports. -/
def reason : ParamBoundsError → String
  | epochLength _ => "epoch length out of bounds"
  | allowedTimestampFuture _ => "allowed timestamp future out of bounds"
  | maxDepositsPerEpoch _ => "max deposits per epoch out of bounds"
  | maxWithdrawalsPerEpoch _ => "max withdrawals per epoch out of bounds"
  | observersPerValidator _ => "observers per validator out of bounds"
  | maxPendingWithdrawalsPerValidator _ => "max pending withdrawals per validator out of bounds"
  | maxValidatorCount _ => "max validator count out of bounds"

/-- The message with the offending value. -/
def display : ParamBoundsError → String
  | epochLength v => s!"epoch length {v} must be between {minEpochLength} and {maxEpochLength}"
  | allowedTimestampFuture v =>
    s!"allowed timestamp future {v}ms must be between {minAllowedTimestampFutureMs} and " ++
      s!"{maxAllowedTimestampFutureMs}"
  | maxDepositsPerEpoch v =>
    s!"max deposits per epoch {v} must not exceed {maxMaxDepositsPerEpoch}"
  | maxWithdrawalsPerEpoch v =>
    s!"max withdrawals per epoch {v} must be between {maxWithdrawalsPerEpochMin} and " ++
      s!"{maxWithdrawalsPerEpochMax}"
  | observersPerValidator v =>
    s!"observers per validator {v} must not exceed {maxObserversPerValidator}"
  | maxPendingWithdrawalsPerValidator v =>
    s!"max pending withdrawals per validator {v} must be between " ++
      s!"{maxPendingWithdrawalsPerValidatorMin} and {maxPendingWithdrawalsPerValidatorMax}"
  | maxValidatorCount v =>
    s!"max validator count {v} must be between {minMaxValidatorCount} and {maxMaxValidatorCount}"

end ParamBoundsError

/-- The bounds check shared by every place that builds a parameter. -/
def ProtocolParam.validate : ProtocolParam → Except ParamBoundsError Unit
  | .epochLength v =>
    if minEpochLength ≤ v ∧ v ≤ maxEpochLength then .ok () else .error (.epochLength v)
  | .allowedTimestampFuture v =>
    if minAllowedTimestampFutureMs ≤ v ∧ v ≤ maxAllowedTimestampFutureMs then .ok ()
    else .error (.allowedTimestampFuture v)
  | .maxDepositsPerEpoch v =>
    if v > maxMaxDepositsPerEpoch then .error (.maxDepositsPerEpoch v) else .ok ()
  | .maxWithdrawalsPerEpoch v =>
    if maxWithdrawalsPerEpochMin ≤ v ∧ v ≤ maxWithdrawalsPerEpochMax then .ok ()
    else .error (.maxWithdrawalsPerEpoch v)
  | .observersPerValidator v =>
    if v > maxObserversPerValidator then .error (.observersPerValidator v) else .ok ()
  | .maxPendingWithdrawalsPerValidator v =>
    if maxPendingWithdrawalsPerValidatorMin ≤ v ∧ v ≤ maxPendingWithdrawalsPerValidatorMax then
      .ok ()
    else .error (.maxPendingWithdrawalsPerValidator v)
  | .maxValidatorCount v =>
    if minMaxValidatorCount ≤ v ∧ v ≤ maxMaxValidatorCount then .ok ()
    else .error (.maxValidatorCount v)
  | _ => .ok ()

/-! ### Requests -/

structure ProtocolParamRequest where
  paramId : UInt8
  param : List UInt8
  deriving DecidableEq

/-- What is refunded of a deposit whose keys do not decode. -/
structure MalformedDepositRequest where
  withdrawalCredentials : Bytes32
  amount : Nat
  index : Nat
  reason : String
  deriving DecidableEq

section Parsing

variable [Crypto]

inductive ExecutionRequest where
  | deposit (request : DepositRequest)
  | withdrawal (request : WithdrawalRequest)
  | protocolParam (request : ProtocolParamRequest)

inductive ParsedExecutionRequest where
  | valid (request : ExecutionRequest)
  | malformedDeposit (request : MalformedDepositRequest)

/-- The eight bytes from `start` on as a little-endian number. -/
def u64At (bytes : List UInt8) (start : Nat) : Nat := leNat ((bytes.drop start).take 8)

/-- The `n` bytes from `start` on. -/
def bytesAt (n : Nat) (bytes : List UInt8) (start : Nat) : FixedBytes n :=
  FixedBytes.padded n (bytes.drop start)

def DepositRequest.tryFromEthBytes (bytes : List UInt8) : Except String DepositRequest :=
  if bytes.length ≠ 288 then .error "DepositRequest must be exactly 288 bytes"
  else match PublicKey.decode (bytesAt 32 bytes 0) with
    | none => .error "Invalid ed25519 public key"
    | some nodePubkey =>
      match BlsPublicKey.decode (bytesAt 48 bytes 32) with
      | none => .error "Invalid BLS public key"
      | some consensusPubkey =>
        .ok { nodePubkey
              consensusPubkey
              withdrawalCredentials := bytesAt 32 bytes 80
              amount := u64At bytes 112
              nodeSignature := bytesAt 64 bytes 120
              consensusSignature := bytesAt 96 bytes 184
              index := u64At bytes 280 }

/-- One deposit chunk: the deposit, or its refund data when a key does not decode. -/
def parseDepositChunk (chunk : List UInt8) : ParsedExecutionRequest :=
  match DepositRequest.tryFromEthBytes chunk with
  | .ok deposit => .valid (.deposit deposit)
  | .error reason => .malformedDeposit
      { withdrawalCredentials := bytesAt 32 chunk 80
        amount := u64At chunk 112
        index := u64At chunk 280
        reason }

/-- The public key is right-aligned in its 48-byte field. -/
def WithdrawalRequest.tryFromEthBytes (bytes : List UInt8) : Except String WithdrawalRequest :=
  if bytes.length ≠ 76 then .error "WithdrawalRequest must be exactly 76 bytes"
  else .ok { sourceAddress := bytesAt 20 bytes 0
             validatorPubkey := bytesAt 32 bytes 36
             amount := u64At bytes 68 }

def WithdrawalRequest.tryFromEthEntryBytes (bytes : List UInt8) :
    Except String (List WithdrawalRequest) :=
  if bytes.length % 76 ≠ 0 then
    .error "WithdrawalRequest payload length must be a multiple of 76 bytes"
  else (chunksExact 76 bytes).mapM WithdrawalRequest.tryFromEthBytes

def ProtocolParamRequest.tryFromEthBytes :
    List UInt8 → Except String ProtocolParamRequest
  | paramId :: paramLen :: rest =>
    if rest.length ≠ paramLen.toNat then .error "ProtocolParamRequest length mismatch"
    else .ok { paramId, param := rest.take paramLen.toNat }
  | _ => .error "ProtocolParamRequest must be at least 2 bytes"

/-- One record: identifier, length, and that many bytes. -/
def ProtocolParamRequest.read : Reader ProtocolParamRequest := do
  Reader.need 2 (.invalid "ProtocolParamRequest" "Insufficient bytes for header")
  let paramId ← Reader.byte
  let paramLen ← Reader.byte
  Reader.need paramLen.toNat (.invalid "ProtocolParamRequest" "Insufficient bytes for param data")
  let param ← Reader.takeBytes paramLen.toNat
  return { paramId, param }

/-- Records until the body is used up; every record takes at least two bytes. -/
def ProtocolParamRequest.readAll : Nat → List UInt8 → Except String (List ProtocolParamRequest)
  | 0, _ => .ok []
  | fuel + 1, buffer =>
    if buffer = [] then .ok []
    else match ProtocolParamRequest.read.run buffer with
      | .error _ => .error "Failed to parse grouped protocol param request payload"
      | .ok (request, rest) =>
        match readAll fuel rest with
        | .error message => .error message
        | .ok requests => .ok (request :: requests)

def ProtocolParamRequest.tryFromEthEntryBytes (bytes : List UInt8) :
    Except String (List ProtocolParamRequest) :=
  ProtocolParamRequest.readAll bytes.length bytes

/-- Parse an entry that holds one request. -/
def ExecutionRequest.tryFromEthBytes : List UInt8 → Except String ExecutionRequest
  | [] => .error "ExecutionRequest cannot be empty"
  | kind :: body =>
    if kind = 0x00 then (DepositRequest.tryFromEthBytes body).map .deposit
    else if kind = 0x01 then (WithdrawalRequest.tryFromEthBytes body).map .withdrawal
    else if kind = 0xFF then (ProtocolParamRequest.tryFromEthBytes body).map .protocolParam
    else .error "Unknown execution request type"

/-- Parse one entry of the execution layer chunk by chunk. -/
def ExecutionRequest.parseEthEntry (bytes : List UInt8) :
    Except String (List ParsedExecutionRequest) :=
  match bytes with
  | [] => .error "ExecutionRequest cannot be empty"
  | kind :: body =>
    if kind = 0x00 then
      if body.length % 288 ≠ 0 then
        .error "DepositRequest payload length must be a multiple of 288 bytes"
      else .ok ((chunksExact 288 body).map parseDepositChunk)
    else if kind = 0x01 then
      match WithdrawalRequest.tryFromEthEntryBytes body with
      | .error message => .error message
      | .ok requests => .ok (requests.map fun request => .valid (.withdrawal request))
    else if kind = 0xFF then
      match ProtocolParamRequest.tryFromEthEntryBytes body with
      | .error message => .error message
      | .ok requests => .ok (requests.map fun request => .valid (.protocolParam request))
    else .error "Unknown execution request type"

/-! ### Protocol-parameter requests -/

/-- A parameter with an eight-byte little-endian value that has to pass `check`. -/
def parseU64Param (what : String) (make : Nat → ProtocolParam)
    (check : Nat → Except String Unit) (param : List UInt8) : Except String ProtocolParam :=
  if param.length ≠ 8 then
    .error s!"Failed to parse {what} protocol param, invalid length {param.length}"
  else
    match check (leNat param) with
    | .error message => .error message
    | .ok () => .ok (make (leNat param))

/-- The shared bounds check, with its message. -/
def boundsCheck (make : Nat → ProtocolParam) (value : Nat) : Except String Unit :=
  match (make value).validate with
  | .ok () => .ok ()
  | .error error => .error error.display

/-- The text of the derived `Debug`. -/
def ProtocolParamRequest.debug (request : ProtocolParamRequest) : String :=
  s!"ProtocolParamRequest \x7b param_id: {request.paramId}, param: {request.param} \x7d"

def ProtocolParam.tryFrom (request : ProtocolParamRequest) : Except String ProtocolParam :=
  match request.paramId.toNat with
  | 0x00 => parseU64Param "minimum stake" .minimumStake (fun _ => .ok ()) request.param
  | 0x01 => parseU64Param "epoch length" .epochLength (boundsCheck .epochLength) request.param
  | 0x02 => parseU64Param "allowed timestamp future" .allowedTimestampFuture
      (boundsCheck .allowedTimestampFuture) request.param
  | 0x03 =>
    if request.param.length ≠ 20 then
      .error s!"Failed to parse treasury address protocol param, invalid length {request.param.length}"
    else .ok (.treasuryAddress (bytesAt 20 request.param 0))
  | 0x04 => parseU64Param "max deposits per epoch" .maxDepositsPerEpoch
      (boundsCheck .maxDepositsPerEpoch) request.param
  | 0x05 => parseU64Param "max withdrawals per epoch" .maxWithdrawalsPerEpoch
      (boundsCheck .maxWithdrawalsPerEpoch) request.param
  | 0x06 => parseU64Param "observers per validator" .observersPerValidator
      (boundsCheck .observersPerValidator) request.param
  | 0x07 => parseU64Param "minimum validator count" .minimumValidatorCount
      (fun value =>
        if value < minMinimumValidatorCount then
          .error s!"Minimum validator count {value} is below minimum {minMinimumValidatorCount}"
        else .ok ()) request.param
  | 0x08 => parseU64Param "invalid deposit tax" .invalidDepositTax
      (fun value =>
        if value > maxInvalidDepositTax then
          .error s!"Invalid deposit tax {value} exceeds maximum {maxInvalidDepositTax}"
        else .ok ()) request.param
  | 0x09 => parseU64Param "max pending withdrawals per validator"
      .maxPendingWithdrawalsPerValidator (boundsCheck .maxPendingWithdrawalsPerValidator)
      request.param
  | 0x0A => parseU64Param "max validator count" .maxValidatorCount
      (boundsCheck .maxValidatorCount) request.param
  | _ => .error s!"Failed to parse protocol param request - unknown param_id: {request.debug}"

end Parsing

end Summit
