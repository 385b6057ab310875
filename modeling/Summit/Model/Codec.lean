/-
**The codec of the consensus state**, of its parts and of checkpoints.

Accounts, deposits and withdrawals are written least significant byte first, everything else most
significant first, and collections after their length in four bytes. A reader refuses what its
source refuses, in the same order. The snapshot that the last capture left is nested in the
encoding: reading a state reads the snapshot with the same reader.
-/

import Summit.Model.Processing

set_option linter.unusedSectionVars false

namespace Summit

open Bytes

section Codec

variable [Crypto]

/-! ### Records -/

def PublicKey.read : Reader PublicKey := do
  let bytes ← Reader.fixed 32
  Reader.orFail (PublicKey.decode bytes) .refused

def BlsPublicKey.read : Reader BlsPublicKey := do
  let bytes ← Reader.fixed 48
  Reader.orFail (BlsPublicKey.decode bytes) .refused

def ValidatorAccount.encode (account : ValidatorAccount) : List UInt8 :=
  [account.consensusPublicKey.val.val,
   account.withdrawalCredentials.val,
   leBytes 8 account.balance,
   [account.status.toU8],
   leBytes 8 account.joiningEpoch,
   leBytes 8 account.lastDepositIndex].flatten

def ValidatorAccount.size : Nat := 93

def ValidatorAccount.read : Reader ValidatorAccount := do
  Reader.need 93 (.invalid "ValidatorAccount" "Insufficient bytes")
  let consensusKeyBytes ← Reader.fixed 48
  let consensusPublicKey ← Reader.orFail (BlsPublicKey.decode consensusKeyBytes)
    (.invalid "ValidatorAccount" "Invalid consensus public key")
  let withdrawalCredentials ← Reader.fixed 20
  let balance ← Reader.le 8
  let statusByte ← Reader.byte
  let status ← Reader.orFail (ValidatorStatus.fromU8 statusByte)
    (.invalid "ValidatorAccount" "Invalid status value")
  let joiningEpoch ← Reader.le 8
  let lastDepositIndex ← Reader.le 8
  return {
    consensusPublicKey, withdrawalCredentials, balance, status, joiningEpoch, lastDepositIndex }

def DepositRequest.encode (request : DepositRequest) : List UInt8 :=
  [request.nodePubkey.val.val,
   request.consensusPubkey.val.val,
   request.withdrawalCredentials.val,
   leBytes 8 request.amount,
   request.nodeSignature.val,
   request.consensusSignature.val,
   leBytes 8 request.index].flatten

def DepositRequest.size : Nat := 288

def DepositRequest.read : Reader DepositRequest := do
  Reader.need 288 (.invalid "DepositRequest" "Insufficient bytes")
  let nodePubkeyBytes ← Reader.fixed 32
  let nodePubkey ← Reader.orFail (PublicKey.decode nodePubkeyBytes)
    (.invalid "DepositRequest" "Invalid ed25519 public key")
  let consensusPubkeyBytes ← Reader.fixed 48
  let consensusPubkey ← Reader.orFail (BlsPublicKey.decode consensusPubkeyBytes)
    (.invalid "DepositRequest" "Invalid BLS public key")
  let withdrawalCredentials ← Reader.fixed 32
  let amount ← Reader.le 8
  let nodeSignature ← Reader.fixed 64
  let consensusSignature ← Reader.fixed 96
  let index ← Reader.le 8
  return {
    nodePubkey, consensusPubkey, withdrawalCredentials, amount, nodeSignature, consensusSignature,
    index }

/-- The key is right-aligned in a field of 48 bytes. -/
def WithdrawalRequest.encode (request : WithdrawalRequest) : List UInt8 :=
  [request.sourceAddress.val,
   List.replicate 16 0,
   request.validatorPubkey.val,
   leBytes 8 request.amount].flatten

def WithdrawalRequest.read : Reader WithdrawalRequest := do
  Reader.need 76 (.invalid "WithdrawalRequest" "Insufficient bytes")
  let sourceAddress ← Reader.fixed 20
  let _padding ← Reader.takeBytes 16
  let validatorPubkey ← Reader.fixed 32
  let amount ← Reader.le 8
  return { sourceAddress, validatorPubkey, amount }

/-- The length is written as one byte. -/
def ProtocolParamRequest.encode (request : ProtocolParamRequest) : List UInt8 :=
  [request.paramId, UInt8.ofNat request.param.length] ++ request.param

def ExecutionRequest.read : Reader ExecutionRequest := do
  Reader.need 1 (.invalid "ExecutionRequest" "Buffer is empty")
  let requestType ← Reader.byte
  if requestType = 0x00 then return .deposit (← DepositRequest.read)
  else if requestType = 0x01 then return .withdrawal (← WithdrawalRequest.read)
  else if requestType = 0xFF then return .protocolParam (← ProtocolParamRequest.read)
  else Reader.fail (.invalid "ExecutionRequest" "Unknown request type")

def AddedValidator.encode (validator : AddedValidator) : List UInt8 :=
  [validator.nodeKey.val.val, validator.consensusKey.val.val].flatten

def AddedValidator.read : Reader AddedValidator := do
  let nodeKey ← PublicKey.read
  let consensusKey ← BlsPublicKey.read
  return { nodeKey, consensusKey }

/-! ### Protocol parameters -/

def ProtocolParam.encodeSize : ProtocolParam → Nat
  | .treasuryAddress _ => 1 + 20
  | _ => 1 + 8

def ProtocolParam.encode : ProtocolParam → List UInt8
  | .minimumStake value => [0x00] ++ beBytes 8 value
  | .epochLength value => [0x01] ++ beBytes 8 value
  | .allowedTimestampFuture value => [0x02] ++ beBytes 8 value
  | .treasuryAddress address => [0x03] ++ address.val
  | .maxDepositsPerEpoch value => [0x04] ++ beBytes 8 value
  | .maxWithdrawalsPerEpoch value => [0x05] ++ beBytes 8 value
  | .observersPerValidator value => [0x06] ++ beBytes 8 value
  | .minimumValidatorCount value => [0x07] ++ beBytes 8 value
  | .invalidDepositTax value => [0x08] ++ beBytes 8 value
  | .maxPendingWithdrawalsPerValidator value => [0x09] ++ beBytes 8 value
  | .maxValidatorCount value => [0x0A] ++ beBytes 8 value

/-- A parameter with an eight-byte value that has to be within `check`. -/
def ProtocolParam.readU64 (make : Nat → ProtocolParam) (check : Nat → Except String Unit) :
    Reader ProtocolParam := do
  let value ← Reader.be 8
  match check value with
  | .ok () => return make value
  | .error why => Reader.fail (.invalid "ProtocolParam" why)

/-- The shared bounds check, with the reason the codec reports. -/
def ProtocolParam.boundsReason (make : Nat → ProtocolParam) (value : Nat) : Except String Unit :=
  match (make value).validate with
  | .ok () => .ok ()
  | .error error => .error error.reason

/-- The value that follows a tag. -/
def ProtocolParam.readTagged (tag : UInt8) : Reader ProtocolParam :=
  match tag.toNat with
  | 0x00 => readU64 .minimumStake fun _ => .ok ()
  | 0x01 => readU64 .epochLength (boundsReason .epochLength)
  | 0x02 => readU64 .allowedTimestampFuture (boundsReason .allowedTimestampFuture)
  | 0x03 => do
    let address ← Reader.fixed 20
    return .treasuryAddress address
  | 0x04 => readU64 .maxDepositsPerEpoch (boundsReason .maxDepositsPerEpoch)
  | 0x05 => readU64 .maxWithdrawalsPerEpoch (boundsReason .maxWithdrawalsPerEpoch)
  | 0x06 => readU64 .observersPerValidator (boundsReason .observersPerValidator)
  | 0x07 => readU64 .minimumValidatorCount fun value =>
      if value < minMinimumValidatorCount then .error "minimum validator count out of bounds"
      else .ok ()
  | 0x08 => readU64 .invalidDepositTax fun value =>
      if value > maxInvalidDepositTax then .error "invalid deposit tax out of bounds" else .ok ()
  | 0x09 => readU64 .maxPendingWithdrawalsPerValidator
      (boundsReason .maxPendingWithdrawalsPerValidator)
  | 0x0A => readU64 .maxValidatorCount (boundsReason .maxValidatorCount)
  | _ => Reader.fail (.invalid "ProtocolParam" "unknown tag")

def ProtocolParam.read : Reader ProtocolParam := do
  let tag ← Reader.byte
  readTagged tag

end Codec

/-! ### The withdrawal queue -/

def PendingWithdrawal.encode (withdrawal : PendingWithdrawal) : List UInt8 :=
  [leBytes 8 withdrawal.inner.index,
   leBytes 8 withdrawal.inner.validatorIndex,
   withdrawal.inner.address.val,
   leBytes 8 withdrawal.inner.amount,
   withdrawal.pubkey.val,
   leBytes 8 withdrawal.epoch,
   [withdrawal.kind.asU8]].flatten

def PendingWithdrawal.size : Nat := 85

def PendingWithdrawal.read : Reader PendingWithdrawal := do
  Reader.need 85 (.invalid "PendingWithdrawal" "Insufficient bytes")
  let index ← Reader.le 8
  let validatorIndex ← Reader.le 8
  let address ← Reader.fixed 20
  let amount ← Reader.le 8
  let pubkey ← Reader.fixed 32
  let epoch ← Reader.le 8
  let kindByte ← Reader.byte
  let kind ← Reader.orFail (WithdrawalKind.tryFrom kindByte)
    (.invalid "PendingWithdrawal" "Invalid withdrawal kind")
  return { inner := { index, validatorIndex, address, amount }, pubkey, epoch, kind }

namespace WithdrawalQueue

def flatEncodeSize (deque : List PendingWithdrawal) : Nat :=
  4 + deque.length * PendingWithdrawal.size

def writeFlat (deque : List PendingWithdrawal) : List UInt8 :=
  beBytes 4 deque.length ++ deque.flatMap PendingWithdrawal.encode

/-- `count` entries of one list: of the right kind, with indexes below the next one that were not
seen before, and with epochs that do not decrease. Returns the entries and the indexes seen. -/
def readEntries (kind : WithdrawalKind) (nextIndex : Nat) :
    Nat → List Nat → Nat → Reader (List { w : PendingWithdrawal // w.kind = kind } × List Nat)
  | 0, indexes, _ => return ([], indexes)
  | count + 1, indexes, prevEpoch => do
    let withdrawal ← PendingWithdrawal.read
    if same : withdrawal.kind = kind then
      Reader.ensure (withdrawal.inner.index < nextIndex)
        (.invalid "WithdrawalQueue" "next_index must exceed pending withdrawal indexes")
      Reader.ensure (withdrawal.inner.index ∉ indexes)
        (.invalid "WithdrawalQueue" "duplicate withdrawal index")
      Reader.ensure (prevEpoch ≤ withdrawal.epoch)
        (.invalid "WithdrawalQueue" "withdrawal epochs must be non-decreasing")
      let (rest, seen) ←
        readEntries kind nextIndex count (withdrawal.inner.index :: indexes) withdrawal.epoch
      return (⟨withdrawal, same⟩ :: rest, seen)
    else
      Reader.fail (.invalid "WithdrawalQueue" "withdrawal kind does not match queue")

def readFlat (kind : WithdrawalKind) (nextIndex : Nat) (indexes : List Nat) :
    Reader (List { w : PendingWithdrawal // w.kind = kind } × List Nat) := do
  let count ← Reader.be 4
  readEntries kind nextIndex count indexes 0

def encodeSize (queue : WithdrawalQueue) : Nat :=
  8 + flatEncodeSize queue.withdrawals + flatEncodeSize queue.refunds

def encode (queue : WithdrawalQueue) : List UInt8 :=
  [beBytes 8 queue.nextIndex, writeFlat queue.withdrawals, writeFlat queue.refunds].flatten

/-- The counts per key of a decoded list. -/
def countPending (withdrawals : List PendingWithdrawal) : SortedMap Bytes32 Nat :=
  withdrawals.foldl (fun counts w => incrementPendingCount counts w.pubkey) .empty

theorem countsEntries_foldl (before withdrawals : List PendingWithdrawal)
    {counts : SortedMap Bytes32 Nat} (ok : CountsEntries counts before) :
    CountsEntries (withdrawals.foldl (fun counts w => incrementPendingCount counts w.pubkey) counts)
      (before ++ withdrawals) := by
  induction withdrawals generalizing before counts with
  | nil => simpa using ok
  | cons w rest ih =>
    have step := ih (before ++ [w]) (countsEntries_push ok w)
    rwa [List.append_assoc] at step

theorem countsEntries_countPending (withdrawals : List PendingWithdrawal) :
    CountsEntries (countPending withdrawals) withdrawals :=
  countsEntries_foldl [] withdrawals empty.counts

/-- The queue of two decoded lists. -/
def ofDeques (withdrawals : List { w : PendingWithdrawal // w.kind = .validator })
    (refunds : List { w : PendingWithdrawal // w.kind = .depositRefund }) (nextIndex : Nat) :
    WithdrawalQueue where
  withdrawals := withdrawals.map Subtype.val
  refunds := refunds.map Subtype.val
  nextIndex
  pendingPerPubkey := countPending (withdrawals.map Subtype.val)
  withdrawals_kind := by
    intro w member
    obtain ⟨found, -, rfl⟩ := List.mem_map.mp member
    exact found.property
  refunds_kind := by
    intro w member
    obtain ⟨found, -, rfl⟩ := List.mem_map.mp member
    exact found.property
  counts := countsEntries_countPending _

def read : Reader WithdrawalQueue := do
  let nextIndex ← Reader.be 8
  Reader.ensure (nextIndex ≠ u64Max) (.invalid "WithdrawalQueue" "next_index exhausted u64 space")
  let (withdrawals, indexes) ← readFlat .validator nextIndex []
  let (refunds, _) ← readFlat .depositRefund nextIndex indexes
  return ofDeques withdrawals refunds nextIndex

end WithdrawalQueue

/-! ### Checkpoints -/

section State

variable [Crypto]

namespace Checkpoint

/-- The container of an SSZ encoding: the offset of the data, the digest, the data. -/
def asSszBytes (checkpoint : Checkpoint) : List UInt8 :=
  [leBytes 4 36, checkpoint.digest.val, checkpoint.data].flatten

/-- The data has to start right after the fixed part, and to hash to the digest. -/
def fromSszBytes (bytes : List UInt8) : Option Checkpoint :=
  if bytes.length < 36 then none
  else if leNat (bytes.take 4) ≠ 36 then none
  else
    let data := bytes.drop 36
    let digest := bytesAt 32 bytes 4
    if Crypto.sha256 data ≠ digest then none else some { data, digest }

def encodeSize (checkpoint : Checkpoint) : Nat := checkpoint.data.length + 4 + 32 + 4

def encode (checkpoint : Checkpoint) : List UInt8 :=
  beBytes 4 checkpoint.asSszBytes.length ++ checkpoint.asSszBytes

def read : Reader Checkpoint := do
  let len ← Reader.be 4
  Reader.need len (.invalid "Checkpoint" "improper encoded length")
  let payload ← Reader.takeBytes len
  Reader.orFail (fromSszBytes payload)
    (.invalid "Checkpoint" "Unable to decode SSZ bytes for checkpoint")

end Checkpoint

/-! ### The state -/

/-- Bytes after their length. -/
def writeBytes (bytes : List UInt8) : List UInt8 := beBytes 4 bytes.length ++ bytes

def readBytes : Reader (List UInt8) := do
  let len ← Reader.be 4
  Reader.need len .endOfBuffer
  Reader.takeBytes len

/-- A list of values after its length. -/
def writeList {α : Type} (write : α → List UInt8) (values : List α) : List UInt8 :=
  beBytes 4 values.length ++ values.flatMap write

def readList {α : Type} (item : Reader α) : Reader (List α) := do
  let count ← Reader.be 4
  Reader.many item count

/-- A map after the number of its entries; a key read twice keeps the later value. -/
def readMap {K V : Type} [LinearOrder K] (item : Reader (K × V)) : Reader (SortedMap K V) := do
  let entries ← readList item
  return SortedMap.ofList entries

/-- A flag byte, and the value when it is set. -/
def writeOption {α : Type} (write : α → List UInt8) : Option α → List UInt8
  | none => [0]
  | some value => [1] ++ write value

def readOption {α : Type} (item : Reader α) : Reader (Option α) := do
  let flag ← Reader.byte
  if flag ≠ 0 then do
    let value ← item
    return some value
  else return none

def ForkchoiceState.encode (forkchoice : ForkchoiceState) : List UInt8 :=
  [forkchoice.headBlockHash.val, forkchoice.safeBlockHash.val,
   forkchoice.finalizedBlockHash.val].flatten

def ForkchoiceState.read : Reader ForkchoiceState := do
  let headBlockHash ← Reader.fixed 32
  let safeBlockHash ← Reader.fixed 32
  let finalizedBlockHash ← Reader.fixed 32
  return { headBlockHash, safeBlockHash, finalizedBlockHash }

def writeAccount (entry : Bytes32 × ValidatorAccount) : List UInt8 :=
  entry.1.val ++ entry.2.encode

def readAccount : Reader (Bytes32 × ValidatorAccount) := do
  let key ← Reader.fixed 32
  let account ← ValidatorAccount.read
  return (key, account)

def writeAdded (entry : Nat × List AddedValidator) : List UInt8 :=
  beBytes 8 entry.1 ++ writeList AddedValidator.encode entry.2

def readAdded : Reader (Nat × List AddedValidator) := do
  let key ← Reader.be 8
  let validators ← readList AddedValidator.read
  return (key, validators)

namespace StateData

/-- The encoding of the data, of the execution block number of the last capture and of its
snapshot. -/
def encodeWith (data : StateData) (proofElBlockNumber : Nat)
    (capturedBytes : Option (List UInt8)) : List UInt8 :=
  [beBytes 8 data.epoch,
   beBytes 8 data.view,
   beBytes 8 data.latestHeight,
   writeList DepositRequest.encode data.depositQueue,
   data.withdrawalQueue.encode,
   writeList ProtocolParam.encode data.protocolParamChanges,
   writeList writeAccount data.validatorAccounts.entries,
   writeOption Checkpoint.encode data.pendingCheckpoint,
   writeList writeAdded data.addedValidators.entries,
   writeList (fun key : PublicKey => key.val.val) data.removedValidators,
   writeList writeBytes data.pendingExecutionRequests,
   data.forkchoice.encode,
   data.epochGenesisHash.val,
   data.headDigest.val,
   beBytes 8 data.validatorMinimumStake,
   beBytes 8 data.allowedTimestampFutureMs,
   data.treasuryAddress.val,
   beBytes 8 data.maxDepositsPerEpoch,
   beBytes 8 data.maxWithdrawalsPerEpoch,
   beBytes 4 data.observersPerValidator,
   beBytes 8 data.maxValidatorCount,
   beBytes 8 data.minimumValidatorCount,
   beBytes 8 data.pendingActiveValidatorExits,
   beBytes 8 data.invalidDepositTax,
   beBytes 8 data.maxPendingWithdrawalsPerValidator,
   data.epocher.encode,
   beBytes 8 proofElBlockNumber,
   writeOption writeBytes capturedBytes].flatten

/-- `encode_size`, as the source adds it up. -/
def encodeSizeWith (data : StateData) (capturedBytes : Option (List UInt8)) : Nat :=
  8 + 8 + 8
  + 4 + (data.depositQueue.map fun _ => DepositRequest.size).sum
  + data.withdrawalQueue.encodeSize
  + 4 + (data.protocolParamChanges.map ProtocolParam.encodeSize).sum
  + 4 + (data.validatorAccounts.entries.map fun _ => 32 + ValidatorAccount.size).sum
  + 1 + data.pendingCheckpoint.elim 0 Checkpoint.encodeSize
  + 4 + (data.addedValidators.values.map fun validators =>
      8 + 4 + (validators.map fun _ => 32 + 48).sum).sum
  + 4 + (data.removedValidators.map fun _ => 32).sum
  + 4 + (data.pendingExecutionRequests.map fun request => 4 + request.length).sum
  + 32 + 32 + 32 + 32 + 32 + 8 + 8 + 20 + 8 + 1
  + capturedBytes.elim 0 (fun bytes => 4 + bytes.length)
  + 8 + 8 + 4 + 8 + 8 + 8 + 8 + 8
  + (8 + 4 + data.epocher.segments.length * (8 + 8 + 8))

/-- The refusal of a field of the state. -/
def outOfBounds (why : String) : ReadError := .invalid "ConsensusState" why

/-- The data fields, the execution block number of the last capture and its snapshot. -/
def read : Reader (StateData × Nat × Option (List UInt8)) := do
  let epoch ← Reader.be 8
  let view ← Reader.be 8
  let latestHeight ← Reader.be 8
  let depositQueue ← readList DepositRequest.read
  let withdrawalQueue ← WithdrawalQueue.read
  let protocolParamChanges ← readList ProtocolParam.read
  let validatorAccounts ← readMap readAccount
  let pendingCheckpoint ← readOption Checkpoint.read
  let addedValidators ← readMap readAdded
  let removedValidators ← readList PublicKey.read
  let pendingExecutionRequests ← readList readBytes
  let forkchoice ← ForkchoiceState.read
  let epochGenesisHash ← Reader.fixed 32
  let headDigest ← Reader.fixed 32
  let validatorMinimumStake ← Reader.be 8
  let allowedTimestampFutureMs ← Reader.be 8
  Reader.ensure (minAllowedTimestampFutureMs ≤ allowedTimestampFutureMs ∧
      allowedTimestampFutureMs ≤ maxAllowedTimestampFutureMs)
    (outOfBounds "allowed timestamp future out of bounds")
  let treasuryAddress ← Reader.fixed 20
  let maxDepositsPerEpoch ← Reader.be 8
  Reader.ensure (maxDepositsPerEpoch ≤ maxMaxDepositsPerEpoch)
    (outOfBounds "max deposits per epoch out of bounds")
  let maxWithdrawalsPerEpoch ← Reader.be 8
  Reader.ensure (maxWithdrawalsPerEpochMin ≤ maxWithdrawalsPerEpoch ∧
      maxWithdrawalsPerEpoch ≤ maxWithdrawalsPerEpochMax)
    (outOfBounds "max withdrawals per epoch out of bounds")
  let observersPerValidator ← Reader.be 4
  Reader.ensure (observersPerValidator ≤ maxObserversPerValidator)
    (outOfBounds "observers per validator out of bounds")
  let maxValidatorCount ← Reader.be 8
  Reader.ensure (minMaxValidatorCount ≤ maxValidatorCount ∧
      maxValidatorCount ≤ maxMaxValidatorCount)
    (outOfBounds "max validator count out of bounds")
  let minimumValidatorCount ← Reader.be 8
  Reader.ensure (minimumValidatorCount ≠ 0)
    (outOfBounds "minimum validator count out of bounds")
  Reader.ensure (minimumValidatorCount ≤ maxValidatorCount)
    (outOfBounds "minimum validator count exceeds max validator count")
  let pendingActiveValidatorExits ← Reader.be 8
  Reader.ensure (pendingActiveValidatorExits ≤
      validatorAccounts.entries.countP fun entry => entry.2.status.isCurrentEpochSigner)
    (outOfBounds "pending active validator exits exceeds active validator count")
  let invalidDepositTax ← Reader.be 8
  Reader.ensure (invalidDepositTax ≤ maxInvalidDepositTax)
    (outOfBounds "invalid deposit tax out of bounds")
  let maxPendingWithdrawalsPerValidator ← Reader.be 8
  Reader.ensure (maxPendingWithdrawalsPerValidatorMin ≤ maxPendingWithdrawalsPerValidator ∧
      maxPendingWithdrawalsPerValidator ≤ maxPendingWithdrawalsPerValidatorMax)
    (outOfBounds "max pending withdrawals per validator out of bounds")
  let epocher ← DynamicEpocher.read
  let proofElBlockNumber ← Reader.be 8
  let capturedBytes ← readOption readBytes
  return ({
    epoch, view, latestHeight, headDigest, depositQueue, withdrawalQueue, validatorAccounts,
    protocolParamChanges, pendingCheckpoint, addedValidators, removedValidators,
    pendingExecutionRequests, forkchoice, epochGenesisHash, validatorMinimumStake,
    allowedTimestampFutureMs, treasuryAddress, maxDepositsPerEpoch, maxWithdrawalsPerEpoch,
    observersPerValidator, maxValidatorCount, minimumValidatorCount, pendingActiveValidatorExits,
    invalidDepositTax, maxPendingWithdrawalsPerValidator, epocher },
    proofElBlockNumber, capturedBytes)

end StateData

namespace ConsensusState

def encode (s : ConsensusState) : List UInt8 :=
  s.toStateData.encodeWith s.proofElBlockNumber s.capturedBytes

def encodeSize (s : ConsensusState) : Nat := s.toStateData.encodeSizeWith s.capturedBytes

/-- What a decoded snapshot freezes in the state it was nested in. -/
def withSnapshot (s inner : ConsensusState) : ConsensusState :=
  { s with
    proofTree := inner.proofTree
    stateRoot := inner.proofTree.root
    proofValidatorKeys := inner.validatorAccounts.keys }

/-- Read a state whose snapshots are nested at most `depth` deep. -/
def readNested : Nat → Reader ConsensusState
  | 0 => Reader.fail .endOfBuffer
  | depth + 1 => do
    let (data, proofElBlockNumber, capturedBytes) ← StateData.read
    let state := ofData data proofElBlockNumber capturedBytes
    match capturedBytes with
    | none => return state
    | some bytes =>
      match Reader.decode (readNested depth) bytes with
      | .ok inner => return state.withSnapshot inner
      | .error error => Reader.fail error

/-- Read a state. A snapshot is shorter than the buffer it lies in, so the length of the buffer
bounds the depth. -/
def read : Reader ConsensusState := fun buffer => (readNested buffer.length).run buffer

/-- Refresh the schedule leaf, freeze the tree and its root, and keep the encoding of the state
with nothing captured as the snapshot. -/
def captureStateRoot (s : ConsensusState) (elBlockNumber : Nat) : ConsensusState :=
  { s.toLiveState.refreshSchedule with
    stateRoot := s.toLiveState.refreshSchedule.sszTree.root
    proofTree := s.toLiveState.refreshSchedule.sszTree
    proofValidatorKeys := s.validatorAccounts.keys
    proofElBlockNumber := elBlockNumber
    capturedBytes := some (s.toStateData.encodeWith elBlockNumber none) }

end ConsensusState

/-! ### Checkpoints of states -/

/-- The checkpoint of a state. -/
def Checkpoint.new (s : ConsensusState) : Checkpoint :=
  { data := s.encode, digest := Crypto.sha256 s.encode }

/-- The state in a checkpoint whose digest matches and that has no checkpoint pending itself. -/
def ConsensusState.tryFrom (checkpoint : Checkpoint) : Except ReadError ConsensusState :=
  if Crypto.sha256 checkpoint.data ≠ checkpoint.digest then
    .error (.invalid "Checkpoint" "Digest verification failed")
  else match ConsensusState.read.run checkpoint.data with
    | .error error => .error error
    | .ok (state, _) =>
      if state.pendingCheckpoint.isSome then
        .error (.invalid "Checkpoint" "Pending checkpoint not allowed")
      else .ok state

end State

end Summit
