/-
**Proposing and verifying blocks**: `handle_proposal` and `handle_verify` of the application actor,
and `handle_aux_data_mailbox`, by which both ask the finalizer what the child of a parent has to
carry.

A leader builds a block from the state of its parent and a payload of the execution layer; a voter
compares the block it receives with its own state of the same parent. The mailboxes of the syncer
and the finalizer are functions here, and the clock is the list of its readings. The payload types
and the split of a millisecond timestamp belong to libraries: `Payloads` holds them. Heights and
epochs are natural numbers; the clock can be any 64-bit number, so where it is added to, the sum
wraps around or saturates as in the source.
-/

import Summit.Model.Actor

set_option linter.unusedSectionVars false

namespace Summit

open Bytes

/-- The sum of two 64-bit numbers in a release build. -/
def wrappingAdd (a b : Nat) : Nat := (a + b) % 2 ^ 64

structure Round where
  epoch : Nat
  view : Nat
  deriving DecidableEq

/-! ### Blocks -/

/-- What is read of an `ExecutionPayloadV3`. -/
structure ExecutionPayload where
  parentHash : Bytes32
  feeRecipient : Address
  prevRandao : Bytes32
  blockNumber : Nat
  /-- In seconds. -/
  timestamp : Nat
  extraData : List UInt8
  blockHash : Bytes32
  withdrawals : List Withdrawal
  blobGasUsed : Nat
  /-- The fields that are not read, encoded. -/
  rest : List UInt8
  deriving DecidableEq

/-- The libraries of the execution payload. -/
class Payloads where
  /-- `as_ssz_bytes` of a payload. -/
  asSszBytes : ExecutionPayload → List UInt8
  /-- `header_timestamp_millis`: the seconds of a payload and the prefix of its extra data. -/
  headerTimestampMillis : Nat → List UInt8 → Option Nat
  /-- The payload of the default block. -/
  default : ExecutionPayload

/-- Stand-ins to evaluate the model with: the extra data is not read, a second has no parts. -/
@[reducible] def Payloads.plain : Payloads where
  asSszBytes payload := payload.blockHash.val ++ payload.rest
  headerTimestampMillis seconds _ := some (seconds * 1000)
  default :=
    { parentHash := zeroChunk, feeRecipient := FixedBytes.zero 20, prevRandao := zeroChunk
      blockNumber := 0, timestamp := 0, extraData := [], blockHash := zeroChunk, withdrawals := []
      blobGasUsed := 0, rest := [] }

/-- The offsets of variable-size items whose first one starts at `start`. -/
def sszOffsets : Nat → List (List UInt8) → List Nat
  | _, [] => []
  | start, item :: rest => start :: sszOffsets (start + item.length) rest

/-- `as_ssz_bytes` of a list of byte strings. -/
def requestsSsz (requests : List (List UInt8)) : List UInt8 :=
  (sszOffsets (4 * requests.length) requests).flatMap (leBytes 4) ++ requests.flatten

section Application

variable [Crypto] [Payloads]

/-- A whole block; `Block` is what the finalizer reads of it. -/
structure FullBlock where
  header : Header
  payload : ExecutionPayload
  executionRequests : List (List UInt8)

namespace FullBlock

def parent (block : FullBlock) : Digest := block.header.parent

def height (block : FullBlock) : Nat := block.header.height

def digest (block : FullBlock) : Digest := block.header.getDigest

def timestamp (block : FullBlock) : Nat := block.header.timestamp

def view (block : FullBlock) : Nat := block.header.view

def epoch (block : FullBlock) : Nat := block.header.epoch

def payloadTimestampMillis (block : FullBlock) : Option Nat :=
  Payloads.headerTimestampMillis block.payload.timestamp block.payload.extraData

/-- The genesis block is its own execution block. -/
def ethBlockHash (block : FullBlock) : Bytes32 :=
  if block.height = 0 then block.digest else block.payload.blockHash

def ethParentHash (block : FullBlock) : Bytes32 := block.payload.parentHash

def computeDigest (parent : Digest) (height timestamp : Nat) (payload : ExecutionPayload)
    (executionRequests : List (List UInt8)) (epoch view : Nat) (checkpointHash : Option Digest)
    (prevEpochHeaderHash : Digest) (addedValidators : List AddedValidator)
    (removedValidators : List PublicKey) (parentBeaconBlockRoot : Bytes32) : FullBlock where
  header :=
    { parent, height, timestamp, epoch, view
      payloadHash := Crypto.sha256 (Payloads.asSszBytes payload)
      executionRequestHash :=
        if executionRequests ≠ [] then Crypto.sha256 (requestsSsz executionRequests) else zeroChunk
      checkpointHash := checkpointHash.getD zeroChunk
      prevEpochHeaderHash, addedValidators, removedValidators, parentBeaconBlockRoot
      cached := none }
  payload := payload
  executionRequests := executionRequests

/-- The genesis block, with the given hash as its digest. -/
def genesis (genesisHash : Bytes32) : FullBlock where
  header :=
    { parent := genesisHash, height := 0, timestamp := 0, epoch := 0, view := 1
      payloadHash := Crypto.sha256 (Payloads.asSszBytes Payloads.default)
      executionRequestHash := zeroChunk, checkpointHash := zeroChunk
      prevEpochHeaderHash := zeroChunk, addedValidators := [], removedValidators := []
      parentBeaconBlockRoot := zeroChunk, cached := some genesisHash }
  payload := Payloads.default
  executionRequests := []

/-- `encode_size`: the length prefix, and each of the three parts behind its offset. -/
def encodeSize (block : FullBlock) : Nat :=
  (4 + block.header.asSszBytes.length) + (4 + (Payloads.asSszBytes block.payload).length) +
    (4 + (block.executionRequests.map fun request => 4 + request.length).sum) + 4

/-- The block as the finalizer reads it. -/
def toBlock (block : FullBlock) : Block where
  epoch := block.epoch
  height := block.height
  view := block.view
  digest := block.digest
  parent := block.parent
  ethBlockHash := block.ethBlockHash
  blockNumber := block.payload.blockNumber
  withdrawals := block.payload.withdrawals
  executionRequests := block.executionRequests

end FullBlock

def maxBlockSizeBytes (maxMessageSizeBytes : Nat) : Nat := maxMessageSizeBytes / 2

/-- The size of a block that is too large to be sent, with the limit. -/
def blockSizeLimitViolation (block : FullBlock) (maxMessageSizeBytes : Nat) : Option (Nat × Nat) :=
  if block.encodeSize < maxBlockSizeBytes maxMessageSizeBytes then none
  else some (block.encodeSize, maxBlockSizeBytes maxMessageSizeBytes)

/-! ### What a child has to carry -/

structure BlockAuxData where
  epoch : Nat
  withdrawals : List Withdrawal
  checkpointHash : Option Digest
  headerHash : Digest
  addedValidators : List AddedValidator
  removedValidators : List PublicKey
  forkchoice : ForkchoiceState
  suggestedFeeRecipient : Address
  treasuryAddress : Address
  stateRoot : Bytes32
  allowedTimestampFutureMs : Nat

/-- A node's own settings, and the last finalized header in its database. -/
structure AuxEnv where
  genesisHash : Digest
  nodePublicKey : PublicKey
  mostRecentFinalizedHeader : Option FinalizedHeader

namespace Finalizer

/-- The state of a parent: its fork state, or the canonical state when it is the head. -/
def stateOf (s : Finalizer) (height : Nat) (digest : Digest) : Option ConsensusState :=
  match s.forkAt height digest with
  | some fork => some fork.consensusState
  | none =>
    if height = s.canonicalState.latestHeight ∧ digest = s.canonicalState.headDigest then
      some s.canonicalState
    else none

/-- Fees go to the treasury, or to the validator itself when there is none. -/
def suggestedFeeRecipient (env : AuxEnv) (state : ConsensusState) : Address :=
  if state.treasuryAddress = FixedBytes.zero 20 then
    ((state.getAccount env.nodePublicKey.val).map ValidatorAccount.withdrawalCredentials).getD
      (FixedBytes.zero 20)
  else state.treasuryAddress

/-- The previous epoch's last header, or genesis. -/
def prevHeaderHash (env : AuxEnv) : Digest :=
  match env.mostRecentFinalizedHeader with
  | some finalized => finalized.header.getDigest
  | none => env.genesisHash

/-- The aux data of a child at `height`, from the state of its parent. Whether the child is the last
block of its epoch is read off the canonical schedule; the fork choice has the parent as its head
and the canonical finalized block below it. -/
def auxDataOf (env : AuxEnv) (s : Finalizer) (height : Nat) (state : ConsensusState) :
    Option BlockAuxData :=
  let forkchoice : ForkchoiceState :=
    { headBlockHash := state.forkchoice.headBlockHash
      safeBlockHash := s.canonicalState.forkchoice.finalizedBlockHash
      finalizedBlockHash := s.canonicalState.forkchoice.finalizedBlockHash }
  if s.canonicalState.epocher.isLastBlockOfEpoch height then
    -- without a pending checkpoint the last block is left to the other validators
    state.pendingCheckpoint.map fun checkpoint =>
      { epoch := state.epoch
        withdrawals := state.emitWithdrawalPayouts state.epoch
        checkpointHash := some checkpoint.digest
        headerHash := prevHeaderHash env
        addedValidators := (state.getAddedValidators (state.epoch + 1)).getD []
        removedValidators := state.getRemovedValidators
        forkchoice
        suggestedFeeRecipient := suggestedFeeRecipient env state
        treasuryAddress := state.treasuryAddress
        stateRoot := state.stateRoot
        allowedTimestampFutureMs := state.allowedTimestampFutureMs }
  else
    some
      { epoch := state.epoch
        withdrawals := []
        checkpointHash := none
        headerHash := zeroChunk
        addedValidators := []
        removedValidators := []
        forkchoice
        suggestedFeeRecipient := suggestedFeeRecipient env state
        treasuryAddress := state.treasuryAddress
        stateRoot := state.stateRoot
        allowedTimestampFutureMs := state.allowedTimestampFutureMs }

def handleAuxDataMailbox (env : AuxEnv) (s : Finalizer) (height : Nat) (parentDigest : Digest) :
    Option BlockAuxData :=
  (s.stateOf (height - 1) parentDigest).bind (s.auxDataOf env height)

end Finalizer

/-! ### Verifying -/

/-- The bytes that a list of requests is ordered by. -/
def requestType (request : List UInt8) : UInt8 := request.headD 0

/-- The loop over the requests, with the type of the request before. -/
def ascendingFrom : Option UInt8 → List (List UInt8) → Bool
  | _, [] => true
  | prev, request :: rest =>
    if request.length ≤ 1 then false
    else if prev.any fun type => decide (requestType request ≤ type) then false
    else ascendingFrom (some (requestType request)) rest

def executionRequestsAscending (requests : List (List UInt8)) : Bool := ascendingFrom none requests

/-- The parent view that was signed is that of the parent, or zero where an epoch opens. -/
def signedParentViewAgrees (round : Round) (parent : FullBlock) (signedParentView : Nat) : Bool :=
  if signedParentView = 0 then decide (parent.height = 0 ∨ parent.epoch + 1 = round.epoch)
  else decide (parent.epoch = round.epoch ∧ parent.view = signedParentView)

/-- Whether to vote for a block; `none` where the source panics. -/
def handleVerify (round : Round) (block parent : FullBlock) (signedParentView : Nat)
    (epocher : DynamicEpocher) (auxData : BlockAuxData) (nowMillis maxMessageSizeBytes : Nat) :
    Option Bool :=
  if round.epoch ≠ auxData.epoch then some false
  else if (blockSizeLimitViolation block maxMessageSizeBytes).isSome then some false
  else (epocher.last auxData.epoch).map fun lastInEpoch =>
    -- the last block of an epoch, and no other, is proposed again
    if parent.digest = block.digest then decide (block.height = lastInEpoch)
    else if !signedParentViewAgrees round parent signedParentView then false
    else if block.height > lastInEpoch then false
    else if block.view ≠ round.view then false
    else if block.epoch ≠ round.epoch then false
    else if block.parent ≠ parent.digest then false
    else if block.ethParentHash ≠ parent.ethBlockHash then false
    else if block.height ≠ parent.height + 1 then false
    else if block.timestamp ≤ parent.timestamp then false
    else if block.timestamp > wrappingAdd nowMillis auxData.allowedTimestampFutureMs then false
    else if block.header.prevEpochHeaderHash ≠ auxData.headerHash then false
    else if block.payload.blockNumber ≠ block.height then false
    else if block.payloadTimestampMillis ≠ some block.timestamp then false
    else if block.header.parentBeaconBlockRoot ≠ auxData.stateRoot then false
    -- without a treasury the proposer is free to choose
    else if auxData.treasuryAddress ≠ FixedBytes.zero 20 ∧
        block.payload.feeRecipient ≠ auxData.treasuryAddress then false
    else if block.header.checkpointHash ≠ auxData.checkpointHash.getD zeroChunk then false
    else if block.header.addedValidators ≠ auxData.addedValidators then false
    else if block.header.removedValidators ≠ auxData.removedValidators then false
    else if block.payload.withdrawals ≠ auxData.withdrawals then false
    else if !executionRequestsAscending block.executionRequests then false
    else if block.payload.prevRandao ≠ zeroChunk then false
    else if block.payload.blobGasUsed > 0 then false
    else true

/-! ### Proposing -/

/-- `Duration::from_millis`, in nanoseconds. -/
def fromMillis (millis : Nat) : Nat := millis * 1000000

/-- How long to wait until a timestamp is one that the verifiers accept. -/
def proposalTimestampWait (nowMillis minChildTimestamp allowedTimestampFutureMs : Nat) : Nat :=
  fromMillis (minChildTimestamp - saturatingAdd nowMillis allowedTimestampFutureMs)

def selectProposalTimestamp (nowMillis minChildTimestamp : Nat) : Nat :=
  max nowMillis minChildTimestamp

def proposalWaitExceedsLeaderWindow (wait leaderTimeout : Nat) : Bool := wait > leaderTimeout

/-- The reading of the clock that ends the wait for the timestamp. -/
def endOfWait (minChildTimestamp allowedTimestampFutureMs : Nat) (readings : List Nat) :
    Option Nat :=
  readings.find? fun now =>
    proposalTimestampWait now minChildTimestamp allowedTimestampFutureMs = 0

structure PayloadEnvelope where
  executionPayload : ExecutionPayload
  executionRequests : List (List UInt8)

/-- The execution layer as a leader uses it; the outer `none` is an error of the client, and
payloads are named by numbers. -/
structure Builder where
  startBuildingBlock : ForkchoiceState → Nat → List Withdrawal → Address → Bytes32 →
    Option (Option Nat)
  getPayload : Nat → Option PayloadEnvelope

/-- The answers of the syncer and the finalizer, and the clock: its first reading and those of the
wait. -/
structure ProposalEnv where
  subscribe : Digest → Option FullBlock
  notifyAtHeight : Nat → Digest → Bool
  getAuxData : Nat → Digest → Option BlockAuxData
  builder : Builder
  now : Nat
  readings : List Nat

structure ApplicationConfig where
  genesisHash : Bytes32
  maxMessageSizeBytes : Nat
  /-- In nanoseconds. -/
  leaderTimeout : Nat

/-- Why no block is proposed; `halted` stands for a panic, and `waiting` for a wait that the
readings of the clock do not end. -/
inductive ProposalError where
  | subscriptionCanceled
  | outdatedHeightNotification (epoch height : Nat)
  | outdatedAuxData (epoch height : Nat)
  | otherEpoch (height epoch current : Nat)
  | blockSize (height size limit : Nat)
  | timestampOverflow
  | exceedsLeaderTimeout (wait timeout : Nat)
  | startBuildingBlock
  | noPayload
  | getPayload
  | halted
  | waiting
  deriving DecidableEq

def ensureProposedBlockWithinP2pLimit (config : ApplicationConfig) (block : FullBlock) :
    Except ProposalError FullBlock :=
  match blockSizeLimitViolation block config.maxMessageSizeBytes with
  | some (size, limit) => .error (.blockSize block.height size limit)
  | none => .ok block

/-- The parent of a proposal. -/
def fetchParent (config : ApplicationConfig) (env : ProposalEnv) (parentDigest : Digest) :
    Except ProposalError FullBlock :=
  if parentDigest = config.genesisHash then .ok (FullBlock.genesis config.genesisHash)
  else match env.subscribe parentDigest with
    | some block => .ok block
    | none => .error .subscriptionCanceled

/-- Wait until a timestamp after that of the parent is acceptable, and choose it. -/
def chooseTimestamp (config : ApplicationConfig) (env : ProposalEnv) (parent : FullBlock)
    (auxData : BlockAuxData) : Except ProposalError Nat :=
  match checkedAdd parent.timestamp 1 with
  | none => .error .timestampOverflow
  | some minChildTimestamp =>
    let wait := proposalTimestampWait env.now minChildTimestamp auxData.allowedTimestampFutureMs
    if proposalWaitExceedsLeaderWindow wait config.leaderTimeout then
      .error (.exceedsLeaderTimeout wait config.leaderTimeout)
    else match endOfWait minChildTimestamp auxData.allowedTimestampFutureMs env.readings with
      | none => .error .waiting
      | some now => .ok (selectProposalTimestamp now minChildTimestamp)

/-- Have the execution layer build a payload. -/
def buildPayload (env : ProposalEnv) (auxData : BlockAuxData) (timestamp : Nat) :
    Except ProposalError PayloadEnvelope :=
  match env.builder.startBuildingBlock auxData.forkchoice timestamp auxData.withdrawals
      auxData.suggestedFeeRecipient auxData.stateRoot with
  | none => .error .startBuildingBlock
  | some none => .error .noPayload
  | some (some payloadId) =>
    match env.builder.getPayload payloadId with
    | none => .error .getPayload
    | some envelope => .ok envelope

/-- The requests of a payload in the order of their types. -/
def sortRequests (requests : List (List UInt8)) : List (List UInt8) :=
  requests.insertionSort fun lhs rhs => requestType lhs ≤ requestType rhs

/-- The block that a leader makes of a payload. -/
def sealBlock (round : Round) (parent : FullBlock) (auxData : BlockAuxData) (timestamp : Nat)
    (envelope : PayloadEnvelope) : FullBlock :=
  FullBlock.computeDigest parent.digest (parent.height + 1) timestamp envelope.executionPayload
    (sortRequests envelope.executionRequests) round.epoch round.view auxData.checkpointHash
    auxData.headerHash auxData.addedValidators auxData.removedValidators auxData.stateRoot

/-- A new block on the parent. -/
def proposeChild (config : ApplicationConfig) (env : ProposalEnv) (round : Round)
    (parent : FullBlock) (auxData : BlockAuxData) : Except ProposalError FullBlock :=
  match chooseTimestamp config env parent auxData with
  | .error error => .error error
  | .ok timestamp =>
    match buildPayload env auxData timestamp with
    | .error error => .error error
    | .ok envelope =>
      ensureProposedBlockWithinP2pLimit config (sealBlock round parent auxData timestamp envelope)

/-- The block to propose on a parent; the last block of an epoch is proposed again. -/
def handleProposal (config : ApplicationConfig) (epocher : DynamicEpocher) (env : ProposalEnv)
    (round : Round) (parentDigest : Digest) : Except ProposalError FullBlock :=
  match fetchParent config env parentDigest with
  | .error error => .error error
  | .ok parent =>
    if !env.notifyAtHeight parent.height parent.digest then
      .error (.outdatedHeightNotification round.epoch (parent.height + 1))
    else match env.getAuxData (parent.height + 1) parent.digest with
      | none => .error (.outdatedAuxData round.epoch (parent.height + 1))
      | some auxData =>
        if auxData.epoch ≠ round.epoch then
          .error (.otherEpoch (parent.height + 1) round.epoch auxData.epoch)
        else match epocher.last auxData.epoch with
          | none => .error .halted
          | some lastInEpoch =>
            if parent.height = lastInEpoch then ensureProposedBlockWithinP2pLimit config parent
            else proposeChild config env round parent auxData

end Application

end Summit
