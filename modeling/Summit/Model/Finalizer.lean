/-
**The finalizer's steps on the consensus state**: `execute_block`, the epoch boundary of
`handle_finalized_block` and the restore of a checkpoint.

The execution layer is outside the repository: `Engine` holds its answers. A block that was executed
speculatively when it was notarized differs from one executed at finalization only in the hashes
sent to the execution layer, so one function models both.
-/

import Summit.Model.Codec

set_option linter.unusedSectionVars false

namespace Summit

open Bytes

/-- What the finalizer reads of a block. -/
structure Block where
  epoch : Nat
  height : Nat
  view : Nat
  digest : Digest
  parent : Digest
  ethBlockHash : Bytes32
  /-- The block number of the execution payload. -/
  blockNumber : Nat
  /-- The withdrawals of the execution payload. -/
  withdrawals : List Withdrawal
  executionRequests : List (List UInt8)
  deriving DecidableEq

inductive PayloadStatus where
  | valid
  | invalid
  | syncing
  | accepted
  deriving DecidableEq, Repr

/-- The answers of the execution layer; `none` is an error of the client. -/
structure Engine where
  checkPayload : Block → Option PayloadStatus
  commitHash : ForkchoiceState → Option PayloadStatus

structure ProtocolConsts where
  validatorNumWarmUpEpochs : Nat
  validatorWithdrawalNumEpochs : Nat
  deriving DecidableEq

/-- What became of a block; `halted` stands for a panic. -/
inductive ExecuteOutcome (State : Type) where
  | applied (state : State)
  | syncing
  | invalidPayload
  | engineError
  | halted

section Finalizer

variable [Crypto]

/-- The processing of the buffered requests at the penultimate block and the payouts of the
terminal one. -/
def LiveState.processExecutionRequests (consts : ProtocolConsts) (domain : Digest) (block : Block)
    (s : LiveState) : Option LiveState :=
  let processed :=
    if s.epocher.isPenultimateBlockOfEpoch block.height then
      (s.processBufferedRequests domain consts.validatorNumWarmUpEpochs
        consts.validatorWithdrawalNumEpochs).enforceMinimumStake
    else s
  if processed.epocher.isLastBlockOfEpoch block.height then
    processed.applyWithdrawalPayouts processed.epoch block.withdrawals
  else some processed

/-- The changes of a block to the live state, up to the checkpoint. -/
def LiveState.applyBlock (consts : ProtocolConsts) (domain : Digest) (s : LiveState)
    (block : Block) : Option LiveState :=
  (((s.setForkchoiceHead block.ethBlockHash).bufferExecutionRequests block.executionRequests)
    |>.processExecutionRequests consts domain block).map fun processed =>
      ((processed.setLatestHeight block.height).setView block.view).setHeadDigest block.digest

namespace ConsensusState

/-- The checkpoint of the penultimate block, made pending. -/
def withCheckpoint (s : ConsensusState) (block : Block) : ConsensusState :=
  if s.epocher.isPenultimateBlockOfEpoch block.height then
    s.withLive (s.toLiveState.setPendingCheckpoint (some (Checkpoint.new s)))
  else s

/-- The end of a block: the checkpoint, then the normal form of the fork choice, then the capture. -/
def finishBlock (s : ConsensusState) (block : Block) : ConsensusState :=
  let kept := s.withCheckpoint block
  (kept.withLive (kept.toLiveState.setForkchoiceSafeAndFinalized kept.forkchoice.headBlockHash))
    |>.captureStateRoot block.blockNumber

/-- The withdrawals a block has to carry. -/
def expectedWithdrawals (s : ConsensusState) (block : Block) : List Withdrawal :=
  if s.epocher.isLastBlockOfEpoch block.height then s.emitWithdrawalPayouts s.epoch else []

/-- Execute a block. `forkFinalized` is the finalized hash to send along for a speculative block. -/
def executeBlock (engine : Engine) (consts : ProtocolConsts) (domain : Digest)
    (forkFinalized : Option Bytes32) (s : ConsensusState) (block : Block) :
    ExecuteOutcome ConsensusState :=
  if block.epoch ≠ s.epoch then .invalidPayload
  else match engine.checkPayload block with
    | none => .engineError
    | some .syncing => .syncing
    | some .invalid | some .accepted => .invalidPayload
    | some .valid =>
      if block.withdrawals ≠ s.expectedWithdrawals block then .invalidPayload
      else
        let safeFinalized := forkFinalized.getD block.ethBlockHash
        match engine.commitHash
            { headBlockHash := block.ethBlockHash
              safeBlockHash := safeFinalized
              finalizedBlockHash := safeFinalized } with
        | none => .engineError
        | some .syncing => .syncing
        | some .invalid | some .accepted => .invalidPayload
        | some .valid =>
          match s.toLiveState.applyBlock consts domain block with
          | none => .halted
          | some live => .applied ((s.withLive live).finishBlock block)

end ConsensusState

/-- Enter the next epoch and clear the committee changes that the boundary has applied. -/
def LiveState.enterNextEpoch (s : LiveState) (digest : Digest) : LiveState :=
  let nextEpoch := s.epoch + 1
  let entered := (s.setEpoch nextEpoch).setView 0
  let advanced := entered.setEpocher (entered.epocher.advanceEpoch nextEpoch)
  let cleared := (advanced.setEpochGenesisHash digest).removeAddedValidatorsForEpoch nextEpoch
  if cleared.removedValidators ≠ [] then cleared.clearRemovedValidators else cleared

/-- The live part of the epoch boundary, with the checkpoint that is stored. -/
def LiveState.boundary (nodePublicKey : PublicKey) (s : LiveState) (digest : Digest) :
    Option (LiveState × Option Checkpoint) :=
  s.applyProtocolParameterChanges.bind fun changed =>
    (changed.1.applyCommitteeTransition nodePublicKey).map fun moved =>
      (moved.1.takePendingCheckpoint.2.enterNextEpoch digest, moved.1.takePendingCheckpoint.1)

namespace ConsensusState

/-- The epoch boundary after the terminal block; `none` where the source panics. -/
def epochBoundary (nodePublicKey : PublicKey) (s : ConsensusState) (block : Block) :
    Option (ConsensusState × Option Checkpoint) :=
  (s.toLiveState.boundary nodePublicKey block.digest).map fun result =>
    ((s.withLive result.1).captureStateRoot block.blockNumber, result.2)

/-- What finalization does to the state a block was executed to. -/
def finalizeExecuted (nodePublicKey : PublicKey) (s : ConsensusState) (block : Block) :
    Option (ConsensusState × Option Checkpoint) :=
  let finalized :=
    s.withLive (s.toLiveState.setForkchoiceSafeAndFinalized s.forkchoice.headBlockHash)
  if finalized.epocher.isLastBlockOfEpoch block.height then
    finalized.epochBoundary nodePublicKey block
  else some (finalized, none)

/-- The state a node starts from with a checkpoint: the decoded state with the checkpoint pending,
captured at its height. -/
def restoreStateFromCheckpoint (checkpoint : Checkpoint) : Except ReadError ConsensusState :=
  match ConsensusState.tryFrom checkpoint with
  | .error error => .error error
  | .ok state =>
    .ok ((state.withLive (state.toLiveState.setPendingCheckpoint (some checkpoint)))
      |>.captureStateRoot state.latestHeight)

end ConsensusState

/-! ### Genesis -/

structure Validator where
  nodePublicKey : PublicKey
  consensusPublicKey : BlsPublicKey
  withdrawalCredentials : Address

/-- The fields of the genesis file that the consensus state is made of. -/
structure Genesis where
  ethGenesisHash : Bytes32
  validatorMinimumStake : Nat
  blocksPerEpoch : Nat
  allowedTimestampFutureMs : Nat
  treasuryAddress : Address
  maxDepositsPerEpoch : Nat
  maxWithdrawalsPerEpoch : Nat
  observersPerValidator : Nat
  maxValidatorCount : Nat
  minimumValidatorCount : Nat
  invalidDepositTax : Nat
  maxPendingWithdrawalsPerValidator : Nat
  validators : List Validator

namespace Genesis

/-- `validate`, restricted to the fields above. -/
def validate (genesis : Genesis) : Except String Unit := do
  boundsCheck .epochLength genesis.blocksPerEpoch
  boundsCheck .allowedTimestampFuture genesis.allowedTimestampFutureMs
  boundsCheck .maxDepositsPerEpoch genesis.maxDepositsPerEpoch
  boundsCheck .maxWithdrawalsPerEpoch genesis.maxWithdrawalsPerEpoch
  boundsCheck .observersPerValidator genesis.observersPerValidator
  boundsCheck .maxValidatorCount genesis.maxValidatorCount
  if genesis.validators.length > genesis.maxValidatorCount then
    throw s!"genesis validator count {genesis.validators.length} exceeds max_validator_count {genesis.maxValidatorCount}"
  boundsCheck .maxPendingWithdrawalsPerValidator genesis.maxPendingWithdrawalsPerValidator
  if genesis.minimumValidatorCount < minMinimumValidatorCount then
    throw s!"minimum_validator_count {genesis.minimumValidatorCount} is below minimum {minMinimumValidatorCount}"
  if genesis.minimumValidatorCount > genesis.maxValidatorCount then
    throw s!"minimum_validator_count {genesis.minimumValidatorCount} exceeds max_validator_count {genesis.maxValidatorCount}"
  if genesis.invalidDepositTax > maxInvalidDepositTax then
    throw s!"invalid_deposit_tax {genesis.invalidDepositTax} exceeds maximum {maxInvalidDepositTax}"

/-- The account of a genesis validator. -/
def account (genesis : Genesis) (validator : Validator) : ValidatorAccount :=
  { consensusPublicKey := validator.consensusPublicKey
    withdrawalCredentials := validator.withdrawalCredentials
    balance := genesis.validatorMinimumStake
    status := .active
    joiningEpoch := 0
    lastDepositIndex := 0 }

/-- `get_initial_state` without a checkpoint. -/
def initialState (genesis : Genesis) (positive : 0 < genesis.blocksPerEpoch) : ConsensusState :=
  let start := ConsensusState.new
    { headBlockHash := genesis.ethGenesisHash
      safeBlockHash := genesis.ethGenesisHash
      finalizedBlockHash := genesis.ethGenesisHash }
    genesis.validatorMinimumStake genesis.blocksPerEpoch positive genesis.allowedTimestampFutureMs
    genesis.treasuryAddress genesis.maxDepositsPerEpoch genesis.maxWithdrawalsPerEpoch
    genesis.observersPerValidator genesis.maxValidatorCount genesis.minimumValidatorCount
    genesis.invalidDepositTax genesis.maxPendingWithdrawalsPerValidator
  (start.withLive (genesis.validators.foldl
    (fun live validator => live.setAccount validator.nodePublicKey.val (genesis.account validator))
    start.toLiveState)).rebuildSszTree

end Genesis

end Finalizer

end Summit
