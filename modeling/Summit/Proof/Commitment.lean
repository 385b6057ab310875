/-
**The public operations of the consensus state keep its commitment.**

`Operation` lists the public mutators, with a batch of deferred pops counted together with the
rebuild that ends it, and a run is any sequence of them that no panic cuts short. After every
operation the live tree is the tree rebuilt from the data, but for the schedule leaf and its
ancestors (`agreesOffSchedule_of_run`); the capture of the root brings these up to date as well.
-/

import Summit.Model.Codec
import Summit.Proof.Refinement

set_option linter.unusedSectionVars false

namespace Summit

open Bytes SszStateTree

section Operations

variable [Crypto]

/-- A public mutator of the live part, with its arguments. -/
inductive LiveOperation where
  | setEpoch (epoch : Nat)
  | setView (view : Nat)
  | setLatestHeight (height : Nat)
  | setMinimumStake (stake : Nat)
  | setAllowedTimestampFutureMs (ms : Nat)
  | setMaxDepositsPerEpoch (value : Nat)
  | setMaxWithdrawalsPerEpoch (value : Nat)
  | setObserversPerValidator (value : Nat)
  | setMaxValidatorCount (value : Nat)
  | setMaxPendingWithdrawalsPerValidator (value : Nat)
  | setMinimumValidatorCount (value : Nat)
  | incrementPendingActiveValidatorExits
  | resetPendingActiveValidatorExits
  | setInvalidDepositTax (value : Nat)
  | setTreasuryAddress (address : Address)
  | setNextWithdrawalIndex (index : Nat)
  | setPendingCheckpoint (checkpoint : Option Checkpoint)
  | takePendingCheckpoint
  | setForkchoice (forkchoice : ForkchoiceState)
  | setForkchoiceHead (hash : Bytes32)
  | setForkchoiceSafeAndFinalized (hash : Bytes32)
  | setEpochGenesisHash (hash : Bytes32)
  | setHeadDigest (digest : Digest)
  /-- Any change of the schedule through its shared handle. -/
  | changeSchedule (epocher : DynamicEpocher)
  | pushProtocolParamChange (param : ProtocolParam)
  | pushProtocolParamChanges (params : List ProtocolParam)
  | addValidator (epoch : Nat) (validator : AddedValidator)
  | removeAddedValidator (epoch : Nat) (pubkey : PublicKey)
  | removeAddedValidatorsForEpoch (epoch : Nat)
  | setRemovedValidators (validators : List PublicKey)
  | pushRemovedValidator (pubkey : PublicKey)
  | clearRemovedValidators
  | takePendingExecutionRequests
  | pushPendingExecutionRequest (request : List UInt8)
  | bufferExecutionRequests (requests : List (List UInt8))
  | setAccount (pubkey : Bytes32) (account : ValidatorAccount)
  | removeAccount (pubkey : Bytes32)
  | pushDeposit (request : DepositRequest)
  | popDeposit
  | rebuildDepositTree
  /-- `count` deferred pops and the rebuild they are followed by. -/
  | popDepositsDeferred (count : Nat)
  | refundDeposit (credentials : Bytes32) (amount : Nat) (reason : DepositRejectionReason)
      (withdrawalNumEpochs : Nat)
  | processDeposits (domain : Digest) (warmUpEpochs withdrawalNumEpochs : Nat)
  | processBufferedRequests (domain : Digest) (warmUpEpochs withdrawalNumEpochs : Nat)
  | enforceMinimumStake
  | pushWithdrawalRequest (request : WithdrawalRequest) (withdrawalEpoch : Nat)
  | pushRefundWithdrawalRequest (request : WithdrawalRequest) (withdrawalEpoch : Nat)
  | pushWithdrawal (withdrawal : PendingWithdrawal)
  | popWithdrawal (epoch : Nat)
  | rebuildWithdrawalTree
  | applyWithdrawalRequest (request : WithdrawalRequest) (withdrawalNumEpochs : Nat)
  | applyWithdrawalPayouts (epoch : Nat) (withdrawals : List Withdrawal)
  | applyCommitteeTransition (nodePublicKey : PublicKey)
  | applyProtocolParameterChanges

/-- A public mutator. The last three also touch what is frozen. -/
inductive Operation where
  | live (operation : LiveOperation)
  | setValidatorAccounts (accounts : SortedMap Bytes32 ValidatorAccount)
  | captureStateRoot (elBlockNumber : Nat)
  | rebuildSszTree

namespace LiveState

/-- `count` pops that leave the tree alone; a pop off an empty queue does nothing. -/
def popDepositsDeferred : Nat → LiveState → LiveState
  | 0, s => s
  | count + 1, s =>
    match s.popDepositDeferred with
    | none => s
    | some (_, popped) => popDepositsDeferred count popped

end LiveState

namespace LiveOperation

/-- What an operation does to the live part; `none` where the source panics. -/
def apply (s : LiveState) : LiveOperation → Option LiveState
  | setEpoch epoch => some (s.setEpoch epoch)
  | setView view => some (s.setView view)
  | setLatestHeight height => some (s.setLatestHeight height)
  | setMinimumStake stake => some (s.setMinimumStake stake)
  | setAllowedTimestampFutureMs ms => some (s.setAllowedTimestampFutureMs ms)
  | setMaxDepositsPerEpoch value => some (s.setMaxDepositsPerEpoch value)
  | setMaxWithdrawalsPerEpoch value => some (s.setMaxWithdrawalsPerEpoch value)
  | setObserversPerValidator value => some (s.setObserversPerValidator value)
  | setMaxValidatorCount value => some (s.setMaxValidatorCount value)
  | setMaxPendingWithdrawalsPerValidator value =>
    some (s.setMaxPendingWithdrawalsPerValidator value)
  | setMinimumValidatorCount value => some (s.setMinimumValidatorCount value)
  | incrementPendingActiveValidatorExits => some s.incrementPendingActiveValidatorExits
  | resetPendingActiveValidatorExits => some s.resetPendingActiveValidatorExits
  | setInvalidDepositTax value => some (s.setInvalidDepositTax value)
  | setTreasuryAddress address => some (s.setTreasuryAddress address)
  | setNextWithdrawalIndex index => some (s.setNextWithdrawalIndex index)
  | setPendingCheckpoint checkpoint => some (s.setPendingCheckpoint checkpoint)
  | takePendingCheckpoint => some s.takePendingCheckpoint.2
  | setForkchoice forkchoice => some (s.setForkchoice forkchoice)
  | setForkchoiceHead hash => some (s.setForkchoiceHead hash)
  | setForkchoiceSafeAndFinalized hash => some (s.setForkchoiceSafeAndFinalized hash)
  | setEpochGenesisHash hash => some (s.setEpochGenesisHash hash)
  | setHeadDigest digest => some (s.setHeadDigest digest)
  | changeSchedule epocher => some (s.setEpocher epocher)
  | pushProtocolParamChange param => some (s.pushProtocolParamChange param)
  | pushProtocolParamChanges params => some (s.pushProtocolParamChanges params)
  | addValidator epoch validator => some (s.addValidator epoch validator)
  | removeAddedValidator epoch pubkey => some (s.removeAddedValidator epoch pubkey)
  | removeAddedValidatorsForEpoch epoch => some (s.removeAddedValidatorsForEpoch epoch)
  | setRemovedValidators validators => some (s.setRemovedValidators validators)
  | pushRemovedValidator pubkey => some (s.pushRemovedValidator pubkey)
  | clearRemovedValidators => some s.clearRemovedValidators
  | takePendingExecutionRequests => some s.takePendingExecutionRequests.2
  | pushPendingExecutionRequest request => some (s.pushPendingExecutionRequest request)
  | bufferExecutionRequests requests => some (s.bufferExecutionRequests requests)
  | setAccount pubkey account => some (s.setAccount pubkey account)
  | removeAccount pubkey => some (s.removeAccount pubkey)
  | pushDeposit request => some (s.pushDeposit request)
  | popDeposit => some (s.popDeposit.elim s Prod.snd)
  | rebuildDepositTree => some s.rebuildDepositTree
  | popDepositsDeferred count => some (s.popDepositsDeferred count).rebuildDepositTree
  | refundDeposit credentials amount reason withdrawalNumEpochs =>
    some (s.refundDeposit credentials amount reason withdrawalNumEpochs)
  | processDeposits domain warmUpEpochs withdrawalNumEpochs =>
    some (s.processDeposits domain warmUpEpochs withdrawalNumEpochs)
  | processBufferedRequests domain warmUpEpochs withdrawalNumEpochs =>
    some (s.processBufferedRequests domain warmUpEpochs withdrawalNumEpochs)
  | enforceMinimumStake => some s.enforceMinimumStake
  | pushWithdrawalRequest request withdrawalEpoch =>
    some (s.pushWithdrawalRequest request withdrawalEpoch)
  | pushRefundWithdrawalRequest request withdrawalEpoch =>
    some (s.pushRefundWithdrawalRequest request withdrawalEpoch)
  | pushWithdrawal withdrawal => some (s.pushWithdrawal withdrawal)
  | popWithdrawal epoch => some ((s.popWithdrawal epoch).elim s Prod.snd)
  | rebuildWithdrawalTree => some s.rebuildWithdrawalTree
  | applyWithdrawalRequest request withdrawalNumEpochs =>
    some (s.applyWithdrawalRequest request withdrawalNumEpochs)
  | applyWithdrawalPayouts epoch withdrawals => s.applyWithdrawalPayouts epoch withdrawals
  | applyCommitteeTransition nodePublicKey =>
    (s.applyCommitteeTransition nodePublicKey).map Prod.fst
  | applyProtocolParameterChanges => s.applyProtocolParameterChanges.map Prod.fst

end LiveOperation

/-- One operation; `none` where the source panics. -/
def Operation.apply (s : ConsensusState) : Operation → Option ConsensusState
  | live operation => (operation.apply s.toLiveState).map s.withLive
  | setValidatorAccounts accounts => some (s.setValidatorAccounts accounts)
  | captureStateRoot elBlockNumber => some (s.captureStateRoot elBlockNumber)
  | rebuildSszTree => some s.rebuildSszTree

/-! ### One operation -/

section Step

variable {schedule : Bytes32}

theorem LiveState.InSync.popDepositsDeferred {stale : Bool} {s : LiveState} (count : Nat)
    (sync : s.InSync stale false schedule) :
    (s.popDepositsDeferred count).rebuildDepositTree.InSync false false schedule := by
  induction count generalizing stale s with
  | zero => exact sync.rebuildDepositTree
  | succ count ih =>
    unfold LiveState.popDepositsDeferred
    split
    · exact sync.rebuildDepositTree
    · next result => exact ih (sync.popDepositDeferred result)

/-- **One mutator of the live part** keeps the tree in sync. -/
theorem LiveOperation.inSync {s s' : LiveState} {operation : LiveOperation}
    (sync : s.InSync false false schedule) (result : operation.apply s = some s') :
    s'.InSync false false schedule := by
  cases operation
  case applyWithdrawalPayouts => exact sync.applyWithdrawalPayouts result
  case applyCommitteeTransition =>
    obtain ⟨moved, applied, rfl⟩ := Option.map_eq_some_iff.mp result
    exact sync.applyCommitteeTransition applied
  case applyProtocolParameterChanges =>
    obtain ⟨changed, applied, rfl⟩ := Option.map_eq_some_iff.mp result
    exact sync.applyProtocolParameterChanges applied
  all_goals
    obtain rfl := Option.some.inj result
  case popDeposit =>
    cases popped : s.popDeposit with
    | none => exact sync
    | some pair => exact sync.popDeposit popped
  case popWithdrawal epoch =>
    cases popped : s.popWithdrawal epoch with
    | none => exact sync
    | some pair => exact sync.popWithdrawal popped
  case setEpoch | setView | setLatestHeight | setMinimumStake | setAllowedTimestampFutureMs |
      setMaxDepositsPerEpoch | setMaxWithdrawalsPerEpoch | setObserversPerValidator |
      setMaxValidatorCount | setMaxPendingWithdrawalsPerValidator | setMinimumValidatorCount |
      incrementPendingActiveValidatorExits | resetPendingActiveValidatorExits |
      setInvalidDepositTax | setTreasuryAddress | setNextWithdrawalIndex | setPendingCheckpoint |
      takePendingCheckpoint | setForkchoiceHead | setEpochGenesisHash | setHeadDigest =>
    exact sync.scalar _ (by decide) rfl rfl rfl
  case setForkchoice => exact sync.setForkchoice _
  case setForkchoiceSafeAndFinalized => exact sync.setForkchoiceSafeAndFinalized _
  case changeSchedule => exact sync.setEpocher _
  case pushProtocolParamChange => exact sync.setProtocolParamChanges _
  case pushProtocolParamChanges => exact sync.pushProtocolParamChanges _
  case addValidator => exact sync.addValidator _ _
  case removeAddedValidator => exact sync.removeAddedValidator _ _
  case removeAddedValidatorsForEpoch => exact sync.removeAddedValidatorsForEpoch _
  case setRemovedValidators => exact sync.setRemovedValidators _
  case pushRemovedValidator => exact sync.setRemovedValidators _
  case clearRemovedValidators => exact sync.setRemovedValidators _
  case takePendingExecutionRequests => exact sync.setPendingExecutionRequests _
  case pushPendingExecutionRequest => exact sync.setPendingExecutionRequests _
  case bufferExecutionRequests => exact sync.bufferExecutionRequests _
  case setAccount => exact sync.setAccount _ _
  case removeAccount => exact sync.removeAccount _
  case pushDeposit => exact sync.pushDeposit _
  case popDepositsDeferred => exact sync.popDepositsDeferred _
  case rebuildDepositTree => exact sync.rebuildDepositTree
  case refundDeposit => exact sync.refundDeposit _ _ _ _
  case processDeposits => exact sync.processDeposits _ _ _
  case processBufferedRequests => exact sync.processBufferedRequests _ _ _
  case enforceMinimumStake => exact sync.enforceMinimumStake
  case pushWithdrawalRequest => exact sync.pushWithdrawalRequest _ _
  case pushRefundWithdrawalRequest => exact sync.pushRefundWithdrawalRequest _ _
  case pushWithdrawal => exact sync.pushWithdrawal _
  case rebuildWithdrawalTree => exact sync.rebuildWithdrawalTree
  case applyWithdrawalRequest => exact sync.applyWithdrawalRequest _ _

end Step

/-! ### Runs -/

/-- The tree is in sync with the data, whatever schedule its leaf was last given. -/
def ConsensusState.Committed (s : ConsensusState) : Prop :=
  ∃ schedule, s.toLiveState.InSync false false schedule

theorem committed_ofData (data : StateData) (proofElBlockNumber : Nat)
    (capturedBytes : Option (List UInt8)) :
    (ConsensusState.ofData data proofElBlockNumber capturedBytes).Committed :=
  ⟨_, inSync_rebuild data⟩

/-- **One operation** keeps the commitment. -/
theorem Operation.committed {s s' : ConsensusState} {operation : Operation} (holds : s.Committed)
    (result : operation.apply s = some s') : s'.Committed := by
  obtain ⟨schedule, sync⟩ := holds
  cases operation with
  | live operation =>
    obtain ⟨live, applied, rfl⟩ := Option.map_eq_some_iff.mp result
    exact ⟨schedule, LiveOperation.inSync sync applied⟩
  | setValidatorAccounts accounts => exact Option.some.inj result ▸ committed_ofData _ _ _
  | captureStateRoot elBlockNumber =>
    exact Option.some.inj result ▸ ⟨_, LiveState.InSync.refreshSchedule sync⟩
  | rebuildSszTree => exact Option.some.inj result ▸ committed_ofData _ _ _

theorem committed_of_run {s s' : ConsensusState} {operations : List Operation}
    (holds : s.Committed) (run : operations.foldlM Operation.apply s = some s') : s'.Committed :=
  Run.invariant (fun _ _ _ _ holds result => Operation.committed holds result) holds run

/-- A capture makes the tree the rebuilt one, the schedule leaf included. -/
theorem ConsensusState.Committed.capture {s : ConsensusState} (holds : s.Committed)
    (elBlockNumber : Nat) :
    (s.captureStateRoot elBlockNumber).sszTree =
      rebuild (s.captureStateRoot elBlockNumber).toStateData := by
  obtain ⟨schedule, sync⟩ := holds
  exact (LiveState.InSync.refreshSchedule sync).unique (inSync_rebuild s.toStateData)

end Operations

/-- **The incremental commitment refines the full rebuild.** After any sequence of public operations
on a new state, the live tree is the one rebuilt from the data fields, but for the schedule leaf and
its ancestors, and right after a capture it is that tree without exception. -/
theorem agreesOffSchedule_of_run [Crypto] (forkchoice : ForkchoiceState)
    (validatorMinimumStake epochLength : Nat) (positive : 0 < epochLength)
    (allowedTimestampFutureMs : Nat) (treasuryAddress : Address)
    (maxDepositsPerEpoch maxWithdrawalsPerEpoch observersPerValidator maxValidatorCount
      minimumValidatorCount invalidDepositTax maxPendingWithdrawalsPerValidator : Nat)
    (operations : List Operation) (s : ConsensusState)
    (run : operations.foldlM Operation.apply
      (ConsensusState.new forkchoice validatorMinimumStake epochLength positive
        allowedTimestampFutureMs treasuryAddress maxDepositsPerEpoch maxWithdrawalsPerEpoch
        observersPerValidator maxValidatorCount minimumValidatorCount invalidDepositTax
        maxPendingWithdrawalsPerValidator) = some s) :
    s.sszTree.AgreesOffSchedule s.rebuildSszTree.sszTree ∧
      ∀ elBlockNumber, (s.captureStateRoot elBlockNumber).sszTree =
        (s.captureStateRoot elBlockNumber).rebuildSszTree.sszTree := by
  have holds := committed_of_run (committed_ofData _ _ _) run
  refine ⟨?_, fun elBlockNumber => holds.capture elBlockNumber⟩
  obtain ⟨schedule, sync⟩ := holds
  exact SszStateTree.InSync.agreesOffSchedule sync (inSync_rebuild s.toStateData)

attribute [local instance] Crypto.accepting

/-- The epochs get longer, the root is captured and requests are buffered. -/
def longerEpochOperations : List Operation :=
  [.live (.setEpoch 1), .live (.changeSchedule (DynamicEpocher.new 20 (by decide))),
    .captureStateRoot 7, .live (.bufferExecutionRequests [[1, 2]])]

theorem agreesOffSchedule_of_run_longerEpoch :
    ∃ s, longerEpochOperations.foldlM Operation.apply
        (ConsensusState.new ⟨zeroChunk, zeroChunk, zeroChunk⟩ 32 10 (by decide) 0
          (FixedBytes.zero 20) 0 1 0 4 1 0 1) = some s ∧
      s.sszTree.AgreesOffSchedule s.rebuildSszTree.sszTree :=
  ⟨_, rfl, (agreesOffSchedule_of_run ⟨zeroChunk, zeroChunk, zeroChunk⟩ 32 10 (by decide) 0
    (FixedBytes.zero 20) 0 1 0 4 1 0 1 longerEpochOperations _ rfl).1⟩

end Summit
