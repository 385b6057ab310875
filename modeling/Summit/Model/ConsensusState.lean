/-
**The consensus state and its mutators**: `consensus_state/mod.rs`.

The fields fall into three groups. `StateData` holds the committed data, `LiveState` adds the live
state tree, `ConsensusState` adds what `capture_state_root` freezes. Every mutator but the capture
and the full rebuild works on the first two, and is written for `LiveState`. The tree's validator
count is the number of accounts: a field of `LiveState` says so, which is what the range assertion
of the tree's removal needs. An operation the source can leave by a panic returns an option.
-/

import Summit.Model.Requests
import Summit.Model.SszStateTree

set_option linter.unusedSectionVars false

namespace Summit

open Bytes

section State

variable [Crypto]

/-- The committed data of a consensus state. -/
structure StateData where
  epoch : Nat
  view : Nat
  latestHeight : Nat
  headDigest : Digest
  depositQueue : List DepositRequest
  withdrawalQueue : WithdrawalQueue
  validatorAccounts : SortedMap Bytes32 ValidatorAccount
  protocolParamChanges : List ProtocolParam
  pendingCheckpoint : Option Checkpoint
  addedValidators : SortedMap Nat (List AddedValidator)
  removedValidators : List PublicKey
  /-- Raw requests that wait for the end of the epoch. -/
  pendingExecutionRequests : List (List UInt8)
  forkchoice : ForkchoiceState
  epochGenesisHash : Bytes32
  /-- In gwei. -/
  validatorMinimumStake : Nat
  allowedTimestampFutureMs : Nat
  treasuryAddress : Address
  maxDepositsPerEpoch : Nat
  maxWithdrawalsPerEpoch : Nat
  observersPerValidator : Nat
  maxValidatorCount : Nat
  minimumValidatorCount : Nat
  pendingActiveValidatorExits : Nat
  invalidDepositTax : Nat
  maxPendingWithdrawalsPerValidator : Nat
  epocher : DynamicEpocher
  deriving DecidableEq

/-- The committed data with the live state tree. -/
structure LiveState extends StateData where
  sszTree : SszStateTree
  counted : sszTree.validatorCount = validatorAccounts.size

/-- The live state with what the last capture froze. -/
structure ConsensusState extends LiveState where
  proofTree : SszStateTree
  proofValidatorKeys : List Bytes32
  stateRoot : Bytes32
  proofElBlockNumber : Nat
  capturedBytes : Option (List UInt8)

/-! ### Prospective parameters -/

namespace StateData

/-- The last queued value that `pick` selects, or the current one. -/
def prospective (data : StateData) (pick : ProtocolParam → Option Nat) (current : Nat) : Nat :=
  (data.protocolParamChanges.reverse.findSome? pick).getD current

def asMinimumStake : ProtocolParam → Option Nat
  | .minimumStake v => some v
  | _ => none

def asMinimumValidatorCount : ProtocolParam → Option Nat
  | .minimumValidatorCount v => some v
  | _ => none

def asMaxValidatorCount : ProtocolParam → Option Nat
  | .maxValidatorCount v => some v
  | _ => none

/-- The minimum stake after the queued changes. -/
def prospectiveMinimumStake (data : StateData) : Nat :=
  data.prospective asMinimumStake data.validatorMinimumStake

/-- The minimum validator count after the queued changes. -/
def prospectiveMinimumValidatorCount (data : StateData) : Nat :=
  data.prospective asMinimumValidatorCount data.minimumValidatorCount

/-- The validator cap after the queued changes. -/
def prospectiveMaxValidatorCount (data : StateData) : Nat :=
  data.prospective asMaxValidatorCount data.maxValidatorCount

def isMinimumStake (param : ProtocolParam) : Bool := (asMinimumStake param).isSome
def isMinimumValidatorCount (param : ProtocolParam) : Bool := (asMinimumValidatorCount param).isSome
def isMaxValidatorCount (param : ProtocolParam) : Bool := (asMaxValidatorCount param).isSome

/-! ### Counting validators -/

/-- The number of accounts whose status satisfies `p`. -/
def countStatus (data : StateData) (p : ValidatorStatus → Bool) : Nat :=
  data.validatorAccounts.entries.countP fun entry => p entry.2.status

/-- The number of signers of the epoch, as a `u64`: the exit budget it is compared with saturates
there. -/
def currentEpochActiveValidatorCount (data : StateData) : Nat :=
  data.countStatus ValidatorStatus.isCurrentEpochSigner % 2 ^ 64

def activeOrJoiningValidatorCount (data : StateData) : Nat :=
  data.countStatus ValidatorStatus.isActiveOrJoining

/-- Whether one more exit leaves the prospective minimum number of validators. -/
def canAcceptActiveValidatorExit (data : StateData) : Bool :=
  data.prospectiveMinimumValidatorCount ≤
    data.currentEpochActiveValidatorCount - saturatingAdd data.pendingActiveValidatorExits 1

/-- The queued changes without those a cap below the seats taken rules out. -/
def cappedChanges (data : StateData) : List ProtocolParam :=
  if data.prospectiveMinimumValidatorCount ≤ data.prospectiveMaxValidatorCount ∧
      data.protocolParamChanges.any isMaxValidatorCount = true ∧
      data.prospectiveMaxValidatorCount < data.activeOrJoiningValidatorCount then
    data.protocolParamChanges.filter fun param => !isMaxValidatorCount param
  else data.protocolParamChanges

/-- Of these, the changes that are left when the minimum still exceeds the cap: none of either
kind. -/
def consistentChanges (data : StateData) : List ProtocolParam :=
  if data.prospectiveMinimumValidatorCount >
      { data with protocolParamChanges := data.cappedChanges }.prospectiveMaxValidatorCount then
    data.cappedChanges.filter fun param =>
      !(isMinimumValidatorCount param || isMaxValidatorCount param)
  else data.cappedChanges

def getAccount (data : StateData) (pubkey : Bytes32) : Option ValidatorAccount :=
  data.validatorAccounts.find? pubkey

end StateData

/-! ### Setters -/

namespace LiveState

def setEpoch (s : LiveState) (epoch : Nat) : LiveState :=
  { s with epoch, sszTree := s.sszTree.setEpoch epoch }

def setView (s : LiveState) (view : Nat) : LiveState :=
  { s with view, sszTree := s.sszTree.setView view }

def setLatestHeight (s : LiveState) (height : Nat) : LiveState :=
  { s with latestHeight := height, sszTree := s.sszTree.setLatestHeight height }

def setMinimumStake (s : LiveState) (stake : Nat) : LiveState :=
  { s with
    validatorMinimumStake := stake
    sszTree := s.sszTree.setValidatorMinimumStake stake }

def setAllowedTimestampFutureMs (s : LiveState) (ms : Nat) : LiveState :=
  { s with
    allowedTimestampFutureMs := ms
    sszTree := s.sszTree.setAllowedTimestampFutureMs ms }

def setMaxDepositsPerEpoch (s : LiveState) (value : Nat) : LiveState :=
  { s with
    maxDepositsPerEpoch := value
    sszTree := s.sszTree.setMaxDepositsPerEpoch value }

def setMaxWithdrawalsPerEpoch (s : LiveState) (value : Nat) : LiveState :=
  { s with
    maxWithdrawalsPerEpoch := value
    sszTree := s.sszTree.setMaxWithdrawalsPerEpoch value }

def setObserversPerValidator (s : LiveState) (value : Nat) : LiveState :=
  { s with
    observersPerValidator := value
    sszTree := s.sszTree.setObserversPerValidator value }

def setMaxValidatorCount (s : LiveState) (value : Nat) : LiveState :=
  { s with
    maxValidatorCount := value
    sszTree := s.sszTree.setMaxValidatorCount value }

def setMaxPendingWithdrawalsPerValidator (s : LiveState) (value : Nat) : LiveState :=
  { s with
    maxPendingWithdrawalsPerValidator := value
    sszTree := s.sszTree.setMaxPendingWithdrawalsPerValidator value }

def setMinimumValidatorCount (s : LiveState) (value : Nat) : LiveState :=
  { s with
    minimumValidatorCount := value
    sszTree := s.sszTree.setMinimumValidatorCount value }

/-- Set the number of exits counted against this epoch's floor. -/
def setPendingActiveValidatorExits (s : LiveState) (value : Nat) : LiveState :=
  { s with
    pendingActiveValidatorExits := value
    sszTree := s.sszTree.setPendingActiveValidatorExits value }

def incrementPendingActiveValidatorExits (s : LiveState) : LiveState :=
  s.setPendingActiveValidatorExits (saturatingAdd s.pendingActiveValidatorExits 1)

def resetPendingActiveValidatorExits (s : LiveState) : LiveState :=
  s.setPendingActiveValidatorExits 0

def setInvalidDepositTax (s : LiveState) (value : Nat) : LiveState :=
  { s with
    invalidDepositTax := value
    sszTree := s.sszTree.setInvalidDepositTax value }

def setTreasuryAddress (s : LiveState) (address : Address) : LiveState :=
  { s with
    treasuryAddress := address
    sszTree := s.sszTree.setTreasuryAddress address }

def setNextWithdrawalIndex (s : LiveState) (index : Nat) : LiveState :=
  { s with
    withdrawalQueue := s.withdrawalQueue.setNextIndex index
    sszTree := s.sszTree.setNextWithdrawalIndex index }

def setPendingCheckpoint (s : LiveState) (checkpoint : Option Checkpoint) : LiveState :=
  { s with
    pendingCheckpoint := checkpoint
    sszTree := s.sszTree.setPendingCheckpointDigest (checkpoint.map (·.digest)) }

def takePendingCheckpoint (s : LiveState) : Option Checkpoint × LiveState :=
  (s.pendingCheckpoint, s.setPendingCheckpoint none)

def setForkchoiceHead (s : LiveState) (hash : Bytes32) : LiveState :=
  { s with
    forkchoice := { s.forkchoice with headBlockHash := hash }
    sszTree := s.sszTree.setForkchoiceHeadBlockHash hash }

def setForkchoiceSafeAndFinalized (s : LiveState) (hash : Bytes32) : LiveState :=
  { s with
    forkchoice := { s.forkchoice with safeBlockHash := hash, finalizedBlockHash := hash }
    sszTree := (s.sszTree.setForkchoiceSafeBlockHash hash).setForkchoiceFinalizedBlockHash hash }

def setForkchoice (s : LiveState) (forkchoice : ForkchoiceState) : LiveState :=
  { s with
    forkchoice
    sszTree := ((s.sszTree.setForkchoiceHeadBlockHash forkchoice.headBlockHash)
      |>.setForkchoiceSafeBlockHash forkchoice.safeBlockHash)
      |>.setForkchoiceFinalizedBlockHash forkchoice.finalizedBlockHash }

def setEpochGenesisHash (s : LiveState) (hash : Bytes32) : LiveState :=
  { s with epochGenesisHash := hash, sszTree := s.sszTree.setEpochGenesisHash hash }

def setHeadDigest (s : LiveState) (digest : Digest) : LiveState :=
  { s with headDigest := digest, sszTree := s.sszTree.setHeadDigest digest }

/-- Change the schedule through its shared handle: no leaf of the tree is touched. -/
def setEpocher (s : LiveState) (epocher : DynamicEpocher) : LiveState := { s with epocher }

/-- Bring the schedule leaf up to date. -/
def refreshSchedule (s : LiveState) : LiveState :=
  { s with sszTree := s.sszTree.setDynamicEpochSchedule s.epocher.encode }

/-! ### Collections that are rebuilt on every change -/

/-- Replace the queued parameter changes and rebuild their subtree. -/
def setProtocolParamChanges (s : LiveState) (params : List ProtocolParam) : LiveState :=
  { s with
    protocolParamChanges := params
    sszTree := s.sszTree.rebuildProtocolParams params }

def pushProtocolParamChange (s : LiveState) (param : ProtocolParam) : LiveState :=
  s.setProtocolParamChanges (s.protocolParamChanges ++ [param])

/-- Queue a batch of changes, rebuilding the subtree at most once. -/
def pushProtocolParamChanges (s : LiveState) (params : List ProtocolParam) : LiveState :=
  if (s.protocolParamChanges ++ params).length ≠ s.protocolParamChanges.length then
    s.setProtocolParamChanges (s.protocolParamChanges ++ params)
  else { s with protocolParamChanges := s.protocolParamChanges ++ params }

/-- Drop the queued count changes that conflict; the subtree is rebuilt when there was one. -/
def rejectInvalidValidatorCountChanges (s : LiveState) : LiveState :=
  if s.consistentChanges.length ≠ s.protocolParamChanges.length then
    s.setProtocolParamChanges s.consistentChanges
  else { s with protocolParamChanges := s.consistentChanges }

def setAddedValidators (s : LiveState) (validators : SortedMap Nat (List AddedValidator)) :
    LiveState :=
  { s with
    addedValidators := validators
    sszTree := s.sszTree.rebuildAddedValidators validators }

def addValidator (s : LiveState) (epoch : Nat) (validator : AddedValidator) : LiveState :=
  s.setAddedValidators
    (s.addedValidators.insert epoch ((s.addedValidators.find? epoch).getD [] ++ [validator]))

/-- The schedule after the first entry of `pubkey` in `epoch` is dropped; `none` when there is
none. An epoch left without entries is dropped too. -/
def withoutAddedValidator (validators : SortedMap Nat (List AddedValidator)) (epoch : Nat)
    (pubkey : PublicKey) : Option (SortedMap Nat (List AddedValidator)) :=
  match validators.find? epoch with
  | none => none
  | some scheduled =>
    if scheduled.any fun validator => validator.nodeKey = pubkey then
      let rest := scheduled.eraseP fun validator => validator.nodeKey = pubkey
      if rest = [] then some (validators.erase epoch) else some (validators.insert epoch rest)
    else none

def removeAddedValidator (s : LiveState) (epoch : Nat) (pubkey : PublicKey) : LiveState :=
  match withoutAddedValidator s.addedValidators epoch pubkey with
  | none => s
  | some validators => s.setAddedValidators validators

def removeAddedValidatorsForEpoch (s : LiveState) (epoch : Nat) : LiveState :=
  match s.addedValidators.find? epoch with
  | none => s
  | some _ => s.setAddedValidators (s.addedValidators.erase epoch)

def setRemovedValidators (s : LiveState) (validators : List PublicKey) : LiveState :=
  { s with
    removedValidators := validators
    sszTree := s.sszTree.rebuildRemovedValidators validators }

def pushRemovedValidator (s : LiveState) (pubkey : PublicKey) : LiveState :=
  s.setRemovedValidators (s.removedValidators ++ [pubkey])

def clearRemovedValidators (s : LiveState) : LiveState := s.setRemovedValidators []

def setPendingExecutionRequests (s : LiveState) (requests : List (List UInt8)) : LiveState :=
  { s with
    pendingExecutionRequests := requests
    sszTree := s.sszTree.rebuildPendingExecutionRequests requests }

def takePendingExecutionRequests (s : LiveState) : List (List UInt8) × LiveState :=
  (s.pendingExecutionRequests, s.setPendingExecutionRequests [])

def pushPendingExecutionRequest (s : LiveState) (request : List UInt8) : LiveState :=
  s.setPendingExecutionRequests (s.pendingExecutionRequests ++ [request])

/-- Buffer a block's raw requests for the end of the epoch. -/
def bufferExecutionRequests (s : LiveState) (requests : List (List UInt8)) : LiveState :=
  if requests = [] then s
  else s.setPendingExecutionRequests (s.pendingExecutionRequests ++ requests)

/-! ### Accounts -/

/-- Insert or update an account. The slot of a key just inserted is its position in the map. -/
def setAccount (s : LiveState) (pubkey : Bytes32) (account : ValidatorAccount) : LiveState :=
  match found : s.validatorAccounts.find? pubkey with
  | some _ =>
    { s with
      validatorAccounts := s.validatorAccounts.insert pubkey account
      sszTree := s.sszTree.updateValidatorAtSlot
        ((s.validatorAccounts.insert pubkey account).slot pubkey) pubkey account
      counted := s.counted.trans (SortedMap.size_insert_of_some found).symm }
  | none =>
    { s with
      validatorAccounts := s.validatorAccounts.insert pubkey account
      sszTree := s.sszTree.insertValidatorAtSlot
        ((s.validatorAccounts.insert pubkey account).slot pubkey) pubkey account
      counted := (congrArg (· + 1) s.counted).trans (SortedMap.size_insert_of_none found).symm }

/-- Remove an account if it exists. -/
def removeAccount (s : LiveState) (pubkey : Bytes32) : LiveState :=
  match found : s.validatorAccounts.find? pubkey with
  | none => s
  | some _ =>
    { s with
      validatorAccounts := s.validatorAccounts.erase pubkey
      sszTree := s.sszTree.removeValidatorAtSlot (s.validatorAccounts.slot pubkey)
        (lt_of_lt_of_eq (SortedMap.slot_lt_size found) s.counted.symm)
      counted := (congrArg (· - 1) s.counted).trans (SortedMap.size_erase_of_some found).symm }

/-! ### Queues -/

def pushDeposit (s : LiveState) (request : DepositRequest) : LiveState :=
  { s with
    depositQueue := s.depositQueue ++ [request]
    sszTree := s.sszTree.pushDeposit request }

/-- Replace the deposit queue without touching the tree. -/
def putDepositQueue (s : LiveState) (queue : List DepositRequest) : LiveState :=
  { s with depositQueue := queue }

/-- Pop the first deposit without touching the tree, which is stale until the next rebuild. -/
def popDepositDeferred (s : LiveState) : Option (DepositRequest × LiveState) :=
  match s.depositQueue with
  | [] => none
  | request :: rest => some (request, s.putDepositQueue rest)

def rebuildDepositTree (s : LiveState) : LiveState :=
  { s with sszTree := s.sszTree.rebuildDeposits s.depositQueue }

/-- Bring the deposit subtree up to date after a pop. -/
def popDepositLeaves (s : LiveState) : LiveState :=
  { s with sszTree := s.sszTree.popDeposit s.depositQueue }

def popDeposit (s : LiveState) : Option (DepositRequest × LiveState) :=
  match s.depositQueue with
  | [] => none
  | request :: rest => some (request, (s.putDepositQueue rest).popDepositLeaves)

/-- Replace the withdrawal queue without touching the tree. -/
def putWithdrawalQueue (s : LiveState) (queue : WithdrawalQueue) : LiveState :=
  { s with withdrawalQueue := queue }

def rebuildWithdrawalTree (s : LiveState) : LiveState :=
  { s with sszTree := s.sszTree.rebuildWithdrawals s.withdrawalQueue }

/-- Replace the withdrawal queue and the leaf of its next index. -/
def setWithdrawalQueue (s : LiveState) (queue : WithdrawalQueue) : LiveState :=
  { s with
    withdrawalQueue := queue
    sszTree := s.sszTree.setNextWithdrawalIndex queue.nextIndex }

/-- Append the leaves of the entry pushed last. -/
def appendWithdrawalLeaves (s : LiveState) (item : PendingWithdrawal) : LiveState :=
  { s with sszTree := s.sszTree.pushWithdrawal item }

/-- Push a withdrawal request of the given kind. A validator entry that lands before queued refunds
needs a rebuild of the subtree; with `deferRebuild` the rebuild is left to the caller, which is
what the flag returned says. -/
def pushWithdrawalRequestWithKind (s : LiveState) (request : WithdrawalRequest)
    (withdrawalEpoch : Nat) (kind : WithdrawalKind) (deferRebuild : Bool) : LiveState × Bool :=
  let queue := s.withdrawalQueue.pushRequestWithKind request withdrawalEpoch kind
  let pushed := s.setWithdrawalQueue queue
  if kind = .validator ∧ (queue.back .depositRefund).isSome = true then
    if deferRebuild then (pushed, true) else (pushed.rebuildWithdrawalTree, false)
  else
    -- the entry just pushed is there
    match queue.back kind with
    | some item => (pushed.appendWithdrawalLeaves item, false)
    | none => (pushed, false)

def pushWithdrawalRequest (s : LiveState) (request : WithdrawalRequest) (withdrawalEpoch : Nat) :
    LiveState :=
  (s.pushWithdrawalRequestWithKind request withdrawalEpoch .validator false).1

def pushRefundWithdrawalRequest (s : LiveState) (request : WithdrawalRequest)
    (withdrawalEpoch : Nat) : LiveState :=
  (s.pushWithdrawalRequestWithKind request withdrawalEpoch .depositRefund false).1

def pushWithdrawal (s : LiveState) (withdrawal : PendingWithdrawal) : LiveState :=
  (s.putWithdrawalQueue (s.withdrawalQueue.push withdrawal)).rebuildWithdrawalTree

def popWithdrawal (s : LiveState) (epoch : Nat) : Option (PendingWithdrawal × LiveState) :=
  match s.withdrawalQueue.pop epoch with
  | none => none
  | some (withdrawal, queue) =>
    some (withdrawal, (s.putWithdrawalQueue queue).rebuildWithdrawalTree)

end LiveState

/-! ### The full rebuild -/

/-- The tree of the committed data, built from nothing. -/
def SszStateTree.rebuild (data : StateData) : SszStateTree :=
  SszStateTree.new
  |>.setEpoch data.epoch
  |>.setView data.view
  |>.setLatestHeight data.latestHeight
  |>.setHeadDigest data.headDigest
  |>.setEpochGenesisHash data.epochGenesisHash
  |>.setValidatorMinimumStake data.validatorMinimumStake
  |>.setAllowedTimestampFutureMs data.allowedTimestampFutureMs
  |>.setNextWithdrawalIndex data.withdrawalQueue.nextIndex
  |>.setForkchoiceHeadBlockHash data.forkchoice.headBlockHash
  |>.setForkchoiceSafeBlockHash data.forkchoice.safeBlockHash
  |>.setForkchoiceFinalizedBlockHash data.forkchoice.finalizedBlockHash
  |>.setTreasuryAddress data.treasuryAddress
  |>.setMaxDepositsPerEpoch data.maxDepositsPerEpoch
  |>.setMaxWithdrawalsPerEpoch data.maxWithdrawalsPerEpoch
  |>.setObserversPerValidator data.observersPerValidator
  |>.setMaxValidatorCount data.maxValidatorCount
  |>.setMinimumValidatorCount data.minimumValidatorCount
  |>.setPendingActiveValidatorExits data.pendingActiveValidatorExits
  |>.setInvalidDepositTax data.invalidDepositTax
  |>.setMaxPendingWithdrawalsPerValidator data.maxPendingWithdrawalsPerValidator
  |>.rebuildValidators data.validatorAccounts
  |>.rebuildDeposits data.depositQueue
  |>.rebuildWithdrawals data.withdrawalQueue
  |>.rebuildProtocolParams data.protocolParamChanges
  |>.rebuildAddedValidators data.addedValidators
  |>.rebuildRemovedValidators data.removedValidators
  |>.rebuildPendingExecutionRequests data.pendingExecutionRequests
  |>.setPendingCheckpointDigest (data.pendingCheckpoint.map (·.digest))
  |>.setDynamicEpochSchedule data.epocher.encode

/-- The data with a freshly built tree. -/
def LiveState.ofData (data : StateData) : LiveState :=
  { data with sszTree := SszStateTree.rebuild data, counted := rfl }

namespace ConsensusState

/-- The state of decoded data: a fresh tree, which is also frozen for proofs. -/
def ofData (data : StateData) (proofElBlockNumber : Nat) (capturedBytes : Option (List UInt8)) :
    ConsensusState :=
  { LiveState.ofData data with
    stateRoot := (SszStateTree.rebuild data).root
    proofTree := SszStateTree.rebuild data
    proofValidatorKeys := data.validatorAccounts.keys
    proofElBlockNumber
    capturedBytes }

/-- Rebuild the tree from the data fields and freeze it. -/
def rebuildSszTree (s : ConsensusState) : ConsensusState :=
  ofData s.toStateData s.proofElBlockNumber s.capturedBytes

/-- Replace all accounts at once. -/
def setValidatorAccounts (s : ConsensusState) (accounts : SortedMap Bytes32 ValidatorAccount) :
    ConsensusState :=
  ofData { s.toStateData with validatorAccounts := accounts } s.proofElBlockNumber s.capturedBytes

/-- Replace the live part of a state; what is frozen stays. -/
def withLive (s : ConsensusState) (live : LiveState) : ConsensusState :=
  { s with toLiveState := live }

end ConsensusState

/-- The data of a chain that starts at `forkchoice`. -/
def StateData.new (forkchoice : ForkchoiceState) (validatorMinimumStake epochLength : Nat)
    (positive : 0 < epochLength) (allowedTimestampFutureMs : Nat) (treasuryAddress : Address)
    (maxDepositsPerEpoch maxWithdrawalsPerEpoch observersPerValidator maxValidatorCount
      minimumValidatorCount invalidDepositTax maxPendingWithdrawalsPerValidator : Nat) :
    StateData where
  epoch := 0
  view := 0
  latestHeight := 0
  headDigest := forkchoice.headBlockHash
  depositQueue := []
  withdrawalQueue := .empty
  validatorAccounts := .empty
  protocolParamChanges := []
  pendingCheckpoint := none
  addedValidators := .empty
  removedValidators := []
  pendingExecutionRequests := []
  forkchoice
  epochGenesisHash := forkchoice.headBlockHash
  validatorMinimumStake
  allowedTimestampFutureMs
  treasuryAddress
  maxDepositsPerEpoch
  maxWithdrawalsPerEpoch
  observersPerValidator
  maxValidatorCount
  minimumValidatorCount
  pendingActiveValidatorExits := 0
  invalidDepositTax
  maxPendingWithdrawalsPerValidator
  epocher := DynamicEpocher.new epochLength positive

/-- The state of a new chain, with no accounts and nothing captured. -/
def ConsensusState.new (forkchoice : ForkchoiceState) (validatorMinimumStake epochLength : Nat)
    (positive : 0 < epochLength) (allowedTimestampFutureMs : Nat) (treasuryAddress : Address)
    (maxDepositsPerEpoch maxWithdrawalsPerEpoch observersPerValidator maxValidatorCount
      minimumValidatorCount invalidDepositTax maxPendingWithdrawalsPerValidator : Nat) :
    ConsensusState :=
  ConsensusState.ofData
    (StateData.new forkchoice validatorMinimumStake epochLength positive allowedTimestampFutureMs
      treasuryAddress maxDepositsPerEpoch maxWithdrawalsPerEpoch observersPerValidator
      maxValidatorCount minimumValidatorCount invalidDepositTax maxPendingWithdrawalsPerValidator)
    0 none

end State

end Summit
