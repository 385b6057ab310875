/-
**Processing at the end of an epoch**: deposits, withdrawal requests, payouts and the boundary, the
remaining operations of `consensus_state/mod.rs`.

The buffered requests are processed at the penultimate block, payouts are made at the terminal
block, and the boundary applies the staged committee and the queued parameters. Batches inside
these steps put off rebuilding the deposit and withdrawal subtrees to their end.
-/

import Mathlib.Data.List.Sort
import Summit.Model.ConsensusState

set_option linter.unusedSectionVars false

namespace Summit

open Bytes

section Processing

variable [Crypto]

/-! ### Deposits -/

inductive DepositRejectionReason where
  | keyMismatch
  | invalidNodeSignature
  | invalidConsensusSignature
  | malformedKey
  deriving DecidableEq, Repr

/-- The digest both keys of a deposit sign. -/
def DepositRequest.asMessage (request : DepositRequest) (domain : Digest) : Digest :=
  let pubkeysHash := Crypto.sha256 (request.nodePubkey.val.val ++ request.consensusPubkey.val.val)
  let leftHash := Crypto.sha256 (pubkeysHash.val ++ request.withdrawalCredentials.val)
  let rightHash := Crypto.sha256 (leBytes 8 request.amount ++ List.replicate 56 0)
  let rootHash := Crypto.sha256 (leftHash.val ++ rightHash.val)
  Crypto.sha256 (rootHash.val ++ domain.val)

/-- Validate a deposit: the node signature, the consensus signature, then the two key checks. -/
def StateData.verifyDepositRequest (data : StateData) (request : DepositRequest)
    (domain : Digest) : Except DepositRejectionReason Unit :=
  let message := request.asMessage domain
  if !Crypto.verifyNode request.nodePubkey.val message request.nodeSignature then
    .error .invalidNodeSignature
  else if !Crypto.verifyConsensus request.consensusPubkey.val message
      request.consensusSignature then
    .error .invalidConsensusSignature
  else if (data.getAccount request.nodePubkey.val).any
      fun account => account.consensusPublicKey ≠ request.consensusPubkey then
    .error .keyMismatch
  else if data.validatorAccounts.entries.any fun entry =>
      entry.1 ≠ request.nodePubkey.val ∧
        entry.2.consensusPublicKey = request.consensusPubkey then
    .error .keyMismatch
  else .ok ()

namespace LiveState

/-- Push a refund of `amount` to `address` unless it is zero. -/
def pushRefundIfPositive (s : LiveState) (address : Address) (amount withdrawalEpoch : Nat) :
    LiveState :=
  if amount > 0 then
    s.pushRefundWithdrawalRequest
      { sourceAddress := address, validatorPubkey := FixedBytes.zero 32, amount } withdrawalEpoch
  else s

/-- Refund a deposit that was rejected before it was credited, less the tax. Credentials that do
not parse lose the funds. -/
def refundDeposit (s : LiveState) (withdrawalCredentials : Bytes32) (amount : Nat)
    (_reason : DepositRejectionReason) (withdrawalNumEpochs : Nat) : LiveState :=
  match parseWithdrawalCredentials withdrawalCredentials with
  | none => s
  | some withdrawalAddress =>
    let withdrawalEpoch := s.epoch + withdrawalNumEpochs
    let (refundAmount, taxAmount) := invalidDepositRefundSplit amount s.invalidDepositTax
    let refunded := s.pushRefundIfPositive withdrawalAddress refundAmount withdrawalEpoch
    refunded.pushRefundIfPositive refunded.treasuryAddress taxAmount withdrawalEpoch

/-- The account a deposit is credited to: the existing one, or a new inactive one when the
withdrawal credentials parse. -/
def depositAccount (s : LiveState) (request : DepositRequest) : Option ValidatorAccount :=
  match s.getAccount request.nodePubkey.val with
  | some account => some account
  | none =>
    (parseWithdrawalCredentials request.withdrawalCredentials).map fun withdrawalCredentials =>
      { consensusPublicKey := request.consensusPubkey
        withdrawalCredentials
        balance := 0
        status := .inactive
        joiningEpoch := 0
        lastDepositIndex := request.index }

/-- Credit a verified deposit, and schedule the activation of an inactive validator that reaches
the minimum stake, has nothing in the withdrawal queue and finds a free seat. -/
def creditDeposit (s : LiveState) (request : DepositRequest) (account : ValidatorAccount)
    (warmUpEpochs : Nat) : LiveState :=
  let pubkey := request.nodePubkey.val
  let credited : ValidatorAccount :=
    { account with
      balance := saturatingAdd account.balance request.amount
      lastDepositIndex := request.index }
  if credited.status = .inactive ∧ s.validatorMinimumStake ≤ credited.balance ∧
      s.withdrawalQueue.pendingCount pubkey = 0 ∧
      s.activeOrJoiningValidatorCount < s.prospectiveMaxValidatorCount then
    let activationEpoch := s.epoch + warmUpEpochs
    (s.setAccount pubkey { credited with status := .joining, joiningEpoch := activationEpoch })
      |>.addValidator activationEpoch
        { nodeKey := request.nodePubkey, consensusKey := credited.consensusPublicKey }
  else s.setAccount pubkey credited

/-- Process one deposit that has left the queue. -/
def processDeposit (s : LiveState) (request : DepositRequest) (domain : Digest)
    (warmUpEpochs withdrawalNumEpochs : Nat) : LiveState :=
  match s.verifyDepositRequest request domain with
  | .error reason =>
    s.refundDeposit request.withdrawalCredentials request.amount reason withdrawalNumEpochs
  | .ok () =>
    match s.depositAccount request with
    | none => s
    | some account => s.creditDeposit request account warmUpEpochs

/-- At most `cap` deposits off the queue, and whether there was one. -/
def drainDeposits (domain : Digest) (warmUpEpochs withdrawalNumEpochs : Nat) :
    Nat → LiveState → LiveState × Bool
  | 0, s => (s, false)
  | cap + 1, s =>
    match s.popDepositDeferred with
    | none => (s, false)
    | some (request, popped) =>
      ((drainDeposits domain warmUpEpochs withdrawalNumEpochs cap
        (popped.processDeposit request domain warmUpEpochs withdrawalNumEpochs)).1, true)

/-- Process queued deposits up to the cap per epoch, then rebuild the subtree once. -/
def processDeposits (s : LiveState) (domain : Digest) (warmUpEpochs withdrawalNumEpochs : Nat) :
    LiveState :=
  let (drained, drainedAny) :=
    drainDeposits domain warmUpEpochs withdrawalNumEpochs s.maxDepositsPerEpoch s
  if drainedAny then drained.rebuildDepositTree else drained

/-! ### Withdrawal requests -/

/-- The entry an accepted request appends, at the delay from the current epoch. -/
def enqueueWithdrawal (s : LiveState) (withdrawalCredentials : Address) (pubkey : Bytes32)
    (amount withdrawalEpoch : Nat) : LiveState × Bool :=
  s.pushWithdrawalRequestWithKind
    { sourceAddress := withdrawalCredentials, validatorPubkey := pubkey, amount }
    withdrawalEpoch .validator true

/-- Take a joining validator off the schedule and make it inactive. -/
def cancelJoining (s : LiveState) (pubkey : Bytes32) (account : ValidatorAccount) : LiveState :=
  let unscheduled :=
    if account.joiningEpoch > s.epoch then
      match PublicKey.decode pubkey with
      | some publicKey => s.removeAddedValidator account.joiningEpoch publicKey
      | none => s
    else s
  unscheduled.setAccount pubkey { account with status := .inactive }

/-- A request of an active validator: a full exit if the floor allows it, or a partial withdrawal
above the minimum stake. -/
def withdrawActive (s : LiveState) (pubkey : Bytes32) (account : ValidatorAccount)
    (requested withdrawalEpoch : Nat) : LiveState × Bool :=
  if requested = 0 then
    if !s.canAcceptActiveValidatorExit then (s, false)
    else match PublicKey.decode pubkey with
      | none => (s, false)
      | some publicKey =>
        ((s.pushRemovedValidator publicKey).incrementPendingActiveValidatorExits.setAccount pubkey
            { account with status := .submittedExitRequest })
          |>.enqueueWithdrawal account.withdrawalCredentials pubkey 0 withdrawalEpoch
  else
    let amount := min requested (account.balance - s.validatorMinimumStake)
    if amount = 0 then (s, false)
    else s.enqueueWithdrawal account.withdrawalCredentials pubkey amount withdrawalEpoch

/-- A request of an inactive validator: all it has, or part of it. -/
def withdrawInactive (s : LiveState) (pubkey : Bytes32) (account : ValidatorAccount)
    (requested withdrawalEpoch : Nat) : LiveState × Bool :=
  if requested = 0 then
    (s.setAccount pubkey { account with status := .fullPayoutPending }).enqueueWithdrawal
      account.withdrawalCredentials pubkey 0 withdrawalEpoch
  else
    let amount := min requested account.balance
    if amount = 0 then (s, false)
    else s.enqueueWithdrawal account.withdrawalCredentials pubkey amount withdrawalEpoch

/-- Apply a withdrawal request; the flag says that the withdrawal subtree is stale. -/
def applyWithdrawalRequestDeferred (s : LiveState) (request : WithdrawalRequest)
    (withdrawalNumEpochs : Nat) : LiveState × Bool :=
  let pubkey := request.validatorPubkey
  match s.getAccount pubkey with
  | none => (s, false)
  | some account =>
    if request.sourceAddress ≠ account.withdrawalCredentials then (s, false)
    else if account.status = .submittedExitRequest ∨ account.status = .fullPayoutPending then
      (s, false)
    else if s.withdrawalQueue.pendingCount pubkey ≥ s.maxPendingWithdrawalsPerValidator then
      (s, false)
    else
      let withdrawalEpoch := s.epoch + withdrawalNumEpochs
      if account.status = .active then
        s.withdrawActive pubkey account request.amount withdrawalEpoch
      else if account.status = .joining then
        -- a joining validator gives up its activation and is then handled as inactive
        (s.cancelJoining pubkey account).withdrawInactive pubkey
          { account with status := .inactive } request.amount withdrawalEpoch
      else s.withdrawInactive pubkey account request.amount withdrawalEpoch

/-- Rebuild the withdrawal subtree when a batch left it stale. -/
def flushWithdrawals (result : LiveState × Bool) : LiveState :=
  if result.2 then result.1.rebuildWithdrawalTree else result.1

def applyWithdrawalRequest (s : LiveState) (request : WithdrawalRequest)
    (withdrawalNumEpochs : Nat) : LiveState :=
  flushWithdrawals (s.applyWithdrawalRequestDeferred request withdrawalNumEpochs)

/-! ### The buffered requests of an epoch -/

/-- All requests of the buffered entries; an entry that does not parse has none. -/
def parseEntries (buffered : List (List UInt8)) : List ParsedExecutionRequest :=
  buffered.flatMap fun entry =>
    match ExecutionRequest.parseEthEntry entry with
    | .ok parsed => parsed
    | .error _ => []

/-- The parameter change of a request, if it is one and is accepted. -/
def paramOf : ParsedExecutionRequest → Option ProtocolParam
  | .valid (.protocolParam request) =>
    match ProtocolParam.tryFrom request with
    | .ok param => some param
    | .error _ => none
  | _ => none

/-- Route one request: deposits to their queue, withdrawals to the withdrawal queue, malformed
deposits to a refund. -/
def routeRequest (withdrawalNumEpochs : Nat) (acc : LiveState × Bool) :
    ParsedExecutionRequest → LiveState × Bool
  | .valid (.deposit deposit) => (acc.1.pushDeposit deposit, acc.2)
  | .valid (.withdrawal withdrawal) =>
    let (routed, stale) := acc.1.applyWithdrawalRequestDeferred withdrawal withdrawalNumEpochs
    (routed, acc.2 || stale)
  | .valid (.protocolParam _) => acc
  | .malformedDeposit chunk =>
    (acc.1.refundDeposit chunk.withdrawalCredentials chunk.amount .malformedKey
      withdrawalNumEpochs, acc.2)

/-- Queue the parameter changes of a batch and drop the count changes that conflict. -/
def stageParams (s : LiveState) (parsed : List ParsedExecutionRequest) : LiveState :=
  let batch := parsed.filterMap paramOf
  (if batch ≠ [] then s.pushProtocolParamChanges batch else s).rejectInvalidValidatorCountChanges

/-- Process the buffered requests: parameter changes first, then the other requests in order, then
the deposit queue up to its cap. -/
def processBufferedRequests (s : LiveState) (domain : Digest)
    (warmUpEpochs withdrawalNumEpochs : Nat) : LiveState :=
  let (buffered, taken) := s.takePendingExecutionRequests
  let parsed := parseEntries buffered
  let staged := taken.stageParams parsed
  let routed := flushWithdrawals (parsed.foldl (routeRequest withdrawalNumEpochs) (staged, false))
  routed.processDeposits domain warmUpEpochs withdrawalNumEpochs

end LiveState

/-! ### Enforcing a raised minimum stake -/

namespace StateData

/-- The keys already leaving this epoch. -/
def alreadyRemoved (data : StateData) : List Bytes32 := data.removedValidators.map (·.val)

/-- Active validators at or above the prospective minimum that are not leaving. -/
def retainedCount (data : StateData) : Nat :=
  data.validatorAccounts.entries.countP fun entry =>
    entry.2.status = .active ∧ data.prospectiveMinimumStake ≤ entry.2.balance ∧
      entry.1 ∉ data.alreadyRemoved

/-- Active and joining validators below the prospective minimum. -/
def belowMinimum (data : StateData) : List (Bytes32 × ValidatorAccount) :=
  data.validatorAccounts.entries.filter fun entry =>
    entry.2.balance < data.prospectiveMinimumStake ∧ entry.2.status.isActiveOrJoining = true

end StateData

namespace LiveState

/-- One candidate leaves: a joining one loses its activation, an active one is staged for
removal. -/
def removeCandidate (alreadyRemoved : List Bytes32) (s : LiveState)
    (candidate : Bytes32 × ValidatorAccount) : LiveState :=
  match PublicKey.decode candidate.1 with
  | none => s
  | some publicKey =>
    if candidate.1 ∈ alreadyRemoved then s
    else match candidate.2.status with
      | .joining =>
        if candidate.2.joiningEpoch > s.epoch then
          let unscheduled := s.removeAddedValidator candidate.2.joiningEpoch publicKey
          match unscheduled.getAccount candidate.1 with
          | some account => unscheduled.setAccount candidate.1 { account with status := .inactive }
          | none => unscheduled
        else s
      | .active => (s.pushRemovedValidator publicKey).incrementPendingActiveValidatorExits
      | _ => s

/-- Enforce a queued minimum stake: drop the change when too few validators would be retained,
otherwise remove everyone below it. -/
def enforceMinimumStake (s : LiveState) : LiveState :=
  if !s.protocolParamChanges.any StateData.isMinimumStake then s
  else if s.retainedCount < s.prospectiveMinimumValidatorCount then
    s.setProtocolParamChanges
      (s.protocolParamChanges.filter fun param => !StateData.isMinimumStake param)
  else s.belowMinimum.foldl (removeCandidate s.alreadyRemoved) s

end LiveState

/-! ### Payouts -/

/-- What one due entry pays against the balance available to it. -/
def withdrawalPayoutAmount (entry : PendingWithdrawal) (balance : Nat) (hasFloor : Bool)
    (minStake : Nat) : Nat :=
  match entry.kind with
  | .depositRefund => entry.inner.amount
  | .validator =>
    if entry.inner.amount = 0 then balance
    else min entry.inner.amount (balance - if hasFloor then minStake else 0)

/-- The entries due in `epoch` under the cap of the state. -/
def StateData.dueEntries (data : StateData) (epoch : Nat) : List PendingWithdrawal :=
  data.withdrawalQueue.getForEpochWithTotalCap epoch data.maxWithdrawalsPerEpoch

/-- One due entry of the emission, over the running balances. -/
def StateData.emitEntry (data : StateData)
    (acc : SortedMap Bytes32 Nat × List Withdrawal) (entry : PendingWithdrawal) :
    SortedMap Bytes32 Nat × List Withdrawal :=
  if entry.kind = .depositRefund then (acc.1, acc.2 ++ [entry.inner])
  else match data.getAccount entry.pubkey with
    | none => acc
    | some account =>
      if entry.inner.address ≠ account.withdrawalCredentials then acc
      else
        let balance := (acc.1.find? entry.pubkey).getD account.balance
        let payout := withdrawalPayoutAmount entry balance account.status.hasMinimumStakeFloor
          data.prospectiveMinimumStake
        (acc.1.insert entry.pubkey (balance - payout),
          if payout > 0 then acc.2 ++ [{ entry.inner with amount := payout }] else acc.2)

/-- The withdrawals to emit in `epoch`. -/
def StateData.emitWithdrawalPayouts (data : StateData) (epoch : Nat) : List Withdrawal :=
  ((data.dueEntries epoch).foldl data.emitEntry (.empty, [])).2

namespace LiveState

/-- Debit one consumed entry, removing the account when nothing is left. -/
def debitEntry (s : LiveState) (entry : PendingWithdrawal) (minStake : Nat) : LiveState :=
  if entry.kind = .depositRefund then s
  else match s.getAccount entry.pubkey with
    | none => s
    | some account =>
      if entry.inner.address ≠ account.withdrawalCredentials then s
      else
        let payout := withdrawalPayoutAmount entry account.balance
          account.status.hasMinimumStakeFloor minStake
        if account.balance - payout = 0 then s.removeAccount entry.pubkey
        else s.setAccount entry.pubkey { account with balance := account.balance - payout }

/-- Pop the entry with the given index, without rebuilding the subtree, and debit it. -/
def payIndex (minStake : Nat) (acc : LiveState × Bool) (index : Nat) : LiveState × Bool :=
  match acc.1.withdrawalQueue.popByIndex index with
  | none => acc
  | some (entry, queue) =>
    ((acc.1.putWithdrawalQueue queue).debitEntry entry minStake, true)

/-- Pop and debit the entries due in `epoch`, then rebuild the subtree once. -/
def payDue (s : LiveState) (epoch : Nat) : LiveState :=
  let indices := (s.dueEntries epoch).map fun entry => entry.inner.index
  flushWithdrawals (indices.foldl (payIndex s.prospectiveMinimumStake) (s, false))

/-- Apply the payouts of a finalized block; `none` when the block does not carry what the state
emits, where the source panics. -/
def applyWithdrawalPayouts (s : LiveState) (epoch : Nat) (blockWithdrawals : List Withdrawal) :
    Option LiveState :=
  if s.emitWithdrawalPayouts epoch ≠ blockWithdrawals then none else some (s.payDue epoch)

/-! ### The epoch boundary -/

/-- Make a scheduled validator active; `none` when it has no account, where the source panics. -/
def activate (s : LiveState) (validator : AddedValidator) : Option LiveState :=
  (s.getAccount validator.nodeKey.val).map fun account =>
    s.setAccount validator.nodeKey.val { account with status := .active }

/-- Move a removed validator out of the committee. -/
def depart (s : LiveState) (key : PublicKey) : LiveState :=
  match s.getAccount key.val with
  | none => s
  | some account =>
    s.setAccount key.val
      { account with
        status := if account.status = .submittedExitRequest then .fullPayoutPending
          else .inactive }

/-- Apply the staged committee changes, and say whether `nodePublicKey` was removed. -/
def applyCommitteeTransition (s : LiveState) (nodePublicKey : PublicKey) :
    Option (LiveState × Bool) :=
  let nextEpoch := s.epoch + 1
  let reset := s.resetPendingActiveValidatorExits
  if !reset.addedValidators.contains nextEpoch ∧ reset.removedValidators = [] then
    some (reset, false)
  else
    (((reset.addedValidators.find? nextEpoch).getD []).foldlM activate reset).map fun activated =>
      (activated.removedValidators.foldl depart activated,
        decide (nodePublicKey ∈ activated.removedValidators))

/-- Apply one queued parameter; `none` where the source panics. -/
def applyParam (s : LiveState) : ProtocolParam → Option LiveState
  | .minimumStake value => some (s.setMinimumStake value)
  | .epochLength length =>
    if positive : 0 < length then
      (s.epocher.updateLength length positive).map s.setEpocher
    else none
  | .allowedTimestampFuture ms => some (s.setAllowedTimestampFutureMs ms)
  | .treasuryAddress address => some (s.setTreasuryAddress address)
  | .maxDepositsPerEpoch value => some (s.setMaxDepositsPerEpoch value)
  | .maxWithdrawalsPerEpoch value => some (s.setMaxWithdrawalsPerEpoch value)
  | .observersPerValidator value =>
    if value < 2 ^ 32 then some (s.setObserversPerValidator value) else none
  | .maxValidatorCount value => some (s.setMaxValidatorCount value)
  | .minimumValidatorCount value => some (s.setMinimumValidatorCount value)
  | .invalidDepositTax value =>
    if value > maxInvalidDepositTax then some s else some (s.setInvalidDepositTax value)
  | .maxPendingWithdrawalsPerValidator value =>
    some (s.setMaxPendingWithdrawalsPerValidator value)

/-- Apply the queued parameters in order and clear them, and say whether the minimum stake was
among them. -/
def applyProtocolParameterChanges (s : LiveState) : Option (LiveState × Bool) :=
  let checked := s.rejectInvalidValidatorCountChanges
  (checked.protocolParamChanges.foldlM applyParam checked).map fun applied =>
    (applied.setProtocolParamChanges [],
      checked.protocolParamChanges.any StateData.isMinimumStake)

end LiveState

/-! ### The committee -/

/-- Peers by node key. -/
def sortPeers (peers : List (PublicKey × BlsPublicKey)) : List (PublicKey × BlsPublicKey) :=
  peers.insertionSort fun lhs rhs => lhs.1.val ≤ rhs.1.val

namespace StateData

/-- The keys of the accounts whose status satisfies `p`; `none` where a node key does not decode and
the source panics. -/
def validatorsWith (data : StateData) (p : ValidatorStatus → Bool) :
    Option (List (PublicKey × BlsPublicKey)) :=
  ((data.validatorAccounts.entries.filter fun entry => p entry.2.status).mapM fun entry =>
    (PublicKey.decode entry.1).map fun key => (key, entry.2.consensusPublicKey)).map sortPeers

def getActiveValidators (data : StateData) : Option (List (PublicKey × BlsPublicKey)) :=
  data.validatorsWith fun status => status = .active

def getCurrentEpochValidators (data : StateData) : Option (List (PublicKey × BlsPublicKey)) :=
  data.validatorsWith ValidatorStatus.isCurrentEpochSigner

def getAddedValidators (data : StateData) (epoch : Nat) : Option (List AddedValidator) :=
  data.addedValidators.find? epoch

def getRemovedValidators (data : StateData) : List PublicKey := data.removedValidators

end StateData

end Processing

end Summit
