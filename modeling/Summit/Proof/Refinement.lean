/-
**The incremental tree refines the rebuilt one.**

Every mutator of the live state keeps the tree in sync with the data. Inside a batch the deposit or
the withdrawal subtree may be stale; the flag that the batch returns says so, and its end rebuilds
the subtree. So after every public operation the live tree is the rebuilt tree, but for the schedule
leaf, which is refreshed when the root is captured.
-/

import Summit.Lib.Run
import Summit.Proof.LiveState
import Summit.Proof.StateTree

set_option linter.unusedSectionVars false

namespace Summit

open Bytes SszStateTree

variable [Crypto]

namespace LiveState

/-- The live tree commits to the data, up to the subtrees marked stale. -/
def InSync (staleDeposits staleWithdrawals : Bool) (s : LiveState) (schedule : Bytes32) : Prop :=
  s.sszTree.InSync staleDeposits staleWithdrawals s.toStateData schedule

variable {staleDeposits staleWithdrawals : Bool} {s : LiveState} {schedule : Bytes32}

theorem pushWithdrawalRequestWithKind_now (request : WithdrawalRequest) (epoch : Nat)
    (kind : WithdrawalKind) :
    (s.pushWithdrawalRequestWithKind request epoch kind false).2 = false := by
  simp only [LiveState.pushWithdrawalRequestWithKind, WithdrawalQueue.back_pushRequest]
  split <;> rfl

section Mutators

variable (sync : s.InSync staleDeposits staleWithdrawals schedule)

include sync

/-! ### Scalars -/

/-- **One scalar**: its leaf is set, and the collections stay. -/
theorem InSync.scalar (s' : LiveState) {j : Nat} {value : Bytes32} (inside : j < 29)
    (tree : s'.sszTree = s.sszTree.setTop j value)
    (leaves : (topLeaves s.sszTree s.toStateData schedule).set j value =
      topLeaves s'.sszTree s'.toStateData schedule)
    (kept : collections s'.toStateData = collections s.toStateData) :
    s'.InSync staleDeposits staleWithdrawals schedule := by
  rw [tree] at leaves
  rw [LiveState.InSync, tree]
  exact SszStateTree.InSync.setTop sync inside leaves kept

theorem InSync.setPendingActiveValidatorExits (value : Nat) :
    (s.setPendingActiveValidatorExits value).InSync staleDeposits staleWithdrawals schedule :=
  sync.scalar _ (by decide) rfl rfl rfl

theorem InSync.setForkchoiceSafeAndFinalized (hash : Bytes32) :
    (s.setForkchoiceSafeAndFinalized hash).InSync staleDeposits staleWithdrawals schedule := by
  have safe : (s.sszTree.setForkchoiceSafeBlockHash hash).InSync staleDeposits staleWithdrawals
      { s.toStateData with forkchoice := { s.forkchoice with safeBlockHash := hash } } schedule :=
    SszStateTree.InSync.setTop sync (by decide) rfl rfl
  exact SszStateTree.InSync.setTop safe (by decide) rfl rfl

theorem InSync.setForkchoice (forkchoice : ForkchoiceState) :
    (s.setForkchoice forkchoice).InSync staleDeposits staleWithdrawals schedule := by
  have head : (s.sszTree.setForkchoiceHeadBlockHash forkchoice.headBlockHash).InSync staleDeposits
      staleWithdrawals { s.toStateData with
        forkchoice := { s.forkchoice with headBlockHash := forkchoice.headBlockHash } }
      schedule :=
    SszStateTree.InSync.setTop sync (by decide) rfl rfl
  have safe : ((s.sszTree.setForkchoiceHeadBlockHash forkchoice.headBlockHash)
      |>.setForkchoiceSafeBlockHash forkchoice.safeBlockHash).InSync staleDeposits
      staleWithdrawals { s.toStateData with
        forkchoice := { forkchoice with finalizedBlockHash := s.forkchoice.finalizedBlockHash } }
      schedule :=
    SszStateTree.InSync.setTop head (by decide) rfl rfl
  exact SszStateTree.InSync.setTop safe (by decide) rfl rfl

/-- The schedule changes without the tree: its leaf keeps the old value. -/
theorem InSync.setEpocher (epocher : DynamicEpocher) :
    (s.setEpocher epocher).InSync staleDeposits staleWithdrawals schedule :=
  { sync with }

theorem InSync.refreshSchedule :
    s.refreshSchedule.InSync staleDeposits staleWithdrawals (hashByteList s.epocher.encode) :=
  SszStateTree.InSync.setTop sync (by decide) rfl rfl

/-! ### Collections that are rebuilt on every change -/

theorem InSync.setProtocolParamChanges (params : List ProtocolParam) :
    (s.setProtocolParamChanges params).InSync staleDeposits staleWithdrawals schedule :=
  SszStateTree.InSync.rebuildProtocolParams sync params

theorem InSync.setAddedValidators (validators : SortedMap Nat (List AddedValidator)) :
    (s.setAddedValidators validators).InSync staleDeposits staleWithdrawals schedule :=
  SszStateTree.InSync.rebuildAddedValidators sync validators

theorem InSync.setRemovedValidators (validators : List PublicKey) :
    (s.setRemovedValidators validators).InSync staleDeposits staleWithdrawals schedule :=
  SszStateTree.InSync.rebuildRemovedValidators sync validators

theorem InSync.setPendingExecutionRequests (requests : List (List UInt8)) :
    (s.setPendingExecutionRequests requests).InSync staleDeposits staleWithdrawals schedule :=
  SszStateTree.InSync.rebuildPendingExecutionRequests sync requests

theorem InSync.pushProtocolParamChanges (params : List ProtocolParam) :
    (s.pushProtocolParamChanges params).InSync staleDeposits staleWithdrawals schedule := by
  unfold LiveState.pushProtocolParamChanges
  split
  · exact sync.setProtocolParamChanges _
  · next same =>
    -- nothing was pushed, so the list is the old one
    have none_ : params = [] := by
      rw [not_not, List.length_append] at same
      exact List.length_eq_zero_iff.mp (by omega)
    subst none_
    have same : s.protocolParamChanges ++ [] = s.protocolParamChanges := List.append_nil _
    exact { sync with
      params := by rw [same]; exact sync.params
      paramCount := by rw [same]; exact sync.paramCount }

theorem InSync.rejectInvalidValidatorCountChanges :
    s.rejectInvalidValidatorCountChanges.InSync staleDeposits staleWithdrawals schedule := by
  unfold LiveState.rejectInvalidValidatorCountChanges
  split
  · exact sync.setProtocolParamChanges _
  · next same =>
    have same : s.consistentChanges = s.protocolParamChanges :=
      s.consistentChanges_sublist.eq_of_length (not_not.mp same)
    exact { sync with
      params := by rw [same]; exact sync.params
      paramCount := by rw [same]; exact sync.paramCount }

theorem InSync.addValidator (epoch : Nat) (validator : AddedValidator) :
    (s.addValidator epoch validator).InSync staleDeposits staleWithdrawals schedule :=
  sync.setAddedValidators _

theorem InSync.removeAddedValidator (epoch : Nat) (pubkey : PublicKey) :
    (s.removeAddedValidator epoch pubkey).InSync staleDeposits staleWithdrawals schedule := by
  unfold LiveState.removeAddedValidator
  split
  · exact sync
  · exact sync.setAddedValidators _

theorem InSync.removeAddedValidatorsForEpoch (epoch : Nat) :
    (s.removeAddedValidatorsForEpoch epoch).InSync staleDeposits staleWithdrawals schedule := by
  unfold LiveState.removeAddedValidatorsForEpoch
  split
  · exact sync
  · exact sync.setAddedValidators _

theorem InSync.bufferExecutionRequests (requests : List (List UInt8)) :
    (s.bufferExecutionRequests requests).InSync staleDeposits staleWithdrawals schedule := by
  unfold LiveState.bufferExecutionRequests
  split
  · exact sync
  · exact sync.setPendingExecutionRequests _

/-! ### Accounts -/

theorem InSync.setAccount (pubkey : Bytes32) (account : ValidatorAccount) :
    (s.setAccount pubkey account).InSync staleDeposits staleWithdrawals schedule := by
  unfold LiveState.setAccount
  split
  · next found => exact SszStateTree.InSync.updateValidator sync found account
  · next absent => exact SszStateTree.InSync.insertValidator sync absent account

theorem InSync.removeAccount (pubkey : Bytes32) :
    (s.removeAccount pubkey).InSync staleDeposits staleWithdrawals schedule := by
  unfold LiveState.removeAccount
  split
  · exact sync
  · next found =>
    exact SszStateTree.InSync.removeValidator sync found
      (lt_of_lt_of_eq (SortedMap.slot_lt_size found) s.counted.symm)

/-! ### Queues -/

theorem InSync.rebuildDepositTree :
    s.rebuildDepositTree.InSync false staleWithdrawals schedule :=
  SszStateTree.InSync.rebuildDeposits sync s.depositQueue

theorem InSync.putDepositQueue (queue : List DepositRequest) :
    (s.putDepositQueue queue).InSync true staleWithdrawals schedule :=
  { sync with deposits := fun fresh => Bool.noConfusion fresh }

theorem InSync.popDepositLeaves : s.popDepositLeaves.InSync false staleWithdrawals schedule :=
  SszStateTree.InSync.rebuildDeposits sync s.depositQueue

variable {request : DepositRequest} {popped : LiveState} {queue : WithdrawalQueue}

theorem InSync.popDeposit (result : s.popDeposit = some (request, popped)) :
    popped.InSync false staleWithdrawals schedule := by
  unfold LiveState.popDeposit at result
  split at result
  · cases result
  · next rest _ =>
    obtain ⟨rfl, rfl⟩ := Prod.mk.inj (Option.some.inj result)
    exact (sync.putDepositQueue rest).popDepositLeaves

theorem InSync.popDepositDeferred (result : s.popDepositDeferred = some (request, popped)) :
    popped.InSync true staleWithdrawals schedule := by
  unfold LiveState.popDepositDeferred at result
  split at result
  · cases result
  · next rest _ =>
    obtain ⟨rfl, rfl⟩ := Prod.mk.inj (Option.some.inj result)
    exact sync.putDepositQueue rest

theorem InSync.rebuildWithdrawalTree :
    s.rebuildWithdrawalTree.InSync staleDeposits false schedule :=
  SszStateTree.InSync.rebuildWithdrawals sync rfl

theorem InSync.putWithdrawalQueue (sameIndex : queue.nextIndex = s.withdrawalQueue.nextIndex) :
    (s.putWithdrawalQueue queue).InSync staleDeposits true schedule :=
  { sync with
    top := by
      have same : topLeaves s.sszTree (s.putWithdrawalQueue queue).toStateData schedule =
          topLeaves s.sszTree s.toStateData schedule := by
        simp only [topLeaves, data_putWithdrawalQueue, sameIndex]
      exact same ▸ sync.top
    withdrawals := fun fresh => Bool.noConfusion fresh }

theorem InSync.pushWithdrawal (withdrawal : PendingWithdrawal) :
    (s.pushWithdrawal withdrawal).InSync staleDeposits false schedule :=
  (sync.putWithdrawalQueue (s.withdrawalQueue.nextIndex_push withdrawal)).rebuildWithdrawalTree

theorem InSync.popWithdrawal {epoch : Nat} {withdrawal : PendingWithdrawal}
    (result : s.popWithdrawal epoch = some (withdrawal, popped)) :
    popped.InSync staleDeposits false schedule := by
  unfold LiveState.popWithdrawal at result
  split at result
  · cases result
  · next found =>
    obtain ⟨rfl, rfl⟩ := Prod.mk.inj (Option.some.inj result)
    exact (sync.putWithdrawalQueue (WithdrawalQueue.pops_pop found).2).rebuildWithdrawalTree

theorem InSync.setNextIndex (queue : WithdrawalQueue) :
    (s.sszTree.setNextWithdrawalIndex queue.nextIndex).InSync staleDeposits staleWithdrawals
      { s.toStateData with withdrawalQueue := s.withdrawalQueue.setNextIndex queue.nextIndex }
      schedule :=
  SszStateTree.InSync.setTop sync (by decide) rfl rfl

/-- Replacing the queue leaves the entries' subtree behind. -/
theorem InSync.setWithdrawalQueue (queue : WithdrawalQueue) :
    (s.setWithdrawalQueue queue).InSync staleDeposits true schedule :=
  { sync.setNextIndex queue with withdrawals := fun fresh => Bool.noConfusion fresh }

/-- An entry at the end of the combined order needs only its own leaves. -/
theorem InSync.appendWithdrawal {entry : PendingWithdrawal}
    (appended : queue.iterAll = s.withdrawalQueue.iterAll ++ [entry]) :
    ((s.setWithdrawalQueue queue).appendWithdrawalLeaves entry).InSync staleDeposits
      staleWithdrawals schedule :=
  SszStateTree.InSync.pushWithdrawal (sync.setNextIndex queue) rfl appended

theorem InSync.pushWithdrawalRequestWithKind (request : WithdrawalRequest) (epoch : Nat)
    (kind : WithdrawalKind) (deferRebuild : Bool) :
    (s.pushWithdrawalRequestWithKind request epoch kind deferRebuild).1.InSync staleDeposits
      (staleWithdrawals ||
        (s.pushWithdrawalRequestWithKind request epoch kind deferRebuild).2) schedule := by
  simp only [LiveState.pushWithdrawalRequestWithKind, WithdrawalQueue.back_pushRequest]
  split
  · cases deferRebuild with
    | true =>
      rw [if_pos rfl, Bool.or_true]
      exact sync.setWithdrawalQueue _
    | false =>
      rw [if_neg Bool.false_ne_true, Bool.or_false]
      exact (sync.setWithdrawalQueue _).rebuildWithdrawalTree.weaken id fun _ => rfl
  · next apart =>
    rw [Bool.or_false]
    refine sync.appendWithdrawal ?_
    cases kind with
    | depositRefund => exact s.withdrawalQueue.iterAll_pushRequest_refund request epoch
    | validator =>
      refine s.withdrawalQueue.iterAll_pushRequest_validator request epoch ?_
      by_contra refunds
      refine apart ⟨rfl, ?_⟩
      rw [WithdrawalQueue.back, List.getLast?_isSome]
      simpa [WithdrawalQueue.deque] using refunds

theorem InSync.pushRefundWithdrawalRequest (request : WithdrawalRequest) (epoch : Nat) :
    (s.pushRefundWithdrawalRequest request epoch).InSync staleDeposits staleWithdrawals
      schedule := by
  have pushed := sync.pushWithdrawalRequestWithKind request epoch .depositRefund false
  rwa [pushWithdrawalRequestWithKind_now, Bool.or_false] at pushed

theorem InSync.pushWithdrawalRequest (request : WithdrawalRequest) (epoch : Nat) :
    (s.pushWithdrawalRequest request epoch).InSync staleDeposits staleWithdrawals schedule := by
  have pushed := sync.pushWithdrawalRequestWithKind request epoch .validator false
  rwa [pushWithdrawalRequestWithKind_now, Bool.or_false] at pushed

/-! ### Deposits -/

theorem InSync.pushRefundIfPositive (address : Address) (amount epoch : Nat) :
    (s.pushRefundIfPositive address amount epoch).InSync staleDeposits staleWithdrawals
      schedule := by
  unfold LiveState.pushRefundIfPositive
  split
  · exact sync.pushRefundWithdrawalRequest _ _
  · exact sync

theorem InSync.refundDeposit (credentials : Bytes32) (amount : Nat)
    (reason : DepositRejectionReason) (delay : Nat) :
    (s.refundDeposit credentials amount reason delay).InSync staleDeposits staleWithdrawals
      schedule := by
  unfold LiveState.refundDeposit
  split
  · exact sync
  · exact (sync.pushRefundIfPositive _ _ _).pushRefundIfPositive _ _ _

theorem InSync.creditDeposit (request : DepositRequest) (account : ValidatorAccount)
    (warmUp : Nat) :
    (s.creditDeposit request account warmUp).InSync staleDeposits staleWithdrawals schedule := by
  unfold LiveState.creditDeposit
  dsimp only
  split
  · exact (sync.setAccount _ _).addValidator _ _
  · exact sync.setAccount _ _

theorem InSync.processDeposit (request : DepositRequest) (domain : Digest) (warmUp delay : Nat) :
    (s.processDeposit request domain warmUp delay).InSync staleDeposits staleWithdrawals
      schedule := by
  unfold LiveState.processDeposit
  split
  · exact sync.refundDeposit _ _ _ _
  · split
    · exact sync
    · exact sync.creditDeposit _ _ _

end Mutators

/-- A batch that takes a deposit off the queue leaves the subtree stale, and says so. -/
theorem InSync.drainDeposits (domain : Digest) (warmUp delay cap : Nat)
    (sync : s.InSync staleDeposits staleWithdrawals schedule) :
    (LiveState.drainDeposits domain warmUp delay cap s).1.InSync
      (staleDeposits || (LiveState.drainDeposits domain warmUp delay cap s).2) staleWithdrawals
      schedule := by
  induction cap generalizing s staleDeposits with
  | zero => exact sync.weaken (fun fresh => (Bool.or_eq_false_iff.mp fresh).1) id
  | succ cap ih =>
    unfold LiveState.drainDeposits
    split
    · exact sync.weaken (fun fresh => (Bool.or_eq_false_iff.mp fresh).1) id
    · next request popped result =>
      rw [Bool.or_true]
      exact ih ((sync.popDepositDeferred result).processDeposit request domain warmUp delay)

section Steps

variable (sync : s.InSync staleDeposits staleWithdrawals schedule)

include sync

theorem InSync.processDeposits (domain : Digest) (warmUp delay : Nat) :
    (s.processDeposits domain warmUp delay).InSync staleDeposits staleWithdrawals schedule := by
  have drained := sync.drainDeposits domain warmUp delay s.maxDepositsPerEpoch
  unfold LiveState.processDeposits
  dsimp only
  split
  · exact drained.rebuildDepositTree.weaken (fun _ => rfl) id
  · next none_ =>
    rwa [Bool.eq_false_iff.mpr none_, Bool.or_false] at drained

/-! ### Withdrawal requests -/

theorem InSync.enqueueWithdrawal (credentials : Address) (pubkey : Bytes32)
    (amount epoch : Nat) :
    (s.enqueueWithdrawal credentials pubkey amount epoch).1.InSync staleDeposits
      (staleWithdrawals || (s.enqueueWithdrawal credentials pubkey amount epoch).2) schedule :=
  sync.pushWithdrawalRequestWithKind _ epoch .validator true

theorem InSync.unchanged : (s, false).1.InSync staleDeposits (staleWithdrawals || (s, false).2)
    schedule := by
  rwa [Bool.or_false]

theorem InSync.withdrawActive (pubkey : Bytes32) (account : ValidatorAccount)
    (requested epoch : Nat) :
    (s.withdrawActive pubkey account requested epoch).1.InSync staleDeposits
      (staleWithdrawals || (s.withdrawActive pubkey account requested epoch).2) schedule := by
  unfold LiveState.withdrawActive
  dsimp only
  split
  · split
    · exact sync.unchanged
    · split
      · exact sync.unchanged
      · exact (((sync.setRemovedValidators _).setPendingActiveValidatorExits _).setAccount _ _)
          |>.enqueueWithdrawal _ _ _ _
  · split
    · exact sync.unchanged
    · exact sync.enqueueWithdrawal _ _ _ _

theorem InSync.withdrawInactive (pubkey : Bytes32) (account : ValidatorAccount)
    (requested epoch : Nat) :
    (s.withdrawInactive pubkey account requested epoch).1.InSync staleDeposits
      (staleWithdrawals || (s.withdrawInactive pubkey account requested epoch).2) schedule := by
  unfold LiveState.withdrawInactive
  dsimp only
  split
  · exact (sync.setAccount _ _).enqueueWithdrawal _ _ _ _
  · split
    · exact sync.unchanged
    · exact sync.enqueueWithdrawal _ _ _ _

theorem InSync.cancelJoining (pubkey : Bytes32) (account : ValidatorAccount) :
    (s.cancelJoining pubkey account).InSync staleDeposits staleWithdrawals schedule := by
  refine InSync.setAccount ?_ _ _
  split
  · split
    · exact sync.removeAddedValidator _ _
    · exact sync
  · exact sync

theorem InSync.applyWithdrawalRequestDeferred (request : WithdrawalRequest) (delay : Nat) :
    (s.applyWithdrawalRequestDeferred request delay).1.InSync staleDeposits
      (staleWithdrawals || (s.applyWithdrawalRequestDeferred request delay).2) schedule := by
  unfold LiveState.applyWithdrawalRequestDeferred
  dsimp only
  split
  · exact sync.unchanged
  split
  · exact sync.unchanged
  split
  · exact sync.unchanged
  split
  · exact sync.unchanged
  split
  · exact sync.withdrawActive _ _ _ _
  split
  · exact (sync.cancelJoining _ _).withdrawInactive _ _ _ _
  · exact sync.withdrawInactive _ _ _ _

/-! ### Candidates, payouts and the boundary -/

theorem InSync.removeCandidate (alreadyRemoved : List Bytes32)
    (candidate : Bytes32 × ValidatorAccount) :
    (LiveState.removeCandidate alreadyRemoved s candidate).InSync staleDeposits staleWithdrawals
      schedule := by
  unfold LiveState.removeCandidate
  split
  · exact sync
  split
  · exact sync
  split
  · split
    · dsimp only
      split
      · exact (sync.removeAddedValidator _ _).setAccount _ _
      · exact sync.removeAddedValidator _ _
    · exact sync
  · exact (sync.setRemovedValidators _).setPendingActiveValidatorExits _
  · exact sync

theorem InSync.enforceMinimumStake :
    s.enforceMinimumStake.InSync staleDeposits staleWithdrawals schedule := by
  unfold LiveState.enforceMinimumStake
  split
  · exact sync
  split
  · exact sync.setProtocolParamChanges _
  · exact Run.invariant_foldl (P := (InSync staleDeposits staleWithdrawals · schedule))
      (fun _ candidate _ sync => sync.removeCandidate _ candidate) sync

theorem InSync.debitEntry (entry : PendingWithdrawal) (minStake : Nat) :
    (s.debitEntry entry minStake).InSync staleDeposits staleWithdrawals schedule := by
  unfold LiveState.debitEntry
  split
  · exact sync
  split
  · exact sync
  split
  · exact sync
  dsimp only
  split
  · exact sync.removeAccount _
  · exact sync.setAccount _ _

theorem InSync.depart (key : PublicKey) :
    (s.depart key).InSync staleDeposits staleWithdrawals schedule := by
  unfold LiveState.depart
  split
  · exact sync
  · exact sync.setAccount _ _

theorem InSync.activate {validator : AddedValidator} {activated : LiveState}
    (result : s.activate validator = some activated) :
    activated.InSync staleDeposits staleWithdrawals schedule := by
  obtain ⟨account, -, rfl⟩ := Option.map_eq_some_iff.mp result
  exact sync.setAccount _ _

theorem InSync.applyCommitteeTransition {key : PublicKey} {result : LiveState × Bool}
    (applied : s.applyCommitteeTransition key = some result) :
    result.1.InSync staleDeposits staleWithdrawals schedule := by
  have reset := sync.setPendingActiveValidatorExits 0
  exact LiveState.applyCommitteeTransition_rule
    (P := (InSync staleDeposits staleWithdrawals · schedule)) applied reset
    (fun _ _ _ sync result => sync.activate result) fun _ key sync => sync.depart key

theorem InSync.applyParam {param : ProtocolParam} {applied : LiveState}
    (result : s.applyParam param = some applied) :
    applied.InSync staleDeposits staleWithdrawals schedule := by
  cases param with
  | minimumStake | allowedTimestampFuture | treasuryAddress | maxDepositsPerEpoch
  | maxWithdrawalsPerEpoch | maxValidatorCount | minimumValidatorCount
  | maxPendingWithdrawalsPerValidator =>
    obtain rfl := Option.some.inj result
    exact sync.scalar _ (by decide) rfl rfl rfl
  | epochLength length =>
    obtain ⟨-, epocher, -, rfl⟩ := LiveState.applyParam_epochLength result
    exact sync.setEpocher epocher
  | observersPerValidator value =>
    obtain rfl := LiveState.applyParam_observers result
    exact sync.scalar _ (by decide) rfl rfl rfl
  | invalidDepositTax value =>
    rcases LiveState.applyParam_tax result with rfl | ⟨-, rfl⟩
    · exact sync
    · exact sync.scalar _ (by decide) rfl rfl rfl

theorem InSync.applyProtocolParameterChanges {result : LiveState × Bool}
    (applied : s.applyProtocolParameterChanges = some result) :
    result.1.InSync staleDeposits staleWithdrawals schedule := by
  obtain ⟨changed, run, rfl⟩ := Option.map_eq_some_iff.mp applied
  have changedSync : changed.InSync staleDeposits staleWithdrawals schedule :=
    Run.invariant (P := (InSync staleDeposits staleWithdrawals · schedule))
      (fun _ _ _ _ sync result => sync.applyParam result)
      sync.rejectInvalidValidatorCountChanges run
  exact changedSync.setProtocolParamChanges []

theorem InSync.stageParams (parsed : List ParsedExecutionRequest) :
    (s.stageParams parsed).InSync staleDeposits staleWithdrawals schedule := by
  refine InSync.rejectInvalidValidatorCountChanges ?_
  split
  · exact sync.pushProtocolParamChanges _
  · exact sync

end Steps

/-! ### Batches that put off the withdrawal subtree -/

/-- Between two requests of a batch the flag says whether the withdrawal subtree is stale. -/
def BatchInSync (schedule : Bytes32) (batch : LiveState × Bool) : Prop :=
  batch.1.InSync false batch.2 schedule

variable {batch : LiveState × Bool}

theorem BatchInSync.flush (sync : BatchInSync schedule batch) :
    (flushWithdrawals batch).InSync false false schedule := by
  obtain ⟨s, stale⟩ := batch
  cases stale with
  | true => exact InSync.rebuildWithdrawalTree sync
  | false => exact sync

theorem BatchInSync.routeRequest (sync : BatchInSync schedule batch) (delay : Nat)
    (request : ParsedExecutionRequest) :
    BatchInSync schedule (LiveState.routeRequest delay batch request) := by
  unfold LiveState.routeRequest
  split
  · exact SszStateTree.InSync.pushDeposit sync rfl _
  · exact InSync.applyWithdrawalRequestDeferred sync _ _
  · exact sync
  · exact InSync.refundDeposit sync _ _ .malformedKey delay

theorem BatchInSync.payIndex (sync : BatchInSync schedule batch) (minStake index : Nat) :
    BatchInSync schedule (LiveState.payIndex minStake batch index) := by
  unfold LiveState.payIndex
  split
  · exact sync
  · next found =>
    exact (InSync.putWithdrawalQueue sync (WithdrawalQueue.pops_popByIndex found).2).debitEntry _ _

section Whole

variable (sync : s.InSync false false schedule)

include sync

theorem InSync.pushDeposit (request : DepositRequest) :
    (s.pushDeposit request).InSync false false schedule :=
  SszStateTree.InSync.pushDeposit sync rfl request

theorem InSync.applyWithdrawalRequest (request : WithdrawalRequest) (delay : Nat) :
    (s.applyWithdrawalRequest request delay).InSync false false schedule :=
  BatchInSync.flush (sync.applyWithdrawalRequestDeferred request delay)

theorem InSync.processBufferedRequests (domain : Digest) (warmUp delay : Nat) :
    (s.processBufferedRequests domain warmUp delay).InSync false false schedule := by
  have staged := (sync.setPendingExecutionRequests []).stageParams
    (parseEntries s.pendingExecutionRequests)
  have routed : BatchInSync schedule ((parseEntries s.pendingExecutionRequests).foldl
      (LiveState.routeRequest delay)
      ((s.setPendingExecutionRequests []).stageParams
        (parseEntries s.pendingExecutionRequests), false)) :=
    Run.invariant_foldl (fun batch request _ sync => sync.routeRequest delay request) staged
  exact routed.flush.processDeposits domain warmUp delay

theorem InSync.payDue (epoch : Nat) : (s.payDue epoch).InSync false false schedule := by
  have batch : BatchInSync schedule (((s.dueEntries epoch).map fun entry => entry.inner.index).foldl
      (LiveState.payIndex s.prospectiveMinimumStake) (s, false)) :=
    Run.invariant_foldl (fun batch index _ sync => sync.payIndex _ index) sync
  exact batch.flush

theorem InSync.applyWithdrawalPayouts {epoch : Nat} {withdrawals : List Withdrawal}
    {paid : LiveState} (result : s.applyWithdrawalPayouts epoch withdrawals = some paid) :
    paid.InSync false false schedule := by
  unfold LiveState.applyWithdrawalPayouts at result
  split at result
  · cases result
  · exact Option.some.inj result ▸ sync.payDue epoch

end Whole

end LiveState

end Summit
