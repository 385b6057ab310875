/-
**What the mutators do to the committed data.**

An equation for a mutator says what data it leaves; the tree plays no part in it. They are simp
lemmas, so a fact about the data after a sequence of mutators is a fact about these equations.
-/

import Summit.Lib.Run
import Summit.Model.Processing
import Summit.Proof.WithdrawalQueue

set_option linter.unusedSectionVars false

namespace Summit

variable [Crypto]

/-! ### Rejected parameter changes -/

namespace StateData

theorem cappedChanges_sublist (data : StateData) :
    data.cappedChanges.Sublist data.protocolParamChanges := by
  unfold cappedChanges
  split
  · exact List.filter_sublist
  · exact List.Sublist.refl _

theorem consistentChanges_sublist (data : StateData) :
    data.consistentChanges.Sublist data.protocolParamChanges := by
  unfold consistentChanges
  split
  · exact List.filter_sublist.trans data.cappedChanges_sublist
  · exact data.cappedChanges_sublist

end StateData

namespace LiveState

variable (s : LiveState)

/-! ### Scalars -/

@[simp] theorem data_setEpoch (epoch : Nat) :
    (s.setEpoch epoch).toStateData = { s.toStateData with epoch } := rfl

@[simp] theorem data_setView (view : Nat) :
    (s.setView view).toStateData = { s.toStateData with view } := rfl

@[simp] theorem data_setLatestHeight (height : Nat) :
    (s.setLatestHeight height).toStateData = { s.toStateData with latestHeight := height } := rfl

@[simp] theorem data_setAllowedTimestampFutureMs (ms : Nat) :
    (s.setAllowedTimestampFutureMs ms).toStateData =
      { s.toStateData with allowedTimestampFutureMs := ms } := rfl

@[simp] theorem data_incrementPendingActiveValidatorExits :
    s.incrementPendingActiveValidatorExits.toStateData =
      { s.toStateData with
        pendingActiveValidatorExits := saturatingAdd s.pendingActiveValidatorExits 1 } := rfl

@[simp] theorem data_resetPendingActiveValidatorExits :
    s.resetPendingActiveValidatorExits.toStateData =
      { s.toStateData with pendingActiveValidatorExits := 0 } := rfl

@[simp] theorem data_setPendingCheckpoint (checkpoint : Option Checkpoint) :
    (s.setPendingCheckpoint checkpoint).toStateData =
      { s.toStateData with pendingCheckpoint := checkpoint } := rfl

@[simp] theorem data_setForkchoiceHead (hash : Bytes32) :
    (s.setForkchoiceHead hash).toStateData =
      { s.toStateData with forkchoice := { s.forkchoice with headBlockHash := hash } } := rfl

@[simp] theorem data_setForkchoiceSafeAndFinalized (hash : Bytes32) :
    (s.setForkchoiceSafeAndFinalized hash).toStateData =
      { s.toStateData with
        forkchoice :=
          { s.forkchoice with safeBlockHash := hash, finalizedBlockHash := hash } } := rfl

@[simp] theorem data_setEpochGenesisHash (hash : Bytes32) :
    (s.setEpochGenesisHash hash).toStateData = { s.toStateData with epochGenesisHash := hash } := rfl

@[simp] theorem data_setHeadDigest (digest : Digest) :
    (s.setHeadDigest digest).toStateData = { s.toStateData with headDigest := digest } := rfl

@[simp] theorem data_setEpocher (epocher : DynamicEpocher) :
    (s.setEpocher epocher).toStateData = { s.toStateData with epocher } := rfl

@[simp] theorem data_refreshSchedule : s.refreshSchedule.toStateData = s.toStateData := rfl

/-! ### Collections -/

@[simp] theorem data_setProtocolParamChanges (params : List ProtocolParam) :
    (s.setProtocolParamChanges params).toStateData =
      { s.toStateData with protocolParamChanges := params } := rfl

@[simp] theorem data_pushProtocolParamChanges (params : List ProtocolParam) :
    (s.pushProtocolParamChanges params).toStateData =
      { s.toStateData with protocolParamChanges := s.protocolParamChanges ++ params } := by
  unfold pushProtocolParamChanges
  split <;> rfl

@[simp] theorem data_rejectInvalidValidatorCountChanges :
    s.rejectInvalidValidatorCountChanges.toStateData =
      { s.toStateData with protocolParamChanges := s.consistentChanges } := by
  unfold rejectInvalidValidatorCountChanges
  split <;> rfl

@[simp] theorem data_addValidator (epoch : Nat) (validator : AddedValidator) :
    (s.addValidator epoch validator).toStateData =
      { s.toStateData with
        addedValidators := s.addedValidators.insert epoch
          ((s.addedValidators.find? epoch).getD [] ++ [validator]) } := rfl

@[simp] theorem data_removeAddedValidator (epoch : Nat) (pubkey : PublicKey) :
    (s.removeAddedValidator epoch pubkey).toStateData =
      { s.toStateData with
        addedValidators :=
          (withoutAddedValidator s.addedValidators epoch pubkey).getD s.addedValidators } := by
  unfold removeAddedValidator
  cases withoutAddedValidator s.addedValidators epoch pubkey <;> rfl

@[simp] theorem data_removeAddedValidatorsForEpoch (epoch : Nat) :
    (s.removeAddedValidatorsForEpoch epoch).toStateData =
      { s.toStateData with addedValidators := s.addedValidators.erase epoch } := by
  unfold removeAddedValidatorsForEpoch
  cases found : s.addedValidators.find? epoch with
  | none => rw [SortedMap.erase_of_none found]
  | some _ => rfl

@[simp] theorem data_pushRemovedValidator (pubkey : PublicKey) :
    (s.pushRemovedValidator pubkey).toStateData =
      { s.toStateData with removedValidators := s.removedValidators ++ [pubkey] } := rfl

@[simp] theorem data_clearRemovedValidators :
    s.clearRemovedValidators.toStateData = { s.toStateData with removedValidators := [] } := rfl

@[simp] theorem data_bufferExecutionRequests (requests : List (List UInt8)) :
    (s.bufferExecutionRequests requests).toStateData =
      { s.toStateData with
        pendingExecutionRequests := s.pendingExecutionRequests ++ requests } := by
  unfold bufferExecutionRequests
  split
  · next empty => rw [empty, List.append_nil]
  · rfl

@[simp] theorem data_setAccount (pubkey : Bytes32) (account : ValidatorAccount) :
    (s.setAccount pubkey account).toStateData =
      { s.toStateData with
        validatorAccounts := s.validatorAccounts.insert pubkey account } := by
  unfold setAccount
  split <;> rfl

@[simp] theorem data_removeAccount (pubkey : Bytes32) :
    (s.removeAccount pubkey).toStateData =
      { s.toStateData with validatorAccounts := s.validatorAccounts.erase pubkey } := by
  unfold removeAccount
  split
  · next absent => rw [SortedMap.erase_of_none absent]
  · rfl

/-! ### Queues -/

@[simp] theorem data_pushDeposit (request : DepositRequest) :
    (s.pushDeposit request).toStateData =
      { s.toStateData with depositQueue := s.depositQueue ++ [request] } := rfl

@[simp] theorem data_putWithdrawalQueue (queue : WithdrawalQueue) :
    (s.putWithdrawalQueue queue).toStateData =
      { s.toStateData with withdrawalQueue := queue } := rfl

@[simp] theorem data_flushWithdrawals (result : LiveState × Bool) :
    (flushWithdrawals result).toStateData = result.1.toStateData := by
  unfold flushWithdrawals
  split <;> rfl

@[simp] theorem data_pushWithdrawalRequestWithKind (request : WithdrawalRequest)
    (epoch : Nat) (kind : WithdrawalKind) (deferRebuild : Bool) :
    (s.pushWithdrawalRequestWithKind request epoch kind deferRebuild).1.toStateData =
      { s.toStateData with
        withdrawalQueue := s.withdrawalQueue.pushRequestWithKind request epoch kind } := by
  simp only [pushWithdrawalRequestWithKind]
  split
  · split <;> rfl
  · split <;> rfl

@[simp] theorem data_pushRefundWithdrawalRequest (request : WithdrawalRequest) (epoch : Nat) :
    (s.pushRefundWithdrawalRequest request epoch).toStateData =
      { s.toStateData with
        withdrawalQueue :=
          s.withdrawalQueue.pushRequestWithKind request epoch .depositRefund } :=
  s.data_pushWithdrawalRequestWithKind request epoch .depositRefund false

@[simp] theorem data_enqueueWithdrawal (credentials : Address) (pubkey : Bytes32)
    (amount epoch : Nat) :
    (s.enqueueWithdrawal credentials pubkey amount epoch).1.toStateData =
      { s.toStateData with
        withdrawalQueue := s.withdrawalQueue.pushRequestWithKind
          { sourceAddress := credentials, validatorPubkey := pubkey, amount } epoch .validator } :=
  s.data_pushWithdrawalRequestWithKind _ epoch .validator true

/-! ### The boundary -/

variable {s} {s' : LiveState}

theorem applyParam_epochLength {length : Nat}
    (result : s.applyParam (.epochLength length) = some s') :
    ∃ (positive : 0 < length) (epocher : DynamicEpocher),
      s.epocher.updateLength length positive = some epocher ∧ s' = s.setEpocher epocher := by
  unfold applyParam at result
  dsimp only at result
  split at result
  · next positive =>
    obtain ⟨epocher, update, rfl⟩ := Option.map_eq_some_iff.mp result
    exact ⟨positive, epocher, update, rfl⟩
  · cases result

theorem applyParam_observers {value : Nat}
    (result : s.applyParam (.observersPerValidator value) = some s') :
    s' = s.setObserversPerValidator value :=
  (Option.some.inj (Option.ite_none_right_eq_some.mp result).2).symm

theorem applyParam_tax {value : Nat} (result : s.applyParam (.invalidDepositTax value) = some s') :
    s' = s ∨ value ≤ maxInvalidDepositTax ∧ s' = s.setInvalidDepositTax value := by
  unfold applyParam at result
  dsimp only at result
  split at result
  · exact .inl (Option.some.inj result).symm
  · next percent => exact .inr ⟨Nat.le_of_not_gt percent, (Option.some.inj result).symm⟩

/-- What the reset, the activations and the departures keep, the transition keeps. -/
theorem applyCommitteeTransition_rule {P : LiveState → Prop} {key : PublicKey}
    {result : LiveState × Bool} (applied : s.applyCommitteeTransition key = some result)
    (reset : P s.resetPendingActiveValidatorExits)
    (activates : ∀ t validator t', P t → t.activate validator = some t' → P t')
    (departs : ∀ t key, P t → P (t.depart key)) : P result.1 := by
  unfold applyCommitteeTransition at applied
  dsimp only at applied
  split at applied
  · exact Option.some.inj applied ▸ reset
  · obtain ⟨activated, run, rfl⟩ := Option.map_eq_some_iff.mp applied
    have held := Run.invariant (fun t validator t' _ => activates t validator t') reset run
    exact Run.invariant_foldl (fun t key _ => departs t key) held

end LiveState

end Summit
