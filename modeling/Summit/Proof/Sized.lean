/-
**Fixed-width fields.**

The model's integers are natural numbers. `Sized` says what the types of the source say: a `u64`
is below `2 ^ 64`, a `u32` below `2 ^ 32`, and a collection is no longer than a `u64` can count.
-/

import Mathlib.Tactic.MkIffOfInductiveProp
import Summit.Model.ConsensusState

set_option linter.unusedSectionVars false

namespace Summit

variable [Crypto]

@[mk_iff] structure ValidatorAccount.Sized (account : ValidatorAccount) : Prop where
  balance : account.balance < 2 ^ 64
  joiningEpoch : account.joiningEpoch < 2 ^ 64
  lastDepositIndex : account.lastDepositIndex < 2 ^ 64

@[mk_iff] structure DepositRequest.Sized (deposit : DepositRequest) : Prop where
  amount : deposit.amount < 2 ^ 64
  index : deposit.index < 2 ^ 64

@[mk_iff] structure PendingWithdrawal.Sized (withdrawal : PendingWithdrawal) : Prop where
  index : withdrawal.inner.index < 2 ^ 64
  validatorIndex : withdrawal.inner.validatorIndex < 2 ^ 64
  amount : withdrawal.inner.amount < 2 ^ 64
  epoch : withdrawal.epoch < 2 ^ 64

/-- The number a parameter change carries. -/
def ProtocolParam.number : ProtocolParam → Nat
  | .minimumStake v | .epochLength v | .allowedTimestampFuture v | .maxDepositsPerEpoch v
  | .maxWithdrawalsPerEpoch v | .observersPerValidator v | .minimumValidatorCount v
  | .invalidDepositTax v | .maxPendingWithdrawalsPerValidator v | .maxValidatorCount v => v
  | .treasuryAddress _ => 0

def ProtocolParam.Sized (param : ProtocolParam) : Prop := param.number < 2 ^ 64

/-- Every element has its size, and so has the list. -/
@[mk_iff] structure SizedList {α : Type} (each : α → Prop) (items : List α) : Prop where
  each : ∀ item ∈ items, each item
  length : items.length < 2 ^ 64

@[mk_iff] structure StateData.Sized (data : StateData) : Prop where
  epoch : data.epoch < 2 ^ 64
  view : data.view < 2 ^ 64
  latestHeight : data.latestHeight < 2 ^ 64
  nextIndex : data.withdrawalQueue.nextIndex < 2 ^ 64
  validatorMinimumStake : data.validatorMinimumStake < 2 ^ 64
  allowedTimestampFutureMs : data.allowedTimestampFutureMs < 2 ^ 64
  maxDepositsPerEpoch : data.maxDepositsPerEpoch < 2 ^ 64
  maxWithdrawalsPerEpoch : data.maxWithdrawalsPerEpoch < 2 ^ 64
  observersPerValidator : data.observersPerValidator < 2 ^ 32
  maxValidatorCount : data.maxValidatorCount < 2 ^ 64
  minimumValidatorCount : data.minimumValidatorCount < 2 ^ 64
  pendingActiveValidatorExits : data.pendingActiveValidatorExits < 2 ^ 64
  invalidDepositTax : data.invalidDepositTax < 2 ^ 64
  maxPendingWithdrawalsPerValidator : data.maxPendingWithdrawalsPerValidator < 2 ^ 64
  accounts : SizedList (fun entry => ValidatorAccount.Sized entry.2) data.validatorAccounts.entries
  deposits : SizedList DepositRequest.Sized data.depositQueue
  withdrawals : SizedList PendingWithdrawal.Sized data.withdrawalQueue.iterAll
  params : SizedList ProtocolParam.Sized data.protocolParamChanges
  added : SizedList (fun item => item.1 < 2 ^ 64) (SszStateTree.flattenAdded data.addedValidators)
  removed : SizedList (fun _ => True) data.removedValidators
  requests : SizedList (fun request => request.length < 2 ^ 64) data.pendingExecutionRequests
  schedule : data.epocher.encode.length < 2 ^ 64

/-! ### Sizes can be checked -/

instance (account : ValidatorAccount) : Decidable account.Sized :=
  decidable_of_iff _ (ValidatorAccount.sized_iff account).symm

instance (deposit : DepositRequest) : Decidable deposit.Sized :=
  decidable_of_iff _ (DepositRequest.sized_iff deposit).symm

instance (withdrawal : PendingWithdrawal) : Decidable withdrawal.Sized :=
  decidable_of_iff _ (PendingWithdrawal.sized_iff withdrawal).symm

instance (param : ProtocolParam) : Decidable param.Sized :=
  inferInstanceAs (Decidable (param.number < 2 ^ 64))

instance {α : Type} (each : α → Prop) [DecidablePred each] (items : List α) :
    Decidable (SizedList each items) :=
  decidable_of_iff _ (sizedList_iff each items).symm

instance (data : StateData) : Decidable data.Sized :=
  decidable_of_iff _ (StateData.sized_iff data).symm

end Summit
