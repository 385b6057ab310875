/-
**Payout emission and payout application agree.**

For one account the due entries are settled one after the other: `settle` takes what an entry pays
off the balance, `remaining` is what is left in the end. The emission keeps that balance in its
running map and emits the difference (`running_emit`, `emittedFor_add_remaining`); the application
keeps it in the account until it is zero, when the account goes (`find?_debitAll`). Popping the due
entries by their indexes takes exactly these off the queue (`paid_foldl_payIndex`).
-/

import Mathlib.Data.List.Induction
import Summit.Lib.Run
import Summit.Proof.LiveState

set_option linter.unusedSectionVars false

namespace Summit

open Bytes

section Payouts

variable [Crypto]

/-! ### Settling one account -/

/-- The entry is a validator withdrawal of this account. -/
def PendingWithdrawal.Consumes (entry : PendingWithdrawal) (pubkey : Bytes32)
    (account : ValidatorAccount) : Prop :=
  entry.kind = .validator ∧ entry.pubkey = pubkey ∧
    entry.inner.address = account.withdrawalCredentials

instance (entry : PendingWithdrawal) (pubkey : Bytes32) (account : ValidatorAccount) :
    Decidable (entry.Consumes pubkey account) :=
  inferInstanceAs (Decidable (_ ∧ _ ∧ _))

/-- Some entry of the list is a validator withdrawal of this account. -/
def Consumed (entries : List PendingWithdrawal) (pubkey : Bytes32) (account : ValidatorAccount) :
    Prop :=
  ∃ entry ∈ entries, entry.Consumes pubkey account

instance (entries : List PendingWithdrawal) (pubkey : Bytes32) (account : ValidatorAccount) :
    Decidable (Consumed entries pubkey account) :=
  inferInstanceAs (Decidable (∃ entry ∈ entries, entry.Consumes pubkey account))

theorem consumed_concat {entries : List PendingWithdrawal} {entry : PendingWithdrawal}
    {pubkey : Bytes32} {account : ValidatorAccount} :
    Consumed (entries ++ [entry]) pubkey account ↔
      Consumed entries pubkey account ∨ entry.Consumes pubkey account := by
  simp [Consumed, or_and_right, exists_or]

/-- The balance after an entry. -/
def settle (minStake : Nat) (pubkey : Bytes32) (account : ValidatorAccount) (balance : Nat)
    (entry : PendingWithdrawal) : Nat :=
  if entry.Consumes pubkey account then
    balance - withdrawalPayoutAmount entry balance account.status.hasMinimumStakeFloor minStake
  else balance

/-- The balance after all entries. -/
def remaining (minStake : Nat) (pubkey : Bytes32) (account : ValidatorAccount)
    (entries : List PendingWithdrawal) : Nat :=
  entries.foldl (settle minStake pubkey account) account.balance

/-- A validator withdrawal pays no more than there is. -/
theorem withdrawalPayoutAmount_le {entry : PendingWithdrawal} (kind : entry.kind = .validator)
    (balance : Nat) (hasFloor : Bool) (minStake : Nat) :
    withdrawalPayoutAmount entry balance hasFloor minStake ≤ balance := by
  unfold withdrawalPayoutAmount
  rw [kind]
  dsimp only
  split
  · exact le_rfl
  · exact (Nat.min_le_right _ _).trans (Nat.sub_le _ _)

variable {minStake : Nat} {pubkey : Bytes32} {account : ValidatorAccount}

theorem settle_le (balance : Nat) (entry : PendingWithdrawal) :
    settle minStake pubkey account balance entry ≤ balance := by
  unfold settle
  split
  · exact Nat.sub_le _ _
  · exact le_rfl

variable {entry : PendingWithdrawal} {entries validators refunds : List PendingWithdrawal}
  {batch : LiveState × Bool} {index : Nat} {popped : WithdrawalQueue} {data : StateData}

theorem settle_of_not_consumes (other : ¬ entry.Consumes pubkey account) (balance : Nat) :
    settle minStake pubkey account balance entry = balance := if_neg other

theorem settle_zero (entry : PendingWithdrawal) : settle minStake pubkey account 0 entry = 0 :=
  Nat.le_zero.mp (settle_le 0 entry)

theorem remaining_concat (entries : List PendingWithdrawal) (entry : PendingWithdrawal) :
    remaining minStake pubkey account (entries ++ [entry]) =
      settle minStake pubkey account (remaining minStake pubkey account entries) entry := by
  rw [remaining, List.foldl_append]
  rfl

theorem remaining_le (entries : List PendingWithdrawal) :
    remaining minStake pubkey account entries ≤ account.balance :=
  Run.invariant_foldl (P := (· ≤ account.balance))
    (fun _ entry _ le => (settle_le _ entry).trans le) le_rfl

theorem remaining_of_none (none_ : ∀ entry ∈ entries, ¬ entry.Consumes pubkey account) :
    remaining minStake pubkey account entries = account.balance :=
  Run.invariant_foldl (P := (· = account.balance))
    (fun balance entry member same => by rw [settle, if_neg (none_ entry member), same]) rfl

/-- A balance that is kept once an entry was consumed, and the account's own before that. -/
theorem getD_settled {kept : Option Nat}
    (same : kept = if Consumed entries pubkey account then
      some (remaining minStake pubkey account entries) else none) :
    kept.getD account.balance = remaining minStake pubkey account entries := by
  rw [same]
  split
  · rfl
  · next none_ =>
    exact (remaining_of_none fun entry member consumes => none_ ⟨entry, member, consumes⟩).symm

/-! ### The emission -/

/-- The emitted withdrawal has the index of a validator entry of `pubkey`. -/
def emittedOf (entries : List PendingWithdrawal) (pubkey : Bytes32) (withdrawal : Withdrawal) :
    Bool :=
  entries.any fun entry => entry.kind = .validator ∧ entry.pubkey = pubkey ∧
    entry.inner.index = withdrawal.index

/-- The total amount of a list of withdrawals. -/
def totalAmount (withdrawals : List Withdrawal) : Nat :=
  (withdrawals.map fun withdrawal => withdrawal.amount).sum

theorem totalAmount_append (withdrawals later : List Withdrawal) :
    totalAmount (withdrawals ++ later) = totalAmount withdrawals + totalAmount later := by
  rw [totalAmount, List.map_append, List.sum_append]
  rfl

/-- What is emitted for the validator entries of `pubkey`. -/
def StateData.emittedFor (data : StateData) (epoch : Nat) (pubkey : Bytes32) : Nat :=
  totalAmount ((data.emitWithdrawalPayouts epoch).filter (emittedOf (data.dueEntries epoch) pubkey))

/-- Indexes that are unique tell whose an emitted withdrawal is. -/
theorem emittedOf_iff {due : List PendingWithdrawal}
    (unique : (due.map fun entry => entry.inner.index).Nodup) (member : entry ∈ due)
    {withdrawal : Withdrawal} (same : withdrawal.index = entry.inner.index) :
    emittedOf due pubkey withdrawal = true ↔ entry.kind = .validator ∧ entry.pubkey = pubkey := by
  simp only [emittedOf, List.any_eq_true, decide_eq_true_eq]
  constructor
  · rintro ⟨other, here, kind, key, index⟩
    obtain rfl := List.inj_on_of_nodup_map unique here member (index.trans same)
    exact ⟨kind, key⟩
  · rintro ⟨kind, key⟩
    exact ⟨entry, member, kind, key, same.symm⟩

section Emission

variable {data : StateData} (found : data.getAccount pubkey = some account)

/-- The emission after a list of entries. -/
def StateData.emitAll (data : StateData) (entries : List PendingWithdrawal) :
    SortedMap Bytes32 Nat × List Withdrawal :=
  entries.foldl data.emitEntry (.empty, [])

theorem StateData.emitAll_concat (entries : List PendingWithdrawal) (entry : PendingWithdrawal) :
    data.emitAll (entries ++ [entry]) = data.emitEntry (data.emitAll entries) entry := by
  rw [emitAll, List.foldl_append]
  rfl

include found

variable {acc : SortedMap Bytes32 Nat × List Withdrawal} {entry : PendingWithdrawal}
  {due : List PendingWithdrawal}

/-- An entry of another key, of a refund or with other credentials leaves the running balance. -/
theorem running_emitEntry_of_not_consumes (other : ¬ entry.Consumes pubkey account) :
    (data.emitEntry acc entry).1.find? pubkey = acc.1.find? pubkey := by
  unfold StateData.emitEntry
  split
  · rfl
  next kind =>
  split
  · rfl
  next found' =>
  split
  · rfl
  next credentials =>
  refine SortedMap.find?_insert_of_ne _ _ fun same => other ⟨?_, same.symm, ?_⟩
  · cases entryKind : entry.kind
    · rfl
    · exact absurd entryKind kind
  · rw [← same, found] at found'
    rw [Option.some.inj found', not_not.mp credentials]

/-- An entry of the account settles its running balance and emits the difference. -/
theorem emitEntry_of_consumes (consumes : entry.Consumes pubkey account) :
    data.emitEntry acc entry =
      let balance := (acc.1.find? pubkey).getD account.balance
      let payout := withdrawalPayoutAmount entry balance account.status.hasMinimumStakeFloor
        data.prospectiveMinimumStake
      (acc.1.insert pubkey (balance - payout),
        if payout > 0 then acc.2 ++ [{ entry.inner with amount := payout }] else acc.2) := by
  obtain ⟨kind, rfl, credentials⟩ := consumes
  unfold StateData.emitEntry
  rw [if_neg (by rw [kind]; decide), found]
  dsimp only
  rw [if_neg (not_not.mpr credentials)]

/-- **The running balance** of the emission is the settled one, and is kept for the keys that have
consumed an entry. -/
theorem running_emit (entries : List PendingWithdrawal) :
    (data.emitAll entries).1.find? pubkey =
      if Consumed entries pubkey account then
        some (remaining data.prospectiveMinimumStake pubkey account entries)
      else none := by
  induction entries using List.reverseRecOn with
  | nil => rw [if_neg (by simp [Consumed])]; rfl
  | append_singleton entries entry ih =>
    rw [StateData.emitAll_concat, remaining_concat]
    by_cases consumes : entry.Consumes pubkey account
    · rw [emitEntry_of_consumes found consumes, if_pos (consumed_concat.mpr (Or.inr consumes))]
      simp only [getD_settled ih, SortedMap.find?_insert_self, settle, if_pos consumes]
    · rw [running_emitEntry_of_not_consumes found consumes, ih, settle, if_neg consumes]
      simp only [consumed_concat, consumes, or_false]

/-- What an entry emits for another account is not counted for this one. -/
theorem emittedOf_emitEntry_of_not_consumes
    (unique : (due.map fun entry => entry.inner.index).Nodup) (member : entry ∈ due)
    (other : ¬ entry.Consumes pubkey account) :
    (data.emitEntry acc entry).2.filter (emittedOf due pubkey) =
      acc.2.filter (emittedOf due pubkey) := by
  have skip {withdrawal : Withdrawal} (same : withdrawal.index = entry.inner.index)
      (apart : ¬ (entry.kind = .validator ∧ entry.pubkey = pubkey)) :
      (acc.2 ++ [withdrawal]).filter (emittedOf due pubkey) =
        acc.2.filter (emittedOf due pubkey) := by
    have no : ¬ emittedOf due pubkey withdrawal = true :=
      fun yes => apart ((emittedOf_iff unique member same).mp yes)
    simp [List.filter_append, no]
  unfold StateData.emitEntry
  split
  · next refund => exact skip rfl fun ⟨kind, _⟩ => by rw [refund] at kind; cases kind
  next kind =>
  split
  · rfl
  next found' =>
  split
  · rfl
  next credentials =>
  dsimp only
  split
  · refine skip rfl fun ⟨kind, key⟩ => other ⟨kind, key, ?_⟩
    rw [key, found] at found'
    rw [Option.some.inj found', not_not.mp credentials]
  · rfl

theorem running_getD (entries : List PendingWithdrawal) :
    ((data.emitAll entries).1.find? pubkey).getD account.balance =
      remaining data.prospectiveMinimumStake pubkey account entries :=
  getD_settled (running_emit found entries)

/-- **What is emitted for an account** is what the entries take off its balance. -/
theorem emitted_add_remaining (unique : (due.map fun entry => entry.inner.index).Nodup)
    {entries : List PendingWithdrawal} (part : ∀ entry ∈ entries, entry ∈ due) :
    totalAmount ((data.emitAll entries).2.filter (emittedOf due pubkey)) +
      remaining data.prospectiveMinimumStake pubkey account entries = account.balance := by
  induction entries using List.reverseRecOn with
  | nil => exact Nat.zero_add _
  | append_singleton entries entry ih =>
    have before := ih fun entry member => part entry (List.mem_append_left _ member)
    have member := part entry (by simp)
    rw [StateData.emitAll_concat, remaining_concat]
    by_cases consumes : entry.Consumes pubkey account
    · rw [emitEntry_of_consumes found consumes, running_getD found, settle, if_pos consumes]
      have le := withdrawalPayoutAmount_le consumes.1
        (remaining data.prospectiveMinimumStake pubkey account entries)
        account.status.hasMinimumStakeFloor data.prospectiveMinimumStake
      dsimp only
      split
      · have mine (amount : Nat) :
            emittedOf due pubkey { entry.inner with amount := amount } = true :=
          (emittedOf_iff unique member rfl).mpr ⟨consumes.1, consumes.2.1⟩
        rw [List.filter_append, List.filter_singleton, mine, cond_true, totalAmount_append]
        simp only [totalAmount, List.map_cons, List.map_nil, List.sum_singleton] at before ⊢
        omega
      · omega
    · rw [emittedOf_emitEntry_of_not_consumes found unique member consumes, settle,
        if_neg consumes]
      exact before

end Emission

/-! ### The application -/

/-- The accounts after an entry. -/
def debitAccounts (minStake : Nat) (accounts : SortedMap Bytes32 ValidatorAccount)
    (entry : PendingWithdrawal) : SortedMap Bytes32 ValidatorAccount :=
  match accounts.find? entry.pubkey with
  | none => accounts
  | some account =>
    if entry.Consumes entry.pubkey account then
      let rest := settle minStake entry.pubkey account account.balance entry
      if rest = 0 then accounts.erase entry.pubkey
      else accounts.insert entry.pubkey { account with balance := rest }
    else accounts

theorem data_debitEntry (s : LiveState) (entry : PendingWithdrawal) (minStake : Nat) :
    (s.debitEntry entry minStake).toStateData =
      { s.toStateData with
        validatorAccounts := debitAccounts minStake s.validatorAccounts entry } := by
  unfold LiveState.debitEntry debitAccounts StateData.getAccount
  cases s.validatorAccounts.find? entry.pubkey with
  | none => split <;> rfl
  | some account =>
    dsimp only
    by_cases consumes : entry.Consumes entry.pubkey account
    · rw [if_neg (by rw [consumes.1]; decide), if_neg (not_not.mpr consumes.2.2), if_pos consumes,
        settle, if_pos consumes]
      split
      · exact s.data_removeAccount _
      · exact s.data_setAccount _ _
    · rw [if_neg consumes]
      split
      · rfl
      next kind =>
      split
      · rfl
      next credentials =>
      refine absurd ⟨?_, rfl, not_not.mp credentials⟩ consumes
      cases given : entry.kind
      · rfl
      · exact absurd given kind

section Application

variable {accounts : SortedMap Bytes32 ValidatorAccount}

theorem find?_debitAccounts_of_ne {entry : PendingWithdrawal} (other : pubkey ≠ entry.pubkey) :
    (debitAccounts minStake accounts entry).find? pubkey = accounts.find? pubkey := by
  unfold debitAccounts
  split
  · rfl
  split
  · dsimp only
    split
    · exact SortedMap.find?_erase_of_ne _ other
    · exact SortedMap.find?_insert_of_ne _ _ other
  · rfl

theorem find?_debitAccounts_of_none (absent : accounts.find? pubkey = none)
    (entry : PendingWithdrawal) :
    (debitAccounts minStake accounts entry).find? pubkey = none := by
  by_cases same : pubkey = entry.pubkey
  · subst same
    rw [debitAccounts, absent]
    exact absent
  · rw [find?_debitAccounts_of_ne same, absent]

/-- One entry settles the balance of the account; at zero the account goes. -/
theorem find?_debitAccounts (found : accounts.find? pubkey = some account)
    (entry : PendingWithdrawal) :
    (debitAccounts minStake accounts entry).find? pubkey =
      if entry.Consumes pubkey account ∧
          settle minStake pubkey account account.balance entry = 0 then none
      else some { account with balance := settle minStake pubkey account account.balance entry } := by
  by_cases same : pubkey = entry.pubkey
  · subst same
    rw [debitAccounts, found]
    by_cases consumes : entry.Consumes entry.pubkey account
    · dsimp only
      rw [if_pos consumes]
      by_cases empty : settle minStake entry.pubkey account account.balance entry = 0
      · rw [if_pos empty, if_pos ⟨consumes, empty⟩, SortedMap.find?_erase_self]
      · rw [if_neg empty, if_neg fun both => empty both.2, SortedMap.find?_insert_self]
    · dsimp only
      rw [if_neg consumes, if_neg fun both => consumes both.1, settle, if_neg consumes, found]
  · have apart : ¬ entry.Consumes pubkey account := fun consumes => same consumes.2.1.symm
    rw [find?_debitAccounts_of_ne same, found, settle, if_neg apart, if_neg fun both => apart both.1]

/-- The accounts after all entries. -/
def debitAll (minStake : Nat) (accounts : SortedMap Bytes32 ValidatorAccount)
    (entries : List PendingWithdrawal) : SortedMap Bytes32 ValidatorAccount :=
  entries.foldl (debitAccounts minStake) accounts

theorem debitAll_concat (entries : List PendingWithdrawal) (entry : PendingWithdrawal) :
    debitAll minStake accounts (entries ++ [entry]) =
      debitAccounts minStake (debitAll minStake accounts entries) entry := by
  rw [debitAll, List.foldl_append]
  rfl

theorem find?_debitAll_of_none (absent : accounts.find? pubkey = none)
    (entries : List PendingWithdrawal) :
    (debitAll minStake accounts entries).find? pubkey = none :=
  Run.invariant_foldl (P := fun left : SortedMap Bytes32 ValidatorAccount => left.find? pubkey = none)
    (fun _ entry _ absent => find?_debitAccounts_of_none absent entry) absent

/-- **The account after all entries** has the settled balance, and is gone when it has consumed an
entry and nothing is left. -/
theorem find?_debitAll (found : accounts.find? pubkey = some account)
    (entries : List PendingWithdrawal) :
    (debitAll minStake accounts entries).find? pubkey =
      if Consumed entries pubkey account ∧
          remaining minStake pubkey account entries = 0 then none
      else some { account with balance := remaining minStake pubkey account entries } := by
  induction entries using List.reverseRecOn with
  | nil =>
    rw [if_neg fun both => by simp [Consumed] at both]
    exact found
  | append_singleton entries entry ih =>
    rw [debitAll_concat, remaining_concat]
    simp only [consumed_concat]
    by_cases gone : Consumed entries pubkey account ∧
        remaining minStake pubkey account entries = 0
    · rw [if_pos gone] at ih
      rw [find?_debitAccounts_of_none ih, gone.2, settle_zero, if_pos ⟨Or.inl gone.1, rfl⟩]
    · rw [if_neg gone] at ih
      -- the credentials and the status are still the account's, so it settles as before
      refine (find?_debitAccounts ih entry).trans ?_
      change (if entry.Consumes pubkey account ∧ settle minStake pubkey account _ entry = 0 then _
        else _) = _
      by_cases consumes : entry.Consumes pubkey account
      · simp only [consumes, true_and, or_true]
        rfl
      · have kept : settle minStake pubkey account (remaining minStake pubkey account entries)
            entry = remaining minStake pubkey account entries := settle_of_not_consumes consumes _
        rw [if_neg fun both => consumes both.1, if_neg fun both => gone
          ⟨both.1.resolve_right consumes, kept ▸ both.2⟩]
        rfl

end Application

/-! ### Popping what is due -/

/-- `after` is `before` with `entries` off the queue and debited, and the rest of the queue as
given. -/
structure PaidOff (minStake : Nat) (before after : StateData)
    (entries validators refunds : List PendingWithdrawal) : Prop where
  data : after =
    { before with
      withdrawalQueue := after.withdrawalQueue
      validatorAccounts := debitAll minStake before.validatorAccounts entries }
  validators : after.withdrawalQueue.withdrawals = validators
  refunds : after.withdrawalQueue.refunds = refunds
  nextIndex : after.withdrawalQueue.nextIndex = before.withdrawalQueue.nextIndex

theorem data_payIndex (result : batch.1.withdrawalQueue.popByIndex index = some (entry, popped)) :
    (LiveState.payIndex minStake batch index).1.toStateData =
      { batch.1.toStateData with
        withdrawalQueue := popped
        validatorAccounts := debitAccounts minStake batch.1.validatorAccounts entry } := by
  simp only [LiveState.payIndex, result, data_debitEntry, LiveState.data_putWithdrawalQueue]

theorem PaidOff.cons {after : StateData}
    (result : batch.1.withdrawalQueue.popByIndex index = some (entry, popped))
    (sameIndex : popped.nextIndex = batch.1.withdrawalQueue.nextIndex)
    (later : PaidOff minStake (LiveState.payIndex minStake batch index).1.toStateData after entries
      validators refunds) :
    PaidOff minStake batch.1.toStateData after (entry :: entries) validators refunds := by
  rw [data_payIndex result] at later
  exact ⟨later.data, later.validators, later.refunds, later.nextIndex.trans sameIndex⟩

theorem paidOff_refunds (batch : LiveState × Bool) {later : List PendingWithdrawal}
    (front : batch.1.withdrawalQueue.refunds = refunds ++ later)
    (unique : batch.1.withdrawalQueue.UniqueIndexes) :
    PaidOff minStake batch.1.toStateData
      ((refunds.map fun entry => entry.inner.index).foldl (LiveState.payIndex minStake)
        batch).1.toStateData
      refunds batch.1.withdrawalQueue.withdrawals later := by
  induction refunds generalizing batch with
  | nil => exact ⟨rfl, rfl, front, rfl⟩
  | cons entry refunds ih =>
    rw [List.cons_append] at front
    have apart : ∀ other ∈ batch.1.withdrawalQueue.withdrawals,
        other.inner.index ≠ entry.inner.index := by
      intro other member same
      rw [WithdrawalQueue.UniqueIndexes, WithdrawalQueue.iterAll, front, List.map_append] at unique
      exact (List.nodup_append.mp unique).2.2 _ (List.mem_map_of_mem member) _
        (List.mem_map_of_mem (List.mem_cons_self)) same
    obtain ⟨popped, result, validators, refunds_, index⟩ :=
      batch.1.withdrawalQueue.popByIndex_refund front apart
    have queue : (LiveState.payIndex minStake batch entry.inner.index).1.withdrawalQueue = popped :=
      congrArg StateData.withdrawalQueue (data_payIndex result)
    refine PaidOff.cons result index ?_
    have rest := ih (LiveState.payIndex minStake batch entry.inner.index) (by rw [queue, refunds_])
      (queue ▸ unique.of_sublist (WithdrawalQueue.Pops.sublist
        ⟨Or.inr ⟨validators.symm, refunds_ ▸ front⟩, index⟩))
    rwa [queue, validators] at rest

/-- Popping the first entries of both lists by their indexes, validator withdrawals first. -/
theorem paidOff_due (batch : LiveState × Bool)
    {laterValidators laterRefunds : List PendingWithdrawal}
    (front : batch.1.withdrawalQueue.withdrawals = validators ++ laterValidators)
    (frontRefunds : batch.1.withdrawalQueue.refunds = refunds ++ laterRefunds)
    (unique : batch.1.withdrawalQueue.UniqueIndexes) :
    PaidOff minStake batch.1.toStateData
      (((validators ++ refunds).map fun entry => entry.inner.index).foldl
        (LiveState.payIndex minStake) batch).1.toStateData
      (validators ++ refunds) laterValidators laterRefunds := by
  induction validators generalizing batch with
  | nil =>
    rw [List.nil_append] at front
    rw [List.nil_append, ← front]
    exact paidOff_refunds batch frontRefunds unique
  | cons entry validators ih =>
    rw [List.cons_append] at front
    obtain ⟨popped, result, validators_, refunds_, index⟩ :=
      batch.1.withdrawalQueue.popByIndex_validator front
    have queue : (LiveState.payIndex minStake batch entry.inner.index).1.withdrawalQueue = popped :=
      congrArg StateData.withdrawalQueue (data_payIndex result)
    refine PaidOff.cons result index (ih (LiveState.payIndex minStake batch entry.inner.index)
      (by rw [queue, validators_]) (by rw [queue, refunds_, frontRefunds]) ?_)
    exact queue ▸ unique.of_sublist
      (WithdrawalQueue.Pops.sublist ⟨Or.inl ⟨validators_ ▸ front, refunds_.symm⟩, index⟩)

@[simp] theorem applyWithdrawalPayouts_emitted (s : LiveState) (epoch : Nat) :
    s.applyWithdrawalPayouts epoch (s.emitWithdrawalPayouts epoch) = some (s.payDue epoch) :=
  if_neg (not_not.mpr rfl)

/-- **Paying what is due** takes the due entries off both lists and debits them. -/
theorem exists_paidOff (s : LiveState) (epoch : Nat) (unique : s.withdrawalQueue.UniqueIndexes) :
    ∃ validators refunds laterValidators laterRefunds,
      s.dueEntries epoch = validators ++ refunds ∧
      s.withdrawalQueue.withdrawals = validators ++ laterValidators ∧
      s.withdrawalQueue.refunds = refunds ++ laterRefunds ∧
      PaidOff s.prospectiveMinimumStake s.toStateData (s.payDue epoch).toStateData
        (s.dueEntries epoch) laterValidators laterRefunds := by
  obtain ⟨validators, refunds, laterValidators, laterRefunds, due, one, two⟩ :=
    s.withdrawalQueue.exists_due epoch s.maxWithdrawalsPerEpoch
  refine ⟨validators, refunds, laterValidators, laterRefunds, due, one, two, ?_⟩
  rw [LiveState.payDue, LiveState.data_flushWithdrawals, StateData.dueEntries, due]
  exact paidOff_due (s, false) one two unique

theorem indexed_payDue {s : LiveState} (indexed : s.withdrawalQueue.Indexed) (epoch : Nat) :
    (s.payDue epoch).withdrawalQueue.Indexed := by
  obtain ⟨validators, refunds, laterValidators, laterRefunds, -, one, two, paid⟩ :=
    exists_paidOff s epoch indexed.unique
  refine indexed.of_sublist ?_ paid.nextIndex
  rw [WithdrawalQueue.iterAll, WithdrawalQueue.iterAll, paid.validators, paid.refunds, one, two]
  exact (List.sublist_append_right _ _).append (List.sublist_append_right _ _)

theorem nodup_due (unique : data.withdrawalQueue.UniqueIndexes) (epoch : Nat) :
    ((data.dueEntries epoch).map fun entry => entry.inner.index).Nodup := by
  obtain ⟨validators, refunds, laterValidators, laterRefunds, due, one, two⟩ :=
    data.withdrawalQueue.exists_due epoch data.maxWithdrawalsPerEpoch
  refine List.Nodup.sublist (List.Sublist.map _ ?_) unique
  rw [StateData.dueEntries, due, WithdrawalQueue.iterAll, one, two]
  exact (List.sublist_append_left _ _).append (List.sublist_append_left _ _)

/-- What is emitted for an account, and what is left of it. -/
theorem emittedFor_add_remaining (unique : data.withdrawalQueue.UniqueIndexes) (epoch : Nat)
    (found : data.getAccount pubkey = some account) :
    data.emittedFor epoch pubkey + remaining data.prospectiveMinimumStake pubkey account
      (data.dueEntries epoch) = account.balance :=
  emitted_add_remaining found (nodup_due unique epoch) fun _ member => member

end Payouts

/-- **Emission and application agree.** Applying the emitted withdrawals takes the due entries off
both lists and nothing else, lowers the balance of every account by what was emitted for it, keeps
the other data, and deletes an account exactly when an entry with its credentials was consumed and
nothing is left. -/
theorem applyWithdrawalPayouts_agrees [Crypto] (s : LiveState) (epoch : Nat)
    (unique : s.withdrawalQueue.UniqueIndexes) :
    ∃ paid, s.applyWithdrawalPayouts epoch (s.emitWithdrawalPayouts epoch) = some paid ∧
      (∃ validators refunds, s.dueEntries epoch = validators ++ refunds ∧
        s.withdrawalQueue.withdrawals = validators ++ paid.withdrawalQueue.withdrawals ∧
        s.withdrawalQueue.refunds = refunds ++ paid.withdrawalQueue.refunds) ∧
      (∀ pubkey account, s.getAccount pubkey = some account →
        s.emittedFor epoch pubkey ≤ account.balance ∧
        paid.getAccount pubkey =
          if Consumed (s.dueEntries epoch) pubkey account ∧
              account.balance - s.emittedFor epoch pubkey = 0 then none
          else some { account with balance := account.balance - s.emittedFor epoch pubkey }) ∧
      (∀ pubkey account, s.getAccount pubkey = some account →
        ¬ Consumed (s.dueEntries epoch) pubkey account →
        paid.getAccount pubkey = some account) ∧
      (∀ pubkey, s.getAccount pubkey = none → paid.getAccount pubkey = none) ∧
      paid.toStateData =
        { s.toStateData with
          withdrawalQueue := paid.withdrawalQueue
          validatorAccounts := paid.validatorAccounts } ∧
      paid.withdrawalQueue.nextIndex = s.withdrawalQueue.nextIndex := by
  obtain ⟨validators, refunds, _, _, due, one, two, paid⟩ := exists_paidOff s epoch unique
  have accounts : (s.payDue epoch).validatorAccounts =
      debitAll s.prospectiveMinimumStake s.validatorAccounts (s.dueEntries epoch) :=
    congrArg StateData.validatorAccounts paid.data
  refine ⟨_, applyWithdrawalPayouts_emitted s epoch,
    ⟨validators, refunds, due, paid.validators.symm ▸ one, paid.refunds.symm ▸ two⟩,
    fun pubkey account found => ?_, fun pubkey account found untouched => ?_,
    fun pubkey absent => ?_, ?_, paid.nextIndex⟩
  · have total := emittedFor_add_remaining unique epoch found
    have left : account.balance - s.emittedFor epoch pubkey =
        remaining s.prospectiveMinimumStake pubkey account (s.dueEntries epoch) := by omega
    refine ⟨by omega, ?_⟩
    rw [left, StateData.getAccount, accounts]
    exact find?_debitAll found _
  · rw [StateData.getAccount, accounts, find?_debitAll found, if_neg fun both => untouched both.1,
      remaining_of_none fun entry member consumes => untouched ⟨entry, member, consumes⟩]
  · rw [StateData.getAccount, accounts]
    exact find?_debitAll_of_none absent _
  · rw [accounts]
    exact paid.data

attribute [local instance] Crypto.accepting

/-- An active validator with 40 gwei over a minimum stake of 32. -/
def stakedAccount : ValidatorAccount :=
  { consensusPublicKey := zeroBlsKey
    withdrawalCredentials := FixedBytes.zero 20
    balance := 40
    status := .active
    joiningEpoch := 0
    lastDepositIndex := 0 }

/-- The validator has asked for 20 gwei and a refund is queued; both are due in epoch 2. -/
def withdrawingState : LiveState :=
  let start := LiveState.ofData (StateData.new ⟨zeroChunk, zeroChunk, zeroChunk⟩ 32 10 ten_pos 0
    (FixedBytes.zero 20) 0 4 0 4 1 0 4)
  ((start.setAccount zeroChunk stakedAccount).pushWithdrawalRequest
    { sourceAddress := FixedBytes.zero 20, validatorPubkey := zeroChunk, amount := 20 } 2)
    |>.pushRefundWithdrawalRequest
      { sourceAddress := FixedBytes.zero 20, validatorPubkey := zeroChunk, amount := 7 } 2

theorem applyWithdrawalPayouts_agrees_partial :
    withdrawingState.withdrawalQueue.UniqueIndexes ∧
    ∃ paid, withdrawingState.applyWithdrawalPayouts 2 (withdrawingState.emitWithdrawalPayouts 2) =
        some paid ∧
      paid.getAccount zeroChunk = some { stakedAccount with balance := 32 } := by
  have unique : withdrawingState.withdrawalQueue.UniqueIndexes := by
    unfold WithdrawalQueue.UniqueIndexes
    decide
  obtain ⟨paid, applied, -, accounts, -⟩ :=
    applyWithdrawalPayouts_agrees withdrawingState 2 unique
  refine ⟨unique, paid, applied, ?_⟩
  rw [(accounts zeroChunk stakedAccount (by decide)).2]
  decide

end Summit
