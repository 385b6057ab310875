/-
**The lists of the withdrawal queue** under its operations.

A push appends to the list of its kind, a pop takes the first entry of one. The entries that are due
under the cap are a prefix of the validator list followed by a prefix of the refunds
(`exists_due`), so popping them by index, in order, takes exactly these prefixes off.
-/

import Mathlib.Data.List.TakeWhile
import Summit.Model.WithdrawalQueue

namespace Summit.WithdrawalQueue

variable (queue : WithdrawalQueue)

/-! ### Pushing -/

variable {withdrawal entry : PendingWithdrawal} {rest : List PendingWithdrawal}

theorem push_of_validator (kind : withdrawal.kind = .validator) :
    queue.push withdrawal = queue.pushValidator withdrawal kind := by
  unfold push
  split
  · rfl
  · next other => rw [kind] at other; cases other

theorem push_of_refund (kind : withdrawal.kind = .depositRefund) :
    queue.push withdrawal = queue.pushRefund withdrawal kind := by
  unfold push
  split
  · next other => rw [kind] at other; cases other
  · rfl

@[simp] theorem nextIndex_push (withdrawal : PendingWithdrawal) :
    (queue.push withdrawal).nextIndex = queue.nextIndex := by
  unfold push
  split <;> rfl

section Requests

variable (request : WithdrawalRequest) (epoch : Nat)

theorem pushRequest_validator :
    queue.pushRequestWithKind request epoch .validator =
      (queue.setNextIndex (queue.nextIndex + 1)).pushValidator
        (queue.pendingOf request epoch .validator) rfl :=
  push_of_validator _ rfl

theorem pushRequest_refund :
    queue.pushRequestWithKind request epoch .depositRefund =
      (queue.setNextIndex (queue.nextIndex + 1)).pushRefund
        (queue.pendingOf request epoch .depositRefund) rfl :=
  push_of_refund _ rfl

@[simp] theorem withdrawals_pushRequest_validator :
    (queue.pushRequestWithKind request epoch .validator).withdrawals =
      queue.withdrawals ++ [queue.pendingOf request epoch .validator] := by
  rw [pushRequest_validator]
  rfl

@[simp] theorem refunds_pushRequest_validator :
    (queue.pushRequestWithKind request epoch .validator).refunds = queue.refunds := by
  rw [pushRequest_validator]
  rfl

@[simp] theorem withdrawals_pushRequest_refund :
    (queue.pushRequestWithKind request epoch .depositRefund).withdrawals = queue.withdrawals := by
  rw [pushRequest_refund]
  rfl

@[simp] theorem refunds_pushRequest_refund :
    (queue.pushRequestWithKind request epoch .depositRefund).refunds =
      queue.refunds ++ [queue.pendingOf request epoch .depositRefund] := by
  rw [pushRequest_refund]
  rfl

@[simp] theorem nextIndex_pushRequest (kind : WithdrawalKind) :
    (queue.pushRequestWithKind request epoch kind).nextIndex = queue.nextIndex + 1 := by
  cases kind
  · rw [pushRequest_validator]
    rfl
  · rw [pushRequest_refund]
    rfl

@[simp] theorem back_pushRequest (kind : WithdrawalKind) :
    (queue.pushRequestWithKind request epoch kind).back kind =
      some (queue.pendingOf request epoch kind) := by
  cases kind <;> simp [back, deque]

/-- A refund goes to the end of the combined order. -/
theorem iterAll_pushRequest_refund :
    (queue.pushRequestWithKind request epoch .depositRefund).iterAll =
      queue.iterAll ++ [queue.pendingOf request epoch .depositRefund] := by
  simp [iterAll]

/-- So does a validator withdrawal when no refund is queued. -/
theorem iterAll_pushRequest_validator (none_ : queue.refunds = []) :
    (queue.pushRequestWithKind request epoch .validator).iterAll =
      queue.iterAll ++ [queue.pendingOf request epoch .validator] := by
  simp [iterAll, none_]

end Requests

theorem length_iterAll : queue.iterAll.length = queue.len := List.length_append

/-! ### Popping -/

theorem popFrontValidator_of_cons (front : queue.withdrawals = entry :: rest) :
    ∃ popped, queue.popFrontValidator = some (entry, popped) ∧ popped.withdrawals = rest ∧
      popped.refunds = queue.refunds ∧ popped.nextIndex = queue.nextIndex := by
  unfold popFrontValidator
  split
  · next empty => rw [front] at empty; cases empty
  · next found =>
    rw [front] at found
    obtain ⟨rfl, rfl⟩ := List.cons.inj found
    exact ⟨_, rfl, rfl, rfl, rfl⟩

theorem popFrontRefund_of_cons (front : queue.refunds = entry :: rest) :
    ∃ popped, queue.popFrontRefund = some (entry, popped) ∧
      popped.withdrawals = queue.withdrawals ∧ popped.refunds = rest ∧
      popped.nextIndex = queue.nextIndex := by
  unfold popFrontRefund
  split
  · next empty => rw [front] at empty; cases empty
  · next found =>
    rw [front] at found
    obtain ⟨rfl, rfl⟩ := List.cons.inj found
    exact ⟨_, rfl, rfl, rfl, rfl⟩

theorem popByIndex_validator (front : queue.withdrawals = entry :: rest) :
    ∃ popped, queue.popByIndex entry.inner.index = some (entry, popped) ∧
      popped.withdrawals = rest ∧ popped.refunds = queue.refunds ∧
      popped.nextIndex = queue.nextIndex := by
  obtain ⟨popped, result, same⟩ := queue.popFrontValidator_of_cons front
  refine ⟨popped, ?_, same⟩
  rw [popByIndex, if_pos (by simp [front]), result]

/-- A refund is popped by its index when no validator withdrawal has that index. -/
theorem popByIndex_refund (front : queue.refunds = entry :: rest)
    (apart : ∀ other ∈ queue.withdrawals, other.inner.index ≠ entry.inner.index) :
    ∃ popped, queue.popByIndex entry.inner.index = some (entry, popped) ∧
      popped.withdrawals = queue.withdrawals ∧ popped.refunds = rest ∧
      popped.nextIndex = queue.nextIndex := by
  obtain ⟨popped, result, same⟩ := queue.popFrontRefund_of_cons front
  refine ⟨popped, ?_, same⟩
  have other : ¬ queue.withdrawals.head?.any (fun w => w.inner.index = entry.inner.index) := by
    cases list : queue.withdrawals with
    | nil => simp
    | cons first tail => simpa using apart first (list ▸ List.mem_cons_self)
  rw [popByIndex, if_neg other, if_pos (by simp [front]), result]

/-! ### What is due -/

/-- **The due entries** are a first part of each list, validator withdrawals first. -/
theorem exists_due (epoch cap : Nat) :
    ∃ validators refunds laterValidators laterRefunds,
      queue.getForEpochWithTotalCap epoch cap = validators ++ refunds ∧
      queue.withdrawals = validators ++ laterValidators ∧
      queue.refunds = refunds ++ laterRefunds := by
  have start (list : List PendingWithdrawal) (count : Nat) :
      ((list.takeWhile fun w => w.epoch ≤ epoch).take count) <+: list :=
    (List.take_prefix _ _).trans (List.takeWhile_prefix _)
  obtain ⟨laterValidators, validators⟩ := start queue.withdrawals cap
  obtain ⟨laterRefunds, refunds⟩ := start queue.refunds
    (cap - ((queue.withdrawals.takeWhile fun w => w.epoch ≤ epoch).take cap).length)
  exact ⟨_, _, laterValidators, laterRefunds, rfl, validators.symm, refunds.symm⟩

theorem epoch_le_of_due {epoch cap : Nat} (due : entry ∈ queue.getForEpochWithTotalCap epoch cap) :
    entry.epoch ≤ epoch := by
  rcases List.mem_append.mp due with member | member
  all_goals simpa using List.mem_takeWhile_imp (List.mem_of_mem_take member)

/-! ### What a pop returns -/

/-- `popped` is `queue` without `entry`, which was the first of its list. -/
def Pops (queue : WithdrawalQueue) (entry : PendingWithdrawal) (popped : WithdrawalQueue) : Prop :=
  (queue.withdrawals = entry :: popped.withdrawals ∧ queue.refunds = popped.refunds ∨
    queue.withdrawals = popped.withdrawals ∧ queue.refunds = entry :: popped.refunds) ∧
  popped.nextIndex = queue.nextIndex

variable {queue}

variable {entry : PendingWithdrawal} {popped : WithdrawalQueue}

theorem pops_popFrontValidator (result : queue.popFrontValidator = some (entry, popped)) :
    queue.Pops entry popped := by
  unfold popFrontValidator at result
  split at result
  · cases result
  · next front =>
    obtain ⟨rfl, rfl⟩ := Prod.mk.inj (Option.some.inj result)
    exact ⟨Or.inl ⟨front, rfl⟩, rfl⟩

theorem pops_popFrontRefund (result : queue.popFrontRefund = some (entry, popped)) :
    queue.Pops entry popped := by
  unfold popFrontRefund at result
  split at result
  · cases result
  · next front =>
    obtain ⟨rfl, rfl⟩ := Prod.mk.inj (Option.some.inj result)
    exact ⟨Or.inr ⟨rfl, front⟩, rfl⟩

theorem pops_pop {epoch : Nat} (result : queue.pop epoch = some (entry, popped)) :
    queue.Pops entry popped := by
  unfold pop at result
  split at result
  · exact pops_popFrontValidator result
  · split at result
    · exact pops_popFrontRefund result
    · cases result

theorem pops_popByIndex {index : Nat} (result : queue.popByIndex index = some (entry, popped)) :
    queue.Pops entry popped := by
  unfold popByIndex at result
  split at result
  · exact pops_popFrontValidator result
  · split at result
    · exact pops_popFrontRefund result
    · cases result

/-! ### Indexes -/

/-- No two entries of the queue have the same index. -/
def UniqueIndexes (queue : WithdrawalQueue) : Prop :=
  (queue.iterAll.map fun entry => entry.inner.index).Nodup

theorem UniqueIndexes.of_sublist (unique : queue.UniqueIndexes)
    (part : popped.iterAll.Sublist queue.iterAll) : popped.UniqueIndexes :=
  unique.sublist (part.map _)

theorem Pops.sublist (pops : queue.Pops entry popped) : popped.iterAll.Sublist queue.iterAll := by
  rw [iterAll, iterAll]
  rcases pops.1 with ⟨validators, refunds⟩ | ⟨validators, refunds⟩
  · rw [validators, refunds]
    exact (List.sublist_cons_self _ _).append (List.Sublist.refl _)
  · rw [validators, refunds]
    exact (List.Sublist.refl _).append (List.sublist_cons_self _ _)

/-- The indexes are unique and the next one is new. -/
structure Indexed (queue : WithdrawalQueue) : Prop where
  unique : queue.UniqueIndexes
  below : ∀ entry ∈ queue.iterAll, entry.inner.index < queue.nextIndex

theorem indexed_empty : empty.Indexed := ⟨List.nodup_nil, by simp [empty, iterAll]⟩

theorem Indexed.of_sublist (indexed : queue.Indexed) (part : popped.iterAll.Sublist queue.iterAll)
    (sameIndex : popped.nextIndex = queue.nextIndex) : popped.Indexed :=
  ⟨indexed.unique.of_sublist part, fun entry member =>
    sameIndex ▸ indexed.below entry (part.subset member)⟩

theorem perm_pushRequest (queue : WithdrawalQueue) (request : WithdrawalRequest) (epoch : Nat)
    (kind : WithdrawalKind) :
    (queue.pushRequestWithKind request epoch kind).iterAll.Perm
      (queue.pendingOf request epoch kind :: queue.iterAll) := by
  cases kind with
  | validator =>
    rw [iterAll, withdrawals_pushRequest_validator, refunds_pushRequest_validator, iterAll,
      List.append_assoc]
    exact List.perm_middle
  | depositRefund =>
    rw [iterAll_pushRequest_refund]
    exact List.perm_append_singleton _ _

theorem Indexed.pushRequest (indexed : queue.Indexed) (request : WithdrawalRequest) (epoch : Nat)
    (kind : WithdrawalKind) : (queue.pushRequestWithKind request epoch kind).Indexed := by
  have perm := queue.perm_pushRequest request epoch kind
  constructor
  · rw [UniqueIndexes, (perm.map _).nodup_iff, List.map_cons, List.nodup_cons]
    refine ⟨fun member => ?_, indexed.unique⟩
    obtain ⟨entry, here, same⟩ := List.mem_map.mp member
    exact absurd same (Nat.ne_of_lt (indexed.below entry here))
  · intro entry member
    rw [nextIndex_pushRequest]
    rcases List.mem_cons.mp (perm.mem_iff.mp member) with rfl | old
    · exact Nat.lt_succ_self _
    · exact Nat.lt_succ_of_lt (indexed.below entry old)

end Summit.WithdrawalQueue
