/-
**The withdrawal queue** of `withdrawal.rs`.

Two lists in processing order, validator withdrawals and deposit refunds, the next index to assign
and the number of outstanding validator entries per key. Each list holds only its own kind and the
counts are those of the list: both are fields of the queue, so every operation below carries the
proof that it keeps them.
-/

import Summit.Lib.SortedMap
import Summit.Model.Types

namespace Summit

/-- The number of entries of `pubkey` in a list of withdrawals. -/
def pendingEntries (withdrawals : List PendingWithdrawal) (pubkey : Bytes32) : Nat :=
  withdrawals.countP fun w => w.pubkey = pubkey

/-- The map holds the number of entries of every key that has one. -/
def CountsEntries (counts : SortedMap Bytes32 Nat) (withdrawals : List PendingWithdrawal) : Prop :=
  ∀ pubkey, counts.find? pubkey =
    if pendingEntries withdrawals pubkey = 0 then none else some (pendingEntries withdrawals pubkey)

structure WithdrawalQueue where
  /-- Validator-initiated withdrawals, in processing order. -/
  withdrawals : List PendingWithdrawal
  /-- Deposit refunds, in processing order. -/
  refunds : List PendingWithdrawal
  /-- The next withdrawal index to assign. -/
  nextIndex : Nat
  /-- Outstanding validator entries per key; never serialized. -/
  pendingPerPubkey : SortedMap Bytes32 Nat
  withdrawals_kind : ∀ w ∈ withdrawals, w.kind = .validator
  refunds_kind : ∀ w ∈ refunds, w.kind = .depositRefund
  counts : CountsEntries pendingPerPubkey withdrawals

namespace WithdrawalQueue

def empty : WithdrawalQueue where
  withdrawals := []
  refunds := []
  nextIndex := 0
  pendingPerPubkey := .empty
  withdrawals_kind := by simp
  refunds_kind := by simp
  counts := fun _ => rfl

instance : Inhabited WithdrawalQueue := ⟨empty⟩

/-- The counts are determined by the entries, so a queue is its entries and its next index. -/
theorem ext {q q' : WithdrawalQueue} (same : q.withdrawals = q'.withdrawals)
    (sameRefunds : q.refunds = q'.refunds) (sameIndex : q.nextIndex = q'.nextIndex) : q = q' := by
  obtain ⟨withdrawals, refunds, nextIndex, counts, _, _, countsOk⟩ := q
  obtain ⟨withdrawals', refunds', nextIndex', counts', _, _, countsOk'⟩ := q'
  simp only at same sameRefunds sameIndex
  subst same sameRefunds sameIndex
  obtain rfl : counts = counts' :=
    SortedMap.ext_find? fun pubkey => (countsOk pubkey).trans (countsOk' pubkey).symm
  rfl

instance : DecidableEq WithdrawalQueue := fun q q' =>
  decidable_of_iff (q.withdrawals = q'.withdrawals ∧ q.refunds = q'.refunds ∧
      q.nextIndex = q'.nextIndex)
    ⟨fun ⟨one, two, three⟩ => ext one two three, fun same => by subst same; exact ⟨rfl, rfl, rfl⟩⟩

/-! ### Counts per key -/

def incrementPendingCount (counts : SortedMap Bytes32 Nat) (pubkey : Bytes32) :
    SortedMap Bytes32 Nat :=
  counts.insert pubkey ((counts.find? pubkey).getD 0 + 1)

/-- Take an entry that leaves the queue off the counts; refunds are not counted. -/
def decrementPendingCount (counts : SortedMap Bytes32 Nat) (withdrawal : PendingWithdrawal) :
    SortedMap Bytes32 Nat :=
  if withdrawal.kind ≠ .validator then counts
  else match counts.find? withdrawal.pubkey with
    | some count =>
      if count - 1 = 0 then counts.erase withdrawal.pubkey
      else counts.insert withdrawal.pubkey (count - 1)
    | none => counts

variable {counts : SortedMap Bytes32 Nat} {withdrawals : List PendingWithdrawal}

theorem countsEntries_getD (ok : CountsEntries counts withdrawals) (pubkey : Bytes32) :
    (counts.find? pubkey).getD 0 = pendingEntries withdrawals pubkey := by
  rw [ok pubkey]
  split
  · next none => rw [none]; rfl
  · rfl

theorem countsEntries_push (ok : CountsEntries counts withdrawals) (withdrawal : PendingWithdrawal) :
    CountsEntries (incrementPendingCount counts withdrawal.pubkey)
      (withdrawals ++ [withdrawal]) := by
  intro pubkey
  have count : pendingEntries (withdrawals ++ [withdrawal]) pubkey =
      pendingEntries withdrawals pubkey + if withdrawal.pubkey = pubkey then 1 else 0 := by
    simp [pendingEntries, List.countP_append, List.countP_cons]
  rw [count, incrementPendingCount, SortedMap.find?_insert, countsEntries_getD ok]
  by_cases same : pubkey = withdrawal.pubkey
  · subst same
    simp
  · rw [if_neg same, if_neg (Ne.symm same), Nat.add_zero]
    exact ok pubkey

theorem countsEntries_pop {withdrawal : PendingWithdrawal} {rest : List PendingWithdrawal}
    (kind : withdrawal.kind = .validator) (ok : CountsEntries counts (withdrawal :: rest)) :
    CountsEntries (decrementPendingCount counts withdrawal) rest := by
  have count : ∀ pubkey, pendingEntries (withdrawal :: rest) pubkey =
      pendingEntries rest pubkey + if withdrawal.pubkey = pubkey then 1 else 0 := by
    intro pubkey
    simp [pendingEntries, List.countP_cons]
  have found : counts.find? withdrawal.pubkey = some (pendingEntries rest withdrawal.pubkey + 1) := by
    rw [ok, count, if_pos rfl, if_neg (Nat.succ_ne_zero _)]
  intro pubkey
  rw [decrementPendingCount, if_neg (not_not.mpr kind), found]
  simp only [Nat.add_sub_cancel]
  by_cases same : pubkey = withdrawal.pubkey
  · subst same
    split
    · next last => rw [SortedMap.find?_erase_self]
    · next more => rw [SortedMap.find?_insert_self]
  · have kept := ok pubkey
    rw [count, if_neg (Ne.symm same), Nat.add_zero] at kept
    split
    · rw [SortedMap.find?_erase_of_ne _ same, kept]
    · rw [SortedMap.find?_insert_of_ne _ _ same, kept]

/-- Number of outstanding validator entries of `pubkey`, full-exit markers included. -/
def pendingCount (queue : WithdrawalQueue) (pubkey : Bytes32) : Nat :=
  (queue.pendingPerPubkey.find? pubkey).getD 0

theorem pendingCount_eq (queue : WithdrawalQueue) (pubkey : Bytes32) :
    queue.pendingCount pubkey = pendingEntries queue.withdrawals pubkey :=
  countsEntries_getD queue.counts pubkey

/-! ### Pushing -/

/-- Append to the validator list. -/
def pushValidator (queue : WithdrawalQueue) (withdrawal : PendingWithdrawal)
    (kind : withdrawal.kind = .validator) : WithdrawalQueue :=
  { queue with
    withdrawals := queue.withdrawals ++ [withdrawal]
    pendingPerPubkey := incrementPendingCount queue.pendingPerPubkey withdrawal.pubkey
    withdrawals_kind := by
      simpa [or_imp, forall_and, kind] using queue.withdrawals_kind
    counts := countsEntries_push queue.counts withdrawal }

/-- Append to the refund list. -/
def pushRefund (queue : WithdrawalQueue) (withdrawal : PendingWithdrawal)
    (kind : withdrawal.kind = .depositRefund) : WithdrawalQueue :=
  { queue with
    refunds := queue.refunds ++ [withdrawal]
    refunds_kind := by
      simpa [or_imp, forall_and, kind] using queue.refunds_kind }

/-- Append a pre-built entry to the list of its kind. -/
def push (queue : WithdrawalQueue) (withdrawal : PendingWithdrawal) : WithdrawalQueue :=
  match kind : withdrawal.kind with
  | .validator => queue.pushValidator withdrawal kind
  | .depositRefund => queue.pushRefund withdrawal kind

/-- Set the next index to assign. -/
def setNextIndex (queue : WithdrawalQueue) (index : Nat) : WithdrawalQueue :=
  { queue with nextIndex := index }

/-- The entry that a request of the given kind appends. -/
def pendingOf (queue : WithdrawalQueue) (request : WithdrawalRequest) (epoch : Nat)
    (kind : WithdrawalKind) : PendingWithdrawal :=
  { inner :=
      { index := queue.nextIndex
        validatorIndex := 0
        address := request.sourceAddress
        amount := request.amount }
    pubkey := request.validatorPubkey
    epoch
    kind }

/-- Append a request of the given kind to the end of its list. -/
def pushRequestWithKind (queue : WithdrawalQueue) (request : WithdrawalRequest) (epoch : Nat)
    (kind : WithdrawalKind) : WithdrawalQueue :=
  (queue.setNextIndex (queue.nextIndex + 1)).push (queue.pendingOf request epoch kind)

/-! ### Reading -/

def deque (queue : WithdrawalQueue) : WithdrawalKind → List PendingWithdrawal
  | .validator => queue.withdrawals
  | .depositRefund => queue.refunds

/-- The entry appended last of the given kind. -/
def back (queue : WithdrawalQueue) (kind : WithdrawalKind) : Option PendingWithdrawal :=
  (queue.deque kind).getLast?

/-- All entries, validator withdrawals first: the order of the state tree. -/
def iterAll (queue : WithdrawalQueue) : List PendingWithdrawal := queue.withdrawals ++ queue.refunds

/-- The first entry of `pubkey`, validator withdrawals first. -/
def getWithdrawal (queue : WithdrawalQueue) (pubkey : Bytes32) : Option PendingWithdrawal :=
  (queue.withdrawals ++ queue.refunds).find? fun w => w.pubkey = pubkey

def len (queue : WithdrawalQueue) : Nat := queue.withdrawals.length + queue.refunds.length

/-- The entries of a kind that are due in `epoch`. -/
def getForEpochByKind (queue : WithdrawalQueue) (epoch : Nat) (kind : WithdrawalKind) :
    List PendingWithdrawal :=
  (queue.deque kind).filter fun w => w.epoch ≤ epoch

/-- The entries that are due in `epoch`, validator withdrawals first. -/
def getForEpoch (queue : WithdrawalQueue) (epoch : Nat) : List PendingWithdrawal :=
  queue.getForEpochByKind epoch .validator ++ queue.getForEpochByKind epoch .depositRefund

/-- The entries that are due in `epoch`, at most `maxTotal` of them, validator withdrawals first. -/
def getForEpochWithTotalCap (queue : WithdrawalQueue) (epoch maxTotal : Nat) :
    List PendingWithdrawal :=
  let withdrawals := (queue.withdrawals.takeWhile fun w => w.epoch ≤ epoch).take maxTotal
  let remaining := maxTotal - withdrawals.length
  withdrawals ++ (queue.refunds.takeWhile fun w => w.epoch ≤ epoch).take remaining

/-! ### Popping -/

/-- Take the first validator withdrawal off the queue. -/
def popFrontValidator (queue : WithdrawalQueue) : Option (PendingWithdrawal × WithdrawalQueue) :=
  match front : queue.withdrawals with
  | [] => none
  | withdrawal :: rest =>
    have kind : withdrawal.kind = .validator :=
      queue.withdrawals_kind withdrawal (front ▸ List.mem_cons_self)
    some (withdrawal, { queue with
      withdrawals := rest
      pendingPerPubkey := decrementPendingCount queue.pendingPerPubkey withdrawal
      withdrawals_kind := fun w member =>
        queue.withdrawals_kind w (front ▸ List.mem_cons_of_mem _ member)
      counts := countsEntries_pop kind (front ▸ queue.counts) })

/-- Take the first refund off the queue. -/
def popFrontRefund (queue : WithdrawalQueue) : Option (PendingWithdrawal × WithdrawalQueue) :=
  match front : queue.refunds with
  | [] => none
  | refund :: rest =>
    some (refund, { queue with
      refunds := rest
      refunds_kind := fun w member =>
        queue.refunds_kind w (front ▸ List.mem_cons_of_mem _ member) })

/-- Take the next due entry off the queue, validator withdrawals first. -/
def pop (queue : WithdrawalQueue) (epoch : Nat) : Option (PendingWithdrawal × WithdrawalQueue) :=
  if queue.withdrawals.head?.any (fun w => w.epoch ≤ epoch) then queue.popFrontValidator
  else if queue.refunds.head?.any (fun w => w.epoch ≤ epoch) then queue.popFrontRefund
  else none

/-- Take the entry with the given index off the queue; it has to be the first of its list. -/
def popByIndex (queue : WithdrawalQueue) (index : Nat) :
    Option (PendingWithdrawal × WithdrawalQueue) :=
  if queue.withdrawals.head?.any (fun w => w.inner.index = index) then queue.popFrontValidator
  else if queue.refunds.head?.any (fun w => w.inner.index = index) then queue.popFrontRefund
  else none

end WithdrawalQueue

end Summit
