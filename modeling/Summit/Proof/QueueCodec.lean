/-
**The codec of the withdrawal queue.**

An entry whose numbers fit their fields is read back (`reads_pendingWithdrawal`), and so is a queue
whose indexes are below the next one and whose epochs do not decrease, as long as its lengths fit
(`reads_queue`). What a reader accepts has the size of the queue it returns (`length_of_read`), so
the encoding of a longer queue is not accepted as a whole, and a queue that is read back from its
own encoding is the one that was written (`eq_of_decode_encode`).
-/

import Summit.Model.Codec
import Summit.Proof.WithdrawalQueue

namespace Summit

open Bytes

/-! ### Entries -/

/-- The numbers of the entry fit their fields. -/
@[mk_iff]
structure PendingWithdrawal.Fits (entry : PendingWithdrawal) : Prop where
  index : entry.inner.index < 2 ^ 64
  validatorIndex : entry.inner.validatorIndex < 2 ^ 64
  amount : entry.inner.amount < 2 ^ 64
  epoch : entry.epoch < 2 ^ 64

instance : DecidablePred PendingWithdrawal.Fits := fun entry =>
  decidable_of_iff _ (PendingWithdrawal.fits_iff entry).symm

theorem length_encode_pendingWithdrawal (entry : PendingWithdrawal) :
    entry.encode.length = PendingWithdrawal.size := by
  simp [PendingWithdrawal.encode, PendingWithdrawal.size]

theorem reads_pendingWithdrawal {entry : PendingWithdrawal} (fits : entry.Fits) :
    Reads PendingWithdrawal.read entry.encode entry := by
  have kind : WithdrawalKind.tryFrom entry.kind.asU8 = some entry.kind := by
    cases entry.kind <;> rfl
  have last : Reads (do
      let kind ← Reader.orFail (WithdrawalKind.tryFrom entry.kind.asU8)
        (.invalid "PendingWithdrawal" "Invalid withdrawal kind")
      return ({ entry with kind } : PendingWithdrawal)) [] entry :=
    (reads_orFail _ kind).map fun kind => { entry with kind }
  refine Reads.need _ (length_encode_pendingWithdrawal entry).ge ?_
  refine Reads.congr ((reads_le fits.index).bind ((reads_le fits.validatorIndex).bind
    ((reads_fixed entry.inner.address).bind ((reads_le fits.amount).bind
      ((reads_fixed entry.pubkey).bind ((reads_le fits.epoch).bind
        ((reads_byte entry.kind.asU8).bind last))))))) ?_ rfl
  simp [PendingWithdrawal.encode]

theorem takes_pendingWithdrawal : Takes PendingWithdrawal.read PendingWithdrawal.size :=
  (takes_need _ _).bind fun _ => (takes_le 8).bind fun _ => (takes_le 8).bind fun _ =>
    (takes_fixed 20).bind fun _ => (takes_le 8).bind fun _ => (takes_fixed 32).bind fun _ =>
      (takes_le 8).bind fun _ => takes_byte.bind fun _ => (takes_orFail _ _).bind fun _ =>
        takes_pure _

namespace WithdrawalQueue

/-! ### One list -/

section Entries

variable {kind : WithdrawalKind} {nextIndex : Nat}

/-- A list is read back when its indexes are new and its epochs do not fall. -/
theorem reads_readEntries (nextIndex : Nat)
    (entries : List { w : PendingWithdrawal // w.kind = kind }) (seen : List Nat) (prevEpoch : Nat)
    (fits : ∀ entry ∈ entries, entry.val.Fits)
    (below : ∀ entry ∈ entries, entry.val.inner.index < nextIndex)
    (new : (entries.map fun entry => entry.val.inner.index).Nodup)
    (apart : ∀ entry ∈ entries, entry.val.inner.index ∉ seen)
    (later : ∀ entry ∈ entries, prevEpoch ≤ entry.val.epoch)
    (ordered : entries.Pairwise fun a b => a.val.epoch ≤ b.val.epoch) :
    Reads (readEntries kind nextIndex entries.length seen prevEpoch)
      (entries.flatMap fun entry => entry.val.encode)
      (entries, (entries.map fun entry => entry.val.inner.index).reverse ++ seen) := by
  induction entries generalizing seen prevEpoch with
  | nil => exact reads_pure _
  | cons entry rest ih =>
    obtain ⟨fresh, new'⟩ := List.nodup_cons.mp new
    obtain ⟨rises, ordered'⟩ := List.pairwise_cons.mp ordered
    have here := List.mem_cons_self (a := entry) (l := rest)
    have rest_ := ih (entry.val.inner.index :: seen) entry.val.epoch
      (fun other member => fits other (List.mem_cons_of_mem _ member))
      (fun other member => below other (List.mem_cons_of_mem _ member)) new'
      (fun other member listed => by
        rcases List.mem_cons.mp listed with same | old
        · refine fresh ?_
          show entry.val.inner.index ∈ _
          rw [← same]
          exact List.mem_map_of_mem member
        · exact apart other (List.mem_cons_of_mem _ member) old)
      (fun other member => rises other member) ordered'
    have tail : Reads (do
        Reader.ensure (entry.val.inner.index < nextIndex)
          (.invalid "WithdrawalQueue" "next_index must exceed pending withdrawal indexes")
        Reader.ensure (entry.val.inner.index ∉ seen)
          (.invalid "WithdrawalQueue" "duplicate withdrawal index")
        Reader.ensure (prevEpoch ≤ entry.val.epoch)
          (.invalid "WithdrawalQueue" "withdrawal epochs must be non-decreasing")
        let pair ←
          readEntries kind nextIndex rest.length (entry.val.inner.index :: seen) entry.val.epoch
        return (entry :: pair.1, pair.2)) (rest.flatMap fun entry => entry.val.encode)
        (entry :: rest, (entry :: rest).reverse.map (fun entry => entry.val.inner.index) ++ seen) := by
      refine (reads_ensure _ (decide_eq_true (below entry here))).bind
        ((reads_ensure _ (decide_eq_true (apart entry here))).bind
          ((reads_ensure _ (decide_eq_true (later entry here))).bind
            ((rest_.map fun pair => (entry :: pair.1, pair.2)).congr rfl ?_)))
      simp
    have whole : Reads (readEntries kind nextIndex (rest.length + 1) seen prevEpoch)
        (entry.val.encode ++ rest.flatMap fun entry => entry.val.encode)
        (entry :: rest,
          (entry :: rest).reverse.map (fun entry => entry.val.inner.index) ++ seen) := by
      refine (reads_pendingWithdrawal (fits entry here)).bind ?_
      rw [dif_pos entry.property]
      exact tail
    exact whole.congr rfl (by rw [List.map_reverse])

/-- A list that is read has the entries asked for, of one size each. -/
theorem length_of_readEntries {count : Nat} {seen seen' : List Nat} {prevEpoch : Nat}
    {buffer rest : List UInt8} {entries : List { w : PendingWithdrawal // w.kind = kind }}
    (result : (readEntries kind nextIndex count seen prevEpoch).run buffer =
      .ok ((entries, seen'), rest)) :
    entries.length = count ∧
      buffer.length = count * PendingWithdrawal.size + rest.length := by
  induction count generalizing seen seen' prevEpoch buffer entries with
  | zero =>
    obtain ⟨same, rfl⟩ := Prod.mk.inj (Except.ok.inj result)
    obtain ⟨rfl, -⟩ := Prod.mk.inj same
    exact ⟨rfl, by omega⟩
  | succ count ih =>
    obtain ⟨entry, mid, first, second⟩ := run_bind_eq_ok.mp result
    have size := takes_pendingWithdrawal _ _ _ first
    split at second
    · next same =>
      obtain ⟨_, mid', below, second⟩ := run_bind_eq_ok.mp second
      obtain ⟨_, mid'', new, second⟩ := run_bind_eq_ok.mp second
      obtain ⟨_, mid''', later, second⟩ := run_bind_eq_ok.mp second
      obtain ⟨⟨others, indexes⟩, end_, rest_, last⟩ := run_bind_eq_ok.mp second
      obtain ⟨pair, rfl⟩ := Prod.mk.inj (Except.ok.inj last)
      obtain ⟨rfl, -⟩ := Prod.mk.inj pair
      have one := takes_ensure _ _ _ _ _ below
      have two := takes_ensure _ _ _ _ _ new
      have three := takes_ensure _ _ _ _ _ later
      obtain ⟨length, taken⟩ := ih rest_
      refine ⟨by rw [List.length_cons, length], ?_⟩
      rw [Nat.succ_mul]
      omega
    · cases second

end Entries

/-! ### Queues -/

variable {queue queue' : WithdrawalQueue}

/-- The epochs do not decrease along either list. -/
def Ordered (queue : WithdrawalQueue) : Prop :=
  ∀ kind, (queue.deque kind).Pairwise fun a b => a.epoch ≤ b.epoch

/-- The numbers of the queue fit their fields. -/
structure Fits (queue : WithdrawalQueue) : Prop where
  entries : ∀ entry ∈ queue.iterAll, entry.Fits
  nextIndex : queue.nextIndex < u64Max

/-- A list with the proof that it holds one kind. -/
def checked {kind : WithdrawalKind} (entries : List PendingWithdrawal)
    (all : ∀ entry ∈ entries, entry.kind = kind) : List { w : PendingWithdrawal // w.kind = kind } :=
  entries.pmap Subtype.mk all

variable {kind : WithdrawalKind} {entries : List PendingWithdrawal}

theorem map_val_checked (entries : List PendingWithdrawal)
    (all : ∀ entry ∈ entries, entry.kind = kind) :
    (checked entries all).map Subtype.val = entries := by
  rw [checked, List.map_pmap, List.pmap_eq_map, List.map_id']

/-- What holds of the entries holds of the checked ones. -/
theorem forall_checked (all : ∀ entry ∈ entries, entry.kind = kind) {P : PendingWithdrawal → Prop}
    (each : ∀ entry ∈ entries, P entry) : ∀ entry ∈ checked entries all, P entry.val := by
  intro entry member
  refine each entry.val ?_
  rw [← map_val_checked entries all]
  exact List.mem_map_of_mem member

/-- One list of a queue is read back after its length. -/
theorem reads_readFlat {nextIndex : Nat} (all : ∀ entry ∈ entries, entry.kind = kind)
    (seen : List Nat) (few : entries.length < 2 ^ 32) (fits : ∀ entry ∈ entries, entry.Fits)
    (below : ∀ entry ∈ entries, entry.inner.index < nextIndex)
    (new : (entries.map fun entry => entry.inner.index).Nodup)
    (apart : ∀ entry ∈ entries, entry.inner.index ∉ seen)
    (ordered : entries.Pairwise fun a b => a.epoch ≤ b.epoch) :
    Reads (readFlat kind nextIndex seen) (writeFlat entries)
      (checked entries all,
        (entries.map fun entry => entry.inner.index).reverse ++ seen) := by
  have same := map_val_checked entries all
  have indexes : ((checked entries all).map fun entry => entry.val.inner.index) =
      entries.map fun entry => entry.inner.index := by
    conv_rhs => rw [← same]
    rw [List.map_map]
    rfl
  have bytes : ((checked entries all).flatMap fun entry => entry.val.encode) =
      entries.flatMap PendingWithdrawal.encode := by
    conv_rhs => rw [← same]
    rw [List.flatMap_map]
  have length : (checked entries all).length = entries.length := List.length_pmap
  have pairs : (checked entries all).Pairwise fun a b => a.val.epoch ≤ b.val.epoch := by
    rw [← same, List.pairwise_map] at ordered
    exact ordered
  have list := reads_readEntries nextIndex (checked entries all) seen 0
    (forall_checked all fits) (forall_checked all below) (indexes ▸ new)
    (forall_checked all apart) (fun _ _ => Nat.zero_le _) pairs
  rw [length, indexes, bytes] at list
  exact (reads_be few).bind list

/-- **A queue is read back as it was written**, while its lengths fit. -/
theorem reads_queue (indexed : queue.Indexed) (ordered : queue.Ordered) (fits : queue.Fits)
    (few : queue.withdrawals.length < 2 ^ 32) (fewRefunds : queue.refunds.length < 2 ^ 32) :
    Reads read queue.encode queue := by
  have unique := indexed.unique
  rw [UniqueIndexes, iterAll, List.map_append, List.nodup_append] at unique
  obtain ⟨newValidators, newRefunds, apart⟩ := unique
  have next := fits.nextIndex
  have small : queue.nextIndex < 256 ^ 8 := by
    rw [u64Max] at next
    omega
  have inValidators : ∀ entry ∈ queue.withdrawals, entry ∈ queue.iterAll := fun entry member =>
    List.mem_append_left _ member
  have inRefunds : ∀ entry ∈ queue.refunds, entry ∈ queue.iterAll := fun entry member =>
    List.mem_append_right _ member
  have validators := reads_readFlat queue.withdrawals_kind [] few
    (fun entry member => fits.entries entry (inValidators entry member))
    (fun entry member => indexed.below entry (inValidators entry member)) newValidators
    (fun _ _ => List.not_mem_nil) (ordered .validator)
  have refunds := reads_readFlat queue.refunds_kind
    ((queue.withdrawals.map fun entry => entry.inner.index).reverse ++ []) fewRefunds
    (fun entry member => fits.entries entry (inRefunds entry member))
    (fun entry member => indexed.below entry (inRefunds entry member)) newRefunds
    (fun entry member listed => by
      rw [List.append_nil, List.mem_reverse] at listed
      exact apart _ listed _ (List.mem_map_of_mem member) rfl)
    (ordered .depositRefund)
  have last : Reads (do
      let pair ← readFlat .depositRefund queue.nextIndex
        ((queue.withdrawals.map fun entry => entry.inner.index).reverse ++ [])
      return ofDeques (checked queue.withdrawals queue.withdrawals_kind) pair.1 queue.nextIndex)
      (writeFlat queue.refunds) queue := by
    refine (refunds.map fun pair =>
      ofDeques (checked queue.withdrawals queue.withdrawals_kind) pair.1 queue.nextIndex).congr rfl ?_
    exact WithdrawalQueue.ext (map_val_checked _ _) (map_val_checked _ _) rfl
  refine Reads.congr ((reads_be small).bind ((reads_ensure _ (decide_eq_true next.ne)).bind
    (validators.bind last))) ?_ rfl
  simp [encode]

/-- **What is accepted** has the size of the queue it holds, and its lengths fit. -/
theorem length_of_read {buffer rest : List UInt8}
    (result : read.run buffer = .ok (queue, rest)) :
    buffer.length = queue.encodeSize + rest.length ∧
      queue.withdrawals.length = beNat ((buffer.drop 8).take 4) ∧
      queue.refunds.length < 2 ^ 32 := by
  obtain ⟨nextIndex, afterIndex, first, result⟩ := run_bind_eq_ok.mp result
  obtain ⟨enough, -, rfl⟩ := run_be first
  obtain ⟨_, checked_, ensured, result⟩ := run_bind_eq_ok.mp result
  have same : checked_ = buffer.drop 8 := by
    unfold Reader.ensure StateT.run at ensured
    split at ensured
    · exact (Prod.mk.inj (Except.ok.inj ensured)).2.symm
    · cases ensured
  subst same
  obtain ⟨⟨validators, indexes⟩, afterValidators, second, result⟩ := run_bind_eq_ok.mp result
  obtain ⟨⟨refunds, _⟩, afterRefunds, third, result⟩ := run_bind_eq_ok.mp result
  obtain ⟨rfl, rfl⟩ := Prod.mk.inj (Except.ok.inj result)
  obtain ⟨count, afterCount, countRead, entriesRead⟩ := run_bind_eq_ok.mp second
  obtain ⟨enoughCount, rfl, rfl⟩ := run_be countRead
  obtain ⟨count', afterCount', countRead', entriesRead'⟩ := run_bind_eq_ok.mp third
  obtain ⟨enoughCount', rfl, rfl⟩ := run_be countRead'
  obtain ⟨validatorCount, validatorBytes⟩ := length_of_readEntries entriesRead
  obtain ⟨refundCount, refundBytes⟩ := length_of_readEntries entriesRead'
  have small : beNat (afterValidators.take 4) < 2 ^ 32 := by
    have bound := beNat_lt (afterValidators.take 4)
    rw [List.length_take_of_le enoughCount'] at bound
    exact bound
  rw [List.length_drop] at enoughCount validatorBytes refundBytes
  refine ⟨?_, ?_, ?_⟩
  · show buffer.length = 8 + (4 + (validators.map Subtype.val).length * PendingWithdrawal.size) +
      (4 + (refunds.map Subtype.val).length * PendingWithdrawal.size) + afterRefunds.length
    rw [List.length_map, List.length_map, validatorCount, refundCount]
    rw [List.length_drop] at validatorBytes
    omega
  · show (validators.map Subtype.val).length = _
    rw [List.length_map, validatorCount]
  · show (refunds.map Subtype.val).length < 2 ^ 32
    rw [List.length_map, refundCount]
    exact small

theorem length_encode (queue : WithdrawalQueue) : queue.encode.length = queue.encodeSize := by
  have flat (entries : List PendingWithdrawal) :
      (entries.flatMap PendingWithdrawal.encode).length =
        entries.length * PendingWithdrawal.size := by
    induction entries with
    | nil => exact (Nat.zero_mul _).symm
    | cons entry rest ih =>
      rw [List.flatMap_cons, List.length_append, length_encode_pendingWithdrawal, ih,
        List.length_cons, Nat.succ_mul, Nat.add_comm]
  simp only [encode, writeFlat, List.flatten_cons, List.flatten_nil, List.length_append,
    List.length_nil, length_beBytes, flat, encodeSize, flatEncodeSize]
  omega

/-- **A queue that is read back from its own encoding is the same.** One whose lengths do not fit is
refused: too few entries are read, and bytes are left over. -/
theorem eq_of_decode_encode (indexed : queue.Indexed) (ordered : queue.Ordered)
    (fits : queue.Fits) (decoded : Reader.decode read queue.encode = .ok queue') :
    queue' = queue := by
  have run : read.run queue.encode = .ok (queue', []) := by
    unfold Reader.decode at decoded
    split at decoded
    · cases decoded
    · next result =>
      obtain rfl := Except.ok.inj decoded
      exact result
    · cases decoded
  obtain ⟨size, count, fewRefunds⟩ := length_of_read run
  have header : (queue.encode.drop 8).take 4 = beBytes 4 queue.withdrawals.length := by
    have cut : queue.encode.drop 8 = writeFlat queue.withdrawals ++ writeFlat queue.refunds := by
      rw [encode, List.flatten_cons, List.drop_left' (length_beBytes 8 _)]
      simp
    rw [cut, writeFlat, List.append_assoc, List.take_left' (length_beBytes 4 _)]
  rw [header, beNat_beBytes_mod] at count
  rw [length_encode, List.length_nil, Nat.add_zero] at size
  simp only [encodeSize, flatEncodeSize, PendingWithdrawal.size] at size
  have few : queue.withdrawals.length < 2 ^ 32 := by omega
  have fewRefunds' : queue.refunds.length < 2 ^ 32 := by omega
  rw [(reads_queue indexed ordered fits few fewRefunds').decode] at decoded
  exact (Except.ok.inj decoded).symm

end WithdrawalQueue

end Summit
