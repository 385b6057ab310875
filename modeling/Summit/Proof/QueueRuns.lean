/-
**The withdrawal queue under any sequence of its operations.**

Requests are pushed with epochs that do not decrease, entries are popped from the front or by their
index, and the queue is written and read back in between. `Sound` is what every operation keeps: the
indexes are distinct, below the next one and increasing along each list, and so are the epochs up to
equality. From it the selection under the cap is a first part of all that is due
(`getForEpochWithTotalCap_eq`), and popping its indexes one after the other succeeds each time
(`popIndexes_due`).
-/

import Summit.Lib.Run
import Summit.Proof.QueueCodec

namespace Summit

open Bytes

namespace WithdrawalQueue

variable {queue queue' : WithdrawalQueue}

/-! ### Operations -/

inductive Op where
  | pushRequest (request : WithdrawalRequest) (epoch : Nat) (kind : WithdrawalKind)
  | pop (epoch : Nat)
  | popByIndex (index : Nat)
  /-- The queue is written and read back. -/
  | reload

/-- The epoch that a push is for. -/
def Op.epochs : Op → List Nat
  | .pushRequest _ epoch _ => [epoch]
  | .pop _ | .popByIndex _ | .reload => []

/-- The amount and the epoch of a push are 64-bit numbers. -/
def Op.Fits : Op → Prop
  | .pushRequest request epoch _ => request.amount < 2 ^ 64 ∧ epoch < 2 ^ 64
  | .pop _ | .popByIndex _ | .reload => True

/-- A pop that finds nothing leaves the queue; one that is not read back ends the run. -/
def step (queue : WithdrawalQueue) : Op → Option WithdrawalQueue
  | .pushRequest request epoch kind => some (queue.pushRequestWithKind request epoch kind)
  | .pop epoch => some ((queue.pop epoch).elim queue Prod.snd)
  | .popByIndex index => some ((queue.popByIndex index).elim queue Prod.snd)
  | .reload => (Reader.decode read queue.encode).toOption

/-- Pop the entries with the given indexes one after the other. -/
def popIndexes : List Nat → WithdrawalQueue → Option (List PendingWithdrawal × WithdrawalQueue)
  | [], queue => some ([], queue)
  | index :: rest, queue =>
    (queue.popByIndex index).bind fun first =>
      (popIndexes rest first.2).map fun others => (first.1 :: others.1, others.2)

/-! ### What every operation keeps -/

/-- The indexes increase along each list. -/
def Rising (queue : WithdrawalQueue) : Prop :=
  ∀ kind, (queue.deque kind).Pairwise fun a b => a.inner.index < b.inner.index

/-- The invariant of the runs. -/
structure Sound (queue : WithdrawalQueue) : Prop where
  indexed : queue.Indexed
  ordered : queue.Ordered
  rising : queue.Rising
  numbers : ∀ entry ∈ queue.iterAll,
    entry.inner.validatorIndex = 0 ∧ entry.inner.amount < 2 ^ 64 ∧ entry.epoch < 2 ^ 64

variable {entry : PendingWithdrawal} {request : WithdrawalRequest} {epoch : Nat}
  {kind : WithdrawalKind} {first rest : List PendingWithdrawal}

theorem mem_iterAll : entry ∈ queue.iterAll ↔ ∃ kind, entry ∈ queue.deque kind := by
  rw [iterAll, List.mem_append]
  constructor
  · rintro (member | member)
    · exact ⟨.validator, member⟩
    · exact ⟨.depositRefund, member⟩
  · rintro ⟨kind, member⟩
    cases kind with
    | validator => exact Or.inl member
    | depositRefund => exact Or.inr member

theorem sound_empty : empty.Sound := by
  refine ⟨indexed_empty, fun kind => ?_, fun kind => ?_, fun entry member => nomatch member⟩
  · cases kind <;> exact List.Pairwise.nil
  · cases kind <;> exact List.Pairwise.nil

theorem deque_pushRequest (queue : WithdrawalQueue) (request : WithdrawalRequest) (epoch : Nat)
    (kind other : WithdrawalKind) :
    (queue.pushRequestWithKind request epoch kind).deque other =
      if other = kind then queue.deque kind ++ [queue.pendingOf request epoch kind]
      else queue.deque other := by
  cases kind <;> cases other <;> simp [deque]

/-- A push keeps an order along the lists when the new entry comes after all others in it. -/
theorem pairwise_pushRequest {R : PendingWithdrawal → PendingWithdrawal → Prop}
    (old : ∀ kind, (queue.deque kind).Pairwise R)
    (after : ∀ entry ∈ queue.iterAll, R entry (queue.pendingOf request epoch kind))
    (other : WithdrawalKind) :
    ((queue.pushRequestWithKind request epoch kind).deque other).Pairwise R := by
  rw [deque_pushRequest]
  split
  · rw [List.pairwise_append]
    refine ⟨old kind, List.pairwise_singleton _ _, fun entry member last here => ?_⟩
    rw [List.mem_singleton.mp here]
    exact after entry (mem_iterAll.mpr ⟨kind, member⟩)
  · exact old other

/-- **A push** for an epoch that is not before any other. -/
theorem Sound.pushRequest (sound : queue.Sound)
    (late : ∀ entry ∈ queue.iterAll, entry.epoch ≤ epoch) (amount : request.amount < 2 ^ 64)
    (small : epoch < 2 ^ 64) : (queue.pushRequestWithKind request epoch kind).Sound := by
  refine ⟨sound.indexed.pushRequest request epoch kind, ?_, ?_, fun entry member => ?_⟩
  · exact pairwise_pushRequest sound.ordered late
  · exact pairwise_pushRequest sound.rising sound.indexed.below
  · rcases List.mem_cons.mp ((queue.perm_pushRequest request epoch kind).mem_iff.mp member)
      with rfl | old
    · exact ⟨rfl, amount, small⟩
    · exact sound.numbers entry old

theorem Pops.deque_sublist (pops : queue.Pops entry queue') (kind : WithdrawalKind) :
    (queue'.deque kind).Sublist (queue.deque kind) := by
  rcases pops.1 with ⟨validators, refunds⟩ | ⟨validators, refunds⟩
  · cases kind with
    | validator =>
      show queue'.withdrawals.Sublist queue.withdrawals
      rw [validators]
      exact List.sublist_cons_self _ _
    | depositRefund =>
      show queue'.refunds.Sublist queue.refunds
      rw [refunds]
  · cases kind with
    | validator =>
      show queue'.withdrawals.Sublist queue.withdrawals
      rw [validators]
    | depositRefund =>
      show queue'.refunds.Sublist queue.refunds
      rw [refunds]
      exact List.sublist_cons_self _ _

theorem Sound.pops (sound : queue.Sound) (pops : queue.Pops entry queue') : queue'.Sound := by
  refine ⟨sound.indexed.of_sublist pops.sublist pops.2, fun kind => ?_, fun kind => ?_,
    fun entry member => ?_⟩
  · exact (sound.ordered kind).sublist (pops.deque_sublist kind)
  · exact (sound.rising kind).sublist (pops.deque_sublist kind)
  · exact sound.numbers entry (pops.sublist.subset member)

/-- A pop leaves the queue or takes one entry off. -/
theorem elim_pops {popped : Option (PendingWithdrawal × WithdrawalQueue)}
    (pops : ∀ entry rest, popped = some (entry, rest) → queue.Pops entry rest) :
    popped.elim queue Prod.snd = queue ∨
      ∃ entry, queue.Pops entry (popped.elim queue Prod.snd) := by
  cases popped with
  | none => exact Or.inl rfl
  | some pair => exact Or.inr ⟨pair.1, pops pair.1 pair.2 rfl⟩

theorem Sound.fits (sound : queue.Sound) (few : queue.nextIndex < u64Max) : queue.Fits := by
  refine ⟨fun entry member => ?_, few⟩
  obtain ⟨zero, amount, epoch⟩ := sound.numbers entry member
  have below := sound.indexed.below entry member
  rw [u64Max] at few
  exact ⟨by omega, by omega, amount, epoch⟩

/-- **One operation**: the queue is the same, has one entry less, or one more. -/
theorem step_cases {op : Op} (result : queue.step op = some queue') (sound : queue.Sound)
    (few : queue.nextIndex < u64Max) :
    queue' = queue ∨ (∃ entry, queue.Pops entry queue') ∨
      ∃ request epoch kind, op = .pushRequest request epoch kind ∧
        queue' = queue.pushRequestWithKind request epoch kind := by
  cases op with
  | pushRequest request epoch kind =>
    exact Or.inr (Or.inr ⟨request, epoch, kind, rfl, (Option.some.inj result).symm⟩)
  | pop epoch =>
    obtain rfl := Option.some.inj result
    rcases elim_pops fun entry rest (popped : queue.pop epoch = some (entry, rest)) =>
      pops_pop popped with same | pops
    · exact Or.inl same
    · exact Or.inr (Or.inl pops)
  | popByIndex index =>
    obtain rfl := Option.some.inj result
    rcases elim_pops fun entry rest (popped : queue.popByIndex index = some (entry, rest)) =>
      pops_popByIndex popped with same | pops
    · exact Or.inl same
    · exact Or.inr (Or.inl pops)
  | reload =>
    have decoded : Reader.decode read queue.encode = .ok queue' := by
      revert result
      show (Reader.decode read queue.encode).toOption = some queue' → _
      cases Reader.decode read queue.encode with
      | error error => exact fun none_ => nomatch none_
      | ok value => exact fun same => congrArg Except.ok (Option.some.inj same)
    exact Or.inl (eq_of_decode_encode sound.indexed sound.ordered (sound.fits few) decoded)

/-- **A run of operations keeps the queue sound**, when the epochs of the pushes do not decrease and
the indexes do not run out. -/
theorem Sound.run {ops : List Op} (sound : queue.Sound) (fits : ∀ op ∈ ops, op.Fits)
    (rising : (ops.flatMap Op.epochs).Pairwise (· ≤ ·))
    (late : ∀ epoch ∈ ops.flatMap Op.epochs, ∀ entry ∈ queue.iterAll, entry.epoch ≤ epoch)
    (few : queue.nextIndex + (ops.flatMap Op.epochs).length < u64Max)
    (result : ops.foldlM step queue = some queue') :
    queue'.Sound ∧ queue'.nextIndex < u64Max := by
  induction ops generalizing queue with
  | nil =>
    obtain rfl := Option.some.inj result
    exact ⟨sound, few⟩
  | cons op rest ih =>
    obtain ⟨mid, first, later⟩ := Run.foldlM_cons_some result
    rw [List.flatMap_cons] at rising late few
    rw [List.length_append] at few
    obtain ⟨-, rising', after⟩ := List.pairwise_append.mp rising
    have fits' : ∀ other ∈ rest, other.Fits := fun other member =>
      fits other (List.mem_cons_of_mem _ member)
    have late' : ∀ epoch ∈ rest.flatMap Op.epochs, ∀ entry ∈ queue.iterAll, entry.epoch ≤ epoch :=
      fun epoch member => late epoch (List.mem_append_right _ member)
    rcases step_cases first sound (by omega) with rfl | ⟨entry, pops⟩ | ⟨request, epoch, kind, rfl, rfl⟩
    · exact ih sound fits' rising' late' (by omega) later
    · refine ih (sound.pops pops) fits' rising' (fun epoch member entry here => ?_) ?_ later
      · exact late' epoch member entry (pops.sublist.subset here)
      · rw [pops.2]
        omega
    · obtain ⟨amount, small⟩ := fits _ List.mem_cons_self
      have now : ∀ entry ∈ queue.iterAll, entry.epoch ≤ epoch :=
        late epoch (List.mem_append_left _ List.mem_cons_self)
      refine ih (sound.pushRequest now amount small) fits' rising' (fun next member entry here => ?_)
        ?_ later
      · rcases List.mem_cons.mp ((queue.perm_pushRequest request epoch kind).mem_iff.mp here)
          with rfl | old
        · exact after epoch List.mem_cons_self next member
        · exact late' next member entry old
      · have one : (Op.epochs (.pushRequest request epoch kind)).length = 1 := rfl
        rw [nextIndex_pushRequest]
        omega

/-! ### The selection -/

/-- Along a list that is ordered by epoch, what is due comes first. -/
theorem takeWhile_due {entries : List PendingWithdrawal}
    (ordered : entries.Pairwise fun a b => a.epoch ≤ b.epoch) (epoch : Nat) :
    entries.takeWhile (fun w => decide (w.epoch ≤ epoch)) =
      entries.filter fun w => decide (w.epoch ≤ epoch) := by
  induction entries with
  | nil => rfl
  | cons entry rest ih =>
    obtain ⟨rises, ordered'⟩ := List.pairwise_cons.mp ordered
    by_cases due : entry.epoch ≤ epoch
    · rw [List.takeWhile_cons_of_pos (by rwa [decide_eq_true_iff]),
        List.filter_cons_of_pos (by rwa [decide_eq_true_iff]), ih ordered']
    · have none_ : rest.filter (fun w => decide (w.epoch ≤ epoch)) = [] := by
        rw [List.filter_eq_nil_iff]
        intro other member
        have later := rises other member
        rw [decide_eq_true_iff]
        omega
      rw [List.takeWhile_cons_of_neg (by rwa [decide_eq_true_iff]),
        List.filter_cons_of_neg (by rwa [decide_eq_true_iff]), none_]

/-- **The selection under the cap** is the first part of all that is due. -/
theorem getForEpochWithTotalCap_eq (ordered : queue.Ordered) (epoch cap : Nat) :
    queue.getForEpochWithTotalCap epoch cap = (queue.getForEpoch epoch).take cap := by
  have validators := takeWhile_due (ordered .validator) epoch
  have refunds := takeWhile_due (ordered .depositRefund) epoch
  change queue.withdrawals.takeWhile _ = queue.getForEpochByKind epoch .validator at validators
  change queue.refunds.takeWhile _ = queue.getForEpochByKind epoch .depositRefund at refunds
  unfold getForEpochWithTotalCap
  dsimp only
  rw [validators, refunds, getForEpoch, List.take_append, List.length_take]
  congr 2
  omega

theorem popIndexes_validators (front : queue.withdrawals = first ++ rest) (indexes : List Nat) :
    ∃ popped, popped.withdrawals = rest ∧ popped.refunds = queue.refunds ∧
      popIndexes (first.map (fun w => w.inner.index) ++ indexes) queue =
        (popIndexes indexes popped).map fun others => (first ++ others.1, others.2) := by
  induction first generalizing queue with
  | nil =>
    refine ⟨queue, front, rfl, ?_⟩
    cases same : popIndexes indexes queue <;> simp [same]
  | cons entry others ih =>
    obtain ⟨next, popped, validators, refunds, -⟩ := queue.popByIndex_validator front
    obtain ⟨last, validators', refunds', result⟩ := ih validators
    refine ⟨last, validators', refunds'.trans refunds, ?_⟩
    rw [List.map_cons, List.cons_append, popIndexes, popped, Option.bind_some, result,
      Option.map_map]
    rfl

/-- Popping a first part of the refunds, whose indexes no validator entry has. -/
theorem popIndexes_refunds (front : queue.refunds = first ++ rest)
    (apart : ∀ refund ∈ first, ∀ other ∈ queue.withdrawals, other.inner.index ≠ refund.inner.index) :
    ∃ popped, popIndexes (first.map fun w => w.inner.index) queue = some (first, popped) := by
  induction first generalizing queue with
  | nil => exact ⟨queue, rfl⟩
  | cons entry others ih =>
    obtain ⟨next, popped, validators, refunds, -⟩ :=
      queue.popByIndex_refund front (apart entry List.mem_cons_self)
    obtain ⟨last, result⟩ := ih refunds fun refund member => by
      rw [validators]
      exact apart refund (List.mem_cons_of_mem _ member)
    refine ⟨last, ?_⟩
    rw [List.map_cons, popIndexes, popped, Option.bind_some, result]
    rfl

/-- **The indexes of the selection pop**, one after the other, the selection itself. -/
theorem popIndexes_due (indexed : queue.Indexed) (epoch cap : Nat) :
    ∃ popped,
      popIndexes ((queue.getForEpochWithTotalCap epoch cap).map fun w => w.inner.index) queue =
        some (queue.getForEpochWithTotalCap epoch cap, popped) := by
  obtain ⟨validators, refunds, laterValidators, laterRefunds, same, one, two⟩ :=
    queue.exists_due epoch cap
  obtain ⟨mid, validators', refunds', first⟩ :=
    popIndexes_validators one (refunds.map fun w => w.inner.index)
  have unique := indexed.unique
  rw [UniqueIndexes, iterAll, List.map_append, List.nodup_append] at unique
  have apart : ∀ refund ∈ refunds, ∀ other ∈ mid.withdrawals,
      other.inner.index ≠ refund.inner.index := by
    intro refund member other here
    have validator : other ∈ queue.withdrawals := by
      rw [one]
      exact List.mem_append_right _ (validators' ▸ here)
    have refunded : refund ∈ queue.refunds := by
      rw [two]
      exact List.mem_append_left _ member
    exact unique.2.2 _ (List.mem_map_of_mem validator) _ (List.mem_map_of_mem refunded)
  obtain ⟨last, second⟩ := popIndexes_refunds (refunds'.trans two) apart
  refine ⟨last, ?_⟩
  rw [same, List.map_append, first, second]
  rfl

/-! ### The counts -/

theorem pendingCount_eq_countP (queue : WithdrawalQueue) (pubkey : Bytes32) :
    queue.pendingCount pubkey =
      queue.iterAll.countP fun w => w.kind = .validator ∧ w.pubkey = pubkey := by
  have refunds : queue.refunds.countP
      (fun w => decide (w.kind = .validator ∧ w.pubkey = pubkey)) = 0 := by
    rw [List.countP_eq_zero]
    intro entry member
    rw [queue.refunds_kind entry member]
    simp
  have validators : queue.withdrawals.countP
      (fun w => decide (w.kind = .validator ∧ w.pubkey = pubkey)) =
        pendingEntries queue.withdrawals pubkey := by
    refine List.countP_congr fun entry member => ?_
    rw [queue.withdrawals_kind entry member]
    simp
  rw [pendingCount_eq, iterAll, List.countP_append, refunds, validators, Nat.add_zero]

theorem find?_pendingPerPubkey_ne_zero (queue : WithdrawalQueue) (pubkey : Bytes32) :
    queue.pendingPerPubkey.find? pubkey ≠ some 0 := by
  rw [queue.counts pubkey]
  split
  · nofun
  · next some_ => exact fun zero => some_ (Option.some.inj zero)

end WithdrawalQueue

open WithdrawalQueue

/-- **The queue after any sequence of operations.** From the empty queue, with pushes whose epochs do
not decrease and fewer of them than there are indexes: the indexes are distinct, below the next one
and, like the epochs, do not decrease along a list; each list holds its own kind and the counts are
those of the validator entries, without zeros. The selection under any cap is the first part of all
that is due, and its indexes can be popped one after the other. A queue whose lengths fit is read
back from its encoding. -/
theorem queue_sound_of_run (ops : List Op) (queue : WithdrawalQueue)
    (fits : ∀ op ∈ ops, op.Fits) (rising : (ops.flatMap Op.epochs).Pairwise (· ≤ ·))
    (few : (ops.flatMap Op.epochs).length < u64Max)
    (run : ops.foldlM WithdrawalQueue.step WithdrawalQueue.empty = some queue) :
    (queue.iterAll.map fun w => w.inner.index).Nodup ∧
      (∀ w ∈ queue.iterAll, w.inner.index < queue.nextIndex) ∧
      (∀ kind, (queue.deque kind).Pairwise fun a b =>
        a.inner.index ≤ b.inner.index ∧ a.epoch ≤ b.epoch) ∧
      (∀ kind, ∀ w ∈ queue.deque kind, w.kind = kind) ∧
      (∀ pubkey, queue.pendingCount pubkey =
          queue.iterAll.countP (fun w => w.kind = .validator ∧ w.pubkey = pubkey) ∧
        queue.pendingPerPubkey.find? pubkey ≠ some 0) ∧
      (∀ epoch cap,
        queue.getForEpochWithTotalCap epoch cap = (queue.getForEpoch epoch).take cap ∧
        ∃ popped,
          popIndexes ((queue.getForEpochWithTotalCap epoch cap).map fun w => w.inner.index) queue =
            some (queue.getForEpochWithTotalCap epoch cap, popped)) ∧
      (queue.withdrawals.length < 2 ^ 32 → queue.refunds.length < 2 ^ 32 →
        Reader.decode WithdrawalQueue.read queue.encode = .ok queue) := by
  obtain ⟨sound, few'⟩ := sound_empty.run fits rising (fun _ _ _ member => nomatch member)
    (by rwa [show WithdrawalQueue.empty.nextIndex = 0 from rfl, Nat.zero_add]) run
  refine ⟨sound.indexed.unique, sound.indexed.below, fun kind => ?_, fun kind => ?_,
    fun pubkey => ⟨queue.pendingCount_eq_countP pubkey, queue.find?_pendingPerPubkey_ne_zero pubkey⟩,
    fun epoch cap => ⟨getForEpochWithTotalCap_eq sound.ordered epoch cap,
      popIndexes_due sound.indexed epoch cap⟩,
    fun validators refunds => ?_⟩
  · exact (sound.rising kind).imp₂ (fun _ _ index epoch => ⟨Nat.le_of_lt index, epoch⟩)
      (sound.ordered kind)
  · cases kind with
    | validator => exact queue.withdrawals_kind
    | depositRefund => exact queue.refunds_kind
  · exact (reads_queue sound.indexed sound.ordered (sound.fits few') validators refunds).decode

/-- Two withdrawals and a refund, with a pop and a reload in between. -/
theorem queue_sound_of_run_mixed :
    ∃ queue,
      [Op.pushRequest ⟨FixedBytes.zero 20, FixedBytes.zero 32, 5⟩ 3 .validator,
        .pushRequest ⟨FixedBytes.zero 20, FixedBytes.zero 32, 7⟩ 3 .depositRefund, .pop 3, .reload,
        .pushRequest ⟨FixedBytes.zero 20, FixedBytes.zero 32, 9⟩ 4 .validator].foldlM
          WithdrawalQueue.step WithdrawalQueue.empty = some queue ∧
      queue.iterAll.map (fun w => w.inner.index) = [2, 1] ∧
      queue.getForEpochWithTotalCap 4 1 = (queue.getForEpoch 4).take 1 := by
  have computed : ([Op.pushRequest ⟨FixedBytes.zero 20, FixedBytes.zero 32, 5⟩ 3 .validator,
      .pushRequest ⟨FixedBytes.zero 20, FixedBytes.zero 32, 7⟩ 3 .depositRefund, .pop 3, .reload,
      .pushRequest ⟨FixedBytes.zero 20, FixedBytes.zero 32, 9⟩ 4 .validator].foldlM
        WithdrawalQueue.step WithdrawalQueue.empty).map
          (fun queue => queue.iterAll.map fun w => w.inner.index) = some [2, 1] := by
    decide +kernel
  obtain ⟨queue, run, indexes⟩ := Option.map_eq_some_iff.mp computed
  have sound := queue_sound_of_run _ queue (by simp [Op.Fits]) (by simp [Op.epochs])
    (by simp [Op.epochs, u64Max]) run
  exact ⟨queue, run, indexes, (sound.2.2.2.2.2.1 4 1).1⟩

end Summit
