/-
**How long a payout waits.**

* `QueueStep` — what a step of an epoch does to the withdrawal queue: it pushes entries that are due
  after the delay, or takes the due entries off the front of both lists, or ends the epoch.
* `Lined` — the entries of a list come in the order of their indexes and of their epochs, and none is
  due later than the delay from now. Every step keeps it (`lined_of_reaches`).
* `WithdrawalQueue.Advances` — between two states of a run only a first part of each list is
  consumed, and what is pushed goes behind (`advances_of_reaches`).
* `EpochState.Waiting` — a validator entry with its place in the queue. From the epoch in which it
  is due, each payout moves it forward by the cap or consumes it (`waiting_of_step`), since refunds
  come after all validator entries; so the cap times the number of payouts made since bounds the
  number of entries that were ahead.
-/

import Mathlib.Algebra.Order.Floor.Div
import Summit.Proof.Exits
import Summit.Proof.QueueRuns

set_option linter.unusedSectionVars false

namespace Summit

open Bytes

/-! ### Queues that advance -/

namespace WithdrawalQueue

/-- Requests are pushed for one epoch. -/
abbrev Pushes (epoch : Nat) : WithdrawalQueue → WithdrawalQueue → Prop :=
  Relation.ReflTransGen fun queue queue' =>
    ∃ request kind, queue' = queue.pushRequestWithKind request epoch kind

/-- A first part of each list is consumed, and what is added behind has new indexes that increase. -/
structure Advances (queue queue' : WithdrawalQueue) : Prop where
  next : queue.nextIndex ≤ queue'.nextIndex
  lists : ∀ kind, ∃ consumed added, queue.deque kind ++ added = consumed ++ queue'.deque kind ∧
    added.Pairwise (fun a b => a.inner.index < b.inner.index) ∧
    ∀ entry ∈ added, queue.nextIndex ≤ entry.inner.index ∧ entry.inner.index < queue'.nextIndex

variable {queue queue' queue'' : WithdrawalQueue}

theorem Advances.refl (queue : WithdrawalQueue) : queue.Advances queue :=
  ⟨le_rfl, fun _ => ⟨[], [], List.append_nil _, .nil, nofun⟩⟩

theorem Advances.trans (one : queue.Advances queue') (two : queue'.Advances queue'') :
    queue.Advances queue'' := by
  refine ⟨one.next.trans two.next, fun kind => ?_⟩
  obtain ⟨consumed, added, split_, rising, new⟩ := one.lists kind
  obtain ⟨consumed', added', split_', rising', new'⟩ := two.lists kind
  refine ⟨consumed ++ consumed', added ++ added', ?_, ?_, fun entry member => ?_⟩
  · rw [← List.append_assoc, split_, List.append_assoc, split_', List.append_assoc]
  · rw [List.pairwise_append]
    exact ⟨rising, rising', fun a here b here' => (new a here).2.trans_le (new' b here').1⟩
  · rcases List.mem_append.mp member with here | here
    · exact ⟨(new entry here).1, (new entry here).2.trans_le two.next⟩
    · exact ⟨one.next.trans (new' entry here).1, (new' entry here).2⟩

theorem advances_pushRequest (queue : WithdrawalQueue) (request : WithdrawalRequest) (epoch : Nat)
    (kind : WithdrawalKind) : queue.Advances (queue.pushRequestWithKind request epoch kind) := by
  have next : (queue.pushRequestWithKind request epoch kind).nextIndex = queue.nextIndex + 1 :=
    nextIndex_pushRequest _ _ _ _
  refine ⟨next ▸ Nat.le_succ _, fun other => ?_⟩
  rw [deque_pushRequest]
  by_cases same : other = kind
  · subst same
    rw [if_pos rfl]
    refine ⟨[], [queue.pendingOf request epoch other], rfl, List.pairwise_singleton _ _, ?_⟩
    intro entry member
    rw [List.mem_singleton.mp member, next]
    exact ⟨le_rfl, Nat.lt_succ_self _⟩
  · rw [if_neg same]
    exact ⟨[], [], List.append_nil _, .nil, nofun⟩

variable {epoch place : Nat} {entry : PendingWithdrawal}

theorem Pushes.advances (pushes : Pushes epoch queue queue') : queue.Advances queue' := by
  induction pushes with
  | refl => exact .refl _
  | tail _ last ih =>
    obtain ⟨request, kind, rfl⟩ := last
    exact ih.trans (advances_pushRequest _ request epoch kind)

theorem Pushes.deque (pushes : Pushes epoch queue queue') (kind : WithdrawalKind) :
    queue.deque kind <+: queue'.deque kind := by
  induction pushes with
  | refl => exact List.prefix_rfl
  | tail _ last ih =>
    obtain ⟨request, pushed, rfl⟩ := last
    refine ih.trans ?_
    rw [deque_pushRequest]
    by_cases same : kind = pushed
    · subst same
      rw [if_pos rfl]
      exact List.prefix_append _ _
    · rw [if_neg same]

/-- An entry that has left the queue does not come back. -/
theorem Advances.gone (advances : queue.Advances queue') {kind : WithdrawalKind}
    (gone : entry ∉ queue.deque kind) (old : entry.inner.index < queue.nextIndex) :
    entry ∉ queue'.deque kind := by
  intro member
  obtain ⟨consumed, added, split_, -, new⟩ := advances.lists kind
  have listed : entry ∈ queue.deque kind ++ added := split_ ▸ List.mem_append_right _ member
  rcases List.mem_append.mp listed with here | here
  · exact gone here
  · have later := (new entry here).1
    omega

/-! ### What is due -/

/-- The due entries of a kind are the due ones of its list, under the cap that is left for them. -/
theorem filter_due_validator (queue : WithdrawalQueue) (epoch cap : Nat) :
    (queue.getForEpochWithTotalCap epoch cap).filter (fun w => w.kind = .validator) =
      (queue.withdrawals.takeWhile fun w => w.epoch ≤ epoch).take cap := by
  unfold getForEpochWithTotalCap
  rw [List.filter_append, List.filter_eq_self.mpr, List.filter_eq_nil_iff.mpr, List.append_nil]
  · intro entry member
    have refund := queue.refunds_kind entry
      ((List.takeWhile_subset _) (List.mem_of_mem_take member))
    rw [refund]
    decide
  · intro entry member
    have validator := queue.withdrawals_kind entry
      ((List.takeWhile_subset _) (List.mem_of_mem_take member))
    rw [validator]
    decide

/-- The entries of a kind among first parts of both lists. -/
theorem filter_kind_append {validators refunds laterValidators laterRefunds : List PendingWithdrawal}
    (front : queue.withdrawals = validators ++ laterValidators)
    (frontRefunds : queue.refunds = refunds ++ laterRefunds) :
    (validators ++ refunds).filter (fun w => w.kind = .validator) = validators ∧
      (validators ++ refunds).filter (fun w => w.kind = .depositRefund) = refunds := by
  have validator : ∀ entry ∈ validators, entry.kind = .validator := fun entry member =>
    queue.withdrawals_kind entry (front ▸ List.mem_append_left _ member)
  have refund : ∀ entry ∈ refunds, entry.kind = .depositRefund := fun entry member =>
    queue.refunds_kind entry (frontRefunds ▸ List.mem_append_left _ member)
  rw [List.filter_append, List.filter_append]
  constructor
  · rw [List.filter_eq_self.mpr fun entry member => by rw [validator entry member]; rfl,
      List.filter_eq_nil_iff.mpr fun entry member => by rw [refund entry member]; decide,
      List.append_nil]
  · rw [List.filter_eq_nil_iff.mpr fun entry member => by rw [validator entry member]; decide,
      List.filter_eq_self.mpr fun entry member => by rw [refund entry member]; rfl,
      List.nil_append]

/-- All entries ahead of a due one are due, so that the cap alone decides how many are selected. -/
theorem lt_length_takeWhile {entries : List PendingWithdrawal}
    (ordered : entries.Pairwise fun a b => a.epoch ≤ b.epoch)
    (listed : entries[place]? = some entry) (due : entry.epoch ≤ epoch) :
    place < (entries.takeWhile fun w => w.epoch ≤ epoch).length := by
  induction entries generalizing place with
  | nil => cases listed
  | cons first rest ih =>
    obtain ⟨rises, ordered'⟩ := List.pairwise_cons.mp ordered
    cases place with
    | zero =>
      obtain rfl := Option.some.inj listed
      rw [List.takeWhile_cons_of_pos (by rwa [decide_eq_true_iff])]
      exact Nat.succ_pos _
    | succ place =>
      have here : rest[place]? = some entry := listed
      have earlier : first.epoch ≤ epoch := (rises entry (List.mem_of_getElem? here)).trans due
      rw [List.takeWhile_cons_of_pos (by rwa [decide_eq_true_iff])]
      exact Nat.succ_lt_succ (ih ordered' here)

theorem min_le_length_due (ordered : queue.Ordered) {cap : Nat}
    (listed : queue.withdrawals[place]? = some entry) (due : entry.epoch ≤ epoch) :
    min cap (place + 1) ≤ ((queue.getForEpochWithTotalCap epoch cap).filter
      fun w => w.kind = .validator).length := by
  have ahead : place < (queue.withdrawals.takeWhile fun w => w.epoch ≤ epoch).length :=
    lt_length_takeWhile (ordered .validator) listed due
  rw [filter_due_validator, List.length_take]
  omega

end WithdrawalQueue

section PayoutWait

variable [Crypto]

/-! ### What a step does to the queue -/

/-- The due entries of a kind, in their order. -/
def StateData.dueOf (data : StateData) (kind : WithdrawalKind) : List PendingWithdrawal :=
  (data.dueEntries data.epoch).filter fun w => w.kind = kind

/-- What a step of an epoch does to the withdrawal queue. -/
inductive QueueStep (delay : Nat) (data : StateData) : Phase → Phase → StateData → Prop where
  | push {phase phase' : Phase} {data' : StateData} (open_ : phase = .paid ↔ phase' = .paid)
      (epoch : data'.epoch = data.epoch)
      (pushes : data.withdrawalQueue.Pushes (data.epoch + delay) data'.withdrawalQueue) :
    QueueStep delay data phase phase' data'
  | pay {data' : StateData} (epoch : data'.epoch = data.epoch)
      (next : data'.withdrawalQueue.nextIndex = data.withdrawalQueue.nextIndex)
      (lists : ∀ kind, data.withdrawalQueue.deque kind =
        data.dueOf kind ++ data'.withdrawalQueue.deque kind) :
    QueueStep delay data .staged .paid data'
  | cross {data' : StateData} (epoch : data'.epoch = data.epoch + 1)
      (queue : data'.withdrawalQueue = data.withdrawalQueue) :
    QueueStep delay data .paid .collecting data'

section Steps

variable {warmUp delay : Nat} {data data' : StateData} {phase phase' : Phase}

theorem Moves.pushes {n : Nat} (moves : Moves warmUp delay data n data') :
    data.withdrawalQueue.Pushes (data.epoch + delay) data'.withdrawalQueue := by
  induction moves with
  | refl => exact .refl
  | tail earlier last ih =>
    have epoch := (Moves.settings earlier).epoch
    cases last with
    | deposits queue => exact ih
    | change change =>
      rcases change.queue with same | ⟨request, kind, same, -⟩
      · rw [same]
        exact ih
      · rw [epoch] at same
        exact ih.tail ⟨request, kind, same⟩

theorem EpochStep.queueStep (step : EpochStep warmUp delay data phase phase' data') :
    QueueStep delay data phase phase' data' := by
  cases step with
  | touch _ same =>
    rw [same]
    exact .push Iff.rfl rfl .refl
  | process accepted moves =>
    have pushes := Moves.pushes moves
    exact .push (by decide) (Moves.settings moves).epoch pushes
  | keep | drop => exact .push (by decide) rfl .refl
  | remove enough removals settled =>
    obtain ⟨same, -, queue⟩ := Removals.settings removals
    refine .push (by decide) same.epoch ?_
    rw [queue]
  | @pay _ validators refunds _ _ due front frontRefunds paid =>
    have epoch : data'.epoch = data.epoch := by
      rw [paid.data]
    refine .pay epoch paid.nextIndex fun kind => ?_
    have kinds := WithdrawalQueue.filter_kind_append front frontRefunds
    rw [StateData.dueOf, due]
    cases kind with
    | validator =>
      rw [kinds.1]
      exact front.trans (congrArg (validators ++ ·) paid.validators.symm)
    | depositRefund =>
      rw [kinds.2]
      exact frontRefunds.trans (congrArg (refunds ++ ·) paid.refunds.symm)
  | cross crosses => exact .cross crosses.epoch crosses.withdrawals

theorem QueueStep.advances (step : QueueStep delay data phase phase' data') :
    data.withdrawalQueue.Advances data'.withdrawalQueue := by
  cases step with
  | push open_ epoch pushes => exact WithdrawalQueue.Pushes.advances pushes
  | pay epoch next lists =>
    refine ⟨next.ge, fun kind => ⟨data.dueOf kind, [], ?_, .nil, nofun⟩⟩
    rw [List.append_nil]
    exact lists kind
  | cross epoch queue =>
    rw [queue]
    exact .refl _

/-! ### The order of the entries -/

/-- The entries of each list come in the order of their indexes and of their epochs, and none is due
later than the delay from now. -/
structure Lined (delay : Nat) (data : StateData) : Prop where
  ordered : data.withdrawalQueue.Ordered
  rising : data.withdrawalQueue.Rising
  soon : ∀ entry ∈ data.withdrawalQueue.iterAll, entry.epoch ≤ data.epoch + delay

theorem WithdrawalQueue.Pushes.lined {queue queue' : WithdrawalQueue} {epoch : Nat}
    (pushes : queue.Pushes epoch queue') (indexed : queue.Indexed) (ordered : queue.Ordered)
    (rising : queue.Rising) (soon : ∀ entry ∈ queue.iterAll, entry.epoch ≤ epoch) :
    queue'.Indexed ∧ queue'.Ordered ∧ queue'.Rising ∧
      ∀ entry ∈ queue'.iterAll, entry.epoch ≤ epoch := by
  induction pushes with
  | refl => exact ⟨indexed, ordered, rising, soon⟩
  | @tail mid _ _ last ih =>
    obtain ⟨request, kind, rfl⟩ := last
    obtain ⟨indexed, ordered, rising, soon⟩ := ih
    refine ⟨indexed.pushRequest request epoch kind, pairwise_pushRequest ordered soon,
      pairwise_pushRequest rising indexed.below, fun entry member => ?_⟩
    rcases List.mem_cons.mp ((mid.perm_pushRequest request epoch kind).mem_iff.mp member)
      with rfl | old
    · exact le_rfl
    · exact soon entry old

theorem QueueStep.lined (step : QueueStep delay data phase phase' data')
    (indexed : data.withdrawalQueue.Indexed) (lined : Lined delay data) : Lined delay data' := by
  cases step with
  | push open_ epoch pushes =>
    obtain ⟨-, ordered, rising, soon⟩ :=
      pushes.lined indexed lined.ordered lined.rising lined.soon
    exact ⟨ordered, rising, epoch ▸ soon⟩
  | pay epoch next lists =>
    have sublist (kind : WithdrawalKind) :
        (data'.withdrawalQueue.deque kind).Sublist (data.withdrawalQueue.deque kind) := by
      rw [lists kind]
      exact List.sublist_append_right _ _
    refine ⟨fun kind => (lined.ordered kind).sublist (sublist kind),
      fun kind => (lined.rising kind).sublist (sublist kind), fun entry member => ?_⟩
    obtain ⟨kind, here⟩ := WithdrawalQueue.mem_iterAll.mp member
    rw [epoch]
    exact lined.soon entry (WithdrawalQueue.mem_iterAll.mpr ⟨kind, (sublist kind).subset here⟩)
  | cross epoch queue =>
    refine ⟨queue ▸ lined.ordered, queue ▸ lined.rising, fun entry member => ?_⟩
    rw [queue] at member
    have soon := lined.soon entry member
    omega

end Steps

/-! ### Runs -/

section Runs

variable {warmUp delay : Nat} {guard : EpochState → EpochEvent → Prop}

theorem StateData.AtGenesis.lined {data : StateData} (genesis : data.AtGenesis) :
    Lined delay data := by
  have empty := genesis.withdrawals
  refine ⟨fun kind => ?_, fun kind => ?_, fun entry member => ?_⟩
  · rw [empty]
    cases kind <;> exact .nil
  · rw [empty]
    cases kind <;> exact .nil
  · rw [empty] at member
    cases member

variable {start reached s s' t : EpochState} {first cap ahead last : Nat}
  {entry : PendingWithdrawal}

theorem lined_of_reaches (reaches : EpochState.Reaches warmUp delay guard start reached)
    (indexed : start.live.withdrawalQueue.Indexed) (lined : Lined delay start.live.toStateData) :
    Lined delay reached.live.toStateData := by
  induction reaches with
  | refl => exact lined
  | tail before last ih =>
    obtain ⟨event, -, result⟩ := last
    have indexed' := EpochState.Reaches.indexed before indexed
    exact (epochStep_of_step indexed' result).1.queueStep.lined indexed' ih

/-- **In a run the queue advances.** -/
theorem advances_of_reaches (reaches : EpochState.Reaches warmUp delay guard start reached)
    (indexed : start.live.withdrawalQueue.Indexed) :
    start.live.withdrawalQueue.Advances reached.live.withdrawalQueue :=
  reaches.invariant (P := fun _ data => start.live.withdrawalQueue.Advances data.withdrawalQueue)
    (fun _ _ step held => held.trans step.queueStep.advances) indexed (.refl _)

/-! ### Waiting for a payout -/

/-- The first epoch whose payouts are still to come. -/
def EpochState.nextPayout (s : EpochState) : Nat :=
  if s.phase = .paid then s.live.epoch + 1 else s.live.epoch

/-- The entry has its place in the queue, and each payout from the epoch `first` on has moved it
forward by `cap` at least. -/
def EpochState.Waiting (first cap ahead : Nat) (entry : PendingWithdrawal) (s : EpochState) : Prop :=
  ∃ place, s.live.withdrawalQueue.withdrawals[place]? = some entry ∧
    place + cap * (s.nextPayout - first) ≤ ahead

/-- **One step** moves the entry forward by the cap if it pays, or consumes it. -/
theorem waiting_of_step {event : EpochEvent} (indexed : s.live.withdrawalQueue.Indexed)
    (lined : Lined delay s.live.toStateData) (result : s.step warmUp delay event = some s')
    (enough : cap ≤ s.live.maxWithdrawalsPerEpoch) (due : entry.epoch ≤ first)
    (waiting : s.Waiting first cap ahead entry) :
    s'.Waiting first cap ahead entry ∨
      event = .payouts ∧ entry ∈ s.live.dueOf .validator ∧
        cap * (s.live.epoch - first) ≤ ahead := by
  have passes := EpochState.passes_of_step result
  have step := (epochStep_of_step indexed result).1.queueStep
  obtain ⟨place, listed, bound⟩ := waiting
  obtain ⟨phase, live⟩ := s
  obtain ⟨phase', live'⟩ := s'
  dsimp only at step passes listed indexed lined enough
  unfold EpochState.nextPayout at bound
  dsimp only at bound
  cases step with
  | push open_ epoch pushes =>
    have behind : live.withdrawalQueue.withdrawals <+: live'.withdrawalQueue.withdrawals :=
      WithdrawalQueue.Pushes.deque pushes .validator
    obtain ⟨added, same⟩ := behind
    refine Or.inl ⟨place, ?_, ?_⟩
    · have within := (List.getElem?_eq_some_iff.mp listed).1
      show live'.withdrawalQueue.withdrawals[place]? = some entry
      rw [← same]
      exact (List.getElem?_append_left within).trans listed
    · show place + cap * ((if phase' = .paid then live'.epoch + 1 else live'.epoch) - first) ≤ ahead
      simp only [← open_, epoch]
      exact bound
  | pay epoch next lists =>
    rw [if_neg (by decide)] at bound
    have split_ : live.withdrawalQueue.withdrawals =
        live.dueOf .validator ++ live'.withdrawalQueue.withdrawals := lists .validator
    by_cases selected : place < (live.dueOf .validator).length
    · refine Or.inr ⟨passes.payouts, ?_, (Nat.le_add_left _ _).trans bound⟩
      rw [split_, List.getElem?_append_left selected] at listed
      exact List.mem_of_getElem? listed
    · refine Or.inl ⟨place - (live.dueOf .validator).length, ?_, ?_⟩
      · rw [split_, List.getElem?_append_right (by omega)] at listed
        exact listed
      · show place - (live.dueOf .validator).length + cap * (live'.epoch + 1 - first) ≤ ahead
        rw [epoch]
        by_cases reached : first ≤ live.epoch
        · -- the entry is due, so the cap is what kept it from being selected
          have taken : min live.maxWithdrawalsPerEpoch (place + 1) ≤
              (live.dueOf .validator).length :=
            WithdrawalQueue.min_le_length_due lined.ordered listed (due.trans reached)
          have once : cap * (live.epoch + 1 - first) = cap * (live.epoch - first) + cap := by
            rw [Nat.succ_sub reached, Nat.mul_succ]
          omega
        · have early : live.epoch + 1 - first = 0 := by omega
          have early' : live.epoch - first = 0 := by omega
          rw [early'] at bound
          rw [early]
          omega
  | cross epoch queue =>
    refine Or.inl ⟨place, queue ▸ listed, ?_⟩
    rw [if_pos rfl, ← epoch] at bound
    exact bound

/-- **A payout** takes the due entries off the front of each list. -/
theorem lists_of_payouts (indexed : s.live.withdrawalQueue.Indexed)
    (result : s.step warmUp delay .payouts = some s') :
    s'.live.withdrawalQueue.nextIndex = s.live.withdrawalQueue.nextIndex ∧
      ∀ kind, s.live.withdrawalQueue.deque kind =
        s.live.dueOf kind ++ s'.live.withdrawalQueue.deque kind := by
  have passes := EpochState.passes_of_step result
  have step := (epochStep_of_step indexed result).1.queueStep
  rw [passes.1, passes.2] at step
  cases step with
  | push open_ epoch pushes => exact nomatch open_.mpr rfl
  | pay epoch next lists => exact ⟨next, lists⟩

/-- The entry is among the due ones that some payout of the run takes, in an epoch up to `last`. -/
def ConsumedBy (warmUp delay : Nat) (guard : EpochState → EpochEvent → Prop) (last : Nat)
    (entry : PendingWithdrawal) (s t : EpochState) : Prop :=
  ∃ before after, EpochState.Reaches warmUp delay guard s before ∧
    before.step warmUp delay .payouts = some after ∧
    EpochState.Reaches warmUp delay guard after t ∧
    before.live.epoch ≤ last ∧ entry ∈ before.live.dueOf .validator

/-- **The whole run**: the entry waits, or was consumed while it was still within the bound. -/
theorem waiting_of_reaches (indexed : s.live.withdrawalQueue.Indexed)
    (lined : Lined delay s.live.toStateData) (reaches : EpochState.Reaches warmUp delay guard s t)
    (enough : ∀ u event, guard u event → cap ≤ u.live.maxWithdrawalsPerEpoch)
    (due : entry.epoch ≤ first) (bounded : ∀ epoch, cap * (epoch - first) ≤ ahead → epoch ≤ last)
    (waiting : s.Waiting first cap ahead entry) :
    t.Waiting first cap ahead entry ∨ ConsumedBy warmUp delay guard last entry s t := by
  induction reaches with
  | refl => exact Or.inl waiting
  | tail before step ih =>
    rcases ih with held | ⟨one, two, reaches, pays, later, epoch, selected⟩
    · obtain ⟨event, allowed, result⟩ := step
      have indexed' := EpochState.Reaches.indexed before indexed
      have lined' := lined_of_reaches before indexed lined
      rcases waiting_of_step indexed' lined' result (enough _ _ allowed) due held with
        waits | ⟨rfl, selected, within⟩
      · exact Or.inl waits
      · exact Or.inr ⟨_, _, before, result, .refl, bounded _ within, selected⟩
    · exact Or.inr ⟨one, two, reaches, pays, later.tail step, epoch, selected⟩

/-- What is consumed is gone for good. -/
theorem ConsumedBy.gone (indexed : s.live.withdrawalQueue.Indexed)
    (consumed : ConsumedBy warmUp delay guard last entry s t) :
    entry ∉ t.live.withdrawalQueue.iterAll := by
  obtain ⟨before, after, reaches, pays, later, -, selected⟩ := consumed
  have indexed' := EpochState.Reaches.indexed reaches indexed
  obtain ⟨next, lists⟩ := lists_of_payouts indexed' pays
  have split_ : before.live.withdrawalQueue.withdrawals =
      before.live.dueOf .validator ++ after.live.withdrawalQueue.withdrawals := lists .validator
  have listed : entry ∈ before.live.withdrawalQueue.withdrawals :=
    split_ ▸ List.mem_append_left _ selected
  have advances := advances_of_reaches later (epochStep_of_step indexed' pays).2
  have old : entry.inner.index < after.live.withdrawalQueue.nextIndex :=
    next ▸ indexed'.below entry (List.mem_append_left _ listed)
  have left : entry ∉ after.live.withdrawalQueue.deque .validator := by
    intro member
    have unique := indexed'.unique
    rw [WithdrawalQueue.UniqueIndexes, WithdrawalQueue.iterAll, split_, List.append_assoc,
      List.map_append, List.nodup_append] at unique
    exact unique.2.2 _ (List.mem_map_of_mem selected) _
      (List.mem_map_of_mem (List.mem_append_left _ member)) rfl
  have kind : entry.kind = .validator := before.live.withdrawalQueue.withdrawals_kind entry listed
  intro member
  rcases List.mem_append.mp member with here | here
  · exact advances.gone left old here
  · have refund := t.live.withdrawalQueue.refunds_kind entry here
    rw [kind] at refund
    cases refund

end Runs

end PayoutWait

/-- The last epoch in which an entry is consumed that is due in `due`, with `ahead` entries ahead of
it at the end of `enqueued`. -/
def payoutDeadline (due enqueued ahead cap : Nat) : Nat :=
  max due (enqueued + 1) + (ahead + 1) ⌈/⌉ cap - 1

theorem le_payoutDeadline {due enqueued ahead cap epoch : Nat} (positive : 1 ≤ cap)
    (bound : cap * (epoch - max due (enqueued + 1)) ≤ ahead) :
    epoch ≤ payoutDeadline due enqueued ahead cap := by
  have enough : ahead + 1 ≤ cap * ((ahead + 1) ⌈/⌉ cap) :=
    le_smul_ceilDiv (by omega : 0 < cap)
  have less : epoch - max due (enqueued + 1) < (ahead + 1) ⌈/⌉ cap :=
    Nat.lt_of_mul_lt_mul_left (bound.trans_lt enough)
  unfold payoutDeadline
  omega

/-- **Validator payouts wait a bounded time, and entries are consumed in order.** In every run from
genesis: a validator entry that has `place` others ahead of it at the end of an epoch is consumed by
the deadline, as long as the cap per epoch does not go below `cap`; between two states of the run a
first part of each list is consumed, in the order of the indexes; and a payout takes the due entries
of a list off its front. -/
theorem payouts_in_time_and_order [Crypto] {warmUp delay : Nat} {start : LiveState}
    (genesis : start.AtGenesis) {s : EpochState} (run : EpochState.Run warmUp delay start s) :
    (∀ cap place entry t, 1 ≤ cap → s.phase = .paid →
      s.live.withdrawalQueue.withdrawals[place]? = some entry →
      EpochState.Reaches warmUp delay (fun u _ => cap ≤ u.live.maxWithdrawalsPerEpoch) s t →
      payoutDeadline entry.epoch s.live.epoch place cap < t.nextPayout →
      ConsumedBy warmUp delay (fun u _ => cap ≤ u.live.maxWithdrawalsPerEpoch)
        (payoutDeadline entry.epoch s.live.epoch place cap) entry s t ∧
      entry ∉ t.live.withdrawalQueue.iterAll) ∧
    (∀ kind t, EpochState.Reaches warmUp delay (fun _ _ => True) s t → ∃ consumed added,
      s.live.withdrawalQueue.deque kind ++ added = consumed ++ t.live.withdrawalQueue.deque kind ∧
      (s.live.withdrawalQueue.deque kind ++ added).Pairwise
        fun a b => a.inner.index < b.inner.index) ∧
    ∀ t, s.step warmUp delay .payouts = some t → ∀ kind,
      s.live.withdrawalQueue.deque kind =
        s.live.dueOf kind ++ t.live.withdrawalQueue.deque kind := by
  have indexed := EpochState.Reaches.indexed run genesis.indexed
  have lined : Lined delay s.live.toStateData := lined_of_reaches run genesis.indexed genesis.lined
  refine ⟨fun cap place entry t positive paid listed reaches past => ?_,
    fun kind t reaches => ?_, fun t result => (lists_of_payouts indexed result).2⟩
  · have starts : s.Waiting (max entry.epoch (s.live.epoch + 1)) cap place entry := by
      refine ⟨place, listed, ?_⟩
      have none_ : s.nextPayout - max entry.epoch (s.live.epoch + 1) = 0 := by
        rw [EpochState.nextPayout, if_pos paid]
        omega
      rw [none_]
      exact le_rfl
    rcases waiting_of_reaches indexed lined reaches (fun _ _ enough => enough) (le_max_left _ _)
      (fun epoch => le_payoutDeadline positive) starts with ⟨left, -, bound⟩ | consumed
    · have before := le_payoutDeadline positive ((Nat.le_add_left _ _).trans bound)
      omega
    · exact ⟨consumed, consumed.gone indexed⟩
  · obtain ⟨consumed, added, split_, rising, new⟩ := (advances_of_reaches reaches indexed).lists kind
    refine ⟨consumed, added, split_, List.pairwise_append.mpr ⟨lined.rising kind, rising, ?_⟩⟩
    intro old here entry member
    have below := indexed.below old (WithdrawalQueue.mem_iterAll.mpr ⟨kind, here⟩)
    exact below.trans_le (new entry member).1

attribute [local instance] Crypto.accepting

/-- A step of a run whose cap per epoch is at least `cap`. -/
def cappedStep (cap : Nat) (s : EpochState) (event : EpochEvent) : Option EpochState :=
  if cap ≤ s.live.maxWithdrawalsPerEpoch then s.step 2 2 event else none

/-- From the boundary of one epoch to the payouts of the next but one. -/
def twoEpochs : List EpochEvent :=
  .boundary zeroKey zeroChunk :: wholeEpoch [] ++ epochUntilBoundary []

/-- What a state shows of a withdrawal that is requested in the epoch that ends with it. -/
def EpochState.waits (s : EpochState) : Phase × Nat × Option Nat × Option Nat :=
  (s.phase, s.live.epoch, s.live.withdrawalQueue.withdrawals[0]?.map PendingWithdrawal.epoch,
    (twoEpochs.foldlM (cappedStep 1) s).map EpochState.nextPayout)

theorem payouts_in_time_and_order_partial :
    (pairGenesis 32 40 40).AtGenesis ∧
    ∃ s t entry,
      (epochUntilBoundary [withdrawFortyRequest]).foldlM (EpochState.step 2 2)
        ⟨.collecting, pairGenesis 32 40 40⟩ = some s ∧
      s.live.withdrawalQueue.withdrawals[0]? = some entry ∧
      twoEpochs.foldlM (cappedStep 1) s = some t ∧
      payoutDeadline entry.epoch s.live.epoch 0 1 < t.nextPayout ∧
      entry ∉ t.live.withdrawalQueue.iterAll := by
  have genesis := atGenesis_pairGenesis 32 40 40
  have computed : ((epochUntilBoundary [withdrawFortyRequest]).foldlM (EpochState.step 2 2)
      ⟨.collecting, pairGenesis 32 40 40⟩).map EpochState.waits =
        some (.paid, 0, some 2, some 3) := by decide +kernel
  obtain ⟨s, run, shown⟩ := Option.map_eq_some_iff.mp computed
  obtain ⟨paid, rest⟩ := Prod.mk.inj shown
  obtain ⟨epoch, rest⟩ := Prod.mk.inj rest
  obtain ⟨due, later⟩ := Prod.mk.inj rest
  obtain ⟨entry, listed, two⟩ := Option.map_eq_some_iff.mp due
  obtain ⟨t, run', next⟩ := Option.map_eq_some_iff.mp later
  have reaches : EpochState.Run 2 2 (pairGenesis 32 40 40) s :=
    EpochState.reaches_of_foldlM run fun _ _ _ => trivial
  have reaches' : EpochState.Reaches 2 2 (fun u _ => 1 ≤ u.live.maxWithdrawalsPerEpoch) s t :=
    Run.reflTransGen_of_foldlM run' fun _ _ event _ result =>
      ⟨event, Option.ite_none_right_eq_some.mp result⟩
  have past : payoutDeadline entry.epoch s.live.epoch 0 1 < t.nextPayout := by
    rw [two, epoch, next]
    decide
  have gone := ((payouts_in_time_and_order genesis reaches).1 1 0 entry t le_rfl paid listed reaches'
    past).2
  exact ⟨genesis, s, t, entry, run, listed, run', past, gone⟩

end Summit
