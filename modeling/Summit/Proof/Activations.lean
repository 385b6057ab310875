/-
**Scheduled activations.**

A deposit that brings an inactive account to the minimum stake makes it joining and schedules its key
in the same step; a cancelled activation takes both back, and the boundary takes the bucket of the
epoch it enters. So the schedule is the list of the joining accounts:

* `Upcoming`: every bucket lies ahead and holds somebody, after every step
  (`upcoming_of_reaches`);
* `nodup_scheduledKeys`: no key is in the schedule twice;
* `mem_scheduled_iff`: a key is scheduled for an epoch ahead exactly if its account joins then.

The transition at the boundary therefore finds the account of everybody that it activates.
-/

import Summit.Proof.Committee

set_option linter.unusedSectionVars false

namespace Summit

section Activations

variable [Crypto]

/-! ### Buckets -/

/-- Every bucket of the schedule lies ahead and holds somebody. -/
def StateData.Upcoming (data : StateData) : Prop :=
  ∀ epoch list, data.addedValidators.find? epoch = some list → data.epoch < epoch ∧ list ≠ []

/-- Taking a validator off the schedule leaves a bucket as it was, or leaves others in it. -/
theorem bucket_withoutAddedValidator {added : SortedMap Nat (List AddedValidator)} {epoch : Nat}
    {key : PublicKey} {other : Nat} {list : List AddedValidator}
    (found : ((LiveState.withoutAddedValidator added epoch key).getD added).find? other =
      some list) :
    added.find? other = some list ∨ (added.find? other).isSome = true ∧ list ≠ [] := by
  unfold LiveState.withoutAddedValidator at found
  split at found
  · exact Or.inl found
  next scheduled here =>
  dsimp only at found
  split at found
  · split at found
    · rw [Option.getD_some, SortedMap.find?_erase] at found
      split at found
      · cases found
      · exact Or.inl found
    · next left_ =>
      rw [Option.getD_some, SortedMap.find?_insert] at found
      split at found
      · next same =>
        subst same
        obtain rfl := Option.some.inj found
        exact Or.inr ⟨by rw [here]; rfl, left_⟩
      · exact Or.inl found
  · exact Or.inl found

variable {data data' : StateData} {warmUp delay n : Nat} {phase : Phase}

theorem StateData.Upcoming.unscheduled (upcoming : data.Upcoming) (pubkey : Bytes32)
    (account : ValidatorAccount) :
    { data with addedValidators := data.unscheduled pubkey account }.Upcoming := by
  intro epoch list found
  have bucket : data.addedValidators.find? epoch = some list ∨
      (data.addedValidators.find? epoch).isSome = true ∧ list ≠ [] := by
    unfold StateData.unscheduled at found
    split at found
    · split at found
      · exact bucket_withoutAddedValidator found
      · exact Or.inl found
    · exact Or.inl found
  rcases bucket with same | ⟨there, filled⟩
  · exact upcoming epoch list same
  · obtain ⟨before, here⟩ := Option.isSome_iff_exists.mp there
    exact ⟨(upcoming epoch before here).1, filled⟩

theorem Change.upcoming (warm : 1 ≤ warmUp) (change : Change warmUp delay data n data')
    (upcoming : data.Upcoming) : data'.Upcoming := by
  cases change with
  | refund | credit | exit | retire | withdraw => exact upcoming
  | join request account =>
    intro epoch list found
    dsimp only [StateData.putAccount] at found ⊢
    rw [SortedMap.find?_insert] at found
    split at found
    · next same =>
      subst same
      obtain rfl := Option.some.inj found
      exact ⟨Nat.lt_add_of_pos_right warm, by simp⟩
    · exact upcoming epoch list found
  | cancel pubkey account => exact upcoming.unscheduled pubkey account

theorem Removal.upcoming {minStake : Nat} (removal : Removal minStake data n data')
    (upcoming : data.Upcoming) : data'.Upcoming := by
  cases removal with
  | cancel pubkey account => exact upcoming.unscheduled pubkey account
  | stage => exact upcoming

/-- **A step keeps the buckets ahead and filled.** -/
theorem EpochStep.upcoming (warm : 1 ≤ warmUp) {phase' : Phase}
    (step : EpochStep warmUp delay data phase phase' data') (upcoming : data.Upcoming) :
    data'.Upcoming := by
  cases step with
  | touch phase same =>
    rw [same]
    exact upcoming
  | process accepted moves =>
    refine moves.invariant (P := StateData.Upcoming) (fun before m after move held => ?_) upcoming
    cases move with
    | change change => exact change.upcoming warm held
    | deposits queue => exact held
  | keep | drop => exact upcoming
  | remove _ removals =>
    exact removals.invariant (fun before m after removal held => removal.upcoming held) upcoming
  | pay due front frontRefunds paid =>
    rw [paid.data]
    exact upcoming
  | cross crosses =>
    intro epoch list found
    rw [crosses.added, SortedMap.find?_erase] at found
    split at found
    · cases found
    · next apart =>
      have before := upcoming epoch list found
      rw [crosses.epoch]
      exact ⟨by omega, before.2⟩

theorem upcoming_of_reaches (warm : 1 ≤ warmUp) {guard : EpochState → EpochEvent → Prop}
    {start : LiveState} {reached : EpochState} (genesis : start.AtGenesis)
    (reaches : EpochState.Reaches warmUp delay guard ⟨.collecting, start⟩ reached) :
    reached.live.Upcoming := by
  have none_ : start.Upcoming := by
    intro epoch list found
    rw [genesis.added] at found
    cases found
  exact reaches.invariant (P := fun _ data => data.Upcoming)
    (fun _ _ step held => step.upcoming warm held) genesis.indexed none_

/-! ### The schedule as a whole -/

/-- The keys of the whole schedule, in order. -/
def StateData.scheduledKeys (data : StateData) : List PublicKey :=
  data.addedValidators.entries.flatMap fun bucket =>
    bucket.2.map fun validator => validator.nodeKey

section Schedule

variable {data : StateData} {phase : Phase}
  (life : ∀ pubkey, Lifecycle phase (data.keyView pubkey))

include life

/-- A key is scheduled for an epoch ahead exactly if its account joins then. -/
theorem mem_scheduled_iff {epoch : Nat} (ahead : data.epoch < epoch) (key : PublicKey) :
    (∃ validator ∈ data.scheduled epoch, validator.nodeKey = key) ↔
      ∃ account, data.getAccount key.val = some account ∧
        account.status = .joining ∧ account.joiningEpoch = epoch := by
  constructor
  · rintro ⟨validator, member, rfl⟩
    exact joining_of_scheduled (life validator.nodeKey.val).orderly ahead member
  · rintro ⟨account, found, joins⟩
    have slots := (life key.val).orderly.scheduled epoch ahead
    rw [KeyView.joins_of_some found, if_pos joins] at slots
    obtain ⟨validator, member, same⟩ :=
      (slots_pos_iff key.val epoch).mp (slots ▸ Nat.zero_lt_one)
    exact ⟨validator, member, Subtype.ext same⟩

theorem joining_of_bucket (upcoming : data.Upcoming) {bucket : Nat × List AddedValidator}
    (member : bucket ∈ data.addedValidators.entries) {validator : AddedValidator}
    (listed : validator ∈ bucket.2) :
    ∃ account, data.getAccount validator.nodeKey.val = some account ∧
      account.status = .joining ∧ account.joiningEpoch = bucket.1 := by
  have found : data.addedValidators.find? bucket.1 = some bucket.2 :=
    SortedMap.find?_eq_some_iff.mpr member
  refine joining_of_scheduled (life validator.nodeKey.val).orderly (upcoming _ _ found).1 ?_
  rw [StateData.scheduled, found]
  exact listed

/-- **No key is in the schedule twice**: within a bucket it has one slot, and two buckets cannot
both be the epoch in which its account joins. -/
theorem nodup_scheduledKeys (upcoming : data.Upcoming) : data.scheduledKeys.Nodup := by
  refine List.nodup_flatMap.mpr ⟨fun bucket member => ?_, ?_⟩
  · have found : data.addedValidators.find? bucket.1 = some bucket.2 :=
      SortedMap.find?_eq_some_iff.mpr member
    have once := nodup_scheduled life (upcoming _ _ found).1
    rw [StateData.scheduled, found] at once
    exact once
  · refine data.addedValidators.sorted.imp_of_mem fun {first second} here there below => ?_
    intro key member member'
    obtain ⟨one, listed, rfl⟩ := List.mem_map.mp member
    obtain ⟨two, listed', same⟩ := List.mem_map.mp member'
    obtain ⟨account, found, -, epoch⟩ := joining_of_bucket life upcoming here listed
    obtain ⟨account', found', -, epoch'⟩ := joining_of_bucket life upcoming there listed'
    rw [same, found] at found'
    obtain rfl := Option.some.inj found'
    omega

end Schedule

/-- **The schedule is the list of the joining accounts.** -/
structure StateData.Matched (data : StateData) : Prop where
  exactly : ∀ epoch, data.epoch < epoch → ∀ key : PublicKey,
    (∃ validator ∈ data.scheduled epoch, validator.nodeKey = key) ↔
      ∃ account, data.getAccount key.val = some account ∧
        account.status = .joining ∧ account.joiningEpoch = epoch
  once : data.scheduledKeys.Nodup
  /-- Whoever is scheduled has the consensus key of its account. -/
  keyed : ∀ bucket ∈ data.addedValidators.entries, ∀ validator ∈ bucket.2,
    ∃ account, data.getAccount validator.nodeKey.val = some account ∧
      account.status = .joining ∧ account.joiningEpoch = bucket.1 ∧
      account.consensusPublicKey = validator.consensusKey
  upcoming : ∀ bucket ∈ data.addedValidators.entries, data.epoch < bucket.1 ∧ bucket.2 ≠ []
  /-- Whoever is joining is scheduled, and has nothing in the withdrawal queue. -/
  waiting : ∀ pubkey account, data.getAccount pubkey = some account → account.status = .joining →
    (∃ validator ∈ data.scheduled account.joiningEpoch, validator.nodeKey.val = pubkey) ∧
      data.epoch < account.joiningEpoch ∧ data.withdrawalQueue.pendingCount pubkey = 0

theorem matched_of_lifecycle (life : ∀ pubkey, Lifecycle phase (data.keyView pubkey))
    (upcoming : data.Upcoming) (scheduled : data.Scheduled)
    (ahead : ∀ pubkey, (data.keyView pubkey).Ahead) : data.Matched := by
  have find_ {bucket : Nat × List AddedValidator} (member : bucket ∈ data.addedValidators.entries) :
      data.addedValidators.find? bucket.1 = some bucket.2 := SortedMap.find?_eq_some_iff.mpr member
  refine ⟨fun epoch later key => mem_scheduled_iff life later key,
    nodup_scheduledKeys life upcoming, fun bucket member validator listed => ?_,
    fun bucket member => upcoming _ _ (find_ member), fun pubkey account found joining => ?_⟩
  · obtain ⟨account, found, joining, epoch⟩ := joining_of_bucket life upcoming member listed
    have listed : validator ∈ data.scheduled bucket.1 := by
      rw [StateData.scheduled, find_ member]
      exact listed
    obtain ⟨account', found', key⟩ :=
      scheduled bucket.1 (upcoming _ _ (find_ member)).1 validator listed
    obtain rfl := Option.some.inj (found.symm.trans found')
    exact ⟨account, found, joining, epoch, key⟩
  · have later : data.epoch < account.joiningEpoch := ahead pubkey account found joining
    have slots := (life pubkey).orderly.scheduled account.joiningEpoch later
    rw [KeyView.joins_of_some found, if_pos ⟨joining, rfl⟩] at slots
    refine ⟨(slots_pos_iff pubkey _).mp (slots ▸ Nat.zero_lt_one), later, ?_⟩
    have quiet := (life pubkey).orderly.quiet (by rw [KeyView.status_of_some found, joining])
    rw [← length_entries, quiet]
    rfl

end Activations

/-- **Scheduled activations match the joining accounts.** In every state of a run from genesis, and
the transition at the boundary never misses an account. -/
theorem matched_of_run [Crypto] {warmUp delay : Nat} (warm : 1 ≤ warmUp) {start : LiveState}
    (genesis : start.AtGenesis) {reached : EpochState}
    (run : EpochState.Run warmUp delay start reached) :
    reached.live.Matched ∧
      ∀ changed, reached.live.applyProtocolParameterChanges = some changed →
        ∀ nodePublicKey, ∃ result, changed.1.applyCommitteeTransition nodePublicKey = some result := by
  have upcoming := upcoming_of_reaches warm genesis run
  have scheduled := scheduled_of_reaches genesis run
  have matched : reached.live.Matched :=
    matched_of_lifecycle (lifecycle_of_reaches genesis run) upcoming scheduled
      (ahead_of_reaches warm genesis run)
  refine ⟨matched, fun changed applied key => exists_applyCommitteeTransition key ?_⟩
  have same := (applyProtocolParameterChanges_stores applied).1
  rw [same]
  intro validator member
  obtain ⟨account, found, -⟩ := scheduled _ (Nat.lt_succ_self _) validator member
  exact Option.isSome_of_eq_some found

attribute [local instance] Crypto.accepting

/-- An entry with one deposit of forty gwei under a new key. -/
def fortyGweiDeposit : List UInt8 := 0 :: depositChunk 2 40

/-- The deposit schedules its validator for the epoch after the next. -/
theorem matched_of_run_deposit :
    (pairGenesis 32 40 40).AtGenesis ∧
    ∃ reached, (epochUntilBoundary [fortyGweiDeposit]).foldlM (EpochState.step 2 2)
        ⟨.collecting, pairGenesis 32 40 40⟩ = some reached ∧
      reached.live.addedValidators.entries.map Prod.fst = [2] ∧ reached.live.Matched := by
  have genesis := atGenesis_pairGenesis 32 40 40
  have computed : ((epochUntilBoundary [fortyGweiDeposit]).foldlM (EpochState.step 2 2)
        ⟨.collecting, pairGenesis 32 40 40⟩).map
        (fun s => s.live.addedValidators.entries.map Prod.fst) = some [2] := by
    decide +kernel
  obtain ⟨reached, run, buckets⟩ := Option.map_eq_some_iff.mp computed
  exact ⟨genesis, reached, run, buckets,
    (matched_of_run (by decide : 1 ≤ 2) genesis
      (EpochState.reaches_of_foldlM run fun _ _ _ => trivial)).1⟩

end Summit
