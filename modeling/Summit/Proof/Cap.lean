/-
**The validator cap and the two counts.**

The stored minimum never exceeds the stored cap, and the seats taken never exceed the prospective
cap, which is the stored one at the start of an epoch (`Capped`). The check of the queued counts is
made twice: when the batch is processed and again at the boundary. In between seats are only given
up or admitted under the prospective cap, so the second check drops nothing and the boundary stores
the pair that the batch was processed with.
-/

import Summit.Proof.Lifecycle

set_option linter.unusedSectionVars false

namespace Summit

section Cap

variable [Crypto]

/-! ### Seats -/

/-- The key has a seat under the cap. -/
def KeyView.Seated (view : KeyView) : Prop :=
  ∃ account, view.account = some account ∧ account.status.isActiveOrJoining = true

variable {data data' : StateData} {warmUp delay n : Nat} {phase phase' : Phase}

/-- If everyone seated after was seated before, there are no more seats taken. -/
theorem seats_le_of_seated
    (kept : ∀ pubkey, (data'.keyView pubkey).Seated → (data.keyView pubkey).Seated) :
    data'.activeOrJoiningValidatorCount ≤ data.activeOrJoiningValidatorCount :=
  SortedMap.count_le_count fun pubkey account found seated => kept pubkey ⟨account, found, seated⟩

/-- A change gives up seats or admits one validator under the prospective cap. -/
theorem Change.seats (change : Change warmUp delay data n data') :
    data'.activeOrJoiningValidatorCount ≤ data.activeOrJoiningValidatorCount ∨
      data.activeOrJoiningValidatorCount < data.prospectiveMaxValidatorCount ∧
        data'.activeOrJoiningValidatorCount ≤ data.activeOrJoiningValidatorCount + 1 := by
  cases change with
  | refund => exact Or.inl le_rfl
  | credit request account credits =>
    refine Or.inl (SortedMap.count_insert_le_of_imp fun seated => ?_)
    rcases credits with here | ⟨-, inactive, -⟩
    · exact ⟨account, here, seated⟩
    · rw [ValidatorAccount.credit, inactive] at seated
      cases seated
  | join request account credits inactive staked quiet seat =>
    exact Or.inr ⟨seat, SortedMap.count_insert_le _ _ _⟩
  | exit | cancel | retire => exact Or.inl (SortedMap.count_insert_le_of_imp nofun)
  | withdraw => exact Or.inl le_rfl

theorem Moves.seats (moves : Moves warmUp delay data n data')
    (seated : data.activeOrJoiningValidatorCount ≤ data.prospectiveMaxValidatorCount) :
    data'.activeOrJoiningValidatorCount ≤ data'.prospectiveMaxValidatorCount := by
  induction moves with
  | refl => exact seated
  | @tail mid last _ _ _ step ih =>
    cases step with
    | deposits queue => exact ih
    | change change =>
      have cap : last.prospectiveMaxValidatorCount = mid.prospectiveMaxValidatorCount := by
        have same := change.settings.1
        rw [same]
        rfl
      rcases change.seats with fewer | ⟨free, one⟩
      · omega
      · omega

/-- After the batch a step of an epoch gives nobody a seat. -/
theorem KeyStep.seated {pubkey : Bytes32} {view view' : KeyView}
    (step : KeyStep warmUp delay pubkey view phase phase' view') (life : Lifecycle phase view)
    (later : phase ≠ .collecting) (seated : view'.Seated) : view.Seated := by
  cases step with
  | touch => exact seated
  | process => exact absurd rfl later
  | retain => exact seated
  | remove removals settled =>
    clear settled life later
    induction removals with
    | refl => exact seated
    | tail _ last ih =>
      cases last with
      | cancel account found =>
        obtain ⟨after, here, seat⟩ := seated
        obtain rfl := Option.some.inj here
        cases seat
      | stage => exact ih seated
  | pay due entries member rest =>
    obtain ⟨after, here, seat⟩ := seated
    have before := status_of_paid (KeyView.status_of_some here)
    obtain ⟨account, found, same⟩ := Option.map_eq_some_iff.mp before
    exact ⟨account, found, same ▸ seat⟩
  | cross after passes =>
    obtain ⟨crossed, here, seat⟩ := seated
    obtain ⟨account, found, rfl⟩ := Option.map_eq_some_iff.mp here
    refine ⟨account, found, ?_⟩
    rcases cross_cases life.orderly life.leaving found (passes account found) with
      ⟨-, out⟩ | ⟨joining, -⟩ | ⟨same, -⟩
    · rw [ValidatorAccount.withStatus, ValidatorStatus.isActiveOrJoining_of_isOutOfCommittee out]
        at seat
      cases seat
    · rw [joining]
      rfl
    · exact same ▸ seat

/-! ### The prospective pair -/

/-- The two counts that the queued changes lead to. -/
def StateData.prospectivePair (data : StateData) : Nat × Nat :=
  (data.prospectiveMinimumValidatorCount, data.prospectiveMaxValidatorCount)

theorem SameSettings.prospectivePair (same : SameSettings data data') :
    data'.prospectivePair = data.prospectivePair := by
  rw [same]
  rfl

theorem prospectivePair_dropStake (data : StateData) :
    { data with
      protocolParamChanges :=
        data.protocolParamChanges.filter fun param => !StateData.isMinimumStake param
      }.prospectivePair = data.prospectivePair := by
  have keeps : ∀ pick : ProtocolParam → Option Nat,
      (∀ param, (pick param).isSome = true → StateData.isMinimumStake param = false) →
      ∀ param, (pick param).isSome = true → (!StateData.isMinimumStake param) = true :=
    fun pick other param given => by rw [other param given]; rfl
  refine Prod.ext ?_ ?_
  · exact prospective_filter data _ (keeps _ fun param given => by
      cases param <;> first | rfl | cases given)
  · exact prospective_filter data _ (keeps _ fun param given => by
      cases param <;> first | rfl | cases given)

/-- Between the batch and the boundary the prospective pair does not move. -/
theorem EpochStep.prospectivePair (step : EpochStep warmUp delay data phase phase' data')
    (later : phase ≠ .collecting) (before : phase' ≠ .collecting) :
    data'.prospectivePair = data.prospectivePair := by
  cases step with
  | touch phase same =>
    rw [same]
    rfl
  | process => exact absurd rfl later
  | keep => rfl
  | drop => exact prospectivePair_dropStake data
  | remove _ removals => exact removals.settings.1.prospectivePair
  | pay due front frontRefunds paid =>
    rw [paid.data]
    rfl
  | cross => exact absurd rfl before

theorem prospectivePair_of_empty (empty : data.protocolParamChanges = []) :
    data.prospectivePair = (data.minimumValidatorCount, data.maxValidatorCount) := by
  rw [StateData.prospectivePair, StateData.prospectiveMinimumValidatorCount,
    StateData.prospectiveMaxValidatorCount, StateData.prospective, StateData.prospective, empty]
  rfl

/-- **The boundary stores the prospective pair**, if the check drops nothing. -/
theorem Crosses.storedPair (crosses : Crosses data data')
    (kept : data.consistentChanges = data.protocolParamChanges) :
    (data'.minimumValidatorCount, data'.maxValidatorCount) = data.prospectivePair := by
  have same : data.checked = data := by rw [StateData.checked, kept]
  rw [crosses.minimumCount, crosses.maximumCount, same]
  rfl

/-! ### The invariant -/

structure Capped (phase : Phase) (data : StateData) : Prop where
  ordered : data.minimumValidatorCount ≤ data.maxValidatorCount
  prospective : data.prospectivePair.1 ≤ data.prospectivePair.2
  seated : data.activeOrJoiningValidatorCount ≤ data.prospectivePair.2
  empty : phase = .collecting → data.protocolParamChanges = []

/-- **The second check drops nothing.** -/
theorem Capped.consistentChanges (capped : Capped phase data) :
    data.consistentChanges = data.protocolParamChanges :=
  consistentChanges_eq_self data capped.prospective capped.seated

theorem Capped.seated_stored (capped : Capped .collecting data) :
    data.activeOrJoiningValidatorCount ≤ data.maxValidatorCount := by
  have seated := capped.seated
  rw [prospectivePair_of_empty (capped.empty rfl)] at seated
  exact seated

theorem Capped.queueParams (capped : Capped .collecting data) (batch : List ProtocolParam) :
    Capped .processed (data.queueParams batch) :=
  { ordered := capped.ordered
    prospective := checked_ordered
      { data with protocolParamChanges := data.protocolParamChanges ++ batch } capped.ordered
    seated := checked_seated
      { data with protocolParamChanges := data.protocolParamChanges ++ batch } capped.seated_stored
    empty := nofun }

theorem Capped.moves (capped : Capped .processed data) (moves : Moves warmUp delay data n data') :
    Capped .processed data' := by
  have same := moves.settings
  have pair := same.prospectivePair
  refine ⟨?_, pair ▸ capped.prospective, moves.seats capped.seated, nofun⟩
  rw [same]
  exact capped.ordered

/-- **A step keeps the cap.** -/
theorem EpochStep.capped (step : EpochStep warmUp delay data phase phase' data')
    (life : ∀ pubkey, Lifecycle phase (data.keyView pubkey)) (capped : Capped phase data) :
    Capped phase' data' := by
  have fewer (later : phase ≠ .collecting) :
      data'.activeOrJoiningValidatorCount ≤ data.activeOrJoiningValidatorCount :=
    seats_le_of_seated fun pubkey =>
      (keyStep_of_epochStep pubkey step).seated (life pubkey) later
  have within (later : phase ≠ .collecting) (before : phase' ≠ .collecting)
      (stored : data'.minimumValidatorCount = data.minimumValidatorCount ∧
        data'.maxValidatorCount = data.maxValidatorCount) : Capped phase' data' := by
    have pair := step.prospectivePair later before
    refine ⟨?_, pair ▸ capped.prospective, ?_, fun same => absurd same before⟩
    · rw [stored.1, stored.2]
      exact capped.ordered
    · rw [pair]
      exact (fewer later).trans capped.seated
  cases step with
  | touch phase same =>
    rw [same]
    exact ⟨capped.ordered, capped.prospective, capped.seated, capped.empty⟩
  | process accepted moves => exact (capped.queueParams _).moves moves
  | keep => exact within (by decide) (by decide) ⟨rfl, rfl⟩
  | drop => exact within (by decide) (by decide) ⟨rfl, rfl⟩
  | remove _ removals =>
    have same := removals.settings.1
    refine within (by decide) (by decide) ?_
    rw [same]
    exact ⟨rfl, rfl⟩
  | pay due front frontRefunds paid =>
    refine within (by decide) (by decide) ?_
    rw [paid.data]
    exact ⟨rfl, rfl⟩
  | cross crosses =>
    have stored := crosses.storedPair capped.consistentChanges
    have pair := (prospectivePair_of_empty crosses.params).trans stored
    have ordered := capped.prospective
    rw [← stored] at ordered
    refine ⟨ordered, pair ▸ capped.prospective, ?_, fun _ => crosses.params⟩
    rw [pair]
    exact (fewer (by decide)).trans capped.seated

/-! ### Runs -/

section Runs

variable {warmUp delay : Nat} {guard : EpochState → EpochEvent → Prop} {start : LiveState}
  {reached : EpochState}

variable {data data' : StateData} {phase phase' : Phase} {s later : EpochState}

theorem StateData.AtGenesis.capped (genesis : data.AtGenesis)
    (ordered : data.minimumValidatorCount ≤ data.maxValidatorCount)
    (seated : data.validatorAccounts.size ≤ data.maxValidatorCount) : Capped .collecting data := by
  have pair := prospectivePair_of_empty genesis.params
  refine ⟨ordered, ?_, ?_, fun _ => genesis.params⟩
  · rw [pair]
    exact ordered
  · rw [pair]
    exact List.countP_le_length.trans seated

theorem capped_of_reaches (genesis : start.AtGenesis)
    (ordered : start.minimumValidatorCount ≤ start.maxValidatorCount)
    (seated : start.validatorAccounts.size ≤ start.maxValidatorCount)
    (reaches : EpochState.Reaches warmUp delay guard ⟨.collecting, start⟩ reached) :
    Capped reached.phase reached.live.toStateData :=
  (reaches.invariant (P := fun phase data =>
      (∀ pubkey, Lifecycle phase (data.keyView pubkey)) ∧ Capped phase data)
    (fun _ _ step both => ⟨fun pubkey => (keyStep_of_epochStep pubkey step).lifecycle (both.1 pubkey),
      step.capped both.1 both.2⟩)
    genesis.indexed ⟨genesis.lifecycle, genesis.capped ordered seated⟩).2

theorem EpochStep.epoch (step : EpochStep warmUp delay data phase phase' data') :
    data'.epoch = data.epoch ∧ (phase' = .collecting → phase = .collecting) ∨
      data'.epoch = data.epoch + 1 ∧ phase = .paid := by
  cases step with
  | touch phase same =>
    rw [same]
    exact Or.inl ⟨rfl, id⟩
  | process accepted moves => exact Or.inl ⟨moves.settings.epoch, by decide⟩
  | keep | drop => exact Or.inl ⟨rfl, by decide⟩
  | remove _ removals => exact Or.inl ⟨removals.settings.1.epoch, by decide⟩
  | pay due front frontRefunds paid =>
    rw [paid.data]
    exact Or.inl ⟨rfl, by decide⟩
  | cross crosses => exact Or.inr ⟨crosses.epoch, rfl⟩

theorem EpochStep.epoch_of_inside (step : EpochStep warmUp delay data phase phase' data')
    (inside : phase ≠ .paid) : data'.epoch = data.epoch :=
  step.epoch.elim And.left fun crossed => absurd crossed.2 inside

/-- What the steps of one epoch keep holds to the end of it. -/
theorem EpochState.Reaches.within {P : EpochState → Prop}
    (keeps : ∀ {mid next event}, EpochState.Reaches warmUp delay guard s mid → guard mid event →
      mid.step warmUp delay event = some next →
      EpochStep warmUp delay mid.live.toStateData mid.phase next.phase next.live.toStateData →
      next.live.epoch = mid.live.epoch → P mid → P next)
    (reaches : EpochState.Reaches warmUp delay guard s later)
    (indexed : s.live.withdrawalQueue.Indexed) (same : later.live.epoch = s.live.epoch)
    (holds : P s) : P later := by
  have held : s.live.epoch ≤ later.live.epoch ∧ (later.live.epoch = s.live.epoch → P later) := by
    clear same
    induction reaches with
    | refl => exact ⟨le_rfl, fun _ => holds⟩
    | @tail mid next before last ih =>
      obtain ⟨event, allowed, result⟩ := last
      have step := (epochStep_of_step (EpochState.Reaches.indexed before indexed) result).1
      have kept := step.epoch
      refine ⟨by omega, fun same => ?_⟩
      have now : mid.live.epoch = s.live.epoch := by omega
      exact keeps before allowed result step (same.trans now.symm) (ih.2 now)
  exact held.2 same

/-- From the batch to the boundary of its epoch the prospective pair stays. -/
theorem prospectivePair_of_reaches (notCollecting : s.phase ≠ .collecting)
    (indexed : s.live.withdrawalQueue.Indexed)
    (reaches : EpochState.Reaches warmUp delay guard s later)
    (same : later.live.epoch = s.live.epoch) :
    later.live.prospectivePair = s.live.prospectivePair := by
  refine (reaches.within (P := fun state => state.phase ≠ .collecting ∧
      state.live.prospectivePair = s.live.prospectivePair)
    (fun _ _ _ step kept held => ?_) indexed same ⟨notCollecting, rfl⟩).2
  obtain ⟨inside, pair⟩ := held
  rcases step.epoch with ⟨-, into⟩ | ⟨next, -⟩
  · have before := fun collecting => inside (into collecting)
    exact ⟨before, (step.prospectivePair inside before).trans pair⟩
  · omega

end Runs

end Cap

/-- **The cap and the pair.** In every state of a run the stored minimum is at most the stored cap
and the seats taken are within the larger of the stored and the prospective cap, at an epoch start
within the stored one. The pair that a batch is processed with stays until the boundary of its
epoch, where the second check drops nothing and the pair is stored. -/
theorem validatorCounts_of_run [Crypto] {warmUp delay : Nat} {start : LiveState}
    (genesis : start.AtGenesis)
    (ordered : start.minimumValidatorCount ≤ start.maxValidatorCount)
    (seated : start.validatorAccounts.size ≤ start.maxValidatorCount) {reached : EpochState}
    (run : EpochState.Run warmUp delay start reached) :
    reached.live.minimumValidatorCount ≤ reached.live.maxValidatorCount ∧
    reached.live.activeOrJoiningValidatorCount ≤
      max reached.live.maxValidatorCount reached.live.prospectiveMaxValidatorCount ∧
    (reached.phase = .collecting →
      reached.live.activeOrJoiningValidatorCount ≤ reached.live.maxValidatorCount) ∧
    ∀ domain processed, reached.step warmUp delay (.process domain) = some processed →
      reached.live.stagedBatch.prospectivePair = processed.live.prospectivePair ∧
      ∀ later, EpochState.Reaches warmUp delay (fun _ _ => True) processed later →
        later.live.epoch = processed.live.epoch →
        later.live.prospectivePair = processed.live.prospectivePair ∧
        later.live.rejectInvalidValidatorCountChanges.protocolParamChanges =
          later.live.protocolParamChanges ∧
        ∀ key digest crossed, later.step warmUp delay (.boundary key digest) = some crossed →
          (crossed.live.minimumValidatorCount, crossed.live.maxValidatorCount) =
            processed.live.prospectivePair := by
  have capped := capped_of_reaches genesis ordered seated run
  refine ⟨capped.ordered, capped.seated.trans (le_max_right _ _), fun fresh => ?_, ?_⟩
  · rw [fresh] at capped
    exact capped.seated_stored
  intro domain processed step
  have reach : EpochState.Run warmUp delay start processed := run.tail ⟨_, trivial, step⟩
  obtain ⟨-, same⟩ := Option.ite_none_right_eq_some.mp step
  obtain rfl := Option.some.inj same
  refine ⟨?_, fun later reaches epoch => ?_⟩
  · have moves : Transfers warmUp delay _ _ _ _ :=
      transfers_processBufferedRequests domain reached.live
    obtain ⟨n, moves, -⟩ := moves
    exact moves.settings.prospectivePair.symm
  have indexed := EpochState.Reaches.indexed reach genesis.indexed
  have inside : Phase.processed ≠ .collecting := nofun
  have pair := prospectivePair_of_reaches inside indexed reaches epoch
  have later_ := capped_of_reaches genesis ordered seated (reach.trans reaches)
  refine ⟨pair, ?_, fun key digest crossed crossing => ?_⟩
  · rw [LiveState.data_rejectInvalidValidatorCountChanges]
    exact later_.consistentChanges
  · obtain ⟨-, same⟩ := Option.ite_none_right_eq_some.mp crossing
    obtain ⟨⟨live, checkpoint⟩, result, rfl⟩ := Option.map_eq_some_iff.mp same
    rw [← pair]
    exact (crosses_boundary result).storedPair later_.consistentChanges

open Bytes

attribute [local instance] Crypto.accepting

/-- A request to set the minimum and the cap to two. -/
def pairRequest : List UInt8 :=
  [0xFF, 0x07, 8, 2, 0, 0, 0, 0, 0, 0, 0, 0x0A, 8, 2, 0, 0, 0, 0, 0, 0, 0]

/-- The request is buffered and processed. -/
def pairBatch : List EpochEvent := [.buffer [pairRequest], .process zeroChunk]

theorem validatorCounts_of_run_pair :
    (pairGenesis 32 40 40).AtGenesis ∧
    (pairGenesis 32 40 40).minimumValidatorCount ≤ (pairGenesis 32 40 40).maxValidatorCount ∧
    (pairGenesis 32 40 40).validatorAccounts.size ≤ (pairGenesis 32 40 40).maxValidatorCount ∧
    ∃ reached, pairBatch.foldlM (EpochState.step 2 2) ⟨.collecting, pairGenesis 32 40 40⟩ =
        some reached ∧
      reached.live.prospectivePair = (2, 2) ∧
      reached.live.minimumValidatorCount ≤ reached.live.maxValidatorCount := by
  have genesis := atGenesis_pairGenesis 32 40 40
  have ordered : (pairGenesis 32 40 40).minimumValidatorCount ≤
      (pairGenesis 32 40 40).maxValidatorCount := by decide +kernel
  have seated : (pairGenesis 32 40 40).validatorAccounts.size ≤
      (pairGenesis 32 40 40).maxValidatorCount := by decide +kernel
  have computed : (pairBatch.foldlM (EpochState.step 2 2)
        ⟨.collecting, pairGenesis 32 40 40⟩).map (fun s => s.live.prospectivePair) =
      some (2, 2) := by decide +kernel
  obtain ⟨reached, run, pair⟩ := Option.map_eq_some_iff.mp computed
  exact ⟨genesis, ordered, seated, reached, run, pair,
    (validatorCounts_of_run genesis ordered seated
      (EpochState.reaches_of_foldlM run fun _ _ _ => trivial)).1⟩

end Summit
