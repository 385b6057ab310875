/-
**Runs of epochs.**

An epoch collects requests, processes them and enforces the minimum stake at its penultimate block,
makes its payouts at the terminal one, and ends at the boundary. `EpochState.step` runs these steps in
their order; requests may be buffered at any time. `EpochStep` says what one step does to the data
and under which guard (`epochStep_of_step`), so that an invariant of the runs is a property of
phase and data which every `EpochStep` keeps (`EpochState.Reaches.invariant`).
-/

import Summit.Proof.Boundary
import Summit.Proof.Payouts

set_option linter.unusedSectionVars false

namespace Summit

section EpochRun

variable [Crypto]

/-! ### The machine -/

/-- Where an epoch stands. -/
inductive Phase where
  | collecting
  /-- The buffered requests are processed. -/
  | processed
  /-- The minimum stake is enforced. -/
  | staged
  /-- The payouts are made. -/
  | paid
  deriving DecidableEq

structure EpochState where
  phase : Phase
  live : LiveState

inductive EpochEvent where
  | buffer (requests : List (List UInt8))
  | process (domain : Digest)
  | enforce
  | payouts
  | boundary (nodePublicKey : PublicKey) (digest : Digest)

/-- One step; `none` out of order, and where the source panics. -/
def EpochState.step (warmUp delay : Nat) (s : EpochState) : EpochEvent → Option EpochState
  | .buffer requests => some ⟨s.phase, s.live.bufferExecutionRequests requests⟩
  | .process domain =>
    if s.phase = .collecting then
      some ⟨.processed, s.live.processBufferedRequests domain warmUp delay⟩
    else none
  | .enforce =>
    if s.phase = .processed then some ⟨.staged, s.live.enforceMinimumStake⟩ else none
  | .payouts =>
    if s.phase = .staged then
      (s.live.applyWithdrawalPayouts s.live.epoch
        (s.live.emitWithdrawalPayouts s.live.epoch)).map (EpochState.mk .paid)
    else none
  | .boundary key digest =>
    if s.phase = .paid then
      (s.live.boundary key digest).map fun result => ⟨.collecting, result.1⟩
    else none

/-- A step whose event the guard allows. -/
def EpochState.Steps (warmUp delay : Nat) (guard : EpochState → EpochEvent → Prop)
    (s s' : EpochState) : Prop :=
  ∃ event, guard s event ∧ s.step warmUp delay event = some s'

/-- The states that guarded steps reach. -/
abbrev EpochState.Reaches (warmUp delay : Nat) (guard : EpochState → EpochEvent → Prop) :
    EpochState → EpochState → Prop :=
  Relation.ReflTransGen (EpochState.Steps warmUp delay guard)

/-- The states that a run from a genesis state reaches. -/
abbrev EpochState.Run (warmUp delay : Nat) (start : LiveState) (reached : EpochState) : Prop :=
  EpochState.Reaches warmUp delay (fun _ _ => True) ⟨.collecting, start⟩ reached

/-- The data of a genesis state: only active accounts, and nothing queued or scheduled. -/
structure StateData.AtGenesis (data : StateData) : Prop where
  active : ∀ pubkey account, data.getAccount pubkey = some account → account.status = .active
  deposits : data.depositQueue = []
  withdrawals : data.withdrawalQueue = .empty
  requests : data.pendingExecutionRequests = []
  params : data.protocolParamChanges = []
  added : data.addedValidators = .empty
  removed : data.removedValidators = []
  exits : data.pendingActiveValidatorExits = 0

/-! ### What a step does to the data -/

/-- The data differ at most in the position on the chain and in the buffered requests. -/
def SameCommittee (data data' : StateData) : Prop :=
  data' =
    { data with
      view := data'.view
      latestHeight := data'.latestHeight
      headDigest := data'.headDigest
      pendingCheckpoint := data'.pendingCheckpoint
      pendingExecutionRequests := data'.pendingExecutionRequests
      forkchoice := data'.forkchoice }

/-- The data once the parameter changes of a batch are queued and the buffer is empty. -/
def StateData.queueParams (data : StateData) (batch : List ProtocolParam) : StateData :=
  { data with
    pendingExecutionRequests := []
    protocolParamChanges :=
      { data with protocolParamChanges := data.protocolParamChanges ++ batch }.consistentChanges }

/-- What a step of an epoch does to the data. -/
inductive EpochStep (warmUp delay : Nat) (data : StateData) : Phase → Phase → StateData → Prop where
  | touch (phase : Phase) {data' : StateData} (same : SameCommittee data data') :
    EpochStep warmUp delay data phase phase data'
  | process {batch : List ProtocolParam} {n : Nat} {data' : StateData}
      (accepted : ∀ param ∈ batch, param.Accepted)
      (moves : Moves warmUp delay (data.queueParams batch) n data') :
    EpochStep warmUp delay data .collecting .processed data'
  /-- No minimum stake is queued. -/
  | keep (none_ : data.protocolParamChanges.any StateData.isMinimumStake = false) :
    EpochStep warmUp delay data .processed .staged data
  /-- Too few validators would be left. -/
  | drop (few : data.retainedCount < data.prospectiveMinimumValidatorCount) :
    EpochStep warmUp delay data .processed .staged
      { data with
        protocolParamChanges :=
          data.protocolParamChanges.filter fun param => !StateData.isMinimumStake param }
  | remove {n : Nat} {data' : StateData}
      (enough : data.prospectiveMinimumValidatorCount ≤ data.retainedCount)
      (removals : Removals data.prospectiveMinimumStake data n data')
      (settled : ∀ pubkey,
        (∀ account, data.getAccount pubkey = some account →
          account.status.isActiveOrJoining = true →
          Removable data.alreadyRemoved data.epoch (pubkey, account)) →
        Settled data.prospectiveMinimumStake data' pubkey) :
    EpochStep warmUp delay data .processed .staged data'
  | pay {data' : StateData} {validators refunds laterValidators laterRefunds : List PendingWithdrawal}
      (due : data.dueEntries data.epoch = validators ++ refunds)
      (front : data.withdrawalQueue.withdrawals = validators ++ laterValidators)
      (frontRefunds : data.withdrawalQueue.refunds = refunds ++ laterRefunds)
      (paid : PaidOff data.prospectiveMinimumStake data data' (data.dueEntries data.epoch)
        laterValidators laterRefunds) :
    EpochStep warmUp delay data .staged .paid data'
  | cross {data' : StateData} (crosses : Crosses data data') :
    EpochStep warmUp delay data .paid .collecting data'

theorem accepted_of_paramOf {parsed : List ParsedExecutionRequest} {param : ProtocolParam}
    (member : param ∈ parsed.filterMap LiveState.paramOf) : param.Accepted := by
  obtain ⟨request, -, given⟩ := List.mem_filterMap.mp member
  unfold LiveState.paramOf at given
  split at given
  · next request =>
    split at given
    · next accepted => exact ⟨request, Option.some.inj given ▸ accepted⟩
    · cases given
  · cases given

theorem data_stagedBatch_queueParams (s : LiveState) :
    s.stagedBatch.toStateData = s.queueParams
      ((LiveState.parseEntries s.pendingExecutionRequests).filterMap LiveState.paramOf) := by
  rw [LiveState.stagedBatch, data_stageParams]
  rfl

section Live

variable {warmUp delay : Nat} (s : LiveState)

theorem epochStep_process (domain : Digest) :
    EpochStep warmUp delay s.toStateData .collecting .processed
      (s.processBufferedRequests domain warmUp delay).toStateData := by
  have processed : Transfers warmUp delay _ _ _ _ := transfers_processBufferedRequests domain s
  obtain ⟨n, moves, -⟩ := processed
  rw [data_stagedBatch_queueParams] at moves
  exact EpochStep.process (fun _ => accepted_of_paramOf) moves

theorem epochStep_enforce :
    EpochStep warmUp delay s.toStateData .processed .staged s.enforceMinimumStake.toStateData := by
  rcases enforceMinimumStake_cases s with ⟨same, none_⟩ | ⟨few, same⟩ | ⟨enough, removals, settled⟩
  · rw [same]
    exact EpochStep.keep none_
  · rw [same, LiveState.data_setProtocolParamChanges]
    exact EpochStep.drop few
  · exact EpochStep.remove enough removals settled

theorem epochStep_payDue (indexed : s.withdrawalQueue.Indexed) :
    EpochStep warmUp delay s.toStateData .staged .paid (s.payDue s.epoch).toStateData := by
  obtain ⟨_, _, _, _, due, front, frontRefunds, paid⟩ := exists_paidOff s s.epoch indexed.unique
  exact EpochStep.pay due front frontRefunds paid

end Live

variable {warmUp delay : Nat} {s s' start reached : EpochState} {event : EpochEvent}
  {guard : EpochState → EpochEvent → Prop} {P : Phase → StateData → Prop}

/-- **Every step** is one of those listed, and keeps the indexes of the queue in order. -/
theorem epochStep_of_step (indexed : s.live.withdrawalQueue.Indexed)
    (result : s.step warmUp delay event = some s') :
    EpochStep warmUp delay s.live.toStateData s.phase s'.phase s'.live.toStateData ∧
      s'.live.withdrawalQueue.Indexed := by
  obtain ⟨phase, live⟩ := s
  cases event with
  | buffer requests =>
    obtain rfl := Option.some.inj result
    refine ⟨EpochStep.touch phase ?_, ?_⟩
    · rw [LiveState.data_bufferExecutionRequests]
      rfl
    · rw [LiveState.data_bufferExecutionRequests]
      exact indexed
  | process domain =>
    obtain ⟨rfl, same⟩ := Option.ite_none_right_eq_some.mp result
    obtain rfl := Option.some.inj same
    have processed : Transfers warmUp delay _ _ _ _ :=
      transfers_processBufferedRequests domain live
    obtain ⟨n, moves, -⟩ := processed
    refine ⟨epochStep_process live domain, moves.indexed ?_⟩
    rw [data_stagedBatch]
    exact indexed
  | enforce =>
    obtain ⟨rfl, same⟩ := Option.ite_none_right_eq_some.mp result
    obtain rfl := Option.some.inj same
    refine ⟨epochStep_enforce live, ?_⟩
    rcases enforceMinimumStake_cases live with ⟨same, -⟩ | ⟨-, same⟩ | ⟨-, removals, -⟩
    · rw [same]
      exact indexed
    · rw [same]
      exact indexed
    · rw [removals.settings.2.2]
      exact indexed
  | payouts =>
    obtain ⟨rfl, same⟩ := Option.ite_none_right_eq_some.mp result
    rw [applyWithdrawalPayouts_emitted] at same
    obtain rfl := Option.some.inj same
    exact ⟨epochStep_payDue live indexed, indexed_payDue indexed _⟩
  | boundary key digest =>
    obtain ⟨rfl, same⟩ := Option.ite_none_right_eq_some.mp result
    obtain ⟨⟨crossed, checkpoint⟩, crossing, rfl⟩ := Option.map_eq_some_iff.mp same
    have crosses := crosses_boundary crossing
    refine ⟨EpochStep.cross crosses, ?_⟩
    rw [crosses.withdrawals]
    exact indexed

/-- Between which phases an event passes. -/
def EpochEvent.Passes (before after : Phase) : EpochEvent → Prop
  | .buffer _ => after = before
  | .process _ => before = .collecting ∧ after = .processed
  | .enforce => before = .processed ∧ after = .staged
  | .payouts => before = .staged ∧ after = .paid
  | .boundary _ _ => before = .paid ∧ after = .collecting

theorem EpochState.passes_of_step (result : s.step warmUp delay event = some s') :
    event.Passes s.phase s'.phase := by
  cases event with
  | buffer =>
    obtain rfl := Option.some.inj result
    rfl
  | process | enforce =>
    obtain ⟨phase, same⟩ := Option.ite_none_right_eq_some.mp result
    obtain rfl := Option.some.inj same
    exact ⟨phase, rfl⟩
  | payouts | boundary =>
    obtain ⟨phase, same⟩ := Option.ite_none_right_eq_some.mp result
    obtain ⟨_, -, rfl⟩ := Option.map_eq_some_iff.mp same
    exact ⟨phase, rfl⟩

theorem EpochEvent.Passes.payouts (passes : event.Passes .staged .paid) : event = .payouts := by
  cases event with
  | payouts => rfl
  | buffer => cases passes
  | process | enforce | boundary => cases passes.1

theorem EpochEvent.Passes.process (passes : event.Passes .collecting .processed) :
    ∃ domain, event = .process domain := by
  cases event with
  | process domain => exact ⟨domain, rfl⟩
  | buffer => cases passes
  | payouts | enforce | boundary => cases passes.1

theorem EpochEvent.Passes.boundary (passes : event.Passes .paid .collecting) :
    ∃ key digest, event = .boundary key digest := by
  cases event with
  | boundary key digest => exact ⟨key, digest, rfl⟩
  | buffer => cases passes
  | process | enforce | payouts => cases passes.1

theorem EpochState.Reaches.indexed (reaches : EpochState.Reaches warmUp delay guard start reached)
    (indexed : start.live.withdrawalQueue.Indexed) : reached.live.withdrawalQueue.Indexed := by
  induction reaches with
  | refl => exact indexed
  | tail _ last ih =>
    obtain ⟨event, -, result⟩ := last
    exact (epochStep_of_step ih result).2

/-- **Invariants of the runs.** What holds at the start and is kept by every allowed step holds in
every state reached. -/
theorem EpochState.Reaches.invariant
    (keeps : ∀ {s s' event}, guard s event → s.step warmUp delay event = some s' →
      EpochStep warmUp delay s.live.toStateData s.phase s'.phase s'.live.toStateData →
      P s.phase s.live.toStateData → P s'.phase s'.live.toStateData)
    (reaches : EpochState.Reaches warmUp delay guard start reached)
    (indexed : start.live.withdrawalQueue.Indexed) (holds : P start.phase start.live.toStateData) :
    P reached.phase reached.live.toStateData := by
  induction reaches with
  | refl => exact holds
  | tail before last ih =>
    obtain ⟨event, allowed, result⟩ := last
    exact keeps allowed result
      (epochStep_of_step (EpochState.Reaches.indexed before indexed) result).1 ih

/-- The same with the boundary itself, where `Crosses` says too little of it. -/
theorem EpochState.Reaches.invariant_boundary
    (inside : ∀ {data data' phase phase'}, EpochStep warmUp delay data phase phase' data' →
      (phase = .paid → phase' ≠ .collecting) → P phase data → P phase' data')
    (boundary : ∀ {s s' : LiveState} {key digest checkpoint},
      s.boundary key digest = some (s', checkpoint) → P .paid s.toStateData →
      P .collecting s'.toStateData) (reaches : EpochState.Reaches warmUp delay guard start reached)
    (indexed : start.live.withdrawalQueue.Indexed) (holds : P start.phase start.live.toStateData) :
    P reached.phase reached.live.toStateData := by
  refine reaches.invariant (fun {s s' event} _ result step held => ?_) indexed holds
  by_cases within : s.phase = .paid → s'.phase ≠ .collecting
  · exact inside step within held
  · obtain ⟨paid, collecting⟩ := Classical.not_imp.mp within
    have passes := EpochState.passes_of_step result
    rw [paid, not_not.mp collecting] at passes
    obtain ⟨key, digest, rfl⟩ := passes.boundary
    obtain ⟨-, same⟩ := Option.ite_none_right_eq_some.mp result
    obtain ⟨⟨live, checkpoint⟩, crossed, rfl⟩ := Option.map_eq_some_iff.mp same
    rw [paid] at held
    exact boundary crossed held

/-- A fold of allowed steps is a run. -/
theorem EpochState.reaches_of_foldlM {events : List EpochEvent}
    (run : events.foldlM (EpochState.step warmUp delay) s = some s')
    (allowed : ∀ s, ∀ event ∈ events, guard s event) : EpochState.Reaches warmUp delay guard s s' :=
  Run.reflTransGen_of_foldlM run fun s _ event member result =>
    ⟨event, allowed s event member, result⟩

end EpochRun

/-! ### A small committee -/

open Bytes

attribute [local instance] Crypto.accepting

/-- A deposit chunk under the keys that start with the given byte. -/
def depositChunk (key amount : UInt8) : List UInt8 :=
  key :: List.replicate 31 0 ++ key :: List.replicate 47 0 ++ 1 :: List.replicate 31 0 ++
    amount :: List.replicate 175 0

/-- An entry with one withdrawal request for the key that starts with the given byte. -/
def withdrawalEntry (key amount : UInt8) : List UInt8 :=
  1 :: List.replicate 36 0 ++ key :: List.replicate 31 0 ++ amount :: List.replicate 7 0

/-- The key of the second validator. -/
def secondKey : Bytes32 := FixedBytes.padded 32 [1]
def secondBlsKey : BlsPublicKey := ⟨FixedBytes.padded 48 [1], rfl⟩

/-- Two validators, the first one under the zero key. -/
def pairGenesis (minimumStake balance balance' : Nat) : LiveState :=
  ((LiveState.ofData (StateData.new ⟨zeroChunk, zeroChunk, zeroChunk⟩ minimumStake 10 ten_pos 0
      (FixedBytes.zero 20) 4 4 0 4 1 0 4)).setAccount zeroChunk
      { stakedAccount with balance }).setAccount secondKey
    { stakedAccount with
      consensusPublicKey := secondBlsKey
      balance := balance' }

theorem accounts_pairGenesis {minimumStake balance balance' : Nat} {pubkey : Bytes32}
    {account : ValidatorAccount}
    (found : (pairGenesis minimumStake balance balance').getAccount pubkey = some account) :
    account.status = .active ∧ (account.balance = balance ∨ account.balance = balance') := by
  rw [pairGenesis, LiveState.data_setAccount, StateData.getAccount, SortedMap.find?_insert] at found
  split at found
  · obtain rfl := Option.some.inj found
    exact ⟨rfl, Or.inr rfl⟩
  · rw [LiveState.data_setAccount, SortedMap.find?_insert] at found
    split at found
    · obtain rfl := Option.some.inj found
      exact ⟨rfl, Or.inl rfl⟩
    · cases found

theorem atGenesis_pairGenesis (minimumStake balance balance' : Nat) :
    (pairGenesis minimumStake balance balance').AtGenesis := by
  have data : (pairGenesis minimumStake balance balance').toStateData = _ :=
    LiveState.data_setAccount _ _ _
  refine ⟨fun pubkey account found => (accounts_pairGenesis found).1, ?_, ?_, ?_, ?_, ?_, ?_, ?_⟩
  all_goals
    rw [data]
    rfl

end Summit
