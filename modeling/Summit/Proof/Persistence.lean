/-
**A state that is written is read back.**

The reader of a state checks a dozen conditions across fields. They hold of every state that the
finalized chain reaches from a valid genesis: `Codable` gathers the invariants of the epoch steps
that they follow from (`Codable.admissible`), and a run of blocks keeps it (`codable_of_run`). The
rest of a state is what its last capture froze. Every block ends in a capture and the boundary in
another one, so a state is `Frozen` with its own data (`frozen_executed`, `ChainStep.resting`); the
changes of a block up to its checkpoint keep the live tree and leave the frozen parts, so what the
checkpoint encodes is `Frozen` with the data of its parent (`frozen_withLive`).
-/

import Summit.Proof.GenesisState
import Summit.Proof.PayoutWait
import Summit.Proof.Removals
import Summit.Proof.StateCodec

set_option linter.unusedSectionVars false

namespace Summit

open Bytes DynamicEpocher

section Persistence

variable [Crypto]

/-! ### The checks of the reader -/

/-- The invariants of an epoch that the checks of the reader follow from. -/
structure Codable (delay : Nat) (phase : Phase) (data : StateData) : Prop where
  life : ∀ pubkey, Lifecycle phase (data.keyView pubkey)
  capped : Capped phase data
  bounds : data.InBounds
  counted : Counted phase data
  lined : Lined delay data
  long : data.Long

variable {delay : Nat} {phase : Phase} {data : StateData} {s s' : LiveState} {key : PublicKey}
  {digest : Digest} {checkpoint : Option Checkpoint}

/-- The exit count is at most the number of signers. -/
theorem Codable.exits_le (codable : Codable delay phase data)
    (between : phase = .collecting ∨ phase = .staged) :
    data.pendingActiveValidatorExits ≤ data.countStatus ValidatorStatus.isCurrentEpochSigner := by
  rw [codable.counted.exits]
  rcases between with rfl | rfl
  · rw [removed_of_collecting codable.life]
    exact Nat.zero_le _
  · exact length_removed_le fun pubkey => (codable.life pubkey).leaving

/-- **Between blocks the checks of the reader hold.** -/
theorem Codable.admissible (codable : Codable delay phase data)
    (between : phase = .collecting ∨ phase = .staged) (indexed : data.withdrawalQueue.Indexed)
    (next : data.withdrawalQueue.nextIndex < u64Max) (empty : data.pendingCheckpoint = none) :
    data.Admissible where
  indexed := indexed
  ordered := codable.lined.ordered
  nextIndex := next
  bounds := codable.bounds
  counts := codable.capped.ordered
  exits := codable.exits_le between
  checkpoint := fun checkpoint held => by rw [empty] at held; cases held

section Steps

variable {warmUp delay : Nat} {data data' : StateData} {phase phase' : Phase}

/-- Within an epoch the schedule stays. -/
theorem EpochStep.epocher (step : EpochStep warmUp delay data phase phase' data')
    (inside : phase = .paid → phase' ≠ .collecting) : data'.epocher = data.epocher := by
  cases step with
  | touch phase same =>
    rw [same]
  | process accepted moves => exact congrArg Place.epocher moves.settings.frame.place
  | keep | drop => rfl
  | remove _ removals => exact congrArg Place.epocher removals.settings.1.frame.place
  | pay due front frontRefunds paid => rw [paid.data]
  | cross => exact absurd rfl (inside rfl)

theorem EpochStep.codable (step : EpochStep warmUp delay data phase phase' data')
    (inside : phase = .paid → phase' ≠ .collecting) (indexed : data.withdrawalQueue.Indexed)
    (codable : Codable delay phase data) : Codable delay phase' data' where
  life := fun pubkey => (keyStep_of_epochStep pubkey step).lifecycle (codable.life pubkey)
  capped := step.capped codable.life codable.capped
  bounds := step.inBounds inside codable.bounds
  counted := step.counted codable.life codable.capped codable.bounds codable.counted
  lined := step.queueStep.lined indexed codable.lined
  long := by
    rw [StateData.Long, step.epocher inside]
    exact codable.long

end Steps

/-- The parameters that the boundary applies keep every epoch two blocks long. -/
theorem long_applyParams {params : List ProtocolParam}
    (run : params.foldlM LiveState.applyParam s = some s')
    (bounded : ∀ param ∈ params, param.InBounds) (long : s.Long) : s'.Long := by
  refine Run.invariant (P := fun s : LiveState => s.Long) (fun s param s' member long result => ?_)
    long run
  rcases epocher_applyParam result with same | ⟨length, positive, rfl, update⟩
  · rw [StateData.Long, same]
    exact long
  · obtain ⟨-, -, first, last, -, -, segments⟩ := updateLength_eq_some_iff.mp update
    intro segment here
    rw [segments] at here
    rcases List.mem_append.mp here with old | new
    · exact long segment (settled_subset old)
    · rw [List.mem_singleton.mp new]
      have ten : minEpochLength ≤ length := (bounded _ member).1
      exact (show 2 ≤ minEpochLength by decide).trans ten

theorem long_boundary (bounded : s.InBounds) (long : s.Long)
    (result : s.boundary key digest = some (s', checkpoint)) : s'.Long := by
  obtain ⟨stored, run, place⟩ := place_boundary result
  have epocher : s'.epocher = stored.epocher.advanceEpoch (s.epoch + 1) :=
    congrArg Place.epocher place
  rw [StateData.Long, epocher]
  refine long_applyParams run (fun param member => ?_) ?_
  · rw [LiveState.data_rejectInvalidValidatorCountChanges] at member
    exact bounded.queued param (mem_of_mem_consistentChanges member)
  · rw [LiveState.data_rejectInvalidValidatorCountChanges]
    exact long

/-- **The boundary keeps what the reader asks for.** -/
theorem Codable.boundary (result : s.boundary key digest = some (s', checkpoint))
    (indexed : s.withdrawalQueue.Indexed) (codable : Codable delay .paid s.toStateData) :
    Codable delay .collecting s'.toStateData := by
  -- the number of warm-up epochs plays no part at the boundary
  have step : EpochStep 0 delay s.toStateData .paid .collecting s'.toStateData :=
    .cross (crosses_boundary result)
  exact
    { life := fun pubkey => (keyStep_of_epochStep pubkey step).lifecycle (codable.life pubkey)
      capped := step.capped codable.life codable.capped
      bounds := codable.bounds.boundary result
      counted := step.counted codable.life codable.capped codable.bounds codable.counted
      lined := step.queueStep.lined indexed codable.lined
      long := long_boundary codable.bounds codable.long result }

/-! ### Runs -/

section Runs

variable {genesis : Genesis} {positive : 0 < genesis.blocksPerEpoch} {consts : ProtocolConsts}
  {domain : Digest} {key : PublicKey} {s : ConsensusState}

theorem codable_initialState {delay : Nat} (valid : genesis.Valid)
    (stake : genesis.validatorMinimumStake < 2 ^ 64) :
    Codable delay .collecting (genesis.initialState positive).toStateData := by
  have start := genesis.atGenesis_initialState positive
  exact
    { life := start.lifecycle
      capped := start.capped valid.ordered_initialState valid.seated_initialState
      bounds := valid.inBounds stake
      counted := ⟨by rw [start.exits, start.removed]; rfl, nofun⟩
      lined := start.lined
      long := valid.long }

/-- **Between blocks** the next one belongs to the epoch, and the invariants hold. -/
theorem codable_of_run (valid : genesis.Valid) (stake : genesis.validatorMinimumStake < 2 ^ 64)
    (run : BlockRun consts domain key (genesis.initialState positive) s) :
    s.Underway ∧ s.withdrawalQueue.Indexed ∧
      Codable consts.validatorWithdrawalNumEpochs s.phase s.toStateData := by
  refine BlockRun.invariant EpochStep.codable Codable.boundary (fun codable => codable.long)
    valid.underway.1 (genesis.atGenesis_initialState positive).indexed ?_ run
  rw [valid.phase]
  exact codable_initialState valid stake

theorem phase_between (data : StateData) : data.phase = .collecting ∨ data.phase = .staged := by
  unfold StateData.phase
  split
  · exact Or.inr rfl
  · exact Or.inl rfl

/-! ### What a capture freezes -/

/-- A capture freezes the data it was made of. -/
theorem ConsensusState.Committed.frozen (committed : s.Committed) (elBlockNumber : Nat) :
    (s.captureStateRoot elBlockNumber).Frozen (s.captureStateRoot elBlockNumber).toStateData := by
  have tree := committed.capture elBlockNumber
  exact ⟨tree, tree, congrArg SszStateTree.root tree, rfl, rfl⟩

variable {snapshot : StateData} {live : LiveState} {executed : ConsensusState}
  {checkpoint : Option Checkpoint}

theorem ConsensusState.Frozen.inSync (frozen : s.Frozen snapshot) :
    s.toLiveState.InSync false false (hashByteList s.epocher.encode) := by
  rw [LiveState.InSync, frozen.sszTree]
  exact SszStateTree.inSync_rebuild s.toStateData

/-- The changes of a block up to its checkpoint leave what is frozen. -/
theorem frozen_withLive {block : Block} (frozen : s.Frozen s.toStateData)
    (applied : s.toLiveState.applyBlock consts domain block = some live) :
    (s.withLive live).Frozen s.toStateData := by
  have synced := inSync_applyBlock frozen.inSync applied
  have epocher : live.epocher = s.epocher := congrArg Place.epocher (place_applyBlock applied)
  rw [← epocher] at synced
  exact ⟨SszStateTree.InSync.unique synced (SszStateTree.inSync_rebuild live.toStateData),
    frozen.proofTree, frozen.stateRoot, frozen.keys, frozen.bytes⟩

theorem pendingCheckpoint_applyBlock {block : Block}
    (applied : s.toLiveState.applyBlock consts domain block = some live) :
    live.pendingCheckpoint = s.pendingCheckpoint := by
  obtain ⟨processed, run, rfl⟩ := Option.map_eq_some_iff.mp applied
  have same := frame_processExecutionRequests run
  rw [LiveState.data_bufferExecutionRequests, LiveState.data_setForkchoiceHead, SameFrame] at same
  show processed.pendingCheckpoint = _
  rw [same]

/-- **A block ends in a capture** of its own data. -/
theorem frozen_executed {block : Block} (committed : s.Committed)
    (result : s.executed consts domain block = some executed) :
    executed.Frozen executed.toStateData := by
  obtain ⟨before, holds, rfl⟩ := captures_executed committed result
  exact holds.frozen _

/-- A block that is no penultimate one keeps the pending checkpoint. -/
theorem pendingCheckpoint_executed {block : Block}
    (result : s.executed consts domain block = some executed)
    (early : s.epocher.isPenultimateBlockOfEpoch block.height = false) :
    executed.pendingCheckpoint = s.pendingCheckpoint := by
  rw [ConsensusState.executed, Option.ite_none_right_eq_some] at result
  obtain ⟨live, applied, rfl⟩ := Option.map_eq_some_iff.mp result.2
  have epocher : live.epocher = s.epocher := congrArg Place.epocher (place_applyBlock applied)
  have kept : (s.withLive live).withCheckpoint block = s.withLive live := by
    refine if_neg ?_
    show ¬live.epocher.isPenultimateBlockOfEpoch block.height = true
    rw [epocher, early]
    exact Bool.false_ne_true
  show ((s.withLive live).withCheckpoint block).pendingCheckpoint = _
  rw [kept]
  exact pendingCheckpoint_applyBlock applied

theorem pendingCheckpoint_boundary {live' : LiveState} {digest : Digest}
    (result : live.boundary key digest = some (live', checkpoint)) :
    live'.pendingCheckpoint = none := by
  obtain ⟨changed, moved, applied, transition, rfl⟩ := boundary_eq_some result
  rw [data_enterNextEpoch]
  rfl

/-- What holds of the state between two blocks besides the invariants of the epoch. -/
structure Resting (start s : ConsensusState) : Prop where
  committed : s.Committed
  frozen : s = start ∨ s.Frozen s.toStateData
  /-- A checkpoint is pending only before the last block of an epoch. -/
  checkpoint : s.phase = .collecting → s.pendingCheckpoint = none

theorem ChainStep.resting {start s' : ConsensusState} {block : Block}
    (step : ChainStep consts domain key s block executed s' checkpoint) (underway : s.Underway)
    (resting : Resting start s) : Resting start s' := by
  have committed := committed_executed resting.committed step.executes
  have epocher := step.place.2.1
  rcases finalizeExecuted_eq_some step.finalizes with ⟨notLast, rfl, -⟩ | ⟨last, live, crossed, rfl⟩
  · rw [settledHead_executed resting.committed step.executes]
    rw [epocher] at notLast
    obtain ⟨-, phase⟩ := step.underway underway notLast
    refine ⟨committed, Or.inr (frozen_executed resting.committed step.executes), fun now => ?_⟩
    rw [phase, nextPhase] at now
    -- after the penultimate block the requests are processed
    have early : s.epocher.isPenultimateBlockOfEpoch block.height = false := by
      by_contra late
      rw [if_pos (Bool.eq_true_of_not_eq_false late)] at now
      cases now
    rw [pendingCheckpoint_executed step.executes early]
    refine resting.checkpoint (if_neg ?_)
    rw [← step.height, notLast]
    exact Bool.false_ne_true
  · have crossing := committed_boundary (committed_settledHead committed) crossed
    have taken : live.pendingCheckpoint = none := pendingCheckpoint_boundary crossed
    exact ⟨crossing.captureStateRoot _, Or.inr (crossing.frozen _), fun _ => taken⟩

theorem resting_of_run (valid : genesis.Valid) (stake : genesis.validatorMinimumStake < 2 ^ 64)
    (run : BlockRun consts domain key (genesis.initialState positive) s) :
    Resting (genesis.initialState positive) s := by
  induction run with
  | refl =>
    have empty : (genesis.initialState positive).pendingCheckpoint = none := by
      rw [genesis.data_initialState positive]
      rfl
    exact ⟨genesis.committed_initialState positive, Or.inl rfl, fun _ => empty⟩
  | tail before last ih =>
    obtain ⟨block, executed, checkpoint, step⟩ := last
    exact step.resting (codable_of_run valid stake before).1 ih

/-! ### Reading back -/

/-- The numbers of a state fit their machine integers, and its collections are short enough for the
four bytes of their lengths. -/
@[mk_iff]
structure ConsensusState.Representable (s : ConsensusState) : Prop where
  fits : s.toStateData.Fits
  short : s.toStateData.Short
  nextIndex : s.withdrawalQueue.nextIndex < u64Max
  elBlockNumber : s.proofElBlockNumber < 2 ^ 64
  captured : ∀ bytes, s.capturedBytes = some bytes → bytes.length < 2 ^ 32

instance : DecidablePred ConsensusState.Representable := fun s =>
  decidable_of_iff _ (ConsensusState.representable_iff s).symm

/-- A state is read back as it was written, in front of any bytes, and takes as many bytes as
`encode_size` says. -/
def ConsensusState.RoundTrips (s : ConsensusState) : Prop :=
  (∀ rest, ConsensusState.read.run (s.encode ++ rest) = .ok (s, rest)) ∧
    s.encode.length = s.encodeSize

theorem roundTrips_of_frozen (frozen : s.Frozen snapshot) (representable : s.Representable)
    (admissible : s.toStateData.Admissible) (fits : snapshot.Fits)
    (admissible' : snapshot.Admissible) : s.RoundTrips := by
  have few := representable.captured _ frozen.bytes
  refine ⟨frozen.reads ⟨representable.fits, representable.short, admissible⟩ ⟨fits, ?_, admissible'⟩
    representable.elBlockNumber few, s.length_encode_state⟩
  exact StateData.short_of_length few

variable {block : Block}

/-- **After a boundary** the state is read back. -/
theorem roundTrips_boundary (valid : genesis.Valid)
    (stake : genesis.validatorMinimumStake < 2 ^ 64)
    (run : BlockRun consts domain key (genesis.initialState positive) s)
    {executed s' : ConsensusState} {checkpoint : Option Checkpoint}
    (step : ChainStep consts domain key s block executed s' checkpoint)
    (last : s.epocher.isLastBlockOfEpoch block.height = true)
    (representable : s'.Representable) : s'.RoundTrips := by
  have run' : BlockRun consts domain key (genesis.initialState positive) s' :=
    run.tail ⟨block, executed, checkpoint, step⟩
  obtain ⟨underway, -, -⟩ := codable_of_run valid stake run
  obtain ⟨-, indexed, codable⟩ := codable_of_run valid stake run'
  obtain ⟨-, collecting⟩ := step.underway_boundary underway last codable.long
  have resting := resting_of_run valid stake run'
  have admissible := codable.admissible (phase_between _) indexed representable.nextIndex
    (resting.checkpoint collecting)
  have frozen : s'.Frozen s'.toStateData := by
    rcases finalizeExecuted_eq_some step.finalizes with ⟨inside, -⟩ | ⟨-, live, crossed, rfl⟩
    · rw [step.place.2.1, last] at inside
      cases inside
    · have committed := committed_executed (resting_of_run valid stake run).committed step.executes
      exact (committed_boundary (committed_settledHead committed) crossed).frozen _
  exact roundTrips_of_frozen frozen representable admissible representable.fits admissible

/-- **Before the checkpoint** of a penultimate block the state is read back. -/
theorem roundTrips_checkpoint (valid : genesis.Valid)
    (stake : genesis.validatorMinimumStake < 2 ^ 64)
    (run : BlockRun consts domain key (genesis.initialState positive) s)
    (height : block.height = s.latestHeight + 1)
    (penultimate : s.epocher.isPenultimateBlockOfEpoch block.height = true)
    (withdrawals : block.withdrawals = s.expectedWithdrawals block) {live : LiveState}
    (applied : s.toLiveState.applyBlock consts domain block = some live)
    (fits : s.toStateData.Fits) (representable : (s.withLive live).Representable) :
    (s.withLive live).RoundTrips := by
  obtain ⟨underway, indexed, codable⟩ := codable_of_run valid stake run
  have resting := resting_of_run valid stake run
  have collecting : s.phase = .collecting := by
    refine if_neg fun last => ?_
    rw [height, not_penultimate_of_last last] at penultimate
    cases penultimate
  have none_ := resting.checkpoint collecting
  rw [collecting] at codable
  have stages : Stages s.epocher block.height .collecting .staged :=
    Or.inl ⟨penultimate, rfl, rfl⟩
  obtain ⟨indexed', codable'⟩ := applyBlock_keeps EpochStep.codable stages withdrawals applied
    indexed codable
  -- the next index only grows, so that of the snapshot is small too
  obtain ⟨-, grows⟩ := applyBlock_keeps
    (P := fun _ data => s.withdrawalQueue.nextIndex ≤ data.withdrawalQueue.nextIndex)
    (fun step _ _ grown => grown.trans step.queueStep.advances.next) stages withdrawals applied
    indexed le_rfl
  have frozen : s.Frozen s.toStateData := by
    rcases resting.frozen with rfl | frozen
    · -- the first epoch has more than two blocks
      obtain ⟨-, later⟩ : (genesis.initialState positive).Underway ∧ _ := valid.underway
      rw [height] at penultimate
      obtain ⟨ends, -⟩ := underway.isPenultimate_iff.mp penultimate
      omega
    · exact frozen
  refine roundTrips_of_frozen (frozen_withLive frozen applied) representable ?_ fits ?_
  · exact codable'.admissible (Or.inr rfl) indexed' representable.nextIndex
      ((pendingCheckpoint_applyBlock applied).trans none_)
  · exact codable.admissible (Or.inl rfl) indexed
      (grows.trans_lt representable.nextIndex) none_

end Runs

end Persistence

/-- **A state that is written is read back.** In a run of blocks from a genesis that passes its
checks, the state after an epoch boundary and the state of which a penultimate block makes its
checkpoint are read back from their encodings, all that was frozen before the last changes included,
and take the number of bytes that `encode_size` says. -/
theorem state_round_trip [Crypto] (genesis : Genesis) (positive : 0 < genesis.blocksPerEpoch)
    (valid : genesis.validate = .ok ()) (stake : genesis.validatorMinimumStake < 2 ^ 64)
    (consts : ProtocolConsts) (domain : Digest) (key : PublicKey) (s : ConsensusState)
    (run : BlockRun consts domain key (genesis.initialState positive) s) (block : Block) :
    (∀ executed s' checkpoint, ChainStep consts domain key s block executed s' checkpoint →
      s.epocher.isLastBlockOfEpoch block.height = true → s'.Representable → s'.RoundTrips) ∧
    (block.height = s.latestHeight + 1 →
      s.epocher.isPenultimateBlockOfEpoch block.height = true →
      block.withdrawals = s.expectedWithdrawals block →
      ∀ live, s.toLiveState.applyBlock consts domain block = some live → s.toStateData.Fits →
        (s.withLive live).Representable → (s.withLive live).RoundTrips) := by
  have checked := Genesis.valid_of_validate valid
  constructor
  · intro executed s' checkpoint step last representable
    exact roundTrips_boundary checked stake run step last representable
  · intro height penultimate withdrawals live applied fits representable
    exact roundTrips_checkpoint checked stake run height penultimate withdrawals applied fits
      representable

attribute [local instance] Crypto.accepting

/-- A genesis file with two validators, whose chain processes one deposit in an epoch. -/
def busyGenesis : Genesis :=
  { smallGenesis [⟨zeroKey, zeroBlsKey, FixedBytes.zero 20⟩,
      ⟨⟨secondKey, rfl⟩, secondBlsKey, FixedBytes.zero 20⟩] with maxDepositsPerEpoch := 1 }

theorem validate_busyGenesis : busyGenesis.validate = .ok () := by decide +kernel

/-- The first block has two deposits, an exit of the second validator and a lower minimum stake. -/
def busyBlock (height : Nat) : Block :=
  { plainBlock height with
    executionRequests :=
      if height = 1 then
        [0 :: depositChunk 2 40 ++ depositChunk 3 40, withdrawalEntry 1 0, minimumStakeRequest 31]
      else [] }

/-- The states of a first epoch: before the penultimate block, and after the boundary. -/
def busyEpoch : Option (ConsensusState × LiveState × ConsensusState × ConsensusState) := do
  let consts : ProtocolConsts := ⟨2, 2⟩
  let before ← ((List.range 7).map fun index => busyBlock (index + 1)).foldlM
    (fun s block => (s.advance consts zeroChunk zeroKey block).map Prod.fst)
    (busyGenesis.initialState (by decide))
  let live ← before.toLiveState.applyBlock consts zeroChunk (busyBlock 8)
  let after ← (before.advance consts zeroChunk zeroKey (busyBlock 8)).map Prod.fst
  let crossed ← (after.advance consts zeroChunk zeroKey (busyBlock 9)).map Prod.fst
  return (before, live, after, crossed)

/-- One deposit is taken and one waits, one validator leaves and one joins, and the parameter is
queued at the penultimate block and applied at the boundary. -/
theorem state_round_trip_busyEpoch :
    ∃ before live after crossed, busyEpoch = some (before, live, after, crossed) ∧
      [live.depositQueue.length, live.withdrawalQueue.withdrawals.length,
        live.protocolParamChanges.length, live.removedValidators.length,
        live.addedValidators.size, live.validatorAccounts.size] = [1, 1, 1, 1, 1, 3] ∧
      (before.withLive live).RoundTrips ∧
      [crossed.epoch, crossed.depositQueue.length, crossed.withdrawalQueue.withdrawals.length,
        crossed.validatorMinimumStake] = [1, 1, 1, 31] ∧
      crossed.RoundTrips := by
  have computed : busyEpoch.map (fun (before, live, after, crossed) =>
      ((before.latestHeight, after.latestHeight),
        (before.epocher.isPenultimateBlockOfEpoch 8, after.epocher.isLastBlockOfEpoch 9),
        decide ((busyBlock 8).withdrawals = before.expectedWithdrawals (busyBlock 8) ∧ before.Fits ∧
          (before.withLive live).Representable ∧ crossed.Representable),
        [live.depositQueue.length, live.withdrawalQueue.withdrawals.length,
          live.protocolParamChanges.length, live.removedValidators.length,
          live.addedValidators.size, live.validatorAccounts.size],
        [crossed.epoch, crossed.depositQueue.length, crossed.withdrawalQueue.withdrawals.length,
          crossed.validatorMinimumStake])) =
      some ((7, 8), (true, true), true, [1, 1, 1, 1, 1, 3], [1, 1, 1, 31]) := by
    decide +kernel
  obtain ⟨⟨_, _, _, _⟩, epoch, facts⟩ := Option.map_eq_some_iff.mp computed
  simp only [Prod.mk.injEq, decide_eq_true_eq] at facts
  obtain ⟨⟨height, height'⟩, ⟨penultimate, last⟩, ⟨withdrawals, fits, representable,
    representable'⟩, held, kept⟩ := facts
  have unfolded := epoch
  unfold busyEpoch at unfolded
  obtain ⟨before, early, rest⟩ := Option.bind_eq_some_iff.mp unfolded
  obtain ⟨live, applied, rest⟩ := Option.bind_eq_some_iff.mp rest
  obtain ⟨_, first, rest⟩ := Option.bind_eq_some_iff.mp rest
  obtain ⟨_, second, same⟩ := Option.bind_eq_some_iff.mp rest
  obtain ⟨rfl, rfl, rfl, rfl⟩ : before = _ ∧ live = _ ∧ _ ∧ _ := by simpa using same
  obtain ⟨⟨after, checkpoint⟩, advanced, rfl⟩ := Option.map_eq_some_iff.mp first
  obtain ⟨⟨crossed, checkpoint'⟩, advanced', rfl⟩ := Option.map_eq_some_iff.mp second
  obtain ⟨executed, step⟩ := chainStep_of_advance advanced
  obtain ⟨executed', step'⟩ := chainStep_of_advance advanced'
  have run := blockRun_of_advance early
  have run' := run.tail ⟨busyBlock 8, executed, checkpoint, step⟩
  have penultimateTrip := (state_round_trip busyGenesis (by decide) validate_busyGenesis
    (by decide) ⟨2, 2⟩ zeroChunk ⟨zeroChunk, rfl⟩ before run (busyBlock 8)).2
  have boundaryTrip := (state_round_trip busyGenesis (by decide) validate_busyGenesis
    (by decide) ⟨2, 2⟩ zeroChunk ⟨zeroChunk, rfl⟩ after run' (busyBlock 9)).1
  refine ⟨before, live, after, crossed, epoch, held,
    penultimateTrip (by rw [height]; rfl) penultimate withdrawals live applied fits representable,
    kept,
    boundaryTrip executed' crossed checkpoint' step' last representable'⟩

end Summit
