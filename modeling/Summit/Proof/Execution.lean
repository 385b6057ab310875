/-
**Where a block leaves the chain.**

The requests of an epoch change accounts and queues, but not where the state stands on the chain:
its epoch, height, head, fork choice and schedule (`Place`). `executed` is what a block does to a
state once the execution layer accepts it; the answers of the execution layer decide only whether it
is done (`executeBlock_eq_applied`), and the new place is that of the block (`place_executed`). The
boundary moves on to the next epoch and touches the schedule only from the second epoch after it on
(`enters_boundary`).
-/

import Summit.Proof.Boundary
import Summit.Proof.Commitment
import Summit.Proof.Epocher
import Summit.Proof.Payouts

set_option linter.unusedSectionVars false

namespace Summit

section Execution

variable [Crypto]

/-! ### Places -/

/-- Where a state stands on the chain. -/
structure Place where
  epoch : Nat
  view : Nat
  latestHeight : Nat
  headDigest : Digest
  forkchoice : ForkchoiceState
  epocher : DynamicEpocher
  epochGenesisHash : Bytes32

def StateData.place (data : StateData) : Place where
  epoch := data.epoch
  view := data.view
  latestHeight := data.latestHeight
  headDigest := data.headDigest
  forkchoice := data.forkchoice
  epocher := data.epocher
  epochGenesisHash := data.epochGenesisHash

/-- The data differ at most in what the requests and the payouts of a block change. -/
def SameFrame (data data' : StateData) : Prop :=
  data' =
    { data with
      depositQueue := data'.depositQueue
      withdrawalQueue := data'.withdrawalQueue
      protocolParamChanges := data'.protocolParamChanges
      validatorAccounts := data'.validatorAccounts
      addedValidators := data'.addedValidators
      removedValidators := data'.removedValidators
      pendingActiveValidatorExits := data'.pendingActiveValidatorExits
      pendingExecutionRequests := data'.pendingExecutionRequests }

section Frame

variable {data mid data' : StateData}

theorem SameFrame.trans (one : SameFrame data mid) (two : SameFrame mid data') :
    SameFrame data data' := by
  rw [SameFrame] at one two ⊢
  rw [two, one]

theorem SameSettings.frame (same : SameSettings data data') : SameFrame data data' := by
  rw [SameFrame, same]

theorem SameFrame.place (same : SameFrame data data') : data'.place = data.place := by
  rw [same]
  rfl

end Frame

theorem frame_processBufferedRequests (s : LiveState) (domain : Digest) (warmUp delay : Nat) :
    SameFrame s.toStateData (s.processBufferedRequests domain warmUp delay).toStateData := by
  have processed : Transfers warmUp delay _ _ _ _ := transfers_processBufferedRequests domain s
  obtain ⟨_, moves, -⟩ := processed
  have staged : SameFrame s.toStateData s.stagedBatch.toStateData := by
    rw [data_stagedBatch]
    rfl
  exact staged.trans moves.settings.frame

theorem frame_enforceMinimumStake (s : LiveState) :
    SameFrame s.toStateData s.enforceMinimumStake.toStateData := by
  rcases enforceMinimumStake_cases s with ⟨same, -⟩ | ⟨-, same⟩ | ⟨-, removals, -⟩
  · rw [same]
    rfl
  · rw [same, LiveState.data_setProtocolParamChanges]
    rfl
  · exact removals.settings.1.frame

theorem frame_payIndex (minStake : Nat) (batch : LiveState × Bool) (index : Nat) :
    SameFrame batch.1.toStateData (LiveState.payIndex minStake batch index).1.toStateData := by
  cases popped : batch.1.withdrawalQueue.popByIndex index with
  | none =>
    rw [LiveState.payIndex, popped]
    rfl
  | some pair =>
    rw [data_payIndex popped]
    rfl

theorem frame_payDue (s : LiveState) (epoch : Nat) :
    SameFrame s.toStateData (s.payDue epoch).toStateData := by
  rw [LiveState.payDue, LiveState.data_flushWithdrawals]
  exact Run.invariant_foldl
    (P := fun batch : LiveState × Bool => SameFrame s.toStateData batch.1.toStateData)
    (fun batch index _ same => same.trans (frame_payIndex _ batch index)) rfl

variable {consts : ProtocolConsts} {domain digest : Digest} {block : Block} {s s' : LiveState}
  {key : PublicKey} {checkpoint : Option Checkpoint} {schedule : Bytes32}

/-- **The requests and payouts of a block** leave the frame of the state alone. -/
theorem frame_processExecutionRequests
    (result : s.processExecutionRequests consts domain block = some s') :
    SameFrame s.toStateData s'.toStateData := by
  unfold LiveState.processExecutionRequests at result
  dsimp only at result
  generalize made : (if s.epocher.isPenultimateBlockOfEpoch block.height = true then
    (s.processBufferedRequests domain consts.validatorNumWarmUpEpochs
      consts.validatorWithdrawalNumEpochs).enforceMinimumStake else s) = processed at result
  have same : SameFrame s.toStateData processed.toStateData := by
    rw [← made]
    split
    · exact (frame_processBufferedRequests s domain _ _).trans (frame_enforceMinimumStake _)
    · rfl
  split at result
  · rw [LiveState.applyWithdrawalPayouts, Option.ite_none_left_eq_some] at result
    rw [← Option.some.inj result.2]
    exact same.trans (frame_payDue _ _)
  · rw [← Option.some.inj result]
    exact same

theorem place_applyBlock (result : s.applyBlock consts domain block = some s') :
    s'.place =
      { s.place with
        view := block.view
        latestHeight := block.height
        headDigest := block.digest
        forkchoice := { s.forkchoice with headBlockHash := block.ethBlockHash } } := by
  obtain ⟨processed, run, rfl⟩ := Option.map_eq_some_iff.mp result
  have same := (frame_processExecutionRequests run).place
  rw [LiveState.data_bufferExecutionRequests, LiveState.data_setForkchoiceHead] at same
  have step : (((processed.setLatestHeight block.height).setView block.view).setHeadDigest
      block.digest).place =
      { processed.place with
        view := block.view, latestHeight := block.height, headDigest := block.digest } := rfl
  rw [step, same]
  rfl

/-! ### Execution -/

namespace ConsensusState

/-- What a block does to a state once the execution layer accepts it. -/
def executed (consts : ProtocolConsts) (domain : Digest) (s : ConsensusState) (block : Block) :
    Option ConsensusState :=
  if block.epoch = s.epoch ∧ block.withdrawals = s.expectedWithdrawals block then
    (s.toLiveState.applyBlock consts domain block).map fun live =>
      (s.withLive live).finishBlock block
  else none

end ConsensusState

/-- The execution layer accepts a block and the fork choice that is sent for it. -/
def Engine.Accepts (engine : Engine) (forkFinalized : Option Bytes32) (block : Block) : Prop :=
  engine.checkPayload block = some .valid ∧
    engine.commitHash
      { headBlockHash := block.ethBlockHash
        safeBlockHash := forkFinalized.getD block.ethBlockHash
        finalizedBlockHash := forkFinalized.getD block.ethBlockHash } = some .valid

section

variable {engine : Engine} {consts : ProtocolConsts} {domain : Digest}
  {forkFinalized : Option Bytes32} {s s' : ConsensusState} {block : Block}

/-- **A block is applied** when the execution layer accepts it and its checks pass. -/
theorem executeBlock_eq_applied :
    s.executeBlock engine consts domain forkFinalized block = .applied s' ↔
      engine.Accepts forkFinalized block ∧ s.executed consts domain block = some s' := by
  rw [ConsensusState.executeBlock, ConsensusState.executed, Engine.Accepts]
  by_cases epoch : block.epoch = s.epoch
  case neg => simp [epoch]
  rw [if_neg (not_not.mpr epoch)]
  cases engine.checkPayload block with
  | none => simp
  | some status =>
    cases status
    case valid =>
      dsimp only
      by_cases withdrawals : block.withdrawals = s.expectedWithdrawals block
      case neg => simp [withdrawals]
      rw [if_neg (not_not.mpr withdrawals), if_pos ⟨epoch, withdrawals⟩]
      cases engine.commitHash _ with
      | none => simp
      | some status =>
        cases status
        case valid => cases s.toLiveState.applyBlock consts domain block <;> simp
        all_goals simp
    all_goals simp

theorem executed_epoch (result : s.executed consts domain block = some s') :
    block.epoch = s.epoch := by
  rw [ConsensusState.executed, Option.ite_none_right_eq_some] at result
  exact result.1.1

/-- **An executed block** stands where the block says, with a settled fork choice. -/
theorem place_executed (result : s.executed consts domain block = some s') :
    s'.place =
      { epoch := s.epoch
        view := block.view
        latestHeight := block.height
        headDigest := block.digest
        forkchoice := ⟨block.ethBlockHash, block.ethBlockHash, block.ethBlockHash⟩
        epocher := s.epocher
        epochGenesisHash := s.epochGenesisHash } := by
  rw [ConsensusState.executed, Option.ite_none_right_eq_some] at result
  obtain ⟨live, applied, rfl⟩ := Option.map_eq_some_iff.mp result.2
  have same := place_applyBlock applied
  have kept : ((s.withLive live).withCheckpoint block).place = live.place := by
    unfold ConsensusState.withCheckpoint
    split <;> rfl
  have step : ((s.withLive live).finishBlock block).place =
      { ((s.withLive live).withCheckpoint block).place with
        forkchoice :=
          ⟨((s.withLive live).withCheckpoint block).place.forkchoice.headBlockHash,
            ((s.withLive live).withCheckpoint block).place.forkchoice.headBlockHash,
            ((s.withLive live).withCheckpoint block).place.forkchoice.headBlockHash⟩ } := rfl
  rw [step, kept, same]
  rfl

theorem head_executed (result : s.executed consts domain block = some s') :
    s'.latestHeight = block.height ∧ s'.headDigest = block.digest :=
  ⟨congrArg Place.latestHeight (place_executed result),
    congrArg Place.headDigest (place_executed result)⟩

end

/-! ### The boundary -/

open DynamicEpocher in
/-- The next epoch is entered, and the schedule is the same up to the second epoch after. -/
structure Enters (before after : Place) : Prop where
  epoch : after.epoch = before.epoch + 1
  current : after.epocher.currentEpoch = before.epoch + 1
  height : after.latestHeight = before.latestHeight
  head : after.headDigest = before.headDigest
  scheduled : before.epocher.Scheduled → before.epocher.currentEpoch = before.epoch →
    after.epocher.Scheduled ∧ ∀ epoch ≤ before.epoch + 2,
      firstHeight after.epocher.newestFirst epoch = firstHeight before.epocher.newestFirst epoch

/-- A parameter that is applied leaves the schedule alone, or updates the length of an epoch. -/
theorem epocher_applyParam {param : ProtocolParam} (result : s.applyParam param = some s') :
    s'.epocher = s.epocher ∨ ∃ (length : Nat) (positive : 0 < length),
      param = .epochLength length ∧ s.epocher.updateLength length positive = some s'.epocher := by
  cases param with
  | epochLength length =>
    obtain ⟨positive, epocher, update, rfl⟩ := LiveState.applyParam_epochLength result
    exact Or.inr ⟨length, positive, rfl, update⟩
  | observersPerValidator value => exact Or.inl (LiveState.applyParam_observers result ▸ rfl)
  | invalidDepositTax value =>
    rcases LiveState.applyParam_tax result with rfl | ⟨-, rfl⟩ <;> exact Or.inl rfl
  | _ => exact Or.inl (Option.some.inj result ▸ rfl)

open DynamicEpocher in
/-- The queued parameters change the schedule only beyond the epoch after the next. -/
theorem scheduled_applyParams {params : List ProtocolParam}
    (run : params.foldlM LiveState.applyParam s = some s') (scheduled : s.epocher.Scheduled) :
    s'.epocher.Scheduled ∧ s'.epocher.currentEpoch = s.epocher.currentEpoch ∧
      ∀ epoch ≤ s.epocher.currentEpoch + 2,
        firstHeight s'.epocher.newestFirst epoch = firstHeight s.epocher.newestFirst epoch := by
  induction params generalizing s with
  | nil =>
    obtain rfl := Option.some.inj run
    exact ⟨scheduled, rfl, fun _ _ => rfl⟩
  | cons param params ih =>
    obtain ⟨mid, first, later⟩ := Run.foldlM_cons_some run
    have step : mid.epocher.Scheduled ∧ mid.epocher.currentEpoch = s.epocher.currentEpoch ∧
        ∀ epoch ≤ s.epocher.currentEpoch + 2,
          firstHeight mid.epocher.newestFirst epoch = firstHeight s.epocher.newestFirst epoch := by
      rcases epocher_applyParam first with same | ⟨length, positive, -, update⟩
      · rw [same]
        exact ⟨scheduled, rfl, fun _ _ => rfl⟩
      · obtain ⟨scheduled', current, kept, -⟩ := scheduled.of_updateLength update
        exact ⟨scheduled', current, kept⟩
    obtain ⟨scheduled', current, kept⟩ := step
    obtain ⟨scheduled'', current', kept'⟩ := ih later scheduled'
    exact ⟨scheduled'', current'.trans current, fun epoch visible =>
      (kept' epoch (by omega)).trans (kept epoch visible)⟩

/-- Where the boundary leaves the chain; `stored` is the state with the queued parameters. -/
theorem place_boundary (result : s.boundary key digest = some (s', checkpoint)) :
    ∃ stored : LiveState, s.rejectInvalidValidatorCountChanges.protocolParamChanges.foldlM
        LiveState.applyParam s.rejectInvalidValidatorCountChanges = some stored ∧
      s'.place =
        { s.place with
          epoch := s.epoch + 1
          view := 0
          epocher := stored.epocher.advanceEpoch (s.epoch + 1)
          epochGenesisHash := digest } := by
  obtain ⟨changed, moved, applied, transition, rfl⟩ := boundary_eq_some result
  have same := (applyProtocolParameterChanges_stores applied).1
  have same' := (restatus_applyCommitteeTransition transition).1
  obtain ⟨stored, run, rfl⟩ := Option.map_eq_some_iff.mp applied
  refine ⟨stored, run, ?_⟩
  have place : moved.1.place = { s.place with epocher := stored.epocher } := by
    rw [same', same]
    rfl
  have entered : (moved.1.takePendingCheckpoint.2.enterNextEpoch digest).place =
      { moved.1.place with
        epoch := moved.1.place.epoch + 1
        view := 0
        epocher := moved.1.place.epocher.advanceEpoch (moved.1.place.epoch + 1)
        epochGenesisHash := digest } := by
    rw [data_enterNextEpoch]
    rfl
  rw [entered, place]
  rfl

/-- **The boundary enters the next epoch.** -/
theorem enters_boundary (result : s.boundary key digest = some (s', checkpoint)) :
    Enters s.place s'.place := by
  obtain ⟨stored, run, place⟩ := place_boundary result
  rw [place]
  refine ⟨rfl, rfl, rfl, rfl, fun scheduled current => ?_⟩
  have start : s.rejectInvalidValidatorCountChanges.epocher = s.epocher := by
    rw [LiveState.data_rejectInvalidValidatorCountChanges]
  obtain ⟨scheduled', current', kept⟩ := scheduled_applyParams run (start ▸ scheduled)
  rw [start] at current' kept
  have current : s.epocher.currentEpoch = s.epoch := current
  have next := scheduled'.advanceEpoch
  rw [current', current] at next
  exact ⟨next, fun epoch visible => kept epoch (by rw [current]; exact visible)⟩

namespace ConsensusState

/-- The state with head, safe and finalized block the same. -/
def settledHead (s : ConsensusState) : ConsensusState :=
  s.withLive (s.toLiveState.setForkchoiceSafeAndFinalized s.forkchoice.headBlockHash)

end ConsensusState

/-- What finalization makes of an executed state, in its two cases. -/
theorem finalizeExecuted_eq_some {s s' : ConsensusState}
    (result : s.finalizeExecuted key block = some (s', checkpoint)) :
    s.epocher.isLastBlockOfEpoch block.height = false ∧ s' = s.settledHead ∧ checkpoint = none ∨
      s.epocher.isLastBlockOfEpoch block.height = true ∧ ∃ live,
        s.settledHead.toLiveState.boundary key block.digest = some (live, checkpoint) ∧
          s' = (s.settledHead.withLive live).captureStateRoot block.blockNumber := by
  unfold ConsensusState.finalizeExecuted at result
  dsimp only at result
  split at result
  · next last =>
    obtain ⟨⟨live, stored⟩, crossing, same⟩ := Option.map_eq_some_iff.mp result
    obtain ⟨rfl, rfl⟩ := Prod.mk.inj same
    exact Or.inr ⟨last, live, crossing, rfl⟩
  · next inside =>
    obtain ⟨rfl, rfl⟩ := Prod.mk.inj (Option.some.inj result)
    exact Or.inl ⟨Bool.eq_false_of_not_eq_true inside, rfl, rfl⟩

/-- **What finalization does to an executed state**: nothing but settle the fork choice, or enter the
next epoch. -/
theorem finalizeExecuted_cases {s s' : ConsensusState}
    (result : s.finalizeExecuted key block = some (s', checkpoint)) :
    s.epocher.isLastBlockOfEpoch block.height = false ∧ s' = s.settledHead ∧ checkpoint = none ∨
      s.epocher.isLastBlockOfEpoch block.height = true ∧ Enters s.settledHead.place s'.place := by
  refine (finalizeExecuted_eq_some result).imp_right ?_
  rintro ⟨last, live, crossing, rfl⟩
  exact ⟨last, (enters_boundary crossing :)⟩

theorem head_finalizeExecuted {s s' : ConsensusState}
    (result : s.finalizeExecuted key block = some (s', checkpoint)) :
    s'.latestHeight = s.latestHeight ∧ s'.headDigest = s.headDigest := by
  rcases finalizeExecuted_cases result with ⟨-, rfl, -⟩ | ⟨-, enters⟩
  · exact ⟨rfl, rfl⟩
  · exact ⟨enters.height, enters.head⟩

theorem headBlockHash_finalizeExecuted {s s' : ConsensusState}
    (result : s.finalizeExecuted key block = some (s', checkpoint)) :
    s'.forkchoice.headBlockHash = s.forkchoice.headBlockHash := by
  rcases finalizeExecuted_eq_some result with ⟨-, rfl, -⟩ | ⟨-, live, crossing, rfl⟩
  · rfl
  · obtain ⟨_, -, place⟩ := place_boundary crossing
    have kept : live.forkchoice = s.settledHead.forkchoice := congrArg Place.forkchoice place
    show live.forkchoice.headBlockHash = _
    rw [kept]
    rfl

/-! ### Commitment -/

open SszStateTree

theorem inSync_processExecutionRequests (sync : s.InSync false false schedule)
    (result : s.processExecutionRequests consts domain block = some s') :
    s'.InSync false false schedule := by
  unfold LiveState.processExecutionRequests at result
  dsimp only at result
  generalize made : (if s.epocher.isPenultimateBlockOfEpoch block.height = true then
    (s.processBufferedRequests domain consts.validatorNumWarmUpEpochs
      consts.validatorWithdrawalNumEpochs).enforceMinimumStake else s) = processed at result
  have synced : processed.InSync false false schedule := by
    rw [← made]
    split
    · exact (sync.processBufferedRequests _ _ _).enforceMinimumStake
    · exact sync
  split at result
  · exact synced.applyWithdrawalPayouts result
  · exact Option.some.inj result ▸ synced

theorem inSync_applyBlock (sync : s.InSync false false schedule)
    (result : s.applyBlock consts domain block = some s') : s'.InSync false false schedule := by
  obtain ⟨processed, run, rfl⟩ := Option.map_eq_some_iff.mp result
  have head := sync.scalar (s.setForkchoiceHead block.ethBlockHash) (by decide) rfl rfl rfl
  have synced := inSync_processExecutionRequests
    (head.bufferExecutionRequests block.executionRequests) run
  have height := synced.scalar (processed.setLatestHeight block.height) (by decide) rfl rfl rfl
  have view := height.scalar (.setView _ block.view) (by decide) rfl rfl rfl
  exact view.scalar _ (by decide) rfl rfl rfl

theorem ConsensusState.Committed.captureStateRoot {s : ConsensusState} (committed : s.Committed)
    (elBlockNumber : Nat) : (s.captureStateRoot elBlockNumber).Committed := by
  obtain ⟨schedule, sync⟩ := committed
  exact ⟨_, LiveState.InSync.refreshSchedule sync⟩

/-- A block ends in a capture. -/
theorem captures_executed {s s' : ConsensusState} (committed : s.Committed)
    (result : s.executed consts domain block = some s') :
    ∃ before : ConsensusState, before.Committed ∧
      s' = before.captureStateRoot block.blockNumber := by
  rw [ConsensusState.executed, Option.ite_none_right_eq_some] at result
  obtain ⟨live, applied, rfl⟩ := Option.map_eq_some_iff.mp result.2
  obtain ⟨schedule, sync⟩ := committed
  have synced := inSync_applyBlock sync applied
  have kept : ((s.withLive live).withCheckpoint block).toLiveState.InSync false false schedule := by
    unfold ConsensusState.withCheckpoint
    split
    · exact synced.scalar _ (by decide) rfl rfl rfl
    · exact synced
  exact ⟨_, ⟨schedule, kept.setForkchoiceSafeAndFinalized _⟩, rfl⟩

theorem committed_executed {s s' : ConsensusState} (committed : s.Committed)
    (result : s.executed consts domain block = some s') : s'.Committed := by
  obtain ⟨before, holds, rfl⟩ := captures_executed committed result
  exact holds.captureStateRoot _

theorem inSync_enterNextEpoch (sync : s.InSync false false schedule) (digest : Digest) :
    (s.enterNextEpoch digest).InSync false false schedule := by
  have epoch := sync.scalar (s.setEpoch (s.epoch + 1)) (by decide) rfl rfl rfl
  have rest (t : LiveState) (synced : t.InSync false false schedule) :
      (((t.setView 0).setEpocher (s.epocher.advanceEpoch (s.epoch + 1))).setEpochGenesisHash
        digest).InSync false false schedule := by
    have view := synced.scalar (t.setView 0) (by decide) rfl rfl rfl
    exact (view.setEpocher _).scalar _ (by decide) rfl rfl rfl
  have cleared := (rest _ epoch).removeAddedValidatorsForEpoch (s.epoch + 1)
  unfold LiveState.enterNextEpoch
  dsimp only
  split
  · exact cleared.setRemovedValidators []
  · exact cleared

theorem committed_boundary {s : ConsensusState} {live : LiveState} (committed : s.Committed)
    (result : s.toLiveState.boundary key digest = some (live, checkpoint)) :
    (s.withLive live).Committed := by
  obtain ⟨schedule, sync⟩ := committed
  obtain ⟨changed, moved, applied, transition, rfl⟩ := boundary_eq_some result
  have synced := (sync.applyProtocolParameterChanges applied).applyCommitteeTransition transition
  have taken := synced.scalar (moved.1.setPendingCheckpoint none) (by decide) rfl rfl rfl
  exact ⟨schedule, inSync_enterNextEpoch taken digest⟩

theorem committed_settledHead {s : ConsensusState} (committed : s.Committed) :
    s.settledHead.Committed := by
  obtain ⟨schedule, sync⟩ := committed
  exact ⟨schedule, sync.setForkchoiceSafeAndFinalized _⟩

theorem committed_finalizeExecuted {s s' : ConsensusState} (committed : s.Committed)
    (result : s.finalizeExecuted key block = some (s', checkpoint)) : s'.Committed := by
  have settled := committed_settledHead committed
  rcases finalizeExecuted_eq_some result with ⟨-, rfl, -⟩ | ⟨-, live, crossing, rfl⟩
  · exact settled
  · exact (committed_boundary settled crossing).captureStateRoot _

theorem LiveState.eq_of_data (data : s.toStateData = s'.toStateData) (tree : s.sszTree = s'.sszTree) :
    s = s' := by
  obtain ⟨data_, tree_, counted⟩ := s
  obtain ⟨data_', tree_', counted'⟩ := s'
  obtain rfl : data_ = data_' := data
  obtain rfl : tree_ = tree_' := tree
  rfl

/-- An executed state is settled already. -/
theorem settledHead_executed {s s' : ConsensusState} (committed : s.Committed)
    (result : s.executed consts domain block = some s') : s'.settledHead = s' := by
  have forkchoice : s'.forkchoice =
      ⟨block.ethBlockHash, block.ethBlockHash, block.ethBlockHash⟩ :=
    congrArg Place.forkchoice (place_executed result)
  obtain ⟨schedule, sync⟩ := committed_executed committed result
  have again := sync.setForkchoiceSafeAndFinalized s'.forkchoice.headBlockHash
  have data : (s'.toLiveState.setForkchoiceSafeAndFinalized
      s'.forkchoice.headBlockHash).toStateData = s'.toStateData := by
    rw [LiveState.data_setForkchoiceSafeAndFinalized, forkchoice]
    rw [← forkchoice]
  have tree : (s'.toLiveState.setForkchoiceSafeAndFinalized
      s'.forkchoice.headBlockHash).sszTree = s'.sszTree := by
    rw [LiveState.InSync, data] at again
    exact SszStateTree.InSync.unique again sync
  have live := LiveState.eq_of_data data tree
  rw [ConsensusState.settledHead, live]
  rfl

end Execution

end Summit
