/-
**What voters accept, the finalizer can execute.**

`handleVerify` accepts a new block when it passes every check of `Acceptable`. Two of them carry over to
the execution of the block: its epoch is that of the parent's state, and its withdrawals are the
payouts of that state when the block ends the epoch and none otherwise. Whether it does is decided on
three schedules, that of the application, the canonical one of the aux data and the one of the
parent's state; they agree on every height up to the end of the parent's epoch
(`containing_eq_of_agree`), and a block beyond it is not accepted. A block with the right epoch and
withdrawals executes (`exists_executed`), so an accepted block does (`accepted_executes`).
-/

import Summit.Lib.Checks
import Summit.Model.Application
import Summit.Proof.ForkTree

set_option linter.unusedSectionVars false

namespace Summit

open Bytes

/-! ### Schedules that agree -/

namespace DynamicEpocher

variable {a b : DynamicEpocher} {epoch height : Nat}

/-- A height before the end of an epoch lies where any schedule that agrees so far places it. -/
theorem containing_eq_some_of_agree {info : EpochInfo} (scheduled : a.Scheduled)
    (scheduled' : b.Scheduled) (visible : epoch ≤ b.currentEpoch + 1)
    (agree : ∀ other ≤ epoch + 1,
      firstHeight a.newestFirst other = firstHeight b.newestFirst other)
    (before : height < firstHeight a.newestFirst (epoch + 1))
    (found : a.containing height = some info) : b.containing height = some info := by
  obtain ⟨same, -, within, low, high⟩ := scheduled.containing_eq_some_iff.mp found
  obtain ⟨first, last, fits⟩ := (bounds_eq_some_iff scheduled.linked).mp within
  change firstHeight a.newestFirst info.epoch = info.first at first
  change firstHeight a.newestFirst (info.epoch + 1) = info.last + 1 at last
  have old : info.epoch ≤ epoch := by
    have started : firstHeight a.newestFirst info.epoch < firstHeight a.newestFirst (epoch + 1) := by
      omega
    have := (firstHeight_strictMono scheduled.linked).lt_iff_lt.mp started
    omega
  refine scheduled'.containing_eq_some_iff.mpr ⟨same, by omega, ?_, low, high⟩
  refine (bounds_eq_some_iff scheduled'.linked).mpr ⟨?_, ?_, fits⟩
  · exact (agree info.epoch (by omega)).symm.trans first
  · exact (agree (info.epoch + 1) (by omega)).symm.trans last

theorem containing_eq_of_agree (scheduled : a.Scheduled) (scheduled' : b.Scheduled)
    (visible : epoch ≤ a.currentEpoch + 1) (visible' : epoch ≤ b.currentEpoch + 1)
    (agree : ∀ other ≤ epoch + 1,
      firstHeight a.newestFirst other = firstHeight b.newestFirst other)
    (before : height < firstHeight a.newestFirst (epoch + 1)) :
    a.containing height = b.containing height := by
  refine Option.ext fun info => ⟨fun found => ?_, fun found => ?_⟩
  · exact containing_eq_some_of_agree scheduled scheduled' visible' agree before found
  · refine containing_eq_some_of_agree scheduled' scheduled visible
      (fun other near => (agree other near).symm) ?_ found
    rw [← agree (epoch + 1) le_rfl]
    exact before

/-- **The last height** of a visible epoch comes right before the next one. -/
theorem Scheduled.last_eq_some_iff {last : Nat} (scheduled : a.Scheduled) :
    a.last epoch = some last ↔ epoch ≤ a.currentEpoch + 1 ∧
      firstHeight a.newestFirst (epoch + 1) = last + 1 ∧ last ≤ u64Max := by
  rw [DynamicEpocher.last, DynamicEpocher.epochBounds, Option.map_eq_some_iff]
  constructor
  · rintro ⟨⟨first, last⟩, within, rfl⟩
    rw [Option.ite_none_left_eq_some] at within
    exact ⟨Nat.le_of_not_lt within.1, ((bounds_eq_some_iff scheduled.linked).mp within.2).2⟩
  · rintro ⟨visible, ends⟩
    refine ⟨(firstHeight a.newestFirst epoch, last), ?_, rfl⟩
    rw [Option.ite_none_left_eq_some]
    exact ⟨Nat.not_lt_of_le visible, (bounds_eq_some_iff scheduled.linked).mpr ⟨rfl, ends⟩⟩

theorem not_penultimate_of_last (last : a.isLastBlockOfEpoch height = true) :
    a.isPenultimateBlockOfEpoch height = false := by
  unfold isLastBlockOfEpoch at last
  unfold isPenultimateBlockOfEpoch
  cases found : a.containing height with
  | none => rfl
  | some info =>
    have same : info.height = height := by
      rw [containing] at found
      obtain ⟨segment, -, found⟩ := Option.bind_eq_some_iff.mp found
      obtain ⟨epoch, -, found⟩ := Option.bind_eq_some_iff.mp found
      rw [Option.ite_none_left_eq_some] at found
      obtain ⟨pair, -, made⟩ := Option.bind_eq_some_iff.mp found.2
      exact Option.some.inj made ▸ rfl
    rw [found, Option.any_some, decide_eq_true_iff] at last
    rw [Option.any_some, decide_eq_false_iff_not]
    omega

end DynamicEpocher

section Verification

variable [Crypto]

/-! ### Executing a checked block -/

variable {consts : ProtocolConsts} {domain : Digest}

/-- The payouts depend on neither the fork choice nor the buffered requests. -/
theorem processExecutionRequests_isSome {block : Block} {s : LiveState}
    (withdrawals : s.epocher.isLastBlockOfEpoch block.height = true →
      block.withdrawals = s.emitWithdrawalPayouts s.epoch) :
    ∃ s', s.processExecutionRequests consts domain block = some s' := by
  unfold LiveState.processExecutionRequests
  dsimp only
  by_cases last : s.epocher.isLastBlockOfEpoch block.height = true
  · have inside := DynamicEpocher.not_penultimate_of_last last
    rw [inside, if_neg Bool.false_ne_true, if_pos last, LiveState.applyWithdrawalPayouts,
      if_neg (not_not.mpr (withdrawals last).symm)]
    exact ⟨_, rfl⟩
  · generalize made : (if s.epocher.isPenultimateBlockOfEpoch block.height = true then
      (s.processBufferedRequests domain consts.validatorNumWarmUpEpochs
        consts.validatorWithdrawalNumEpochs).enforceMinimumStake else s) = processed
    have same : processed.epocher = s.epocher := by
      have place : processed.place = s.place := by
        rw [← made]
        split
        · exact ((frame_processBufferedRequests s domain _ _).trans
            (frame_enforceMinimumStake _)).place
        · rfl
      exact congrArg Place.epocher place
    rw [same, if_neg last]
    exact ⟨_, rfl⟩

/-- **A block with the right epoch and withdrawals** can be executed. -/
theorem exists_executed {s : ConsensusState} {block : Block} (epoch : block.epoch = s.epoch)
    (withdrawals : block.withdrawals = s.expectedWithdrawals block) :
    ∃ s', s.executed consts domain block = some s' := by
  rw [ConsensusState.executed, if_pos ⟨epoch, withdrawals⟩]
  generalize buffered : (s.toLiveState.setForkchoiceHead block.ethBlockHash).bufferExecutionRequests
    block.executionRequests = live
  have data : live.toStateData = { s.toStateData with
      forkchoice := { s.forkchoice with headBlockHash := block.ethBlockHash }
      pendingExecutionRequests := s.pendingExecutionRequests ++ block.executionRequests } := by
    rw [← buffered, LiveState.data_bufferExecutionRequests, LiveState.data_setForkchoiceHead]
  have processed : ∃ s', live.processExecutionRequests consts domain block = some s' := by
    refine processExecutionRequests_isSome fun last => ?_
    rw [data] at last ⊢
    rw [withdrawals, ConsensusState.expectedWithdrawals, if_pos last]
    rfl
  obtain ⟨next, result⟩ := processed
  rw [LiveState.applyBlock, buffered, result]
  exact ⟨_, rfl⟩

/-! ### The checks of a vote -/

variable [Payloads] {round : Round} {block parent : FullBlock} {signedParentView : Nat}
  {epocher : DynamicEpocher} {auxData : BlockAuxData} {nowMillis maxMessageSizeBytes : Nat}

/-- What is checked of a block that is new. -/
structure Acceptable (round : Round) (block parent : FullBlock) (signedParentView lastInEpoch : Nat)
    (auxData : BlockAuxData) (nowMillis : Nat) : Prop where
  parentView : signedParentViewAgrees round parent signedParentView = true
  inEpoch : block.height ≤ lastInEpoch
  view : block.view = round.view
  epoch : block.epoch = round.epoch
  link : block.parent = parent.digest
  ethParent : block.ethParentHash = parent.ethBlockHash
  height : block.height = parent.height + 1
  later : parent.timestamp < block.timestamp
  soon : block.timestamp ≤ wrappingAdd nowMillis auxData.allowedTimestampFutureMs
  prevHeader : block.header.prevEpochHeaderHash = auxData.headerHash
  number : block.payload.blockNumber = block.height
  millis : block.payloadTimestampMillis = some block.timestamp
  stateRoot : block.header.parentBeaconBlockRoot = auxData.stateRoot
  fees : auxData.treasuryAddress ≠ FixedBytes.zero 20 →
    block.payload.feeRecipient = auxData.treasuryAddress
  checkpoint : block.header.checkpointHash = auxData.checkpointHash.getD zeroChunk
  added : block.header.addedValidators = auxData.addedValidators
  removed : block.header.removedValidators = auxData.removedValidators
  withdrawals : block.payload.withdrawals = auxData.withdrawals
  requests : executionRequestsAscending block.executionRequests = true
  randao : block.payload.prevRandao = zeroChunk
  blobs : block.payload.blobGasUsed = 0

/-- **The vote**: a block of the round's epoch and of a size that can be sent, which is the last block
of the epoch proposed again, or new and verified. -/
theorem handleVerify_eq_true :
    handleVerify round block parent signedParentView epocher auxData nowMillis maxMessageSizeBytes =
        some true ↔
      round.epoch = auxData.epoch ∧ blockSizeLimitViolation block maxMessageSizeBytes = none ∧
        ∃ lastInEpoch, epocher.last auxData.epoch = some lastInEpoch ∧
          (parent.digest = block.digest ∧ block.height = lastInEpoch ∨
            parent.digest ≠ block.digest ∧
              Acceptable round block parent signedParentView lastInEpoch auxData nowMillis) := by
  unfold handleVerify
  by_cases epoch : round.epoch = auxData.epoch
  case neg => simp [epoch]
  rw [if_neg (not_not.mpr epoch)]
  cases size : blockSizeLimitViolation block maxMessageSizeBytes with
  | some pair => simp
  | none =>
  rw [Option.isSome_none, if_neg Bool.false_ne_true, Option.map_eq_some_iff, and_iff_right epoch,
    and_iff_right rfl]
  refine exists_congr fun last => and_congr_right fun _ => ?_
  by_cases again : parent.digest = block.digest
  · simp [again]
  rw [if_neg again]
  simp only [again, false_and, false_or, ne_eq, not_false_iff, true_and, Checks.refuse_eq_true, and_true,
    Bool.not_eq_true', Bool.not_eq_false, not_not, not_lt, not_le, not_and, gt_iff_lt, nonpos_iff_eq_zero]
  constructor
  · rintro ⟨parentView, inEpoch, view, epoch, link, ethParent, height, later, soon, prevHeader,
      number, millis, stateRoot, fees, checkpoint, added, removed, withdrawals, requests, randao,
      blobs⟩
    exact ⟨parentView, inEpoch, view, epoch, link, ethParent, height, later, soon, prevHeader,
      number, millis, stateRoot, fees, checkpoint, added, removed, withdrawals, requests, randao,
      blobs⟩
  · intro checks
    exact ⟨checks.parentView, checks.inEpoch, checks.view, checks.epoch, checks.link,
      checks.ethParent, checks.height, checks.later, checks.soon, checks.prevHeader, checks.number,
      checks.millis, checks.stateRoot, checks.fees, checks.checkpoint, checks.added,
      checks.removed, checks.withdrawals, checks.requests, checks.randao, checks.blobs⟩

/-! ### Aux data -/

namespace Finalizer

variable {env : FinalizerEnv} {auxEnv : AuxEnv} {s later : Finalizer} {height : Nat} {digest : Digest}
  {state : ConsensusState}

/-- A state that the node knows trails the canonical one. -/
theorem InEpoch.stateOf (inEpoch : InEpoch s) (known : s.stateOf height digest = some state) :
    s.canonicalState.Trails state := by
  unfold Finalizer.stateOf at known
  split at known
  · next fork here =>
    obtain rfl := Option.some.inj known
    exact inEpoch.forks height digest fork here
  · rw [Option.ite_none_right_eq_some] at known
    obtain rfl := Option.some.inj known.2
    exact ConsensusState.trails_refl inEpoch.canonical

theorem epoch_auxDataOf (made : s.auxDataOf auxEnv height state = some auxData) :
    auxData.epoch = state.epoch := by
  unfold auxDataOf at made
  split at made
  · obtain ⟨_, -, rfl⟩ := Option.map_eq_some_iff.mp made
    rfl
  · obtain rfl := Option.some.inj made
    rfl

theorem withdrawals_auxDataOf (made : s.auxDataOf auxEnv height state = some auxData) :
    auxData.withdrawals =
      if s.canonicalState.epocher.isLastBlockOfEpoch height = true then
        state.emitWithdrawalPayouts state.epoch
      else [] := by
  unfold auxDataOf at made
  split at made
  · next last =>
    obtain ⟨_, -, rfl⟩ := Option.map_eq_some_iff.mp made
    rw [if_pos last]
  · next inside =>
    obtain rfl := Option.some.inj made
    rw [if_neg inside]

/-- **The live schedule ends the epoch of a known state** where that state does, now and later on. -/
theorem InEpoch.last_eq_some_iff (inEpoch : InEpoch s)
    (known : s.stateOf height digest = some state) (after : Reaches env Anything s later)
    {last : Nat} :
    later.canonicalState.epocher.last state.epoch = some last ↔
      DynamicEpocher.firstHeight state.epocher.newestFirst (state.epoch + 1) = last + 1 ∧
        last ≤ u64Max := by
  have trails := inEpoch.stateOf known
  have low := trails.epoch_le
  have ends := trails.agree (state.epoch + 1) (by omega)
  have pinned : AllPinned state.epoch
      (DynamicEpocher.firstHeight state.epocher.newestFirst (state.epoch + 1)) s := by
    refine ⟨⟨inEpoch.canonical, by omega, ends.symm⟩, fun level other fork here => ?_⟩
    have trails' := inEpoch.forks level other fork here
    have near := trails'.le_epoch
    exact ⟨trails'.onEpoch, by omega,
      (trails'.agree (state.epoch + 1) (by omega)).trans ends.symm⟩
  have later_pinned := (pinned.of_reaches after).canonical
  have visible : state.epoch ≤ later.canonicalState.epocher.currentEpoch + 1 := by
    rw [later_pinned.onEpoch.current]
    exact later_pinned.near
  rw [later_pinned.onEpoch.scheduled.last_eq_some_iff, and_iff_right visible, later_pinned.ends]

/-- **The canonical schedule and that of a known state** agree up to the end of the epoch after the
state's own. -/
theorem InEpoch.isLast_eq (inEpoch : InEpoch s) (known : s.stateOf height digest = some state)
    {child : Nat}
    (before : child < DynamicEpocher.firstHeight state.epocher.newestFirst (state.epoch + 2)) :
    state.epocher.isLastBlockOfEpoch child =
      s.canonicalState.epocher.isLastBlockOfEpoch child := by
  have trails := inEpoch.stateOf known
  have low := trails.epoch_le
  have current := trails.onEpoch.current
  have current' := inEpoch.canonical.current
  have same : state.epocher.containing child = s.canonicalState.epocher.containing child :=
    DynamicEpocher.containing_eq_of_agree trails.onEpoch.scheduled inEpoch.canonical.scheduled
      (by omega) (by omega) (fun other near => trails.agree other near) before
  rw [DynamicEpocher.isLastBlockOfEpoch, DynamicEpocher.isLastBlockOfEpoch, same]

/-- The epoch after that of a known state has not ended at its first height. -/
theorem InEpoch.first_lt (inEpoch : InEpoch s) (known : s.stateOf height digest = some state) :
    DynamicEpocher.firstHeight state.epocher.newestFirst (state.epoch + 1) <
      DynamicEpocher.firstHeight state.epocher.newestFirst (state.epoch + 2) :=
  DynamicEpocher.firstHeight_strictMono (inEpoch.stateOf known).onEpoch.scheduled.linked
    (Nat.lt_add_one _)

end Finalizer

end Verification

open Finalizer

/-- **What honest voters accept, every finalizer can execute.** In every state that deliveries reach,
for every parent that it knows: a new block that is accepted with the aux data of the parent, on the
live schedule of that moment or any later one, passes the epoch check and the withdrawals check of the
parent's state, and is applied when the execution layer accepts it. -/
theorem accepted_executes [Crypto] [Payloads] (env : FinalizerEnv) (start : ConsensusState)
    (on : start.OnEpoch) {s later : Finalizer}
    (reaches : Reaches env Anything (Finalizer.new start) s) (after : Reaches env Anything s later)
    {auxEnv : AuxEnv} {parent block : FullBlock} {auxData : BlockAuxData}
    (answered : s.handleAuxDataMailbox auxEnv (parent.height + 1) parent.digest = some auxData)
    {round : Round} {signedParentView nowMillis maxMessageSizeBytes : Nat}
    (new : parent.digest ≠ block.digest)
    (accepted : handleVerify round block parent signedParentView later.canonicalState.epocher auxData
      nowMillis maxMessageSizeBytes = some true) :
    ∃ state, s.stateOf parent.height parent.digest = some state ∧
      block.toBlock.epoch = state.epoch ∧
      block.toBlock.withdrawals = state.expectedWithdrawals block.toBlock ∧
      ∀ (engine : Engine) (consts : ProtocolConsts) (domain : Digest)
        (forkFinalized : Option Bytes32), engine.Accepts forkFinalized block.toBlock →
        ∃ next, state.executeBlock engine consts domain forkFinalized block.toBlock =
          .applied next := by
  have inEpoch := inEpoch_of_reaches on reaches
  obtain ⟨state, known, made⟩ := Option.bind_eq_some_iff.mp answered
  obtain ⟨roundEpoch, -, last, found, ⟨again, -⟩ | ⟨-, checks⟩⟩ := handleVerify_eq_true.mp accepted
  · exact absurd again new
  have epoch : block.toBlock.epoch = state.epoch :=
    checks.epoch.trans (roundEpoch.trans (epoch_auxDataOf made))
  rw [epoch_auxDataOf made] at found
  have ends := ((inEpoch.last_eq_some_iff known after).mp found).1
  have further := inEpoch.first_lt known
  have height : block.toBlock.height = parent.height + 1 := checks.height
  have within : block.toBlock.height ≤ last := checks.inEpoch
  have withdrawals : block.toBlock.withdrawals = state.expectedWithdrawals block.toBlock := by
    have given : block.toBlock.withdrawals = auxData.withdrawals := checks.withdrawals
    have same : state.epocher.isLastBlockOfEpoch block.toBlock.height =
        s.canonicalState.epocher.isLastBlockOfEpoch (parent.height + 1) := by
      rw [← height]
      exact inEpoch.isLast_eq known (by omega)
    rw [given, withdrawals_auxDataOf made, ConsensusState.expectedWithdrawals, same]
  refine ⟨state, known, epoch, withdrawals, fun engine consts domain forkFinalized accepts => ?_⟩
  obtain ⟨next, executed⟩ := exists_executed epoch withdrawals
  exact ⟨next, executeBlock_eq_applied.mpr ⟨accepts, executed⟩⟩

/-! ### A short chain -/

/-- Stand-ins whose digest depends on the bytes. -/
@[reducible] def Crypto.summing : Crypto :=
  { Crypto.accepting with
    sha256 := fun bytes => FixedBytes.padded 32
      (leBytes 8 (bytes.foldl (fun sum byte => 31 * sum + byte.toNat) 7)) }

attribute [local instance] Crypto.summing Payloads.plain

/-- The payload of a block on another one. -/
def plainPayload (height : Nat) (parentHash : Bytes32) : ExecutionPayload :=
  { Payloads.default with
    parentHash := parentHash, blockNumber := height, timestamp := height
    blockHash := FixedBytes.padded 32 [UInt8.ofNat height] }

/-- A block of the first epoch, a second after its parent. -/
def plainChild (parentDigest parentHash : Bytes32) (height : Nat) (checkpointHash : Option Digest)
    (stateRoot : Bytes32) : FullBlock :=
  FullBlock.computeDigest parentDigest height (1000 * height) (plainPayload height parentHash) [] 0
    height checkpointHash zeroChunk [] [] stateRoot

/-- The block before the last one of the first epoch. -/
def eighthBlock : FullBlock := plainChild zeroChunk zeroChunk 8 none zeroChunk

/-- Its state, with the checkpoint for the last block. -/
def eighthState : ConsensusState :=
  ConsensusState.ofData
    { StateData.new ⟨eighthBlock.ethBlockHash, eighthBlock.ethBlockHash, eighthBlock.ethBlockHash⟩
        32 10 ten_pos 1000 (FixedBytes.zero 20) 4 4 0 4 1 0 4 with
      latestHeight := 8
      headDigest := eighthBlock.digest
      pendingCheckpoint := some ⟨[], zeroChunk⟩ } 8 none

/-- The last block of the first epoch. -/
def ninthBlock : FullBlock :=
  plainChild eighthBlock.digest eighthBlock.ethBlockHash 9 (some zeroChunk) eighthState.stateRoot

def plainAuxEnv : AuxEnv where
  genesisHash := zeroChunk
  nodePublicKey := zeroKey
  mostRecentFinalizedHeader := none

theorem onEpoch_eighthState : eighthState.OnEpoch :=
  ⟨DynamicEpocher.scheduled_new (by decide), rfl⟩

/-- The execution layer accepts everything. -/
def plainEnv : FinalizerEnv where
  engine _ := { checkPayload := fun _ => some .valid, commitHash := fun _ => some .valid }
  protocolConsts := ⟨2, 2⟩
  depositSignatureDomain := zeroChunk
  nodePublicKey := zeroKey
  pendingNotarizedMax := 4

/-- The last block of an epoch is accepted and applied. -/
theorem accepted_executes_last :
    ∃ auxData state next,
      (Finalizer.new eighthState).handleAuxDataMailbox plainAuxEnv (eighthBlock.height + 1)
        eighthBlock.digest = some auxData ∧
      handleVerify ⟨0, 9⟩ ninthBlock eighthBlock 8 eighthState.epocher auxData 9000 100000 =
        some true ∧
      (Finalizer.new eighthState).stateOf eighthBlock.height eighthBlock.digest = some state ∧
      state.executeBlock (plainEnv.engine 0) ⟨2, 2⟩ zeroChunk none ninthBlock.toBlock =
        .applied next := by
  have computed : (((Finalizer.new eighthState).handleAuxDataMailbox plainAuxEnv
      (eighthBlock.height + 1) eighthBlock.digest).bind fun auxData =>
        handleVerify ⟨0, 9⟩ ninthBlock eighthBlock 8 eighthState.epocher auxData 9000 100000) =
      some true := by
    decide +kernel
  obtain ⟨auxData, answered, accepted⟩ := Option.bind_eq_some_iff.mp computed
  obtain ⟨state, known, -, -, executes⟩ := accepted_executes plainEnv eighthState
    onEpoch_eighthState .refl .refl answered (by decide +kernel) accepted
  obtain ⟨next, applied⟩ := executes (plainEnv.engine 0) ⟨2, 2⟩ zeroChunk none ⟨rfl, rfl⟩
  exact ⟨auxData, state, next, answered, accepted, known, applied⟩

end Summit
