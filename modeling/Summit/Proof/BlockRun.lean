/-
**Runs of blocks.**

The finalized chain executes and finalizes one block after the other. A block is a few steps of the
epoch it belongs to: the penultimate one processes the requests and enforces the minimum stake, the
last one makes the payouts and is followed by the boundary, and every block moves the place of the
state, which no step looks at. So a property that the steps of an epoch keep is kept by a block
(`executed_keeps`), and with the boundary by a run (`BlockRun.invariant`). What decides which steps a
block takes is its height: `Underway` places the next block in the current epoch, and when every epoch
has two blocks at least the last block comes after the penultimate one.
-/

import Summit.Proof.EpochRun
import Summit.Proof.Verification

set_option linter.unusedSectionVars false

namespace Summit

open DynamicEpocher

/-! ### The last blocks of an epoch -/

namespace DynamicEpocher

variable {epocher : DynamicEpocher} {epoch height : Nat}

theorem Scheduled.containing_within (scheduled : epocher.Scheduled)
    (visible : epoch ≤ epocher.currentEpoch + 1)
    (low : firstHeight epocher.newestFirst epoch ≤ height)
    (high : height < firstHeight epocher.newestFirst (epoch + 1)) (last : Nat) :
    ((epocher.containing height).any fun info => info.last = last) = true ↔
      firstHeight epocher.newestFirst (epoch + 1) = last + 1 ∧ last ≤ u64Max := by
  have mono := firstHeight_strictMono scheduled.linked
  rw [Option.any_eq_true]
  constructor
  · rintro ⟨info, found, same⟩
    obtain ⟨-, -, within, low', high'⟩ := scheduled.containing_eq_some_iff.mp found
    obtain ⟨first, ends, fits⟩ := (bounds_eq_some_iff scheduled.linked).mp within
    change firstHeight epocher.newestFirst info.epoch = info.first at first
    change firstHeight epocher.newestFirst (info.epoch + 1) = info.last + 1 at ends
    have before : info.epoch < epoch + 1 := mono.lt_iff_lt.mp (by omega)
    have after : epoch < info.epoch + 1 := mono.lt_iff_lt.mp (by omega)
    obtain rfl : info.epoch = epoch := by omega
    obtain rfl := of_decide_eq_true same
    exact ⟨ends, fits⟩
  · rintro ⟨ends, fits⟩
    refine ⟨⟨epoch, height, firstHeight epocher.newestFirst epoch, last⟩, ?_, decide_eq_true rfl⟩
    refine scheduled.containing_eq_some_iff.mpr ⟨rfl, visible, ?_, low, ?_⟩
    · exact (bounds_eq_some_iff scheduled.linked).mpr ⟨rfl, ends, fits⟩
    · show height ≤ last
      omega

theorem isLastBlockOfEpoch_containing (scheduled : epocher.Scheduled) :
    epocher.isLastBlockOfEpoch height =
      (epocher.containing height).any fun info => info.last = height := by
  unfold isLastBlockOfEpoch
  cases found : epocher.containing height with
  | none => rfl
  | some info =>
    rw [Option.any_some, Option.any_some, (scheduled.containing_eq_some_iff.mp found).1]

end DynamicEpocher

section BlockRun

variable [Crypto]

/-! ### The place of the next block -/

/-- The next block belongs to the epoch of the state. -/
structure StateData.Underway (data : StateData) : Prop where
  onEpoch : data.OnEpoch
  first_le : firstHeight data.epocher.newestFirst data.epoch ≤ data.latestHeight + 1
  lt_next : data.latestHeight + 1 < firstHeight data.epocher.newestFirst (data.epoch + 1)

/-- Every epoch has two blocks at least. -/
def StateData.Long (data : StateData) : Prop := ∀ segment ∈ data.epocher.segments, 2 ≤ segment.length

/-- Where the epoch stands before the next block. -/
def StateData.phase (data : StateData) : Phase :=
  if data.epocher.isLastBlockOfEpoch (data.latestHeight + 1) then .staged else .collecting

section Place

variable {data : StateData} (underway : data.Underway)

include underway

theorem StateData.Underway.isLast_iff :
    data.epocher.isLastBlockOfEpoch (data.latestHeight + 1) = true ↔
      firstHeight data.epocher.newestFirst (data.epoch + 1) = data.latestHeight + 2 ∧
        data.latestHeight + 1 ≤ u64Max := by
  have scheduled := underway.onEpoch.scheduled
  have current := underway.onEpoch.current
  rw [isLastBlockOfEpoch_containing scheduled]
  exact scheduled.containing_within (by omega) underway.first_le underway.lt_next _

theorem StateData.Underway.isPenultimate_iff :
    data.epocher.isPenultimateBlockOfEpoch (data.latestHeight + 1) = true ↔
      firstHeight data.epocher.newestFirst (data.epoch + 1) = data.latestHeight + 3 ∧
        data.latestHeight + 2 ≤ u64Max := by
  have scheduled := underway.onEpoch.scheduled
  have current := underway.onEpoch.current
  exact scheduled.containing_within (by omega) underway.first_le underway.lt_next _

end Place

theorem le_lengthAt {data : StateData} (scheduled : data.epocher.Scheduled) (long : data.Long)
    (epoch : Nat) : 2 ≤ lengthAt data.epocher.newestFirst epoch := by
  obtain ⟨segment, found, -, length, -⟩ := find?_startEpoch scheduled.linked epoch
  rw [← length]
  exact long segment (List.mem_reverse.mp (List.mem_of_find?_eq_some found))

/-! ### One block -/

/-- The steps of an epoch that a block of some height takes. -/
def Stages (epocher : DynamicEpocher) (height : Nat) (phase phase' : Phase) : Prop :=
  (epocher.isPenultimateBlockOfEpoch height = true ∧ phase = .collecting ∧ phase' = .staged) ∨
    (epocher.isLastBlockOfEpoch height = true ∧ phase = .staged ∧ phase' = .paid) ∨
    (epocher.isPenultimateBlockOfEpoch height = false ∧ epocher.isLastBlockOfEpoch height = false ∧
      phase' = phase)

/-- The end of a block moves the place and keeps a checkpoint. -/
theorem sameCommittee_finishBlock (s : ConsensusState) (block : Block) :
    SameCommittee s.toStateData (s.finishBlock block).toStateData := by
  unfold ConsensusState.finishBlock ConsensusState.withCheckpoint
  split <;> rfl

section Applied

variable {consts : ProtocolConsts} {domain : Digest} {s : ConsensusState} {block : Block}

/-- The state before the requests of a block are processed. -/
def LiveState.opened (s : LiveState) (block : Block) : LiveState :=
  (s.setForkchoiceHead block.ethBlockHash).bufferExecutionRequests block.executionRequests

theorem data_opened (s : LiveState) (block : Block) : (s.opened block).toStateData =
    { s.toStateData with
      forkchoice := { s.forkchoice with headBlockHash := block.ethBlockHash }
      pendingExecutionRequests := s.pendingExecutionRequests ++ block.executionRequests } := by
  rw [LiveState.opened, LiveState.data_bufferExecutionRequests, LiveState.data_setForkchoiceHead]

/-- **A terminal block** that carries the expected withdrawals pays what is due. -/
theorem applyBlock_last (consts : ProtocolConsts) (domain : Digest)
    (last : s.epocher.isLastBlockOfEpoch block.height = true)
    (withdrawals : block.withdrawals = s.expectedWithdrawals block) :
    s.toLiveState.applyBlock consts domain block =
      some (((((s.toLiveState.opened block).payDue s.epoch).setLatestHeight block.height).setView
        block.view).setHeadDigest block.digest) := by
  have data := data_opened s.toLiveState block
  have epocher : (s.toLiveState.opened block).epocher = s.epocher := by rw [data]
  have epoch : (s.toLiveState.opened block).epoch = s.epoch := by rw [data]
  have emitted : (s.toLiveState.opened block).emitWithdrawalPayouts s.epoch = block.withdrawals := by
    rw [withdrawals, ConsensusState.expectedWithdrawals, if_pos last, data]
    rfl
  have paid : (s.toLiveState.opened block).processExecutionRequests consts domain block =
      some ((s.toLiveState.opened block).payDue s.epoch) := by
    unfold LiveState.processExecutionRequests
    dsimp only
    rw [epocher, not_penultimate_of_last last, if_neg Bool.false_ne_true, epocher, if_pos last,
      epoch, ← emitted, applyWithdrawalPayouts_emitted]
  exact congrArg (Option.map _) paid

/-- **A block that carries the expected withdrawals** can be applied. -/
theorem exists_applyBlock (consts : ProtocolConsts) (domain : Digest)
    (withdrawals : block.withdrawals = s.expectedWithdrawals block) :
    ∃ live, s.toLiveState.applyBlock consts domain block = some live := by
  by_cases last : s.epocher.isLastBlockOfEpoch block.height = true
  · exact ⟨_, applyBlock_last consts domain last withdrawals⟩
  · have data := data_opened s.toLiveState block
    obtain ⟨processed, run⟩ : ∃ processed,
        (s.toLiveState.opened block).processExecutionRequests consts domain block =
          some processed := by
      unfold LiveState.processExecutionRequests
      dsimp only
      split
      · have epocher : ((s.toLiveState.opened block).processBufferedRequests domain
            consts.validatorNumWarmUpEpochs
            consts.validatorWithdrawalNumEpochs).enforceMinimumStake.epocher = s.epocher :=
          (congrArg Place.epocher ((frame_processBufferedRequests _ domain _ _).trans
            (frame_enforceMinimumStake _)).place).trans (by rw [data]; rfl)
        rw [epocher, if_neg last]
        exact ⟨_, rfl⟩
      · have epocher : (s.toLiveState.opened block).epocher = s.epocher := by rw [data]
        rw [epocher, if_neg last]
        exact ⟨_, rfl⟩
    exact ⟨_, congrArg (Option.map _) run⟩

end Applied

section Keeps

variable {consts : ProtocolConsts} {domain : Digest} {P : Phase → StateData → Prop}
  (inside : ∀ {data data' phase phase'},
    EpochStep consts.validatorNumWarmUpEpochs consts.validatorWithdrawalNumEpochs data phase phase'
      data' →
    (phase = .paid → phase' ≠ .collecting) → data.withdrawalQueue.Indexed → P phase data →
    P phase' data')

include inside

theorem touch_keeps {phase : Phase} {data data' : StateData} (same : SameCommittee data data')
    (indexed : data.withdrawalQueue.Indexed) (held : P phase data) : P phase data' :=
  inside (.touch phase same) (fun paid collecting => by rw [paid] at collecting; cases collecting)
    indexed held

theorem step_keeps (s s' : EpochState) (event : EpochEvent)
    (result : s.step consts.validatorNumWarmUpEpochs consts.validatorWithdrawalNumEpochs event =
      some s')
    (within : s.phase = .paid → s'.phase ≠ .collecting) (indexed : s.live.withdrawalQueue.Indexed)
    (held : P s.phase s.live.toStateData) :
    s'.live.withdrawalQueue.Indexed ∧ P s'.phase s'.live.toStateData := by
  obtain ⟨step, indexed'⟩ := epochStep_of_step indexed result
  exact ⟨indexed', inside step within indexed held⟩

theorem process_keeps (s : LiveState) (indexed : s.withdrawalQueue.Indexed)
    (held : P .collecting s.toStateData) :
    (s.processBufferedRequests domain consts.validatorNumWarmUpEpochs
        consts.validatorWithdrawalNumEpochs).enforceMinimumStake.withdrawalQueue.Indexed ∧
      P .staged (s.processBufferedRequests domain consts.validatorNumWarmUpEpochs
        consts.validatorWithdrawalNumEpochs).enforceMinimumStake.toStateData := by
  generalize made : s.processBufferedRequests domain consts.validatorNumWarmUpEpochs
    consts.validatorWithdrawalNumEpochs = processed
  obtain ⟨indexed', held'⟩ := step_keeps inside ⟨.collecting, s⟩ ⟨.processed, processed⟩
    (.process domain) (made ▸ rfl) nofun indexed held
  exact step_keeps inside ⟨.processed, processed⟩ ⟨.staged, processed.enforceMinimumStake⟩ .enforce
    rfl nofun indexed' held'

theorem payDue_keeps (s : LiveState) (indexed : s.withdrawalQueue.Indexed)
    (held : P .staged s.toStateData) :
    (s.payDue s.epoch).withdrawalQueue.Indexed ∧ P .paid (s.payDue s.epoch).toStateData := by
  refine step_keeps inside ⟨.staged, s⟩ ⟨.paid, s.payDue s.epoch⟩ .payouts ?_ nofun indexed held
  show Option.map (EpochState.mk .paid) (s.applyWithdrawalPayouts s.epoch
    (s.emitWithdrawalPayouts s.epoch)) = _
  rw [applyWithdrawalPayouts_emitted]
  rfl

theorem processExecutionRequests_keeps {block : Block} {s s' : LiveState} {phase phase' : Phase}
    (stages : Stages s.epocher block.height phase phase')
    (withdrawals : s.epocher.isLastBlockOfEpoch block.height = true →
      block.withdrawals = s.emitWithdrawalPayouts s.epoch)
    (result : s.processExecutionRequests consts domain block = some s')
    (indexed : s.withdrawalQueue.Indexed) (held : P phase s.toStateData) :
    s'.withdrawalQueue.Indexed ∧ P phase' s'.toStateData := by
  unfold LiveState.processExecutionRequests at result
  dsimp only at result
  rcases stages with ⟨penultimate, rfl, rfl⟩ | ⟨last, rfl, rfl⟩ | ⟨early, notLast, rfl⟩
  · -- the penultimate block is not the last one
    have notLast : s.epocher.isLastBlockOfEpoch block.height = false := by
      by_contra last
      rw [not_penultimate_of_last (Bool.eq_true_of_not_eq_false last)] at penultimate
      cases penultimate
    rw [if_pos penultimate] at result
    have epocher : (s.processBufferedRequests domain consts.validatorNumWarmUpEpochs
        consts.validatorWithdrawalNumEpochs).enforceMinimumStake.epocher = s.epocher :=
      congrArg Place.epocher
        ((frame_processBufferedRequests s domain _ _).trans (frame_enforceMinimumStake _)).place
    rw [epocher, notLast, if_neg Bool.false_ne_true] at result
    obtain rfl := Option.some.inj result
    exact process_keeps inside s indexed held
  · rw [not_penultimate_of_last last, if_neg Bool.false_ne_true, if_pos last, withdrawals last,
      applyWithdrawalPayouts_emitted] at result
    obtain rfl := Option.some.inj result
    exact payDue_keeps inside s indexed held
  · rw [early, if_neg Bool.false_ne_true, notLast, if_neg Bool.false_ne_true] at result
    obtain rfl := Option.some.inj result
    exact ⟨indexed, held⟩

/-- **A block keeps** what the steps of its epoch keep, up to the checkpoint. -/
theorem applyBlock_keeps {block : Block} {s : ConsensusState} {live : LiveState}
    {phase phase' : Phase} (stages : Stages s.epocher block.height phase phase')
    (withdrawals : block.withdrawals = s.expectedWithdrawals block)
    (result : s.toLiveState.applyBlock consts domain block = some live)
    (indexed : s.withdrawalQueue.Indexed) (held : P phase s.toStateData) :
    live.withdrawalQueue.Indexed ∧ P phase' live.toStateData := by
  obtain ⟨processed, run, rfl⟩ := Option.map_eq_some_iff.mp result
  have data := data_opened s.toLiveState block
  rw [← LiveState.opened] at run
  generalize s.toLiveState.opened block = start at run data
  have queue : start.withdrawalQueue.Indexed := by
    rw [data]
    exact indexed
  have held' : P phase start.toStateData := by
    refine touch_keeps inside ?_ indexed held
    rw [data]
    rfl
  obtain ⟨indexed', held''⟩ := processExecutionRequests_keeps inside (by rw [data]; exact stages)
    (fun last => by
      rw [data] at last ⊢
      rw [withdrawals, ConsensusState.expectedWithdrawals, if_pos last]
      rfl) run queue held'
  have same : SameCommittee processed.toStateData (((processed.setLatestHeight block.height).setView
    block.view).setHeadDigest block.digest).toStateData := rfl
  exact ⟨indexed', touch_keeps inside same indexed' held''⟩

theorem executed_keeps {block : Block} {s s' : ConsensusState} {phase phase' : Phase}
    (stages : Stages s.epocher block.height phase phase')
    (result : s.executed consts domain block = some s')
    (indexed : s.withdrawalQueue.Indexed) (held : P phase s.toStateData) :
    s'.withdrawalQueue.Indexed ∧ P phase' s'.toStateData := by
  rw [ConsensusState.executed, Option.ite_none_right_eq_some] at result
  obtain ⟨⟨-, withdrawals⟩, made⟩ := result
  obtain ⟨live, applied, rfl⟩ := Option.map_eq_some_iff.mp made
  obtain ⟨indexed', held'⟩ := applyBlock_keeps inside stages withdrawals applied indexed held
  have same := sameCommittee_finishBlock (s.withLive live) block
  refine ⟨?_, touch_keeps inside same indexed' held'⟩
  rw [same]
  exact indexed'

end Keeps

/-! ### The chain -/

/-- One block of the finalized chain: it comes right after the head, is executed and finalized. -/
structure ChainStep (consts : ProtocolConsts) (domain : Digest) (key : PublicKey)
    (s : ConsensusState) (block : Block) (executed s' : ConsensusState)
    (checkpoint : Option Checkpoint) : Prop where
  height : block.height = s.latestHeight + 1
  /-- Heights are 64 bits wide. -/
  small : block.height ≤ u64Max
  executes : s.executed consts domain block = some executed
  finalizes : executed.finalizeExecuted key block = some (s', checkpoint)

/-- The states that the finalized chain reaches. -/
abbrev BlockRun (consts : ProtocolConsts) (domain : Digest) (key : PublicKey) :
    ConsensusState → ConsensusState → Prop :=
  Relation.ReflTransGen fun s s' =>
    ∃ block executed checkpoint, ChainStep consts domain key s block executed s' checkpoint

/-- A block of the finalized chain, as a function. -/
def ConsensusState.advance (consts : ProtocolConsts) (domain : Digest) (key : PublicKey)
    (s : ConsensusState) (block : Block) : Option (ConsensusState × Option Checkpoint) :=
  if block.height = s.latestHeight + 1 ∧ block.height ≤ u64Max then
    (s.executed consts domain block).bind fun executed => executed.finalizeExecuted key block
  else none

section Chain

variable {consts : ProtocolConsts} {domain : Digest} {key : PublicKey} {block : Block}
  {checkpoint : Option Checkpoint} {s executed s' : ConsensusState}

theorem chainStep_of_advance (result : s.advance consts domain key block = some (s', checkpoint)) :
    ∃ executed, ChainStep consts domain key s block executed s' checkpoint := by
  obtain ⟨⟨height, small⟩, made⟩ := Option.ite_none_right_eq_some.mp result
  obtain ⟨executed, executes, finalizes⟩ := Option.bind_eq_some_iff.mp made
  exact ⟨executed, height, small, executes, finalizes⟩

theorem blockRun_of_advance {blocks : List Block}
    (result : blocks.foldlM (fun s block => (s.advance consts domain key block).map Prod.fst) s =
      some s') : BlockRun consts domain key s s' := by
  refine Run.reflTransGen_of_foldlM result fun s s' block _ step => ?_
  obtain ⟨⟨reached, checkpoint⟩, advanced, rfl⟩ := Option.map_eq_some_iff.mp step
  obtain ⟨executed, chainStep⟩ := chainStep_of_advance advanced
  exact ⟨block, executed, checkpoint, chainStep⟩

/-- The phase after a block that is not the last one of its epoch. -/
def nextPhase (epocher : DynamicEpocher) (height : Nat) : Phase :=
  if epocher.isPenultimateBlockOfEpoch height then .staged
  else if epocher.isLastBlockOfEpoch height then .paid else .collecting

/-- The phase before a block is the one its steps start from. -/
theorem ChainStep.stages (step : ChainStep consts domain key s block executed s' checkpoint) :
    Stages s.epocher block.height s.phase (nextPhase s.epocher block.height) := by
  rw [StateData.phase, ← step.height, nextPhase]
  by_cases penultimate : s.epocher.isPenultimateBlockOfEpoch block.height = true
  · have notLast : s.epocher.isLastBlockOfEpoch block.height ≠ true := fun last => by
      rw [not_penultimate_of_last last] at penultimate
      cases penultimate
    rw [if_pos penultimate, if_neg notLast]
    exact Or.inl ⟨penultimate, rfl, rfl⟩
  · rw [if_neg penultimate]
    by_cases last : s.epocher.isLastBlockOfEpoch block.height = true
    · rw [if_pos last, if_pos last]
      exact Or.inr (Or.inl ⟨last, rfl, rfl⟩)
    · rw [if_neg last, if_neg last]
      exact Or.inr (Or.inr ⟨Bool.eq_false_of_not_eq_true penultimate,
        Bool.eq_false_of_not_eq_true last, rfl⟩)

theorem ChainStep.place (step : ChainStep consts domain key s block executed s' checkpoint) :
    executed.epoch = s.epoch ∧ executed.epocher = s.epocher ∧
      executed.latestHeight = s.latestHeight + 1 := by
  have place := place_executed step.executes
  exact ⟨congrArg Place.epoch place, congrArg Place.epocher place,
    (congrArg Place.latestHeight place).trans step.height⟩

/-- **Within an epoch** the next block belongs to it too. -/
theorem ChainStep.underway (step : ChainStep consts domain key s block executed s' checkpoint)
    (underway : s.Underway) (notLast : s.epocher.isLastBlockOfEpoch block.height = false) :
    executed.Underway ∧ executed.phase = nextPhase s.epocher block.height := by
  obtain ⟨epoch, epocher, height⟩ := step.place
  have low := underway.first_le
  have high := underway.lt_next
  have small := step.small
  rw [step.height] at notLast small
  have further : s.latestHeight + 2 < firstHeight s.epocher.newestFirst (s.epoch + 1) := by
    by_contra near
    have last := underway.isLast_iff.mpr ⟨by omega, small⟩
    rw [last] at notLast
    cases notLast
  have underway' : executed.Underway := by
    refine ⟨ConsensusState.onEpoch_executed underway.onEpoch step.executes, ?_, ?_⟩
    · rw [epocher, epoch, height]
      omega
    · rw [epocher, epoch, height]
      exact further
  refine ⟨underway', ?_⟩
  have same : executed.epocher.isLastBlockOfEpoch (executed.latestHeight + 1) = true ↔
      s.epocher.isPenultimateBlockOfEpoch block.height = true := by
    rw [underway'.isLast_iff, step.height, underway.isPenultimate_iff, epocher, epoch, height]
  rw [StateData.phase, nextPhase, step.height, notLast, ← step.height]
  exact ite_congr (propext same) (fun _ => rfl) fun _ => rfl

/-- **After the boundary** the next block is the first one of the next epoch. -/
theorem ChainStep.underway_boundary
    (step : ChainStep consts domain key s block executed s' checkpoint) (underway : s.Underway)
    (last : s.epocher.isLastBlockOfEpoch block.height = true) (long : s'.Long) :
    s'.Underway ∧ s'.phase = .collecting := by
  obtain ⟨epoch, epocher, height⟩ := step.place
  have on := ConsensusState.onEpoch_executed underway.onEpoch step.executes
  obtain ⟨on', trails⟩ := ConsensusState.trails_finalizeExecuted on step.finalizes
  rw [step.height] at last
  obtain ⟨ends, -⟩ := underway.isLast_iff.mp last
  have entered : s'.epoch = s.epoch + 1 ∧ s'.latestHeight = s.latestHeight + 1 := by
    rcases finalizeExecuted_cases step.finalizes with ⟨notLast, -⟩ | ⟨-, enters⟩
    · rw [epocher, step.height, last] at notLast
      cases notLast
    · exact ⟨enters.epoch.trans (congrArg (· + 1) epoch), enters.height.trans height⟩
  have first : firstHeight s'.epocher.newestFirst s'.epoch = s.latestHeight + 2 := by
    rw [← trails.agree s'.epoch (by omega), epocher, entered.1]
    exact ends
  have next := firstHeight_succ on'.scheduled.linked s'.epoch
  have two := le_lengthAt on'.scheduled long s'.epoch
  have underway' : s'.Underway := ⟨on', by omega, by omega⟩
  refine ⟨underway', if_neg fun last' => ?_⟩
  obtain ⟨ends', -⟩ := underway'.isLast_iff.mp last'
  omega

/-- **What the steps of an epoch and the boundary keep**, the finalized chain keeps. -/
theorem BlockRun.invariant {P : Phase → StateData → Prop} {start : ConsensusState}
    (inside : ∀ {data data' phase phase'},
      EpochStep consts.validatorNumWarmUpEpochs consts.validatorWithdrawalNumEpochs data phase
        phase' data' →
      (phase = .paid → phase' ≠ .collecting) → data.withdrawalQueue.Indexed → P phase data →
      P phase' data')
    (boundary : ∀ {s s' : LiveState} {key digest checkpoint},
      s.boundary key digest = some (s', checkpoint) → s.withdrawalQueue.Indexed →
      P .paid s.toStateData → P .collecting s'.toStateData)
    (long : ∀ {phase data}, P phase data → data.Long) (underway : start.Underway)
    (indexed : start.withdrawalQueue.Indexed) (holds : P start.phase start.toStateData)
    (run : BlockRun consts domain key start s) :
    s.Underway ∧ s.withdrawalQueue.Indexed ∧ P s.phase s.toStateData := by
  induction run with
  | refl => exact ⟨underway, indexed, holds⟩
  | @tail mid s' _ last ih =>
    obtain ⟨block, executed, checkpoint, step⟩ := last
    obtain ⟨underway, indexed, held⟩ := ih
    obtain ⟨indexed', held'⟩ := executed_keeps inside step.stages step.executes indexed held
    have epocher := step.place.2.1
    have settled : SameCommittee executed.toStateData executed.settledHead.toStateData := rfl
    rcases finalizeExecuted_eq_some step.finalizes with ⟨notLast, rfl, -⟩ | ⟨isLast, live, crossed, rfl⟩
    · rw [epocher] at notLast
      obtain ⟨underway', phase⟩ := step.underway underway notLast
      have same : executed.settledHead.phase = nextPhase mid.epocher block.height := phase
      rw [same]
      refine ⟨⟨⟨underway'.onEpoch.scheduled, underway'.onEpoch.current⟩, underway'.first_le,
        underway'.lt_next⟩, indexed', ?_⟩
      exact touch_keeps inside settled indexed' held'
    · rw [epocher] at isLast
      have paid : nextPhase mid.epocher block.height = .paid := by
        rw [nextPhase, not_penultimate_of_last isLast, if_neg Bool.false_ne_true, if_pos isLast]
      rw [paid] at held'
      have after : P .collecting live.toStateData := 
        boundary crossed indexed' (touch_keeps inside settled indexed' held')
      obtain ⟨underway', phase⟩ := step.underway_boundary underway isLast (long after)
      have queue : live.withdrawalQueue = executed.withdrawalQueue :=
        (crosses_boundary crossed).withdrawals
      refine ⟨underway', ?_, ?_⟩
      · show live.withdrawalQueue.Indexed
        rw [queue]
        exact indexed'
      · rw [phase]
        exact after

end Chain

end BlockRun

end Summit
