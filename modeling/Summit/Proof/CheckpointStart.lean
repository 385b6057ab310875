/-
**Starting from a checkpoint.**

A checkpoint is made of the state before the fork choice of its block takes the normal form, and the
fork choice is among the committed fields. So the state restored from a checkpoint has the safe and
finalized hashes of the block before, and matches the live peers exactly when these are the hash of
the block itself (`restored_matches_iff`): every checkpoint of a run decodes to the data it was made
of (`decodes_of_run`), so nothing else can differ. The terminal block overwrites both hashes, and nothing
else that it does looks at them (`executeBlock_last_congr`); after it a node that was started from
the checkpoint and one that was there all the time are in one state (`checkpoint_start_agrees`).
-/

import Summit.Proof.Persistence

set_option linter.unusedSectionVars false

namespace Summit

open Bytes
open DynamicEpocher

section CheckpointStart

variable [Crypto]

/-! ### The restored state -/

section Restored

variable {checkpoint : Checkpoint} {decoded r : ConsensusState}

theorem tryFrom_eq_ok : ConsensusState.tryFrom checkpoint = .ok decoded ↔
    Crypto.sha256 checkpoint.data = checkpoint.digest ∧
      (∃ rest, ConsensusState.read.run checkpoint.data = .ok (decoded, rest)) ∧
      decoded.pendingCheckpoint = none := by
  rw [ConsensusState.tryFrom, Checks.refuse_eq_ok, not_not]
  refine and_congr_right fun _ => ?_
  cases ConsensusState.read.run checkpoint.data with
  | error error =>
    constructor
    · nofun
    · rintro ⟨⟨_, wrong⟩, -⟩
      cases wrong
  | ok pair =>
    obtain ⟨state, rest⟩ := pair
    dsimp only
    rw [Checks.refuse_eq_ok, Bool.not_eq_true, Option.isSome_eq_false_iff, Option.isNone_iff_eq_none]
    constructor
    · rintro ⟨none_, same⟩
      obtain rfl := Except.ok.inj same
      exact ⟨⟨rest, rfl⟩, none_⟩
    · rintro ⟨⟨_, same⟩, none_⟩
      obtain ⟨rfl, -⟩ := Prod.mk.inj (Except.ok.inj same)
      exact ⟨none_, rfl⟩

theorem restoreStateFromCheckpoint_eq_ok :
    ConsensusState.restoreStateFromCheckpoint checkpoint = .ok r ↔
      ∃ decoded : ConsensusState, ConsensusState.tryFrom checkpoint = .ok decoded ∧
        r = (decoded.withLive (decoded.toLiveState.setPendingCheckpoint
          (some checkpoint))).captureStateRoot decoded.latestHeight := by
  rw [ConsensusState.restoreStateFromCheckpoint]
  cases ConsensusState.tryFrom checkpoint with
  | error error =>
    constructor
    · nofun
    · rintro ⟨_, wrong, -⟩
      cases wrong
  | ok state =>
    constructor
    · intro same
      exact ⟨state, rfl, (Except.ok.inj same).symm⟩
    · rintro ⟨_, same, rfl⟩
      obtain rfl := Except.ok.inj same
      rfl

/-- **What is restored** has the decoded data with the checkpoint pending, and their root. -/
theorem frozen_restored (result : ConsensusState.restoreStateFromCheckpoint checkpoint = .ok r) :
    r.Frozen r.toStateData := by
  obtain ⟨decoded, from_, rfl⟩ := restoreStateFromCheckpoint_eq_ok.mp result
  obtain ⟨-, ⟨rest, read⟩, -⟩ := tryFrom_eq_ok.mp from_
  have sync : decoded.toLiveState.InSync false false (hashByteList decoded.epocher.encode) := by
    rw [(ConsensusState.data_of_read read).1]
    exact SszStateTree.inSync_rebuild decoded.toStateData
  have committed : (decoded.withLive (decoded.toLiveState.setPendingCheckpoint
      (some checkpoint))).Committed := ⟨_, sync.scalar _ (by decide) rfl rfl rfl⟩
  exact committed.frozen _

end Restored

/-! ### The penultimate block -/

section Penultimate

variable {consts : ProtocolConsts} {domain : Digest} {s : ConsensusState} {live : LiveState}
  {block : Block}

theorem forkchoice_applyBlock (applied : s.toLiveState.applyBlock consts domain block = some live) :
    live.forkchoice = { s.forkchoice with headBlockHash := block.ethBlockHash } :=
  congrArg Place.forkchoice (place_applyBlock applied)

/-- The penultimate block keeps the checkpoint of the state before the fork choice is settled. -/
theorem data_finishBlock (applied : s.toLiveState.applyBlock consts domain block = some live) :
    ((s.withLive live).finishBlock block).toStateData =
      { live.toStateData with
        pendingCheckpoint := if s.epocher.isPenultimateBlockOfEpoch block.height then
          some (Checkpoint.new (s.withLive live)) else live.pendingCheckpoint
        forkchoice := ⟨block.ethBlockHash, block.ethBlockHash, block.ethBlockHash⟩ } := by
  have epocher : live.epocher = s.epocher := congrArg Place.epocher (place_applyBlock applied)
  have head : live.forkchoice.headBlockHash = block.ethBlockHash := by
    rw [forkchoice_applyBlock applied]
  have kept : (s.withLive live).withCheckpoint block =
      if live.epocher.isPenultimateBlockOfEpoch block.height then (s.withLive live).withLive
        (live.setPendingCheckpoint (some (Checkpoint.new (s.withLive live))))
      else s.withLive live := rfl
  rw [ConsensusState.finishBlock, kept, ← head, ← epocher]
  split <;> rfl

/-- **When the restored state has the data of the live one**: a checkpoint that decodes to what it was
made of gives them back exactly if the fork choice was settled on the hash of the block before the
block came. -/
theorem restored_data_iff {decoded : ConsensusState}
    (applied : s.toLiveState.applyBlock consts domain block = some live)
    (penultimate : s.epocher.isPenultimateBlockOfEpoch block.height = true)
    (from_ : ConsensusState.tryFrom (Checkpoint.new (s.withLive live)) = .ok decoded)
    (data : decoded.toStateData = live.toStateData) :
    (∃ r, ConsensusState.restoreStateFromCheckpoint (Checkpoint.new (s.withLive live)) = .ok r ∧
        r.toStateData = ((s.withLive live).finishBlock block).toStateData) ↔
      s.forkchoice.safeBlockHash = block.ethBlockHash ∧
      s.forkchoice.finalizedBlockHash = block.ethBlockHash := by
  have choice := forkchoice_applyBlock applied
  have restored := restoreStateFromCheckpoint_eq_ok.mpr ⟨decoded, from_, rfl⟩
  rw [data_finishBlock applied, if_pos penultimate]
  constructor
  · rintro ⟨r, other, same⟩
    obtain rfl := Except.ok.inj (restored.symm.trans other)
    change { decoded.toStateData with
      pendingCheckpoint := some (Checkpoint.new (s.withLive live)) } = _ at same
    have settled : live.forkchoice = ⟨block.ethBlockHash, block.ethBlockHash, block.ethBlockHash⟩ :=
      (congrArg StateData.forkchoice data).symm.trans (congrArg StateData.forkchoice same)
    rw [choice] at settled
    exact ⟨congrArg ForkchoiceState.safeBlockHash settled,
      congrArg ForkchoiceState.finalizedBlockHash settled⟩
  · rintro ⟨safe, finalized⟩
    refine ⟨_, restored, ?_⟩
    show { decoded.toStateData with
      pendingCheckpoint := some (Checkpoint.new (s.withLive live)) } = _
    have settled : live.forkchoice =
        ⟨block.ethBlockHash, block.ethBlockHash, block.ethBlockHash⟩ := by
      rw [choice]
      dsimp only
      rw [safe, finalized]
    rw [data, ← settled]

end Penultimate

/-- **The checkpoint of a run decodes** to the data it was made of. -/
theorem decodes_of_run {genesis : Genesis} {positive : 0 < genesis.blocksPerEpoch}
    {consts : ProtocolConsts} {domain : Digest} {key : PublicKey} {s s' : ConsensusState}
    {engine : Engine} {forkFinalized : Option Bytes32} {block : Block} (valid : genesis.Valid)
    (stake : genesis.validatorMinimumStake < 2 ^ 64)
    (run : BlockRun consts domain key (genesis.initialState positive) s)
    (height : block.height = s.latestHeight + 1)
    (penultimate : s.epocher.isPenultimateBlockOfEpoch block.height = true)
    (applied : s.executeBlock engine consts domain forkFinalized block = .applied s')
    (fits : s.toStateData.Fits)
    (representable : ∀ live, s.toLiveState.applyBlock consts domain block = some live →
      (s.withLive live).Representable) :
    ∃ live decoded, s.toLiveState.applyBlock consts domain block = some live ∧
      s' = (s.withLive live).finishBlock block ∧
      s'.pendingCheckpoint = some (Checkpoint.new (s.withLive live)) ∧
      ConsensusState.tryFrom (Checkpoint.new (s.withLive live)) = .ok decoded ∧
      decoded.toStateData = live.toStateData := by
  obtain ⟨-, executed⟩ := executeBlock_eq_applied.mp applied
  rw [ConsensusState.executed, Option.ite_none_right_eq_some] at executed
  obtain ⟨live, made, rfl⟩ := Option.map_eq_some_iff.mp executed.2
  obtain ⟨reads, -⟩ := roundTrips_checkpoint valid stake run height penultimate executed.1.2 made
    fits (representable live made)
  have read := reads []
  rw [List.append_nil] at read
  have collecting : s.phase = .collecting := by
    refine if_neg fun last => ?_
    rw [height, not_penultimate_of_last last] at penultimate
    cases penultimate
  have none_ := (resting_of_run valid stake run).checkpoint collecting
  refine ⟨live, s.withLive live, made, rfl, ?_, tryFrom_eq_ok.mpr ⟨rfl, ⟨[], read⟩,
    (pendingCheckpoint_applyBlock made).trans none_⟩, rfl⟩
  exact (congrArg StateData.pendingCheckpoint (data_finishBlock made)).trans (if_pos penultimate)

/-! ### The terminal block -/

theorem ConsensusState.Frozen.unique {s t : ConsensusState} (frozen : s.Frozen s.toStateData)
    (frozen' : t.Frozen t.toStateData) (data : s.toStateData = t.toStateData)
    (number : s.proofElBlockNumber = t.proofElBlockNumber) : s = t := by
  have bytes : s.capturedBytes = t.capturedBytes := by
    rw [frozen.bytes, frozen'.bytes, data, number]
  have left := frozen.eq
  rw [data, number, bytes] at left
  exact left.symm.trans frozen'.eq

section Terminal

variable {block : Block} {f : ForkchoiceState}

/-- What the payout of one entry does to the data. -/
def payData (minStake : Nat) (data : StateData) (index : Nat) : StateData :=
  match data.withdrawalQueue.popByIndex index with
  | none => data
  | some (entry, popped) =>
    { data with
      withdrawalQueue := popped
      validatorAccounts := debitAccounts minStake data.validatorAccounts entry }

theorem data_payIndex_payData (minStake : Nat) (acc : LiveState × Bool) (index : Nat) :
    (LiveState.payIndex minStake acc index).1.toStateData =
      payData minStake acc.1.toStateData index := by
  cases popped : acc.1.withdrawalQueue.popByIndex index with
  | none => simp only [LiveState.payIndex, payData, popped]
  | some pair =>
    rw [data_payIndex popped, payData, popped]

theorem payData_forkchoice (minStake : Nat) (data : StateData) (index : Nat) :
    payData minStake { data with forkchoice := f } index =
      { payData minStake data index with forkchoice := f } := by
  unfold payData
  cases data.withdrawalQueue.popByIndex index <;> rfl

/-- The payouts do not look at the fork choice. -/
theorem data_payDue_forkchoice {s t : LiveState}
    (same : s.toStateData = { t.toStateData with forkchoice := f }) (epoch : Nat) :
    (s.payDue epoch).toStateData = { (t.payDue epoch).toStateData with forkchoice := f } := by
  have paid (s : LiveState) : (s.payDue epoch).toStateData =
      ((s.dueEntries epoch).map fun entry => entry.inner.index).foldl
        (payData s.prospectiveMinimumStake) s.toStateData := by
    rw [LiveState.payDue, LiveState.data_flushWithdrawals]
    exact (List.foldl_hom (fun acc : LiveState × Bool => acc.1.toStateData)
      fun acc index => (data_payIndex_payData _ acc index).symm).symm
  rw [paid, paid, same]
  exact List.foldl_hom (fun data : StateData => { data with forkchoice := f })
    fun data index => payData_forkchoice _ data index

/-- **A terminal block** pays what is due and settles the fork choice on its own hash. -/
theorem finishBlock_last {consts : ProtocolConsts} {domain : Digest} {s : ConsensusState}
    {live : LiveState} (committed : s.Committed)
    (last : s.epocher.isLastBlockOfEpoch block.height = true) (epoch : block.epoch = s.epoch)
    (withdrawals : block.withdrawals = s.expectedWithdrawals block)
    (applied : s.toLiveState.applyBlock consts domain block = some live) :
    ((s.withLive live).finishBlock block).Frozen ((s.withLive live).finishBlock block).toStateData ∧
      ((s.withLive live).finishBlock block).toStateData =
        { ((s.toLiveState.opened block).payDue s.epoch).toStateData with
          latestHeight := block.height
          view := block.view
          headDigest := block.digest
          forkchoice := ⟨block.ethBlockHash, block.ethBlockHash, block.ethBlockHash⟩ } := by
  have result : s.executed consts domain block = some _ :=
    (if_pos ⟨epoch, withdrawals⟩).trans (congrArg (Option.map _) applied)
  refine ⟨frozen_executed committed result, ?_⟩
  rw [data_finishBlock applied, if_neg (Bool.eq_false_iff.mp (not_penultimate_of_last last))]
  rw [applyBlock_last consts domain last withdrawals] at applied
  rw [← Option.some.inj applied, LiveState.data_setHeadDigest, LiveState.data_setView,
    LiveState.data_setLatestHeight]

/-- **Executing a terminal block** does not depend on the fork choice. -/
theorem executeBlock_last_congr (engine : Engine) (consts : ProtocolConsts) (domain : Digest)
    (forkFinalized : Option Bytes32) {s t : ConsensusState} (same : s.toStateData = { t.toStateData with forkchoice := f })
    (committed : s.Committed) (committed' : t.Committed)
    (last : t.epocher.isLastBlockOfEpoch block.height = true) :
    s.executeBlock engine consts domain forkFinalized block =
      t.executeBlock engine consts domain forkFinalized block := by
  have epoch : s.epoch = t.epoch := by rw [same]
  have expected : s.expectedWithdrawals block = t.expectedWithdrawals block := by
    unfold ConsensusState.expectedWithdrawals
    rw [same]
    rfl
  have last' : s.epocher.isLastBlockOfEpoch block.height = true := by rw [same]; exact last
  by_cases here : block.epoch = t.epoch
  case neg => simp only [ConsensusState.executeBlock, epoch, if_pos here]
  by_cases withdrawals : block.withdrawals = t.expectedWithdrawals block
  case neg => simp only [ConsensusState.executeBlock, epoch, expected, if_pos withdrawals]
  obtain ⟨live, applied⟩ := exists_applyBlock consts domain (withdrawals.trans expected.symm)
  obtain ⟨live', applied'⟩ := exists_applyBlock consts domain withdrawals
  obtain ⟨frozen, data⟩ := finishBlock_last committed last' (here.trans epoch.symm)
    (withdrawals.trans expected.symm) applied
  obtain ⟨frozen', data'⟩ := finishBlock_last committed' last here withdrawals applied'
  have opened : (s.toLiveState.opened block).toStateData =
      { (t.toLiveState.opened block).toStateData with
        forkchoice := { f with headBlockHash := block.ethBlockHash } } := by
    rw [data_opened, data_opened, same]
  have finished : (s.withLive live).finishBlock block = (t.withLive live').finishBlock block := by
    refine frozen.unique frozen' ?_ rfl
    rw [data, data', epoch, data_payDue_forkchoice opened]
  simp only [ConsensusState.executeBlock, epoch, expected, applied, applied', finished]

end Terminal

end CheckpointStart

/-- **A restored state matches the live peers** exactly when the parent's safe and finalized hashes
were already that of the block: in a run of blocks from a genesis that passes its checks, the state
restored from the checkpoint of a penultimate block has the root and the data of the state that the
block was executed to if and only if they were. -/
theorem restored_matches_iff [Crypto] (genesis : Genesis) (positive : 0 < genesis.blocksPerEpoch)
    (valid : genesis.validate = .ok ()) (stake : genesis.validatorMinimumStake < 2 ^ 64)
    (consts : ProtocolConsts) (domain : Digest) (key : PublicKey) (s s' : ConsensusState)
    (run : BlockRun consts domain key (genesis.initialState positive) s) (engine : Engine)
    (forkFinalized : Option Bytes32) (block : Block) (height : block.height = s.latestHeight + 1)
    (penultimate : s.epocher.isPenultimateBlockOfEpoch block.height = true)
    (applied : s.executeBlock engine consts domain forkFinalized block = .applied s')
    (fits : s.toStateData.Fits)
    (representable : ∀ live, s.toLiveState.applyBlock consts domain block = some live →
      (s.withLive live).Representable) :
    ∃ checkpoint, s'.pendingCheckpoint = some checkpoint ∧
      ((∃ r, ConsensusState.restoreStateFromCheckpoint checkpoint = .ok r ∧
          r.stateRoot = s'.stateRoot ∧ r.toStateData = s'.toStateData) ↔
        s.forkchoice.safeBlockHash = block.ethBlockHash ∧
        s.forkchoice.finalizedBlockHash = block.ethBlockHash) := by
  have checked := Genesis.valid_of_validate valid
  obtain ⟨-, executed⟩ := executeBlock_eq_applied.mp applied
  have frozen := frozen_executed (resting_of_run checked stake run).committed executed
  obtain ⟨live, decoded, made, rfl, kept, from_, data⟩ := decodes_of_run checked stake run height
    penultimate applied fits representable
  refine ⟨_, kept, ?_⟩
  rw [← restored_data_iff made penultimate from_ data]
  refine exists_congr fun r => and_congr_right fun restored => and_iff_right_of_imp fun same => ?_
  -- equal data have equal roots
  rw [(frozen_restored restored).stateRoot, frozen.stateRoot, same]

/-- **A checkpoint start is forgotten at the next boundary.** In a run of blocks from a genesis that
passes its checks, a terminal block has the same outcome on the state restored from the checkpoint
of the penultimate block as on the state of a node that executed that block, and the boundary then
leaves both nodes in one state and stores one checkpoint. -/
theorem checkpoint_start_agrees [Crypto] (genesis : Genesis) (positive : 0 < genesis.blocksPerEpoch)
    (valid : genesis.validate = .ok ()) (stake : genesis.validatorMinimumStake < 2 ^ 64)
    (consts : ProtocolConsts) (domain : Digest) (key : PublicKey) (s s' : ConsensusState)
    (run : BlockRun consts domain key (genesis.initialState positive) s) (engine : Engine)
    (forkFinalized : Option Bytes32) (block : Block) (height : block.height = s.latestHeight + 1)
    (penultimate : s.epocher.isPenultimateBlockOfEpoch block.height = true)
    (applied : s.executeBlock engine consts domain forkFinalized block = .applied s')
    (fits : s.toStateData.Fits)
    (representable : ∀ live, s.toLiveState.applyBlock consts domain block = some live →
      (s.withLive live).Representable) :
    ∃ checkpoint r, s'.pendingCheckpoint = some checkpoint ∧
      ConsensusState.restoreStateFromCheckpoint checkpoint = .ok r ∧
      ∀ (engine : Engine) (forkFinalized : Option Bytes32) (terminal : Block),
        s'.epocher.isLastBlockOfEpoch terminal.height = true →
        r.executeBlock engine consts domain forkFinalized terminal =
            s'.executeBlock engine consts domain forkFinalized terminal ∧
          ∀ executed after stored,
            s'.executeBlock engine consts domain forkFinalized terminal = .applied executed →
            executed.finalizeExecuted key terminal = some (after, stored) →
            ∃ resumed,
              r.executeBlock engine consts domain forkFinalized terminal = .applied resumed ∧
              resumed.finalizeExecuted key terminal = some (after, stored) := by
  have checked := Genesis.valid_of_validate valid
  obtain ⟨-, executed⟩ := executeBlock_eq_applied.mp applied
  have committed := committed_executed (resting_of_run checked stake run).committed executed
  obtain ⟨live, decoded, made, rfl, kept, from_, data⟩ := decodes_of_run checked stake run height
    penultimate applied fits representable
  have restored := restoreStateFromCheckpoint_eq_ok.mpr ⟨decoded, from_, rfl⟩
  refine ⟨_, _, kept, restored, fun engine forkFinalized terminal last => ?_⟩
  have same := executeBlock_last_congr engine consts domain forkFinalized (f := live.forkchoice) ?_
    ⟨_, (frozen_restored restored).inSync⟩ committed last
  · refine ⟨same, fun executed after stored applies finalizes => ?_⟩
    exact ⟨executed, same.trans applies, finalizes⟩
  · rw [data_finishBlock made, if_pos penultimate]
    show { decoded.toStateData with
      pendingCheckpoint := some (Checkpoint.new (s.withLive live)) } = _
    rw [data]

section Numbered

attribute [local instance] Crypto.mixing

/-- A genesis file with one validator, to be hashed with a mixing pair hash. -/
def mixedGenesis : Genesis :=
  smallGenesis [⟨⟨zeroChunk, rfl⟩, ⟨FixedBytes.zero 48, rfl⟩, FixedBytes.zero 20⟩]

theorem validate_mixedGenesis : mixedGenesis.validate = .ok () := by decide +kernel

/-- A block without requests whose execution payload has its height as its hash. -/
def numberedBlock (height : Nat) : Block :=
  { plainBlock height with ethBlockHash := FixedBytes.padded 32 [UInt8.ofNat height] }

/-- An execution layer that accepts everything. -/
def validEngine : Engine where
  checkPayload _ := some .valid
  commitHash _ := some .valid

/-- The state before the penultimate block of the first epoch. -/
def mixedEpoch (blockAt : Nat → Block) : Option ConsensusState :=
  ((List.range 7).map fun index => blockAt (index + 1)).foldlM
    (fun s block => (s.advance ⟨2, 2⟩ zeroChunk ⟨zeroChunk, rfl⟩ block).map Prod.fst)
    (mixedGenesis.initialState (by decide))

/-- The state after the block, if the engine accepts it. -/
def ExecuteOutcome.toOption {State : Type} : ExecuteOutcome State → Option State
  | .applied s => some s
  | _ => none

theorem ExecuteOutcome.toOption_eq_some {State : Type} {outcome : ExecuteOutcome State} {s : State} :
    outcome.toOption = some s ↔ outcome = .applied s := by
  cases outcome <;> simp [ExecuteOutcome.toOption]

/-- The penultimate block of the first epoch is executed, and all numbers are small. -/
structure Penultimate (blockAt : Nat → Block) (s s' : ConsensusState) : Prop where
  epoch : mixedEpoch blockAt = some s
  height : (blockAt 8).height = s.latestHeight + 1
  penultimate : s.epocher.isPenultimateBlockOfEpoch (blockAt 8).height = true
  executed : s.executeBlock validEngine ⟨2, 2⟩ zeroChunk none (blockAt 8) = .applied s'
  fits : s.toStateData.Fits
  representable : ∀ live, s.toLiveState.applyBlock ⟨2, 2⟩ zeroChunk (blockAt 8) = some live →
    (s.withLive live).Representable

theorem exists_penultimate {blockAt : Nat → Block} {check : ConsensusState → ConsensusState → Bool}
    (computed : ((mixedEpoch blockAt).bind fun s =>
      (s.executeBlock validEngine ⟨2, 2⟩ zeroChunk none (blockAt 8)).toOption.map fun s' =>
        (decide ((blockAt 8).height = s.latestHeight + 1),
          s.epocher.isPenultimateBlockOfEpoch (blockAt 8).height, decide s.toStateData.Fits,
          decide (∀ live, s.toLiveState.applyBlock ⟨2, 2⟩ zeroChunk (blockAt 8) = some live →
            (s.withLive live).Representable), check s s')) =
      some (true, true, true, true, true)) :
    ∃ s s', Penultimate blockAt s s' ∧ check s s' = true := by
  obtain ⟨s, epoch, rest⟩ := Option.bind_eq_some_iff.mp computed
  obtain ⟨s', executed, facts⟩ := Option.map_eq_some_iff.mp rest
  simp only [Prod.mk.injEq, decide_eq_true_eq] at facts
  obtain ⟨height, penultimate, fits, representable, checked⟩ := facts
  exact ⟨s, s', ⟨epoch, height, penultimate, ExecuteOutcome.toOption_eq_some.mp executed, fits,
    representable⟩, checked⟩

/-- What is restored from the pending checkpoint has another root and other hashes. -/
def ConsensusState.restoresOther (s : ConsensusState) : Bool :=
  match s.pendingCheckpoint.map ConsensusState.restoreStateFromCheckpoint with
  | some (.ok r) => r.stateRoot ≠ s.stateRoot ∧
      r.forkchoice.safeBlockHash ≠ s.forkchoice.safeBlockHash ∧
      r.forkchoice.finalizedBlockHash ≠ s.forkchoice.finalizedBlockHash
  | _ => false

theorem exists_penultimate_numbered :
    ∃ s s', Penultimate numberedBlock s s' ∧
      decide (s'.epocher.isLastBlockOfEpoch 9 = true ∧ s'.restoresOther = true ∧
        s.forkchoice.safeBlockHash ≠ (numberedBlock 8).ethBlockHash) = true :=
  exists_penultimate (by decide +kernel)

/-- The state that is restored at the penultimate block has another root and other hashes. -/
theorem restored_differs_numberedEpoch :
    ∃ s s' checkpoint r, BlockRun ⟨2, 2⟩ zeroChunk ⟨zeroChunk, rfl⟩
        (mixedGenesis.initialState (by decide)) s ∧
      s.epocher.isPenultimateBlockOfEpoch (numberedBlock 8).height = true ∧
      s.executeBlock validEngine ⟨2, 2⟩ zeroChunk none (numberedBlock 8) = .applied s' ∧
      s'.pendingCheckpoint = some checkpoint ∧
      ConsensusState.restoreStateFromCheckpoint checkpoint = .ok r ∧
      r.stateRoot ≠ s'.stateRoot ∧
      r.forkchoice.safeBlockHash ≠ s'.forkchoice.safeBlockHash ∧
      r.forkchoice.finalizedBlockHash ≠ s'.forkchoice.finalizedBlockHash := by
  obtain ⟨s, s', at_, facts⟩ := exists_penultimate_numbered
  obtain ⟨-, other, -⟩ := of_decide_eq_true facts
  unfold ConsensusState.restoresOther at other
  split at other
  · next r found =>
    obtain ⟨checkpoint, pending, restored⟩ := Option.map_eq_some_iff.mp found
    exact ⟨s, s', checkpoint, r, blockRun_of_advance at_.epoch, at_.penultimate, at_.executed, pending,
      restored, of_decide_eq_true other⟩
  · cases other

/-- The restored state differs where every payload has its own hash, and matches where all have the
same. -/
theorem restored_matches_iff_mixedEpoch :
    (∃ s s' checkpoint, Penultimate numberedBlock s s' ∧ s'.pendingCheckpoint = some checkpoint ∧
      ¬∃ r, ConsensusState.restoreStateFromCheckpoint checkpoint = .ok r ∧
        r.stateRoot = s'.stateRoot ∧ r.toStateData = s'.toStateData) ∧
    ∃ s s' checkpoint, Penultimate plainBlock s s' ∧ s'.pendingCheckpoint = some checkpoint ∧
      ∃ r, ConsensusState.restoreStateFromCheckpoint checkpoint = .ok r ∧
        r.stateRoot = s'.stateRoot ∧ r.toStateData = s'.toStateData := by
  constructor
  · obtain ⟨s, s', at_, facts⟩ := exists_penultimate_numbered
    obtain ⟨checkpoint, pending, matches_⟩ := restored_matches_iff mixedGenesis (by decide)
      validate_mixedGenesis (by decide) ⟨2, 2⟩ zeroChunk ⟨zeroChunk, rfl⟩ s s'
      (blockRun_of_advance at_.epoch) validEngine none (numberedBlock 8) at_.height at_.penultimate
      at_.executed at_.fits at_.representable
    exact ⟨s, s', checkpoint, at_, pending, fun same =>
      absurd (matches_.mp same).1 (of_decide_eq_true facts).2.2⟩
  · have computed : ∃ s s', Penultimate plainBlock s s' ∧
        decide (s.forkchoice.safeBlockHash = (plainBlock 8).ethBlockHash ∧
          s.forkchoice.finalizedBlockHash = (plainBlock 8).ethBlockHash) = true :=
      exists_penultimate (by decide +kernel)
    obtain ⟨s, s', at_, settled⟩ := computed
    obtain ⟨checkpoint, pending, matches_⟩ := restored_matches_iff mixedGenesis (by decide)
      validate_mixedGenesis (by decide) ⟨2, 2⟩ zeroChunk ⟨zeroChunk, rfl⟩ s s'
      (blockRun_of_advance at_.epoch) validEngine none (plainBlock 8) at_.height at_.penultimate
      at_.executed at_.fits at_.representable
    exact ⟨s, s', checkpoint, at_, pending, matches_.mpr (of_decide_eq_true settled)⟩

theorem checkpoint_start_agrees_numberedEpoch :
    ∃ (s s' : ConsensusState) (checkpoint : Checkpoint) (r : ConsensusState),
      mixedEpoch numberedBlock = some s ∧
      s.executeBlock validEngine ⟨2, 2⟩ zeroChunk none (numberedBlock 8) = .applied s' ∧
      s'.pendingCheckpoint = some checkpoint ∧
      ConsensusState.restoreStateFromCheckpoint checkpoint = .ok r ∧
      r.executeBlock validEngine ⟨2, 2⟩ zeroChunk none (numberedBlock 9) =
        s'.executeBlock validEngine ⟨2, 2⟩ zeroChunk none (numberedBlock 9) := by
  obtain ⟨s, s', at_, facts⟩ := exists_penultimate_numbered
  obtain ⟨checkpoint, r, pending, restored, agrees⟩ := checkpoint_start_agrees mixedGenesis
    (by decide) validate_mixedGenesis (by decide) ⟨2, 2⟩ zeroChunk ⟨zeroChunk, rfl⟩ s s'
    (blockRun_of_advance at_.epoch) validEngine none (numberedBlock 8) at_.height at_.penultimate
    at_.executed at_.fits at_.representable
  exact ⟨s, s', checkpoint, r, at_.epoch, at_.executed, pending, restored,
    (agrees validEngine none (numberedBlock 9) (of_decide_eq_true facts).1).1⟩

end Numbered

end Summit
