/-
**Honest proposals before honest voters.**

A leader and a voter hold the same state of the parent. What the leader puts into a block is what the
voter's aux data asks for (`auxDataOf_congr`), the payload is what was requested of the execution
layer (`Builder.BuildsOn`), and the requests are sorted (`ascending_sortRequests`), so a new block
passes every check but three that do not depend on the block alone (`acceptable_sealBlock`): it must
not lie beyond the end of the epoch, the view of its parent must be signed, and its timestamp must
not be ahead of the voter's clock. The last block of an epoch is proposed again and passes.

`proposal_accepted_iff` says when the three hold. The leader proposes again only on the very last
block of an epoch: on a parent beyond it, which the finalizer executes when it is notarized, it builds
a block that no voter accepts (`proposal_beyond_epoch`).
-/

import Summit.Proof.GenesisState

set_option linter.unusedSectionVars false

namespace Summit

open Bytes Finalizer

/-! ### Requests -/

theorem ascendingFrom_of_pairwise {requests : List (List UInt8)} {prev : Option UInt8}
    (long : ∀ request ∈ requests, 1 < request.length)
    (above : ∀ type ∈ prev, ∀ request ∈ requests, type < requestType request)
    (ascending : requests.Pairwise fun lhs rhs => requestType lhs < requestType rhs) :
    ascendingFrom prev requests = true := by
  induction requests generalizing prev with
  | nil => rfl
  | cons request rest ih =>
    obtain ⟨first, ascending⟩ := List.pairwise_cons.mp ascending
    have some_data : ¬request.length ≤ 1 := Nat.not_le_of_lt (long request List.mem_cons_self)
    have in_order : ¬(prev.any fun type => decide (requestType request ≤ type)) = true := by
      intro found
      obtain ⟨type, member, low⟩ := (Option.any_eq_true _ _).mp found
      have high := above type member request List.mem_cons_self
      exact absurd (of_decide_eq_true low) (UInt8.not_le.mpr high)
    rw [ascendingFrom, if_neg some_data, if_neg in_order]
    refine ih (fun other member => long other (List.mem_cons_of_mem _ member)) ?_ ascending
    intro type same other member
    rw [← Option.some.inj same]
    exact first other member

/-- **Sorting** brings requests of different types into strictly ascending order. -/
theorem ascending_sortRequests {requests : List (List UInt8)}
    (long : ∀ request ∈ requests, 1 < request.length)
    (distinct : (requests.map requestType).Nodup) :
    executionRequestsAscending (sortRequests requests) = true := by
  have perm : (sortRequests requests).Perm requests := List.perm_insertionSort _ _
  have total : Std.Total fun lhs rhs : List UInt8 => requestType lhs ≤ requestType rhs :=
    ⟨fun lhs rhs => UInt8.le_total _ _⟩
  have trans : IsTrans (List UInt8) fun lhs rhs => requestType lhs ≤ requestType rhs :=
    ⟨fun _ _ _ => UInt8.le_trans⟩
  have sorted : (sortRequests requests).Pairwise fun lhs rhs => requestType lhs ≤ requestType rhs :=
    List.pairwise_insertionSort _ _
  have differ : (sortRequests requests).Pairwise fun lhs rhs => requestType lhs ≠ requestType rhs :=
    List.pairwise_map.mp ((perm.map requestType).nodup_iff.mpr distinct)
  refine ascendingFrom_of_pairwise (fun request member => long request (perm.mem_iff.mp member))
    (fun _ none_ => nomatch none_) ?_
  exact (sorted.and differ).imp fun both => UInt8.lt_of_le_of_ne both.1 both.2

section Proposals

variable [Crypto] [Payloads]

/-! ### What is proposed -/

/-- A new block on a parent: the clock ended the wait at `used`. -/
structure Proposed (env : ProposalEnv) (round : Round) (parent : FullBlock) (auxData : BlockAuxData)
    (used : Nat) (envelope : PayloadEnvelope) (block : FullBlock) : Prop where
  waited : endOfWait (parent.timestamp + 1) auxData.allowedTimestampFutureMs env.readings = some used
  built : buildPayload env auxData (selectProposalTimestamp used (parent.timestamp + 1)) =
    .ok envelope
  sealed : block = sealBlock round parent auxData
    (selectProposalTimestamp used (parent.timestamp + 1)) envelope

variable {config : ApplicationConfig} {env : ProposalEnv} {parent block : FullBlock}
  {timestamp used height : Nat} {round : Round} {envelope : PayloadEnvelope} {s : Finalizer}
  {state : ConsensusState}

theorem chooseTimestamp_eq_ok {auxData : BlockAuxData}
    (chosen : chooseTimestamp config env parent auxData = .ok timestamp) :
    ∃ used, endOfWait (parent.timestamp + 1) auxData.allowedTimestampFutureMs env.readings =
        some used ∧ timestamp = selectProposalTimestamp used (parent.timestamp + 1) := by
  unfold chooseTimestamp at chosen
  split at chosen
  · cases chosen
  · next least added =>
    obtain ⟨rfl, -⟩ := DynamicEpocher.checkedAdd_eq_some_iff.mp added
    dsimp only at chosen
    split at chosen
    · cases chosen
    split at chosen
    · cases chosen
    · next used waited => exact ⟨used, waited, (Except.ok.inj chosen).symm⟩

theorem ensureProposedBlock_eq_ok {block' : FullBlock}
    (sent : ensureProposedBlockWithinP2pLimit config block = .ok block') :
    block' = block ∧ blockSizeLimitViolation block config.maxMessageSizeBytes = none := by
  unfold ensureProposedBlockWithinP2pLimit at sent
  split at sent
  · cases sent
  · next fits => exact ⟨(Except.ok.inj sent).symm, fits⟩

theorem proposeChild_eq_ok {auxData : BlockAuxData}
    (proposed : proposeChild config env round parent auxData = .ok block) :
    blockSizeLimitViolation block config.maxMessageSizeBytes = none ∧
      ∃ used envelope, Proposed env round parent auxData used envelope block := by
  unfold proposeChild at proposed
  split at proposed
  · cases proposed
  next timestamp chosen =>
  split at proposed
  · cases proposed
  next envelope built =>
  obtain ⟨rfl, fits⟩ := ensureProposedBlock_eq_ok proposed
  obtain ⟨used, waited, rfl⟩ := chooseTimestamp_eq_ok chosen
  exact ⟨fits, used, envelope, waited, built, rfl⟩

/-- **A proposal** is the parent again when it is the last block of the epoch, and a new block
otherwise. -/
theorem handleProposal_eq_ok {epocher : DynamicEpocher} {parentDigest : Digest}
    (fetched : fetchParent config env parentDigest = .ok parent)
    (proposed : handleProposal config epocher env round parentDigest = .ok block) :
    ∃ auxData last, env.getAuxData (parent.height + 1) parent.digest = some auxData ∧
      auxData.epoch = round.epoch ∧ epocher.last auxData.epoch = some last ∧
      blockSizeLimitViolation block config.maxMessageSizeBytes = none ∧
      (parent.height = last ∧ block = parent ∨
        parent.height ≠ last ∧ ∃ used envelope,
          Proposed env round parent auxData used envelope block) := by
  unfold handleProposal at proposed
  rw [fetched] at proposed
  dsimp only at proposed
  split at proposed
  · cases proposed
  split at proposed
  · cases proposed
  next auxData answered =>
  split at proposed
  · cases proposed
  next epoch =>
  split at proposed
  · cases proposed
  next last found =>
  split at proposed
  · next again =>
    obtain ⟨rfl, fits⟩ := ensureProposedBlock_eq_ok proposed
    exact ⟨auxData, last, answered, not_not.mp epoch, found, fits, Or.inl ⟨again, rfl⟩⟩
  · next other =>
    obtain ⟨fits, made⟩ := proposeChild_eq_ok proposed
    exact ⟨auxData, last, answered, not_not.mp epoch, found, fits, Or.inr ⟨other, made⟩⟩

/-- The timestamp of a new block is after that of the parent. -/
theorem lt_selectProposalTimestamp (used least : Nat) :
    least < selectProposalTimestamp used (least + 1) :=
  Nat.lt_of_lt_of_le (Nat.lt_add_one least) (le_max_right _ _)

/-- The timestamp is one that a clock accepts which is not behind the one it was chosen with. -/
theorem selectProposalTimestamp_le {least allowed now : Nat} {readings : List Nat}
    (waited : endOfWait least allowed readings = some used) (behind : used ≤ now) :
    selectProposalTimestamp used least ≤ now + allowed := by
  have ended := List.find?_some waited
  rw [decide_eq_true_iff, proposalTimestampWait, fromMillis, saturatingAdd] at ended
  rw [selectProposalTimestamp]
  omega

/-! ### The execution layer -/

/-- The payloads that the execution layer builds on a parent: on the head of the fork choice, with
what was requested. -/
structure Builder.BuildsOn (builder : Builder) (parent : FullBlock) : Prop where
  payload : ∀ {forkchoice timestamp withdrawals feeRecipient stateRoot payloadId envelope},
    builder.startBuildingBlock forkchoice timestamp withdrawals feeRecipient stateRoot =
      some (some payloadId) →
    builder.getPayload payloadId = some envelope →
      envelope.executionPayload.parentHash = forkchoice.headBlockHash ∧
      envelope.executionPayload.blockNumber = parent.height + 1 ∧
      Payloads.headerTimestampMillis envelope.executionPayload.timestamp
        envelope.executionPayload.extraData = some timestamp ∧
      envelope.executionPayload.withdrawals = withdrawals ∧
      envelope.executionPayload.feeRecipient = feeRecipient ∧
      envelope.executionPayload.prevRandao = zeroChunk ∧
      envelope.executionPayload.blobGasUsed = 0
  requests : ∀ {payloadId envelope}, builder.getPayload payloadId = some envelope →
    (∀ request ∈ envelope.executionRequests, 1 < request.length) ∧
      (envelope.executionRequests.map requestType).Nodup

theorem buildPayload_eq_ok {auxData : BlockAuxData}
    (built : buildPayload env auxData timestamp = .ok envelope) :
    ∃ payloadId, env.builder.startBuildingBlock auxData.forkchoice timestamp auxData.withdrawals
        auxData.suggestedFeeRecipient auxData.stateRoot = some (some payloadId) ∧
      env.builder.getPayload payloadId = some envelope := by
  unfold buildPayload at built
  split at built
  · cases built
  · cases built
  · next payloadId started =>
    split at built
    · cases built
    · next made =>
      obtain rfl := Except.ok.inj built
      exact ⟨payloadId, started, made⟩

/-! ### The state of a parent -/

/-- A state that finalizers hold for a block: that of genesis, what the block was executed to, or
what finalization makes of that. -/
inductive HeldFor : FullBlock → ConsensusState → Prop where
  | genesis (genesis : Genesis) (positive : 0 < genesis.blocksPerEpoch) :
    HeldFor (FullBlock.genesis genesis.ethGenesisHash) (genesis.initialState positive)
  | executed {block : FullBlock} {consts : ProtocolConsts} {domain : Digest}
      {before state : ConsensusState}
      (executed : before.executed consts domain block.toBlock = some state) : HeldFor block state
  | finalized {block : FullBlock} {consts : ProtocolConsts} {domain : Digest} {key : PublicKey}
      {before mid state : ConsensusState} {checkpoint : Option Checkpoint}
      (executed : before.executed consts domain block.toBlock = some mid)
      (finalized : mid.finalizeExecuted key block.toBlock = some (state, checkpoint)) :
    HeldFor block state

theorem place_initialState (genesis : Genesis) (positive : 0 < genesis.blocksPerEpoch) :
    (genesis.initialState positive).epoch = 0 ∧
      (genesis.initialState positive).forkchoice.headBlockHash = genesis.ethGenesisHash := by
  rw [genesis.data_initialState positive]
  exact ⟨rfl, rfl⟩

/-- **In every run** a fork state is held for a block that was delivered. -/
theorem executed_of_reaches {env : FinalizerEnv} {K : Block → Prop} {start : ConsensusState}
    (reaches : Reaches env (fun _ event => ∀ block ∈ event.blocks, K block) (Finalizer.new start) s)
    {digest : Digest} {fork : ForkState} (found : s.forkAt height digest = some fork) :
    ∃ (block : Block) (before : ConsensusState), K block ∧ block.height = height ∧
      block.digest = digest ∧ before.executed env.protocolConsts env.depositSignatureDomain block =
        some fork.consensusState := by
  have result := reaches.invariant (K := K)
    (P := ForkTree env K fun _ block state => ∃ before : ConsensusState,
      before.executed env.protocolConsts env.depositSignatureDomain block = some state)
    (fun inv canonical forks => inv.congr canonical forks)
    (fun inv known stores => inv.stores known stores fun _ _ => ⟨_, stores.executed⟩)
    (fun _ _ inv _ advances => inv.advances advances fun _ _ _ _ _ executed => ⟨_, executed⟩)
    (fun allowed => allowed) ⟨forkTree_new start, known_new start⟩
  obtain ⟨block, known, same, grows⟩ := result.1 height digest fork found
  rcases grows.source with ⟨-, before, executed⟩ | ⟨parent, -, executed⟩
  · exact ⟨block, before, known, grows.height, same, executed⟩
  · exact ⟨block, _, known, grows.height, same, executed⟩

/-- The head of the fork choice is the execution block of the parent. -/
theorem HeldFor.headBlockHash (held : HeldFor parent state) :
    state.forkchoice.headBlockHash = parent.ethBlockHash := by
  have of_executed {consts : ProtocolConsts} {domain : Digest} {before after : ConsensusState}
      (executed : before.executed consts domain parent.toBlock = some after) :
      after.forkchoice.headBlockHash = parent.ethBlockHash :=
    congrArg (fun place => place.forkchoice.headBlockHash) (place_executed executed)
  cases held with
  | genesis genesis positive => exact (place_initialState genesis positive).2
  | executed executed => exact of_executed executed
  | finalized executed finalized =>
    exact (headBlockHash_finalizeExecuted finalized).trans (of_executed executed)

/-- The state is in the epoch of the parent, or in the next one. -/
theorem HeldFor.epoch (held : HeldFor parent state) :
    parent.epoch = state.epoch ∨ parent.epoch + 1 = state.epoch := by
  cases held with
  | genesis genesis positive => exact Or.inl (place_initialState genesis positive).1.symm
  | executed executed =>
    exact Or.inl ((executed_epoch executed).trans (ConsensusState.epoch_executed executed).symm)
  | finalized executed finalized =>
    have same := (executed_epoch executed).trans (ConsensusState.epoch_executed executed).symm
    rcases finalizeExecuted_cases finalized with ⟨-, rfl, -⟩ | ⟨-, enters⟩
    · exact Or.inl same
    · exact Or.inr ((congrArg (· + 1) same).trans enters.epoch.symm)

/-! ### The view of the parent -/

/-- The parent is genesis or a block of the epoch before. -/
def OpensEpoch (round : Round) (parent : FullBlock) : Prop :=
  parent.height = 0 ∨ parent.epoch + 1 = round.epoch

instance (round : Round) (parent : FullBlock) : Decidable (OpensEpoch round parent) :=
  inferInstanceAs (Decidable (_ ∨ _))

/-- The view that consensus signs for a parent. -/
def signedView (round : Round) (parent : FullBlock) : Nat :=
  if OpensEpoch round parent then 0 else parent.view

theorem agrees_signedView (near : parent.epoch = round.epoch ∨ parent.epoch + 1 = round.epoch) :
    signedParentViewAgrees round parent (signedView round parent) = true ↔
      OpensEpoch round parent ∨ parent.view ≠ 0 := by
  unfold signedParentViewAgrees signedView
  by_cases opens : OpensEpoch round parent
  · rw [if_pos opens, if_pos rfl, decide_eq_true_iff]
    exact iff_of_true opens (Or.inl opens)
  · have same : parent.epoch = round.epoch := near.resolve_right fun next => opens (Or.inr next)
    rw [if_neg opens, or_iff_right opens]
    by_cases unseen : parent.view = 0
    · rw [if_pos unseen, decide_eq_true_iff]
      exact iff_of_false opens (not_not.mpr unseen)
    · rw [if_neg unseen, decide_eq_true_iff]
      exact iff_of_true ⟨same, rfl⟩ unseen

/-! ### Aux data on both sides -/

/-- What the aux data of any child takes from the state of the parent. -/
structure TakenFrom (env : AuxEnv) (state : ConsensusState) (auxData : BlockAuxData) : Prop where
  epoch : auxData.epoch = state.epoch
  head : auxData.forkchoice.headBlockHash = state.forkchoice.headBlockHash
  fees : auxData.suggestedFeeRecipient = suggestedFeeRecipient env state
  treasury : auxData.treasuryAddress = state.treasuryAddress
  allowed : auxData.allowedTimestampFutureMs = state.allowedTimestampFutureMs

theorem takenFrom_auxDataOf {env : AuxEnv} {auxData : BlockAuxData}
    (made : s.auxDataOf env height state = some auxData) : TakenFrom env state auxData := by
  unfold auxDataOf at made
  split at made
  · obtain ⟨_, -, rfl⟩ := Option.map_eq_some_iff.mp made
    exact ⟨rfl, rfl, rfl, rfl, rfl⟩
  · obtain rfl := Option.some.inj made
    exact ⟨rfl, rfl, rfl, rfl, rfl⟩

/-- **Two nodes with one state of the parent** answer alike, but for the finalized block and the
recipient of the fees. -/
theorem auxDataOf_congr {env env' : AuxEnv} {s' : Finalizer} {auxData : BlockAuxData}
    (last : s'.canonicalState.epocher.isLastBlockOfEpoch height =
      s.canonicalState.epocher.isLastBlockOfEpoch height)
    (header : prevHeaderHash env' = prevHeaderHash env)
    (made : s.auxDataOf env height state = some auxData) :
    ∃ forkchoice feeRecipient, s'.auxDataOf env' height state =
      some { auxData with forkchoice, suggestedFeeRecipient := feeRecipient } := by
  unfold auxDataOf at made ⊢
  rw [last, header]
  split at made
  · next ends =>
    obtain ⟨checkpoint, pending, rfl⟩ := Option.map_eq_some_iff.mp made
    rw [if_pos ends, pending]
    exact ⟨_, _, rfl⟩
  · next inside =>
    obtain rfl := Option.some.inj made
    rw [if_neg inside]
    exact ⟨_, _, rfl⟩

/-! ### The checks of a new block -/

/-- **A new block** passes all checks but those of the epoch's end, the signed view and the clock. -/
theorem acceptable_sealBlock {auxEnv : AuxEnv} {auxData : BlockAuxData}
    (builds : env.builder.BuildsOn parent) (taken : TakenFrom auxEnv state auxData)
    (held : HeldFor parent state) (made : Proposed env round parent auxData used envelope block)
    (forkchoice : ForkchoiceState) (feeRecipient : Address) (signed last now : Nat) :
    Acceptable round block parent signed last
        { auxData with forkchoice, suggestedFeeRecipient := feeRecipient } now ↔
      parent.height + 1 ≤ last ∧ signedParentViewAgrees round parent signed = true ∧
        block.timestamp ≤ wrappingAdd now auxData.allowedTimestampFutureMs := by
  obtain ⟨-, built, rfl⟩ := made
  obtain ⟨payloadId, started, sent⟩ := buildPayload_eq_ok built
  obtain ⟨parentHash, number, millis, withdrawals, fees, randao, blobs⟩ :=
    builds.payload started sent
  obtain ⟨long, distinct⟩ := builds.requests sent
  constructor
  · intro checks
    exact ⟨checks.inEpoch, checks.parentView, checks.soon⟩
  · rintro ⟨inEpoch, parentView, soon⟩
    refine ⟨parentView, inEpoch, rfl, rfl, rfl, ?_, rfl, ?_, soon, rfl, number, millis, rfl, ?_, rfl,
      rfl, rfl, withdrawals, ascending_sortRequests long distinct, randao, blobs⟩
    · exact parentHash.trans (taken.head.trans held.headBlockHash)
    · exact lt_selectProposalTimestamp used parent.timestamp
    · -- with a treasury the fees go there
      intro set
      have treasury : state.treasuryAddress ≠ FixedBytes.zero 20 := taken.treasury ▸ set
      refine fees.trans (taken.fees.trans ?_)
      rw [suggestedFeeRecipient, if_neg treasury]
      exact taken.treasury.symm

/-! ### Nodes -/

/-- A node: its finalizer when it answers about a parent, and later when the application reads the
live schedule. -/
structure Node where
  env : FinalizerEnv
  auxEnv : AuxEnv
  start : ConsensusState
  onEpoch : start.OnEpoch
  answering : Finalizer
  reading : Finalizer
  reaches : Reaches env Anything (Finalizer.new start) answering
  after : Reaches env Anything answering reading

namespace Node

def epocher (node : Node) : DynamicEpocher := node.reading.canonicalState.epocher

def auxData (node : Node) : Nat → Digest → Option BlockAuxData :=
  node.answering.handleAuxDataMailbox node.auxEnv

def stateOf (node : Node) (parent : FullBlock) : Option ConsensusState :=
  node.answering.stateOf parent.height parent.digest

variable {parent : FullBlock} {state : ConsensusState} {one two : Node} {last : Nat}

theorem auxData_eq {node : Node} (known : node.stateOf parent = some state) :
    node.auxData (parent.height + 1) parent.digest =
      node.answering.auxDataOf node.auxEnv (parent.height + 1) state := by
  unfold auxData handleAuxDataMailbox
  rw [Nat.add_sub_cancel]
  have known : node.answering.stateOf parent.height parent.digest = some state := known
  rw [known, Option.bind_some]

theorem inEpoch (node : Node) : InEpoch node.answering := inEpoch_of_reaches node.onEpoch node.reaches

/-- Two nodes end the epoch of a common state alike. -/
theorem last_congr (known : one.stateOf parent = some state)
    (known' : two.stateOf parent = some state) (found : one.epocher.last state.epoch = some last) :
    two.epocher.last state.epoch = some last :=
  (two.inEpoch.last_eq_some_iff known' two.after).mpr
    ((one.inEpoch.last_eq_some_iff known one.after).mp found)

/-- Two nodes agree on whether a child of a common parent in its epoch is the last one. -/
theorem isLast_congr (known : one.stateOf parent = some state)
    (known' : two.stateOf parent = some state) (found : one.epocher.last state.epoch = some last)
    (inEpoch : parent.height ≤ last) :
    two.answering.canonicalState.epocher.isLastBlockOfEpoch (parent.height + 1) =
      one.answering.canonicalState.epocher.isLastBlockOfEpoch (parent.height + 1) := by
  have ends := ((one.inEpoch.last_eq_some_iff known one.after).mp found).1
  have further := one.inEpoch.first_lt known
  rw [← one.inEpoch.isLast_eq known (by omega), ← two.inEpoch.isLast_eq known' (by omega)]

end Node

end Proposals

/-- **When an honest proposal is accepted.** The leader and the voter are nodes after any deliveries
that hold the same state for the parent, with the same previous header; the execution layer builds
what is requested, no new block has the digest of its parent, and the voter's clock is not behind the
reading that the timestamp was chosen with. Then the voter accepts the block if and only if it is the
last block of the epoch proposed again, or a new block whose parent lies before it, with a view that
is zero only where an epoch opens, and the sum that the voter compares the timestamp with does not
wrap around below the reading that ended the wait, nor to the parent's timestamp or below it. -/
theorem proposal_accepted_iff [Crypto] [Payloads] (leader voter : Node) (config : ApplicationConfig)
    (env : ProposalEnv) (asks : env.getAuxData = leader.auxData) {round : Round}
    {parentDigest : Digest} {parent block : FullBlock} {state : ConsensusState}
    (fetched : fetchParent config env parentDigest = .ok parent)
    (known : leader.stateOf parent = some state) (known' : voter.stateOf parent = some state)
    (held : HeldFor parent state)
    (header : prevHeaderHash voter.auxEnv = prevHeaderHash leader.auxEnv)
    (builds : env.builder.BuildsOn parent)
    (proposed : handleProposal config leader.epocher env round parentDigest = .ok block)
    (fresh : parent.digest = block.digest → parent = block) (nowMillis : Nat)
    (clock : ∀ used, endOfWait (parent.timestamp + 1) state.allowedTimestampFutureMs env.readings =
      some used → used ≤ nowMillis) :
    (∃ auxData, voter.auxData (parent.height + 1) parent.digest = some auxData ∧
        handleVerify round block parent (signedView round parent) voter.epocher auxData nowMillis
          config.maxMessageSizeBytes = some true) ↔
      ∃ last, leader.epocher.last round.epoch = some last ∧
        (parent.height = last ∨
          parent.height < last ∧ (OpensEpoch round parent ∨ parent.view ≠ 0) ∧
            (nowMillis + state.allowedTimestampFutureMs < 2 ^ 64 ∨
              ∀ used, endOfWait (parent.timestamp + 1) state.allowedTimestampFutureMs env.readings =
                  some used →
                used ≤ (nowMillis + state.allowedTimestampFutureMs) % 2 ^ 64 ∧
                  parent.timestamp < (nowMillis + state.allowedTimestampFutureMs) % 2 ^ 64)) := by
  obtain ⟨auxData, last, answered, epoch, found, fits, shape⟩ := handleProposal_eq_ok fetched proposed
  rw [asks, Node.auxData_eq known] at answered
  have taken := takenFrom_auxDataOf answered
  have stateEpoch : state.epoch = round.epoch := taken.epoch.symm.trans epoch
  rw [taken.epoch] at found
  have voterLast := Node.last_congr known known' found
  rw [Node.auxData_eq known']
  -- the voter's answer, for a parent in the epoch
  have answered' (inEpoch : parent.height ≤ last) :=
    auxDataOf_congr (Node.isLast_congr known known' found inEpoch) header answered
  have only {other : Nat} (here : leader.epocher.last round.epoch = some other) : other = last := by
    rw [← stateEpoch, found] at here
    exact (Option.some.inj here).symm
  rcases shape with ⟨again, rfl⟩ | ⟨differs, used, envelope, made⟩
  · -- the parent proposed again
    refine iff_of_true ?_ ⟨last, stateEpoch ▸ found, Or.inl again⟩
    obtain ⟨forkchoice, feeRecipient, answered'⟩ := answered' again.le
    refine ⟨_, answered', handleVerify_eq_true.mpr ⟨epoch.symm, fits, last, ?_, Or.inl ⟨rfl, again⟩⟩⟩
    show voter.epocher.last auxData.epoch = some last
    rw [taken.epoch]
    exact voterLast
  -- a new block
  have new : parent.digest ≠ block.digest := by
    intro same
    have height : block.height = parent.height + 1 := by rw [made.sealed]; rfl
    rw [← fresh same] at height
    omega
  have near : parent.epoch = round.epoch ∨ parent.epoch + 1 = round.epoch := stateEpoch ▸ held.epoch
  have waited := made.waited
  rw [taken.allowed] at waited
  have soon : block.timestamp ≤ wrappingAdd nowMillis auxData.allowedTimestampFutureMs ↔
      nowMillis + state.allowedTimestampFutureMs < 2 ^ 64 ∨
        ∀ used, endOfWait (parent.timestamp + 1) state.allowedTimestampFutureMs env.readings =
            some used →
          used ≤ (nowMillis + state.allowedTimestampFutureMs) % 2 ^ 64 ∧
            parent.timestamp < (nowMillis + state.allowedTimestampFutureMs) % 2 ^ 64 := by
    have chosen : block.timestamp = max used (parent.timestamp + 1) := by rw [made.sealed]; rfl
    rw [wrappingAdd, taken.allowed, chosen]
    constructor
    · intro low
      refine Or.inr fun other same => ?_
      obtain rfl := Option.some.inj (waited.symm.trans same)
      exact max_le_iff.mp low
    · rintro (small | low)
      · rw [Nat.mod_eq_of_lt small]
        exact selectProposalTimestamp_le waited (clock used waited)
      · exact max_le_iff.mpr (low used waited)
  constructor
  · rintro ⟨auxData', answer, accepted⟩
    obtain ⟨-, -, last', found', ⟨again, -⟩ | ⟨-, checks⟩⟩ := handleVerify_eq_true.mp accepted
    · exact absurd again new
    have taken' := takenFrom_auxDataOf answer
    rw [taken'.epoch, voterLast] at found'
    obtain rfl := Option.some.inj found'
    have low : parent.height + 1 ≤ last := checks.height ▸ checks.inEpoch
    refine ⟨last, stateEpoch ▸ found, Or.inr ⟨low, (agrees_signedView near).mp checks.parentView,
      soon.mp ?_⟩⟩
    have checked := checks.soon
    rw [taken'.allowed, ← taken.allowed] at checked
    exact checked
  · rintro ⟨other, here, again | ⟨low, views, clocks⟩⟩
    · exact absurd (again.trans (only here)) differs
    rw [only here] at low
    obtain ⟨forkchoice, feeRecipient, answer⟩ := answered' low.le
    refine ⟨_, answer, handleVerify_eq_true.mpr ⟨epoch.symm, fits, last, ?_, Or.inr ⟨new, ?_⟩⟩⟩
    · show voter.epocher.last auxData.epoch = some last
      rw [taken.epoch]
      exact voterLast
    · exact (acceptable_sealBlock builds taken held made forkchoice feeRecipient _ last nowMillis).mpr
        ⟨low, (agrees_signedView near).mpr views, soon.mpr clocks⟩

/-! ### The first proposal -/

attribute [local instance] Crypto.summing Payloads.plain

/-- An execution layer that builds one payload on a block, with its requests out of order. -/
def plainBuilder (parent : FullBlock) (seconds : Nat) : Builder where
  startBuildingBlock forkchoice millis withdrawals feeRecipient _ :=
    if forkchoice.headBlockHash = parent.ethBlockHash ∧ millis = seconds * 1000 ∧
        withdrawals = [] ∧ feeRecipient = FixedBytes.zero 20 then some (some 0)
    else some none
  getPayload _ := some
    { executionPayload :=
        { plainPayload (parent.height + 1) parent.ethBlockHash with timestamp := seconds }
      executionRequests := [[1, 7], [0, 7]] }

theorem buildsOn_plainBuilder (parent : FullBlock) (seconds : Nat) :
    (plainBuilder parent seconds).BuildsOn parent := by
  refine ⟨?_, ?_⟩
  · intro forkchoice timestamp withdrawals feeRecipient stateRoot payloadId envelope started sent
    unfold plainBuilder at started sent
    dsimp only at started sent
    obtain rfl := Option.some.inj sent
    split at started
    · next requested =>
      obtain ⟨head, rfl, rfl, rfl⟩ := requested
      exact ⟨head.symm, rfl, rfl, rfl, rfl, rfl, rfl⟩
    · cases started
  · intro payloadId envelope sent
    obtain rfl := Option.some.inj sent
    show (∀ request ∈ [[1, 7], [0, 7]], 1 < request.length) ∧
      ([[1, 7], [0, 7]].map requestType).Nodup
    decide

/-- The environment of a leader with one reading of the clock. -/
def plainProposalEnv (auxData : Nat → Digest → Option BlockAuxData) (parent : FullBlock)
    (seconds : Nat) : ProposalEnv where
  subscribe _ := some parent
  notifyAtHeight _ _ := true
  getAuxData := auxData
  builder := plainBuilder parent seconds
  now := seconds * 1000
  readings := [seconds * 1000]

def plainConfig : ApplicationConfig where
  genesisHash := zeroChunk
  maxMessageSizeBytes := 100000
  leaderTimeout := 0

def plainGenesis : Genesis := smallGenesis []

/-- A node at genesis. -/
def genesisNode : Node where
  env := plainEnv
  auxEnv := plainAuxEnv
  start := plainGenesis.initialState (by decide)
  onEpoch := ⟨DynamicEpocher.scheduled_new (by decide), rfl⟩
  answering := Finalizer.new (plainGenesis.initialState (by decide))
  reading := Finalizer.new (plainGenesis.initialState (by decide))
  reaches := .refl
  after := .refl

def genesisParent : FullBlock := FullBlock.genesis zeroChunk

/-- The first block after genesis is accepted. -/
theorem proposal_accepted_iff_genesis :
    ∃ block auxData,
      handleProposal plainConfig genesisNode.epocher
        (plainProposalEnv genesisNode.auxData genesisParent 5) ⟨0, 2⟩ zeroChunk = .ok block ∧
      genesisNode.auxData (genesisParent.height + 1) genesisParent.digest = some auxData ∧
      handleVerify ⟨0, 2⟩ block genesisParent (signedView ⟨0, 2⟩ genesisParent) genesisNode.epocher
        auxData 5000 100000 = some true := by
  have computed : (handleProposal plainConfig genesisNode.epocher
      (plainProposalEnv genesisNode.auxData genesisParent 5) ⟨0, 2⟩ zeroChunk).toOption.map
        (fun block => decide (genesisParent.digest = block.digest)) = some false := by
    decide +kernel
  obtain ⟨block, made, differs⟩ := Option.map_eq_some_iff.mp computed
  have proposed := Checks.eq_ok_of_toOption made
  have clock : ∀ used, endOfWait (genesisParent.timestamp + 1) 1000 [5000] = some used →
      used ≤ 5000 := by
    intro used waited
    exact (List.mem_singleton.mp (List.mem_of_find?_eq_some waited)).le
  obtain ⟨auxData, answered, accepted⟩ :=
    (proposal_accepted_iff genesisNode genesisNode plainConfig
      (plainProposalEnv genesisNode.auxData genesisParent 5) rfl rfl rfl rfl
      (.genesis plainGenesis (by decide)) rfl (buildsOn_plainBuilder _ _) proposed
      (fun same => absurd same (of_decide_eq_false differs)) 5000 clock).mpr
      ⟨9, by decide +kernel, Or.inr ⟨by decide, Or.inl (Or.inl rfl), Or.inl (by decide)⟩⟩
  exact ⟨block, auxData, proposed, answered, accepted⟩

/-! ### A proposal beyond the epoch -/

/-- A child of the last block of the first epoch that declares the same epoch. -/
def tenthBlock : FullBlock :=
  plainChild ninthBlock.digest ninthBlock.ethBlockHash 10 none zeroChunk

/-- The last block of the epoch and its child are notarized. -/
def beyondEvents : List Event :=
  [.notarizedBlock ninthBlock.toBlock, .notarizedBlock tenthBlock.toBlock]

/-- **A proposal that no voter accepts.** On the child of the last block of an epoch, which is
executed when it is notarized, the leader builds a block of the epoch that has ended; with the same
state, the same clock and an execution layer that builds what is requested, it is refused. -/
theorem proposal_beyond_epoch :
    ∃ (node : Node) (block : FullBlock) (state : ConsensusState) (auxData : BlockAuxData),
      node.stateOf tenthBlock = some state ∧ HeldFor tenthBlock state ∧
      (plainBuilder tenthBlock 20).BuildsOn tenthBlock ∧
      handleProposal plainConfig node.epocher (plainProposalEnv node.auxData tenthBlock 20) ⟨0, 11⟩
        tenthBlock.digest = .ok block ∧
      tenthBlock.digest ≠ block.digest ∧
      node.auxData (tenthBlock.height + 1) tenthBlock.digest = some auxData ∧
      handleVerify ⟨0, 11⟩ block tenthBlock (signedView ⟨0, 11⟩ tenthBlock) node.epocher auxData
        20000 plainConfig.maxMessageSizeBytes = some false := by
  have computed : (beyondEvents.foldlM (Finalizer.step plainEnv) (Finalizer.new eighthState)).bind
      (fun s => (s.forkAt tenthBlock.height tenthBlock.digest).bind fun _ =>
        (handleProposal plainConfig s.canonicalState.epocher
          (plainProposalEnv (s.handleAuxDataMailbox plainAuxEnv) tenthBlock 20) ⟨0, 11⟩
          tenthBlock.digest).toOption.bind fun block =>
            (s.handleAuxDataMailbox plainAuxEnv (tenthBlock.height + 1) tenthBlock.digest).bind
              fun auxData => (handleVerify ⟨0, 11⟩ block tenthBlock
                (signedView ⟨0, 11⟩ tenthBlock) s.canonicalState.epocher auxData 20000
                plainConfig.maxMessageSizeBytes).map fun vote =>
                  (vote, decide (tenthBlock.digest = block.digest))) = some (false, false) := by
    decide +kernel
  obtain ⟨s, run, rest⟩ := Option.bind_eq_some_iff.mp computed
  obtain ⟨fork, here, rest⟩ := Option.bind_eq_some_iff.mp rest
  obtain ⟨block, made, rest⟩ := Option.bind_eq_some_iff.mp rest
  obtain ⟨auxData, answered, rest⟩ := Option.bind_eq_some_iff.mp rest
  obtain ⟨vote, voted, pair⟩ := Option.map_eq_some_iff.mp rest
  obtain ⟨rfl, differs⟩ := Prod.mk.inj pair
  have reaches : Reaches plainEnv Anything (Finalizer.new eighthState) s :=
    Run.reflTransGen_of_foldlM run fun _ _ event _ result => ⟨event, trivial, result⟩
  -- the fork state is what the child was executed to
  have delivered : Reaches plainEnv
      (fun _ event => ∀ block ∈ event.blocks, block = ninthBlock.toBlock ∨ block = tenthBlock.toBlock)
      (Finalizer.new eighthState) s := by
    refine Run.reflTransGen_of_foldlM run fun _ _ event listed result => ⟨event, ?_, result⟩
    intro block member
    rcases List.mem_pair.mp listed with rfl | rfl
    · exact Or.inl (List.mem_singleton.mp member)
    · exact Or.inr (List.mem_singleton.mp member)
  have held : HeldFor tenthBlock fork.consensusState := by
    obtain ⟨source, before, known, height, -, executed⟩ := executed_of_reaches delivered here
    rcases known with rfl | rfl
    · cases height
    · exact .executed executed
  have known : s.stateOf tenthBlock.height tenthBlock.digest = some fork.consensusState := by
    rw [Finalizer.stateOf, here]
  exact ⟨⟨plainEnv, plainAuxEnv, eighthState, onEpoch_eighthState, s, s, reaches, .refl⟩, block,
    fork.consensusState, auxData, known, held, buildsOn_plainBuilder _ _,
    Checks.eq_ok_of_toOption made, of_decide_eq_false differs, answered, voted⟩

end Summit
