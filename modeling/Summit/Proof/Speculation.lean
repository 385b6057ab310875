/-
**Speculative execution refines direct execution.**

`directStep` is the finalized chain alone: a block is executed on the canonical state and finalized.
The actor may have executed the block before, when it was notarized, on the state its parent had
then; it takes that state over without executing the block again. Three facts make the two agree. A
fork state right above the head is what its block makes of the canonical state (`Mirrors`): the
parent's state becomes canonical as it is, since an executed state has a settled fork choice
(`settledHead_executed`). At the end of an epoch the canonical state moves on and no fork is left
behind, since a child of the last block declares the next epoch and is not executed before the
boundary (`no_child_before_boundary`). And the answers of the execution layer do not change once it
has given one, so the block that was accepted is accepted again.

`speculation_refines`: the canonical state and the stored checkpoints are those of the direct run over
the finalized chain.
-/

import Summit.Proof.FinalizedChain
import Summit.Proof.Verification

set_option linter.unusedSectionVars false

namespace Summit

open Finalizer

section Speculation

variable [Crypto]

/-! ### The direct run -/

/-- A state with the checkpoints stored so far. -/
abbrev DirectState := ConsensusState × List (Nat × Checkpoint × Block)

/-- One block of the finalized chain, executed on the canonical path and finalized. -/
def directStep (engine : Engine) (env : FinalizerEnv) (s : DirectState) (block : Block) :
    Option DirectState :=
  match s.1.executeBlock engine env.protocolConsts env.depositSignatureDomain none block with
  | .applied executed =>
    (executed.finalizeExecuted env.nodePublicKey block).map fun result =>
      (result.1,
        s.2 ++ (result.2.map fun checkpoint => (executed.epoch, checkpoint, block)).toList)
  | .syncing | .invalidPayload | .engineError | .halted => none

/-- The blocks that rise above a height, each once. -/
def risingFrom : Nat → List Block → List Block
  | _, [] => []
  | height, block :: rest =>
    if block.height ≤ height then risingFrom height rest else block :: risingFrom block.height rest

/-- The finalized chain: the acknowledged blocks without those that were delivered again. -/
def Finalizer.finalizedChain (start : ConsensusState) (s : Finalizer) : List Block :=
  risingFrom start.latestHeight (s.acknowledged.map PendingFinalized.block)

/-- The highest of some blocks. -/
def topOf (height : Nat) (blocks : List Block) : Nat :=
  blocks.foldl (fun top block => max top block.height) height

theorem topOf_append (height : Nat) (blocks : List Block) (block : Block) :
    topOf height (blocks ++ [block]) = max (topOf height blocks) block.height := by
  rw [topOf, List.foldl_append]
  rfl

theorem risingFrom_append (height : Nat) (blocks : List Block) (block : Block) :
    risingFrom height (blocks ++ [block]) =
      risingFrom height blocks ++ (if block.height ≤ topOf height blocks then [] else [block]) := by
  induction blocks generalizing height with
  | nil => rfl
  | cons first rest ih =>
    rw [List.cons_append, risingFrom, risingFrom, topOf, List.foldl_cons, ← topOf]
    by_cases old : first.height ≤ height
    · rw [if_pos old, if_pos old, max_eq_left old]
      exact ih height
    · rw [if_neg old, if_neg old, max_eq_right (Nat.le_of_not_le old), ih first.height]
      rfl

/-! ### The execution layer -/

/-- The execution layer answers SYNCING, or as `engine` does; its answer about a fork choice depends
on the head alone. -/
structure Answers (env : FinalizerEnv) (engine : Engine) : Prop where
  payload : ∀ call block, (env.engine call).checkPayload block = some .syncing ∨
    (env.engine call).checkPayload block = engine.checkPayload block
  forkchoice : ∀ call (sent other : ForkchoiceState), sent.headBlockHash = other.headBlockHash →
    (env.engine call).commitHash sent = some .syncing ∨
      (env.engine call).commitHash sent = engine.commitHash other

theorem Answers.accepts {env : FinalizerEnv} {engine : Engine} (answers : Answers env engine)
    {call : Nat} {sent other : Option Bytes32} {block : Block}
    (accepted : (env.engine call).Accepts sent block) : engine.Accepts other block := by
  obtain ⟨payload, forkchoice⟩ := accepted
  constructor
  · rcases answers.payload call block with syncing | same
    · rw [payload] at syncing
      cases syncing
    · exact same.symm.trans payload
  · rcases answers.forkchoice call
        ⟨block.ethBlockHash, sent.getD block.ethBlockHash, sent.getD block.ethBlockHash⟩
        ⟨block.ethBlockHash, other.getD block.ethBlockHash, other.getD block.ethBlockHash⟩ rfl with
      syncing | same
    · rw [forkchoice] at syncing
      cases syncing
    · exact same.symm.trans forkchoice

/-! ### The schedule of the blocks -/

/-- The blocks that arrive are among the delivered ones, and these declare the epochs that the
canonical schedule assigns to their heights, as far as it reaches. -/
structure Declares (delivered : Block → Prop) (s : Finalizer) (event : Event) : Prop where
  blocks : ∀ block ∈ event.blocks, delivered block
  epochs : ∀ block, delivered block →
    block.height < DynamicEpocher.firstHeight s.canonicalState.epocher.newestFirst
      (s.canonicalState.epoch + 2) →
    (s.canonicalState.epocher.containing block.height).map EpochInfo.epoch = some block.epoch

/-- Whether some blocks declare the epochs of their heights in a state. -/
def Finalizer.declares (blocks : List Block) (s : Finalizer) : Bool :=
  blocks.all fun block => decide (block.height <
      DynamicEpocher.firstHeight s.canonicalState.epocher.newestFirst (s.canonicalState.epoch + 2) →
    (s.canonicalState.epocher.containing block.height).map EpochInfo.epoch = some block.epoch)

/-- A run whose states are checked before each event. -/
theorem reaches_of_declares {env : FinalizerEnv} {blocks : List Block} {events : List Event}
    {s s' : Finalizer} (brings : ∀ event ∈ events, ∀ block ∈ event.blocks, block ∈ blocks)
    (run : events.foldlM (Run.guarded (declares blocks) (step env)) s = some s') :
    Reaches env (Declares (· ∈ blocks)) s s' := by
  refine Run.reflTransGen_of_guarded run fun s s' event member checked result => ?_
  refine ⟨event, ⟨brings event member, fun block known => ?_⟩, result⟩
  exact of_decide_eq_true (List.all_eq_true.mp checked block known)

theorem digests_injective {blocks : List Block} (distinct : (blocks.map Block.digest).Nodup)
    (one two : Block) (known : one ∈ blocks) (known' : two ∈ blocks)
    (same : one.digest = two.digest) : one = two :=
  List.inj_on_of_nodup_map distinct known known' same

/-- The epoch that contains a height ends where the next one starts. -/
theorem containing_ends {s : ConsensusState} (on : s.OnEpoch) {height : Nat} {info : EpochInfo}
    (found : s.epocher.containing height = some info) :
    info.height = height ∧ info.epoch ≤ s.epoch + 1 ∧ height ≤ info.last ∧
      DynamicEpocher.firstHeight s.epocher.newestFirst (info.epoch + 1) = info.last + 1 := by
  obtain ⟨same, visible, within, -, high⟩ := on.scheduled.containing_eq_some_iff.mp found
  obtain ⟨-, ended, -⟩ := (DynamicEpocher.bounds_eq_some_iff on.scheduled.linked).mp within
  rw [on.current] at visible
  exact ⟨same, visible, high, ended⟩

/-- **No child before the boundary**: a child of the last block of an epoch declares another one. -/
theorem no_child_before_boundary {delivered : Block → Prop} {s : Finalizer} {event : Event}
    {block child : Block} (on : s.canonicalState.OnEpoch) (declares : Declares delivered s event)
    (known : delivered block) (known' : delivered child)
    (epoch : block.epoch = s.canonicalState.epoch) (height : child.height = block.height + 1)
    (last : s.canonicalState.epocher.isLastBlockOfEpoch block.height = true) :
    child.epoch ≠ s.canonicalState.epoch := by
  have mono := DynamicEpocher.firstHeight_strictMono on.scheduled.linked
  obtain ⟨info, found, ends⟩ := (Option.any_eq_true _ _).mp last
  obtain ⟨same, visible, -, ended⟩ := containing_ends on found
  rw [decide_eq_true_iff, same] at ends
  have reach : DynamicEpocher.firstHeight s.canonicalState.epocher.newestFirst (info.epoch + 1) ≤
      DynamicEpocher.firstHeight s.canonicalState.epocher.newestFirst (s.canonicalState.epoch + 2) :=
    mono.monotone (Nat.succ_le_succ visible)
  -- the block declares the canonical epoch, so that is the epoch that ends with it
  have inEpoch : info.epoch = s.canonicalState.epoch := by
    have declared := declares.epochs block known (by omega)
    rw [found] at declared
    exact (Option.some.inj declared).trans epoch
  rw [inEpoch] at ended
  have further : DynamicEpocher.firstHeight s.canonicalState.epocher.newestFirst
        (s.canonicalState.epoch + 1) <
      DynamicEpocher.firstHeight s.canonicalState.epocher.newestFirst (s.canonicalState.epoch + 2) :=
    mono (Nat.lt_add_one _)
  obtain ⟨next, found', declared⟩ := Option.map_eq_some_iff.mp
    (declares.epochs child known' (by omega))
  obtain ⟨-, -, high, ended'⟩ := containing_ends on found'
  intro stale
  rw [← declared] at stale
  rw [stale] at ended'
  omega

/-! ### Forks mirror the canonical path -/

/-- The forks right above the head are what their blocks make of the canonical state, and every fork
state is of a block that the execution layer accepts. -/
structure Mirrors (env : FinalizerEnv) (engine : Engine) (delivered : Block → Prop) (s : Finalizer) :
    Prop where
  committed : s.canonicalState.Committed
  onEpoch : s.canonicalState.OnEpoch
  tree : ForkTree env delivered (fun canonical block state =>
    canonical.executed env.protocolConsts env.depositSignatureDomain block = some state) s
  accepted : ∀ height digest fork, s.forkAt height digest = some fork →
    ∃ block, delivered block ∧ block.digest = digest ∧ engine.Accepts none block

section Run

variable {env : FinalizerEnv} {engine : Engine} {delivered : Block → Prop}
  {s s' : Finalizer}

theorem Mirrors.congr (mirrors : Mirrors env engine delivered s)
    (canonical : s'.canonicalState = s.canonicalState) (forks : s'.forkStates = s.forkStates) :
    Mirrors env engine delivered s' :=
  ⟨canonical ▸ mirrors.committed, canonical ▸ mirrors.onEpoch, mirrors.tree.congr canonical forks,
    fun height digest fork found =>
      mirrors.accepted height digest fork ((forkAt_congr forks height digest).symm.trans found)⟩

variable {state : ConsensusState} {entry : PendingFinalized}

variable (answers : Answers env engine)
  (injective : ∀ one two, delivered one → delivered two → one.digest = two.digest → one = two)

include answers in
theorem Mirrors.stores {block : Block} {parent : ConsensusState} (mirrors : Mirrors env engine delivered s) (known : delivered block)
    (stores : Stores env s block parent state) :
    Mirrors env engine delivered (s.called.storeFork block state) := by
  refine ⟨mirrors.committed, mirrors.onEpoch, mirrors.tree.stores known stores fun _ same => ?_,
    fun height digest fork found => ?_⟩
  · have executed := stores.executed
    rw [same] at executed
    exact executed
  · rw [forkAt_storeFork] at found
    split at found
    · next same => exact ⟨block, known, same.2.symm, answers.accepts stores.accepted⟩
    · exact mirrors.accepted height digest fork found

include injective

/-- **A fork state right above the head** is what executing its block on the canonical state gives. -/
theorem Mirrors.reused {fork : ForkState}
    (mirrors : Mirrors env engine delivered s) (known : delivered entry.block)
    (extends_ : s.Extends entry) (here : s.forkAt entry.block.height entry.block.digest = some fork) :
    engine.Accepts none entry.block ∧
      s.canonicalState.executed env.protocolConsts env.depositSignatureDomain entry.block =
        some fork.consensusState := by
  obtain ⟨other, known', same, accepted⟩ := mirrors.accepted _ _ fork here
  obtain ⟨source, known'', same', grows⟩ := mirrors.tree _ _ fork here
  rw [injective other entry.block known' known same] at accepted
  obtain rfl := injective source entry.block known'' known same'
  refine ⟨accepted, ?_⟩
  rcases grows.source with ⟨-, executed⟩ | ⟨parent, below, -⟩
  · exact executed
  · -- no fork state lies at the height of the head
    obtain ⟨_, -, -, low⟩ := mirrors.tree _ _ parent below
    have above := low.above
    have height := extends_.height
    omega

include answers

/-- **A finalized block**, taken over or executed, leads where it leads on the canonical state. -/
theorem Mirrors.direct (mirrors : Mirrors env engine delivered s) (known : delivered entry.block)
    (extends_ : s.Extends entry) (executes : s.executeFinalized env entry.block = .ok (some state)) :
    engine.Accepts none entry.block ∧
      s.canonicalState.executed env.protocolConsts env.depositSignatureDomain entry.block =
        some state := by
  rcases executeFinalized_cases executes with ⟨fork, here, rfl, -⟩ | ⟨-, accepted, executed⟩
  · exact mirrors.reused injective known extends_ here
  · exact ⟨answers.accepts accepted, executed⟩

theorem Mirrors.advances {event : Event} (declares : Declares delivered s event)
    (mirrors : Mirrors env engine delivered s) (known : delivered entry.block) (advances : Advances env s entry state s') :
    Mirrors env engine delivered s' := by
  obtain ⟨-, executed⟩ := mirrors.direct answers injective known advances.extends_ advances.executes
  obtain ⟨checkpoint, finalizes⟩ := advances.finalizes
  have committed := committed_executed mirrors.committed executed
  have on := ConsensusState.onEpoch_executed mirrors.onEpoch executed
  have epocher := ConsensusState.epocher_executed executed
  refine ⟨committed_finalizeExecuted committed finalizes,
    (ConsensusState.trails_finalizeExecuted on finalizes).1, ?_, fun height digest fork found => ?_⟩
  · refine mirrors.tree.advances advances ?_
    intro child next known' height _ childExecuted
    rcases finalizeExecuted_cases finalizes with ⟨-, same, -⟩ | ⟨last, -⟩
    · rw [same, settledHead_executed mirrors.committed executed]
      exact childExecuted
    · rw [epocher] at last
      refine absurd ?_ (no_child_before_boundary mirrors.onEpoch declares known known'
        (executed_epoch executed) height last)
      exact (executed_epoch childExecuted).trans (ConsensusState.epoch_executed executed)
  · rw [forkAt_congr advances.forkStates] at found
    exact mirrors.accepted height digest fork (forkAt_promote found).2

/-! ### Runs -/

variable {start : ConsensusState}

theorem mirrors_of_reaches (committed : start.Committed) (on : start.OnEpoch)
    (reaches : Reaches env (Declares delivered) (Finalizer.new start) s) :
    Mirrors env engine delivered s ∧ s.Known delivered :=
  reaches.invariant (fun inv canonical forks => inv.congr canonical forks)
    (fun inv known stores => inv.stores answers known stores)
    (fun declares _ inv known advances => inv.advances answers injective declares known advances)
    (fun declares => declares.blocks)
    ⟨⟨committed, on, forkTree_new start, fun _ _ _ found => by rw [forkAt_new] at found; cases found⟩,
      known_new start⟩

/-- The canonical state and the checkpoints are those of the direct run. -/
structure Refines (env : FinalizerEnv) (engine : Engine) (start : ConsensusState) (s : Finalizer) :
    Prop where
  direct : (s.finalizedChain start).foldlM (directStep engine env) (start, []) =
    some (s.canonicalState, s.storedCheckpoints)
  top : topOf start.latestHeight (s.acknowledged.map PendingFinalized.block) =
    s.canonicalState.latestHeight

/-- **One event**: a block of the finalized chain is one step of the direct run. -/
theorem Refines.step {event : Event} (refines : Refines env engine start s) (mirrors : Mirrors env engine delivered s)
    (known : ∀ entry, s.handled event = some entry → delivered entry.block)
    (result : s.step env event = some s') : Refines env engine start s' := by
  rw [step_eq_some_iff] at result
  have outcome := outcome_handle env s event
  rw [result] at outcome
  have appended {entry : PendingFinalized} (acknowledged : s'.acknowledged = s.acknowledged ++ [entry]) :
      s'.acknowledged.map PendingFinalized.block =
        s.acknowledged.map PendingFinalized.block ++ [entry.block] := by
    rw [acknowledged, List.map_append, List.map_singleton]
  cases outcome with
  | idle canonicalState acknowledged checkpoints _ =>
    refine ⟨?_, ?_⟩
    · rw [finalizedChain, acknowledged, canonicalState, checkpoints]
      exact refines.direct
    · rw [acknowledged, canonicalState]
      exact refines.top
  | @duplicate _ entry _ old _ canonicalState acknowledged checkpoints _ =>
    refine ⟨?_, ?_⟩
    · rw [finalizedChain, appended acknowledged, risingFrom_append, refines.top, if_pos old,
        List.append_nil, canonicalState, checkpoints]
      exact refines.direct
    · rw [appended acknowledged, topOf_append, refines.top, max_eq_left old, canonicalState]
  | @applied _ _ entry state checkpoint handles extends_ executes finalizes acknowledged checkpoints _ =>
    obtain ⟨accepted, executed⟩ := mirrors.direct answers injective (known entry handles) extends_
      executes
    have new : ¬entry.block.height ≤ s.canonicalState.latestHeight := by
      have := extends_.height
      omega
    refine ⟨?_, ?_⟩
    · rw [finalizedChain, appended acknowledged, risingFrom_append, refines.top, if_neg new,
        List.foldlM_append]
      have direct := refines.direct
      rw [finalizedChain] at direct
      rw [direct]
      have applied := executeBlock_eq_applied.mpr ⟨accepted, executed⟩
      show (directStep engine env (s.canonicalState, s.storedCheckpoints) entry.block >>= pure) = _
      rw [bind_pure, directStep]
      simp only [applied, finalizes, Option.map_some, checkpoints]
    · rw [appended acknowledged, topOf_append, refines.top,
        max_eq_right (Nat.le_of_not_le new), (head_finalizeExecuted finalizes).1,
        (head_executed executed).1]

theorem refines_of_reaches (committed : start.Committed) (on : start.OnEpoch)
    (reaches : Reaches env (Declares delivered) (Finalizer.new start) s) :
    Refines env engine start s := by
  induction reaches with
  | refl => exact ⟨rfl, rfl⟩
  | @tail mid last before step ih =>
    obtain ⟨event, declares, result⟩ := step
    obtain ⟨mirrors, known⟩ := mirrors_of_reaches answers injective committed on before
    exact ih.step answers injective mirrors (fun entry => known.handled declares.blocks) result

end Run

end Speculation

/-- **Speculative execution refines direct execution.** In every run in which the delivered blocks
declare the epochs of their heights and differ in their digests, and the execution layer answers
SYNCING or as `engine` does, the canonical state and the stored checkpoints are what executing and
finalizing the blocks of the finalized chain alone makes of the start; and a fork state that the next
finalized block takes over is what executing the block on the canonical state gives. -/
theorem speculation_refines [Crypto] (env : FinalizerEnv) (engine : Engine) (start : ConsensusState)
    (committed : start.Committed) (on : start.OnEpoch) (delivered : Block → Prop)
    (answers : Answers env engine)
    (injective : ∀ one two, delivered one → delivered two → one.digest = two.digest → one = two)
    (s : Finalizer) (reaches : Reaches env (Declares delivered) (Finalizer.new start) s) :
    (s.finalizedChain start).foldlM (directStep engine env) (start, []) =
        some (s.canonicalState, s.storedCheckpoints) ∧
      ∀ entry fork, delivered entry.block → s.Extends entry →
        s.forkAt entry.block.height entry.block.digest = some fork →
        s.canonicalState.executeBlock engine env.protocolConsts env.depositSignatureDomain none
          entry.block = .applied fork.consensusState := by
  constructor
  · exact (refines_of_reaches answers injective committed on reaches).direct
  · intro entry fork known extends_ here
    obtain ⟨mirrors, -⟩ := mirrors_of_reaches answers injective committed on reaches
    exact executeBlock_eq_applied.mpr (mirrors.reused injective known extends_ here)

attribute [local instance] Crypto.accepting

/-- The last block of the epoch is notarized and then finalized: its fork state is taken over, and the
boundary is passed as in the direct run. -/
theorem speculation_refines_last :
    ∃ s, Reaches acceptingEnv (Declares (· ∈ [plainBlock 9])) (Finalizer.new endingState) s ∧
      s.canonicalState.epoch = 1 ∧
      [plainBlock 9].foldlM (directStep (acceptingEnv.engine 0) acceptingEnv) (endingState, []) =
        some (s.canonicalState, s.storedCheckpoints) := by
  have computed : ([.notarizedBlock (plainBlock 9), .finalizedBlock (plainEntry 9)].foldlM
      (Run.guarded (declares [plainBlock 9]) (step acceptingEnv)) (Finalizer.new endingState)).map
        (fun s => (s.canonicalState.epoch, s.finalizedChain endingState)) =
      some (1, [plainBlock 9]) := by
    decide +kernel
  obtain ⟨s, run, facts⟩ := Option.map_eq_some_iff.mp computed
  simp only [Prod.mk.injEq] at facts
  obtain ⟨epoch, chain⟩ := facts
  have reaches := reaches_of_declares (by decide) run
  obtain ⟨direct, -⟩ := speculation_refines acceptingEnv (acceptingEnv.engine 0) endingState
    (committed_ofData _ _ _) ⟨DynamicEpocher.scheduled_new (by decide), rfl⟩ (· ∈ [plainBlock 9])
    ⟨fun _ _ => .inr rfl, fun _ _ _ _ => .inr rfl⟩
    (digests_injective (by decide)) s reaches
  rw [chain] at direct
  exact ⟨s, reaches, epoch, direct⟩

end Summit
