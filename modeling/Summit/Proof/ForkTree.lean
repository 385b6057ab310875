/-
**The tree of fork states.**

A fork state is the result of a block on the state of its parent. While the parent is a fork state
too, that one is kept beside it; when the parent is finalized, its state becomes canonical and the
fork is left right above the head. `ForkTree` says this of every fork state, with the relation that
holds between the canonical state and a fork right above it as a parameter: storing a fork and
finalizing a block keep it (`ForkTree.stores`, `ForkTree.advances`), and what one executed block
hands on holds of every fork as soon as it holds of those above the head (`ForkTree.forall_forks`).

One instance needs no assumption on the run: a fork state is at most one epoch behind the canonical
state, and both schedules agree as far as the fork can see (`trails_of_reaches`).
-/

import Summit.Proof.Actor

set_option linter.unusedSectionVars false

namespace Summit

section ForkTree

variable [Crypto]

namespace Finalizer

/-! ### The tree -/

/-- A fork state that `block` was executed to: on the fork state of its parent, or on what `Root`
says of the canonical state. -/
structure Grows (env : FinalizerEnv) (Root : ConsensusState → Block → ConsensusState → Prop)
    (s : Finalizer) (level : Nat) (fork : ForkState) (block : Block) : Prop where
  height : block.height = level
  parent : block.parent = fork.parentDigest
  above : s.canonicalState.latestHeight < level
  stands : fork.consensusState.latestHeight = level
  source : level = s.canonicalState.latestHeight + 1 ∧
      Root s.canonicalState block fork.consensusState ∨
    ∃ parent, s.forkAt (level - 1) fork.parentDigest = some parent ∧
      parent.consensusState.executed env.protocolConsts env.depositSignatureDomain block =
        some fork.consensusState

/-- Every fork state grows from a block that is known. -/
def ForkTree (env : FinalizerEnv) (K : Block → Prop)
    (Root : ConsensusState → Block → ConsensusState → Prop) (s : Finalizer) : Prop :=
  ∀ height digest fork, s.forkAt height digest = some fork →
    ∃ block, K block ∧ block.digest = digest ∧ Grows env Root s height fork block

variable {env : FinalizerEnv} {K : Block → Prop}
  {Root : ConsensusState → Block → ConsensusState → Prop} {s s' : Finalizer}

theorem forkTree_new (state : ConsensusState) : ForkTree env K Root (new state) := by
  intro height digest fork found
  rw [forkAt_new] at found
  cases found

theorem ForkTree.congr (tree : ForkTree env K Root s)
    (canonical : s'.canonicalState = s.canonicalState) (forks : s'.forkStates = s.forkStates) :
    ForkTree env K Root s' := by
  intro height digest fork found
  rw [forkAt_congr forks] at found
  obtain ⟨block, known, same, grows⟩ := tree height digest fork found
  refine ⟨block, known, same, grows.height, grows.parent, canonical ▸ grows.above, grows.stands, ?_⟩
  rw [canonical, forkAt_congr forks]
  exact grows.source

variable {block : Block} {state : ConsensusState}

theorem ForkTree.stores {parent : ConsensusState} (tree : ForkTree env K Root s) (known : K block)
    (stores : Stores env s block parent state)
    (root : block.height = s.canonicalState.latestHeight + 1 → parent = s.canonicalState →
      Root s.canonicalState block state) :
    ForkTree env K Root (s.called.storeFork block state) := by
  intro height digest fork found
  rw [forkAt_storeFork] at found
  split at found
  · next same =>
    obtain ⟨rfl, rfl⟩ := same
    obtain rfl := Option.some.inj found
    refine ⟨block, known, rfl, rfl, rfl, stores.above, (head_executed stores.executed).1, ?_⟩
    rcases parentState_cases stores.found with ⟨next, same, -⟩ | ⟨fork, -, here, rfl⟩
    · exact Or.inl ⟨next, root next same⟩
    · exact Or.inr ⟨fork, forkAt_of_stores stores here, stores.executed⟩
  · obtain ⟨other, known, same, grows⟩ := tree height digest fork found
    refine ⟨other, known, same, grows.height, grows.parent, grows.above, grows.stands, ?_⟩
    rcases grows.source with root | ⟨parent, here, executed⟩
    · exact Or.inl root
    · exact Or.inr ⟨parent, forkAt_of_stores stores here, executed⟩

/-- The state of a finalized block stands at its height. -/
theorem ForkTree.latestHeight (tree : ForkTree env K Root s)
    (executes : s.executeFinalized env block = .ok (some state)) :
    state.latestHeight = block.height := by
  rcases executeFinalized_cases executes with ⟨fork, here, rfl, -⟩ | ⟨-, -, executed⟩
  · obtain ⟨_, -, -, grows⟩ := tree _ _ fork here
    exact grows.stands
  · exact (head_executed executed).1

/-- Every fork above the next height has its parent among the forks. -/
theorem ForkTree.rooted (tree : ForkTree env K Root s) :
    s.RootedAbove s.canonicalState.latestHeight := by
  intro height digest fork found high
  obtain ⟨_, -, -, grows⟩ := tree height digest fork found
  rcases grows.source with ⟨low, -⟩ | ⟨parent, here, -⟩
  · omega
  · exact Option.isSome_of_eq_some here

theorem ForkTree.advances {entry : PendingFinalized} (tree : ForkTree env K Root s)
    (advances : Advances env s entry state s')
    (root : ∀ child next, K child → child.height = entry.block.height + 1 →
      child.parent = entry.block.digest →
      state.executed env.protocolConsts env.depositSignatureDomain child = some next →
      Root s'.canonicalState child next) : ForkTree env K Root s' := by
  obtain ⟨checkpoint, finalizes⟩ := advances.finalizes
  have stands : s'.canonicalState.latestHeight = entry.block.height :=
    (head_finalizeExecuted finalizes).1.trans (tree.latestHeight advances.executes)
  have extended := advances.extends_.height
  intro height digest fork found
  rw [forkAt_congr advances.forkStates] at found
  obtain ⟨above, before⟩ := forkAt_promote found
  obtain ⟨block, known, same, grows⟩ := tree height digest fork before
  -- above the new head a fork has its parent among the forks
  obtain ⟨parent, here, executed⟩ : ∃ parent, s.forkAt (height - 1) fork.parentDigest = some parent ∧
      parent.consensusState.executed env.protocolConsts env.depositSignatureDomain block =
        some fork.consensusState := by
    rcases grows.source with ⟨low, -⟩ | source
    · omega
    · exact source
  have rooted : s.RootedAbove entry.block.height := tree.rooted.mono (by omega)
  refine ⟨block, known, same, grows.height, grows.parent, stands ▸ above, grows.stands, ?_⟩
  rcases parent_promote rooted found with ⟨first, link⟩ | kept
  · -- the parent is the finalized block, whose fork state was taken over
    refine Or.inl ⟨stands ▸ first,
      root block _ known (grows.height.trans first) (grows.parent.trans link) ?_⟩
    rw [first, link, Nat.add_sub_cancel] at here
    rcases executeFinalized_cases advances.executes with ⟨taken, found', rfl, -⟩ | ⟨none_, -⟩
    · obtain rfl := Option.some.inj (here.symm.trans found')
      exact executed
    · rw [none_] at here
      cases here
  · obtain ⟨parent', kept⟩ := Option.isSome_iff_exists.mp kept
    have same := (forkAt_promote kept).2
    rw [here] at same
    obtain rfl := Option.some.inj same
    exact Or.inr ⟨parent, (forkAt_congr advances.forkStates _ _).trans kept, executed⟩

/-- **What blocks hand on** holds of every fork state. -/
theorem ForkTree.forall_forks {P : ConsensusState → Prop} (tree : ForkTree env K Root s)
    (base : ∀ block state, K block → Root s.canonicalState block state → P state)
    (step : ∀ parent block state, K block → P parent →
      parent.executed env.protocolConsts env.depositSignatureDomain block = some state → P state)
    (height : Nat) (digest : Digest) (fork : ForkState)
    (found : s.forkAt height digest = some fork) : P fork.consensusState := by
  induction height generalizing digest fork with
  | zero =>
    obtain ⟨_, -, -, grows⟩ := tree 0 digest fork found
    exact absurd grows.above (Nat.not_lt_zero _)
  | succ height ih =>
    obtain ⟨block, known, -, grows⟩ := tree (height + 1) digest fork found
    rcases grows.source with ⟨-, root⟩ | ⟨parent, here, executed⟩
    · exact base block _ known root
    · exact step _ block _ known (ih _ parent here) executed

end Finalizer

/-! ### Schedules in every run -/

open DynamicEpocher

/-- The schedule is in the epoch of the state. -/
structure StateData.OnEpoch (data : StateData) : Prop where
  scheduled : data.epocher.Scheduled
  current : data.epocher.currentEpoch = data.epoch

namespace ConsensusState

variable {consts : ProtocolConsts} {domain : Digest} {key : PublicKey} {block : Block}
  {checkpoint : Option Checkpoint} {s s' canonical : ConsensusState}

theorem epoch_executed (result : s.executed consts domain block = some s') :
    s'.epoch = s.epoch :=
  congrArg Place.epoch (place_executed result)

theorem epocher_executed (result : s.executed consts domain block = some s') :
    s'.epocher = s.epocher :=
  congrArg Place.epocher (place_executed result)

theorem onEpoch_executed (on : s.OnEpoch) (result : s.executed consts domain block = some s') :
    s'.OnEpoch := by
  refine ⟨?_, ?_⟩
  · rw [epocher_executed result]
    exact on.scheduled
  · rw [epocher_executed result, epoch_executed result]
    exact on.current

/-- A state is of the canonical epoch or the one before, and sees the canonical schedule. -/
structure Trails (canonical s : ConsensusState) : Prop where
  onEpoch : s.OnEpoch
  epoch_le : s.epoch ≤ canonical.epoch
  le_epoch : canonical.epoch ≤ s.epoch + 1
  agree : ∀ epoch ≤ s.epoch + 2,
    firstHeight s.epocher.newestFirst epoch = firstHeight canonical.epocher.newestFirst epoch

theorem trails_refl (on : s.OnEpoch) : Trails s s :=
  ⟨on, le_rfl, Nat.le_succ _, fun _ _ => rfl⟩

theorem Trails.executed (trails : Trails canonical s)
    (result : s.executed consts domain block = some s') : Trails canonical s' := by
  refine ⟨onEpoch_executed trails.onEpoch result, ?_, ?_, ?_⟩
  · rw [epoch_executed result]
    exact trails.epoch_le
  · rw [epoch_executed result]
    exact trails.le_epoch
  · rw [epoch_executed result, epocher_executed result]
    exact trails.agree

/-- A finalized state is at most one epoch ahead of the executed one. -/
theorem trails_finalizeExecuted (on : s.OnEpoch)
    (result : s.finalizeExecuted key block = some (s', checkpoint)) :
    s'.OnEpoch ∧ Trails s' s := by
  rcases finalizeExecuted_cases result with ⟨-, rfl, -⟩ | ⟨-, enters⟩
  · have same : s.settledHead.OnEpoch := ⟨on.scheduled, on.current⟩
    exact ⟨same, on, le_rfl, Nat.le_succ _, fun _ _ => rfl⟩
  · obtain ⟨scheduled, agree⟩ := enters.scheduled on.scheduled on.current
    have epoch : s'.epoch = s.epoch + 1 := enters.epoch
    have current : s'.epocher.currentEpoch = s.epoch + 1 := enters.current
    refine ⟨⟨scheduled, current.trans epoch.symm⟩, on, by omega, by omega, fun other visible => ?_⟩
    exact (agree other visible).symm

end ConsensusState

namespace Finalizer

variable {env : FinalizerEnv} {start : ConsensusState} {s later : Finalizer}

/-- Every event is allowed. -/
abbrev Anything : Finalizer → Event → Prop := fun _ _ => True

/-- The states that a node knows are of the canonical epoch or the one before. -/
structure InEpoch (s : Finalizer) : Prop where
  canonical : s.canonicalState.OnEpoch
  forks : ∀ height digest fork, s.forkAt height digest = some fork →
    s.canonicalState.Trails fork.consensusState

variable {block : Block} {state : ConsensusState} {epoch height : Nat}

theorem InEpoch.stateOf_executeFinalized (inEpoch : InEpoch s)
    (executes : s.executeFinalized env block = .ok (some state)) : state.OnEpoch := by
  rcases executeFinalized_cases executes with ⟨fork, here, rfl, -⟩ | ⟨-, -, executed⟩
  · exact (inEpoch.forks _ _ fork here).onEpoch
  · exact ConsensusState.onEpoch_executed inEpoch.canonical executed

/-- The tree whose forks right above the head trail the canonical state. -/
abbrev TrailingTree (env : FinalizerEnv) (s : Finalizer) : Prop :=
  ForkTree env (fun _ => True) (fun canonical _ state => canonical.Trails state) s

theorem TrailingTree.inEpoch (tree : TrailingTree env s) (on : s.canonicalState.OnEpoch) :
    InEpoch s :=
  ⟨on, tree.forall_forks (fun _ _ _ root => root) fun _ _ _ _ trails executed =>
    trails.executed executed⟩

/-- **In every run**, whatever is delivered, the fork states trail the canonical state. -/
theorem inEpoch_of_reaches (on : start.OnEpoch) (reaches : Reaches env Anything (new start) s) :
    InEpoch s := by
  have result := reaches.invariant (K := fun _ => True)
    (P := fun s => s.canonicalState.OnEpoch ∧ TrailingTree env s)
    (fun inv canonical forks => ⟨canonical ▸ inv.1, inv.2.congr canonical forks⟩)
    (fun {s block parent state} inv known stores => by
      refine ⟨inv.1, inv.2.stores trivial stores fun _ same => ?_⟩
      have executed := stores.executed
      rw [same] at executed
      exact (ConsensusState.trails_refl inv.1).executed executed)
    (fun _ _ inv _ advances => by
      have on := (inv.2.inEpoch inv.1).stateOf_executeFinalized advances.executes
      obtain ⟨checkpoint, finalizes⟩ := advances.finalizes
      obtain ⟨on', trails⟩ := ConsensusState.trails_finalizeExecuted on finalizes
      exact ⟨on', inv.2.advances advances fun _ _ _ _ _ executed => trails.executed executed⟩)
    (fun _ _ _ => trivial) ⟨⟨on, forkTree_new start⟩, known_new start⟩
  exact result.1.2.inEpoch result.1.1

/-! ### The live schedule later on -/

/-- A state whose schedule ends `epoch` right before `height`, and keeps to it. -/
structure Pinned (epoch height : Nat) (state : ConsensusState) : Prop where
  onEpoch : state.OnEpoch
  near : epoch ≤ state.epoch + 1
  ends : firstHeight state.epocher.newestFirst (epoch + 1) = height

theorem Pinned.executed {parent : ConsensusState} {consts : ProtocolConsts} {domain : Digest}
    (pinned : Pinned epoch height parent)
    (result : parent.executed consts domain block = some state) : Pinned epoch height state := by
  refine ⟨ConsensusState.onEpoch_executed pinned.onEpoch result, ?_, ?_⟩
  · rw [ConsensusState.epoch_executed result]
    exact pinned.near
  · rw [ConsensusState.epocher_executed result]
    exact pinned.ends

theorem Pinned.finalizeExecuted {state' : ConsensusState} {key : PublicKey}
    {checkpoint : Option Checkpoint} (pinned : Pinned epoch height state)
    (result : state.finalizeExecuted key block = some (state', checkpoint)) :
    Pinned epoch height state' := by
  obtain ⟨on, trails⟩ := ConsensusState.trails_finalizeExecuted pinned.onEpoch result
  have near := pinned.near
  have rises := trails.epoch_le
  refine ⟨on, by omega, ?_⟩
  rw [← trails.agree (epoch + 1) (by omega)]
  exact pinned.ends

/-- All states that a node knows are pinned. -/
structure AllPinned (epoch height : Nat) (s : Finalizer) : Prop where
  canonical : Pinned epoch height s.canonicalState
  forks : ∀ level digest fork, s.forkAt level digest = some fork →
    Pinned epoch height fork.consensusState

theorem AllPinned.of_reaches (pinned : AllPinned epoch height s)
    (reaches : Reaches env Anything s later) : AllPinned epoch height later := by
  have result := reaches.invariant (K := fun _ => True) (P := AllPinned epoch height)
    (fun inv canonical forks => ⟨canonical ▸ inv.canonical, fun level digest fork found =>
      inv.forks level digest fork ((forkAt_congr forks level digest).symm.trans found)⟩)
    (fun {s block parent state} inv _ stores => by
      refine ⟨inv.canonical, fun level digest fork found => ?_⟩
      rw [forkAt_storeFork] at found
      split at found
      · obtain rfl := Option.some.inj found
        rcases parentState_cases stores.found with ⟨-, rfl, -⟩ | ⟨fork, -, here, rfl⟩
        · exact inv.canonical.executed stores.executed
        · exact (inv.forks _ _ fork here).executed stores.executed
      · exact inv.forks level digest fork found)
    (fun {s event entry state s'} _ _ inv _ advances => by
      have state_pinned : Pinned epoch height state := by
        rcases executeFinalized_cases advances.executes with
          ⟨fork, here, rfl, -⟩ | ⟨-, -, executed⟩
        · exact inv.forks _ _ fork here
        · exact inv.canonical.executed executed
      obtain ⟨checkpoint, finalizes⟩ := advances.finalizes
      refine ⟨state_pinned.finalizeExecuted finalizes, fun level digest fork found => ?_⟩
      rw [forkAt_congr advances.forkStates] at found
      exact inv.forks level digest fork (forkAt_promote found).2)
    (fun _ _ _ => trivial)
    ⟨pinned, fun _ _ => trivial, fun _ _ => trivial, fun _ _ => trivial⟩
  exact result.1

end Finalizer

end ForkTree

end Summit
