/-
**What the handlers of the actor do.**

A handler is a sequence of a few kinds of steps. A block of the work list is skipped, kept as an
orphan, deferred, or executed and stored (`WorkStep`); a finalized block is refused, acknowledged
again, deferred, or made canonical (`Finalized`). From these, two rules: a property of the canonical
state and the fork states that storing a fork and finalizing a block keep holds along every run
(`Reaches.invariant`), and every event leaves the canonical state, the acknowledgements and the
stored checkpoints alone or applies one finalized block to them (`outcome_handle`). The work list
is always finished (`processAll_finishes`), and a drain of the buffers is a run of retries
(`ends_drainPending`).
-/

import Summit.Model.Actor
import Summit.Proof.Execution

set_option linter.unusedSectionVars false

namespace Summit

/-- The checkpoint that a write stores. -/
def DbWrite.asCheckpoint [Crypto] : DbWrite → Option (Nat × Checkpoint × Block)
  | .finalizedCheckpoint epoch checkpoint block => some (epoch, checkpoint, block)
  | .finalizedHeader _ _ _ => none
  | .consensusState _ _ => none

namespace Finalizer

section Actor

variable [Crypto] {env : FinalizerEnv}

/-! ### Fork states -/

variable {s s' mid : Finalizer} {height level : Nat} {digest child : Digest} {fork : ForkState}
  {levels : List (Nat × SortedMap Digest ForkState)} {block : Block} {P : Finalizer → Prop}
  {K : Block → Prop} {toProcess : List Block} {state : ConsensusState} {entry : PendingFinalized}
  {event : Event} {guard : Finalizer → Event → Prop} {done : Bool} {children : List Block}
  {made : Finalizer × Except FinalizerError (Option (List Block))}

/-- A fork state of one of the levels. -/
def ForkIn (levels : List (Nat × SortedMap Digest ForkState)) (level : Nat) (digest : Digest)
    (fork : ForkState) : Prop :=
  ∃ forks, (level, forks) ∈ levels ∧ forks.find? digest = some fork

theorem forkIn_cons {first : Nat} {forks : SortedMap Digest ForkState} :
    ForkIn ((first, forks) :: levels) level digest fork ↔
      level = first ∧ forks.find? digest = some fork ∨ ForkIn levels level digest fork := by
  constructor
  · rintro ⟨here, member, found⟩
    rcases List.mem_cons.mp member with same | member
    · obtain ⟨rfl, rfl⟩ := Prod.mk.inj same
      exact Or.inl ⟨rfl, found⟩
    · exact Or.inr ⟨here, member, found⟩
  · rintro (⟨rfl, found⟩ | ⟨here, member, found⟩)
    · exact ⟨forks, List.mem_cons_self, found⟩
    · exact ⟨here, List.mem_cons_of_mem _ member, found⟩

theorem forkAt_eq_some_iff :
    s.forkAt height digest = some fork ↔ ForkIn s.forkStates.entries height digest fork := by
  rw [forkAt, Option.bind_eq_some_iff]
  exact exists_congr fun forks => and_congr_left fun _ => SortedMap.find?_eq_some_iff

theorem forkAt_congr (same : s'.forkStates = s.forkStates) (height : Nat) (digest : Digest) :
    s'.forkAt height digest = s.forkAt height digest := by
  rw [forkAt, same, ← forkAt]

theorem forkAt_insertFork (s : Finalizer) (height : Nat) (digest : Digest) (fork : ForkState)
    (height' : Nat) (digest' : Digest) :
    (s.insertFork height digest fork).forkAt height' digest' =
      if height' = height ∧ digest' = digest then some fork else s.forkAt height' digest' := by
  rw [forkAt, insertFork, SortedMap.find?_insert]
  by_cases level : height' = height
  · subst level
    rw [if_pos rfl, Option.bind_some, SortedMap.find?_insert]
    by_cases same : digest' = digest
    · rw [if_pos same, if_pos ⟨rfl, same⟩]
    · rw [if_neg same, if_neg (fun both => same both.2), forkAt]
      cases s.forkStates.find? height' with
      | none => rfl
      | some forks => rfl
  · rw [if_neg level, if_neg (fun both => level both.1), forkAt]

theorem forkAt_storeFork (s : Finalizer) (block : Block) (state : ConsensusState) (height : Nat)
    (digest : Digest) :
    (s.storeFork block state).forkAt height digest =
      if height = block.height ∧ digest = block.digest then
        some { blockDigest := block.digest, parentDigest := block.parent, consensusState := state }
      else s.forkAt height digest :=
  forkAt_insertFork s block.height block.digest _ height digest

/-! ### Pruning -/

theorem forkIn_of_pruneLevels {parents : List Digest}
    (kept : ForkIn (pruneLevels height parents levels) level digest fork) :
    ForkIn levels level digest fork := by
  induction levels generalizing parents with
  | nil => exact kept
  | cons first rest ih =>
    rw [forkIn_cons]
    rw [pruneLevels] at kept
    split at kept
    · exact (forkIn_cons.mp kept).imp_right ih
    · dsimp only at kept
      split at kept
      · exact Or.inr (ih kept)
      · refine (forkIn_cons.mp kept).imp (And.imp_right fun found => ?_) ih
        rw [SortedMap.find?_filter] at found
        exact (Option.filter_eq_some_iff.mp found).1

/-- **Pruning keeps whole branches.** `D` says which forks descend from the parents that are left;
where every fork above the first level has its parent on the level below, those are kept and the
others are dropped. -/
theorem pruneLevels_iff {D : Nat → Digest → Prop} (height bottom : Nat) (parents : List Digest)
    (low : height ≤ bottom) (sorted : levels.Pairwise fun a b => a.1 < b.1)
    (above : ∀ level ∈ levels, bottom < level.1)
    (rooted : ∀ level digest fork, ForkIn levels level digest fork → bottom + 1 < level →
      ∃ parent, ForkIn levels (level - 1) fork.parentDigest parent)
    (base : ∀ digest fork, ForkIn levels (bottom + 1) digest fork →
      (D (bottom + 1) digest ↔ fork.parentDigest ∈ parents))
    (step : ∀ level digest fork, ForkIn levels level digest fork → bottom + 1 < level →
      (D level digest ↔ D (level - 1) fork.parentDigest)) :
    (∀ level digest fork, ForkIn (pruneLevels height parents levels) level digest fork ↔
      ForkIn levels level digest fork ∧ D level digest) ∧
    ∀ level digest, (level, digest) ∈ deadForks height parents levels ↔
      ∃ fork, ForkIn levels level digest fork ∧ ¬D level digest := by
  induction levels generalizing bottom parents with
  | nil =>
    refine ⟨fun level digest fork => ⟨?_, ?_⟩, fun level digest => ⟨nofun, ?_⟩⟩
    · rintro ⟨_, none_, -⟩
      cases none_
    · rintro ⟨⟨_, none_, -⟩, -⟩
      cases none_
    · rintro ⟨_, ⟨_, none_, -⟩, -⟩
      cases none_
  | cons first rest ih =>
    obtain ⟨firstLevel, firstForks⟩ := first
    obtain ⟨after, sorted'⟩ := List.pairwise_cons.mp sorted
    have firstAbove : bottom < firstLevel := above _ List.mem_cons_self
    have later {level : Nat} {digest : Digest} {fork : ForkState}
        (found : ForkIn rest level digest fork) : firstLevel < level := by
      obtain ⟨forks, member, -⟩ := found
      exact after _ member
    have isFirst {digest : Digest} {fork : ForkState}
        (found : ForkIn ((firstLevel, firstForks) :: rest) firstLevel digest fork) :
        firstForks.find? digest = some fork :=
      ((forkIn_cons.mp found).resolve_right fun high => absurd (later high) (lt_irrefl _)).2
    -- a first level higher up would have a parent below it
    have here : ∀ digest fork, firstForks.find? digest = some fork →
        (D firstLevel digest ↔ fork.parentDigest ∈ parents) := by
      intro digest fork found
      have listed : ForkIn ((firstLevel, firstForks) :: rest) firstLevel digest fork :=
        forkIn_cons.mpr (Or.inl ⟨rfl, found⟩)
      by_cases lowest : firstLevel = bottom + 1
      · subst lowest
        exact base digest fork listed
      · obtain ⟨parent, below⟩ := rooted firstLevel digest fork listed (by omega)
        rcases forkIn_cons.mp below with ⟨same, -⟩ | below
        · omega
        · have := later below
          omega
    have high : ¬firstLevel ≤ height := by omega
    rw [pruneLevels, if_neg high, deadForks, if_neg high]
    dsimp only
    generalize livesHere : (firstForks.filter fun entry =>
      decide (entry.2.parentDigest ∈ parents)) = lives
    have live_iff (digest : Digest) (fork : ForkState) : lives.find? digest = some fork ↔
        firstForks.find? digest = some fork ∧ D firstLevel digest := by
      rw [← livesHere, SortedMap.find?_filter, Option.filter_eq_some_iff]
      exact and_congr_right fun found => decide_eq_true_iff.trans (here digest fork found).symm
    have dead_iff (digest : Digest) :
        digest ∈ (firstForks.filter fun entry => decide (entry.2.parentDigest ∉ parents)).keys ↔
          ∃ fork, firstForks.find? digest = some fork ∧ ¬D firstLevel digest := by
      rw [SortedMap.mem_keys, SortedMap.find?_filter, Option.isSome_iff_exists]
      refine exists_congr fun fork => ?_
      rw [Option.filter_eq_some_iff]
      exact and_congr_right fun found =>
        decide_eq_true_iff.trans (not_congr (here digest fork found).symm)
    have upper {level : Nat} {digest : Digest} {fork : ForkState}
        (found : ForkIn rest level digest fork) :
        ForkIn ((firstLevel, firstForks) :: rest) level digest fork := forkIn_cons.mpr (Or.inr found)
    obtain ⟨kept, dropped⟩ := ih firstLevel lives.keys (by omega) sorted'
      (fun other member => after other member)
      (fun level digest fork found high => by
        obtain ⟨parent, below⟩ := rooted level digest fork (upper found) (by omega)
        exact ⟨parent, (forkIn_cons.mp below).resolve_left fun same => by omega⟩)
      (fun digest fork found => by
        obtain ⟨parent, below⟩ := rooted _ digest fork (upper found) (by omega)
        rw [step _ digest fork (upper found) (by omega), Nat.add_sub_cancel, SortedMap.mem_keys,
          Option.isSome_iff_exists]
        constructor
        · exact fun descends => ⟨parent, (live_iff _ _).mpr ⟨isFirst below, descends⟩⟩
        · rintro ⟨other, live⟩
          exact ((live_iff _ _).mp live).2)
      (fun level digest fork found high => step level digest fork (upper found) (by omega))
    refine ⟨fun level digest fork => ?_, fun level digest => ?_⟩
    · have split_ : ForkIn ((firstLevel, firstForks) :: rest) level digest fork ∧ D level digest ↔
          level = firstLevel ∧ lives.find? digest = some fork ∨
            ForkIn (pruneLevels height lives.keys rest) level digest fork := by
        rw [forkIn_cons, or_and_right, kept level digest fork, and_assoc]
        refine or_congr_left (and_congr_right ?_)
        rintro rfl
        exact (live_iff digest fork).symm
      rw [split_]
      split
      · next empty =>
        refine (or_iff_right ?_).symm
        rintro ⟨-, live⟩
        have member := SortedMap.find?_eq_some_iff.mp live
        rw [empty] at member
        cases member
      · exact forkIn_cons
    · rw [List.mem_append, dropped level digest, List.mem_map]
      constructor
      · rintro (⟨other, dead, same⟩ | ⟨fork, found, alive⟩)
        · obtain ⟨rfl, rfl⟩ := Prod.mk.inj same
          obtain ⟨fork, found, alive⟩ := (dead_iff _).mp dead
          exact ⟨fork, forkIn_cons.mpr (Or.inl ⟨rfl, found⟩), alive⟩
        · exact ⟨fork, upper found, alive⟩
      · rintro ⟨fork, found, alive⟩
        rcases forkIn_cons.mp found with ⟨rfl, lowest⟩ | higher
        · exact Or.inl ⟨digest, (dead_iff _).mpr ⟨fork, lowest, alive⟩, rfl⟩
        · exact Or.inr ⟨fork, higher, alive⟩

/-- A fork descends from the block `digest` at `height`. -/
inductive Descends (s : Finalizer) (height : Nat) (digest : Digest) : Nat → Digest → Prop where
  | self : Descends s height digest height digest
  | child {level : Nat} {parent child : Digest} {fork : ForkState}
      (below : Descends s height digest level parent)
      (found : s.forkAt (level + 1) child = some fork) (link : fork.parentDigest = parent) :
    Descends s height digest (level + 1) child

theorem Descends.le (descends : Descends s height digest level child) : height ≤ level := by
  induction descends with
  | self => exact le_rfl
  | child _ _ _ ih => exact Nat.le_succ_of_le ih

theorem Descends.eq_self (descends : Descends s height digest level child) (same : level = height) :
    child = digest := by
  cases descends with
  | self => rfl
  | child below _ _ =>
    have := below.le
    omega

/-- Above the block, a fork descends as its parent does. -/
theorem descends_iff (above : height < level) (found : s.forkAt level child = some fork) :
    Descends s height digest level child ↔
      Descends s height digest (level - 1) fork.parentDigest := by
  constructor
  · intro descends
    cases descends with
    | self => exact absurd above (lt_irrefl _)
    | child below found' link =>
      obtain rfl := Option.some.inj (found.symm.trans found')
      rw [Nat.add_sub_cancel, link]
      exact below
  · intro below
    obtain ⟨low, rfl⟩ : ∃ low, level = low + 1 := ⟨level - 1, by omega⟩
    exact .child below found rfl

section Promote

variable {s : Finalizer} {block : Block} {state : ConsensusState}

theorem forkIn_above {level : Nat} {digest : Digest} {fork : ForkState} :
    ForkIn (s.forkStates.filter fun level => block.height < level.1).entries level digest fork ↔
      s.forkAt level digest = some fork ∧ block.height < level := by
  rw [forkAt_eq_some_iff, ForkIn, ForkIn, ← exists_and_right]
  refine exists_congr fun forks => ?_
  rw [SortedMap.filter, List.mem_filter, decide_eq_true_iff, and_right_comm]

theorem entries_promote :
    (s.promote block state).forkStates.entries =
      pruneLevels block.height [block.digest]
        (s.forkStates.filter fun level => block.height < level.1).entries := rfl

variable {height : Nat} {digest : Digest} {fork : ForkState}

/-- The forks left after a finalized block lie above it. -/
theorem forkAt_promote (found : (s.promote block state).forkAt height digest = some fork) :
    block.height < height ∧ s.forkAt height digest = some fork := by
  rw [forkAt_eq_some_iff, entries_promote] at found
  exact (forkIn_above.mp (forkIn_of_pruneLevels found)).symm

/-- Every fork above the next height has its parent among the forks. -/
def RootedAbove (s : Finalizer) (height : Nat) : Prop :=
  ∀ level digest fork, s.forkAt level digest = some fork → height + 1 < level →
    (s.forkAt (level - 1) fork.parentDigest).isSome = true

theorem RootedAbove.mono {height' : Nat} (rooted : s.RootedAbove height) (le : height ≤ height') :
    s.RootedAbove height' :=
  fun level digest fork found high => rooted level digest fork found (by omega)

theorem prune_promote (state : ConsensusState) (rooted : s.RootedAbove block.height) :
    (∀ level digest fork, (s.promote block state).forkAt level digest = some fork ↔
      s.forkAt level digest = some fork ∧ block.height < level ∧
        Descends s block.height block.digest level digest) ∧
    ∀ level digest, (level, digest) ∈ (s.promote block state).deadForkDigests ↔
      ((level, digest) ∈ s.deadForkDigests ∨ (s.forkAt level digest).isSome = true ∧
        ¬Descends s block.height block.digest level digest) ∧ block.height < level := by
  obtain ⟨kept, dropped⟩ := pruneLevels_iff
    (D := Descends s block.height block.digest) block.height block.height [block.digest] le_rfl
    (SortedMap.sorted (s.forkStates.filter fun level => block.height < level.1))
    (fun level listed => of_decide_eq_true (List.mem_filter.mp listed).2)
    (fun level digest fork found high => by
      obtain ⟨parent, below⟩ := Option.isSome_iff_exists.mp
        (rooted level digest fork (forkIn_above.mp found).1 high)
      exact ⟨parent, forkIn_above.mpr ⟨below, by omega⟩⟩)
    (fun digest fork found => by
      rw [descends_iff (Nat.lt_add_one _) (forkIn_above.mp found).1, Nat.add_sub_cancel,
        List.mem_singleton]
      exact ⟨fun descends => descends.eq_self rfl, fun same => same ▸ .self⟩)
    (fun level digest fork found high => descends_iff (by omega) (forkIn_above.mp found).1)
  refine ⟨fun level digest fork => ?_, fun level digest => ?_⟩
  · rw [forkAt_eq_some_iff, entries_promote, kept level digest fork, forkIn_above, and_assoc]
  · show (level, digest) ∈ List.filter _ (s.deadForkDigests ++ deadForks block.height _ _) ↔ _
    rw [List.mem_filter, List.mem_append, dropped level digest, decide_eq_true_iff]
    refine and_congr_left fun above => or_congr_right ?_
    rw [exists_and_right, Option.isSome_iff_exists]
    refine and_congr_left fun _ => exists_congr fun fork => ?_
    exact forkIn_above.trans (and_iff_left above)

/-- The forks left after a finalized block have their parents among them, down to the block. -/
theorem parent_promote (rooted : s.RootedAbove block.height)
    (found : (s.promote block state).forkAt height digest = some fork) :
    height = block.height + 1 ∧ fork.parentDigest = block.digest ∨
      ((s.promote block state).forkAt (height - 1) fork.parentDigest).isSome = true := by
  obtain ⟨kept, -⟩ := prune_promote state rooted
  obtain ⟨before, above, descends⟩ := (kept height digest fork).mp found
  have below := (descends_iff above before).mp descends
  by_cases first : height = block.height + 1
  · exact Or.inl ⟨first, below.eq_self (by omega)⟩
  · obtain ⟨parent, here⟩ := Option.isSome_iff_exists.mp (rooted height digest fork before (by omega))
    exact Or.inr (Option.isSome_of_eq_some ((kept _ _ parent).mpr ⟨here, by omega, below⟩))

end Promote

/-! ### The work list -/

/-- A notarized block is executed on `parent` and its state is stored. -/
structure Stores (env : FinalizerEnv) (s : Finalizer) (block : Block)
    (parent state : ConsensusState) : Prop where
  above : s.canonicalState.latestHeight < block.height
  alive : (block.height, block.digest) ∉ s.deadForkDigests
  fresh : s.forkAt block.height block.digest = none
  found : s.parentState block = .found parent
  accepted : (env.engine s.calls).Accepts
    (some s.canonicalState.forkchoice.finalizedBlockHash) block
  executed : parent.executed env.protocolConsts env.depositSignatureDomain block = some state

theorem parentState_cases {parent : ConsensusState}
    (found : s.parentState block = .found parent) :
    block.height = s.canonicalState.latestHeight + 1 ∧ parent = s.canonicalState ∧
        (0 < s.canonicalState.latestHeight → block.parent = s.canonicalState.headDigest) ∨
      ∃ fork, block.height ≠ s.canonicalState.latestHeight + 1 ∧
        s.forkAt (block.height - 1) block.parent = some fork ∧ fork.consensusState = parent := by
  unfold parentState at found
  split at found
  · next next =>
    split at found
    · cases found
    · next links =>
      refine Or.inl ⟨next, (ParentState.found.inj found).symm, fun started => ?_⟩
      by_contra differs
      exact links ⟨started, differs⟩
  · next higher =>
    split at found
    · next fork here => exact Or.inr ⟨fork, higher, here, ParentState.found.inj found⟩
    · cases found

/-- Storing a block replaces no fork. -/
theorem forkAt_of_stores {parent : ConsensusState}
    (stores : Stores env s block parent state) (found : s.forkAt height digest = some fork) :
    (s.called.storeFork block state).forkAt height digest = some fork := by
  rw [forkAt_storeFork, if_neg]
  · exact found
  · rintro ⟨rfl, rfl⟩
    rw [stores.fresh] at found
    cases found

/-- **What one block of the work list does**, and which orphans it hands on. -/
inductive WorkStep (env : FinalizerEnv) (s : Finalizer) (block : Block) :
    Finalizer × Except FinalizerError (Option (List Block)) → Prop where
  | low (below : block.height ≤ s.canonicalState.latestHeight) :
    WorkStep env s block (s, .ok (some []))
  | dead (listed : (block.height, block.digest) ∈ s.deadForkDigests) :
    WorkStep env s block (s, .ok (some []))
  | fork (found : (s.forkAt block.height block.digest).isSome = true) :
    WorkStep env s block (s, .ok (some []))
  | mismatch (is : s.parentState block = .mismatch) : WorkStep env s block (s, .ok (some []))
  | orphan (missing : s.parentState block = .missing) :
    WorkStep env s block ({ s with orphanedBlocks := s.orphanedBlocks ++ [block] }, .ok (some []))
  | reject {parent : ConsensusState} (found : s.parentState block = .found parent)
      (invalid : parent.executeBlock (env.engine s.calls) env.protocolConsts
        env.depositSignatureDomain (some s.canonicalState.forkchoice.finalizedBlockHash) block =
          .invalidPayload) :
    WorkStep env s block (s.called, .ok (some []))
  | stop {error : FinalizerError} : WorkStep env s block (s.called, .error error)
  | defer {deferred : Finalizer} {parent : ConsensusState}
      (result : deferNotarized env s.called block = .ok deferred)
      (found : s.parentState block = .found parent)
      (syncing : parent.executeBlock (env.engine s.calls) env.protocolConsts
        env.depositSignatureDomain (some s.canonicalState.forkchoice.finalizedBlockHash) block =
          .syncing) :
    WorkStep env s block (deferred, .ok none)
  | store {parent state : ConsensusState} (stores : Stores env s block parent state) :
    WorkStep env s block (s.called.storeFork block state,
      .ok (some (s.orphanedChildren block.height block.digest)))

theorem workStep_processNotarized (env : FinalizerEnv) (s : Finalizer) (block : Block) :
    WorkStep env s block (s.processNotarized env block) := by
  unfold processNotarized
  split
  · next below => exact .low below
  next above =>
  split
  · next listed => exact .dead listed
  next alive =>
  split
  · next found => exact .fork found
  next fresh =>
  split
  · next is => exact .mismatch is
  · next missing => exact .orphan missing
  · next parent found =>
    unfold executeNotarized
    split
    · next state applied =>
      obtain ⟨accepted, executed⟩ := executeBlock_eq_applied.mp applied
      exact .store ⟨Nat.lt_of_not_le above, alive, Option.not_isSome_iff_eq_none.mp fresh, found,
        accepted, executed⟩
    · next syncing =>
      split
      · next deferred result => exact .defer result found syncing
      · exact .stop
    · next invalid => exact .reject found invalid
    · exact .stop
    · exact .stop

theorem deferNotarized_cases {deferred : Finalizer}
    (result : deferNotarized env s block = .ok deferred) :
    deferred = s ∨ deferred =
      { s with
        pendingNotarizedKeys := s.pendingNotarizedKeys ++ [block.digest]
        pendingNotarized := s.pendingNotarized ++ [block] } := by
  unfold deferNotarized at result
  split at result
  · exact Or.inl (Except.ok.inj result).symm
  split at result
  · cases result
  · exact Or.inr (Except.ok.inj result).symm

/-- What a step leaves of the finalized chain. -/
structure SameFinalized (s s' : Finalizer) : Prop where
  canonicalState : s'.canonicalState = s.canonicalState
  pendingFinalized : s'.pendingFinalized = s.pendingFinalized
  acknowledged : s'.acknowledged = s.acknowledged
  writes : s'.writes = s.writes

theorem SameFinalized.refl (s : Finalizer) : SameFinalized s s := ⟨rfl, rfl, rfl, rfl⟩

theorem SameFinalized.trans {s'' : Finalizer} (one : SameFinalized s s')
    (two : SameFinalized s' s'') : SameFinalized s s'' :=
  ⟨two.canonicalState.trans one.canonicalState, two.pendingFinalized.trans one.pendingFinalized,
    two.acknowledged.trans one.acknowledged, two.writes.trans one.writes⟩

theorem WorkStep.sameFinalized (step : WorkStep env s block made) : SameFinalized s made.1 := by
  cases step with
  | defer result =>
    rcases deferNotarized_cases result with rfl | rfl
    · exact ⟨rfl, rfl, rfl, rfl⟩
    · exact ⟨rfl, rfl, rfl, rfl⟩
  | _ => exact ⟨rfl, rfl, rfl, rfl⟩

/-- The blocks handed on were orphans. -/
theorem WorkStep.orphaned (step : WorkStep env s block (s', .ok (some children))) :
    ∀ child ∈ children, child ∈ s.orphanedBlocks := by
  cases step with
  | store => exact fun child member => (List.mem_filter.mp member).1
  | _ => nofun

theorem processAll_nil (fuel : Nat) (s : Finalizer) (buffered : Bool) :
    processAll env fuel s buffered [] = ((s, .ok buffered), []) := by
  cases fuel <;> rfl

/-- **What every step on a known block keeps, the work list keeps.** -/
theorem processAll_rule
    (keeps : ∀ {s block made}, P s → K block → WorkStep env s block made → P made.1)
    (orphans : ∀ {s}, P s → ∀ block ∈ s.orphanedBlocks, K block) (fuel : Nat) (buffered : Bool)
    (holds : P s) (all : ∀ block ∈ toProcess, K block) :
    P (processAll env fuel s buffered toProcess).1.1 := by
  induction fuel generalizing s buffered toProcess with
  | zero =>
    cases toProcess with
    | nil => exact holds
    | cons => exact holds
  | succ fuel ih =>
    cases toProcess with
    | nil => exact holds
    | cons block rest =>
      obtain ⟨first, others⟩ := List.forall_mem_cons.mp all
      have step := workStep_processNotarized env s block
      have next := keeps holds first step
      rw [processAll]
      generalize s.processNotarized env block = made at step next
      obtain ⟨after, error | _ | children⟩ := made
      · exact next
      · exact ih true next others
      · refine ih buffered next fun child member => ?_
        rcases List.mem_append.mp member with new | old
        · exact orphans holds child (step.orphaned child (List.mem_reverse.mp new))
        · exact others child old

theorem state_handleNotarizedBlock (s : Finalizer) (block : Block) :
    (s.handleNotarizedBlock env block).1 =
      (processAll env (s.orphanedBlocks.length + 1) s false [block]).1.1 := by
  unfold handleNotarizedBlock
  split
  · next result => rw [result]
  · next result => rw [result]

section Rules

variable {P : Finalizer → Prop} {K : Block → Prop}
  (keeps : ∀ {s block made}, P s → K block → WorkStep env s block made → P made.1)
  (orphans : ∀ {s}, P s → ∀ block ∈ s.orphanedBlocks, K block)

include keeps orphans

variable {s : Finalizer} {block : Block}

theorem handleNotarizedBlock_rule (holds : P s) (listed : K block) :
    P (s.handleNotarizedBlock env block).1 := by
  rw [state_handleNotarizedBlock]
  refine processAll_rule keeps orphans _ _ holds fun other member => ?_
  rw [List.mem_singleton.mp member]
  exact listed

theorem handleOrphans_rule {children : List Block} (holds : P s) (all : ∀ child ∈ children, K child) :
    P (handleOrphans env s children).1 := by
  induction children generalizing s with
  | nil => exact holds
  | cons child rest ih =>
    have next := handleNotarizedBlock_rule keeps orphans holds (all child List.mem_cons_self)
    rw [handleOrphans]
    split
    · next result =>
      rw [result] at next
      exact next
    · next result =>
      rw [result] at next
      exact ih next fun other member => all other (List.mem_cons_of_mem _ member)

end Rules

theorem sameFinalized_handleOrphans (env : FinalizerEnv) (s : Finalizer) (children : List Block) :
    SameFinalized s (handleOrphans env s children).1 :=
  handleOrphans_rule (P := SameFinalized s) (K := fun _ => True)
    (fun same _ step => same.trans step.sameFinalized) (fun _ _ _ => trivial) (.refl s)
    fun _ _ => trivial

theorem sameFinalized_readoptOrphans (env : FinalizerEnv) (s : Finalizer) (block : Block) :
    SameFinalized s (s.readoptOrphans env block).1 := by
  refine .trans ?_ (sameFinalized_handleOrphans env _ _)
  exact ⟨rfl, rfl, rfl, rfl⟩

/-! ### Finalized blocks -/

/-- The checkpoints among the database writes, with the epoch and the block they are stored with. -/
def storedCheckpoints (s : Finalizer) : List (Nat × Checkpoint × Block) :=
  s.writes.filterMap DbWrite.asCheckpoint

/-- A finalized block extends the canonical head, and its certificate is for it. -/
structure Extends (s : Finalizer) (entry : PendingFinalized) : Prop where
  height : entry.block.height = s.canonicalState.latestHeight + 1
  parent : entry.block.parent = s.canonicalState.headDigest
  certified : ∀ finalization, entry.finalization = some finalization →
    finalization.payload = entry.block.digest

/-- **What becomes of a finalized block.** -/
inductive Finalized (env : FinalizerEnv) (s : Finalizer) (entry : PendingFinalized) :
    Finalizer × Except FinalizerError (HandleOutcome PendingFinalized) → Prop where
  | conflict {error : FinalizerError} (same : entry.block.height = s.canonicalState.latestHeight)
      (differs : entry.block.digest ≠ s.canonicalState.headDigest) :
    Finalized env s entry (s, .error error)
  | duplicate (old : entry.block.height ≤ s.canonicalState.latestHeight)
      (agrees : entry.block.height = s.canonicalState.latestHeight →
        entry.block.digest = s.canonicalState.headDigest) :
    Finalized env s entry (s.acknowledge entry, .ok .applied)
  | refused {error : FinalizerError} (new : s.canonicalState.latestHeight < entry.block.height)
      (bad : ¬ s.Extends entry) : Finalized env s entry (s, .error error)
  | failed {error : FinalizerError} (extends_ : s.Extends entry)
      (result : s.executeFinalized env entry.block = .error error) :
    Finalized env s entry (s.called, .error error)
  | deferred (extends_ : s.Extends entry)
      (result : s.executeFinalized env entry.block = .ok none) :
    Finalized env s entry (s.called, .ok (.buffered entry))
  | halted {state : ConsensusState} (extends_ : s.Extends entry)
      (result : s.executeFinalized env entry.block = .ok (some state))
      (settles : (s.called.promote entry.block state).settle env entry = none) :
    Finalized env s entry (s.called.promote entry.block state, .error .halted)
  | applied {state : ConsensusState} {settled : Finalizer} (extends_ : s.Extends entry)
      (result : s.executeFinalized env entry.block = .ok (some state))
      (settles : (s.called.promote entry.block state).settle env entry = some settled) :
    Finalized env s entry
      ((settled.readoptOrphans env entry.block).1,
        (settled.readoptOrphans env entry.block).2.map fun _ => .applied)

theorem finalized_handleFinalizedBlock (env : FinalizerEnv) (s : Finalizer) (entry : PendingFinalized) :
    Finalized env s entry (s.handleFinalizedBlock env entry) := by
  unfold handleFinalizedBlock
  dsimp only
  split
  · next old =>
    split
    · next conflict => exact .conflict conflict.1 conflict.2
    · next agrees => exact .duplicate old fun same => by_contra fun differs => agrees ⟨same, differs⟩
  next new =>
  have new := Nat.lt_of_not_le new
  split
  · next misbound =>
    refine .refused new fun good => ?_
    obtain ⟨finalization, given, differs⟩ := (Option.any_eq_true _ _).mp misbound
    exact of_decide_eq_true differs (good.certified finalization given).symm
  next bound =>
  split
  · next wrong =>
    refine .refused new fun good => ?_
    rcases wrong with height | parent
    · exact height good.height
    · exact parent good.parent
  next right =>
  obtain ⟨height, parent⟩ := not_or.mp right
  have extends_ : s.Extends entry := by
    refine ⟨not_not.mp height, not_not.mp parent, fun finalization given => ?_⟩
    rw [given] at bound
    by_contra differs
    exact bound (decide_eq_true fun same => differs same.symm)
  split
  · next result => exact .failed extends_ result
  · next result => exact .deferred extends_ result
  · next state result =>
    unfold finishFinalized
    dsimp only
    split
    · next settles => exact .halted extends_ result settles
    · next settled settles =>
      have applied : Finalized env s entry _ := .applied extends_ result settles
      split
      · next error adopted =>
        rw [adopted] at applied
        exact applied
      · next adopted =>
        rw [adopted] at applied
        exact applied

/-- **The state of a finalized block** is its fork state, or what it makes of the canonical one. -/
theorem executeFinalized_cases (result : s.executeFinalized env block = .ok (some state)) :
    (∃ fork, s.forkAt block.height block.digest = some fork ∧ fork.consensusState = state ∧
        commitFinalized (env.engine s.calls) block = .applied ()) ∨
      s.forkAt block.height block.digest = none ∧ (env.engine s.calls).Accepts none block ∧
        s.canonicalState.executed env.protocolConsts env.depositSignatureDomain block =
          some state := by
  unfold executeFinalized at result
  split at result
  · next fork found =>
    split at result
    · cases result
    split at result
    case h_1 committed =>
      exact Or.inl ⟨fork, found, Option.some.inj (Except.ok.inj result), committed⟩
    all_goals cases result
  · next none_ =>
    split at result
    · cases result
    split at result
    case h_1 applied =>
      obtain ⟨accepted, executed⟩ := executeBlock_eq_applied.mp applied
      exact Or.inr ⟨none_, accepted, executed.trans (Except.ok.inj result)⟩
    all_goals cases result

/-- **Settling** a promoted state finalizes it, stores its checkpoint and acknowledges the block. -/
structure Settles (env : FinalizerEnv) (s : Finalizer) (entry : PendingFinalized)
    (state : ConsensusState) (s' : Finalizer) : Prop where
  finalized : ∃ checkpoint,
    state.finalizeExecuted env.nodePublicKey entry.block = some (s'.canonicalState, checkpoint) ∧
    s'.storedCheckpoints = s.storedCheckpoints ++
      (checkpoint.map fun checkpoint => (state.epoch, checkpoint, entry.block)).toList
  acknowledged : s'.acknowledged = s.acknowledged ++ [entry]
  pendingFinalized : s'.pendingFinalized = s.pendingFinalized

theorem settles_promote {settled : Finalizer}
    (result : (s.promote entry.block state).settle env entry = some settled) :
    Settles env s entry state settled ∧
      settled = { s.promote entry.block state with
        canonicalState := settled.canonicalState
        writes := settled.writes
        acknowledged := settled.acknowledged } := by
  unfold settle at result
  split at result
  · next last =>
    obtain ⟨finalization, -, rest⟩ := Option.bind_eq_some_iff.mp result
    obtain ⟨⟨crossed, checkpoint⟩, boundary, rfl⟩ := Option.map_eq_some_iff.mp rest
    refine ⟨⟨⟨checkpoint, ?_, ?_⟩, rfl, rfl⟩, rfl⟩
    · exact (if_pos last).trans boundary
    · show List.filterMap _ (s.writes ++ _ :: _ ++ [_]) = s.writes.filterMap _ ++ _
      rw [List.filterMap_append, List.filterMap_append, List.append_assoc]
      cases checkpoint with
      | none => rfl
      | some checkpoint => rfl
  · next inside =>
    obtain rfl := Option.some.inj result
    refine ⟨⟨⟨none, ?_, ?_⟩, rfl, rfl⟩, rfl⟩
    · exact if_neg inside
    · exact (List.append_nil _).symm

theorem pendingFinalized_handleFinalizedBlock (env : FinalizerEnv) (s : Finalizer) (entry : PendingFinalized) :
    (s.handleFinalizedBlock env entry).1.pendingFinalized = s.pendingFinalized := by
  have outcome := finalized_handleFinalizedBlock env s entry
  generalize s.handleFinalizedBlock env entry = result at outcome
  cases outcome with
  | conflict | duplicate | refused | failed | deferred | halted => rfl
  | applied _ _ settles =>
    rw [(sameFinalized_readoptOrphans env _ _).pendingFinalized]
    exact (settles_promote settles).1.pendingFinalized

/-! ### Events -/

/-- A request changes the requests and their answers alone. -/
theorem notifyAtHeight_frame (s : Finalizer) (waiter : HeightNotify) :
    ∃ waiters answers, s.notifyAtHeight waiter =
      { s with pendingHeightNotifys := waiters, notified := answers } := by
  unfold notifyAtHeight
  dsimp only
  split
  · exact ⟨_, _, rfl⟩
  · exact ⟨_, _, rfl⟩

/-- The finalized block that an event hands to the handler. -/
def handled (s : Finalizer) : Event → Option PendingFinalized
  | .finalizedBlock entry => if s.pendingFinalized = [] then some entry else none
  | .retryFinalized => s.pendingFinalized.head?
  | .notarizedBlock _ | .notifyAtHeight _ | .retryNotarized => none

/-- The finalized block that arrives with an event. -/
def Event.arrived : Event → List PendingFinalized
  | .finalizedBlock entry => [entry]
  | .notarizedBlock _ | .notifyAtHeight _ | .retryFinalized | .retryNotarized => []

/-- The block that an event brings. -/
def Event.blocks : Event → List Block
  | .finalizedBlock entry => [entry.block]
  | .notarizedBlock block => [block]
  | .notifyAtHeight _ | .retryFinalized | .retryNotarized => []

/-- The request that an event brings. -/
def Event.request : Event → Option HeightNotify
  | .notifyAtHeight waiter => some waiter
  | .finalizedBlock _ | .notarizedBlock _ | .retryFinalized | .retryNotarized => none

theorem request_of_handled (handles : s.handled event = some entry) : event.request = none := by
  cases event with
  | notifyAtHeight => cases handles
  | finalizedBlock | notarizedBlock | retryFinalized | retryNotarized => rfl

/-- What an event makes of the result of the handler for finalized blocks. -/
def requeue : Finalizer × Except FinalizerError (HandleOutcome PendingFinalized) →
    Finalizer × Except FinalizerError Unit
  | (next, .error error) => (next, .error error)
  | (next, .ok .applied) => (next, .ok ())
  | (next, .ok (.buffered entry)) =>
    ({ next with pendingFinalized := entry :: next.pendingFinalized }, .ok ())

/-- An event that handles a finalized block takes it off the front of the queue. -/
theorem handle_eq_requeue (env : FinalizerEnv) (handles : s.handled event = some entry) :
    ∃ rest, s.pendingFinalized ++ event.arrived = entry :: rest ∧
      s.handle env event =
        requeue ({ s with pendingFinalized := rest }.handleFinalizedBlock env entry) := by
  cases event with
  | notarizedBlock | notifyAtHeight | retryNotarized => cases handles
  | retryFinalized =>
    obtain ⟨rest, queue⟩ : ∃ rest, s.pendingFinalized = entry :: rest := List.head?_eq_some_iff.mp handles
    refine ⟨rest, (List.append_nil _).trans queue, ?_⟩
    show ((s.retryFinalized env).1, (s.retryFinalized env).2.map fun _ => ()) = _
    unfold retryFinalized
    rw [queue]
    dsimp only
    generalize { s with pendingFinalized := rest }.handleFinalizedBlock env entry = made
    obtain ⟨next, error | outcome⟩ := made
    · rfl
    · cases outcome <;> rfl
  | finalizedBlock arrived =>
    obtain ⟨empty, same⟩ := Option.ite_none_right_eq_some.mp handles
    obtain rfl := Option.some.inj same
    refine ⟨[], by rw [empty]; rfl, ?_⟩
    have whole : { s with pendingFinalized := [] } = s := by
      obtain ⟨_, _, _, _, queue, _⟩ := s
      obtain rfl : queue = [] := empty
      rfl
    rw [whole]
    show s.arriveFinalized env arrived = _
    unfold arriveFinalized
    rw [if_neg (not_not.mpr empty)]
    have kept := pendingFinalized_handleFinalizedBlock env s arrived
    rw [empty] at kept
    generalize s.handleFinalizedBlock env arrived = made at kept
    obtain ⟨next, error | outcome⟩ := made
    · rfl
    · cases outcome with
      | applied => rfl
      | buffered entry =>
        have kept : next.pendingFinalized = [] := kept
        dsimp only [requeue]
        rw [kept]
        rfl

/-- **What an event does first**, and the notarized blocks that it then handles one by one. -/
inductive Opens (env : FinalizerEnv) (s : Finalizer) : Event → Finalizer → List Block → Prop where
  /-- A finalized block waits, is deferred, or was there before. -/
  | idle {event : Event} {calls : Nat} {acknowledged queue : List PendingFinalized}
      (silent : event.request = none)
      (queued : ∀ entry ∈ queue, entry ∈ s.pendingFinalized ++ event.arrived) :
    Opens env s event
      { s with calls := calls, acknowledged := acknowledged, pendingFinalized := queue } []
  | ask {waiter : HeightNotify} : Opens env s (.notifyAtHeight waiter) (s.notifyAtHeight waiter) []
  | notarized {block : Block} : Opens env s (.notarizedBlock block) s [block]
  | retry {block : Block} {rest : List Block} (queue : s.pendingNotarized = block :: rest) :
    Opens env s .retryNotarized
      { s with
        pendingNotarized := rest
        pendingNotarizedKeys := s.pendingNotarizedKeys.filter (· ≠ block.digest) } [block]
  /-- A finalized block becomes canonical, and the orphans that wait for it are taken up. -/
  | advance {event : Event} {entry : PendingFinalized} {rest acknowledged : List PendingFinalized}
      {state canonicalState : ConsensusState} {checkpoint : Option Checkpoint}
      {writes : List DbWrite} (handles : s.handled event = some entry)
      (queue : s.pendingFinalized ++ event.arrived = entry :: rest) (extends_ : s.Extends entry)
      (executes : s.executeFinalized env entry.block = .ok (some state))
      (finalizes : state.finalizeExecuted env.nodePublicKey entry.block =
        some (canonicalState, checkpoint)) :
    Opens env s event
      { s.called.promote entry.block state with
        canonicalState, acknowledged, writes
        pendingFinalized := rest
        orphanedBlocks := (s.promote entry.block state).orphanedBlocks.filter fun orphan =>
          ¬(orphan.height = entry.block.height + 1 ∧ orphan.parent = entry.block.digest) }
      ((s.promote entry.block state).orphanedChildren entry.block.height entry.block.digest)

theorem handleOrphans_single (env : FinalizerEnv) (s : Finalizer) (block : Block) :
    handleOrphans env s [block] = ((s.handleNotarizedBlock env block).1,
      (s.handleNotarizedBlock env block).2.map fun _ => ()) := by
  rw [handleOrphans]
  generalize s.handleNotarizedBlock env block = made
  obtain ⟨next, error | outcome⟩ := made
  · rfl
  · rfl

/-- Any other event opens without the finalized chain. -/
theorem opens_unhandled (env : FinalizerEnv) (handles : s.handled event = none) :
    ∃ mid blocks, Opens env s event mid blocks ∧
      SameFinalized { s with pendingFinalized := s.pendingFinalized ++ event.arrived } mid ∧
      s.handle env event = handleOrphans env mid blocks := by
  have nothing : SameFinalized { s with pendingFinalized := s.pendingFinalized ++ [] } s := by
    rw [List.append_nil]
    exact .refl s
  have unchanged : ∀ entry ∈ s.pendingFinalized, entry ∈ s.pendingFinalized ++ event.arrived :=
    fun entry member => List.mem_append_left _ member
  cases event with
  | finalizedBlock entry =>
    have waiting : s.pendingFinalized ≠ [] := by
      rintro empty
      rw [handled, if_pos empty] at handles
      cases handles
    exact ⟨_, [], .idle rfl fun _ member => member, .refl _, if_pos waiting⟩
  | notarizedBlock block =>
    exact ⟨s, [block], .notarized, nothing, (handleOrphans_single env s block).symm⟩
  | notifyAtHeight waiter =>
    refine ⟨_, [], .ask, nothing.trans ?_, rfl⟩
    obtain ⟨_, _, same⟩ := notifyAtHeight_frame s waiter
    rw [same]
    exact ⟨rfl, rfl, rfl, rfl⟩
  | retryFinalized =>
    have empty : s.pendingFinalized = [] := List.head?_eq_none_iff.mp handles
    refine ⟨s, [], .idle rfl unchanged, nothing, ?_⟩
    unfold handle
    unfold retryFinalized
    rw [empty]
    rfl
  | retryNotarized =>
    unfold handle
    dsimp only
    split
    · exact ⟨s, [], .idle rfl unchanged, nothing, rfl⟩
    unfold retryNotarized
    split
    · exact ⟨s, [], .idle rfl unchanged, nothing, rfl⟩
    · next block rest queue =>
      refine ⟨_, [block], .retry queue, nothing.trans ⟨rfl, rfl, rfl, rfl⟩, ?_⟩
      rw [handleOrphans_single]
      dsimp only
      generalize handleNotarizedBlock env _ block = made
      obtain ⟨next, error | outcome⟩ := made
      · rfl
      · cases outcome <;> rfl

theorem sameFinalized_handle (env : FinalizerEnv) (handles : s.handled event = none) :
    SameFinalized { s with pendingFinalized := s.pendingFinalized ++ event.arrived }
      (s.handle env event).1 := by
  obtain ⟨mid, blocks, -, same, result⟩ := opens_unhandled env handles
  rw [result]
  exact same.trans (sameFinalized_handleOrphans env mid blocks)

/-- **What an event does to the finalized chain**: nothing, an acknowledgement, or one block. -/
inductive Outcome (env : FinalizerEnv) (s : Finalizer) (event : Event) :
    Finalizer × Except FinalizerError Unit → Prop where
  | idle {s' : Finalizer} {result : Except FinalizerError Unit}
      (canonicalState : s'.canonicalState = s.canonicalState)
      (acknowledged : s'.acknowledged = s.acknowledged)
      (checkpoints : s'.storedCheckpoints = s.storedCheckpoints)
      (queue : result = .ok () → s'.pendingFinalized = s.pendingFinalized ++ event.arrived) :
    Outcome env s event (s', result)
  | duplicate {s' : Finalizer} {entry : PendingFinalized} (handles : s.handled event = some entry)
      (old : entry.block.height ≤ s.canonicalState.latestHeight)
      (agrees : entry.block.height = s.canonicalState.latestHeight →
        entry.block.digest = s.canonicalState.headDigest)
      (canonicalState : s'.canonicalState = s.canonicalState)
      (acknowledged : s'.acknowledged = s.acknowledged ++ [entry])
      (checkpoints : s'.storedCheckpoints = s.storedCheckpoints)
      (queue : s.pendingFinalized ++ event.arrived = entry :: s'.pendingFinalized) :
    Outcome env s event (s', .ok ())
  | halted {s' : Finalizer} {error : FinalizerError} {entry : PendingFinalized}
      {state : ConsensusState} (handles : s.handled event = some entry)
      (extends_ : s.Extends entry)
      (result : s.executeFinalized env entry.block = .ok (some state))
      (canonicalState : s'.canonicalState = state.settledHead)
      (acknowledged : s'.acknowledged = s.acknowledged) :
    Outcome env s event (s', .error error)
  | applied {s' : Finalizer} {result : Except FinalizerError Unit} {entry : PendingFinalized}
      {state : ConsensusState} {checkpoint : Option Checkpoint}
      (handles : s.handled event = some entry) (extends_ : s.Extends entry)
      (executes : s.executeFinalized env entry.block = .ok (some state))
      (finalizes : state.finalizeExecuted env.nodePublicKey entry.block =
        some (s'.canonicalState, checkpoint))
      (acknowledged : s'.acknowledged = s.acknowledged ++ [entry])
      (checkpoints : s'.storedCheckpoints = s.storedCheckpoints ++
        (checkpoint.map fun checkpoint => (state.epoch, checkpoint, entry.block)).toList)
      (queue : s.pendingFinalized ++ event.arrived = entry :: s'.pendingFinalized) :
    Outcome env s event (s', result)

theorem outcome_handle (env : FinalizerEnv) (s : Finalizer) (event : Event) :
    Outcome env s event (s.handle env event) := by
  cases handles : s.handled event with
  | none =>
    have same := sameFinalized_handle env handles
    exact .idle same.canonicalState same.acknowledged 
      (congrArg (List.filterMap DbWrite.asCheckpoint) same.writes) fun _ => same.pendingFinalized
  | some entry =>
    obtain ⟨rest, queue, result⟩ := handle_eq_requeue env handles
    rw [result]
    have outcome := finalized_handleFinalizedBlock env { s with pendingFinalized := rest } entry
    generalize { s with pendingFinalized := rest }.handleFinalizedBlock env entry = made at outcome
    cases outcome with
    | conflict => exact .idle rfl rfl rfl nofun
    | duplicate old agrees => exact .duplicate handles old agrees rfl rfl rfl queue
    | refused => exact .idle rfl rfl rfl nofun
    | failed => exact .idle rfl rfl rfl nofun
    | deferred => exact .idle rfl rfl rfl fun _ => queue.symm
    | halted extends_ executes _ =>
      exact .halted handles ⟨extends_.height, extends_.parent, extends_.certified⟩ executes rfl rfl
    | @applied state settled extends_ executes settles =>
      have same := sameFinalized_readoptOrphans env settled entry.block
      obtain ⟨⟨⟨checkpoint, finalizes, checkpoints⟩, acknowledged, pending⟩, -⟩ :=
        settles_promote settles
      have applied (result : Except FinalizerError Unit) :
          Outcome env s event ((settled.readoptOrphans env entry.block).1, result) :=
        .applied handles ⟨extends_.height, extends_.parent, extends_.certified⟩ executes
          (same.canonicalState ▸ finalizes) (same.acknowledged.trans acknowledged)
          ((congrArg (List.filterMap DbWrite.asCheckpoint) same.writes).trans checkpoints)
          (queue.trans (congrArg _ (same.pendingFinalized.trans pending).symm))
      cases (settled.readoptOrphans env entry.block).2 with
      | error error => exact applied _
      | ok => exact applied _

/-! ### Runs -/

/-- A step whose event the guard allows. -/
def Steps (env : FinalizerEnv) (guard : Finalizer → Event → Prop) (s s' : Finalizer) : Prop :=
  ∃ event, guard s event ∧ s.step env event = some s'

/-- The states that guarded steps reach. -/
abbrev Reaches (env : FinalizerEnv) (guard : Finalizer → Event → Prop) :
    Finalizer → Finalizer → Prop :=
  Relation.ReflTransGen (Steps env guard)

theorem step_eq_some_iff : s.step env event = some s' ↔ s.handle env event = (s', .ok ()) := by
  unfold step
  generalize s.handle env event = made
  obtain ⟨next, error | ok⟩ := made
  · simp
  · simp

/-- The blocks that the actor holds on to are known. -/
structure Known (known : Block → Prop) (s : Finalizer) : Prop where
  orphaned : ∀ block ∈ s.orphanedBlocks, known block
  notarized : ∀ block ∈ s.pendingNotarized, known block
  finalized : ∀ entry ∈ s.pendingFinalized, known entry.block

theorem Known.handled {known : Block → Prop} (holds : s.Known known)
    (brings : ∀ block ∈ event.blocks, known block) (handles : s.handled event = some entry) :
    known entry.block := by
  cases event with
  | notarizedBlock | notifyAtHeight | retryNotarized => cases handles
  | retryFinalized => exact holds.finalized entry (List.mem_of_mem_head? handles)
  | finalizedBlock arrived =>
    obtain ⟨-, same⟩ := Option.ite_none_right_eq_some.mp handles
    rw [← Option.some.inj same]
    exact brings _ List.mem_cons_self

theorem Known.workStep {known : Block → Prop} (holds : s.Known known) (listed : known block)
    (step : WorkStep env s block made) : made.1.Known known := by
  cases step with
  | orphan _ =>
    refine ⟨fun other member => ?_, holds.notarized, holds.finalized⟩
    rcases List.mem_append.mp member with old | new
    · exact holds.orphaned other old
    · exact List.mem_singleton.mp new ▸ listed
  | defer result =>
    rcases deferNotarized_cases result with rfl | rfl
    · exact ⟨holds.orphaned, holds.notarized, holds.finalized⟩
    · refine ⟨holds.orphaned, fun other member => ?_, holds.finalized⟩
      rcases List.mem_append.mp member with old | new
      · exact holds.notarized other old
      · exact List.mem_singleton.mp new ▸ listed
  | _ => exact ⟨holds.orphaned, holds.notarized, holds.finalized⟩

/-! ### How an event opens -/

theorem opens_handled (handles : s.handled event = some entry)
    (result : s.handle env event = (s', .ok ())) :
    ∃ mid blocks, Opens env s event mid blocks ∧ handleOrphans env mid blocks = (s', .ok ()) := by
  obtain ⟨rest, queue, same⟩ := handle_eq_requeue env handles
  rw [result] at same
  have behind : ∀ other ∈ rest, other ∈ s.pendingFinalized ++ event.arrived := by
    intro other member
    rw [queue]
    exact List.mem_cons_of_mem _ member
  have outcome := finalized_handleFinalizedBlock env { s with pendingFinalized := rest } entry
  generalize made : { s with pendingFinalized := rest }.handleFinalizedBlock env entry = handled_
    at outcome same
  cases outcome with
  | conflict | refused | failed | halted => cases congrArg Prod.snd same
  | duplicate =>
    obtain ⟨rfl, -⟩ := Prod.mk.inj same
    exact ⟨_, [], .idle (request_of_handled handles) behind, rfl⟩
  | deferred =>
    obtain ⟨rfl, -⟩ := Prod.mk.inj same
    exact ⟨_, [], .idle (request_of_handled handles) fun other member => queue ▸ member, rfl⟩
  | @applied state settled extends_ executes settles =>
    obtain ⟨⟨⟨checkpoint, finalizes, -⟩, -, -⟩, frame⟩ := settles_promote settles
    have adopts : settled.readoptOrphans env entry.block = (s', .ok ()) := by
      change _ = requeue (_, (settled.readoptOrphans env entry.block).2.map _) at same
      generalize settled.readoptOrphans env entry.block = adopted at same
      obtain ⟨next, error | ok⟩ := adopted
      · cases congrArg Prod.snd same
      · rw [(Prod.mk.inj same).1]
    clear settles same
    generalize settled.canonicalState = canonicalState at finalizes frame
    generalize settled.writes = writes at frame
    generalize settled.acknowledged = acknowledged at frame
    subst frame
    exact ⟨_, _, .advance handles queue ⟨extends_.height, extends_.parent, extends_.certified⟩
      executes finalizes, adopts⟩

/-- **Every event** opens and then handles notarized blocks. -/
theorem opens_step (result : s.step env event = some s') :
    ∃ mid blocks, Opens env s event mid blocks ∧ handleOrphans env mid blocks = (s', .ok ()) := by
  rw [step_eq_some_iff] at result
  cases handles : s.handled event with
  | some entry => exact opens_handled handles result
  | none =>
    obtain ⟨mid, blocks, opens, -, same⟩ := opens_unhandled env handles
    exact ⟨mid, blocks, opens, same.symm.trans result⟩

theorem Opens.known {blocks : List Block} (opens : Opens env s event mid blocks) (held : s.Known K)
    (brings : ∀ block ∈ event.blocks, K block) : mid.Known K ∧ ∀ block ∈ blocks, K block := by
  have queued : ∀ entry ∈ s.pendingFinalized ++ event.arrived, K entry.block := by
    intro entry member
    rcases List.mem_append.mp member with old | new
    · exact held.finalized entry old
    · refine brings entry.block ?_
      cases event with
      | finalizedBlock arrived =>
        rw [List.mem_singleton.mp new]
        exact List.mem_cons_self
      | notarizedBlock | notifyAtHeight | retryFinalized | retryNotarized => cases new
  cases opens with
  | idle _ within =>
    exact ⟨⟨held.orphaned, held.notarized, fun entry member => queued entry (within entry member)⟩,
      nofun⟩
  | @ask waiter =>
    obtain ⟨_, _, same⟩ := notifyAtHeight_frame s waiter
    rw [same]
    exact ⟨⟨held.orphaned, held.notarized, held.finalized⟩, nofun⟩
  | notarized => exact ⟨held, brings⟩
  | @retry block rest queue =>
    have listed (other : Block) (member : other ∈ block :: rest) : K other :=
      held.notarized other (queue ▸ member)
    refine ⟨⟨held.orphaned, fun other member => listed other (List.mem_cons_of_mem _ member),
      held.finalized⟩, fun other member => ?_⟩
    rw [List.mem_singleton.mp member]
    exact listed block List.mem_cons_self
  | advance _ queue =>
    have orphans {high keep : Block → Bool} (orphan : Block)
        (member : orphan ∈ (s.orphanedBlocks.filter high).filter keep) : K orphan :=
      held.orphaned orphan (List.mem_filter.mp (List.mem_filter.mp member).1).1
    exact ⟨⟨orphans, held.notarized, fun other member =>
      queued other (queue ▸ List.mem_cons_of_mem _ member)⟩, orphans⟩

/-! ### Invariants -/

/-- A step that the fork states and the requests do not see. -/
structure SameForks (s s' : Finalizer) : Prop where
  canonicalState : s'.canonicalState = s.canonicalState
  forkStates : s'.forkStates = s.forkStates
  deadForkDigests : s'.deadForkDigests = s.deadForkDigests
  pendingHeightNotifys : s'.pendingHeightNotifys = s.pendingHeightNotifys
  notified : s'.notified = s.notified

/-- **A finalized block becomes canonical**: it extends the head, its state is finalized, and the
forks that do not descend from it go. -/
structure Advances (env : FinalizerEnv) (s : Finalizer) (entry : PendingFinalized)
    (state : ConsensusState) (s' : Finalizer) : Prop where
  extends_ : s.Extends entry
  executes : s.executeFinalized env entry.block = .ok (some state)
  finalizes : ∃ checkpoint,
    state.finalizeExecuted env.nodePublicKey entry.block = some (s'.canonicalState, checkpoint)
  forkStates : s'.forkStates = (s.promote entry.block state).forkStates
  deadForkDigests : s'.deadForkDigests = (s.promote entry.block state).deadForkDigests
  pendingHeightNotifys :
    s'.pendingHeightNotifys = (s.promote entry.block state).pendingHeightNotifys
  notified : s'.notified = (s.promote entry.block state).notified

/-- **An event opens** with nothing to see, with a request, or with a finalized block. -/
inductive Shows (env : FinalizerEnv) (s : Finalizer) (event : Event) (mid : Finalizer) : Prop where
  | nothing (silent : event.request = none) (same : SameForks s mid)
  | request {waiter : HeightNotify} (is : event = .notifyAtHeight waiter)
      (same : mid = s.notifyAtHeight waiter)
  | block {entry : PendingFinalized} {state : ConsensusState}
      (handles : s.handled event = some entry) (advances : Advances env s entry state mid)

theorem Opens.shows {blocks : List Block} (opens : Opens env s event mid blocks) :
    Shows env s event mid := by
  cases opens with
  | idle silent => exact .nothing silent ⟨rfl, rfl, rfl, rfl, rfl⟩
  | notarized | retry => exact .nothing rfl ⟨rfl, rfl, rfl, rfl, rfl⟩
  | ask => exact .request rfl rfl
  | advance handles _ extends_ executes finalizes =>
    exact .block handles ⟨extends_, executes, ⟨_, finalizes⟩, rfl, rfl, rfl, rfl⟩

/-- Forks are stored one after the other, each for a known block. -/
def Works (env : FinalizerEnv) (K : Block → Prop) : Finalizer → Finalizer → Prop :=
  Relation.ReflTransGen fun s s' => SameForks s s' ∨
    ∃ block parent state, K block ∧ Stores env s block parent state ∧
      s' = s.called.storeFork block state

/-- A block of the work list is stored, or no fork state sees it. -/
theorem WorkStep.stores_or_sameForks (step : WorkStep env s block made) :
    (∃ parent state, Stores env s block parent state ∧ made = (s.called.storeFork block state,
        .ok (some (s.orphanedChildren block.height block.digest)))) ∨
      SameForks s made.1 ∧
        (s.parentState block ≠ .missing → made.1.orphanedBlocks = s.orphanedBlocks) ∧
        ∀ children, made.2 = .ok (some children) → children = [] := by
  have nothing (children : List Block)
      (result : (Except.ok (some []) : Except FinalizerError (Option (List Block))) =
        .ok (some children)) : children = [] :=
    (Option.some.inj (Except.ok.inj result)).symm
  cases step with
  | orphan missing =>
    exact Or.inr ⟨⟨rfl, rfl, rfl, rfl, rfl⟩, fun found => absurd missing found, nothing⟩
  | stop => exact Or.inr ⟨⟨rfl, rfl, rfl, rfl, rfl⟩, fun _ => rfl, nofun⟩
  | defer result =>
    rcases deferNotarized_cases result with rfl | rfl
    · exact Or.inr ⟨⟨rfl, rfl, rfl, rfl, rfl⟩, fun _ => rfl, nofun⟩
    · exact Or.inr ⟨⟨rfl, rfl, rfl, rfl, rfl⟩, fun _ => rfl, nofun⟩
  | store stores => exact Or.inl ⟨_, _, stores, rfl⟩
  | _ => exact Or.inr ⟨⟨rfl, rfl, rfl, rfl, rfl⟩, fun _ => rfl, nothing⟩

theorem WorkStep.works (step : WorkStep env s block made) (listed : K block) :
    Works env K s made.1 := by
  rcases step.stores_or_sameForks with ⟨parent, state, stores, rfl⟩ | ⟨same, -⟩
  · exact .single (Or.inr ⟨block, parent, state, listed, stores, rfl⟩)
  · exact .single (Or.inl same)

/-- **One event**: what it shows first, and the forks that are stored then. -/
theorem shows_step (held : s.Known K) (brings : ∀ block ∈ event.blocks, K block)
    (result : s.step env event = some s') :
    (∃ mid, Shows env s event mid ∧ Works env K mid s') ∧ s'.Known K := by
  obtain ⟨mid, blocks, opens, handled_⟩ := opens_step result
  obtain ⟨held', listed⟩ := opens.known held brings
  have kept : Works env K mid (handleOrphans env mid blocks).1 ∧
      (handleOrphans env mid blocks).1.Known K :=
    handleOrphans_rule (P := fun t => Works env K mid t ∧ t.Known K)
    (fun holds listed step => ⟨holds.1.trans (step.works listed), holds.2.workStep listed step⟩)
    (fun holds => holds.2.orphaned) ⟨.refl, held'⟩ listed
  rw [handled_] at kept
  exact ⟨⟨mid, opens.shows, kept.1⟩, kept.2⟩

section Invariants

variable {P : Finalizer → Prop} {K : Block → Prop} {guard : Finalizer → Event → Prop}
  (quiet : ∀ {s s'}, P s → SameForks s s' → P s')
  (stores : ∀ {s block parent state}, P s → K block → Stores env s block parent state →
    P (s.called.storeFork block state))

include quiet stores

theorem Works.keeps {s s' : Finalizer} (works : Works env K s s') (holds : P s) : P s' := by
  induction works with
  | refl => exact holds
  | tail _ last ih =>
    rcases last with same | ⟨block, parent, state, listed, executes, rfl⟩
    · exact quiet ih same
    · exact stores ih listed executes

variable
  (asks : ∀ {s waiter}, guard s (.notifyAtHeight waiter) → P s → P (s.notifyAtHeight waiter))
  (advances : ∀ {s event entry state s'}, guard s event → s.handled event = some entry → P s →
    K entry.block → Advances env s entry state s' → P s')
  (brings : ∀ {s event}, guard s event → ∀ block ∈ event.blocks, K block)

include asks advances brings

/-- **One allowed event** keeps the invariant. -/
theorem keeps_step {s s' : Finalizer} {event : Event} (allowed : guard s event)
    (holds : P s ∧ s.Known K) (result : s.step env event = some s') :
    P s' ∧ s'.Known K := by
  obtain ⟨inv, held⟩ := holds
  obtain ⟨⟨mid, shows_, works⟩, held'⟩ := shows_step held (brings allowed) result
  refine ⟨works.keeps quiet stores ?_, held'⟩
  cases shows_ with
  | nothing _ same => exact quiet inv same
  | request is same =>
    subst is same
    exact asks allowed inv
  | block handles next =>
    exact advances allowed handles inv (held.handled (brings allowed) handles) next

/-- **Invariants of the runs**: what requests, storing a fork and finalizing a block keep holds in
every state reached. -/
theorem Reaches.invariant_forks {start s : Finalizer} (reaches : Reaches env guard start s)
    (holds : P start ∧ start.Known K) : P s ∧ s.Known K := by
  induction reaches with
  | refl => exact holds
  | tail _ last ih =>
    obtain ⟨event, allowed, result⟩ := last
    exact keeps_step quiet stores asks advances brings allowed ih result

end Invariants

/-- **Invariants of the states**: what storing a fork and finalizing a block keep holds in every
state reached. -/
theorem Reaches.invariant
    (congr : ∀ {s s'}, P s → s'.canonicalState = s.canonicalState →
      s'.forkStates = s.forkStates → P s')
    (stores : ∀ {s block parent state}, P s → K block → Stores env s block parent state →
      P (s.called.storeFork block state))
    (advances : ∀ {s event entry state s'}, guard s event → s.handled event = some entry → P s →
      K entry.block → Advances env s entry state s' → P s')
    (brings : ∀ {s event}, guard s event → ∀ block ∈ event.blocks, K block) {start : Finalizer}
    (reaches : Reaches env guard start s) (holds : P start ∧ start.Known K) : P s ∧ s.Known K := by
  refine reaches.invariant_forks (fun inv same => congr inv same.canonicalState same.forkStates)
    stores (fun {s waiter} _ inv => ?_) advances brings holds
  obtain ⟨_, _, same⟩ := notifyAtHeight_frame s waiter
  rw [same]
  exact congr inv rfl rfl

theorem known_new {known : Block → Prop} (state : ConsensusState) : (new state).Known known :=
  ⟨nofun, nofun, nofun⟩

theorem forkAt_new (state : ConsensusState) (height : Nat) (digest : Digest) :
    (new state).forkAt height digest = none := rfl

/-! ### The work list is finished -/

/-- The orphans whose parent has no fork state. -/
def waiting (s : Finalizer) : Nat :=
  s.orphanedBlocks.countP fun orphan => (s.forkAt (orphan.height - 1) orphan.parent).isNone

theorem countP_split {α : Type} (list : List α) {all rest part : α → Bool}
    (splits : ∀ a, rest a = (all a && !part a)) (within : ∀ a, part a = true → all a = true) :
    (list.filter part).length + list.countP rest = list.countP all := by
  induction list with
  | nil => rfl
  | cons a list ih =>
    rw [List.filter_cons, List.countP_cons, List.countP_cons, splits a]
    cases here : part a with
    | false => simp only [Bool.false_eq_true, if_false, Bool.not_false, Bool.and_true]; omega
    | true =>
      rw [within a here]
      simp only [if_true, Bool.not_true, Bool.and_false, Bool.false_eq_true, if_false,
        List.length_cons]
      omega

/-- A stored block takes as many orphans off the waiting ones as it hands on. -/
theorem waiting_storeFork {parent : ConsensusState} (stores : Stores env s block parent state) :
    (s.orphanedChildren block.height block.digest).length +
      (s.called.storeFork block state).waiting = s.waiting := by
  have above := stores.above
  have child (orphan : Block) :
      (orphan.height - 1 = block.height ∧ orphan.parent = block.digest) ↔
        orphan.height = block.height + 1 ∧ orphan.parent = block.digest :=
    and_congr_left fun _ => by omega
  refine countP_split s.orphanedBlocks (fun orphan => ?_) fun orphan is => ?_
  · rw [forkAt_storeFork]
    by_cases same : orphan.height - 1 = block.height ∧ orphan.parent = block.digest
    · rw [if_pos same, decide_eq_true ((child orphan).mp same), Bool.not_true, Bool.and_false]
      rfl
    · rw [if_neg same, decide_eq_false (fun is => same ((child orphan).mpr is)), Bool.not_false,
        Bool.and_true]
      rfl
  · obtain ⟨height, digest⟩ := (child orphan).mpr (of_decide_eq_true is)
    rw [height, digest, stores.fresh]
    rfl

/-- A block on the work list whose parent has a fork state. -/
def Adopted (s : Finalizer) (block : Block) : Prop :=
  (s.forkAt (block.height - 1) block.parent).isSome = true

theorem Adopted.not_missing (adopted : s.Adopted block) : s.parentState block ≠ .missing := by
  unfold parentState
  split
  · split <;> nofun
  · obtain ⟨fork, found⟩ := Option.isSome_iff_exists.mp adopted
    rw [found]
    nofun

theorem Adopted.storeFork {other : Block} (adopted : s.Adopted other) :
    (s.called.storeFork block state).Adopted other := by
  rw [Adopted, forkAt_storeFork]
  split
  · rfl
  · exact adopted

theorem waiting_congr (forks : s'.forkStates = s.forkStates)
    (orphans : s'.orphanedBlocks = s.orphanedBlocks) : s'.waiting = s.waiting := by
  rw [waiting, orphans]
  exact congrArg (s.orphanedBlocks.countP ·) (funext fun orphan => by rw [forkAt_congr forks])

/-- The blocks handed on have their parent among the fork states now, and waited before. -/
theorem WorkStep.adopted_children
    (step : WorkStep env s block (s', .ok (some children))) :
    children = [] ∨ (∀ child ∈ children, s'.Adopted child) ∧
      children.length + s'.waiting = s.waiting := by
  rcases step.stores_or_sameForks with ⟨parent, state, stores, same⟩ | ⟨-, -, nothing⟩
  · cases same
    refine Or.inr ⟨fun child member => ?_, waiting_storeFork stores⟩
    obtain ⟨height, digest⟩ := of_decide_eq_true (List.mem_filter.mp member).2
    rw [Adopted, forkAt_storeFork, if_pos ⟨by omega, digest⟩]
    rfl
  · exact Or.inl (nothing children rfl)

theorem WorkStep.adopted (step : WorkStep env s block made) (first : s.Adopted block) :
    (∀ other, s.Adopted other → made.1.Adopted other) ∧ made.1.waiting ≤ s.waiting := by
  rcases step.stores_or_sameForks with ⟨parent, state, stores, rfl⟩ | ⟨same, orphans, -⟩
  · have := waiting_storeFork stores
    exact ⟨fun other adopted => adopted.storeFork, by dsimp only; omega⟩
  · refine ⟨fun other adopted => ?_,
      (waiting_congr same.forkStates (orphans first.not_missing)).le⟩
    rw [Adopted, forkAt_congr same.forkStates]
    exact adopted

theorem processAll_adopted (fuel : Nat) (buffered : Bool)
    (adopted : ∀ block ∈ toProcess, s.Adopted block) (enough : toProcess.length + s.waiting ≤ fuel)
    (result : (processAll env fuel s buffered toProcess).1.2 = .ok done) :
    (processAll env fuel s buffered toProcess).2 = [] := by
  induction fuel generalizing s buffered toProcess with
  | zero =>
    cases toProcess with
    | nil => rfl
    | cons block rest =>
      rw [List.length_cons] at enough
      omega
  | succ fuel ih =>
    cases toProcess with
    | nil => rfl
    | cons block rest =>
      rw [List.length_cons] at enough
      obtain ⟨first, others⟩ := List.forall_mem_cons.mp adopted
      have step := workStep_processNotarized env s block
      rw [processAll] at result ⊢
      generalize s.processNotarized env block = made at *
      obtain ⟨next, error | handed⟩ := made
      · cases result
      obtain ⟨keeps, fewer⟩ := step.adopted first
      have kept : ∀ other ∈ rest, next.Adopted other := fun other member =>
        keeps other (others other member)
      cases handed with
      | none => exact ih true kept (by dsimp only at fewer; omega) result
      | some children =>
        rcases step.adopted_children with rfl | ⟨new, taken⟩
        · exact ih buffered kept (by dsimp only at fewer; simp; omega) result
        · refine ih buffered (fun other member => ?_) ?_ result
          · rcases List.mem_append.mp member with child | old
            · exact new other (List.mem_reverse.mp child)
            · exact kept other old
          · rw [List.length_append, List.length_reverse]
            omega

/-- **The work list is finished**: the fuel is one more than the number of orphans, and every orphan
is taken up at most once. -/
theorem processAll_finishes (s : Finalizer) (block : Block)
    (result : (processAll env (s.orphanedBlocks.length + 1) s false [block]).1.2 = .ok done) :
    (processAll env (s.orphanedBlocks.length + 1) s false [block]).2 = [] := by
  have bound : s.waiting ≤ s.orphanedBlocks.length := List.countP_le_length
  have step := workStep_processNotarized env s block
  rw [processAll] at result ⊢
  generalize s.processNotarized env block = made at *
  obtain ⟨next, error | handed⟩ := made
  · cases result
  · cases handed with
    | none => exact congrArg Prod.snd (processAll_nil _ next true)
    | some children =>
      rcases step.adopted_children with rfl | ⟨new, taken⟩
      · exact congrArg Prod.snd (processAll_nil _ next false)
      · dsimp only at result ⊢
        rw [List.append_nil] at result ⊢
        refine processAll_adopted _ _ (fun child member => new child (List.mem_reverse.mp member)) ?_
          result
        rw [List.length_reverse]
        omega

/-! ### Draining the buffers -/

/-- The events that a drain is made of. -/
def Retries (_ : Finalizer) (event : Event) : Prop :=
  event = .retryFinalized ∨ event = .retryNotarized

/-- A run of retries, the last of which fails if there is an error. -/
def Ends (env : FinalizerEnv) (s : Finalizer) : Finalizer × Except FinalizerError Unit → Prop
  | (s', .ok ()) => Reaches env Retries s s'
  | (s', .error error) => ∃ mid event, Reaches env Retries s mid ∧ Retries mid event ∧
      mid.handle env event = (s', .error error)

/-- No finalized block is left, or the last retry has deferred the first one again. -/
def Exhausts (env : FinalizerEnv) (s s' : Finalizer) : Prop :=
  s'.pendingFinalized = [] ∨
    ∃ mid, Reaches env Retries s mid ∧ mid.retryFinalized env = (s', .ok false)

theorem Ends.after {result : Finalizer × Except FinalizerError Unit}
    (first : Reaches env Retries s mid) (ends : Ends env mid result) : Ends env s result := by
  obtain ⟨s', error | ok⟩ := result
  · obtain ⟨last, event, run, retries, fails⟩ := ends
    exact ⟨last, event, first.trans run, retries, fails⟩
  · exact first.trans ends

theorem ends_retryWhile {event : Event} (retries : ∀ s, Retries s event)
    {retry : Finalizer → Finalizer × Except FinalizerError Bool}
    (single : ∀ s, P s → s.handle env event = ((retry s).1, (retry s).2.map fun _ => ()) ∧
      P (retry s).1) (fuel : Nat) (holds : P s) :
    Ends env s (retryWhile retry fuel s) ∧ P (retryWhile retry fuel s).1 := by
  induction fuel generalizing s with
  | zero => exact ⟨.refl, holds⟩
  | succ fuel ih =>
    obtain ⟨handled, holds'⟩ := single s holds
    rw [retryWhile]
    generalize retry s = made at *
    obtain ⟨next, error | applied⟩ := made
    · exact ⟨⟨s, event, .refl, retries s, handled⟩, holds'⟩
    · have first : Reaches env Retries s next :=
        .single ⟨event, retries s, step_eq_some_iff.mpr handled⟩
      cases applied with
      | false => exact ⟨first, holds'⟩
      | true => exact ⟨(ih holds').1.after first, (ih holds').2⟩

/-- A finalized block that is applied leaves the buffer. -/
theorem pendingFinalized_retryFinalized (result : s.retryFinalized env = (s', .ok true)) :
    s'.pendingFinalized = s.pendingFinalized.tail := by
  unfold retryFinalized at result
  split at result
  · cases congrArg Prod.snd result
  · next entry rest pending =>
    have kept := pendingFinalized_handleFinalizedBlock env { s with pendingFinalized := rest } entry
    split at result
    · cases congrArg Prod.snd result
    · next next applied =>
      obtain rfl := congrArg Prod.fst result
      rw [applied] at kept
      rw [pending]
      exact kept
    · cases congrArg Prod.snd result

/-- **The finalized blocks are tried in turn**, until none is left or one is deferred again. -/
theorem exhausts_retryWhile
    (result : retryWhile (retryFinalized env) s.pendingFinalized.length s = (s', .ok ())) :
    Exhausts env s s' := by
  induction count : s.pendingFinalized.length generalizing s with
  | zero =>
    rw [count] at result
    obtain rfl := congrArg Prod.fst result
    exact Or.inl (List.length_eq_zero_iff.mp count)
  | succ fuel ih =>
    rw [count, retryWhile] at result
    have removed := @pendingFinalized_retryFinalized _ env s
    have handled : s.handle env .retryFinalized =
        ((s.retryFinalized env).1, (s.retryFinalized env).2.map fun _ => ()) := rfl
    cases made : s.retryFinalized env with
    | mk next outcome =>
      rw [made] at result removed handled
      cases outcome with
      | error error => cases congrArg Prod.snd result
      | ok applied =>
        cases applied with
        | false =>
          obtain rfl := congrArg Prod.fst result
          exact Or.inr ⟨s, .refl, made⟩
        | true =>
          have fewer : next.pendingFinalized.length = fuel := by
            rw [removed rfl, List.length_tail, count, Nat.add_sub_cancel]
          rcases ih (fewer ▸ result) fewer with none | ⟨mid, run, deferred⟩
          · exact Or.inl none
          · have first : Steps env Retries s next :=
              ⟨.retryFinalized, Or.inl rfl, step_eq_some_iff.mpr handled⟩
            exact Or.inr ⟨mid, .head first run, deferred⟩

/-- **A drain of the buffers is a run of retries**, the last of which fails if the drain does. One that
does not fail leaves no finalized block, or the last retry has deferred the first one again. -/
theorem ends_drainPending (env : FinalizerEnv) (rounds : Nat) (s : Finalizer) :
    Ends env s (s.drainPending env rounds) ∧
      ((s.drainPending env rounds).2 = .ok () → Exhausts env s (s.drainPending env rounds).1) := by
  have first : Ends env s (retryWhile (retryFinalized env) s.pendingFinalized.length s) :=
    (ends_retryWhile (P := fun _ => True) (fun _ => Or.inl rfl) (fun _ _ => ⟨rfl, trivial⟩) _
      trivial).1
  unfold drainPending
  split
  · next made => exact ⟨made ▸ first, nofun⟩
  · next next made =>
    have exhausted := exhausts_retryWhile made
    rw [made] at first
    split
    · exact ⟨first, fun _ => exhausted⟩
    · next empty =>
      have single (s : Finalizer) (empty : s.pendingFinalized = []) :
          s.handle env .retryNotarized =
              ((s.retryNotarized env).1, (s.retryNotarized env).2.map fun _ => ()) ∧
            (s.retryNotarized env).1.pendingFinalized = [] := by
        have handled : s.handle env .retryNotarized =
            ((s.retryNotarized env).1, (s.retryNotarized env).2.map fun _ => ()) :=
          if_neg (not_not.mpr empty)
        have same := (@sameFinalized_handle _ s .retryNotarized env rfl).pendingFinalized
        rw [handled] at same
        exact ⟨handled, same.trans ((List.append_nil _).trans empty)⟩
      obtain ⟨ends, still⟩ := ends_retryWhile (fun _ => Or.inr rfl) single rounds (not_not.mp empty)
      exact ⟨ends.after first, fun _ => Or.inl still⟩

end Actor

end Finalizer

/-! ### A small chain -/

open Bytes

attribute [local instance] Crypto.accepting

/-- The data before the last block of the first epoch. -/
def endingData : StateData :=
  { StateData.new ⟨zeroChunk, zeroChunk, zeroChunk⟩ 32 10 ten_pos 0 (FixedBytes.zero 20) 4 4 0 4
      1 0 4 with
    latestHeight := 8
    headDigest := FixedBytes.padded 32 [8] }

def endingState : ConsensusState := ConsensusState.ofData endingData 0 none

/-- A block of the first epoch without requests and withdrawals. -/
def plainBlock (height : Nat) : Block where
  epoch := 0
  height := height
  view := height
  digest := FixedBytes.padded 32 [UInt8.ofNat height]
  parent := FixedBytes.padded 32 [UInt8.ofNat (height - 1)]
  ethBlockHash := zeroChunk
  blockNumber := height
  withdrawals := []
  executionRequests := []

/-- The block with a certificate for it. -/
def plainEntry (height : Nat) : PendingFinalized where
  block := plainBlock height
  finalization := some
    { epoch := 0, view := height, parentView := 0, payload := (plainBlock height).digest,
      certificate := [] }
  ack := height

/-- An execution layer that accepts everything. -/
def acceptingEnv : FinalizerEnv where
  engine _ := { checkPayload := fun _ => some .valid, commitHash := fun _ => some .valid }
  protocolConsts := ⟨2, 2⟩
  depositSignatureDomain := zeroChunk
  nodePublicKey := zeroKey
  pendingNotarizedMax := 4

end Summit
