/-
**Nodes that finalize the same block agree.**

Two nodes see the blocks in their own order, execute some of them ahead and wait for their execution
layers at different times. What a run does to the canonical state and the stored checkpoints is a
path of direct steps over blocks that are linked by their digests (`path_of_reaches`), and such a
path is fixed by its ends (`path_unique`). The direct step does not depend on whose node it is
(`directStep_congr`).
-/

import Summit.Proof.Speculation

namespace Summit

open Finalizer Relation

section Agreement

variable [Crypto]

def ConsensusState.head (s : ConsensusState) : Nat × Digest := (s.latestHeight, s.headDigest)

variable {env : FinalizerEnv} {engine : Engine} {delivered : Block → Prop} {s s' : Finalizer}
  {start : ConsensusState} {before after : DirectState}

/-! ### Paths of direct steps -/

/-- A delivered block goes on top of the head. -/
def Appends (env : FinalizerEnv) (engine : Engine) (delivered : Block → Prop)
    (before after : DirectState) : Prop :=
  ∃ block, delivered block ∧ block.height = before.1.latestHeight + 1 ∧
    block.parent = before.1.headDigest ∧ directStep engine env before block = some after

theorem directStep_eq_some {block : Block} : directStep engine env before block = some after ↔
    ∃ state checkpoint, engine.Accepts none block ∧
      before.1.executed env.protocolConsts env.depositSignatureDomain block = some state ∧
      state.finalizeExecuted env.nodePublicKey block = some (after.1, checkpoint) ∧
      after.2 = before.2 ++
        (checkpoint.map fun checkpoint => (state.epoch, checkpoint, block)).toList := by
  constructor
  · intro step
    unfold directStep at step
    split at step
    · next state applied =>
      obtain ⟨accepted, executed⟩ := executeBlock_eq_applied.mp applied
      obtain ⟨⟨final, checkpoint⟩, finalizes, rfl⟩ := Option.map_eq_some_iff.mp step
      exact ⟨state, checkpoint, accepted, executed, finalizes, rfl⟩
    all_goals cases step
  · rintro ⟨state, checkpoint, accepted, executed, finalizes, checkpoints⟩
    simp only [directStep, executeBlock_eq_applied.mpr ⟨accepted, executed⟩, finalizes,
      Option.map_some, ← checkpoints]

theorem head_directStep {block : Block} (step : directStep engine env before block = some after) :
    after.1.head = (block.height, block.digest) := by
  obtain ⟨state, _, -, executed, finalizes, -⟩ := directStep_eq_some.mp step
  obtain ⟨height, head⟩ := head_finalizeExecuted finalizes
  obtain ⟨height', head'⟩ := head_executed executed
  exact Prod.ext (height.trans height') (head.trans head')

/-- The boundary does not depend on whose node it is. -/
theorem boundary_key (s : LiveState) (digest : Digest) (key key' : PublicKey) :
    s.boundary key digest = s.boundary key' digest := by
  refine congrArg (Option.bind _) (funext fun changed => ?_)
  unfold LiveState.applyCommitteeTransition
  dsimp only
  split
  · rfl
  · rw [Option.map_map, Option.map_map]
    rfl

theorem directStep_congr {one two : FinalizerEnv} (consts : one.protocolConsts = two.protocolConsts)
    (domain : one.depositSignatureDomain = two.depositSignatureDomain) :
    directStep engine one = directStep engine two := by
  funext s block
  unfold directStep ConsensusState.finalizeExecuted ConsensusState.epochBoundary
  simp only [consts, domain, boundary_key _ _ one.nodePublicKey two.nodePublicKey]

theorem appends_congr {one two : FinalizerEnv} (consts : one.protocolConsts = two.protocolConsts)
    (domain : one.depositSignatureDomain = two.depositSignatureDomain) :
    Appends one engine delivered = Appends two engine delivered := by
  unfold Appends
  rw [directStep_congr consts domain]

/-! ### What an event writes -/

/-- Nothing is written in an epoch, and the state of the next one last at its end. -/
def Persists (writes writes' : List DbWrite) (epoch : Nat) (state : ConsensusState) : Prop :=
  writes' = writes ∧ state.epoch = epoch ∨ state.epoch = epoch + 1 ∧
    ∃ more, (∀ write ∈ more, ∀ epoch state, write ≠ DbWrite.consensusState epoch state) ∧
      writes' = writes ++ more ++ [.consensusState state.epoch state]

theorem persists_settle {entry : PendingFinalized} (result : s.settle env entry = some s') :
    Persists s.writes s'.writes s.canonicalState.epoch s'.canonicalState := by
  unfold Finalizer.settle at result
  split at result
  · obtain ⟨finalization, -, rest⟩ := Option.bind_eq_some_iff.mp result
    obtain ⟨⟨crossed, checkpoint⟩, boundary, rfl⟩ := Option.map_eq_some_iff.mp rest
    obtain ⟨live, crossing, same⟩ := Option.map_eq_some_iff.mp boundary
    obtain ⟨rfl, rfl⟩ := Prod.mk.inj same
    have epoch : live.1.epoch = s.canonicalState.epoch + 1 := (enters_boundary crossing).epoch
    refine .inr ⟨epoch, _, fun write member => ?_,
      congrArg (_ ++ [DbWrite.consensusState · _]) epoch.symm⟩
    rcases List.mem_cons.mp member with rfl | member
    · exact nofun
    · obtain ⟨_, -, rfl⟩ := Option.map_eq_some_iff.mp (Option.mem_toList.mp member)
      exact nofun
  · obtain rfl := Option.some.inj result
    exact .inl ⟨rfl, rfl⟩

variable (injective : ∀ one two, delivered one → delivered two → one.digest = two.digest → one = two)

include injective

/-- **A path is fixed by its ends**: the head names the block before it, and so on to the start. -/
theorem path_unique {one two : DirectState}
    (path : ReflTransGen (Appends env engine delivered) before one)
    (path' : ReflTransGen (Appends env engine delivered) before two)
    (same : one.1.head = two.1.head) : one = two := by
  refine Run.eq_of_head (fun s => s.1.head) ?_ ?_ ?_ path path' same
  · rintro s t ⟨block, -, height, -, step⟩
    rw [head_directStep step]
    exact height
  · rintro s t s' t' ⟨block, known, height, parent, step⟩
      ⟨block', known', height', parent', step'⟩ same
    rw [head_directStep step, head_directStep step', Prod.mk.injEq] at same
    obtain rfl := injective block block' known known' same.2
    exact Prod.ext (Nat.succ.inj (height.symm.trans height')) (parent.symm.trans parent')
  · rintro s t t' ⟨block, known, -, -, step⟩ ⟨block', known', -, -, step'⟩ same
    rw [head_directStep step, head_directStep step', Prod.mk.injEq] at same
    obtain rfl := injective block block' known known' same.2
    exact Option.some.inj (step.symm.trans step')

/-! ### Runs -/

variable (answers : Answers env engine)

include answers

/-- **One event** leaves the direct state or appends a block to it. -/
theorem append_step {event : Event} (mirrors : Mirrors env engine delivered s)
    (known : ∀ entry, s.handled event = some entry → delivered entry.block)
    (result : s.step env event = some s') :
    ReflGen (Appends env engine delivered) (s.canonicalState, s.storedCheckpoints)
        (s'.canonicalState, s'.storedCheckpoints) ∧
      Persists s.writes s'.writes s.canonicalState.epoch s'.canonicalState := by
  unfold storedCheckpoints
  rw [step_eq_some_iff] at result
  cases handles : s.handled event with
  | none =>
    have same := sameFinalized_handle env handles
    rw [result] at same
    rw [same.canonicalState, same.writes]
    exact ⟨.refl, .inl ⟨rfl, rfl⟩⟩
  | some entry =>
    obtain ⟨rest, -, handled⟩ := handle_eq_requeue env handles
    rw [handled] at result
    have outcome := finalized_handleFinalizedBlock env { s with pendingFinalized := rest } entry
    generalize { s with pendingFinalized := rest }.handleFinalizedBlock env entry = made at *
    cases outcome with
    -- an error stops the actor
    | conflict | refused | failed | halted => cases congrArg Prod.snd result
    | duplicate | deferred =>
      obtain rfl := congrArg Prod.fst result
      exact ⟨.refl, .inl ⟨rfl, rfl⟩⟩
    | @applied state settled extends_ executes settles =>
      obtain rfl : (settled.readoptOrphans env entry.block).1 = s' := by
        generalize settled.readoptOrphans env entry.block = made at result
        obtain ⟨next, error | ok⟩ := made
        · cases congrArg Prod.snd result
        · exact congrArg Prod.fst result
      obtain ⟨accepted, executed⟩ := mirrors.direct answers injective (known entry handles)
        ⟨extends_.height, extends_.parent, extends_.certified⟩ executes
      obtain ⟨⟨⟨checkpoint, finalizes, checkpoints⟩, -, -⟩, -⟩ := settles_promote settles
      -- the orphans that are adopted after the block leave its state and the writes
      have same := sameFinalized_readoptOrphans env settled entry.block
      rw [same.canonicalState, same.writes]
      refine ⟨.single ⟨entry.block, known entry handles, extends_.height, extends_.parent,
        directStep_eq_some.mpr ⟨state, checkpoint, accepted, executed, finalizes, checkpoints⟩⟩, ?_⟩
      rw [← ConsensusState.epoch_executed executed]
      exact persists_settle settles

theorem path_of_reaches (committed : start.Committed) (on : start.OnEpoch)
    (reaches : Reaches env (Declares delivered) (Finalizer.new start) s) :
    ReflTransGen (Appends env engine delivered) (start, [])
      (s.canonicalState, s.storedCheckpoints) := by
  induction reaches with
  | refl => exact .refl
  | tail before step ih =>
    obtain ⟨event, declares, result⟩ := step
    obtain ⟨mirrors, known⟩ := mirrors_of_reaches answers injective committed on before
    exact ih.trans (append_step injective answers mirrors
      (fun entry => known.handled declares.blocks) result).1.to_reflTransGen

end Agreement

/-- **Nodes agree.** Two nodes, each with its own key, run from the same state over delivered blocks
that declare the epochs of their heights and differ in their digests, and their execution layers
answer SYNCING or as `engine` does. Whenever both have finalized the same head, whatever order they
saw the blocks in, they have the same canonical state and have stored the same checkpoints. -/
theorem nodes_agree [Crypto] (one two : FinalizerEnv) (engine : Engine) (start : ConsensusState)
    (committed : start.Committed) (on : start.OnEpoch) (delivered : Block → Prop)
    (injective : ∀ one two, delivered one → delivered two → one.digest = two.digest → one = two)
    (answers : Answers one engine) (answers' : Answers two engine)
    (consts : one.protocolConsts = two.protocolConsts)
    (domain : one.depositSignatureDomain = two.depositSignatureDomain) (s t : Finalizer)
    (reaches : Reaches one (Declares delivered) (Finalizer.new start) s)
    (reaches' : Reaches two (Declares delivered) (Finalizer.new start) t)
    (heads : s.canonicalState.head = t.canonicalState.head) :
    s.canonicalState = t.canonicalState ∧ s.storedCheckpoints = t.storedCheckpoints := by
  have path := path_of_reaches injective answers committed on reaches
  have path' := path_of_reaches injective answers' committed on reaches'
  rw [← appends_congr consts domain] at path'
  exact Prod.mk.inj (path_unique injective path path' heads)

attribute [local instance] Crypto.accepting

/-- A node with another key. -/
def otherEnv : FinalizerEnv :=
  { acceptingEnv with nodePublicKey := ⟨Bytes.FixedBytes.padded 32 [1], rfl⟩ }

/-- One node executes the last block of the epoch ahead, and the other one when it is finalized. -/
theorem nodes_agree_last :
    ∃ s t, Reaches acceptingEnv (Declares (· ∈ [plainBlock 9])) (Finalizer.new endingState) s ∧
      Reaches otherEnv (Declares (· ∈ [plainBlock 9])) (Finalizer.new endingState) t ∧
      s.canonicalState.epoch = 1 ∧ s.canonicalState = t.canonicalState := by
  have computed : ([.notarizedBlock (plainBlock 9), .finalizedBlock (plainEntry 9)].foldlM
      (Run.guarded (declares [plainBlock 9]) (step acceptingEnv)) (Finalizer.new endingState)).bind
        (fun s => ([.finalizedBlock (plainEntry 9)].foldlM
          (Run.guarded (declares [plainBlock 9]) (step otherEnv)) (Finalizer.new endingState)).map
            fun t => (s.canonicalState.epoch,
              decide (s.canonicalState.head = t.canonicalState.head))) =
      some (1, true) := by
    decide +kernel
  obtain ⟨s, ahead, rest⟩ := Option.bind_eq_some_iff.mp computed
  obtain ⟨t, direct, facts⟩ := Option.map_eq_some_iff.mp rest
  simp only [Prod.mk.injEq, decide_eq_true_iff] at facts
  obtain ⟨epoch, heads⟩ := facts
  have reaches := reaches_of_declares (by decide) ahead
  have reaches' := reaches_of_declares (by decide) direct
  exact ⟨s, t, reaches, reaches', epoch, (nodes_agree acceptingEnv otherEnv (otherEnv.engine 0)
    endingState (committed_ofData _ _ _) ⟨DynamicEpocher.scheduled_new (by decide), rfl⟩
    (· ∈ [plainBlock 9])
    (digests_injective (by decide)) ⟨fun _ _ => .inr rfl, fun _ _ _ _ => .inr rfl⟩
    ⟨fun _ _ => .inr rfl, fun _ _ _ _ => .inr rfl⟩ rfl rfl s t reaches reaches' heads).1⟩

end Summit
