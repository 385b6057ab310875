/-
**A node that is restarted recovers.**

The last block of an epoch stores the state of the next one and moves the tracker to it
(`append_step`). In a chain from a valid genesis that state is read back as it was written
(`roundTrips_crossing`), so what the database gives a node that starts is the state that was stored
last. It lies on the way to the canonical state, and no checkpoint is stored after it
(`starts_of_reaches`). A path of direct steps is fixed by its ends, so a restarted node and one that
never stopped agree whenever they come to the same head.
-/

import Summit.Model.Database
import Summit.Proof.Agreement
import Summit.Proof.Persistence

namespace Summit

open Bytes Finalizer FinalizerState Relation

section Recovery

variable [Crypto]

/-! ### The database -/

namespace FinalizerState

variable {db : FinalizerState}

/-- The epoch of the latest state. -/
def tracked (db : FinalizerState) : Nat := db.latestEpoch .latestConsensusStateEpoch

/-- The tracker of the states is moved by the writes of states alone. -/
theorem tracked_persist {write : DbWrite}
    (other : ∀ epoch state, write ≠ .consensusState epoch state) :
    (db.persist write).tracked = db.tracked := by
  cases write with
  | consensusState epoch state => exact absurd rfl (other epoch state)
  | finalizedHeader | finalizedCheckpoint =>
    simp only [persist, storeFinalizedHeader, storeFinalizedCheckpoint, storeAt]
    split <;> rfl

/-- **The state that was stored last is loaded**, if it is read back and the tracker is not further. -/
theorem storeConsensusState_latest {epoch : Nat} {state : ConsensusState} (le : db.tracked ≤ epoch)
    (reads : state.RoundTrips) (initial : ConsensusState) :
    (db.storeConsensusState epoch state).tracked = epoch ∧
      (db.storeConsensusState epoch state).startState initial = .ok state := by
  have reached : epoch ≥ (db.update (.consensusState epoch)
      (.consensusState state.encode)).latestEpoch .latestConsensusStateEpoch := le
  have decoded : Reader.decode ConsensusState.read state.encode = .ok state := by
    have whole := reads.1 []
    rw [List.append_nil] at whole
    rw [Reader.decode, whole]
  rw [storeConsensusState, storeAt, if_pos reached]
  refine ⟨by simp [tracked, latestEpoch, update], ?_⟩
  simp [startState, getLatestConsensusState, getConsensusState, update, decoded, Except.map]

end FinalizerState

/-! ### The chain of a valid genesis -/

variable {node env : FinalizerEnv} {engine : Engine} {delivered : Block → Prop} {s : Finalizer}
  {before after : DirectState}

/-- A path goes the same way whatever checkpoints were stored before. -/
theorem path_shift (earlier : List (Nat × Checkpoint × Block))
    (path : ReflTransGen (Appends env engine delivered) before after) :
    ReflTransGen (Appends env engine delivered) (before.1, earlier ++ before.2)
      (after.1, earlier ++ after.2) := by
  refine path.lift (fun s => (s.1, earlier ++ s.2)) ?_
  rintro s t ⟨block, known, height, parent, step⟩
  obtain ⟨state, checkpoint, accepted, executed, finalizes, checkpoints⟩ := directStep_eq_some.mp step
  exact ⟨block, known, height, parent, directStep_eq_some.mpr ⟨state, checkpoint, accepted, executed,
    finalizes, (congrArg (earlier ++ ·) checkpoints).trans (List.append_assoc _ _ _).symm⟩⟩

variable {state state' : ConsensusState} {stored stored' : List (Nat × Checkpoint × Block)}
  (small : ∀ block, delivered block → block.height ≤ u64Max)

include small

theorem chainStep_of_appends (appends : Appends env engine delivered before after) :
    ∃ block executed checkpoint, ChainStep env.protocolConsts env.depositSignatureDomain
      env.nodePublicKey before.1 block executed after.1 checkpoint := by
  obtain ⟨block, known, height, -, step⟩ := appends
  obtain ⟨state, checkpoint, -, executed, finalizes, -⟩ := directStep_eq_some.mp step
  exact ⟨block, state, checkpoint, height, small block known, executed, finalizes⟩

theorem blockRun_of_path
    (path : ReflTransGen (Appends env engine delivered) (state, stored) (state', stored')) :
    BlockRun env.protocolConsts env.depositSignatureDomain env.nodePublicKey state state' :=
  path.lift Prod.fst fun _ _ step => chainStep_of_appends small step

variable {genesis : Genesis} {positive : 0 < genesis.blocksPerEpoch} (valid : genesis.Valid)
  (stake : genesis.validatorMinimumStake < 2 ^ 64)

include valid stake

/-- **The state of a new epoch is read back.** -/
theorem roundTrips_crossing
    (run : BlockRun env.protocolConsts env.depositSignatureDomain env.nodePublicKey
      (genesis.initialState positive) state)
    (appends : ReflGen (Appends env engine delivered) (state, stored) (state', stored'))
    (crosses : state'.epoch ≠ state.epoch) (representable : state'.Representable) :
    state'.RoundTrips := by
  rcases (reflGen_iff _ _ _).mp appends with same | appended
  · exact absurd (congrArg (·.1.epoch) same) crosses
  obtain ⟨block, executed, checkpoint, step⟩ := chainStep_of_appends small appended
  refine roundTrips_boundary valid stake run step ?_ representable
  -- a block inside the epoch would not leave it
  rcases finalizeExecuted_eq_some step.finalizes with ⟨-, same, -⟩ | ⟨last, -⟩
  · exact absurd ((congrArg (·.epoch) same).trans (ConsensusState.epoch_executed step.executes)) crosses
  · exact step.place.2.1 ▸ last

omit stake valid small in
theorem onEpoch_initialState : (genesis.initialState positive).OnEpoch := by
  rw [genesis.data_initialState positive]
  exact ⟨DynamicEpocher.scheduled_new positive, rfl⟩

/-! ### Sessions -/

/-- An environment of the node: its constants stay, and its execution layer answers SYNCING or as
`engine` does. -/
structure Serves (node : FinalizerEnv) (engine : Engine) (env : FinalizerEnv) : Prop where
  consts : env.protocolConsts = node.protocolConsts
  domain : env.depositSignatureDomain = node.depositSignatureDomain
  answers : Answers env engine

/-- The numbers of the states that are written fit their machine integers. -/
def Finalizer.WritesFit (s : Finalizer) : Prop :=
  ∀ epoch state, DbWrite.consensusState epoch state ∈ s.writes → state.Representable

/-- The databases that the node leaves: an empty one, and what a session that starts from one has
written by the time it stops. -/
inductive Leaves (node : FinalizerEnv) (engine : Engine) (delivered : Block → Prop)
    (initial : ConsensusState) : FinalizerState → Prop where
  | empty : Leaves node engine delivered initial ⟨fun _ => none⟩
  | session {db : FinalizerState} {start : ConsensusState} {env : FinalizerEnv} {s : Finalizer}
    (before : Leaves node engine delivered initial db) (starts : db.startState initial = .ok start)
    (serves : Serves node engine env)
    (reaches : Reaches env (Declares delivered) (Finalizer.new start) s) (fits : s.WritesFit) :
    Leaves node engine delivered initial (s.writes.foldl persist db)

/-- What a database gives a node that starts is a state of the chain, and no later one is tracked. -/
structure Starts (node : FinalizerEnv) (initial : ConsensusState) (db : FinalizerState)
    (start : ConsensusState) : Prop where
  loads : db.startState initial = .ok start
  tracked : db.tracked ≤ start.epoch
  run : BlockRun node.protocolConsts node.depositSignatureDomain node.nodePublicKey initial start

variable {db : FinalizerState} {start : ConsensusState}

omit small in
/-- A state of the chain is one between blocks. -/
theorem Starts.between (starts : Starts node (genesis.initialState positive) db start) :
    start.Committed ∧ start.OnEpoch :=
  ⟨(resting_of_run valid stake starts.run).committed,
    (codable_of_run valid stake starts.run).1.onEpoch⟩

variable (injective : ∀ one two, delivered one → delivered two → one.digest = two.digest → one = two)

include injective

omit small in
/-- What a session does is a path of the node. -/
theorem Starts.session (starts : Starts node (genesis.initialState positive) db start)
    (serves : Serves node engine env)
    (reaches : Reaches env (Declares delivered) (Finalizer.new start) s) :
    ReflTransGen (Appends node engine delivered) (start, [])
      (s.canonicalState, s.storedCheckpoints) := by
  obtain ⟨committed, on⟩ := starts.between valid stake
  rw [← appends_congr serves.consts serves.domain]
  exact path_of_reaches injective serves.answers committed on reaches

/-- **Wherever a session stops**, its database gives a state of the canonical epoch, and no checkpoint
was stored after it. -/
theorem starts_of_reaches
    (starts : Starts node (genesis.initialState positive) db start)
    (serves : Serves node engine env)
    (reaches : Reaches env (Declares delivered) (Finalizer.new start) s) (fits : s.WritesFit) :
    ∃ next, Starts node (genesis.initialState positive) (s.writes.foldl persist db) next ∧
      next.epoch = s.canonicalState.epoch ∧
      ReflTransGen (Appends node engine delivered) (start, []) (next, s.storedCheckpoints) := by
  obtain ⟨committed, on⟩ := starts.between valid stake
  unfold WritesFit at fits
  induction reaches with
  | refl => exact ⟨start, starts, rfl, .refl⟩
  | @tail mid last before step ih =>
    have path := starts.session valid stake injective serves before
    have path' := starts.session valid stake injective serves (before.tail step)
    obtain ⟨event, declares, result⟩ := step
    obtain ⟨mirrors, known⟩ := mirrors_of_reaches serves.answers injective committed on before
    obtain ⟨appends, ⟨writes, epoch⟩ | ⟨epoch, more, others, writes⟩⟩ := append_step injective
      serves.answers mirrors (fun entry => known.handled declares.blocks) result
    -- inside an epoch nothing is written
    · obtain ⟨next, resumes, same, passed⟩ := ih (writes ▸ fits)
      have stored : last.storedCheckpoints = mid.storedCheckpoints :=
        congrArg (List.filterMap DbWrite.asCheckpoint) writes
      rw [writes, stored]
      exact ⟨next, resumes, same.trans epoch.symm, passed⟩
    · rw [writes] at fits
      obtain ⟨next, resumes, same, -⟩ := ih fun epoch state member =>
        fits epoch state (List.mem_append_left _ (List.mem_append_left _ member))
      rw [writes, List.foldl_append, List.foldl_append]
      generalize mid.writes.foldl persist db = stored at resumes
      -- the other writes of the boundary keep the tracker, which the state then moves
      have kept : (more.foldl persist stored).tracked ≤ last.canonicalState.epoch :=
        Run.invariant_foldl (P := fun db : FinalizerState => db.tracked ≤ last.canonicalState.epoch)
          (fun db write member le => (tracked_persist (others write member)).trans_le le)
          (resumes.tracked.trans (same ▸ epoch ▸ Nat.le_succ _))
      rw [appends_congr serves.consts serves.domain] at appends
      have reads : last.canonicalState.RoundTrips := by
        refine roundTrips_crossing small valid stake
          (starts.run.trans (blockRun_of_path small path)) appends ?_
          (fits _ _ (List.mem_append_right _ (List.mem_singleton_self _)))
        exact epoch ▸ Nat.succ_ne_self _
      obtain ⟨moved, loaded⟩ := storeConsensusState_latest kept reads (genesis.initialState positive)
      exact ⟨last.canonicalState, ⟨loaded, moved.le, starts.run.trans (blockRun_of_path small path')⟩,
        rfl, path'⟩

/-- **Whatever the node left behind**, its database gives a state to start from. -/
theorem exists_starts (leaves : Leaves node engine delivered (genesis.initialState positive) db) :
    ∃ start, Starts node (genesis.initialState positive) db start := by
  induction leaves with
  | empty => exact ⟨_, rfl, Nat.zero_le _, .refl⟩
  | session before starts serves reaches fits ih =>
    obtain ⟨start, loads⟩ := ih
    obtain rfl := Except.ok.inj (starts.symm.trans loads.loads)
    obtain ⟨next, resumes, -⟩ := starts_of_reaches small valid stake injective loads serves reaches
      fits
    exact ⟨next, resumes⟩

end Recovery

attribute [local instance] Crypto.accepting

/-- The blocks of the first epoch and the first two of the next one. -/
def firstBlocks : List Block :=
  (List.range 11).map fun index => { plainBlock (index + 1) with epoch := (index + 1) / 10 }

/-- A node finalizes some of the blocks one after the other. -/
def finalizeAll (blocks : List Block) (s : Finalizer) : Option Finalizer :=
  (blocks.map fun block => .finalizedBlock { plainEntry block.height with block }).foldlM
    (Run.guarded (declares firstBlocks) (step acceptingEnv)) s

theorem reaches_of_finalizeAll {blocks : List Block} {s s' : Finalizer}
    (among : ∀ block ∈ blocks, block ∈ firstBlocks) (run : finalizeAll blocks s = some s') :
    Reaches acceptingEnv (Declares (· ∈ firstBlocks)) s s' := by
  refine reaches_of_declares (fun event member block brought => ?_) run
  obtain ⟨known, listed, rfl⟩ := List.mem_map.mp member
  obtain rfl := List.mem_singleton.mp brought
  exact among _ listed

def Finalizer.writesFit (s : Finalizer) : Bool :=
  s.writes.all fun
    | .consensusState _ state => decide state.Representable
    | _ => true

end Summit
