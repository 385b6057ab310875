/-
**Epoch and height along the runs of the finalizer.**

The canonical epoch is the epoch that the schedule places the next height in. Executing a block
keeps epoch and schedule, and the boundary after the last block of an epoch moves both on, so the
coupling survives as long as a finalized block takes over a fork state of the current epoch
(`coupled_of_reaches`). The epoch of a block is compared with the state it is executed on, which for
a notarized block may be the state of a last block whose boundary has not been crossed; when such a
fork state is taken over after the boundary, the chain falls back into the epoch it has left
(`epoch_falls_back`).
-/

import Summit.Proof.Actor

set_option linter.unusedSectionVars false

namespace Summit

/-! ### The next height -/

namespace DynamicEpocher

variable {epocher epocher' : DynamicEpocher} {height : Nat} {info : EpochInfo}

theorem isLastBlockOfEpoch_eq (found : epocher.containing height = some info) :
    epocher.isLastBlockOfEpoch height = decide (info.last = info.height) := by
  rw [isLastBlockOfEpoch, found, Option.any_some]

/-- Inside an epoch the next height lies in the same one. -/
theorem Scheduled.containing_succ (scheduled : epocher.Scheduled)
    (found : epocher.containing height = some info)
    (inside : epocher.isLastBlockOfEpoch height = false) :
    ∃ next, epocher.containing (height + 1) = some next ∧ next.epoch = info.epoch := by
  obtain ⟨same, visible, bounds, low, high⟩ := scheduled.containing_eq_some_iff.mp found
  rw [isLastBlockOfEpoch_eq found, decide_eq_false_iff_not, same] at inside
  refine ⟨{ info with height := height + 1 }, ?_, rfl⟩
  exact scheduled.containing_eq_some_iff.mpr ⟨rfl, visible, bounds,
    show info.first ≤ height + 1 by omega, show height + 1 ≤ info.last by omega⟩

/-- After its last height the next epoch begins, under any schedule that agrees so far. -/
theorem Scheduled.containing_next (scheduled : epocher.Scheduled) (scheduled' : epocher'.Scheduled)
    (found : epocher.containing height = some info)
    (last : epocher.isLastBlockOfEpoch height = true)
    (current : epocher'.currentEpoch = info.epoch + 1)
    (agree : ∀ epoch ≤ info.epoch + 2,
      firstHeight epocher'.newestFirst epoch = firstHeight epocher.newestFirst epoch)
    (room : (bounds epocher.segments (info.epoch + 1)).isSome = true) :
    ∃ next, epocher'.containing (height + 1) = some next ∧ next.epoch = info.epoch + 1 := by
  obtain ⟨same, -, within, -, -⟩ := scheduled.containing_eq_some_iff.mp found
  rw [isLastBlockOfEpoch_eq found, decide_eq_true_iff, same] at last
  obtain ⟨⟨first, final⟩, bounded⟩ := Option.isSome_iff_exists.mp room
  obtain ⟨-, ends, -⟩ := (bounds_eq_some_iff scheduled.linked).mp within
  obtain ⟨starts, follows, small⟩ := (bounds_eq_some_iff scheduled.linked).mp bounded
  have rises := firstHeight_strictMono scheduled.linked (Nat.lt_add_one (info.epoch + 1))
  change firstHeight epocher.newestFirst (info.epoch + 1) = info.last + 1 at ends
  change firstHeight epocher.newestFirst (info.epoch + 1) = first at starts
  change firstHeight epocher.newestFirst (info.epoch + 1 + 1) = final + 1 at follows
  refine ⟨⟨info.epoch + 1, height + 1, first, final⟩, ?_, rfl⟩
  refine scheduled'.containing_eq_some_iff.mpr ⟨rfl, ?_, ?_, ?_, ?_⟩
  · show info.epoch + 1 ≤ epocher'.currentEpoch + 1
    omega
  · exact (bounds_eq_some_iff scheduled'.linked).mpr
      ⟨(agree (info.epoch + 1) (by omega)).trans starts,
        (agree (info.epoch + 1 + 1) le_rfl).trans follows, small⟩
  · show first ≤ height + 1
    omega
  · show height + 1 ≤ final
    omega

end DynamicEpocher

section Coupling

variable [Crypto]

/-- The epoch is the one that the schedule is in and places the next height in. -/
structure StateData.Coupled (data : StateData) : Prop where
  current : data.epoch = data.epocher.currentEpoch
  next : ∃ info, data.epocher.containing (data.latestHeight + 1) = some info ∧
    info.epoch = data.epoch

namespace Finalizer

/-- A fork state that is taken over is of the canonical epoch, and the schedule has bounds for the
epoch after it. -/
structure Timely (s : Finalizer) (event : Event) : Prop where
  reused : ∀ entry fork, s.handled event = some entry →
    s.forkAt entry.block.height entry.block.digest = some fork →
    fork.consensusState.epoch = s.canonicalState.epoch
  room : (s.canonicalState.epocher.epochBounds (s.canonicalState.epoch + 1)).isSome = true

/-- A state on the canonical schedule at a height. -/
structure OnSchedule (canonical : ConsensusState) (height : Nat) (state : ConsensusState) :
    Prop where
  height : state.latestHeight = height
  epoch : state.epoch ≤ canonical.epoch
  epocher : state.epoch = canonical.epoch → state.epocher = canonical.epocher

theorem onSchedule_refl (state : ConsensusState) : OnSchedule state state.latestHeight state :=
  ⟨rfl, le_rfl, fun _ => rfl⟩

variable {parent state : ConsensusState} {block : Block} {s s' : Finalizer} {env : FinalizerEnv}

theorem OnSchedule.executed {canonical : ConsensusState} {height : Nat} {consts : ProtocolConsts}
    {domain : Digest} (on : OnSchedule canonical height parent)
    (result : parent.executed consts domain block = some state) :
    OnSchedule canonical block.height state := by
  have place := place_executed result
  have epoch : state.epoch = parent.epoch := congrArg Place.epoch place
  have epocher : state.epocher = parent.epocher := congrArg Place.epocher place
  refine ⟨congrArg Place.latestHeight place, epoch.trans_le on.epoch, fun same => ?_⟩
  exact epocher.trans (on.epocher (epoch.symm.trans same))

/-- The invariant of the runs. -/
structure InStep (s : Finalizer) : Prop where
  scheduled : s.canonicalState.epocher.Scheduled
  coupled : s.canonicalState.Coupled
  forks : ∀ height digest fork, s.forkAt height digest = some fork →
    OnSchedule s.canonicalState height fork.consensusState

theorem InStep.congr (holds : InStep s) (canonical : s'.canonicalState = s.canonicalState)
    (forks : s'.forkStates = s.forkStates) : InStep s' := by
  refine ⟨canonical ▸ holds.scheduled, canonical ▸ holds.coupled, fun height digest fork found => ?_⟩
  rw [forkAt_congr forks] at found
  rw [canonical]
  exact holds.forks height digest fork found

theorem InStep.stores (holds : InStep s) (stores : Stores env s block parent state) :
    InStep (s.called.storeFork block state) := by
  have parentOn : ∃ height, OnSchedule s.canonicalState height parent := by
    rcases parentState_cases stores.found with ⟨-, rfl, -⟩ | ⟨fork, -, here, rfl⟩
    · exact ⟨_, onSchedule_refl _⟩
    · exact ⟨_, holds.forks _ _ fork here⟩
  obtain ⟨_, on⟩ := parentOn
  refine ⟨holds.scheduled, holds.coupled, fun height digest fork found => ?_⟩
  rw [forkAt_storeFork] at found
  split at found
  · next same =>
    obtain rfl := Option.some.inj found
    rw [same.1]
    exact on.executed stores.executed
  · exact holds.forks height digest fork found

/-- **A finalized block** moves the canonical state on by one height, and into the next epoch after
the last one. -/
theorem InStep.advances {event : Event} {entry : PendingFinalized} (timely : Timely s event)
    (handles : s.handled event = some entry) (holds : InStep s)
    (advances : Advances env s entry state s') :
    InStep s' ∧ s.canonicalState.epoch ≤ s'.canonicalState.epoch := by
  have extends_ := advances.extends_
  obtain ⟨checkpoint, finalizes⟩ := advances.finalizes
  obtain ⟨info, found, inEpoch⟩ := holds.coupled.next
  -- the state the block leads to is of the canonical epoch and schedule
  have stands : state.epoch = s.canonicalState.epoch ∧ state.epocher = s.canonicalState.epocher ∧
      state.latestHeight = s.canonicalState.latestHeight + 1 := by
    rcases executeFinalized_cases advances.executes with ⟨fork, here, rfl, -⟩ | ⟨-, -, executed⟩
    · have on := holds.forks _ _ fork here
      have epoch := timely.reused entry fork handles here
      exact ⟨epoch, on.epocher epoch, on.height.trans extends_.height⟩
    · have place := place_executed executed
      exact ⟨congrArg Place.epoch place, congrArg Place.epocher place,
        (congrArg Place.latestHeight place).trans extends_.height⟩
  obtain ⟨epoch, epocher, height⟩ := stands
  have kept : ∀ height digest fork, s'.forkAt height digest = some fork →
      OnSchedule s.canonicalState height fork.consensusState := by
    intro height digest fork here
    rw [forkAt_congr advances.forkStates] at here
    exact holds.forks height digest fork (forkAt_promote here).2
  rcases finalizeExecuted_cases finalizes with ⟨inside, same, -⟩ | ⟨last, enters⟩
  · rw [epocher, extends_.height] at inside
    obtain ⟨next, further, sameEpoch⟩ := holds.scheduled.containing_succ found inside
    have epoch' : s'.canonicalState.epoch = s.canonicalState.epoch := same ▸ epoch
    have epocher' : s'.canonicalState.epocher = s.canonicalState.epocher := same ▸ epocher
    have height' : s'.canonicalState.latestHeight = s.canonicalState.latestHeight + 1 :=
      same ▸ height
    refine ⟨⟨epocher' ▸ holds.scheduled, ⟨?_, next, ?_, ?_⟩, fun height digest fork here => ?_⟩,
      epoch'.ge⟩
    · rw [epoch', epocher']
      exact holds.coupled.current
    · rw [epocher', height']
      exact further
    · rw [sameEpoch, epoch']
      exact inEpoch
    · obtain ⟨level, older, schedule⟩ := kept height digest fork here
      refine ⟨level, epoch'.symm ▸ older, fun same => ?_⟩
      rw [epocher']
      exact schedule (same.trans epoch')
  · rw [epocher, extends_.height] at last
    have epoch' : s'.canonicalState.epoch = s.canonicalState.epoch + 1 :=
      enters.epoch.trans (congrArg (· + 1) epoch)
    have current' : s'.canonicalState.epocher.currentEpoch = s.canonicalState.epoch + 1 :=
      enters.current.trans (congrArg (· + 1) epoch)
    have height' : s'.canonicalState.latestHeight = s.canonicalState.latestHeight + 1 :=
      enters.height.trans height
    have schedule : state.settledHead.place.epocher = s.canonicalState.epocher := epocher
    have entered : state.settledHead.place.epoch = s.canonicalState.epoch := epoch
    obtain ⟨scheduled', agree⟩ := enters.scheduled (schedule ▸ holds.scheduled)
      (by rw [schedule, entered]; exact holds.coupled.current.symm)
    rw [schedule, entered] at agree
    have room := timely.room
    rw [DynamicEpocher.epochBounds, if_neg (by have := holds.coupled.current; omega)] at room
    obtain ⟨next, further, nextEpoch⟩ := holds.scheduled.containing_next scheduled' found last
      (current'.trans (congrArg (· + 1) inEpoch.symm)) (inEpoch ▸ agree) (inEpoch ▸ room)
    refine ⟨⟨scheduled', ⟨epoch'.trans current'.symm, next, ?_, ?_⟩,
      fun height digest fork here => ?_⟩, by omega⟩
    · rw [height']
      exact further
    · rw [nextEpoch, epoch', inEpoch]
    · obtain ⟨level, older, -⟩ := kept height digest fork here
      exact ⟨level, by omega, fun same => by omega⟩

/-- **Epoch and height stay coupled** in a timely run, and the epoch never falls. -/
theorem InStep.of_reaches {t : Finalizer} (holds : InStep t) (reaches : Reaches env Timely t s) :
    InStep s ∧ t.canonicalState.epoch ≤ s.canonicalState.epoch := by
  have result := reaches.invariant (K := fun _ => True)
    (P := fun s => InStep s ∧ t.canonicalState.epoch ≤ s.canonicalState.epoch)
    (fun inv canonical forks => ⟨inv.1.congr canonical forks, canonical ▸ inv.2⟩)
    (fun inv _ stores => ⟨inv.1.stores stores, inv.2⟩)
    (fun timely handles inv _ advances => by
      obtain ⟨next, rises⟩ := inv.1.advances timely handles advances
      exact ⟨next, inv.2.trans rises⟩)
    (fun _ _ _ => trivial) ⟨⟨holds, le_rfl⟩, ?_⟩
  · exact result.1
  · exact ⟨fun _ _ => trivial, fun _ _ => trivial, fun _ _ => trivial⟩

end Finalizer

end Coupling

open Finalizer

/-- **Epoch and height stay coupled.** In every run in which each fork state that is taken over is of
the canonical epoch, and the epoch after the current one has bounds, the canonical epoch is the
current epoch of the schedule and the one it places the next height in, and neither ever falls. -/
theorem coupled_of_reaches [Crypto] (env : FinalizerEnv) (state : ConsensusState)
    (scheduled : state.epocher.Scheduled) (coupled : state.Coupled) {t s : Finalizer}
    (before : Reaches env Timely (Finalizer.new state) t) (after : Reaches env Timely t s) :
    s.canonicalState.epoch = s.canonicalState.epocher.currentEpoch ∧
      (∃ info, s.canonicalState.epocher.containing (s.canonicalState.latestHeight + 1) = some info ∧
        info.epoch = s.canonicalState.epoch) ∧
      t.canonicalState.epoch ≤ s.canonicalState.epoch ∧
      t.canonicalState.epocher.currentEpoch ≤ s.canonicalState.epocher.currentEpoch := by
  have start : InStep (Finalizer.new state) :=
    ⟨scheduled, coupled, fun height digest fork found => by rw [forkAt_new] at found; cases found⟩
  obtain ⟨mid, -⟩ := start.of_reaches before
  obtain ⟨last, rises⟩ := mid.of_reaches after
  refine ⟨last.coupled.current, last.coupled.next, rises, ?_⟩
  rw [← last.coupled.current, ← mid.coupled.current]
  exact rises

/-! ### Falling back into the epoch before -/

attribute [local instance] Crypto.accepting

theorem scheduled_endingState : endingState.epocher.Scheduled :=
  DynamicEpocher.scheduled_new (by decide)

theorem coupled_endingState : endingState.Coupled :=
  ⟨rfl, ⟨0, 9, 0, 9⟩, by decide, rfl⟩

/-- The last block of the epoch is executed ahead, and its fork state is taken over. -/
theorem coupled_of_reaches_last :
    ∃ t fork s, Reaches acceptingEnv Timely (Finalizer.new endingState) t ∧
      t.forkAt 9 (plainBlock 9).digest = some fork ∧
      t.step acceptingEnv (.finalizedBlock (plainEntry 9)) = some s ∧
      s.canonicalState.epoch = 1 ∧ s.canonicalState.epocher.currentEpoch = 1 := by
  have computed : ((Finalizer.new endingState).step acceptingEnv
      (.notarizedBlock (plainBlock 9))).bind (fun t =>
        (t.forkAt 9 (plainBlock 9).digest).bind fun fork =>
          (t.step acceptingEnv (.finalizedBlock (plainEntry 9))).map fun s =>
            (fork.consensusState.epoch, t.canonicalState.epoch, t.pendingFinalized.length,
              (t.canonicalState.epocher.epochBounds (t.canonicalState.epoch + 1)).isSome,
              s.canonicalState.epoch)) = some (0, 0, 0, true, 1) := by
    decide +kernel
  obtain ⟨t, ahead, rest⟩ := Option.bind_eq_some_iff.mp computed
  obtain ⟨fork, held, rest⟩ := Option.bind_eq_some_iff.mp rest
  obtain ⟨s, taken, facts⟩ := Option.map_eq_some_iff.mp rest
  simp only [Prod.mk.injEq] at facts
  obtain ⟨forkEpoch, canonical, pending, room, epoch⟩ := facts
  have before : Reaches acceptingEnv Timely (Finalizer.new endingState) t :=
    .single ⟨_, ⟨nofun, by decide⟩, ahead⟩
  have timely : Timely t (.finalizedBlock (plainEntry 9)) := by
    refine ⟨fun entry other handles found => ?_, room⟩
    rw [handled, if_pos (List.length_eq_zero_iff.mp pending)] at handles
    obtain rfl := Option.some.inj handles
    obtain rfl := Option.some.inj (held.symm.trans found)
    exact forkEpoch.trans canonical.symm
  obtain ⟨current, -, -, -⟩ := coupled_of_reaches acceptingEnv endingState scheduled_endingState
    coupled_endingState before (.single ⟨_, timely, taken⟩)
  exact ⟨t, fork, s, before, held, taken, epoch, current.symm.trans epoch⟩

/-- The last block of the epoch and its child are notarized, then both are finalized. -/
def overtakenEvents : List Event :=
  [.notarizedBlock (plainBlock 9), .notarizedBlock (plainBlock 10),
    .finalizedBlock (plainEntry 9)]

/-- **The epoch falls back.** The child of a last block declares the epoch that ends, and is executed
before the boundary; finalized after it, its fork state takes the chain and the schedule back. -/
theorem epoch_falls_back :
    ∃ t s, endingState.epocher.Scheduled ∧ endingState.Coupled ∧
      Reaches acceptingEnv (fun _ _ => True) (Finalizer.new endingState) t ∧
      Reaches acceptingEnv (fun _ _ => True) t s ∧
      t.canonicalState.epoch = 1 ∧ t.canonicalState.epocher.currentEpoch = 1 ∧
      s.canonicalState.epoch = 0 ∧ s.canonicalState.epocher.currentEpoch = 0 ∧
      (s.canonicalState.epocher.containing (s.canonicalState.latestHeight + 1)).map
        EpochInfo.epoch = some 1 := by
  have computed : (overtakenEvents.foldlM (Finalizer.step acceptingEnv)
      (Finalizer.new endingState)).bind (fun t =>
        (t.step acceptingEnv (.finalizedBlock (plainEntry 10))).map fun s =>
          (t.canonicalState.epoch, t.canonicalState.epocher.currentEpoch, s.canonicalState.epoch,
            s.canonicalState.epocher.currentEpoch,
            (s.canonicalState.epocher.containing (s.canonicalState.latestHeight + 1)).map
              EpochInfo.epoch)) = some (1, 1, 0, 0, some 1) := by
    decide +kernel
  obtain ⟨t, first, rest⟩ := Option.bind_eq_some_iff.mp computed
  obtain ⟨s, last, facts⟩ := Option.map_eq_some_iff.mp rest
  simp only [Prod.mk.injEq] at facts
  obtain ⟨epoch, current, epoch', current', next⟩ := facts
  refine ⟨t, s, scheduled_endingState, coupled_endingState, ?_, .single ⟨_, trivial, last⟩, epoch,
    current, epoch', current', next⟩
  exact Run.reflTransGen_of_foldlM first fun _ _ event _ result => ⟨event, trivial, result⟩

end Summit
