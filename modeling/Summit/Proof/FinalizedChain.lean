/-
**The finalized chain is linear and every delivery is acknowledged once.**

A fork state stands at the height and digest it is kept under (`Placed`), so a finalized block,
whether it takes over a fork state or is executed, moves the canonical head to itself
(`head_executeFinalized`). With `outcome_handle` this gives the shape of every step, and by induction
over the events the acknowledged blocks followed by the waiting ones are the deliveries in the order
of their arrival (`queue_of_run`).
-/

import Summit.Proof.Actor

set_option linter.unusedSectionVars false

namespace Summit

namespace Finalizer

section Chain

variable [Crypto] {env : FinalizerEnv}

/-! ### Where fork states stand -/

/-- Every fork state stands at the height and digest it is kept under. -/
def Placed (s : Finalizer) : Prop :=
  ∀ height digest fork, s.forkAt height digest = some fork →
    fork.consensusState.latestHeight = height ∧ fork.consensusState.headDigest = digest

variable {s s' : Finalizer} {block : Block} {guard : Finalizer → Event → Prop}
  {state : ConsensusState} {event : Event} {events : List Event} {entry : PendingFinalized}

theorem placed_of_reaches (reaches : Reaches env guard (new state) s) : s.Placed := by
  refine (reaches.invariant (P := Placed) (K := fun _ => True) ?_ ?_ ?_ (fun _ _ _ => trivial)
    ⟨fun height digest fork found => ?_, known_new state⟩).1
  · intro s s' placed _ forks height digest fork found
    rw [forkAt_congr forks] at found
    exact placed height digest fork found
  · intro s block parent state placed _ stores height digest fork found
    rw [forkAt_storeFork] at found
    split at found
    · next same =>
      obtain rfl := Option.some.inj found
      obtain ⟨rfl, rfl⟩ := same
      exact head_executed stores.executed
    · exact placed height digest fork found
  · intro s event entry state s' _ _ placed _ advances height digest fork found
    rw [forkAt_congr advances.forkStates] at found
    exact placed height digest fork (forkAt_promote found).2
  · rw [forkAt_new] at found
    cases found

/-- A finalized block becomes the head. -/
theorem head_executeFinalized (placed : s.Placed)
    (result : s.executeFinalized env block = .ok (some state)) :
    state.latestHeight = block.height ∧ state.headDigest = block.digest := by
  rcases executeFinalized_cases result with ⟨fork, found, rfl, -⟩ | ⟨-, -, executed⟩
  · exact placed _ _ fork found
  · exact head_executed executed

/-! ### One event -/

/-- The head moves from the canonical one to a block that extends it. -/
structure MovesTo (s : Finalizer) (entry : PendingFinalized) (s' : Finalizer) : Prop where
  height : entry.block.height = s.canonicalState.latestHeight + 1
  parent : entry.block.parent = s.canonicalState.headDigest
  newHeight : s'.canonicalState.latestHeight = entry.block.height
  newHead : s'.canonicalState.headDigest = entry.block.digest

/-- **One event** leaves the canonical state, or moves its head to the block it handles. -/
theorem linear_handle (env : FinalizerEnv) (placed : s.Placed) (event : Event) :
    (s.handle env event).1.canonicalState = s.canonicalState ∨
      ∃ entry, s.handled event = some entry ∧ s.MovesTo entry (s.handle env event).1 := by
  have outcome := outcome_handle env s event
  generalize s.handle env event = made at outcome
  cases outcome with
  | idle canonicalState => exact Or.inl canonicalState
  | duplicate _ _ _ canonicalState => exact Or.inl canonicalState
  | @halted s' _ entry state handles extends_ result canonicalState =>
    have canonicalState : s'.canonicalState = state.settledHead := canonicalState
    obtain ⟨height, head⟩ := head_executeFinalized placed result
    refine Or.inr ⟨entry, handles, extends_.height, extends_.parent, ?_, ?_⟩
    · show s'.canonicalState.latestHeight = _
      rw [canonicalState]
      exact height
    · show s'.canonicalState.headDigest = _
      rw [canonicalState]
      exact head
  | @applied s' _ entry state _ handles extends_ executes finalizes =>
    obtain ⟨height, head⟩ := head_executeFinalized placed executes
    obtain ⟨sameHeight, sameHead⟩ := head_finalizeExecuted finalizes
    exact Or.inr ⟨entry, handles, extends_.height, extends_.parent, sameHeight.trans height,
      sameHead.trans head⟩

/-- An event acknowledges at most the block it handles, which is not above the head then. -/
theorem acknowledged_handle (env : FinalizerEnv) (placed : s.Placed) (event : Event) :
    (s.handle env event).1.acknowledged = s.acknowledged ∨
      ∃ entry, s.handled event = some entry ∧
        (s.handle env event).1.acknowledged = s.acknowledged ++ [entry] ∧
        entry.block.height ≤ (s.handle env event).1.canonicalState.latestHeight := by
  have outcome := outcome_handle env s event
  generalize s.handle env event = made at outcome
  cases outcome with
  | idle _ acknowledged => exact Or.inl acknowledged
  | halted _ _ _ _ acknowledged => exact Or.inl acknowledged
  | @duplicate s' entry handles old _ canonicalState acknowledged =>
    refine Or.inr ⟨entry, handles, acknowledged, ?_⟩
    rw [canonicalState]
    exact old
  | @applied s' _ entry state _ handles extends_ executes finalizes acknowledged =>
    refine Or.inr ⟨entry, handles, acknowledged, ?_⟩
    rw [(head_finalizeExecuted finalizes).1, (head_executeFinalized placed executes).1]

theorem height_le_handle (env : FinalizerEnv) (placed : s.Placed) (event : Event) :
    s.canonicalState.latestHeight ≤ (s.handle env event).1.canonicalState.latestHeight := by
  rcases linear_handle env placed event with same | ⟨entry, -, moves⟩
  · rw [same]
  · rw [moves.newHeight, moves.height]
    omega

/-- No acknowledged block lies above the head. -/
def Covered (s : Finalizer) : Prop :=
  ∀ entry ∈ s.acknowledged, entry.block.height ≤ s.canonicalState.latestHeight

theorem Covered.handle (env : FinalizerEnv) (covered : s.Covered) (placed : s.Placed)
    (event : Event) : (s.handle env event).1.Covered := by
  have rises := height_le_handle env placed event
  intro entry member
  rcases acknowledged_handle env placed event with same | ⟨new, -, more, low⟩
  · rw [same] at member
    exact (covered entry member).trans rises
  · rw [more] at member
    rcases List.mem_append.mp member with old | last
    · exact (covered entry old).trans rises
    · rw [List.mem_singleton.mp last]
      exact low

/-- An event takes at most the first of the waiting blocks and its own out of the queue. -/
theorem queue_step (result : s.step env event = some s') :
    s'.acknowledged ++ s'.pendingFinalized =
      s.acknowledged ++ s.pendingFinalized ++ event.arrived := by
  rw [step_eq_some_iff] at result
  have outcome := outcome_handle env s event
  rw [result] at outcome
  cases outcome with
  | idle _ acknowledged _ queue => rw [acknowledged, queue rfl, List.append_assoc]
  | duplicate _ _ _ _ acknowledged _ queue =>
    rw [acknowledged, List.append_assoc, List.append_assoc, queue, List.singleton_append]
  | applied _ _ _ _ acknowledged _ queue =>
    rw [acknowledged, List.append_assoc, List.append_assoc, queue, List.singleton_append]

/-! ### Runs -/

theorem reaches_of_foldlM (run : events.foldlM (step env) s = some s') :
    Reaches env (fun _ _ => True) s s' :=
  Run.reflTransGen_of_foldlM run fun _ _ event _ result => ⟨event, trivial, result⟩

/-- **The deliveries in order**: first the acknowledged ones, then those that wait. -/
theorem queue_of_run (run : events.foldlM (step env) s = some s') :
    s'.acknowledged ++ s'.pendingFinalized =
      s.acknowledged ++ s.pendingFinalized ++ events.flatMap Event.arrived := by
  induction events generalizing s with
  | nil =>
    obtain rfl := Option.some.inj run
    exact (List.append_nil _).symm
  | cons event rest ih =>
    obtain ⟨mid, first, later⟩ := Run.foldlM_cons_some run
    rw [ih later, queue_step first, List.flatMap_cons, List.append_assoc _ event.arrived]

theorem covered_of_reaches (reaches : Reaches env guard (new state) s) : s.Covered := by
  induction reaches with
  | refl => exact fun _ member => nomatch member
  | tail before last ih =>
    obtain ⟨event, -, result⟩ := last
    have next := ih.handle env (placed_of_reaches before) event
    rw [step_eq_some_iff.mp result] at next
    exact next

/-! ### Refusals -/

theorem handleFinalizedBlock_duplicate (env : FinalizerEnv) (s : Finalizer)
    (old : entry.block.height ≤ s.canonicalState.latestHeight)
    (agrees : entry.block.height = s.canonicalState.latestHeight →
      entry.block.digest = s.canonicalState.headDigest) :
    s.handleFinalizedBlock env entry = (s.acknowledge entry, .ok .applied) := by
  unfold handleFinalizedBlock
  rw [if_pos old, if_neg fun conflict => conflict.2 (agrees conflict.1)]

theorem handleFinalizedBlock_conflict (env : FinalizerEnv) (s : Finalizer)
    (same : entry.block.height = s.canonicalState.latestHeight)
    (differs : entry.block.digest ≠ s.canonicalState.headDigest) :
    s.handleFinalizedBlock env entry =
      (s, .error (.conflictingFinalizedBlock entry.block.height entry.block.digest
        s.canonicalState.headDigest)) := by
  unfold handleFinalizedBlock
  rw [if_pos same.le, if_pos ⟨same, differs⟩]

/-- A new block that does not extend the head, or comes with a certificate for another one. -/
theorem handleFinalizedBlock_refused (env : FinalizerEnv) (s : Finalizer)
    (new : s.canonicalState.latestHeight < entry.block.height) (bad : ¬ s.Extends entry) :
    ∃ error, s.handleFinalizedBlock env entry = (s, .error error) := by
  have outcome := finalized_handleFinalizedBlock env s entry
  generalize s.handleFinalizedBlock env entry = made at outcome
  cases outcome with
  | conflict same => omega
  | duplicate old => omega
  | refused => exact ⟨_, rfl⟩
  | failed extends_ => exact absurd extends_ bad
  | deferred extends_ => exact absurd extends_ bad
  | halted extends_ => exact absurd extends_ bad
  | applied extends_ => exact absurd extends_ bad

/-- The execution layer answers VALID to what it is asked about a finalized block: the payload, unless
the block has a fork state, and the fork choice. -/
def Confirmed (env : FinalizerEnv) (s : Finalizer) (block : Block) : Prop :=
  (s.forkAt block.height block.digest = none →
    (env.engine s.calls).checkPayload block = some .valid) ∧
  (env.engine s.calls).commitHash
    ⟨block.ethBlockHash, block.ethBlockHash, block.ethBlockHash⟩ = some .valid

theorem confirmed_of_executeFinalized (result : s.executeFinalized env block = .ok (some state)) :
    Confirmed env s block := by
  rcases executeFinalized_cases result with ⟨fork, found, -, committed⟩ | ⟨-, accepted, -⟩
  · refine ⟨fun none_ => ?_, ?_⟩
    · rw [found] at none_
      cases none_
    · unfold commitFinalized at committed
      split at committed
      all_goals first | cases committed; done | assumption
  · exact ⟨fun _ => accepted.1, accepted.2⟩

/-- A new block that the execution layer does not confirm. -/
theorem handleFinalizedBlock_unconfirmed (env : FinalizerEnv) (s : Finalizer)
    (new : s.canonicalState.latestHeight < entry.block.height)
    (declined : ¬ Confirmed env s entry.block) :
    (s.handleFinalizedBlock env entry).1.canonicalState = s.canonicalState ∧
      (s.handleFinalizedBlock env entry).1.acknowledged = s.acknowledged := by
  have outcome := finalized_handleFinalizedBlock env s entry
  generalize s.handleFinalizedBlock env entry = made at outcome
  cases outcome with
  | duplicate old => omega
  | conflict | refused | failed | deferred => exact ⟨rfl, rfl⟩
  | halted _ result => exact absurd (confirmed_of_executeFinalized result) declined
  | applied _ result => exact absurd (confirmed_of_executeFinalized result) declined

/-- What becomes of the finalized block that an event hands to the handler. -/
structure Judged (env : FinalizerEnv) (s : Finalizer) (event : Event) (entry : PendingFinalized) :
    Prop where
  /-- A block at or below the head is acknowledged, and that is all. -/
  again : entry.block.height ≤ s.canonicalState.latestHeight →
    (entry.block.height = s.canonicalState.latestHeight →
      entry.block.digest = s.canonicalState.headDigest) →
    ∃ rest, s.pendingFinalized ++ event.arrived = entry :: rest ∧
      s.handle env event = ({ s with pendingFinalized := rest }.acknowledge entry, .ok ())
  /-- Another block at the height of the head is an error. -/
  conflict : entry.block.height = s.canonicalState.latestHeight →
    entry.block.digest ≠ s.canonicalState.headDigest →
    ∃ error, (s.handle env event).2 = .error error ∧
      (s.handle env event).1.canonicalState = s.canonicalState ∧
      (s.handle env event).1.acknowledged = s.acknowledged
  /-- A wrong height, parent or certificate, or an answer other than VALID, leaves the chain. -/
  declined : s.canonicalState.latestHeight < entry.block.height →
    ¬ s.Extends entry ∨ ¬ Confirmed env s entry.block →
    (s.handle env event).1.canonicalState = s.canonicalState ∧
      (s.handle env event).1.acknowledged = s.acknowledged

theorem canonicalState_requeue
    (made : Finalizer × Except FinalizerError (HandleOutcome PendingFinalized)) :
    (requeue made).1.canonicalState = made.1.canonicalState ∧
      (requeue made).1.acknowledged = made.1.acknowledged := by
  obtain ⟨next, error | outcome⟩ := made
  · exact ⟨rfl, rfl⟩
  · cases outcome <;> exact ⟨rfl, rfl⟩

theorem judged_handle (handles : s.handled event = some entry) : Judged env s event entry := by
  obtain ⟨rest, queue, result⟩ := handle_eq_requeue env handles
  refine ⟨fun old agrees => ⟨rest, queue, ?_⟩, fun same differs => ?_, fun new bad => ?_⟩
  · rw [result, handleFinalizedBlock_duplicate env { s with pendingFinalized := rest } old agrees]
    rfl
  · rw [result, handleFinalizedBlock_conflict env { s with pendingFinalized := rest } same differs]
    exact ⟨_, rfl, rfl, rfl⟩
  · rw [result, (canonicalState_requeue _).1, (canonicalState_requeue _).2]
    rcases bad with bad | bad
    · have bad : ¬ Extends { s with pendingFinalized := rest } entry := fun good =>
        bad ⟨good.height, good.parent, good.certified⟩
      obtain ⟨error, refused⟩ := handleFinalizedBlock_refused env { s with pendingFinalized := rest }
        new bad
      rw [refused]
      exact ⟨rfl, rfl⟩
    · exact handleFinalizedBlock_unconfirmed env { s with pendingFinalized := rest } new bad

end Chain

end Finalizer

open Finalizer

/-- **The finalized chain is linear.** After any deliveries, answers of the execution layer and
retries, the acknowledged blocks followed by the waiting ones are the deliveries in the order of
their arrival, and no acknowledged block is above the head. The next event leaves the canonical state
or moves its head to the block it handles, whose parent is the old head; a block that arrives behind
waiting ones waits too, and one that is handled is `Judged`. -/
theorem finalized_chain_linear [Crypto] (env : FinalizerEnv) (state : ConsensusState)
    (events : List Event) (s : Finalizer)
    (run : events.foldlM (Finalizer.step env) (Finalizer.new state) = some s) :
    s.acknowledged ++ s.pendingFinalized = events.flatMap Event.arrived ∧
      (∀ event, (s.handle env event).1.Covered ∧
        ((s.handle env event).1.canonicalState = s.canonicalState ∨
          ∃ entry, s.handled event = some entry ∧ s.MovesTo entry (s.handle env event).1)) ∧
      (∀ event entry, s.handled event = some entry → Judged env s event entry) ∧
      ∀ entry, s.pendingFinalized ≠ [] → s.handle env (.finalizedBlock entry) =
        ({ s with pendingFinalized := s.pendingFinalized ++ [entry] }, .ok ()) := by
  have reaches := reaches_of_foldlM run
  have placed := placed_of_reaches reaches
  refine ⟨?_, fun event => ⟨?_, linear_handle env placed event⟩, fun event entry => judged_handle,
    fun entry waiting => ?_⟩
  · exact queue_of_run run
  · exact (covered_of_reaches reaches).handle env placed event
  · exact if_pos waiting

attribute [local instance] Crypto.accepting

/-- A block is notarized and finalized, and finalized again. -/
theorem finalized_chain_linear_twice :
    ∃ s, [.notarizedBlock (plainBlock 9), .finalizedBlock (plainEntry 9),
        .finalizedBlock (plainEntry 9)].foldlM (Finalizer.step acceptingEnv)
          (Finalizer.new endingState) = some s ∧
      s.acknowledged ++ s.pendingFinalized = [plainEntry 9, plainEntry 9] ∧
      s.canonicalState.latestHeight = 9 := by
  have computed : ([.notarizedBlock (plainBlock 9), .finalizedBlock (plainEntry 9),
      .finalizedBlock (plainEntry 9)].foldlM (Finalizer.step acceptingEnv)
        (Finalizer.new endingState)).map (fun s => s.canonicalState.latestHeight) = some 9 := by
    decide +kernel
  obtain ⟨s, run, height⟩ := Option.map_eq_some_iff.mp computed
  exact ⟨s, run, (finalized_chain_linear acceptingEnv endingState _ s run).1, height⟩

end Summit
