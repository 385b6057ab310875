/-
**Notarized blocks commute.**

What a run of notarized blocks adds to the fork states is a matter of which blocks are there, not of
their order: `Grown` says it without an order, from the old forks and the canonical head upwards. Both
directions rest on the work list. Nothing is stored that does not grow (`Growth`); and a block that has
been handled is stored as soon as its parent is, because a block whose parent is missing is kept as an
orphan and taken up with the parent (`Handled`, `Tidy.workStep`).

Between two events every orphan has been handled (`atRest_of_reaches`), also after a finalized block:
the orphans whose parent it drops are orphans again, and those that wait for it are taken up.

`notarized_commute`: from any state that a run reaches, two lists of the same blocks lead to equal
fork states.
-/

import Summit.Proof.BlockRun
import Summit.Proof.DeadForks
import Summit.Proof.Speculation

set_option linter.unusedSectionVars false

namespace Summit

open Finalizer

section Confluence

variable [Crypto] {env : FinalizerEnv} {engine : Engine} {K : Block → Prop} {s s' : Finalizer}

/-! ### Verdicts -/

/-- The block is accepted on the state of its parent, and leads to `state`. -/
def Verdict (env : FinalizerEnv) (engine : Engine) (parent : ConsensusState) (block : Block)
    (state : ConsensusState) : Prop :=
  engine.Accepts none block ∧
    parent.executed env.protocolConsts env.depositSignatureDomain block = some state

/-- From the given call on, the execution layer is never SYNCING on known blocks and gives an
answer. -/
structure Prompt (env : FinalizerEnv) (K : Block → Prop) (calls : Nat) : Prop where
  payload : ∀ call, calls ≤ call → ∀ block, K block →
    (env.engine call).checkPayload block = some .valid ∨
      (env.engine call).checkPayload block = some .invalid
  forkchoice : ∀ call, calls ≤ call → ∀ block, K block → ∀ sent : ForkchoiceState,
    sent.headBlockHash = block.ethBlockHash →
    (env.engine call).commitHash sent = some .valid ∨
      (env.engine call).commitHash sent = some .invalid

section Verdicts

variable {parent state : ConsensusState} {block : Block} {call : Nat} {sent : Option Bytes32}

theorem not_verdict_of_invalid (answers : Answers env engine)
    (result : parent.executeBlock (env.engine call) env.protocolConsts env.depositSignatureDomain
      sent block = .invalidPayload) : ¬Verdict env engine parent block state := by
  rintro ⟨⟨payload, forkchoice⟩, executed⟩
  rw [ConsensusState.executed, Option.ite_none_right_eq_some] at executed
  obtain ⟨⟨epoch, withdrawals⟩, made⟩ := executed
  obtain ⟨live, applied, -⟩ := Option.map_eq_some_iff.mp made
  have paid := answers.payload call block
  have chosen := answers.forkchoice call
    ⟨block.ethBlockHash, sent.getD block.ethBlockHash, sent.getD block.ethBlockHash⟩
    ⟨block.ethBlockHash, (none : Option Bytes32).getD block.ethBlockHash,
      (none : Option Bytes32).getD block.ethBlockHash⟩ rfl
  rw [forkchoice] at chosen
  rw [payload] at paid
  unfold ConsensusState.executeBlock at result
  rw [if_neg (not_not.mpr epoch)] at result
  rcases paid with syncing | valid
  · rw [syncing] at result
    cases result
  rw [valid] at result
  dsimp only at result
  rw [if_neg (not_not.mpr withdrawals)] at result
  rcases chosen with syncing | valid
  · rw [syncing] at result
    cases result
  rw [valid, applied] at result
  cases result

/-- Without SYNCING a block is executed or rejected. -/
theorem executeBlock_prompt {calls : Nat} (prompt : Prompt env K calls) (late : calls ≤ call)
    (known : K block) (parent : ConsensusState) (sent : Option Bytes32) :
    (∃ state, parent.executeBlock (env.engine call) env.protocolConsts env.depositSignatureDomain
      sent block = .applied state) ∨
    parent.executeBlock (env.engine call) env.protocolConsts env.depositSignatureDomain
      sent block = .invalidPayload := by
  unfold ConsensusState.executeBlock
  by_cases epoch : block.epoch = parent.epoch
  case neg => exact Or.inr (if_pos epoch)
  rw [if_neg (not_not.mpr epoch)]
  rcases prompt.payload call late block known with valid | invalid
  case inr => exact Or.inr (by rw [invalid])
  rw [valid]
  dsimp only
  by_cases withdrawals : block.withdrawals = parent.expectedWithdrawals block
  case neg => exact Or.inr (if_pos withdrawals)
  rw [if_neg (not_not.mpr withdrawals)]
  rcases prompt.forkchoice call late block known
    ⟨block.ethBlockHash, sent.getD block.ethBlockHash, sent.getD block.ethBlockHash⟩ rfl with
    valid | invalid
  case inr => exact Or.inr (by rw [invalid])
  obtain ⟨live, applied⟩ := exists_applyBlock env.protocolConsts env.depositSignatureDomain
    withdrawals
  exact Or.inl ⟨_, by rw [valid, applied]⟩

end Verdicts

/-! ### Blocks that have been handled -/

variable {block : Block} {parent state : ConsensusState}

theorem parentState_congr (canonical : s'.canonicalState = s.canonicalState)
    (forks : block.height ≠ s.canonicalState.latestHeight + 1 →
      s'.forkAt (block.height - 1) block.parent = s.forkAt (block.height - 1) block.parent) :
    s'.parentState block = s.parentState block := by
  rw [parentState, parentState, canonical]
  split
  · rfl
  · next higher => rw [forks higher]

/-- **A block that has been handled**: it is stored or cannot be, it waits for the execution layer,
or it is kept until its parent comes. -/
inductive Handled (env : FinalizerEnv) (engine : Engine) (s : Finalizer) (block : Block) : Prop where
  | low (below : block.height ≤ s.canonicalState.latestHeight)
  | dead (listed : (block.height, block.digest) ∈ s.deadForkDigests)
  | fork (found : (s.forkAt block.height block.digest).isSome = true)
  | mismatch (is : s.parentState block = .mismatch)
  | rejected {parent : ConsensusState} (found : s.parentState block = .found parent)
      (never : ∀ state, ¬Verdict env engine parent block state)
  | pending (waits : block ∈ s.pendingNotarized)
  | orphan (missing : s.parentState block = .missing) (waits : block ∈ s.orphanedBlocks)

theorem Handled.mono (handled : Handled env engine s block)
    (canonical : s'.canonicalState = s.canonicalState) (forks : s'.forkStates = s.forkStates)
    (dead : s'.deadForkDigests = s.deadForkDigests)
    (pending : block ∈ s.pendingNotarized → block ∈ s'.pendingNotarized)
    (orphans : block ∈ s.orphanedBlocks → block ∈ s'.orphanedBlocks) :
    Handled env engine s' block := by
  have parents : s'.parentState block = s.parentState block :=
    parentState_congr canonical fun _ => forkAt_congr forks _ _
  cases handled with
  | low below => exact .low (canonical ▸ below)
  | dead listed => exact .dead (dead ▸ listed)
  | fork found => exact .fork ((forkAt_congr forks _ _).symm ▸ found)
  | mismatch is => exact .mismatch (parents.trans is)
  | rejected found never => exact .rejected (parents.trans found) never
  | pending waits => exact .pending (pending waits)
  | orphan missing waits => exact .orphan (parents.trans missing) (orphans waits)

/-- A stored fork is the parent of blocks that had none, and of no other. -/
theorem parentState_of_stores (stores : Stores env s block parent state) (other : Block) :
    (s.called.storeFork block state).parentState other = s.parentState other ∨
      s.parentState other = .missing ∧ other.height = block.height + 1 ∧
        other.parent = block.digest := by
  by_cases child : other.height - 1 = block.height ∧ other.parent = block.digest
  · by_cases next : other.height = s.canonicalState.latestHeight + 1
    · exact Or.inl (parentState_congr rfl fun higher => absurd next higher)
    · have above := stores.above
      refine Or.inr ⟨?_, by omega, child.2⟩
      rw [parentState, if_neg next, child.1, child.2, stores.fresh]
  · refine Or.inl (parentState_congr rfl fun _ => ?_)
    rw [forkAt_storeFork, if_neg child]
    rfl

theorem Handled.storeFork {other : Block} (stores : Stores env s block parent state)
    (handled : Handled env engine s other) :
    Handled env engine (s.called.storeFork block state) other ∨
      other ∈ s.orphanedChildren block.height block.digest := by
  have same (there : s.parentState other ≠ .missing) :
      (s.called.storeFork block state).parentState other = s.parentState other :=
    (parentState_of_stores stores other).resolve_right fun child => there child.1
  cases handled with
  | low below => exact Or.inl (.low below)
  | dead listed => exact Or.inl (.dead listed)
  | fork found =>
    obtain ⟨fork, found⟩ := Option.isSome_iff_exists.mp found
    exact Or.inl (.fork (Option.isSome_of_eq_some (forkAt_of_stores stores found)))
  | mismatch is => exact Or.inl (.mismatch ((same (by rw [is]; nofun)).trans is))
  | rejected found never => exact Or.inl (.rejected ((same (by rw [found]; nofun)).trans found) never)
  | pending waits => exact Or.inl (.pending waits)
  | orphan missing waits =>
    rcases parentState_of_stores stores other with same | ⟨-, child⟩
    · exact Or.inl (.orphan (same.trans missing) waits)
    · exact Or.inr (List.mem_filter.mpr ⟨waits, decide_eq_true child⟩)

/-! ### The work list -/

/-- The orphans and the blocks of `T` have been handled, but for those still listed. -/
structure Tidy (env : FinalizerEnv) (engine : Engine) (K T : Block → Prop) (s : Finalizer)
    (listed : List Block) : Prop where
  held : s.Known K
  known : ∀ block ∈ listed, K block
  keys : ∀ digest ∈ s.pendingNotarizedKeys, ∃ block ∈ s.pendingNotarized, block.digest = digest
  tracks : ∀ block, block ∈ s.orphanedBlocks ∨ T block →
    Handled env engine s block ∨ block ∈ listed

variable {T : Block → Prop}

section WorkList

variable (answers : Answers env engine)
  (injective : ∀ one two, K one → K two → one.digest = two.digest → one = two)

include answers injective

/-- **One block of the work list** is handled, and the orphans that wait for it are listed. -/
theorem Tidy.workStep {rest : List Block} {handed : Option (List Block)}
    (tidy : Tidy env engine K T s (block :: rest)) (step : WorkStep env s block (s', .ok handed)) :
    Tidy env engine K T s' ((handed.getD []).reverse ++ rest) := by
  obtain ⟨known, others⟩ := List.forall_mem_cons.mp tidy.known
  -- a step that hands nothing on
  have settle (next : Finalizer) (held : next.Known K)
      (keys : ∀ digest ∈ next.pendingNotarizedKeys, ∃ block ∈ next.pendingNotarized,
        block.digest = digest)
      (orphans : ∀ other ∈ next.orphanedBlocks, other ∈ s.orphanedBlocks ∨ other = block)
      (itself : Handled env engine next block)
      (grows : ∀ other, Handled env engine s other → Handled env engine next other) :
      Tidy env engine K T next rest := by
    refine ⟨held, others, keys, fun other tracked => ?_⟩
    have before : Handled env engine s other ∨ other ∈ block :: rest ∨ other = block := by
      rcases tracked with orphan | tracked
      · rcases orphans other orphan with old | new
        · exact (tidy.tracks other (Or.inl old)).imp id Or.inl
        · exact Or.inr (Or.inr new)
      · exact (tidy.tracks other (Or.inr tracked)).imp id Or.inl
    rcases before with handled | listed | rfl
    · exact Or.inl (grows other handled)
    · rcases List.mem_cons.mp listed with rfl | listed
      · exact Or.inl itself
      · exact Or.inr listed
    · exact Or.inl itself
  have skip (itself : Handled env engine s block) : Tidy env engine K T s rest :=
    settle s tidy.held tidy.keys (fun _ member => Or.inl member) itself fun _ handled => handled
  have held' := tidy.held.workStep known step
  cases step with
  | low below => exact skip (.low below)
  | dead listed => exact skip (.dead listed)
  | fork found => exact skip (.fork found)
  | mismatch is => exact skip (.mismatch is)
  | orphan missing =>
    refine settle _ held' tidy.keys (fun other member => ?_) (.orphan ?_ ?_) fun other handled => ?_
    · exact (List.mem_append.mp member).imp id List.mem_singleton.mp
    · exact (parentState_congr rfl fun _ => rfl).trans missing
    · exact List.mem_append_right _ List.mem_cons_self
    · exact handled.mono rfl rfl rfl id fun member => List.mem_append_left _ member
  | @reject parent found invalid =>
    exact settle s.called held' tidy.keys (fun _ member => Or.inl member)
      (.rejected (show s.called.parentState block = .found parent from found)
        fun state => not_verdict_of_invalid answers invalid)
      fun other handled => handled.mono rfl rfl rfl id id
  | defer deferred =>
    unfold deferNotarized at deferred
    split at deferred
    · next listed =>
      -- the block that has this digest already waits, and is this one
      obtain rfl := Except.ok.inj deferred
      obtain ⟨same, waits, digest⟩ := tidy.keys _ listed
      obtain rfl := injective _ _ (tidy.held.notarized same waits) known digest
      exact settle _ held' tidy.keys (fun _ member => Or.inl member) (.pending waits)
        fun other handled => handled.mono rfl rfl rfl id id
    split at deferred
    · cases deferred
    obtain rfl := Except.ok.inj deferred
    refine settle _ held' (fun digest member => ?_) (fun _ member => Or.inl member)
      (.pending (List.mem_append_right _ List.mem_cons_self)) fun other handled => ?_
    · rcases List.mem_append.mp member with old | new
      · obtain ⟨other, waits, same⟩ := tidy.keys digest old
        exact ⟨other, List.mem_append_left _ waits, same⟩
      · exact ⟨block, List.mem_append_right _ List.mem_cons_self,
          (List.mem_singleton.mp new).symm⟩
    · exact handled.mono rfl rfl rfl (fun waits => List.mem_append_left _ waits) id
  | store stores =>
    refine ⟨held', fun other member => ?_, tidy.keys, fun other tracked => ?_⟩
    · rcases List.mem_append.mp member with child | listed
      · exact tidy.held.orphaned other (List.mem_filter.mp (List.mem_reverse.mp child)).1
      · exact others other listed
    · rw [List.mem_append, Option.getD_some, List.mem_reverse]
      rcases tidy.tracks other tracked with handled | listed
      · exact (handled.storeFork stores).imp id Or.inl
      · rcases List.mem_cons.mp listed with rfl | listed
        · refine Or.inl (.fork ?_)
          rw [forkAt_storeFork, if_pos ⟨rfl, rfl⟩]
          rfl
        · exact Or.inr (Or.inr listed)

/-- **The work list** is done when it leaves nothing. -/
theorem tidy_processAll (fuel : Nat) {buffered done : Bool} {toProcess later : List Block}
    (tidy : Tidy env engine K T s (toProcess ++ later))
    (result : (processAll env fuel s buffered toProcess).1.2 = .ok done)
    (finished : (processAll env fuel s buffered toProcess).2 = []) :
    Tidy env engine K T (processAll env fuel s buffered toProcess).1.1 later := by
  induction fuel generalizing s buffered toProcess with
  | zero =>
    cases toProcess with
    | nil => exact tidy
    | cons => cases finished
  | succ fuel ih =>
    cases toProcess with
    | nil => exact tidy
    | cons block rest =>
      have step := workStep_processNotarized env s block
      rw [processAll] at result finished ⊢
      generalize s.processNotarized env block = made at *
      obtain ⟨after, error | handed⟩ := made
      · cases result
      · have next := tidy.workStep answers injective step
        cases handed with
        | none => exact ih next result finished
        | some children =>
          refine ih ?_ result finished
          rw [List.append_assoc]
          exact next

theorem tidy_handleNotarizedBlock {block : Block} {later : List Block}
    (tidy : Tidy env engine K T s (block :: later)) (outcome : HandleOutcome Unit)
    (result : (s.handleNotarizedBlock env block).2 = .ok outcome) :
    Tidy env engine K T (s.handleNotarizedBlock env block).1 later := by
  rw [state_handleNotarizedBlock]
  unfold handleNotarizedBlock at result
  cases done : (processAll env (s.orphanedBlocks.length + 1) s false [block]).1.2 with
  | error error =>
    rw [show (processAll env (s.orphanedBlocks.length + 1) s false [block]).1 =
      (_, .error error) from Prod.ext rfl done] at result
    cases result
  | ok buffered =>
    exact tidy_processAll answers injective _ tidy done (processAll_finishes s block done)

theorem tidy_handleOrphans {blocks : List Block} (tidy : Tidy env engine K T s blocks)
    (result : handleOrphans env s blocks = (s', .ok ())) : Tidy env engine K T s' [] := by
  induction blocks generalizing s with
  | nil =>
    obtain rfl := (Prod.mk.inj result).1
    exact tidy
  | cons block rest ih =>
    have next := tidy_handleNotarizedBlock answers injective tidy
    rw [handleOrphans] at result
    generalize s.handleNotarizedBlock env block = made at *
    obtain ⟨after, error | outcome⟩ := made
    · cases (Prod.mk.inj result).2
    · exact ih (next outcome rfl) result

end WorkList

/-! ### Between two events -/

/-- Every orphan has been handled. -/
abbrev AtRest (env : FinalizerEnv) (engine : Engine) (K : Block → Prop) (s : Finalizer)
    (listed : List Block) : Prop :=
  Tidy env engine K (fun _ => False) s listed

theorem atRest_new (start : ConsensusState) : AtRest env engine K (new start) [] :=
  ⟨known_new start, nofun, nofun, fun _ tracked => tracked.elim nofun False.elim⟩

variable {block : Block} {B : Block → Prop} {height : Nat} {digest : Digest}

/-- An orphan above a finalized block is handled as before, is an orphan again, or is a child. -/
theorem Handled.advances {entry : PendingFinalized} {state : ConsensusState}
    (forest : Forest env K s) (advances : Advances env s entry state s')
    (pending : s'.pendingNotarized = s.pendingNotarized) (orphan : block ∈ s'.orphanedBlocks)
    (other : ¬(block.height = entry.block.height + 1 ∧ block.parent = entry.block.digest))
    (handled : Handled env engine s block) : Handled env engine s' block := by
  obtain ⟨height, head⟩ := forest.head advances
  have extended := advances.extends_.height
  obtain ⟨kept, dropped⟩ := prune_promote state
    (forest.tree.rooted.mono (by omega : _ ≤ entry.block.height))
  have forks (level : Nat) (digest : Digest) :
      s'.forkAt level digest = (s.promote entry.block state).forkAt level digest :=
    forkAt_congr advances.forkStates level digest
  by_cases low : block.height ≤ entry.block.height
  · exact .low (height ▸ low)
  have above := Nat.lt_of_not_le low
  by_cases first : block.height = entry.block.height + 1
  · refine .mismatch ?_
    rw [parentState, height, head, if_pos first, if_pos ⟨by omega, fun same => other ⟨first, same⟩⟩]
  have higher : ¬block.height = s'.canonicalState.latestHeight + 1 := height ▸ first
  have was : ¬block.height = s.canonicalState.latestHeight + 1 := by omega
  cases parent : s'.forkAt (block.height - 1) block.parent with
  | none =>
    refine .orphan ?_ orphan
    rw [parentState, if_neg higher, parent]
  | some fork =>
    have before := ((kept _ _ fork).mp ((forks _ _).symm.trans parent)).1
    have parents : s'.parentState block = s.parentState block := by
      rw [parentState, parentState, if_neg higher, if_neg was, parent, before]
    cases handled with
    | low below => omega
    | dead listed =>
      refine .dead ?_
      rw [advances.deadForkDigests, dropped]
      exact ⟨Or.inl listed, above⟩
    | fork found =>
      by_cases descends : Descends s entry.block.height entry.block.digest block.height block.digest
      · obtain ⟨fork, found⟩ := Option.isSome_iff_exists.mp found
        refine .fork ?_
        rw [forks, (kept _ _ fork).mpr ⟨found, above, descends⟩]
        rfl
      · refine .dead ?_
        rw [advances.deadForkDigests, dropped]
        exact ⟨Or.inr ⟨found, descends⟩, above⟩
    | mismatch is => exact .mismatch (parents.trans is)
    | rejected found never => exact .rejected (parents.trans found) never
    | pending waits => exact .pending (pending ▸ waits)
    | orphan missing => exact .orphan (parents.trans missing) orphan

theorem AtRest.opens {event : Event} {mid : Finalizer} {blocks : List Block}
    (rests : AtRest env engine K s []) (forest : Forest env K s)
    (delivers : Delivers K s event) (opens : Opens env s event mid blocks) :
    AtRest env engine K mid blocks := by
  obtain ⟨held, listed⟩ := opens.known rests.held delivers
  have orphans (block : Block) (orphan : block ∈ s.orphanedBlocks) : Handled env engine s block :=
    (rests.tracks block (Or.inl orphan)).elim id nofun
  cases opens with
  | idle =>
    refine ⟨held, listed, rests.keys, fun block tracked => Or.inl ?_⟩
    exact (orphans block (tracked.elim id False.elim)).mono rfl rfl rfl id id
  | @ask waiter =>
    obtain ⟨_, _, same⟩ := notifyAtHeight_frame s waiter
    rw [same] at held ⊢
    refine ⟨held, listed, rests.keys, fun block tracked => Or.inl ?_⟩
    exact (orphans block (tracked.elim id False.elim)).mono rfl rfl rfl id id
  | notarized =>
    exact ⟨held, listed, rests.keys, fun block tracked =>
      Or.inl (orphans block (tracked.elim id False.elim))⟩
  | @retry popped rest queue =>
    refine ⟨held, listed, fun digest member => ?_, fun block tracked => ?_⟩
    · obtain ⟨member, differs⟩ := List.mem_filter.mp member
      obtain ⟨block, waits, same⟩ := rests.keys digest member
      rw [queue] at waits
      rcases List.mem_cons.mp waits with rfl | waits
      · exact absurd same.symm (of_decide_eq_true differs)
      · exact ⟨block, waits, same⟩
    · by_cases is : block = popped
      · exact Or.inr (List.mem_singleton.mpr is)
      · refine Or.inl ((orphans block (tracked.elim id False.elim)).mono rfl rfl rfl
          (fun waits => ?_) id)
        rw [queue] at waits
        exact (List.mem_cons.mp waits).resolve_left is
  | advance handles _ extends_ executes finalizes =>
    refine ⟨held, listed, rests.keys, fun block tracked => ?_⟩
    have orphan := tracked.elim id False.elim
    obtain ⟨before, other⟩ := List.mem_filter.mp orphan
    exact Or.inl (Handled.advances forest
      ⟨extends_, executes, ⟨_, finalizes⟩, rfl, rfl, rfl, rfl⟩ rfl orphan
      (of_decide_eq_true other) (orphans block (List.mem_filter.mp before).1))

/-- **Between two events** every orphan has been handled. -/
theorem atRest_of_reaches (answers : Answers env engine)
    (injective : ∀ one two, K one → K two → one.digest = two.digest → one = two)
    {start : ConsensusState} (started : 0 < start.latestHeight)
    (reaches : Reaches env (Delivers K) (new start) s) :
    AtRest env engine K s [] ∧ Forest env K s := by
  refine ⟨?_, (forest_of_reaches injective (forest_new started) (known_new start) reaches).1⟩
  induction reaches with
  | refl => exact atRest_new start
  | tail before last ih =>
    obtain ⟨event, delivers, result⟩ := last
    obtain ⟨mid, blocks, opens, handled_⟩ := opens_step result
    have forest := (forest_of_reaches injective (forest_new started) (known_new start) before).1
    exact tidy_handleOrphans answers injective (ih.opens forest delivers opens) handled_

/-! ### What grows from given blocks -/

/-- **The forks that blocks lead to**: the forks there are, and from them and the canonical head
upwards every given block that is not dead and is accepted on the state of its parent. -/
inductive Grown (env : FinalizerEnv) (engine : Engine) (s : Finalizer) (B : Block → Prop) :
    Nat → Digest → ForkState → Prop where
  | old {height : Nat} {digest : Digest} {fork : ForkState}
      (found : s.forkAt height digest = some fork) : Grown env engine s B height digest fork
  | head {height : Nat} {digest : Digest} {block : Block} {state : ConsensusState} (given : B block)
      (stands : block.height = height) (named : block.digest = digest)
      (alive : (height, digest) ∉ s.deadForkDigests) (fresh : s.forkAt height digest = none)
      (next : height = s.canonicalState.latestHeight + 1)
      (links : block.parent = s.canonicalState.headDigest)
      (verdict : Verdict env engine s.canonicalState block state) :
    Grown env engine s B height digest ⟨digest, block.parent, state⟩
  | child {height : Nat} {digest : Digest} {block : Block} {parent : ForkState}
      {state : ConsensusState} (given : B block) (stands : block.height = height)
      (named : block.digest = digest) (alive : (height, digest) ∉ s.deadForkDigests)
      (fresh : s.forkAt height digest = none) (above : s.canonicalState.latestHeight + 1 < height)
      (grows : Grown env engine s B (height - 1) block.parent parent)
      (verdict : Verdict env engine parent.consensusState block state) :
    Grown env engine s B height digest ⟨digest, block.parent, state⟩

theorem Verdict.unique {parent one two : ConsensusState}
    (first : Verdict env engine parent block one) (second : Verdict env engine parent block two) :
    one = two :=
  Option.some.inj (first.2.symm.trans second.2)

/-- A height and a digest have at most one fork. -/
theorem Grown.unique {one two : ForkState}
    (injective : ∀ one two, B one → B two → one.digest = two.digest → one = two)
    (first : Grown env engine s B height digest one)
    (second : Grown env engine s B height digest two) : one = two := by
  induction first generalizing two with
  | old found =>
    cases second with
    | old found' => exact Option.some.inj (found.symm.trans found')
    | head _ _ _ _ fresh => cases found.symm.trans fresh
    | child _ _ _ _ fresh => cases found.symm.trans fresh
  | head given _ named _ fresh next _ verdict =>
    cases second with
    | old found => cases fresh.symm.trans found
    | head given' _ named' _ _ _ _ verdict' =>
      obtain rfl := injective _ _ given given' (named.trans named'.symm)
      rw [verdict.unique verdict']
    | child _ _ _ _ _ above => omega
  | child given _ named _ fresh above _ verdict ih =>
    cases second with
    | old found => cases fresh.symm.trans found
    | head _ _ _ _ _ next => omega
    | child given' _ named' _ _ _ grows verdict' =>
      obtain rfl := injective _ _ given given' (named.trans named'.symm)
      obtain rfl := ih grows
      rw [verdict.unique verdict']

/-- **A run of notarized blocks** that are among the given ones. -/
structure Growth (env : FinalizerEnv) (engine : Engine) (B : Block → Prop) (s t : Finalizer) :
    Prop where
  canonicalState : t.canonicalState = s.canonicalState
  deadForkDigests : t.deadForkDigests = s.deadForkDigests
  calls : s.calls ≤ t.calls
  pendingNotarized : t.pendingNotarized = []
  orphans : ∀ block ∈ t.orphanedBlocks, B block
  kept : ∀ height digest fork, s.forkAt height digest = some fork →
    t.forkAt height digest = some fork
  grown : ∀ height digest fork, t.forkAt height digest = some fork →
    Grown env engine s B height digest fork

section Growing

variable {B : Block → Prop} {t : Finalizer} (answers : Answers env engine)
  (started : 0 < s.canonicalState.latestHeight) (prompt : Prompt env B s.calls)

include prompt

/-- No block is deferred, and none stops the actor. -/
theorem processNotarized_prompt {block : Block} (late : s.calls ≤ t.calls) (given : B block) :
    ∃ children, (t.processNotarized env block).2 = .ok (some children) := by
  unfold processNotarized
  split
  · exact ⟨[], rfl⟩
  split
  · exact ⟨[], rfl⟩
  split
  · exact ⟨[], rfl⟩
  split
  · exact ⟨[], rfl⟩
  · exact ⟨[], rfl⟩
  · next parent _ =>
    unfold executeNotarized
    obtain ⟨state, applied⟩ | invalid := executeBlock_prompt prompt late given parent
      (some t.canonicalState.forkchoice.finalizedBlockHash)
    · rw [applied]
      exact ⟨_, rfl⟩
    · rw [invalid]
      exact ⟨_, rfl⟩

include answers started

/-- **One block of the work list** stores what grows. -/
theorem Growth.workStep {block : Block}
    {made : Finalizer × Except FinalizerError (Option (List Block))}
    (growth : Growth env engine B s t) (given : B block) (step : WorkStep env t block made) :
    Growth env engine B s made.1 := by
  obtain ⟨canonical, dead, calls, pending, orphans, kept, grown⟩ := growth
  cases step with
  | low | dead | fork | mismatch => exact ⟨canonical, dead, calls, pending, orphans, kept, grown⟩
  | orphan =>
    refine ⟨canonical, dead, calls, pending, fun other member => ?_, kept, grown⟩
    rcases List.mem_append.mp member with old | new
    · exact orphans other old
    · exact List.mem_singleton.mp new ▸ given
  | reject | stop =>
    exact ⟨canonical, dead, Nat.le_succ_of_le calls, pending, orphans, kept, grown⟩
  | @defer _ parent _ _ syncing =>
    obtain ⟨state, applied⟩ | invalid := executeBlock_prompt prompt calls given parent
      (some t.canonicalState.forkchoice.finalizedBlockHash)
    · cases syncing.symm.trans applied
    · cases syncing.symm.trans invalid
  | @store parent state stores =>
    refine ⟨canonical, dead, Nat.le_succ_of_le calls, pending, orphans, fun height digest fork found =>
      forkAt_of_stores stores (kept height digest fork found), fun height digest fork found => ?_⟩
    rw [forkAt_storeFork] at found
    split at found
    case isFalse => exact grown height digest fork found
    next same =>
    obtain ⟨rfl, rfl⟩ := same
    obtain rfl := Option.some.inj found
    have alive := stores.alive
    have above := stores.above
    rw [dead] at alive
    rw [canonical] at above
    have fresh : s.forkAt block.height block.digest = none := by
      cases before : s.forkAt block.height block.digest with
      | none => rfl
      | some fork => cases stores.fresh.symm.trans (kept _ _ fork before)
    have verdict : Verdict env engine parent block state :=
      ⟨answers.accepts stores.accepted, stores.executed⟩
    have source := parentState_cases stores.found
    rw [canonical] at source
    rcases source with ⟨next, rfl, links⟩ | ⟨fork, higher, below, rfl⟩
    · exact .head given rfl rfl alive fresh next (links started) verdict
    · exact .child given rfl rfl alive fresh (by omega) (grown _ _ fork below) verdict

theorem Growth.workList (fuel : Nat) {toProcess : List Block} (growth : Growth env engine B s t)
    (given : ∀ block ∈ toProcess, B block) :
    (processAll env fuel t false toProcess).1.2 = .ok false ∧
      Growth env engine B s (processAll env fuel t false toProcess).1.1 := by
  refine ⟨?_, processAll_rule (fun growth given step => growth.workStep answers started prompt given
    step) (fun growth => growth.orphans) fuel false growth given⟩
  induction fuel generalizing t toProcess with
  | zero =>
    cases toProcess with
    | nil => rfl
    | cons => rfl
  | succ fuel ih =>
    cases toProcess with
    | nil => rfl
    | cons block rest =>
      obtain ⟨here, others⟩ := List.forall_mem_cons.mp given
      have step := workStep_processNotarized env t block
      obtain ⟨children, done⟩ := processNotarized_prompt prompt growth.calls here
      have next := growth.workStep answers started prompt here step
      rw [processAll]
      generalize t.processNotarized env block = made at *
      obtain ⟨after, result⟩ := made
      obtain rfl : result = .ok (some children) := done
      refine ih next fun other member => ?_
      rcases List.mem_append.mp member with new | old
      · exact growth.orphans other (step.orphaned other (List.mem_reverse.mp new))
      · exact others other old

variable (injective : ∀ one two, K one → K two → one.digest = two.digest → one = two)

include injective

/-- **A notarized block** is handled, and the run goes on. -/
theorem Growth.notarizedBlock {block : Block} (growth : Growth env engine B s t)
    (tidy : Tidy env engine K T t []) (known : K block) (given : B block) :
    ∃ t', t.step env (.notarizedBlock block) = some t' ∧ Growth env engine B s t' ∧
      Tidy env engine K (fun other => T other ∨ other = block) t' [] := by
  have only : ∀ other ∈ [block], B other := fun other member => List.mem_singleton.mp member ▸ given
  obtain ⟨result, next⟩ := growth.workList answers started prompt (t.orphanedBlocks.length + 1) only
  have listed : Tidy env engine K (fun other => T other ∨ other = block) t [block] := by
    refine ⟨tidy.held, fun other member => List.mem_singleton.mp member ▸ known, tidy.keys,
      fun other tracked => ?_⟩
    rcases tracked with orphan | old | rfl
    · exact Or.inl ((tidy.tracks other (Or.inl orphan)).elim id nofun)
    · exact Or.inl ((tidy.tracks other (Or.inr old)).elim id nofun)
    · exact Or.inr List.mem_cons_self
  have made : t.handleNotarizedBlock env block =
      ((processAll env (t.orphanedBlocks.length + 1) t false [block]).1.1, .ok .applied) := by
    unfold handleNotarizedBlock
    rw [show (processAll env (t.orphanedBlocks.length + 1) t false [block]).1 = (_, .ok false) from
      Prod.ext rfl result]
    rfl
  have after := tidy_handleNotarizedBlock answers injective listed .applied (by rw [made])
  rw [made] at after
  refine ⟨_, ?_, next, after⟩
  rw [step_eq_some_iff, handle, made]
  rfl

theorem Growth.run {blocks : List Block} (growth : Growth env engine B s t)
    (tidy : Tidy env engine K T t []) (known : ∀ block ∈ blocks, K block)
    (given : ∀ block ∈ blocks, B block) :
    ∃ t', (blocks.map Event.notarizedBlock).foldlM (step env) t = some t' ∧
      Growth env engine B s t' ∧ Tidy env engine K (fun other => T other ∨ other ∈ blocks) t' [] := by
  induction blocks generalizing t T with
  | nil =>
    refine ⟨t, rfl, growth, tidy.held, nofun, tidy.keys, fun block tracked => ?_⟩
    exact tidy.tracks block (tracked.imp id fun tracked => tracked.elim id nofun)
  | cons block rest ih =>
    obtain ⟨next, first, growth, tidy⟩ := growth.notarizedBlock answers started prompt injective tidy
      (known block List.mem_cons_self) (given block List.mem_cons_self)
    obtain ⟨t', run, growth, tidy⟩ := ih growth tidy
      (fun other member => known other (List.mem_cons_of_mem _ member))
      (fun other member => given other (List.mem_cons_of_mem _ member))
    refine ⟨t', ?_, growth, tidy.held, nofun, tidy.keys, fun other tracked => ?_⟩
    · rw [List.map_cons, List.foldlM_cons, first]
      exact run
    · refine tidy.tracks other (tracked.imp id fun tracked => ?_)
      rcases tracked with old | member
      · exact Or.inl (Or.inl old)
      · rcases List.mem_cons.mp member with rfl | member
        · exact Or.inl (Or.inr rfl)
        · exact Or.inr member

end Growing

/-- **What grows is stored**, once every given block has been handled. -/
theorem Growth.complete {t : Finalizer} {fork : ForkState}
    (injective : ∀ one two, B one → B two → one.digest = two.digest → one = two)
    (growth : Growth env engine B s t) (tidy : Tidy env engine K B t [])
    (grows : Grown env engine s B height digest fork) : t.forkAt height digest = some fork := by
  -- a stored fork is the one that grows
  have stored {height : Nat} {digest : Digest} {fork : ForkState}
      (grows : Grown env engine s B height digest fork)
      (found : (t.forkAt height digest).isSome = true) : t.forkAt height digest = some fork := by
    obtain ⟨other, found⟩ := Option.isSome_iff_exists.mp found
    rw [found, (growth.grown _ _ other found).unique injective grows]
  -- a given block that grows on its parent has been handled by storing it
  have handled {block : Block} {parent state : ConsensusState} {fork : ForkState} (given : B block)
      (alive : (block.height, block.digest) ∉ s.deadForkDigests)
      (above : s.canonicalState.latestHeight < block.height)
      (placed : t.parentState block = .found parent)
      (verdict : Verdict env engine parent block state)
      (itself : Grown env engine s B block.height block.digest fork) :
      t.forkAt block.height block.digest = some fork := by
    cases (tidy.tracks block (Or.inr given)).elim id nofun with
    | low below =>
      rw [growth.canonicalState] at below
      omega
    | dead listed => exact absurd (growth.deadForkDigests ▸ listed) alive
    | fork found => exact stored itself found
    | mismatch is => cases placed.symm.trans is
    | rejected found never =>
      cases placed.symm.trans found
      exact absurd verdict (never state)
    | pending waits =>
      rw [growth.pendingNotarized] at waits
      cases waits
    | orphan missing => cases placed.symm.trans missing
  induction grows with
  | old found => exact growth.kept _ _ _ found
  | @head height digest block state given stands named alive fresh next links verdict =>
    have itself := Grown.head given stands named alive fresh next links verdict
    subst stands named
    refine handled given alive (by omega) ?_ verdict itself
    rw [parentState, growth.canonicalState, if_pos next, if_neg fun bad => bad.2 links]
  | @child height digest block below state given stands named alive fresh above grows verdict ih =>
    have itself := Grown.child given stands named alive fresh above grows verdict
    subst stands named
    refine handled given alive (by omega) ?_ verdict itself
    rw [parentState, growth.canonicalState, if_neg (by omega), ih]

/-- Without empty levels the fork states are known by their forks. -/
theorem forkStates_ext (one : ∀ level ∈ s.forkStates.entries, level.2.entries ≠ [])
    (two : ∀ level ∈ s'.forkStates.entries, level.2.entries ≠ [])
    (same : ∀ height digest, s.forkAt height digest = s'.forkAt height digest) :
    s.forkStates = s'.forkStates := by
  -- a level holds a fork, which the other side has too
  have level {a b : Finalizer} (full : ∀ level ∈ a.forkStates.entries, level.2.entries ≠ [])
      (same : ∀ height digest, a.forkAt height digest = b.forkAt height digest) {height : Nat}
      {forks : SortedMap Digest ForkState} (found : a.forkStates.find? height = some forks) :
      b.forkStates.find? height ≠ none := by
    intro absent
    obtain ⟨⟨digest, fork⟩, member⟩ :=
      List.exists_mem_of_ne_nil _ (full _ (SortedMap.find?_eq_some_iff.mp found))
    have here : a.forkAt height digest = some fork := by
      rw [forkAt, found]
      exact SortedMap.find?_eq_some_iff.mpr member
    rw [same, forkAt, absent] at here
    cases here
  refine SortedMap.ext_find? fun height => ?_
  cases left : s.forkStates.find? height with
  | none =>
    cases right : s'.forkStates.find? height with
    | none => rfl
    | some forks => exact absurd left (level two (fun height digest => (same height digest).symm) right)
  | some forks =>
    cases right : s'.forkStates.find? height with
    | none => exact absurd right (level one same left)
    | some forks' =>
      refine congrArg some (SortedMap.ext_find? fun digest => ?_)
      have here := same height digest
      rw [forkAt, forkAt, left, right] at here
      exact here

end Confluence

open Finalizer in
/-- **Notarized blocks commute.** From every state that a run reaches with a canonical height above 0
and no deferred notarized block, let two lists hold the same notarized blocks in any order and any
number of times, and let the execution layer answer on these and on the orphans without SYNCING. Both
runs end, in states whose fork states are equal, and which hold what grows from the blocks and the
orphans; no work list is left unfinished. -/
theorem notarized_commute [Crypto] (env : FinalizerEnv) (engine : Engine)
    (answers : Answers env engine) (K : Block → Prop)
    (injective : ∀ one two, K one → K two → one.digest = two.digest → one = two)
    (start : ConsensusState) (started : 0 < start.latestHeight) (s : Finalizer)
    (reaches : Reaches env (Delivers K) (new start) s) (idle : s.pendingNotarized = [])
    (one two : List Block) (known : ∀ block ∈ one, K block)
    (same : ∀ block, block ∈ one ↔ block ∈ two)
    (prompt : Prompt env (fun block => block ∈ s.orphanedBlocks ∨ block ∈ one) s.calls) :
    (∀ t block done,
      (processAll env (t.orphanedBlocks.length + 1) t false [block]).1.2 = .ok done →
        (processAll env (t.orphanedBlocks.length + 1) t false [block]).2 = []) ∧
    ∃ s₁ s₂, (one.map Event.notarizedBlock).foldlM (step env) s = some s₁ ∧
      (two.map Event.notarizedBlock).foldlM (step env) s = some s₂ ∧
      s₁.forkStates = s₂.forkStates ∧
      ∀ height digest fork, s₁.forkAt height digest = some fork ↔
        Grown env engine s (fun block => block ∈ s.orphanedBlocks ∨ block ∈ one)
          height digest fork := by
  obtain ⟨rests, forest⟩ := atRest_of_reaches answers injective started reaches
  have given : ∀ block, block ∈ s.orphanedBlocks ∨ block ∈ one → K block :=
    fun block given => given.elim (rests.held.orphaned block) (known block)
  have injective' : ∀ a b, (a ∈ s.orphanedBlocks ∨ a ∈ one) → (b ∈ s.orphanedBlocks ∨ b ∈ one) →
      a.digest = b.digest → a = b :=
    fun a b first second => injective a b (given a first) (given b second)
  have growth : Growth env engine (fun block => block ∈ s.orphanedBlocks ∨ block ∈ one) s s :=
    ⟨rfl, rfl, le_rfl, idle, fun _ orphan => Or.inl orphan, fun _ _ _ found => found,
      fun _ _ _ found => .old found⟩
  have tidy : Tidy env engine K (· ∈ s.orphanedBlocks) s [] :=
    ⟨rests.held, nofun, rests.keys, fun block tracked =>
      rests.tracks block (Or.inl (tracked.elim id id))⟩
  -- a run over a list of these blocks stores what grows, no more and no less
  have run (blocks : List Block) (alike : ∀ block, block ∈ one ↔ block ∈ blocks) :
      ∃ t, (blocks.map Event.notarizedBlock).foldlM (step env) s = some t ∧ Forest env K t ∧
        ∀ height digest fork, t.forkAt height digest = some fork ↔
          Grown env engine s (fun block => block ∈ s.orphanedBlocks ∨ block ∈ one)
            height digest fork := by
    have mine : ∀ block ∈ blocks, K block := fun block member => known block ((alike block).mpr member)
    obtain ⟨t, result, growth', tidy'⟩ := growth.run answers forest.started prompt injective tidy mine
      fun block member => Or.inr ((alike block).mpr member)
    have reached : Reaches env (Delivers K) s t := by
      refine Run.reflTransGen_of_foldlM result fun a b event member result => ?_
      obtain ⟨block, listed, rfl⟩ := List.mem_map.mp member
      refine ⟨.notarizedBlock block, fun other is => ?_, result⟩
      exact List.mem_singleton.mp is ▸ mine block listed
    refine ⟨t, result, (forest_of_reaches injective forest rests.held reached).1,
      fun height digest fork => ⟨growth'.grown height digest fork, ?_⟩⟩
    refine growth'.complete injective' ⟨tidy'.held, nofun, tidy'.keys, fun block tracked => ?_⟩
    exact tidy'.tracks block (tracked.imp id fun tracked => tracked.imp id (alike block).mp)
  obtain ⟨s₁, first, forest₁, forks₁⟩ := run one fun _ => Iff.rfl
  obtain ⟨s₂, second, forest₂, forks₂⟩ := run two same
  refine ⟨fun t block done => processAll_finishes t block, s₁, s₂, first, second,
    forkStates_ext forest₁.buckets forest₂.buckets ?_, forks₁⟩
  intro height digest
  exact Option.ext fun fork => (forks₁ height digest fork).trans (forks₂ height digest fork).symm

attribute [local instance] Crypto.accepting

open Finalizer in
/-- A block that comes before its parent, and after it. -/
theorem notarized_commute_swapped :
    ∃ s₁ s₂, ([plainBlock 10, plainBlock 9].map Event.notarizedBlock).foldlM (step acceptingEnv)
        (new endingState) = some s₁ ∧
      ([plainBlock 9, plainBlock 10, plainBlock 9].map Event.notarizedBlock).foldlM
        (step acceptingEnv) (new endingState) = some s₂ ∧
      (s₁.forkAt 10 (plainBlock 10).digest).isSome = true ∧ s₁.forkStates = s₂.forkStates := by
  have injective : ∀ one ∈ [plainBlock 9, plainBlock 10], ∀ two ∈ [plainBlock 9, plainBlock 10],
      one.digest = two.digest → one = two := by decide
  have computed : (([plainBlock 10, plainBlock 9].map Event.notarizedBlock).foldlM
      (step acceptingEnv) (new endingState)).map
        (fun s => (s.forkAt 10 (plainBlock 10).digest).isSome) = some true := by decide +kernel
  obtain ⟨-, s₁, s₂, first, second, same, -⟩ := notarized_commute acceptingEnv (acceptingEnv.engine 0)
    ⟨fun _ _ => .inr rfl, fun _ _ _ _ => .inr rfl⟩ (· ∈ [plainBlock 9, plainBlock 10])
    (fun one two here there => injective one here two there) endingState (by decide)
    (new endingState) .refl rfl [plainBlock 10, plainBlock 9]
    [plainBlock 9, plainBlock 10, plainBlock 9] (by decide)
    (fun block => by simp only [List.mem_cons, List.not_mem_nil]; tauto)
    ⟨fun _ _ _ _ => .inl rfl, fun _ _ _ _ _ _ => .inl rfl⟩
  rw [first] at computed
  exact ⟨s₁, s₂, first, second, Option.some.inj computed, same⟩

end Summit
