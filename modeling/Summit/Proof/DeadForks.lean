/-
**Dead forks stay dead.**

A finalized block leaves the forks that descend from it and drops the others. `Forest` says how the
fork states stand then: they are linked to one another down to the canonical head, no level is empty,
and none of them is among the dead digests. The dead digests form stumps (`Stump`): the parent of one
is dead too, and right above the head it is not the head. So the block of a stump never extends the
canonical head, and a digest that is dead, or that lost its height to another block, is never seen
again (`Barred`).

`fork_tree_invariant` puts this together over every run.
-/

import Summit.Proof.ForkTree
import Summit.Proof.FinalizedChain

set_option linter.unusedSectionVars false

namespace Summit

open Bytes

namespace Finalizer

section DeadForks

variable [Crypto] {env : FinalizerEnv} {K : Block → Prop} {s s' : Finalizer}

/-- An event brings known blocks only. -/
abbrev Delivers (K : Block → Prop) : Finalizer → Event → Prop :=
  fun _ event => ∀ block ∈ event.blocks, K block

/-! ### The tree -/

/-- The forks right above the head are children of the head. -/
abbrev LinkedTree (env : FinalizerEnv) (K : Block → Prop) (s : Finalizer) : Prop :=
  ForkTree env K (fun canonical block state =>
    block.parent = canonical.headDigest ∧ state.headDigest = block.digest) s

theorem LinkedTree.placed (tree : LinkedTree env K s) : s.Placed := by
  intro height digest fork found
  obtain ⟨block, -, rfl, grows⟩ := tree height digest fork found
  refine ⟨grows.stands, ?_⟩
  rcases grows.source with ⟨-, -, head⟩ | ⟨parent, -, executed⟩
  · exact head
  · exact (head_executed executed).2

/-- The dead fork of a block that does not come after the head: its parent is dead too, or is not
the head. -/
structure Stump (K : Block → Prop) (s : Finalizer) (height : Nat) (digest : Digest) : Prop where
  above : s.canonicalState.latestHeight < height
  severed : ∃ block, K block ∧ block.height = height ∧ block.digest = digest ∧
    (height = s.canonicalState.latestHeight + 1 → block.parent ≠ s.canonicalState.headDigest) ∧
    (s.canonicalState.latestHeight + 1 < height → (height - 1, block.parent) ∈ s.deadForkDigests)

/-- **How the forks stand.** -/
structure Forest (env : FinalizerEnv) (K : Block → Prop) (s : Finalizer) : Prop where
  started : 0 < s.canonicalState.latestHeight
  tree : LinkedTree env K s
  buckets : ∀ level ∈ s.forkStates.entries, level.2.entries ≠ []
  alive : ∀ height digest fork, s.forkAt height digest = some fork →
    (height, digest) ∉ s.deadForkDigests
  stumps : ∀ height digest, (height, digest) ∈ s.deadForkDigests → Stump K s height digest

theorem forest_new {start : ConsensusState} (started : 0 < start.latestHeight) :
    Forest env K (new start) :=
  ⟨started, forkTree_new start, nofun, nofun, nofun⟩

theorem Forest.congr (forest : Forest env K s) (canonical : s'.canonicalState = s.canonicalState)
    (forks : s'.forkStates = s.forkStates) (dead : s'.deadForkDigests = s.deadForkDigests) :
    Forest env K s' := by
  refine ⟨canonical ▸ forest.started, forest.tree.congr canonical forks, forks ▸ forest.buckets,
    fun height digest fork found => ?_, fun height digest listed => ?_⟩
  · rw [dead]
    rw [forkAt_congr forks] at found
    exact forest.alive height digest fork found
  · rw [dead] at listed
    obtain ⟨above, severed⟩ := forest.stumps height digest listed
    refine ⟨canonical ▸ above, ?_⟩
    rw [canonical, dead]
    exact severed

variable {block : Block} {parent state : ConsensusState}

/-- **Storing a fork** adds a leaf to the tree. -/
theorem Forest.stores (forest : Forest env K s) (known : K block)
    (stores : Stores env s block parent state) : Forest env K (s.called.storeFork block state) := by
  refine ⟨forest.started, ?_, ?_, fun height digest fork found => ?_, fun height digest listed => ?_⟩
  · refine forest.tree.stores known stores fun next _ => ⟨?_, (head_executed stores.executed).2⟩
    rcases parentState_cases stores.found with ⟨-, -, links⟩ | ⟨fork, higher, -⟩
    · exact links forest.started
    · exact absurd next higher
  · intro level member
    rcases SortedMap.mem_insert.mp member with same | ⟨old, -⟩
    · rw [same]
      exact List.ne_nil_of_mem (SortedMap.mem_insert.mpr (Or.inl rfl))
    · exact forest.buckets level old
  · rw [forkAt_storeFork] at found
    split at found
    · next same => exact same.1 ▸ same.2 ▸ stores.alive
    · exact forest.alive height digest fork found
  · obtain ⟨above, severed⟩ := forest.stumps height digest listed
    exact ⟨above, severed⟩

theorem ne_nil_of_mem_pruneLevels {height : Nat} {parents : List Digest}
    {levels : List (Nat × SortedMap Digest ForkState)} (above : ∀ level ∈ levels, height < level.1)
    {level : Nat × SortedMap Digest ForkState}
    (member : level ∈ pruneLevels height parents levels) : level.2.entries ≠ [] := by
  induction levels generalizing parents with
  | nil => cases member
  | cons first rest ih =>
    have higher : ∀ level ∈ rest, height < level.1 := fun level member =>
      above level (List.mem_cons_of_mem _ member)
    have high := above first List.mem_cons_self
    rw [pruneLevels, if_neg (Nat.not_le.mpr high)] at member
    dsimp only at member
    split at member
    · exact ih higher member
    · next full =>
      rcases List.mem_cons.mp member with rfl | member
      · exact full
      · exact ih higher member

section Advance

variable {entry : PendingFinalized} {state : ConsensusState}

theorem Forest.head (forest : Forest env K s) (advances : Advances env s entry state s') :
    s'.canonicalState.latestHeight = entry.block.height ∧
      s'.canonicalState.headDigest = entry.block.digest := by
  obtain ⟨checkpoint, finalizes⟩ := advances.finalizes
  obtain ⟨height, head⟩ := head_executeFinalized forest.tree.placed advances.executes
  obtain ⟨sameHeight, sameHead⟩ := head_finalizeExecuted finalizes
  exact ⟨sameHeight.trans height, sameHead.trans head⟩

variable (injective : ∀ one two, K one → K two → one.digest = two.digest → one = two)

include injective

/-- The block of a stump does not become canonical. -/
theorem Forest.not_dead (forest : Forest env K s) (known : K entry.block)
    (extends_ : s.Extends entry) : (entry.block.height, entry.block.digest) ∉ s.deadForkDigests := by
  intro listed
  obtain ⟨-, block, known', -, same, severed, -⟩ := forest.stumps _ _ listed
  obtain rfl := injective _ _ known' known same
  exact severed extends_.height extends_.parent

/-- **A finalized block** leaves a forest whose stumps are those it made and those above it. -/
theorem Forest.advances (forest : Forest env K s) (known : K entry.block)
    (advances : Advances env s entry state s') : Forest env K s' := by
  obtain ⟨height, head⟩ := forest.head advances
  have extended := advances.extends_.height
  obtain ⟨kept, dropped⟩ := prune_promote state
    (forest.tree.rooted.mono (by omega : _ ≤ entry.block.height))
  have tree : LinkedTree env K s' := by
    refine forest.tree.advances advances ?_
    intro child next _ _ link executed
    exact ⟨link.trans head.symm, (head_executed executed).2⟩
  refine ⟨by omega, tree, ?_, fun level digest fork found => ?_, fun level digest listed => ?_⟩
  · rw [advances.forkStates, entries_promote]
    intro level member
    exact ne_nil_of_mem_pruneLevels 
      (fun level listed => of_decide_eq_true (List.mem_filter.mp listed).2) member
  · rw [forkAt_congr advances.forkStates] at found
    obtain ⟨before, -, descends⟩ := (kept level digest fork).mp found
    rw [advances.deadForkDigests, dropped level digest]
    rintro ⟨old | ⟨-, astray⟩, -⟩
    · exact forest.alive level digest fork before old
    · exact astray descends
  · rw [advances.deadForkDigests, dropped level digest] at listed
    obtain ⟨old | ⟨some_, astray⟩, above⟩ := listed
    · -- its parent was dead as well, so that the finalized block is another one
      obtain ⟨-, block, known', same, named, -, parentDead⟩ := forest.stumps level digest old
      have parentDead := parentDead (by omega)
      refine ⟨by omega, block, known', same, named, fun next links => ?_, fun high => ?_⟩
      · rw [links, head, show level - 1 = entry.block.height by omega] at parentDead
        exact forest.not_dead injective known advances.extends_ parentDead
      · rw [advances.deadForkDigests, dropped]
        exact ⟨Or.inl parentDead, by omega⟩
    · obtain ⟨fork, found⟩ := Option.isSome_iff_exists.mp some_
      obtain ⟨block, known', named, grows⟩ := forest.tree level digest fork found
      rw [descends_iff above found, ← grows.parent] at astray
      refine ⟨by omega, block, known', grows.height, named, fun next links => ?_, fun high => ?_⟩
      · rw [links, head, show level - 1 = entry.block.height by omega] at astray
        exact astray .self
      · rw [advances.deadForkDigests, dropped, grows.parent]
        rw [grows.parent] at astray
        have rooted := forest.tree.rooted level digest fork found (by omega)
        exact ⟨Or.inr ⟨rooted, astray⟩, by omega⟩

end Advance

/-! ### Digests that are never seen again -/

/-- The block `digest` at `height` is dead, or another one is canonical there. -/
def Barred (height : Nat) (digest : Digest) (s : Finalizer) : Prop :=
  (height, digest) ∈ s.deadForkDigests ∨ height < s.canonicalState.latestHeight ∨
    height = s.canonicalState.latestHeight ∧ digest ≠ s.canonicalState.headDigest

variable {height : Nat} {digest : Digest}

theorem Barred.congr (barred : Barred height digest s)
    (canonical : s'.canonicalState = s.canonicalState)
    (dead : s'.deadForkDigests = s.deadForkDigests) : Barred height digest s' := by
  rw [Barred, canonical, dead]
  exact barred

/-- A barred block is no fork, and it is not the head. -/
theorem Barred.absent (barred : Barred height digest s) (forest : Forest env K s) :
    s.forkAt height digest = none ∧
      ¬(s.canonicalState.latestHeight = height ∧ s.canonicalState.headDigest = digest) := by
  constructor
  · by_contra some_
    obtain ⟨fork, found⟩ := Option.ne_none_iff_exists'.mp some_
    obtain ⟨_, -, -, grows⟩ := forest.tree height digest fork found
    have above := grows.above
    rcases barred with dead | low | ⟨low, -⟩
    · exact forest.alive height digest fork found dead
    · omega
    · omega
  · rintro ⟨here, same⟩
    rcases barred with dead | low | ⟨-, differs⟩
    · have := (forest.stumps height digest dead).above
      omega
    · omega
    · exact differs same.symm

variable {entry : PendingFinalized} {state : ConsensusState}

/-- A finalized block keeps what is barred. -/
theorem Barred.advances (injective : ∀ one two, K one → K two → one.digest = two.digest → one = two)
    (barred : Barred height digest s) (forest : Forest env K s) (known : K entry.block)
    (advances : Advances env s entry state s') : Barred height digest s' := by
  obtain ⟨newHeight, newHead⟩ := forest.head advances
  have extended := advances.extends_.height
  rcases barred with dead | low | ⟨low, -⟩
  · have above := (forest.stumps height digest dead).above
    by_cases here : height = entry.block.height
    · refine Or.inr (Or.inr ⟨by omega, fun same => ?_⟩)
      rw [here, same, newHead] at dead
      exact forest.not_dead injective known advances.extends_ dead
    · refine Or.inl ?_
      rw [advances.deadForkDigests,
        (prune_promote state (forest.tree.rooted.mono (by omega))).2]
      exact ⟨Or.inl dead, by omega⟩
  · exact Or.inr (Or.inl (by omega))
  · exact Or.inr (Or.inl (by omega))

/-- What was in the tree and does not descend from a finalized block is barred. -/
theorem barred_of_advances {fork : ForkState} (forest : Forest env K s)
    (advances : Advances env s entry state s')
    (found : s.forkAt height digest = some fork)
    (astray : ¬Descends s entry.block.height entry.block.digest height digest) :
    Barred height digest s' := by
  obtain ⟨newHeight, newHead⟩ := forest.head advances
  have extended := advances.extends_.height
  obtain ⟨_, -, -, grows⟩ := forest.tree height digest fork found
  have above := grows.above
  by_cases here : height = entry.block.height
  · refine Or.inr (Or.inr ⟨by omega, fun same => astray ?_⟩)
    rw [here, same, newHead]
    exact .self
  · refine Or.inl ?_
    rw [advances.deadForkDigests,
      (prune_promote state (forest.tree.rooted.mono (by omega))).2]
    exact ⟨Or.inr ⟨Option.isSome_of_eq_some found, astray⟩, by omega⟩

/-! ### Runs -/

/-- The canonical head is a known block. -/
def HeadKnown (K : Block → Prop) (s : Finalizer) : Prop :=
  ∃ block, K block ∧ block.height = s.canonicalState.latestHeight ∧
    block.digest = s.canonicalState.headDigest

/-- **Along every run** the forks form a forest, and what is barred stays barred. -/
theorem forest_of_reaches {later : Finalizer}
    (injective : ∀ one two, K one → K two → one.digest = two.digest → one = two)
    (forest : Forest env K s) (held : s.Known K) (reaches : Reaches env (Delivers K) s later) :
    Forest env K later ∧ later.Known K ∧
      (∀ height digest, Barred height digest s → Barred height digest later) ∧
      (HeadKnown K s → HeadKnown K later) := by
  have result := reaches.invariant_forks (P := fun t => Forest env K t ∧
      (∀ height digest, Barred height digest s → Barred height digest t) ∧
      (HeadKnown K s → HeadKnown K t))
    (fun inv same => ⟨inv.1.congr same.canonicalState same.forkStates same.deadForkDigests,
      fun height digest barred => (inv.2.1 height digest barred).congr same.canonicalState
        same.deadForkDigests,
      fun head => by
        rw [HeadKnown, same.canonicalState]
        exact inv.2.2 head⟩)
    (fun inv known stores => ⟨inv.1.stores known stores, inv.2⟩)
    (fun {t waiter} _ inv => by
      obtain ⟨_, _, same⟩ := notifyAtHeight_frame t waiter
      rw [same]
      exact ⟨inv.1.congr rfl rfl rfl, inv.2⟩)
    (fun {t event entry state t'} _ _ inv known advances => by
      obtain ⟨height, head⟩ := inv.1.head advances
      exact ⟨inv.1.advances injective known advances,
        fun height digest barred => (inv.2.1 height digest barred).advances injective inv.1 known
          advances,
        fun _ => ⟨entry.block, known, height.symm, head.symm⟩⟩)
    (fun allowed => allowed) ⟨⟨forest, fun _ _ barred => barred, id⟩, held⟩
  exact ⟨result.1.1, result.2, result.1.2⟩

/-- **A fork that a finalized block leaves behind** is barred after the event. -/
theorem barred_of_step {t : Finalizer} {event : Event} {fork : ForkState} (forest : Forest env K s)
    (held : s.Known K) (delivers : Delivers K s event) (result : s.step env event = some t)
    (rises : s.canonicalState.latestHeight < t.canonicalState.latestHeight)
    (found : s.forkAt height digest = some fork)
    (astray : ¬Descends s t.canonicalState.latestHeight t.canonicalState.headDigest height digest) :
    Barred height digest t ∧ HeadKnown K t := by
  obtain ⟨⟨mid, shows_, works⟩, -⟩ := shows_step held delivers result
  have canonical : t.canonicalState = mid.canonicalState :=
    works.keeps (P := fun t => t.canonicalState = mid.canonicalState)
      (fun same quiet => quiet.canonicalState.trans same) (fun same _ _ => same) rfl
  rw [canonical] at rises astray
  cases shows_ with
  | nothing _ same => exact absurd rises (by rw [same.canonicalState]; exact lt_irrefl _)
  | @request waiter _ same =>
    obtain ⟨_, _, frame⟩ := notifyAtHeight_frame s waiter
    rw [same, frame] at rises
    exact absurd rises (lt_irrefl _)
  | @block entry state handles advances =>
    obtain ⟨newHeight, newHead⟩ := forest.head advances
    rw [newHeight, newHead] at astray
    have barred := barred_of_advances forest advances found astray
    have known := held.handled delivers handles
    refine ⟨works.keeps (P := Barred height digest)
      (fun barred same => barred.congr same.canonicalState same.deadForkDigests)
      (fun barred _ _ => barred) barred, entry.block, known, ?_, ?_⟩
    · rw [canonical]
      exact newHeight.symm
    · rw [canonical]
      exact newHead.symm

end DeadForks

end Finalizer

open Finalizer in
/-- **The structure of the fork tree.** In every run from a canonical height above 0 over blocks that
differ in their digests, a fork state stands where it is kept, above the canonical head and below
nothing that is missing; no level is empty, no fork is among the dead ones, and a fork that did not
descend from a finalized block is never a fork and never canonical again. -/
theorem fork_tree_invariant [Crypto] (env : FinalizerEnv) (K : Block → Prop)
    (injective : ∀ one two, K one → K two → one.digest = two.digest → one = two)
    (start : ConsensusState) (started : 0 < start.latestHeight) (s : Finalizer)
    (reaches : Reaches env (Delivers K) (Finalizer.new start) s) :
    (∀ height digest fork, s.forkAt height digest = some fork →
      s.canonicalState.latestHeight < height ∧
      fork.consensusState.latestHeight = height ∧ fork.consensusState.headDigest = digest ∧
      (height = s.canonicalState.latestHeight + 1 →
        fork.parentDigest = s.canonicalState.headDigest) ∧
      (height ≠ s.canonicalState.latestHeight + 1 →
        (s.forkAt (height - 1) fork.parentDigest).isSome = true) ∧
      (height, digest) ∉ s.deadForkDigests) ∧
    (∀ level ∈ s.forkStates.entries, level.2.entries ≠ []) ∧
    ∀ event t, Delivers K s event → s.step env event = some t →
      s.canonicalState.latestHeight < t.canonicalState.latestHeight →
      ∀ height digest, (s.forkAt height digest).isSome = true →
        ¬Descends s t.canonicalState.latestHeight t.canonicalState.headDigest height digest →
        ∀ later, Reaches env (Delivers K) t later →
          (∀ level, later.forkAt level digest = none) ∧
            later.canonicalState.headDigest ≠ digest := by
  obtain ⟨forest, held, -⟩ := forest_of_reaches injective (forest_new started) (known_new start)
    reaches
  refine ⟨fun height digest fork found => ?_, forest.buckets, ?_⟩
  · obtain ⟨block, -, named, grows⟩ := forest.tree height digest fork found
    obtain ⟨stands, head⟩ := forest.tree.placed height digest fork found
    refine ⟨grows.above, stands, head, fun first => ?_, fun higher => ?_,
      forest.alive height digest fork found⟩
    · rcases grows.source with ⟨-, link, -⟩ | ⟨parent, here, -⟩
      · exact grows.parent.symm.trans link
      · obtain ⟨_, -, -, grows'⟩ := forest.tree _ _ parent here
        have := grows'.above
        omega
    · have above := grows.above
      exact forest.tree.rooted height digest fork found (by omega)
  · intro event t delivers result rises height digest some_ astray later reaches'
    obtain ⟨fork, found⟩ := Option.isSome_iff_exists.mp some_
    obtain ⟨block, known, named, grows⟩ := forest.tree height digest fork found
    obtain ⟨barred, head⟩ := barred_of_step forest held delivers result rises found astray
    have step : Reaches env (Delivers K) s t := .single ⟨event, delivers, result⟩
    obtain ⟨forest', held', -⟩ := forest_of_reaches injective forest held step
    obtain ⟨forest'', -, keeps, heads⟩ := forest_of_reaches injective forest' held' reaches'
    obtain ⟨absent, notHead⟩ := (keeps height digest barred).absent forest''
    constructor
    · -- the digest belongs to one block, of one height
      intro level
      by_contra other
      obtain ⟨fork', found'⟩ := Option.ne_none_iff_exists'.mp other
      obtain ⟨block', known', named', grows'⟩ := forest''.tree level digest fork' found'
      obtain rfl := injective _ _ known' known (named'.trans named.symm)
      rw [← grows'.height, grows.height, absent] at found'
      cases found'
    · intro same
      obtain ⟨block', known', height', named'⟩ := heads head
      obtain rfl := injective _ _ known' known (named'.trans (same.trans named.symm))
      exact notHead ⟨height'.symm.trans grows.height, same⟩

attribute [local instance] Crypto.accepting

/-- A block without requests beside the one of the same height. -/
def rivalBlock (height : Nat) : Block :=
  { plainBlock height with digest := FixedBytes.padded 32 [UInt8.ofNat height, 1] }

open Finalizer in
/-- Of two blocks at one height the other one is finalized. -/
theorem fork_tree_invariant_rival :
    ∃ s t, Reaches acceptingEnv (Delivers (· ∈ [plainBlock 9, rivalBlock 9]))
        (Finalizer.new endingState) s ∧
      (s.forkAt 9 (rivalBlock 9).digest).isSome = true ∧
      s.step acceptingEnv (.finalizedBlock (plainEntry 9)) = some t ∧
      ∀ later, Reaches acceptingEnv (Delivers (· ∈ [plainBlock 9, rivalBlock 9])) t later →
        (∀ level, later.forkAt level (rivalBlock 9).digest = none) ∧
          later.canonicalState.headDigest ≠ (rivalBlock 9).digest := by
  have computed : (((Finalizer.new endingState).step acceptingEnv
      (.notarizedBlock (plainBlock 9))).bind fun r =>
        (r.step acceptingEnv (.notarizedBlock (rivalBlock 9))).bind fun s =>
          (s.step acceptingEnv (.finalizedBlock (plainEntry 9))).map fun t =>
            ((s.canonicalState.latestHeight, (s.forkAt 9 (rivalBlock 9).digest).isSome),
              (t.canonicalState.latestHeight,
                decide (t.canonicalState.headDigest = (plainBlock 9).digest)))) =
      some ((8, true), (9, true)) := by decide +kernel
  obtain ⟨r, first, rest⟩ := Option.bind_eq_some_iff.mp computed
  obtain ⟨s, second, rest⟩ := Option.bind_eq_some_iff.mp rest
  obtain ⟨t, third, facts⟩ := Option.map_eq_some_iff.mp rest
  simp only [Prod.mk.injEq, decide_eq_true_eq] at facts
  obtain ⟨⟨height, some_⟩, height', head'⟩ := facts
  have delivers (r : Finalizer) (event : Event)
      (listed : ∀ block ∈ event.blocks, block ∈ [plainBlock 9, rivalBlock 9]) :
      Delivers (· ∈ [plainBlock 9, rivalBlock 9]) r event := listed
  have reaches : Reaches acceptingEnv (Delivers (· ∈ [plainBlock 9, rivalBlock 9]))
      (Finalizer.new endingState) s :=
    .tail (.single ⟨_, delivers _ _ (by decide), first⟩) ⟨_, delivers _ _ (by decide), second⟩
  have injective : ∀ one ∈ [plainBlock 9, rivalBlock 9], ∀ two ∈ [plainBlock 9, rivalBlock 9],
      one.digest = two.digest → one = two := by decide
  obtain ⟨-, -, gone⟩ := fork_tree_invariant acceptingEnv (· ∈ [plainBlock 9, rivalBlock 9])
    (fun one two here there => injective one here two there) endingState (by decide) s reaches
  refine ⟨s, t, reaches, some_, third, gone _ t (delivers _ _ (by decide)) third (by omega) 9 _ some_
    fun descends => ?_⟩
  rw [height', head'] at descends
  exact absurd (descends.eq_self rfl) (by decide)

end Summit
