/-
**Requests to be told about a block.**

A request names a height and a digest. It is answered at once when the fate of the block is known, and
waits otherwise, until the block is executed, or another one is finalized at its height. The answers
that an event gives are right in the state it leaves (`Right`): a block that was confirmed is the head
or a fork, and a block that was denied, not below the head, is barred. While a request waits its block
is above the head, not executed and not dead (`Awaited`), so nothing passes it by; and the requests
made are those answered and those that wait, each once (`ledger_of_run`).
-/

import Summit.Proof.DeadForks

set_option linter.unusedSectionVars false

namespace Summit

open Bytes

namespace Finalizer

section Notifications

variable [Crypto] {env : FinalizerEnv} {K : Block → Prop} {s s' : Finalizer}

/-! ### The requests made -/

/-- The requests answered, and those that wait. -/
def ledger (s : Finalizer) : List HeightNotify := s.notified.map Prod.fst ++ s.pendingHeightNotifys

theorem ledger_congr (waiters : s'.pendingHeightNotifys = s.pendingHeightNotifys)
    (answers : s'.notified = s.notified) : s'.ledger = s.ledger := by
  rw [ledger, waiters, answers, ← ledger]

/-- An answer moves a request from the waiting ones to the answered ones. -/
theorem ledger_notify (s : Finalizer) (answer : HeightNotify → Option Bool) :
    (s.notify answer).ledger.Perm s.ledger := by
  have answered : (s.pendingHeightNotifys.filterMap fun waiter =>
      (answer waiter).map (Prod.mk waiter)).map Prod.fst =
        s.pendingHeightNotifys.filter fun waiter => !(answer waiter).isNone := by
    induction s.pendingHeightNotifys with
    | nil => rfl
    | cons waiter rest ih => cases known : answer waiter <;> simp [known, ih]
  show ((s.notified ++ _).map Prod.fst ++ s.pendingHeightNotifys.filter _).Perm _
  rw [List.map_append, answered, List.append_assoc, ledger]
  refine List.Perm.append_left _ (List.perm_append_comm.trans ?_)
  exact List.filter_append_perm (fun waiter => (answer waiter).isNone) s.pendingHeightNotifys

theorem ledger_storeFork (block : Block) (state : ConsensusState) :
    (s.called.storeFork block state).ledger.Perm s.ledger :=
  ledger_notify _ _

theorem ledger_promote (block : Block) (state : ConsensusState) :
    (s.promote block state).ledger.Perm s.ledger :=
  (ledger_notify _ _).trans (ledger_notify _ _)

theorem ledger_notifyAtHeight (waiter : HeightNotify) :
    (s.notifyAtHeight waiter).ledger.Perm (s.ledger ++ [waiter]) := by
  unfold notifyAtHeight
  dsimp only
  split
  · show (List.map Prod.fst (s.notified ++ [_]) ++ s.pendingHeightNotifys).Perm _
    rw [List.map_append, List.append_assoc, ledger, List.append_assoc]
    exact List.Perm.append_left _ List.perm_append_comm
  · show (s.notified.map Prod.fst ++ (s.pendingHeightNotifys ++ [waiter])).Perm _
    rw [ledger, List.append_assoc]

variable {event : Event} {answer : HeightNotify → Option Bool} {waiter : HeightNotify}
  {block : Block} {state : ConsensusState} {entry : PendingFinalized} {value : Bool}
  {before : Finalizer}

/-- **One event** adds the request that it brings. -/
theorem ledger_step (result : s.step env event = some s') :
    s'.ledger.Perm (s.ledger ++ event.request.toList) := by
  obtain ⟨⟨mid, shows_, works⟩, -⟩ := shows_step (K := fun _ => True)
    ⟨fun _ _ => trivial, fun _ _ => trivial, fun _ _ => trivial⟩ (fun _ _ => trivial) result
  have rest : s'.ledger.Perm mid.ledger :=
    works.keeps (P := fun t => t.ledger.Perm mid.ledger)
      (fun same quiet => (ledger_congr quiet.pendingHeightNotifys quiet.notified) ▸ same)
      (fun same _ _ => (ledger_storeFork _ _).trans same) (.refl _)
  refine rest.trans ?_
  cases shows_ with
  | nothing silent same =>
    rw [ledger_congr same.pendingHeightNotifys same.notified, silent]
    exact .of_eq (List.append_nil _).symm
  | request is same =>
    rw [is, same]
    exact ledger_notifyAtHeight _
  | @block entry state handles advances =>
    rw [ledger_congr advances.pendingHeightNotifys advances.notified, request_of_handled handles]
    exact (ledger_promote entry.block state).trans (.of_eq (List.append_nil _).symm)

/-- **The requests made** are those answered and those that wait, each once. -/
theorem ledger_of_run {events : List Event} (run : events.foldlM (step env) s = some s') :
    s'.ledger.Perm (s.ledger ++ events.filterMap Event.request) := by
  induction events generalizing s with
  | nil =>
    obtain rfl := Option.some.inj run
    exact .of_eq (List.append_nil _).symm
  | cons event rest ih =>
    obtain ⟨mid, first, later⟩ := Run.foldlM_cons_some run
    have both := (ih later).trans ((ledger_step first).append_right _)
    rw [List.append_assoc] at both
    cases known : event.request with
    | none =>
      rw [known] at both
      rw [List.filterMap_cons_none known]
      exact both
    | some waiter =>
      rw [known] at both
      rw [List.filterMap_cons_some known]
      exact both

/-! ### Requests that wait -/

/-- The block that a request waits for is above the head, and neither executed nor dead. -/
structure Awaited (s : Finalizer) (waiter : HeightNotify) : Prop where
  above : s.canonicalState.latestHeight < waiter.height
  fresh : s.forkAt waiter.height waiter.digest = none
  alive : (waiter.height, waiter.digest) ∉ s.deadForkDigests

theorem pending_notify (member : waiter ∈ (s.notify answer).pendingHeightNotifys) :
    waiter ∈ s.pendingHeightNotifys ∧ answer waiter = none := by
  obtain ⟨waits, silent⟩ := List.mem_filter.mp member
  exact ⟨waits, Option.isNone_iff_eq_none.mp silent⟩

/-- Every request that waits is awaited. -/
def Attends (s : Finalizer) : Prop := ∀ waiter ∈ s.pendingHeightNotifys, Awaited s waiter

theorem Attends.quiet (attends : Attends s) (same : SameForks s s') : Attends s' := by
  intro waiter member
  rw [same.pendingHeightNotifys] at member
  obtain ⟨above, fresh, alive⟩ := attends waiter member
  refine ⟨same.canonicalState ▸ above, ?_, same.deadForkDigests ▸ alive⟩
  rw [forkAt_congr same.forkStates]
  exact fresh

theorem Attends.stores (attends : Attends s) : Attends (s.called.storeFork block state) := by
  intro waiter member
  obtain ⟨waits, silent⟩ := pending_notify member
  obtain ⟨above, fresh, alive⟩ := attends waiter waits
  refine ⟨above, ?_, alive⟩
  rw [forkAt_storeFork, if_neg]
  · exact fresh
  · intro same
    rw [if_pos same] at silent
    cases silent

theorem Attends.asks (attends : Attends s) : Attends (s.notifyAtHeight waiter) := by
  unfold notifyAtHeight
  dsimp only
  split
  · intro other member
    obtain ⟨above, fresh, alive⟩ := attends other member
    exact ⟨above, fresh, alive⟩
  · next silent =>
    intro other member
    rcases List.mem_append.mp member with old | new
    · obtain ⟨above, fresh, alive⟩ := attends other old
      exact ⟨above, fresh, alive⟩
    · rw [List.mem_singleton.mp new]
      split at silent
      · cases silent
      split at silent
      · cases silent
      split at silent
      · cases silent
      split at silent
      · cases silent
      next low here alive fresh =>
      exact ⟨by show s.canonicalState.latestHeight < waiter.height; omega,
        Option.not_isSome_iff_eq_none.mp fresh, alive⟩

/-- A request that waits is not for a fork, so no fork that is dropped concerns it. -/
theorem Attends.advances (attends : Attends s) (forest : Forest env K s)
    (advances : Advances env s entry state s') : Attends s' := by
  obtain ⟨newHeight, -⟩ := forest.head advances
  have extended := advances.extends_.height
  obtain ⟨kept, dropped⟩ := prune_promote state
    (forest.tree.rooted.mono (by omega : _ ≤ entry.block.height))
  intro waiter member
  rw [advances.pendingHeightNotifys] at member
  obtain ⟨member, beyond⟩ := pending_notify member
  obtain ⟨waits, -⟩ := pending_notify member
  obtain ⟨-, fresh, alive⟩ := attends waiter waits
  have above : entry.block.height < waiter.height := by
    by_contra low
    rw [if_neg low] at beyond
    cases beyond
  refine ⟨by omega, ?_, ?_⟩
  · by_contra some_
    obtain ⟨fork, found⟩ := Option.ne_none_iff_exists'.mp some_
    rw [forkAt_congr advances.forkStates] at found
    have before := ((kept _ _ fork).mp found).1
    rw [fresh] at before
    cases before
  · rw [advances.deadForkDigests, dropped]
    rintro ⟨old | ⟨some_, -⟩, -⟩
    · exact alive old
    · rw [fresh] at some_
      cases some_

/-! ### Replies -/

/-- An answer that is right in a state: a confirmed block is the head or a fork, and one that is
denied at the height of the head or above it is barred. -/
def Right (s : Finalizer) (waiter : HeightNotify) (value : Bool) : Prop :=
  if value then
    waiter.height = s.canonicalState.latestHeight ∧
        waiter.digest = s.canonicalState.headDigest ∨
      (s.forkAt waiter.height waiter.digest).isSome = true
  else s.canonicalState.latestHeight ≤ waiter.height → Barred waiter.height waiter.digest s

theorem Right.quiet (right : Right s waiter value) (same : SameForks s s') :
    Right s' waiter value := by
  rw [Right, same.canonicalState, forkAt_congr same.forkStates, Barred, same.canonicalState,
    same.deadForkDigests]
  exact right

theorem Right.stores (right : Right s waiter value) :
    Right (s.called.storeFork block state) waiter value := by
  cases value with
  | false => exact right
  | true =>
    rcases right with head | fork
    · exact Or.inl head
    · refine Or.inr ?_
      rw [forkAt_storeFork]
      split
      · rfl
      · exact fork

/-- The answers given since `before` are right. -/
def Replies (before s : Finalizer) : Prop :=
  ∃ answers, s.notified = before.notified ++ answers ∧
    ∀ waiter value, (waiter, value) ∈ answers → Right s waiter value

theorem notified_notify
    (member : (waiter, value) ∈ s.pendingHeightNotifys.filterMap fun waiter =>
      (answer waiter).map (Prod.mk waiter)) :
    waiter ∈ s.pendingHeightNotifys ∧ answer waiter = some value := by
  obtain ⟨other, waits, same⟩ := List.mem_filterMap.mp member
  obtain ⟨value', known, same⟩ := Option.map_eq_some_iff.mp same
  obtain ⟨rfl, rfl⟩ := Prod.mk.inj same
  exact ⟨waits, known⟩

theorem Replies.stores (answers : Replies before s) :
    Replies before (s.called.storeFork block state) := by
  obtain ⟨given, same, right⟩ := answers
  refine ⟨_, (congrArg (· ++ _) same).trans (List.append_assoc _ _ _), fun waiter value member => ?_⟩
  rcases List.mem_append.mp member with old | new
  · exact (right waiter value old).stores
  · obtain ⟨-, known⟩ := notified_notify new
    obtain ⟨here, same⟩ := Option.ite_none_right_eq_some.mp known
    rw [← Option.some.inj same]
    refine Or.inr ?_
    rw [forkAt_storeFork, if_pos here]
    rfl

theorem Replies.works {mid : Finalizer} (answers : Replies before mid) (works : Works env K mid s) :
    Replies before s :=
  works.keeps (P := Replies before)
    (fun answers same => by
      obtain ⟨given, listed, right⟩ := answers
      exact ⟨given, same.notified.trans listed, fun waiter value member =>
        (right waiter value member).quiet same⟩)
    (fun answers _ _ => answers.stores) answers

theorem replies_notifyAtHeight (s : Finalizer) (waiter : HeightNotify) :
    Replies s (s.notifyAtHeight waiter) := by
  unfold notifyAtHeight
  dsimp only
  split
  · next value known =>
    refine ⟨[(waiter, value)], rfl, fun other given member => ?_⟩
    obtain ⟨rfl, rfl⟩ := Prod.mk.inj (List.mem_singleton.mp member)
    split at known
    · next low =>
      rw [← Option.some.inj known]
      exact fun high => absurd low (Nat.not_lt.mpr high)
    split at known
    · next here =>
      rw [← Option.some.inj known]
      by_cases same : other.digest = s.canonicalState.headDigest
      · rw [decide_eq_true same]
        exact Or.inl ⟨here, same⟩
      · rw [decide_eq_false same]
        exact fun _ => Or.inr (Or.inr ⟨here, same⟩)
    split at known
    · next dead =>
      rw [← Option.some.inj known]
      exact fun _ => Or.inl dead
    split at known
    · next fork =>
      rw [← Option.some.inj known]
      exact Or.inr fork
    · cases known
  · exact ⟨[], (List.append_nil _).symm, nofun⟩

theorem above_of_mem_deadForks {height level : Nat} {digest : Digest} {parents : List Digest}
    {levels : List (Nat × SortedMap Digest ForkState)}
    (member : (level, digest) ∈ deadForks height parents levels) : height < level := by
  induction levels generalizing parents with
  | nil => cases member
  | cons first rest ih =>
    rw [deadForks] at member
    split at member
    · exact ih member
    · next high =>
      rcases List.mem_append.mp member with here | later
      · obtain ⟨_, -, same⟩ := List.mem_map.mp here
        rw [← (Prod.mk.inj same).1]
        exact Nat.lt_of_not_le high
      · exact ih later

/-- **The answers of a finalized block.** -/
theorem replies_advances (forest : Forest env K s) (advances : Advances env s entry state s') :
    Replies s s' := by
  obtain ⟨newHeight, newHead⟩ := forest.head advances
  refine ⟨_, advances.notified.trans (List.append_assoc _ _ _), fun waiter value member => ?_⟩
  rcases List.mem_append.mp member with dead | passed
  · obtain ⟨-, known⟩ := notified_notify dead
    obtain ⟨listed, same⟩ := Option.ite_none_right_eq_some.mp known
    rw [← Option.some.inj same]
    refine fun _ => Or.inl ?_
    rw [advances.deadForkDigests]
    exact List.mem_filter.mpr ⟨List.mem_append_right _ listed,
      decide_eq_true (above_of_mem_deadForks listed)⟩
  · obtain ⟨-, known⟩ := notified_notify passed
    split at known
    · cases known
    next low =>
    by_cases here : waiter.height = entry.block.height ∧ waiter.digest = entry.block.digest
    · rw [← Option.some.inj known, decide_eq_true here]
      exact Or.inl ⟨here.1.trans newHeight.symm, here.2.trans newHead.symm⟩
    · rw [← Option.some.inj known, decide_eq_false here]
      refine fun high => Or.inr (Or.inr ⟨by omega, fun same => here ⟨by omega, ?_⟩⟩)
      exact same.trans newHead

/-- **Every event answers right.** -/
theorem replies_step (forest : Forest env K s) (held : s.Known K) (delivers : Delivers K s event)
    (result : s.step env event = some s') : Replies s s' := by
  obtain ⟨⟨mid, shows_, works⟩, -⟩ := shows_step held delivers result
  refine Replies.works ?_ works
  cases shows_ with
  | nothing _ same => exact ⟨[], same.notified.trans (List.append_nil _).symm, nofun⟩
  | request _ same =>
    rw [same]
    exact replies_notifyAtHeight s _
  | block _ advances => exact replies_advances forest advances

/-- **Along every run** the requests that wait are awaited. -/
theorem attends_of_reaches {start : ConsensusState}
    (injective : ∀ one two, K one → K two → one.digest = two.digest → one = two)
    (started : 0 < start.latestHeight) (reaches : Reaches env (Delivers K) (new start) s) :
    Forest env K s ∧ s.Known K ∧ Attends s := by
  have result := reaches.invariant_forks (P := fun t => Forest env K t ∧ Attends t)
    (fun inv same => ⟨inv.1.congr same.canonicalState same.forkStates same.deadForkDigests,
      inv.2.quiet same⟩)
    (fun inv known stores => ⟨inv.1.stores known stores, inv.2.stores⟩)
    (fun {t waiter} _ inv => by
      refine ⟨?_, inv.2.asks⟩
      obtain ⟨_, _, same⟩ := notifyAtHeight_frame t waiter
      rw [same]
      exact inv.1.congr rfl rfl rfl)
    (fun _ _ inv known advances =>
      ⟨inv.1.advances injective known advances, inv.2.advances inv.1 advances⟩)
    (fun allowed => allowed) ⟨⟨forest_new started, nofun⟩, known_new start⟩
  exact ⟨result.1.1, result.2, result.1.2⟩

end Notifications

end Finalizer

open Finalizer in
/-- **Height notifications are correct and final.** In every run from a canonical height above 0 over
blocks that differ in their digests, the requests made are those answered and those that wait, each
once; those that wait are for blocks above the head that are neither executed nor dead; and what the
next event answers is right: a block that is confirmed is the head or a fork, and a block that is
denied, not below the head, is never executed and never canonical. -/
theorem height_notifications [Crypto] (env : FinalizerEnv) (K : Block → Prop)
    (injective : ∀ one two, K one → K two → one.digest = two.digest → one = two)
    (start : ConsensusState) (started : 0 < start.latestHeight) (events : List Event)
    (known : ∀ event ∈ events, ∀ block ∈ event.blocks, K block) (s : Finalizer)
    (run : events.foldlM (Finalizer.step env) (Finalizer.new start) = some s) :
    (s.notified.map Prod.fst ++ s.pendingHeightNotifys).Perm (events.filterMap Event.request) ∧
    (∀ waiter ∈ s.pendingHeightNotifys, s.canonicalState.latestHeight < waiter.height ∧
      s.forkAt waiter.height waiter.digest = none ∧
      (waiter.height, waiter.digest) ∉ s.deadForkDigests) ∧
    ∀ event t, (∀ block ∈ event.blocks, K block) → s.step env event = some t →
      ∃ answers, t.notified = s.notified ++ answers ∧
        (∀ waiter, (waiter, true) ∈ answers →
          waiter.height = t.canonicalState.latestHeight ∧
              waiter.digest = t.canonicalState.headDigest ∨
            (t.forkAt waiter.height waiter.digest).isSome = true) ∧
        ∀ waiter, (waiter, false) ∈ answers → t.canonicalState.latestHeight ≤ waiter.height →
          ∀ later, Reaches env (Delivers K) t later →
            later.forkAt waiter.height waiter.digest = none ∧
              ¬(later.canonicalState.latestHeight = waiter.height ∧
                later.canonicalState.headDigest = waiter.digest) := by
  have reaches : Reaches env (Delivers K) (Finalizer.new start) s :=
    Run.reflTransGen_of_foldlM run fun _ _ event member result => ⟨event, known event member, result⟩
  obtain ⟨forest, held, attends⟩ := attends_of_reaches injective started reaches
  refine ⟨ledger_of_run run, fun waiter waits => ?_, fun event t delivers result => ?_⟩
  · obtain ⟨above, fresh, alive⟩ := attends waiter waits
    exact ⟨above, fresh, alive⟩
  · obtain ⟨answers, listed, right⟩ := replies_step forest held delivers result
    refine ⟨answers, listed, fun waiter member => right waiter true member,
      fun waiter member high later reaches' => ?_⟩
    have barred : Barred waiter.height waiter.digest t := right waiter false member high
    have step : Reaches env (Delivers K) s t := .single ⟨event, delivers, result⟩
    obtain ⟨forest', held', -⟩ := forest_of_reaches injective forest held step
    obtain ⟨forest'', -, keeps, -⟩ := forest_of_reaches injective forest' held' reaches'
    exact (keeps _ _ barred).absent forest''

attribute [local instance] Crypto.accepting

open Finalizer in
/-- Two requests wait for blocks of one height, and one of the blocks is finalized. -/
theorem height_notifications_rival :
    ∃ s t, [Event.notifyAtHeight ⟨9, (plainBlock 9).digest, 0⟩,
          .notifyAtHeight ⟨9, (rivalBlock 9).digest, 1⟩].foldlM (Finalizer.step acceptingEnv)
        (Finalizer.new endingState) = some s ∧
      s.step acceptingEnv (.finalizedBlock (plainEntry 9)) = some t ∧
      t.notified = [(⟨9, (plainBlock 9).digest, 0⟩, true), (⟨9, (rivalBlock 9).digest, 1⟩, false)] ∧
      ∀ later, Reaches acceptingEnv (Delivers (· ∈ [plainBlock 9, rivalBlock 9])) t later →
        later.forkAt 9 (rivalBlock 9).digest = none ∧
          ¬(later.canonicalState.latestHeight = 9 ∧
            later.canonicalState.headDigest = (rivalBlock 9).digest) := by
  have computed : ([Event.notifyAtHeight ⟨9, (plainBlock 9).digest, 0⟩,
      .notifyAtHeight ⟨9, (rivalBlock 9).digest, 1⟩].foldlM (Finalizer.step acceptingEnv)
        (Finalizer.new endingState)).bind (fun s =>
          (s.step acceptingEnv (.finalizedBlock (plainEntry 9))).map fun t =>
            (s.notified, t.notified, t.canonicalState.latestHeight)) =
      some ([], [(⟨9, (plainBlock 9).digest, 0⟩, true), (⟨9, (rivalBlock 9).digest, 1⟩, false)],
        9) := by decide +kernel
  obtain ⟨s, run, rest⟩ := Option.bind_eq_some_iff.mp computed
  obtain ⟨t, step, facts⟩ := Option.map_eq_some_iff.mp rest
  obtain ⟨none_, given, height⟩ : s.notified = _ ∧ t.notified = _ ∧ _ := by simpa using facts
  have injective : ∀ one ∈ [plainBlock 9, rivalBlock 9], ∀ two ∈ [plainBlock 9, rivalBlock 9],
      one.digest = two.digest → one = two := by decide
  obtain ⟨-, -, replies⟩ := height_notifications acceptingEnv (· ∈ [plainBlock 9, rivalBlock 9])
    (fun one two here there => injective one here two there) endingState (by decide) _ (by decide) s
    run
  obtain ⟨answers, listed, -, denied⟩ := replies (.finalizedBlock (plainEntry 9)) t (by decide) step
  rw [none_, List.nil_append, given] at listed
  refine ⟨s, t, run, step, given, denied ⟨9, (rivalBlock 9).digest, 1⟩ ?_ (by rw [height])⟩
  rw [← listed]
  exact List.mem_cons_of_mem _ List.mem_cons_self

end Summit
