/-
**What voters accept, the syncer takes.**

The application votes for a new block in the view of its header, and for the last block of an epoch
also when it is proposed again in a later view, where no check of the header is made. The syncer
takes a certificate in the view of the header, or in a later one for a block that its own lookup
places last in an epoch.

* `ProposedRun epocher epoch proposals` — the proposals of an epoch that voters accept, newest
  first, in increasing views, each on the block before the epoch or on one that was accepted.
* `Placed` — where an accepted block lies: its header is of the epoch, its view is at most the view
  it was accepted in, and it is smaller only for the last block of the epoch.
* `placed_of_proposed` — every accepted block is placed; the induction is over the views.
* `accepted_taken` — no check of the syncer refuses an accepted block for its round.
-/

import Summit.Model.Syncer
import Summit.Proof.Verification

set_option linter.unusedSectionVars false

namespace Summit

open Bytes DynamicEpocher Syncer

/-! ### The end of an epoch -/

namespace DynamicEpocher

variable {epocher : DynamicEpocher} {epoch first last height : Nat}

theorem last_eq_some_iff :
    epocher.last epoch = some last ↔ ∃ first, epocher.epochBounds epoch = some (first, last) := by
  rw [DynamicEpocher.last, Option.map_eq_some_iff]
  constructor
  · rintro ⟨⟨first, _⟩, found, rfl⟩
    exact ⟨first, found⟩
  · rintro ⟨first, found⟩
    exact ⟨(first, last), found, rfl⟩

theorem visible_of_epochBounds (found : epocher.epochBounds epoch = some (first, last)) :
    epoch ≤ epocher.currentEpoch + 1 := by
  by_contra beyond
  rw [DynamicEpocher.epochBounds, if_pos (by omega)] at found
  cases found

theorem Scheduled.containing_of_bounds (scheduled : Scheduled epocher)
    (found : epocher.epochBounds epoch = some (first, last)) (low : first ≤ height)
    (high : height ≤ last) : epocher.containing height = some ⟨epoch, height, first, last⟩ :=
  (scheduled.containing_iff height ⟨epoch, height, first, last⟩).mpr
    ⟨rfl, visible_of_epochBounds found, found, low, high⟩

/-- **The two ways to tell the last block of an epoch** agree: the end of the epoch is a height that
the lookup places last. -/
theorem Scheduled.isLastBlockOfEpoch_last (scheduled : Scheduled epocher)
    (found : epocher.epochBounds epoch = some (first, last)) (low : first ≤ last) :
    epocher.isLastBlockOfEpoch last = true := by
  rw [isLastBlockOfEpoch, scheduled.containing_of_bounds found low le_rfl]
  exact decide_eq_true rfl

/-- An epoch of a schedule of longer epochs has at least two heights, and the first one starts at
height zero. -/
theorem Scheduled.two_heights (scheduled : Scheduled epocher)
    (long : ∀ segment ∈ epocher.segments, 2 ≤ segment.length)
    (found : epocher.epochBounds epoch = some (first, last)) :
    first < last ∧ (epoch = 0 → first = 0) := by
  rw [DynamicEpocher.epochBounds, if_neg (Nat.not_lt.mpr (visible_of_epochBounds found))] at found
  obtain ⟨start, next, -⟩ := (bounds_eq_some_iff scheduled.linked).mp found
  obtain ⟨segment, governs, -, length, -⟩ := find?_startEpoch scheduled.linked epoch
  have two := long segment (List.mem_reverse.mp (List.mem_of_find?_eq_some governs))
  have step := firstHeight_succ scheduled.linked epoch
  change firstHeight epocher.newestFirst epoch = first at start
  change firstHeight epocher.newestFirst (epoch + 1) = last + 1 at next
  change segment.length = lengthAt epocher.newestFirst epoch at length
  refine ⟨by omega, ?_⟩
  rintro rfl
  rw [← start]
  exact firstHeight_zero scheduled.linked

end DynamicEpocher

/-! ### Accepted proposals -/

section Rounds

variable [Crypto] [Payloads]

structure Proposal where
  round : Round
  block : FullBlock
  parent : FullBlock

/-- A voter accepts the proposal. -/
def Proposal.Accepted (epocher : DynamicEpocher) (proposal : Proposal) : Prop :=
  ∃ signedParentView auxData nowMillis maxMessageSizeBytes,
    handleVerify proposal.round proposal.block proposal.parent signedParentView epocher auxData
      nowMillis maxMessageSizeBytes = some true

/-- The block before an epoch; the first epoch starts with the genesis block. -/
def BeforeEpoch (epocher : DynamicEpocher) (epoch : Nat) (block : FullBlock) : Prop :=
  epoch = 0 ∧ block.height = 0 ∨ epocher.first epoch = some (block.height + 1)

/-- The accepted proposals of an epoch, newest first. -/
inductive ProposedRun (epocher : DynamicEpocher) (epoch : Nat) : List Proposal → Prop
  | nil : ProposedRun epocher epoch []
  | cons {proposal : Proposal} {earlier : List Proposal} (before : ProposedRun epocher epoch earlier)
    (inEpoch : proposal.round.epoch = epoch)
    (later : ∀ other ∈ earlier, other.round.view < proposal.round.view)
    (parent : BeforeEpoch epocher epoch proposal.parent ∨
      ∃ other ∈ earlier, other.block = proposal.parent)
    (accepted : proposal.Accepted epocher) : ProposedRun epocher epoch (proposal :: earlier)

/-- A digest commits to the numbers of the header: a proposal whose block has the digest of its
parent has the parent's numbers. -/
def Proposal.DigestBinds (proposal : Proposal) : Prop :=
  proposal.parent.digest = proposal.block.digest →
    proposal.parent.height = proposal.block.height ∧ proposal.parent.view = proposal.block.view ∧
      proposal.parent.epoch = proposal.block.epoch

/-- Where an accepted block lies in its epoch. -/
structure Placed (epocher : DynamicEpocher) (epoch first last : Nat) (proposal : Proposal) :
    Prop where
  round : proposal.round.epoch = epoch
  epoch : proposal.block.epoch = epoch
  low : first ≤ proposal.block.height
  high : proposal.block.height ≤ last
  view : proposal.block.view ≤ proposal.round.view
  again : proposal.block.view < proposal.round.view → proposal.block.height = last

variable {epocher : DynamicEpocher} {epoch first last : Nat} {proposal : Proposal}

theorem Proposal.Accepted.cases (accepted : proposal.Accepted epocher)
    (inEpoch : proposal.round.epoch = epoch) :
    ∃ first last, epocher.epochBounds epoch = some (first, last) ∧
      (proposal.parent.digest = proposal.block.digest ∧ proposal.block.height = last ∨
        proposal.block.height ≤ last ∧ proposal.block.view = proposal.round.view ∧
          proposal.block.epoch = epoch ∧ proposal.block.height = proposal.parent.height + 1) := by
  obtain ⟨_, auxData, _, _, voted⟩ := accepted
  obtain ⟨same, -, last, ends, branch⟩ := handleVerify_eq_true.mp voted
  rw [← same, inEpoch] at ends
  obtain ⟨first, found⟩ := last_eq_some_iff.mp ends
  refine ⟨first, last, found, ?_⟩
  rcases branch with again | ⟨-, checks⟩
  · exact Or.inl again
  · exact Or.inr ⟨checks.inEpoch, checks.view, checks.epoch.trans inEpoch, checks.height⟩

theorem BeforeEpoch.below {parent : FullBlock} (before : BeforeEpoch epocher epoch parent)
    (found : epocher.epochBounds epoch = some (first, last)) (two : first < last)
    (genesis : epoch = 0 → first = 0) : parent.height < last ∧ first ≤ parent.height + 1 := by
  rcases before with ⟨zero, height⟩ | opens
  · have start := genesis zero
    omega
  · rw [DynamicEpocher.first, found, Option.map_some] at opens
    have start : first = parent.height + 1 := Option.some.inj opens
    omega

/-- One more proposal: a block proposed again is an accepted one, since the block before the epoch
does not end it. -/
theorem Placed.next (found : epocher.epochBounds epoch = some (first, last)) (two : first < last)
    (genesis : epoch = 0 → first = 0) {earlier : List Proposal}
    (placed : ∀ other ∈ earlier, Placed epocher epoch first last other)
    (inEpoch : proposal.round.epoch = epoch)
    (later : ∀ other ∈ earlier, other.round.view < proposal.round.view)
    (parent : BeforeEpoch epocher epoch proposal.parent ∨
      ∃ other ∈ earlier, other.block = proposal.parent)
    (accepted : proposal.Accepted epocher) (binds : proposal.DigestBinds) :
    Placed epocher epoch first last proposal := by
  obtain ⟨first', last', found', branch⟩ := accepted.cases inEpoch
  obtain ⟨rfl, rfl⟩ := Prod.mk.inj (Option.some.inj (found.symm.trans found'))
  rcases branch with ⟨again, ends⟩ | ⟨high, view, sameEpoch, height⟩
  · obtain ⟨sameHeight, sameView, sameEpoch⟩ := binds again
    rcases parent with before | ⟨other, member, same⟩
    · have below := (before.below found two genesis).1
      omega
    · have old := placed other member
      have oldEpoch := old.epoch
      have oldView := old.view
      rw [same] at oldEpoch oldView
      have newer := later other member
      exact ⟨inEpoch, sameEpoch ▸ oldEpoch, by omega, by omega, by omega, fun _ => ends⟩
  · refine ⟨inEpoch, sameEpoch, ?_, high, view.le, fun smaller => absurd view smaller.ne⟩
    rcases parent with before | ⟨other, member, same⟩
    · exact height ▸ (before.below found two genesis).2
    · have low := (placed other member).low
      rw [same] at low
      omega

/-- **Every accepted block is placed**, by induction over the views. -/
theorem placed_of_proposed (scheduled : Scheduled epocher)
    (long : ∀ segment ∈ epocher.segments, 2 ≤ segment.length)
    (found : epocher.epochBounds epoch = some (first, last)) {proposals : List Proposal}
    (proposed : ProposedRun epocher epoch proposals)
    (binds : ∀ proposal ∈ proposals, proposal.DigestBinds) :
    ∀ proposal ∈ proposals, Placed epocher epoch first last proposal := by
  obtain ⟨two, genesis⟩ := scheduled.two_heights long found
  induction proposed with
  | nil => exact fun _ member => nomatch member
  | @cons proposal earlier _ inEpoch later parent accepted ih =>
    have placed := ih fun other member => binds other (List.mem_cons_of_mem _ member)
    intro other member
    rcases List.mem_cons.mp member with rfl | old
    · exact Placed.next found two genesis placed inEpoch later parent accepted
        (binds _ List.mem_cons_self)
    · exact placed other old

/-- The proposals have an epoch with bounds as soon as there is one. -/
theorem ProposedRun.exists_bounds {proposals : List Proposal}
    (proposed : ProposedRun epocher epoch proposals) (member : proposal ∈ proposals) :
    ∃ first last, epocher.epochBounds epoch = some (first, last) := by
  induction proposed with
  | nil => cases member
  | cons _ inEpoch _ _ accepted ih =>
    rcases List.mem_cons.mp member with rfl | old
    · obtain ⟨first, last, found, -⟩ := accepted.cases inEpoch
      exact ⟨first, last, found⟩
    · exact ih old

theorem Placed.headerViewBinds (scheduled : Scheduled epocher)
    (found : epocher.epochBounds epoch = some (first, last))
    (placed : Placed epocher epoch first last proposal) :
    headerViewBindsToRound epocher proposal.block.height proposal.block.view
      proposal.round.view = true := by
  rw [headerViewBindsToRound, Bool.or_eq_true, Bool.and_eq_true, decide_eq_true_iff,
    decide_eq_true_iff]
  rcases placed.view.eq_or_lt with same | earlier
  · exact Or.inl same
  · have ends := placed.again earlier
    have low := placed.low
    refine Or.inr ⟨?_, earlier⟩
    rw [ends]
    exact scheduled.isLastBlockOfEpoch_last found (by omega)

/-! ### The checks of the syncer -/

variable {env : SyncerEnv} {certificate : Finalization}

/-- A certificate for an accepted block in the round it was accepted in. -/
structure Certifies (certificate : Finalization) (proposal : Proposal) : Prop where
  payload : certificate.payload = proposal.block.digest
  round : certificate.round = proposal.round

theorem Placed.bindsCertificate (scheduled : Scheduled epocher)
    (found : epocher.epochBounds epoch = some (first, last))
    (placed : Placed epocher epoch first last proposal) (certifies : Certifies certificate proposal) :
    bindsCertificate epocher proposal.block.digest proposal.block.toBlock certificate = true := by
  have round := certifies.round
  have view : certificate.view = proposal.round.view := congrArg Round.view round
  have inEpoch : certificate.epoch = proposal.round.epoch := congrArg Round.epoch round
  simp only [Syncer.bindsCertificate, Bool.and_eq_true, decide_eq_true_iff]
  refine ⟨⟨certifies.payload, ?_⟩, ?_⟩
  · exact placed.epoch.trans (placed.round.symm.trans inEpoch.symm)
  · rw [view]
    exact placed.headerViewBinds scheduled found

/-- A delivery for the height of the block is collected. -/
theorem Placed.deliverFinalized (scheduled : Scheduled epocher)
    (found : epocher.epochBounds epoch = some (first, last))
    (placed : Placed epocher epoch first last proposal) (certifies : Certifies certificate proposal)
    (fixed : ∀ now, env.epocher now = epocher) (scheme : ∀ now, env.scheme now epoch = true)
    (response : Mailbox.Responder) (s : Syncer) :
    ((handleDeliver env (.finalized proposal.block.height
      (some (certificate, proposal.block.toBlock))) response).exec s).1 =
        some (some (.finalized certificate proposal.block.toBlock response)) := by
  have binds := placed.bindsCertificate scheduled found certifies
  simp only [Syncer.bindsCertificate, Bool.and_eq_true, decide_eq_true_iff] at binds
  obtain ⟨⟨payload, sameEpoch⟩, view⟩ := binds
  have inEpoch : certificate.epoch = epoch := sameEpoch.symm.trans placed.epoch
  have contains := scheduled.containing_of_bounds found placed.low placed.high
  have checks : proposal.block.toBlock.height = proposal.block.height ∧
      certificate.payload = proposal.block.toBlock.digest ∧ certificate.epoch = epoch ∧
      proposal.block.toBlock.epoch = certificate.epoch ∧
      headerViewBindsToRound epocher proposal.block.toBlock.height proposal.block.toBlock.view
        certificate.view = true := ⟨rfl, payload, inEpoch, sameEpoch, view⟩
  simp only [handleDeliver, Act.exec_bind, exec_ask, fixed, contains, scheme, Bool.not_true,
    Bool.false_eq_true, if_false, if_pos checks, Act.exec_pure]

/-- A delivery for the round of the block is collected. -/
theorem Placed.deliverNotarized (scheduled : Scheduled epocher)
    (found : epocher.epochBounds epoch = some (first, last))
    (placed : Placed epocher epoch first last proposal) (certifies : Certifies certificate proposal)
    (fixed : ∀ now, env.epocher now = epocher) (scheme : ∀ now, env.scheme now epoch = true)
    (response : Mailbox.Responder) (s : Syncer) :
    ((handleDeliver env (.notarized proposal.round
      (some (certificate, proposal.block.toBlock))) response).exec s).1 =
        some (some (.notarized certificate proposal.block.toBlock response)) := by
  have binds := placed.bindsCertificate scheduled found certifies
  simp only [Syncer.bindsCertificate, Bool.and_eq_true, decide_eq_true_iff] at binds
  obtain ⟨⟨payload, sameEpoch⟩, view⟩ := binds
  have checks : certificate.round = proposal.round ∧
      certificate.payload = proposal.block.toBlock.digest ∧
      proposal.block.toBlock.epoch = certificate.epoch ∧
      headerViewBindsToRound epocher proposal.block.toBlock.height proposal.block.toBlock.view
        certificate.view = true := ⟨certifies.round, payload, sameEpoch, view⟩
  simp only [handleDeliver, Act.exec_bind, exec_ask, fixed, placed.round, scheme, Bool.not_true,
    Bool.false_eq_true, if_false, if_pos checks, Act.exec_pure]

end Rounds

/-- **What voters accept, the syncer takes**: an accepted block is of the epoch of its round, its
header fits the view of the round, and a certificate for it in that round passes the checks of a
finalized delivery, of a notarized delivery and of the store. -/
theorem accepted_taken [Crypto] [Payloads] {epocher : DynamicEpocher} (scheduled : Scheduled epocher)
    (long : ∀ segment ∈ epocher.segments, 2 ≤ segment.length) {epoch : Nat}
    {proposals : List Proposal} (proposed : ProposedRun epocher epoch proposals)
    (binds : ∀ proposal ∈ proposals, proposal.DigestBinds) :
    ∀ proposal ∈ proposals,
      proposal.block.epoch = proposal.round.epoch ∧
      headerViewBindsToRound epocher proposal.block.height proposal.block.view
        proposal.round.view = true ∧
      ∀ certificate, Certifies certificate proposal →
        bindsCertificate epocher proposal.block.digest proposal.block.toBlock certificate = true ∧
        ∀ (env : SyncerEnv) (response : Mailbox.Responder) (s : Syncer),
          (∀ now, env.epocher now = epocher) → (∀ now, env.scheme now epoch = true) →
          ((handleDeliver env (.finalized proposal.block.height
            (some (certificate, proposal.block.toBlock))) response).exec s).1 =
              some (some (.finalized certificate proposal.block.toBlock response)) ∧
          ((handleDeliver env (.notarized proposal.round
            (some (certificate, proposal.block.toBlock))) response).exec s).1 =
              some (some (.notarized certificate proposal.block.toBlock response)) := by
  intro proposal member
  obtain ⟨first, last, found⟩ := proposed.exists_bounds member
  have placed := placed_of_proposed scheduled long found proposed binds proposal member
  refine ⟨placed.epoch.trans placed.round.symm, placed.headerViewBinds scheduled found,
    fun certificate certifies => ⟨placed.bindsCertificate scheduled found certifies, ?_⟩⟩
  intro env response s fixed scheme
  exact ⟨placed.deliverFinalized scheduled found certifies fixed scheme response s,
    placed.deliverNotarized scheduled found certifies fixed scheme response s⟩

/-! ### A block proposed twice -/

attribute [local instance] Crypto.summing Payloads.plain

/-- The schedule of epochs of two blocks. -/
def pairEpocher : DynamicEpocher := .new 2 (by decide)

/-- The last block of the first epoch, on the genesis block. -/
def secondBlock : FullBlock := plainChild zeroChunk zeroChunk 1 none zeroChunk

def secondAuxData : BlockAuxData where
  epoch := 0
  withdrawals := []
  checkpointHash := none
  headerHash := zeroChunk
  addedValidators := []
  removedValidators := []
  forkchoice := ⟨zeroChunk, zeroChunk, zeroChunk⟩
  suggestedFeeRecipient := FixedBytes.zero 20
  treasuryAddress := FixedBytes.zero 20
  stateRoot := zeroChunk
  allowedTimestampFutureMs := 1000

/-- The block is accepted in its view, and again in the next two. -/
def secondProposals : List Proposal :=
  [⟨⟨0, 3⟩, secondBlock, secondBlock⟩, ⟨⟨0, 2⟩, secondBlock, secondBlock⟩,
    ⟨⟨0, 1⟩, secondBlock, FullBlock.genesis zeroChunk⟩]

theorem proposed_secondProposals : ProposedRun pairEpocher 0 secondProposals := by
  have once : ProposedRun pairEpocher 0 [⟨⟨0, 1⟩, secondBlock, FullBlock.genesis zeroChunk⟩] :=
    .cons .nil rfl (fun _ member => nomatch member) (Or.inl (Or.inl ⟨rfl, rfl⟩))
      ⟨0, secondAuxData, 1000, 100000, by decide +kernel⟩
  have twice : ProposedRun pairEpocher 0 [⟨⟨0, 2⟩, secondBlock, secondBlock⟩,
      ⟨⟨0, 1⟩, secondBlock, FullBlock.genesis zeroChunk⟩] :=
    .cons once rfl (by simp) (Or.inr ⟨_, List.mem_cons_self, rfl⟩)
      ⟨0, secondAuxData, 1000, 100000, by decide +kernel⟩
  exact .cons twice rfl (by simp) (Or.inr ⟨_, List.mem_cons_self, rfl⟩)
    ⟨0, secondAuxData, 1000, 100000, by decide +kernel⟩

/-- The last block of the first epoch, accepted in view one, binds to view three. -/
theorem accepted_taken_again :
    secondBlock.epoch = 0 ∧ secondBlock.view = 1 ∧
      headerViewBindsToRound pairEpocher secondBlock.height secondBlock.view 3 = true := by
  have taken := accepted_taken (DynamicEpocher.scheduled_new (by decide)) (by decide)
    proposed_secondProposals (by
      intro proposal member
      simp only [secondProposals, List.mem_cons, List.not_mem_nil, or_false] at member
      rcases member with rfl | rfl | rfl
      · exact fun _ => ⟨rfl, rfl, rfl⟩
      · exact fun _ => ⟨rfl, rfl, rfl⟩
      · exact fun same => absurd same (by decide +kernel)) _ List.mem_cons_self
  exact ⟨taken.1, rfl, taken.2.1⟩

end Summit
