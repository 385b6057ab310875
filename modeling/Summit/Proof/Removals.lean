/-
**The removal list and the exit budget.**

From the processing of its requests to the boundary, an epoch keeps a list of those who leave and a
count of them, to which voluntary exits are added one by one and those below a raised minimum stake
as a group. Both agree:

* `Doomed`: whoever is listed has an account, and has submitted an exit or is active below the
  prospective minimum stake;
* `length_removed_le`: the list has no more keys than the epoch has signers, so the count does not
  saturate;
* `Budgeted`: the count is the length of the list.
-/

import Summit.Proof.Floor
import Summit.Proof.ParamBounds

set_option linter.unusedSectionVars false

namespace Summit

section Removals

variable [Crypto]

/-! ### Who is listed -/

/-- Whoever is listed has submitted an exit, or is active below the prospective minimum. -/
def KeyView.Doomed (view : KeyView) : Prop :=
  0 < view.departures → ∃ account, view.account = some account ∧
    (account.status = .submittedExitRequest ∨
      account.status = .active ∧ account.balance < view.prospectiveStake)

variable {view view' : KeyView} {delay warmUp n minStake : Nat} {pubkey : Bytes32}
  {phase phase' : Phase} {data data' : StateData} {start : LiveState} {reached : EpochState}

/-- While requests are processed only exits are listed. -/
theorem doomed_of_leaving (leaving : view.Leaving .processed) : view.Doomed := by
  intro leaves
  rw [KeyView.Leaving] at leaving
  split at leaving
  · next submitted =>
    obtain ⟨account, found, status⟩ := Option.map_eq_some_iff.mp submitted
    exact ⟨account, found, Or.inl status⟩
  · omega

theorem KeyRemoval.doomed (removal : KeyRemoval view.prospectiveStake view view')
    (doomed : view.Doomed) : view'.Doomed := by
  cases removal with
  | cancel account found joining =>
    intro leaves
    obtain ⟨other, here, status⟩ := doomed leaves
    obtain rfl := Option.some.inj (found.symm.trans here)
    rw [joining] at status
    rcases status with submitted | ⟨active, -⟩
    · cases submitted
    · cases active
  | stage account found active below => exact fun _ => ⟨account, found, Or.inr ⟨active, below⟩⟩

theorem doomed_of_removals
    (removals : Relation.ReflTransGen (KeyRemoval view.prospectiveStake) view view')
    (doomed : view.Doomed) : view'.Doomed := by
  have kept : view'.Doomed ∧ view'.prospectiveStake = view.prospectiveStake := by
    induction removals with
    | refl => exact ⟨doomed, rfl⟩
    | tail _ last ih =>
      refine ⟨KeyRemoval.doomed (ih.2 ▸ last) ih.1, last.stakes.2.trans ih.2⟩
  exact kept.1

/-- Payouts leave whoever is listed the account, with no more than before. -/
theorem doomed_pay (late : 1 ≤ delay) {due entries : List PendingWithdrawal}
    (backed : view.Backed delay)
    (member : ∀ entry ∈ due, entry.kind = .validator → entry.pubkey = pubkey →
      entry ∈ view.entries ∧ entry.epoch ≤ view.epoch) (floor : 0 < view.prospectiveStake)
    (doomed : view.Doomed) : (view.pay pubkey due entries).Doomed := by
  intro leaves
  obtain ⟨account, found, status⟩ := doomed leaves
  have signs : account.status.isCurrentEpochSigner = true := by
    rcases status with submitted | ⟨active, -⟩
    · rw [submitted]
      rfl
    · rw [active]
      rfl
  have paid := paid_of_signer backed found signs (Or.inr late) member floor
  refine ⟨_, (account_pay_of_some found).trans paid, status.imp_right fun both => ⟨both.1, ?_⟩⟩
  exact lt_of_le_of_lt (remaining_le _) both.2

theorem KeyStep.doomed (late : 1 ≤ delay)
    (step : KeyStep warmUp delay pubkey view phase phase' view') (life : Lifecycle phase view)
    (backed : view.Backed delay)
    (floor : phase = .staged → phase' = .paid → 0 < view.prospectiveStake) (doomed : view.Doomed) :
    view'.Doomed := by
  have after := (step.lifecycle life).leaving
  cases step with
  | touch => exact doomed
  | process => exact doomed_of_leaving after
  | retain => exact doomed_of_leaving life.leaving
  | remove removals => exact doomed_of_removals removals doomed
  | pay due entries member rest => exact doomed_pay late backed member (floor rfl rfl) doomed
  | cross after passes => exact fun leaves => absurd leaves (Nat.lt_irrefl 0)

/-! ### The list -/

section Listed

variable {data : StateData}

theorem KeyView.Leaving.departures_le {view : KeyView} {phase : Phase}
    (leaving : view.Leaving phase) : view.departures ≤ 1 := by
  cases phase with
  | collecting => rw [leaving.1]; exact Nat.zero_le 1
  | processed =>
    rw [leaving]
    split <;> omega
  | staged | paid => exact leaving.1

theorem nodup_removed (once : ∀ pubkey, (data.keyView pubkey).departures ≤ 1) :
    (data.removedValidators.map fun key => key.val).Nodup := by
  refine List.nodup_iff_count_le_one.mpr fun pubkey => le_of_eq_of_le ?_ (once pubkey)
  rw [List.count_eq_countP, List.countP_map]
  refine List.countP_congr fun key _ => ?_
  simp only [Function.comp_apply, beq_iff_eq, decide_eq_true_eq]

/-- The signers of the epoch. -/
def StateData.signerCount (data : StateData) : Nat :=
  data.countStatus ValidatorStatus.isCurrentEpochSigner

/-- **Everybody listed is another signer.** -/
theorem length_removed_le (leaving : ∀ pubkey, (data.keyView pubkey).Leaving .staged) :
    data.removedValidators.length ≤ data.signerCount := by
  have nodup := nodup_removed fun pubkey => (leaving pubkey).departures_le
  rw [← List.length_map (fun key : PublicKey => key.val)]
  refine SortedMap.length_le_count nodup fun pubkey member => ?_
  obtain ⟨key, listed, rfl⟩ := List.mem_map.mp member
  have signs := (leaving key.val).2.2 ((departures_pos_iff key.val).mpr ⟨key, listed, rfl⟩)
  cases found : (data.keyView key.val).account with
  | none =>
    rw [KeyView.status, found] at signs
    cases signs
  | some account =>
    rw [KeyView.status_of_some found] at signs
    exact ⟨account, found, signs⟩

end Listed

/-! ### The budget -/

/-- The count is the length of the list, and does not saturate. -/
structure Budgeted (data : StateData) : Prop where
  exits : data.pendingActiveValidatorExits = data.removedValidators.length
  small : data.signerCount < 2 ^ 64

theorem budgeted_of_push {key : PublicKey} (budgeted : Budgeted data)
    (signers : data'.signerCount = data.signerCount)
    (removed : data'.removedValidators = data.removedValidators ++ [key])
    (exits : data'.pendingActiveValidatorExits = saturatingAdd data.pendingActiveValidatorExits 1)
    (leaving : ∀ pubkey, (data'.keyView pubkey).Leaving .staged) : Budgeted data' := by
  have small := budgeted.small
  have fits := length_removed_le leaving
  refine ⟨?_, signers ▸ small⟩
  rw [signers] at fits
  rw [removed, List.length_append, List.length_singleton] at fits ⊢
  rw [exits, budgeted.exits, saturatingAdd, u64Max]
  omega

theorem Change.signerCount (change : Change warmUp delay data n data') :
    data'.signerCount = data.signerCount := by
  rw [StateData.signerCount, StateData.signerCount, countStatus_signers, countStatus_signers]
  rcases change.counts with ⟨active, exiting, -⟩ | ⟨-, active, exiting, -⟩
  · rw [active, exiting]
  · omega

theorem Change.leaving (change : Change warmUp delay data n data')
    (leaving : ∀ pubkey, (data.keyView pubkey).Leaving .processed) (pubkey : Bytes32) :
    (data'.keyView pubkey).Leaving .processed := by
  have moves := change.keyMoves pubkey
  generalize data'.keyView pubkey = view' at moves
  induction moves with
  | refl => exact leaving pubkey
  | tail _ last ih => exact last.leaving ih

theorem Change.budgeted (change : Change warmUp delay data n data')
    (leaving : ∀ pubkey, (data.keyView pubkey).Leaving .processed) (budgeted : Budgeted data) :
    Budgeted data' := by
  have signers := change.signerCount
  have after (pubkey : Bytes32) := (change.leaving leaving pubkey).staged
  cases change with
  | exit key account found active accepted => exact budgeted_of_push budgeted signers rfl rfl after
  | refund | credit | join | cancel | retire | withdraw =>
    exact ⟨budgeted.exits, signers ▸ budgeted.small⟩

theorem budgeted_of_moves (moves : Moves warmUp delay data n data')
    (leaving : ∀ pubkey, (data.keyView pubkey).Leaving .processed) (budgeted : Budgeted data) :
    Budgeted data' := by
  refine (moves.invariant (P := fun data =>
    (∀ pubkey, (data.keyView pubkey).Leaving .processed) ∧ Budgeted data)
    (fun before m after move held => ?_) ⟨leaving, budgeted⟩).2
  cases move with
  | change change => exact ⟨change.leaving held.1, change.budgeted held.1 held.2⟩
  | deposits queue => exact ⟨held.1, held.2.exits, held.2.small⟩

theorem Removal.signerCount (removal : Removal minStake data n data') :
    data'.signerCount = data.signerCount := by
  cases removal with
  | cancel pubkey account found joining =>
    exact countStatus_putAccount (Or.inl ⟨account, found, by rw [joining]; rfl⟩)
  | stage => rfl

theorem Removal.leaving (removal : Removal minStake data n data')
    (leaving : ∀ pubkey, (data.keyView pubkey).Leaving .staged) (pubkey : Bytes32) :
    (data'.keyView pubkey).Leaving .staged := by
  have removals := Removals.keyRemovals (.single removal) pubkey
  generalize data'.keyView pubkey = view' at removals
  induction removals with
  | refl => exact leaving pubkey
  | tail _ last ih => exact last.leaving ih

theorem Removal.budgeted (removal : Removal minStake data n data')
    (leaving : ∀ pubkey, (data.keyView pubkey).Leaving .staged) (budgeted : Budgeted data) :
    Budgeted data' := by
  have signers := removal.signerCount
  have after (pubkey : Bytes32) := removal.leaving leaving pubkey
  cases removal with
  | stage key account found active below fresh =>
    exact budgeted_of_push budgeted signers rfl rfl after
  | cancel => exact ⟨budgeted.exits, signers ▸ budgeted.small⟩

theorem budgeted_of_removals (removals : Removals minStake data n data')
    (leaving : ∀ pubkey, (data.keyView pubkey).Leaving .staged) (budgeted : Budgeted data) :
    Budgeted data' :=
  (removals.invariant (P := fun data =>
    (∀ pubkey, (data.keyView pubkey).Leaving .staged) ∧ Budgeted data)
    (fun _ _ _ removal held => ⟨removal.leaving held.1, removal.budgeted held.1 held.2⟩)
    ⟨leaving, budgeted⟩).2

/-! ### Steps and runs -/

theorem removed_of_collecting (life : ∀ pubkey, Lifecycle .collecting (data.keyView pubkey)) :
    data.removedValidators = [] := by
  refine List.eq_nil_iff_forall_not_mem.mpr fun key member => ?_
  have leaves := (departures_pos_iff key.val).mpr ⟨key, member, rfl⟩
  rw [(life key.val).leaving.1] at leaves
  cases leaves

/-- At the start of an epoch the signers are the active ones, who have their seats. -/
theorem signerCount_of_collecting (life : ∀ pubkey, Lifecycle .collecting (data.keyView pubkey)) :
    data.signerCount ≤ data.activeOrJoiningValidatorCount := by
  refine SortedMap.count_le_count fun pubkey account found signs => ⟨account, found, ?_⟩
  have staying := (life pubkey).leaving.2
  rw [KeyView.status_of_some found] at staying
  cases status : account.status with
  | active | joining => rfl
  | submittedExitRequest => exact absurd (congrArg some status) staying
  | _ =>
    rw [status] at signs
    cases signs

/-- The count is the length of the list. -/
structure Counted (phase : Phase) (data : StateData) : Prop where
  exits : data.pendingActiveValidatorExits = data.removedValidators.length
  small : phase = .processed → data.signerCount < 2 ^ 64

/-- **A step keeps the count.** -/
theorem EpochStep.counted (step : EpochStep warmUp delay data phase phase' data')
    (life : ∀ pubkey, Lifecycle phase (data.keyView pubkey)) (capped : Capped phase data)
    (bounded : data.InBounds) (counted : Counted phase data) : Counted phase' data' := by
  cases step with
  | touch phase same =>
    rw [same]
    exact ⟨counted.exits, counted.small⟩
  | @process batch _ _ accepted moves =>
    have seats : data.maxValidatorCount ≤ maxMaxValidatorCount :=
      (bounded.stored (.maxValidatorCount data.maxValidatorCount) (by simp [StateData.storedParams])).2
    have small : data.signerCount < 2 ^ 64 :=
      calc data.signerCount ≤ data.activeOrJoiningValidatorCount := signerCount_of_collecting life
        _ ≤ data.maxValidatorCount := capped.seated_stored
        _ ≤ maxMaxValidatorCount := seats
        _ < 2 ^ 64 := by decide
    have start : Budgeted (data.queueParams batch) := ⟨counted.exits, small⟩
    have processed := budgeted_of_moves moves (fun pubkey => ?_) start
    · exact ⟨processed.exits, fun _ => processed.small⟩
    · obtain ⟨none_, staying⟩ := (life pubkey).leaving
      rw [keyView_queueParams, KeyView.Leaving]
      exact none_.trans (if_neg staying).symm
  | keep => exact ⟨counted.exits, fun same => by cases same⟩
  | drop => exact ⟨counted.exits, fun same => by cases same⟩
  | remove _ removals =>
    have start : Budgeted data := ⟨counted.exits, counted.small rfl⟩
    have staged := budgeted_of_removals removals (fun pubkey => (life pubkey).leaving.staged) start
    exact ⟨staged.exits, fun same => by cases same⟩
  | pay due front frontRefunds paid =>
    rw [paid.data]
    exact ⟨counted.exits, fun same => by cases same⟩
  | cross crosses =>
    refine ⟨?_, fun same => by cases same⟩
    rw [crosses.exits, crosses.removed]
    rfl

theorem counted_of_reaches {guard : EpochState → EpochEvent → Prop} (genesis : start.AtGenesis)
    (ordered : start.minimumValidatorCount ≤ start.maxValidatorCount)
    (seated : start.validatorAccounts.size ≤ start.maxValidatorCount) (bounded : start.InBounds)
    (reaches : EpochState.Reaches warmUp delay guard ⟨.collecting, start⟩ reached) :
    Counted reached.phase reached.live.toStateData := by
  induction reaches with
  | refl =>
    refine ⟨?_, nofun⟩
    rw [genesis.exits, genesis.removed]
    rfl
  | tail before last ih =>
    obtain ⟨event, -, result⟩ := last
    have indexed := EpochState.Reaches.indexed before genesis.indexed
    exact (epochStep_of_step indexed result).1.counted (lifecycle_of_reaches genesis before)
      (capped_of_reaches genesis ordered seated before) (inBounds_of_reaches genesis bounded before)
      ih

theorem doomed_of_reaches (late : 1 ≤ delay) (genesis : start.AtGenesis)
    (reaches : EpochState.Reaches warmUp delay FlooredPayouts ⟨.collecting, start⟩ reached)
    (pubkey : Bytes32) : (reached.live.keyView pubkey).Doomed := by
  induction reaches with
  | refl =>
    intro leaves
    have none_ := (genesis.lifecycle pubkey).leaving.1
    exact absurd leaves (by rw [none_]; exact Nat.lt_irrefl 0)
  | tail before last ih =>
    obtain ⟨event, allowed, result⟩ := last
    have indexed := EpochState.Reaches.indexed before genesis.indexed
    refine (keyStep_of_epochStep pubkey (epochStep_of_step indexed result).1).doomed late
      (lifecycle_of_reaches genesis before pubkey) (backed_of_reaches genesis before pubkey)
      (fun staged paid => ?_) ih
    have passes := EpochState.passes_of_step result
    rw [staged, paid] at passes
    exact allowed passes.payouts

end Removals

/-- **The removal list and the exit budget agree.** In a run with positive minimum stakes from a
valid genesis: between the processing of an epoch's requests and the boundary the list has no key
twice, the count is its length, it has everybody who has submitted an exit, and whoever is in it
has an account that has submitted one or is active below the prospective minimum. At any other
time the list and the count are empty and nobody has submitted an exit. -/
theorem removals_agree [Crypto] {warmUp delay : Nat} (late : 1 ≤ delay) {start : LiveState}
    (genesis : start.AtGenesis) (positive : 0 < start.validatorMinimumStake)
    (ordered : start.minimumValidatorCount ≤ start.maxValidatorCount)
    (seated : start.validatorAccounts.size ≤ start.maxValidatorCount) (bounded : start.InBounds)
    {reached : EpochState}
    (run : EpochState.Reaches warmUp delay PositiveStakes ⟨.collecting, start⟩ reached) :
    (reached.phase ≠ .collecting →
      reached.live.removedValidators.Nodup ∧
      reached.live.removedValidators.length = reached.live.pendingActiveValidatorExits ∧
      (∀ pubkey account, reached.live.getAccount pubkey = some account →
        account.status = .submittedExitRequest →
        ∃ key ∈ reached.live.removedValidators, key.val = pubkey) ∧
      ∀ key ∈ reached.live.removedValidators, ∃ account,
        reached.live.getAccount key.val = some account ∧
        (account.status = .submittedExitRequest ∨
          account.status = .active ∧ account.balance < reached.live.prospectiveMinimumStake)) ∧
    (reached.phase = .collecting →
      reached.live.removedValidators = [] ∧ reached.live.pendingActiveValidatorExits = 0 ∧
      ∀ pubkey account, reached.live.getAccount pubkey = some account →
        account.status ≠ .submittedExitRequest) := by
  have floored := (floored_of_positive genesis positive run).1
  have life := lifecycle_of_reaches genesis run
  have counted := counted_of_reaches genesis ordered seated bounded run
  constructor
  · intro inside
    refine ⟨(nodup_removed fun pubkey => (life pubkey).leaving.departures_le).of_map _,
      counted.exits.symm, fun pubkey account found submitted => ?_, fun key member => ?_⟩
    · have leaving := (life pubkey).leaving
      have status : (reached.live.keyView pubkey).status = some .submittedExitRequest := by
        rw [KeyView.status_of_some found, submitted]
      have listed : (reached.live.keyView pubkey).departures = 1 := by
        cases phase : reached.phase with
        | collecting => exact absurd phase inside
        | processed =>
          rw [phase, KeyView.Leaving, if_pos status] at leaving
          exact leaving
        | staged | paid =>
          rw [phase] at leaving
          exact leaving.2.1 status
      exact (departures_pos_iff pubkey).mp (listed ▸ Nat.zero_lt_one)
    · exact doomed_of_reaches late genesis floored key.val
        ((departures_pos_iff key.val).mpr ⟨key, member, rfl⟩)
  · intro outside
    rw [outside] at life
    have none_ := removed_of_collecting life
    refine ⟨none_, by rw [counted.exits, none_]; rfl, fun pubkey account found submitted => ?_⟩
    refine (life pubkey).leaving.2 ?_
    rw [KeyView.status_of_some found, submitted]

attribute [local instance] Crypto.accepting

/-- One of two validators leaves. -/
theorem removals_agree_exit :
    ∃ reached, (epochUntilBoundary [exitRequest]).foldlM (EpochState.positiveStep 2 2)
        ⟨.collecting, boundedGenesis 32 40 40⟩ = some reached ∧
      reached.phase ≠ .collecting ∧ reached.live.removedValidators ≠ [] ∧
      reached.live.removedValidators.length = reached.live.pendingActiveValidatorExits := by
  have positive : 0 < (boundedGenesis 32 40 40).validatorMinimumStake := by decide +kernel
  have ordered : (boundedGenesis 32 40 40).minimumValidatorCount ≤
      (boundedGenesis 32 40 40).maxValidatorCount := by decide +kernel
  have seated : (boundedGenesis 32 40 40).validatorAccounts.size ≤
      (boundedGenesis 32 40 40).maxValidatorCount := by decide +kernel
  have computed : ((epochUntilBoundary [exitRequest]).foldlM (EpochState.positiveStep 2 2)
        ⟨.collecting, boundedGenesis 32 40 40⟩).map
        (fun s => (s.phase, s.live.removedValidators)) =
      some (.paid, [⟨zeroChunk, rfl⟩]) := by
    decide +kernel
  obtain ⟨reached, run, facts⟩ := Option.map_eq_some_iff.mp computed
  obtain ⟨phase, removed⟩ := by simpa only [Prod.mk.injEq] using facts
  have inside : reached.phase ≠ .collecting := by
    rw [phase]
    nofun
  refine ⟨reached, run, inside, by rw [removed]; nofun, ?_⟩
  exact ((removals_agree (by decide : 1 ≤ 2) (atGenesis_boundedGenesis 32 40 40) positive ordered
    seated (inBounds_boundedGenesis (by decide) 40 40)
      (EpochState.reaches_of_positiveStep run)).1 inside).2.1

end Summit
