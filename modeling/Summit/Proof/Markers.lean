/-
**Full exits are queued and paid.**

A validator that has asked for everything waits for an entry of amount zero, its marker. The marker
is pushed with the request that makes the account exiting (`Change.exit`, `Change.retire`), and is
consumed by the payout that empties and deletes the account:

* `Marked`: every exiting account has a marker with its own key and address, after every step
  (`marked_of_reaches`);
* `remaining_of_marker`: once a marker is settled nothing is left;
* `restatus_exiting`: the boundary makes an account exiting only if it was before.

Whoever is active or joining has no marker (`Lifecycle`).
-/

import Summit.Proof.Floor

set_option linter.unusedSectionVars false

namespace Summit

/-- The account waits for a full payout. -/
def ValidatorStatus.isExiting : ValidatorStatus → Bool
  | .submittedExitRequest | .fullPayoutPending => true
  | _ => false

section Markers

variable [Crypto]

/-- The account has a marker in the list: a validator entry of amount zero with its key and
address. -/
def MarkedIn (entries : List PendingWithdrawal) (pubkey : Bytes32) (account : ValidatorAccount) :
    Prop :=
  ∃ entry ∈ entries, entry.inner.amount = 0 ∧ entry.Consumes pubkey account

/-- Every exiting account has a marker. -/
def StateData.Marked (data : StateData) : Prop :=
  ∀ pubkey account, data.getAccount pubkey = some account → account.status.isExiting = true →
    MarkedIn data.withdrawalQueue.withdrawals pubkey account

/-! ### Changes -/

variable {pubkey : Bytes32} {account : ValidatorAccount} {data data' : StateData}
  {warmUp delay n : Nat} {s s' start : LiveState} {key : PublicKey} {phase phase' : Phase}
  {guard : EpochState → EpochEvent → Prop} {reached : EpochState}

theorem MarkedIn.mono {entries entries' : List PendingWithdrawal} {account' : ValidatorAccount}
    (marked : MarkedIn entries pubkey account) (part : ∀ entry ∈ entries, entry ∈ entries')
    (address : account'.withdrawalCredentials = account.withdrawalCredentials) :
    MarkedIn entries' pubkey account' := by
  obtain ⟨entry, member, all, kind, mine, same⟩ := marked
  exact ⟨entry, part entry member, all, kind, mine, same.trans address.symm⟩

theorem StateData.Marked.putAccount (marked : data.Marked)
    (new : account.status.isExiting = true →
      MarkedIn data.withdrawalQueue.withdrawals pubkey account) :
    (data.putAccount pubkey account).Marked := by
  intro other holder found exiting
  rw [StateData.getAccount, StateData.putAccount, SortedMap.find?_insert] at found
  split at found
  · next same =>
    subst same
    obtain rfl := Option.some.inj found
    exact new exiting
  · exact marked other holder found exiting

theorem StateData.Marked.putExiting (marked : data.Marked) (pubkey : Bytes32)
    (account : ValidatorAccount) (delay : Nat) :
    ((data.putAccount pubkey account).pushEntry account.withdrawalCredentials pubkey 0 delay
      .validator).Marked := by
  intro other holder found exiting
  have queue : ((data.putAccount pubkey account).pushEntry account.withdrawalCredentials pubkey 0
      delay .validator).withdrawalQueue.withdrawals = _ :=
    WithdrawalQueue.withdrawals_pushRequest_validator _ _ _
  rw [queue]
  change (data.putAccount pubkey account).getAccount other = some holder at found
  rw [StateData.getAccount, StateData.putAccount, SortedMap.find?_insert] at found
  split at found
  · next same =>
    subst same
    obtain rfl := Option.some.inj found
    exact ⟨_, List.mem_append_right _ (List.mem_singleton_self _), rfl, rfl, rfl, rfl⟩
  · exact (marked other holder found exiting).mono (fun entry => List.mem_append_left _) rfl

theorem Change.marked (change : Change warmUp delay data n data') (marked : data.Marked) :
    data'.Marked := by
  cases change with
  | refund address amount positive =>
    intro pubkey account found exiting
    have queue : (data.pushEntry address (Bytes.FixedBytes.zero 32) n delay
        .depositRefund).withdrawalQueue.withdrawals = data.withdrawalQueue.withdrawals :=
      WithdrawalQueue.withdrawals_pushRequest_refund _ _ _
    rw [queue]
    exact marked pubkey account found exiting
  | credit request account credits =>
    refine marked.putAccount fun exiting => ?_
    rcases credits with found | ⟨-, inactive, -⟩
    · exact (marked _ account found exiting).mono (fun _ member => member) rfl
    · rw [ValidatorAccount.credit, inactive] at exiting
      cases exiting
  | join request account =>
    have put : (data.putAccount request.nodePubkey.val
        ((account.credit request).joinAt (data.epoch + warmUp))).Marked :=
      marked.putAccount fun exiting => by cases exiting
    exact put
  | exit key account found active accepted =>
    have listed : { data with
        removedValidators := data.removedValidators ++ [key]
        pendingActiveValidatorExits :=
          saturatingAdd data.pendingActiveValidatorExits 1 }.Marked := marked
    exact listed.putExiting key.val (account.withStatus .submittedExitRequest) delay
  | cancel pubkey account =>
    have put : (data.putAccount pubkey (account.withStatus .inactive)).Marked :=
      marked.putAccount fun exiting => by cases exiting
    exact put
  | retire pubkey account =>
    exact marked.putExiting pubkey (account.withStatus .fullPayoutPending) delay
  | withdraw pubkey account amount =>
    intro other holder found exiting
    have queue : (data.pushEntry account.withdrawalCredentials pubkey amount delay
        .validator).withdrawalQueue.withdrawals = _ :=
      WithdrawalQueue.withdrawals_pushRequest_validator _ _ _
    rw [queue]
    exact (marked other holder found exiting).mono (fun entry => List.mem_append_left _) rfl

theorem Removal.marked {minStake : Nat} (removal : Removal minStake data n data')
    (marked : data.Marked) : data'.Marked := by
  cases removal with
  | cancel pubkey account =>
    have put : (data.putAccount pubkey (account.withStatus .inactive)).Marked :=
      marked.putAccount fun exiting => nomatch exiting
    exact put
  | stage => exact marked

/-! ### Payouts -/

section Pay

variable {minStake : Nat} {pubkey : Bytes32} {account : ValidatorAccount}

variable {entry : PendingWithdrawal} {ahead behind : List PendingWithdrawal}

/-- A marker takes the whole balance. -/
theorem settle_of_marker (all : entry.inner.amount = 0) (consumes : entry.Consumes pubkey account)
    (balance : Nat) : settle minStake pubkey account balance entry = 0 := by
  rw [settle, if_pos consumes, withdrawalPayoutAmount, consumes.1]
  rw [if_pos all, Nat.sub_self]

theorem remaining_of_marker (all : entry.inner.amount = 0)
    (consumes : entry.Consumes pubkey account) :
    remaining minStake pubkey account (ahead ++ entry :: behind) = 0 := by
  rw [remaining, List.foldl_append, List.foldl_cons]
  refine Run.invariant_foldl (P := (· = 0)) (fun _ later _ zero => ?_) (settle_of_marker all consumes _)
  rw [zero]
  exact settle_zero later

/-- **A settled marker deletes the account.** -/
theorem find?_debitAll_of_marker {accounts : SortedMap Bytes32 ValidatorAccount}
    {entries : List PendingWithdrawal} (found : accounts.find? pubkey = some account)
    (marked : MarkedIn entries pubkey account) :
    (debitAll minStake accounts entries).find? pubkey = none := by
  obtain ⟨entry, member, all, consumes⟩ := marked
  obtain ⟨ahead, behind, rfl⟩ := List.append_of_mem member
  rw [find?_debitAll found, if_pos ⟨⟨entry, member, consumes⟩, remaining_of_marker all consumes⟩]

/-- What a marker emits is what is left of the account. -/
theorem mem_emit_of_marker {data : StateData} (found : data.getAccount pubkey = some account)
    {behind : List PendingWithdrawal} (all : entry.inner.amount = 0)
    (consumes : entry.Consumes pubkey account)
    (left : 0 < remaining data.prospectiveMinimumStake pubkey account ahead) :
    { entry.inner with
        amount := remaining data.prospectiveMinimumStake pubkey account ahead } ∈
      (data.emitAll (ahead ++ entry :: behind)).2 := by
  induction behind using List.reverseRecOn with
  | nil =>
    rw [StateData.emitAll_concat, emitEntry_of_consumes found consumes]
    dsimp only
    rw [running_getD found, withdrawalPayoutAmount, consumes.1]
    rw [if_pos all, if_pos left]
    exact List.mem_append_right _ (List.mem_singleton_self _)
  | append_singleton behind later ih =>
    rw [← List.cons_append, ← List.append_assoc, StateData.emitAll_concat]
    unfold StateData.emitEntry
    split
    · exact List.mem_append_left _ ih
    split
    · exact ih
    split
    · exact ih
    dsimp only
    split
    · exact List.mem_append_left _ ih
    · exact ih

end Pay

/-- Payouts keep the marker of whoever they leave the account. -/
theorem PaidOff.marked
    {due validators refunds laterValidators laterRefunds : List PendingWithdrawal}
    (entries : due = validators ++ refunds)
    (front : data.withdrawalQueue.withdrawals = validators ++ laterValidators)
    (paid : PaidOff data.prospectiveMinimumStake data data' due laterValidators laterRefunds)
    (marked : data.Marked) : data'.Marked := by
  intro pubkey after here exiting
  rw [paid.validators]
  rw [StateData.getAccount, paid.data] at here
  cases found : data.validatorAccounts.find? pubkey with
  | none =>
    rw [find?_debitAll_of_none found] at here
    cases here
  | some account =>
    have same : account.withdrawalCredentials = after.withdrawalCredentials ∧
        account.status = after.status := by
      rw [find?_debitAll found] at here
      split at here
      · cases here
      · obtain rfl := Option.some.inj here
        exact ⟨rfl, rfl⟩
    obtain ⟨entry, member, all, consumes⟩ := marked pubkey account found (same.2 ▸ exiting)
    rw [front] at member
    rcases List.mem_append.mp member with settled | later
    · have gone : (debitAll data.prospectiveMinimumStake data.validatorAccounts due).find? pubkey =
          none := by
        refine find?_debitAll_of_marker found ⟨entry, ?_, all, consumes⟩
        rw [entries]
        exact List.mem_append_left _ settled
      cases gone.symm.trans here
    · exact ⟨entry, later, all, consumes.1, consumes.2.1, consumes.2.2.trans same.1⟩

/-! ### The boundary -/

/-- An account is exiting only if it was before. -/
def KeepsExiting (_pubkey : Bytes32) (before after : ValidatorStatus) : Prop :=
  after.isExiting = true → before.isExiting = true

theorem keepsExiting_refl (pubkey : Bytes32) (status : ValidatorStatus) :
    KeepsExiting pubkey status status := fun exiting => exiting

theorem restatus_exiting_trans {first second third : SortedMap Bytes32 ValidatorAccount}
    (one : Restatus KeepsExiting first second) (two : Restatus KeepsExiting second third) :
    Restatus KeepsExiting first third :=
  one.trans two fun _ _ _ _ early late exiting => early (late exiting)

theorem restatus_exiting_activate {validator : AddedValidator}
    (result : s.activate validator = some s') :
    Restatus KeepsExiting s.validatorAccounts s'.validatorAccounts := by
  obtain ⟨account, found, rfl⟩ := Option.map_eq_some_iff.mp result
  rw [LiveState.data_setAccount]
  have active : KeepsExiting validator.nodeKey.val account.status .active :=
    fun exiting => nomatch exiting
  exact restatus_insert found active fun other status _ => keepsExiting_refl other status

theorem restatus_exiting_depart (s : LiveState) (key : PublicKey) :
    Restatus KeepsExiting s.validatorAccounts (s.depart key).validatorAccounts := by
  unfold LiveState.depart
  split
  · exact Restatus.refl keepsExiting_refl _
  · next account found =>
    rw [LiveState.data_setAccount]
    refine restatus_insert found (fun exiting => ?_) fun other status _ =>
      keepsExiting_refl other status
    by_cases submitted : account.status = .submittedExitRequest
    · rw [submitted]
      rfl
    · rw [if_neg submitted] at exiting
      cases exiting

/-- **The transition** makes nobody exiting who was not. -/
theorem restatus_exiting {result : LiveState × Bool}
    (applied : s.applyCommitteeTransition key = some result) :
    Restatus KeepsExiting s.validatorAccounts result.1.validatorAccounts := by
  exact LiveState.applyCommitteeTransition_rule (P := fun t : LiveState =>
      Restatus KeepsExiting s.validatorAccounts t.validatorAccounts) applied
    (Restatus.refl keepsExiting_refl _)
    (fun _ _ _ held step => restatus_exiting_trans held (restatus_exiting_activate step))
    fun t key held => restatus_exiting_trans held (restatus_exiting_depart t key)

theorem StateData.Marked.boundary {digest : Digest} {checkpoint : Option Checkpoint}
    (marked : s.Marked) (result : s.boundary key digest = some (s', checkpoint)) : s'.Marked := by
  have crosses := crosses_boundary result
  obtain ⟨changed, moved, applied, transition, rfl⟩ := boundary_eq_some result
  have same := (applyProtocolParameterChanges_stores applied).1
  have restatus := restatus_exiting transition
  rw [show changed.1.validatorAccounts = s.validatorAccounts by rw [same]] at restatus
  intro pubkey account found exiting
  rw [crosses.withdrawals]
  simp only [LiveState.takePendingCheckpoint, data_enterNextEpoch,
    LiveState.data_setPendingCheckpoint, StateData.getAccount] at found
  obtain ⟨before, there, after, kept⟩ := restatus.of_some_after found
  refine (marked pubkey before there (kept exiting)).mono (fun _ member => member) ?_
  rw [after]
  rfl

/-! ### Runs -/

theorem EpochStep.marked (step : EpochStep warmUp delay data phase phase' data')
    (inside : phase = .paid → phase' ≠ .collecting) (marked : data.Marked) : data'.Marked := by
  cases step with
  | touch phase same =>
    rw [same]
    exact marked
  | process accepted moves =>
    refine moves.invariant (P := StateData.Marked) (fun before m after move held => ?_) marked
    cases move with
    | change change => exact change.marked held
    | deposits queue => exact held
  | keep | drop => exact marked
  | remove _ removals =>
    exact removals.invariant (fun before m after removal held => removal.marked held) marked
  | pay due front frontRefunds paid => exact paid.marked due front marked
  | cross => exact absurd rfl (inside rfl)

/-- **Every exiting account has its marker**, in every state of a run from genesis. -/
theorem marked_of_reaches (genesis : start.AtGenesis)
    (reaches : EpochState.Reaches warmUp delay guard ⟨.collecting, start⟩ reached) :
    reached.live.Marked := by
  have none_ : start.Marked := by
    intro pubkey account found exiting
    rw [genesis.active pubkey account found] at exiting
    cases exiting
  exact reaches.invariant_boundary (P := fun _ data => data.Marked) EpochStep.marked
    (fun crossed held => held.boundary crossed) genesis.indexed none_

/-! ### Refunds -/

/-- No refund is of nothing. -/
def StateData.PositiveRefunds (data : StateData) : Prop :=
  ∀ entry ∈ data.withdrawalQueue.refunds, 0 < entry.inner.amount

theorem Change.positiveRefunds (change : Change warmUp delay data n data')
    (positive : data.PositiveRefunds) : data'.PositiveRefunds := by
  rcases change.queue with same | ⟨request, kind, pushed, refund⟩
  · rw [StateData.PositiveRefunds, same]
    exact positive
  · rw [StateData.PositiveRefunds, pushed]
    cases kind with
    | validator =>
      rw [WithdrawalQueue.refunds_pushRequest_validator]
      exact positive
    | depositRefund =>
      rw [WithdrawalQueue.refunds_pushRequest_refund]
      intro entry member
      rcases List.mem_append.mp member with old | new
      · exact positive entry old
      · rw [List.mem_singleton.mp new]
        exact refund rfl

theorem EpochStep.positiveRefunds (step : EpochStep warmUp delay data phase phase' data')
    (positive : data.PositiveRefunds) : data'.PositiveRefunds := by
  cases step with
  | touch phase same =>
    rw [same]
    exact positive
  | process accepted moves =>
    refine moves.invariant (P := StateData.PositiveRefunds) (fun before m after move held => ?_)
      positive
    cases move with
    | change change => exact change.positiveRefunds held
    | deposits queue => exact held
  | keep | drop => exact positive
  | remove _ removals =>
    rw [StateData.PositiveRefunds, removals.settings.2.2]
    exact positive
  | pay due front frontRefunds paid =>
    intro entry member
    rw [paid.refunds] at member
    exact positive entry (frontRefunds ▸ List.mem_append_right _ member)
  | cross crosses =>
    rw [StateData.PositiveRefunds, crosses.withdrawals]
    exact positive

theorem positiveRefunds_of_reaches (genesis : start.AtGenesis)
    (reaches : EpochState.Reaches warmUp delay guard ⟨.collecting, start⟩ reached) :
    reached.live.PositiveRefunds := by
  have none_ : start.PositiveRefunds := by
    intro entry member
    rw [genesis.withdrawals] at member
    cases member
  exact reaches.invariant (P := fun _ data => data.PositiveRefunds)
    (fun _ _ step held => step.positiveRefunds held) genesis.indexed none_

/-- Whoever is active or joining has not asked for everything. -/
theorem amount_ne_zero_of_seated {view : KeyView} (life : Lifecycle phase view)
    (found : view.account = some account) (seated : account.status.isActiveOrJoining = true)
    {entry : PendingWithdrawal} (member : entry ∈ view.entries) : entry.inner.amount ≠ 0 := by
  have status := KeyView.status_of_some found
  cases kind : account.status with
  | active =>
    rw [kind] at status
    exact Nat.ne_of_gt (life.orderly.partials status entry member)
  | joining =>
    rw [kind] at status
    rw [life.orderly.quiet status] at member
    cases member
  | _ =>
    rw [kind] at seated
    cases seated

end Markers

/-- **No exit is forgotten, and none is paid early.** In every state of a run from genesis, whoever
is exiting has a queued entry of amount zero with its own key and withdrawal address, and whoever is
active or joining has none. When the payouts consume such an entry, and its address is the one of the
account, they emit what is left of the account and delete it. -/
theorem exits_marked [Crypto] {warmUp delay : Nat} {start : LiveState} (genesis : start.AtGenesis)
    {reached : EpochState} (run : EpochState.Run warmUp delay start reached) :
    (∀ pubkey account, reached.live.getAccount pubkey = some account →
      account.status = .submittedExitRequest ∨ account.status = .fullPayoutPending →
      ∃ entry ∈ reached.live.withdrawalQueue.withdrawals, entry.kind = .validator ∧
        entry.inner.amount = 0 ∧ entry.pubkey = pubkey ∧
        entry.inner.address = account.withdrawalCredentials) ∧
    (∀ pubkey account, reached.live.getAccount pubkey = some account →
      account.status = .active ∨ account.status = .joining →
      ∀ entry ∈ reached.live.withdrawalQueue.iterAll, entry.pubkey = pubkey →
        entry.inner.amount ≠ 0) ∧
    ∀ epoch payouts paid, reached.live.applyWithdrawalPayouts epoch payouts = some paid →
      ∀ ahead entry behind, reached.live.dueEntries epoch = ahead ++ entry :: behind →
        entry.kind = .validator → entry.inner.amount = 0 →
        ∀ account, reached.live.getAccount entry.pubkey = some account →
          entry.inner.address = account.withdrawalCredentials →
          paid.getAccount entry.pubkey = none ∧
          reached.live.emittedFor epoch entry.pubkey = account.balance ∧
          let left := remaining reached.live.prospectiveMinimumStake entry.pubkey account ahead
          0 < left → { entry.inner with amount := left } ∈ payouts := by
  have indexed := EpochState.Reaches.indexed run genesis.indexed
  refine ⟨fun pubkey account found exits => ?_, fun pubkey account found seated entry member mine => ?_,
    fun epoch payouts paid applied ahead entry behind due kind all account found address => ?_⟩
  · have exiting : account.status.isExiting = true := by
      rcases exits with submitted | pending
      · rw [submitted]
        rfl
      · rw [pending]
        rfl
    obtain ⟨entry, member, all, kind, mine, address⟩ :=
      marked_of_reaches genesis run pubkey account found exiting
    exact ⟨entry, member, kind, all, mine, address⟩
  · rcases List.mem_append.mp member with validator | refund
    · refine amount_ne_zero_of_seated (lifecycle_of_reaches genesis run pubkey) found ?_
        (List.mem_filter.mpr ⟨validator, decide_eq_true mine⟩)
      rcases seated with active | joining
      · rw [active]
        rfl
      · rw [joining]
        rfl
    · exact Nat.ne_of_gt (positiveRefunds_of_reaches genesis run entry refund)
  · have consumes : entry.Consumes entry.pubkey account := ⟨kind, rfl, address⟩
    have emitted : reached.live.emitWithdrawalPayouts epoch = payouts := by
      by_contra differ
      rw [LiveState.applyWithdrawalPayouts, if_pos differ] at applied
      cases applied
    subst emitted
    rw [applyWithdrawalPayouts_emitted] at applied
    obtain rfl := Option.some.inj applied
    obtain ⟨_, _, _, _, -, -, -, off⟩ := exists_paidOff reached.live epoch indexed.unique
    refine ⟨?_, ?_, fun left => ?_⟩
    · rw [StateData.getAccount, off.data]
      refine find?_debitAll_of_marker found ⟨entry, ?_, all, consumes⟩
      rw [due]
      exact List.mem_append_right _ List.mem_cons_self
    · have total := emittedFor_add_remaining indexed.unique epoch found
      rw [due, remaining_of_marker all consumes] at total
      exact total
    · rw [StateData.emitWithdrawalPayouts, due]
      exact mem_emit_of_marker found all consumes left

attribute [local instance] Crypto.accepting

/-- The validator that left one epoch ago still waits for its marker. -/
theorem exits_marked_left :
    (pairGenesis 32 40 40).AtGenesis ∧
    ∃ reached account, (wholeEpoch [exitRequest]).foldlM (EpochState.step 2 2)
        ⟨.collecting, pairGenesis 32 40 40⟩ = some reached ∧
      reached.live.getAccount zeroChunk = some account ∧
      account.status = .fullPayoutPending ∧
      ∃ entry ∈ reached.live.withdrawalQueue.withdrawals, entry.kind = .validator ∧
        entry.inner.amount = 0 ∧ entry.pubkey = zeroChunk ∧
        entry.inner.address = account.withdrawalCredentials := by
  have genesis := atGenesis_pairGenesis 32 40 40
  have computed : ((wholeEpoch [exitRequest]).foldlM (EpochState.step 2 2)
        ⟨.collecting, pairGenesis 32 40 40⟩).map
        (fun s => s.live.getAccount zeroChunk) =
      some (some { stakedAccount with status := .fullPayoutPending }) := by
    decide +kernel
  obtain ⟨reached, run, found⟩ := Option.map_eq_some_iff.mp computed
  exact ⟨genesis, reached, _, run, found, rfl,
    (exits_marked genesis (EpochState.reaches_of_foldlM run fun _ _ _ => trivial)).1 _ _ found
      (Or.inr rfl)⟩

end Summit
