/-
**Withdrawal requests, all or nothing.**

A withdrawal request is turned down without a trace, or appends one entry. Some ways to turn it down
come after a joining account was made inactive and taken off the schedule; they are never taken,
since a joining account has a positive balance (`Funded`) and so always gets its entry.

* `Accepts`: everything that an accepted request changes, as one equation of the data, and the
  bounds on the amount;
* `applyWithdrawalRequest_cases`: unchanged, or accepted;
* `applyWithdrawalRequest_refused`: when it is unchanged for certain.
-/

import Summit.Proof.Floor

set_option linter.unusedSectionVars false

namespace Summit

/-- The status after a request that is accepted. -/
def ValidatorStatus.afterRequest (status : ValidatorStatus) (full : Bool) : ValidatorStatus :=
  match status, full with
  | .active, true => .submittedExitRequest
  | .active, false => .active
  | _, true => .fullPayoutPending
  | _, false => .inactive

section WithdrawalRequests

variable [Crypto]

/-! ### What an accepted request does -/

/-- The request is accepted for `account` and queues `amount`. -/
structure LiveState.Accepts (s : LiveState) (request : WithdrawalRequest) (delay : Nat)
    (account : ValidatorAccount) (amount : Nat) (s' : LiveState) : Prop where
  found : s.getAccount request.validatorPubkey = some account
  owner : request.sourceAddress = account.withdrawalCredentials
  /-- Zero for a full exit. -/
  full : request.amount = 0 → amount = 0
  /-- A part of the balance, over the minimum stake for an active account. -/
  part : request.amount ≠ 0 → 0 < amount ∧ amount ≤ request.amount ∧ amount ≤ account.balance ∧
    (account.status = .active → s.validatorMinimumStake ≤ account.balance - amount)
  /-- The list of those who leave gets the key of an active account that asks for everything. -/
  removed : s'.alreadyRemoved = s.alreadyRemoved ++
    if account.status = .active ∧ request.amount = 0 then [request.validatorPubkey] else []
  /-- Nothing else changes. -/
  data : s'.toStateData =
    { s.toStateData with
      withdrawalQueue := s.withdrawalQueue.pushRequestWithKind
        { sourceAddress := account.withdrawalCredentials
          validatorPubkey := request.validatorPubkey
          amount } (s.epoch + delay) .validator
      validatorAccounts := s.validatorAccounts.insert request.validatorPubkey
        (account.withStatus (account.status.afterRequest (request.amount = 0)))
      addedValidators := if account.status = .joining then
          s.unscheduled request.validatorPubkey account
        else s.addedValidators
      removedValidators := s'.removedValidators
      pendingActiveValidatorExits := if account.status = .active ∧ request.amount = 0 then
          saturatingAdd s.pendingActiveValidatorExits 1
        else s.pendingActiveValidatorExits }

theorem withStatus_self (account : ValidatorAccount) : account.withStatus account.status = account :=
  rfl

section Cases

variable {s : LiveState} {request : WithdrawalRequest} {account : ValidatorAccount}
  (delay : Nat) (found : s.getAccount request.validatorPubkey = some account)
  (owner : request.sourceAddress = account.withdrawalCredentials)

include found owner

theorem accepts_withdrawActive (active : account.status = .active) :
    s.withdrawActive request.validatorPubkey account request.amount (s.epoch + delay) = (s, false) ∨
      ∃ amount, s.Accepts request delay account amount
        (s.withdrawActive request.validatorPubkey account request.amount (s.epoch + delay)).1 := by
  have other : account.status ≠ .joining := by
    rw [active]
    nofun
  unfold LiveState.withdrawActive
  dsimp only
  split
  · next full =>
    split
    · exact Or.inl rfl
    split
    · exact Or.inl rfl
    next key decoded =>
    refine Or.inr ⟨0, found, owner, fun _ => rfl, fun some_ => absurd full some_, ?_, ?_⟩
    · have data := LiveState.data_enqueueWithdrawal
        ((s.pushRemovedValidator key).incrementPendingActiveValidatorExits.setAccount
          request.validatorPubkey { account with status := .submittedExitRequest })
        account.withdrawalCredentials request.validatorPubkey 0 (s.epoch + delay)
      rw [StateData.alreadyRemoved, data, if_pos ⟨active, full⟩]
      simp only [LiveState.data_setAccount, LiveState.data_incrementPendingActiveValidatorExits,
        LiveState.data_pushRemovedValidator, List.map_append, List.map_cons, List.map_nil]
      rw [PublicKey.decode_eq_some decoded]
      rfl
    · rw [if_neg other, if_pos ⟨active, full⟩]
      simp only [LiveState.data_enqueueWithdrawal, LiveState.data_setAccount,
        LiveState.data_incrementPendingActiveValidatorExits, LiveState.data_pushRemovedValidator,
        active, full, decide_true, ValidatorStatus.afterRequest]
      rfl
  · next some_ =>
    split
    · exact Or.inl rfl
    next positive =>
    refine Or.inr ⟨min request.amount (account.balance - s.validatorMinimumStake), found, owner,
      fun full => absurd full some_, fun _ => ?_, ?_, ?_⟩
    · omega
    · rw [if_neg fun both => some_ both.2, List.append_nil, StateData.alreadyRemoved,
        LiveState.data_enqueueWithdrawal]
      rfl
    · rw [if_neg other, if_neg fun both => some_ both.2, active]
      simp only [LiveState.data_enqueueWithdrawal, some_, decide_false,
        ValidatorStatus.afterRequest]
      rw [← active, withStatus_self, SortedMap.insert_of_find? found]

/-- The request of an inactive account, or of a joining one that was made inactive first. -/
theorem accepts_withdrawInactive {mid : LiveState}
    (idle : account.status = .inactive ∨ account.status = .joining)
    (data : mid.toStateData =
      { s.toStateData with
        validatorAccounts := s.validatorAccounts.insert request.validatorPubkey
          (account.withStatus .inactive)
        addedValidators := if account.status = .joining then
            s.unscheduled request.validatorPubkey account
          else s.addedValidators }) :
    (mid.withdrawInactive request.validatorPubkey (account.withStatus .inactive) request.amount
        (s.epoch + delay) = (mid, false) ∧ account.balance = 0) ∨
      ∃ amount, s.Accepts request delay account amount
        (mid.withdrawInactive request.validatorPubkey (account.withStatus .inactive) request.amount
          (s.epoch + delay)).1 := by
  have passive : account.status ≠ .active := by
    rcases idle with inactive | joining
    · rw [inactive]
      nofun
    · rw [joining]
      nofun
  have stays : ¬ (account.status = .active ∧ request.amount = 0) := fun both => passive both.1
  have status (full : Bool) : account.status.afterRequest full =
      if full then .fullPayoutPending else .inactive := by
    rcases idle with inactive | joining
    · rw [inactive]
      cases full <;> rfl
    · rw [joining]
      cases full <;> rfl
  unfold LiveState.withdrawInactive
  dsimp only
  split
  · next full =>
    refine Or.inr ⟨0, found, owner, fun _ => rfl, fun some_ => absurd full some_, ?_, ?_⟩
    · rw [if_neg stays, List.append_nil, StateData.alreadyRemoved,
        LiveState.data_enqueueWithdrawal, LiveState.data_setAccount, data]
      rfl
    · rw [if_neg stays, LiveState.data_enqueueWithdrawal,
        LiveState.data_setAccount, data, status]
      simp only [full, decide_true, if_true]
      rw [SortedMap.insert_insert]
      rfl
  · next some_ =>
    split
    · next zero => exact Or.inl ⟨rfl, by change min _ account.balance = 0 at zero; omega⟩
    next positive =>
    have positive : min request.amount account.balance ≠ 0 := positive
    refine Or.inr ⟨min request.amount account.balance, found, owner,
      fun full => absurd full some_, fun _ => ?_, ?_, ?_⟩
    · exact ⟨by omega, by omega, by omega, fun active => absurd active passive⟩
    · rw [if_neg stays, List.append_nil, StateData.alreadyRemoved,
        LiveState.data_enqueueWithdrawal, data]
      rfl
    · rw [if_neg stays, LiveState.data_enqueueWithdrawal, data, status]
      simp only [some_, decide_false, Bool.false_eq_true, if_false]
      rfl

end Cases

/-- **A request is turned down or accepted**; or it takes a joining account that has nothing off the
schedule. -/
theorem applyWithdrawalRequestDeferred_cases (s : LiveState) (request : WithdrawalRequest)
    (delay : Nat) :
    s.applyWithdrawalRequestDeferred request delay = (s, false) ∨
    (∃ account, s.getAccount request.validatorPubkey = some account ∧ account.status = .joining ∧
      account.balance = 0 ∧ s.applyWithdrawalRequestDeferred request delay =
        (s.cancelJoining request.validatorPubkey account, false)) ∨
    ∃ account amount, s.Accepts request delay account amount
      (s.applyWithdrawalRequestDeferred request delay).1 := by
  unfold LiveState.applyWithdrawalRequestDeferred
  dsimp only
  split
  · exact Or.inl rfl
  next account found =>
  split
  · exact Or.inl rfl
  next owner =>
  have owner := not_not.mp owner
  split
  · exact Or.inl rfl
  next staying =>
  split
  · exact Or.inl rfl
  split
  · next active =>
    exact (accepts_withdrawActive delay found owner active).imp_right fun accepts =>
      Or.inr ⟨account, accepts⟩
  next passive =>
  split
  · next joining =>
    have data := data_cancelJoining s request.validatorPubkey account
    rcases accepts_withdrawInactive delay found owner (Or.inr joining)
      (data.trans (by rw [if_pos joining]; rfl)) with ⟨refused, zero⟩ | accepts
    · exact Or.inr (Or.inl ⟨account, found, joining, zero, refused⟩)
    · exact Or.inr (Or.inr ⟨account, accepts⟩)
  · next waiting =>
    have inactive : account.status = .inactive := by
      cases status : account.status <;> simp_all
    have same : account.withStatus .inactive = account := by rw [← inactive, withStatus_self]
    have data : s.toStateData = { s.toStateData with
        validatorAccounts := s.validatorAccounts.insert request.validatorPubkey
          (account.withStatus .inactive)
        addedValidators := if account.status = .joining then
            s.unscheduled request.validatorPubkey account
          else s.addedValidators } := by
      rw [if_neg waiting, same, SortedMap.insert_of_find? found]
    have cases_ := accepts_withdrawInactive delay found owner (Or.inl inactive) data
    rw [same] at cases_
    exact cases_.imp And.left fun accepts => Or.inr ⟨account, accepts⟩

theorem applyWithdrawalRequest_cases (s : LiveState) (request : WithdrawalRequest) (delay : Nat)
    (funded : ∀ account, s.getAccount request.validatorPubkey = some account →
      account.status = .joining → 0 < account.balance) :
    s.applyWithdrawalRequest request delay = s ∨ ∃ account amount,
      s.Accepts request delay account amount (s.applyWithdrawalRequest request delay) := by
  -- rebuilding the subtree of the queue at the end does not matter to the data
  have flushed := LiveState.data_flushWithdrawals (s.applyWithdrawalRequestDeferred request delay)
  unfold LiveState.applyWithdrawalRequest
  rcases applyWithdrawalRequestDeferred_cases s request delay with
    same | ⟨account, found, joining, zero, -⟩ | ⟨account, amount, accepts⟩
  · rw [same]
    exact Or.inl rfl
  · exact absurd zero (Nat.ne_of_gt (funded account found joining))
  · refine Or.inr ⟨account, amount, accepts.found, accepts.owner, accepts.full, accepts.part, ?_, ?_⟩
    · rw [StateData.alreadyRemoved, flushed]
      exact accepts.removed
    · rw [flushed]
      exact accepts.data

variable {s : LiveState} {account : ValidatorAccount} {view view' : KeyView} {warmUp delay : Nat}
  {pubkey : Bytes32}

/-- When a request is turned down for certain. -/
theorem applyWithdrawalRequest_refused {request : WithdrawalRequest} (delay : Nat)
    (found : s.getAccount request.validatorPubkey = some account)
    (reason : request.sourceAddress ≠ account.withdrawalCredentials ∨
      account.status = .submittedExitRequest ∨ account.status = .fullPayoutPending ∨
      s.maxPendingWithdrawalsPerValidator ≤
        s.withdrawalQueue.pendingCount request.validatorPubkey ∨
      account.status = .active ∧ request.amount = 0 ∧ s.canAcceptActiveValidatorExit = false) :
    s.applyWithdrawalRequest request delay = s := by
  have refused : s.applyWithdrawalRequestDeferred request delay = (s, false) := by
    unfold LiveState.applyWithdrawalRequestDeferred
    simp only [found]
    split
    · rfl
    next owner =>
    split
    · rfl
    next staying =>
    split
    · rfl
    next open_ =>
    rcases reason with other | submitted | pending | full | ⟨active, all, floor⟩
    · exact absurd other owner
    · exact absurd (Or.inl submitted) staying
    · exact absurd (Or.inr pending) staying
    · exact absurd full open_
    · rw [if_pos active, LiveState.withdrawActive, if_pos all, floor]
      rfl
  rw [LiveState.applyWithdrawalRequest, refused]
  rfl

/-! ### An accepted request, field by field -/

section Accepted

variable {s s' : LiveState} {request : WithdrawalRequest} {delay amount : Nat}
  {account : ValidatorAccount} (accepts : s.Accepts request delay account amount s')

include accepts

theorem LiveState.Accepts.getAccount (pubkey : Bytes32) :
    s'.getAccount pubkey = if pubkey = request.validatorPubkey then
      some (account.withStatus (account.status.afterRequest (request.amount = 0)))
    else s.getAccount pubkey := by
  rw [accepts.data, StateData.getAccount]
  by_cases same : pubkey = request.validatorPubkey
  · rw [if_pos same, same]
    exact SortedMap.find?_insert_self _ _ _
  · rw [if_neg same]
    exact SortedMap.find?_insert_of_ne _ _ same

theorem LiveState.Accepts.balances (pubkey : Bytes32) :
    (s'.getAccount pubkey).map (fun account => account.balance) =
      (s.getAccount pubkey).map fun account => account.balance := by
  rw [accepts.getAccount]
  split
  · next same =>
    rw [same, accepts.found]
    rfl
  · rfl

end Accepted

/-! ### Joining accounts have a balance -/

/-- Whoever joins has a balance. -/
def KeyView.Funded (view : KeyView) : Prop :=
  ∀ account, view.account = some account → account.status = .joining → 0 < account.balance

theorem funded_of_status (found : view.account = some account) (other : account.status ≠ .joining) :
    view.Funded := by
  intro account' here joining
  obtain rfl := Option.some.inj (found.symm.trans here)
  exact absurd joining other

theorem KeyMove.funded (move : KeyMove warmUp delay pubkey view view')
    (positive : 0 < view.minimumStake) (funded : view.Funded) : view'.Funded := by
  cases move with
  | credit request account mine credits =>
    rcases credits with here | ⟨-, inactive, -⟩
    · intro credited found joining
      obtain rfl := Option.some.inj found
      exact le_saturatingAdd (funded account here joining) (by decide) _
    · refine funded_of_status rfl fun joining => ?_
      rw [ValidatorAccount.credit, inactive] at joining
      cases joining
  | join request account mine credits inactive staked =>
    intro joined found _
    obtain rfl := Option.some.inj found
    exact lt_of_lt_of_le positive staked
  | exit account entry found | retire account entry found =>
    exact funded_of_status rfl fun joining => by cases joining
  | cancel account found => exact funded_of_status rfl fun joining => by cases joining
  | withdraw => exact funded

theorem funded_of_keyMoves (moves : Relation.ReflTransGen (KeyMove warmUp delay pubkey) view view')
    (positive : 0 < view.minimumStake) (funded : view.Funded) : view'.Funded := by
  have kept : view'.Funded ∧ 0 < view'.minimumStake := by
    induction moves with
    | refl => exact ⟨funded, positive⟩
    | tail _ last ih => exact ⟨last.funded ih.2 ih.1, last.stakes.1 ▸ ih.2⟩
  exact kept.1

theorem KeyStep.funded {phase phase' : Phase}
    (step : KeyStep warmUp delay pubkey view phase phase' view') (life : Lifecycle phase view)
    (positive : 0 < view.minimumStake) (funded : view.Funded) : view'.Funded := by
  cases step with
  | touch | retain => exact funded
  | process stake bounded moves => exact funded_of_keyMoves moves positive funded
  | remove removals settled =>
    clear settled
    induction removals with
    | refl => exact funded
    | tail _ last ih =>
      cases last with
      | cancel account found => exact funded_of_status rfl nofun
      | stage => exact ih
  | pay due entries member rest =>
    intro after here joining
    have before := status_of_paid ((KeyView.status_of_some here).trans (congrArg some joining))
    obtain ⟨account, found, status⟩ := Option.map_eq_some_iff.mp before
    rw [account_pay_of_some found, paid_of_joining life.orderly found status member] at here
    obtain rfl := Option.some.inj here
    exact funded account found joining
  | cross after passes =>
    intro crossed here joining
    obtain ⟨account, found, rfl⟩ := Option.map_eq_some_iff.mp here
    obtain rfl : after = .joining := joining
    rcases cross_cases life.orderly life.leaving found (passes account found) with
      ⟨-, out⟩ | ⟨-, -, same⟩ | ⟨same, -⟩
    · cases out
    · cases same
    · exact funded account found same.symm

/-- The minimum stake is positive throughout, and joining accounts have a balance. -/
theorem funded_of_reaches {start : LiveState} {reached : EpochState} (genesis : start.AtGenesis)
    (positive : 0 < start.validatorMinimumStake)
    (reaches : EpochState.Reaches warmUp delay PositiveStakes ⟨.collecting, start⟩ reached)
    (pubkey : Bytes32) :
    0 < reached.live.validatorMinimumStake ∧ (reached.live.keyView pubkey).Funded := by
  refine ⟨(floored_of_positive genesis positive reaches).2.1, ?_⟩
  induction reaches with
  | refl =>
    intro account found joining
    rw [genesis.active pubkey account found] at joining
    cases joining
  | tail before last ih =>
    obtain ⟨event, -, result⟩ := last
    have indexed := EpochState.Reaches.indexed before genesis.indexed
    exact (keyStep_of_epochStep pubkey (epochStep_of_step indexed result).1).funded
      (lifecycle_of_reaches genesis before pubkey)
      (floored_of_positive genesis positive before).2.1 ih

/-! ### The states of the processing -/

/-- The states that the processing of the buffered requests of a state goes through. -/
inductive LiveState.Midway (domain : Digest) (warmUp delay : Nat) (before : LiveState) :
    LiveState → Prop where
  /-- About to start. -/
  | ready : Midway domain warmUp delay before before
  /-- The parameters are staged and the first `count` requests routed. -/
  | routed (count : Nat) :
    Midway domain warmUp delay before
      (((LiveState.parseEntries before.pendingExecutionRequests).take count).foldl
        (LiveState.routeRequest delay) (before.stagedBatch, false)).1
  /-- All requests are routed, and `count` deposits taken off their queue. -/
  | drained (count : Nat) :
    Midway domain warmUp delay before
      (LiveState.drainDeposits domain warmUp delay count (LiveState.flushWithdrawals
        ((LiveState.parseEntries before.pendingExecutionRequests).foldl
          (LiveState.routeRequest delay) (before.stagedBatch, false)))).1

theorem LiveState.Midway.funded {domain : Digest} {before : LiveState}
    (midway : LiveState.Midway domain warmUp delay before s)
    (positive : 0 < before.validatorMinimumStake) (funded : (before.keyView pubkey).Funded) :
    (s.keyView pubkey).Funded := by
  have staged : (before.stagedBatch.keyView pubkey).Funded ∧
      0 < (before.stagedBatch.keyView pubkey).minimumStake := by
    rw [data_stagedBatch_queueParams, keyView_queueParams]
    exact ⟨funded, positive⟩
  cases midway with
  | ready => exact funded
  | routed count =>
    have routed : Transfers 0 delay _ _ _ _ := transfers_foldl_routeRequest
      ((LiveState.parseEntries before.pendingExecutionRequests).take count)
      (before.stagedBatch, false)
    obtain ⟨n, moves, -⟩ := routed
    exact funded_of_keyMoves (moves.keyMoves pubkey) staged.2 staged.1
  | drained count =>
    have routed : Transfers warmUp delay _ _ _ _ := transfers_foldl_routeRequest
      (LiveState.parseEntries before.pendingExecutionRequests) (before.stagedBatch, false)
    have drained : Transfers warmUp delay True 0 _ _ := transfers_drainDeposits domain count
      (LiveState.flushWithdrawals ((LiveState.parseEntries before.pendingExecutionRequests).foldl
        (LiveState.routeRequest delay) (before.stagedBatch, false)))
    rw [LiveState.data_flushWithdrawals] at drained
    obtain ⟨n, moves, -⟩ := routed
    obtain ⟨m, later, -⟩ := drained
    exact funded_of_keyMoves (Moves.keyMoves (moves.trans later) pubkey) staged.2 staged.1

end WithdrawalRequests

/-- **Withdrawal requests are all or nothing.** Before and during the processing of the requests of
an epoch, in a run with positive minimum stakes, a withdrawal request leaves the whole state as it is
or is accepted (`Accepts`): it appends one entry, and changes the status of the account, its
activation, and for an active account that asks for everything the list of those who leave and
their count. It changes no balance. It leaves the state as it is when it does not come from the
withdrawal address, when the account is exiting, when the account has as many entries as are
allowed, and when the exit would break the floor under the number of validators. -/
theorem withdrawal_all_or_nothing [Crypto] {domain : Digest} {warmUp delay : Nat}
    {start : LiveState} (genesis : start.AtGenesis) (positive : 0 < start.validatorMinimumStake)
    {reached : EpochState}
    (run : EpochState.Reaches warmUp delay PositiveStakes ⟨.collecting, start⟩ reached)
    {s : LiveState} (midway : LiveState.Midway domain warmUp delay reached.live s)
    (request : WithdrawalRequest) :
    (s.applyWithdrawalRequest request delay = s ∨ ∃ account amount,
      s.Accepts request delay account amount (s.applyWithdrawalRequest request delay) ∧
      (s.applyWithdrawalRequest request delay).withdrawalQueue.withdrawals =
        s.withdrawalQueue.withdrawals ++
          [{ inner :=
              { index := s.withdrawalQueue.nextIndex
                validatorIndex := 0
                address := account.withdrawalCredentials
                amount }
             pubkey := request.validatorPubkey
             epoch := s.epoch + delay
             kind := .validator }] ∧
      (s.applyWithdrawalRequest request delay).withdrawalQueue.refunds =
        s.withdrawalQueue.refunds) ∧
    (∀ pubkey, ((s.applyWithdrawalRequest request delay).getAccount pubkey).map
        (fun account => account.balance) =
      (s.getAccount pubkey).map fun account => account.balance) ∧
    ∀ account, s.getAccount request.validatorPubkey = some account →
      request.sourceAddress ≠ account.withdrawalCredentials ∨
        account.status = .submittedExitRequest ∨ account.status = .fullPayoutPending ∨
        s.maxPendingWithdrawalsPerValidator ≤
          s.withdrawalQueue.pendingCount request.validatorPubkey ∨
        account.status = .active ∧ request.amount = 0 ∧
          s.currentEpochActiveValidatorCount - saturatingAdd s.pendingActiveValidatorExits 1 <
            s.prospectiveMinimumValidatorCount →
      s.applyWithdrawalRequest request delay = s := by
  obtain ⟨stake, funded⟩ := funded_of_reaches genesis positive run request.validatorPubkey
  have cases_ := applyWithdrawalRequest_cases s request delay (midway.funded stake funded)
  refine ⟨?_, fun pubkey => ?_, fun account found reason => ?_⟩
  · refine cases_.imp_right fun ⟨account, amount, accepts⟩ => ⟨account, amount, accepts, ?_⟩
    rw [accepts.data]
    exact ⟨WithdrawalQueue.withdrawals_pushRequest_validator _ _ _,
      WithdrawalQueue.refunds_pushRequest_validator _ _ _⟩
  · rcases cases_ with same | ⟨account, amount, accepts⟩
    · rw [same]
    · exact accepts.balances pubkey
  · refine applyWithdrawalRequest_refused delay found ?_
    refine reason.imp_right (Or.imp_right (Or.imp_right (Or.imp_right fun ⟨active, all, few⟩ => ?_)))
    exact ⟨active, all, decide_eq_false (Nat.not_le.mpr few)⟩

attribute [local instance] Crypto.accepting

/-- The pair with a request for a part in its buffer. -/
def withdrawingPair : LiveState :=
  (pairGenesis 32 40 40).bufferExecutionRequests [withdrawFortyRequest]

/-- The validator under the zero key asks for everything. -/
def leaveRequest : WithdrawalRequest := ⟨Bytes.FixedBytes.zero 20, zeroChunk, 0⟩

/-- A request for everything, after the one for a part. -/
theorem withdrawal_all_or_nothing_exit :
    (pairGenesis 32 40 40).AtGenesis ∧
    ∃ s, LiveState.Midway zeroChunk 2 2 withdrawingPair s ∧ ∃ account amount,
      s.Accepts leaveRequest 2 account amount (s.applyWithdrawalRequest leaveRequest 2) := by
  have genesis := atGenesis_pairGenesis 32 40 40
  have positive : 0 < (pairGenesis 32 40 40).validatorMinimumStake := by decide +kernel
  have run : EpochState.Reaches 2 2 PositiveStakes ⟨.collecting, pairGenesis 32 40 40⟩
      ⟨.collecting, withdrawingPair⟩ :=
    .single ⟨.buffer [withdrawFortyRequest], fun _ other => (nomatch other), rfl⟩
  have midway : LiveState.Midway zeroChunk 2 2 withdrawingPair _ := LiveState.Midway.routed 1
  refine ⟨genesis, _, midway, ?_⟩
  rcases (withdrawal_all_or_nothing genesis positive run midway leaveRequest).1 with
    same | ⟨account, amount, accepts, -⟩
  · have longer := congrArg (fun s : LiveState => s.withdrawalQueue.withdrawals.length) same
    exact absurd longer (by decide +kernel)
  · exact ⟨account, amount, accepts⟩

end Summit
