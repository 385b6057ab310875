/-
**One validator's part of the state.**

`StateData.keyView` is what the state says about one key: its account, its entries in the withdrawal
queue, how often it is scheduled and how often it is removed, and the epoch and the minimum stakes.
A step of an epoch takes the view of each key to another by a few rules (`KeyStep`), whichever key
it was made for (`keyStep_of_epochStep`). What holds of every validator in a run is then proved for one key
alone.
-/

import Summit.Proof.EpochRun

set_option linter.unusedSectionVars false

namespace Summit

section KeyView

variable [Crypto]

/-- How often a key is in a schedule. -/
def slotsIn (added : SortedMap Nat (List AddedValidator)) (pubkey : Bytes32) (epoch : Nat) : Nat :=
  ((added.find? epoch).getD []).countP fun validator => validator.nodeKey.val = pubkey

/-- What the state says about one key. -/
structure KeyView where
  epoch : Nat
  minimumStake : Nat
  prospectiveStake : Nat
  account : Option ValidatorAccount
  /-- Its entries among the validator withdrawals. -/
  entries : List PendingWithdrawal
  /-- How often it is among the removed validators. -/
  departures : Nat
  /-- How often it is scheduled for an epoch. -/
  slots : Nat → Nat

def StateData.keyView (data : StateData) (pubkey : Bytes32) : KeyView where
  epoch := data.epoch
  minimumStake := data.validatorMinimumStake
  prospectiveStake := data.prospectiveMinimumStake
  account := data.getAccount pubkey
  entries := data.withdrawalQueue.withdrawals.filter fun entry => entry.pubkey = pubkey
  departures := data.removedValidators.countP fun key => key.val = pubkey
  slots := slotsIn data.addedValidators pubkey

/-! ### The rules -/

/-- The account that a deposit is credited to. -/
def KeyView.Credits (view : KeyView) (account : ValidatorAccount) : Prop :=
  view.account = some account ∨
    view.account = none ∧ account.status = .inactive ∧ account.balance = 0

/-- The slots without one at the activation of a joining validator, if it lies ahead. -/
def KeyView.unslotted (view : KeyView) (account : ValidatorAccount) (epoch : Nat) : Nat :=
  if epoch = account.joiningEpoch ∧ view.epoch < account.joiningEpoch then view.slots epoch - 1
  else view.slots epoch

/-- The part of one key in a change. -/
inductive KeyMove (warmUp delay : Nat) (pubkey : Bytes32) (view : KeyView) : KeyView → Prop where
  | credit (request : DepositRequest) (account : ValidatorAccount)
      (mine : request.nodePubkey.val = pubkey) (credits : view.Credits account) :
    KeyMove warmUp delay pubkey view { view with account := some (account.credit request) }
  | join (request : DepositRequest) (account : ValidatorAccount)
      (mine : request.nodePubkey.val = pubkey) (credits : view.Credits account)
      (inactive : account.status = .inactive)
      (staked : view.minimumStake ≤ (account.credit request).balance) (quiet : view.entries = []) :
    KeyMove warmUp delay pubkey view
      { view with
        account := some ((account.credit request).joinAt (view.epoch + warmUp))
        slots := fun epoch => view.slots epoch + if epoch = view.epoch + warmUp then 1 else 0 }
  | exit (account : ValidatorAccount) (entry : PendingWithdrawal)
      (found : view.account = some account) (active : account.status = .active)
      (all : entry.inner.amount = 0) (due : entry.epoch = view.epoch + delay) :
    KeyMove warmUp delay pubkey view
      { view with
        account := some (account.withStatus .submittedExitRequest)
        entries := view.entries ++ [entry]
        departures := view.departures + 1 }
  | cancel (account : ValidatorAccount) (found : view.account = some account)
      (joining : account.status = .joining) :
    KeyMove warmUp delay pubkey view
      { view with
        account := some (account.withStatus .inactive)
        slots := view.unslotted account }
  | retire (account : ValidatorAccount) (entry : PendingWithdrawal)
      (found : view.account = some account) (inactive : account.status = .inactive)
      (all : entry.inner.amount = 0) :
    KeyMove warmUp delay pubkey view
      { view with
        account := some (account.withStatus .fullPayoutPending)
        entries := view.entries ++ [entry] }
  | withdraw (account : ValidatorAccount) (entry : PendingWithdrawal)
      (found : view.account = some account) (positive : 0 < entry.inner.amount)
      (allowed : account.status = .active ∧
          entry.inner.amount ≤ account.balance - view.minimumStake ∨
        account.status = .inactive ∧ entry.inner.amount ≤ account.balance) :
    KeyMove warmUp delay pubkey view { view with entries := view.entries ++ [entry] }

/-- The part of one key in enforcing a minimum stake. -/
inductive KeyRemoval (minStake : Nat) (view : KeyView) : KeyView → Prop where
  | cancel (account : ValidatorAccount) (found : view.account = some account)
      (joining : account.status = .joining) (below : account.balance < minStake) :
    KeyRemoval minStake view
      { view with
        account := some (account.withStatus .inactive)
        slots := view.unslotted account }
  | stage (account : ValidatorAccount) (found : view.account = some account)
      (active : account.status = .active) (below : account.balance < minStake)
      (fresh : view.departures = 0) :
    KeyRemoval minStake view { view with departures := view.departures + 1 }

/-- No removal is due: the key has the stake, or is out, or leaves. -/
def KeyView.Settled (view : KeyView) (minStake : Nat) : Prop :=
  ∀ account, view.account = some account →
    (account.status = .joining → minStake ≤ account.balance) ∧
    (account.status = .active → minStake ≤ account.balance ∨ 0 < view.departures)

/-- What the boundary makes of a status. -/
structure KeyView.Passes (view : KeyView) (before after : ValidatorStatus) : Prop where
  departed : 0 < view.departures → after.isOutOfCommittee = true
  activated : view.departures = 0 → 0 < view.slots (view.epoch + 1) → after = .active
  kept : view.departures = 0 → view.slots (view.epoch + 1) = 0 → after = before

/-- An account after the payouts: gone, or with another balance. -/
def ValidatorAccount.paid (account : ValidatorAccount) (minStake : Nat) (pubkey : Bytes32)
    (due : List PendingWithdrawal) : Option ValidatorAccount :=
  if Consumed due pubkey account ∧ remaining minStake pubkey account due = 0 then none
  else some { account with balance := remaining minStake pubkey account due }

/-- The view after the payouts, which leave `entries`. -/
def KeyView.pay (view : KeyView) (pubkey : Bytes32) (due entries : List PendingWithdrawal) :
    KeyView :=
  { view with
    account := view.account.bind fun account => account.paid view.prospectiveStake pubkey due
    entries }

/-- The view after the boundary, which gives its account a status. -/
def KeyView.cross (view : KeyView) (after : ValidatorStatus) : KeyView where
  epoch := view.epoch + 1
  minimumStake := view.prospectiveStake
  prospectiveStake := view.prospectiveStake
  account := view.account.map fun account => account.withStatus after
  entries := view.entries
  departures := 0
  slots epoch := if epoch = view.epoch + 1 then 0 else view.slots epoch

/-- The part of one key in a step of an epoch. -/
inductive KeyStep (warmUp delay : Nat) (pubkey : Bytes32) (view : KeyView) :
    Phase → Phase → KeyView → Prop where
  | touch (phase : Phase) : KeyStep warmUp delay pubkey view phase phase view
  | process (stake : Nat) {view' : KeyView}
      (bounded : view.prospectiveStake < 2 ^ 64 → stake < 2 ^ 64)
      (moves : Relation.ReflTransGen (KeyMove warmUp delay pubkey)
        { view with prospectiveStake := stake } view') :
    KeyStep warmUp delay pubkey view .collecting .processed view'
  /-- No new minimum stake is enforced. -/
  | retain :
    KeyStep warmUp delay pubkey view .processed .staged
      { view with prospectiveStake := view.minimumStake }
  | remove {view' : KeyView}
      (removals : Relation.ReflTransGen (KeyRemoval view.prospectiveStake) view view')
      (settled : (∀ account, view.account = some account →
          account.status.isActiveOrJoining = true → (PublicKey.decode pubkey).isSome = true ∧
            (account.status = .joining →
              view.epoch < account.joiningEpoch ∧ view.departures = 0)) →
        view'.Settled view.prospectiveStake) :
    KeyStep warmUp delay pubkey view .processed .staged view'
  | pay (due : List PendingWithdrawal) (entries : List PendingWithdrawal)
      (member : ∀ entry ∈ due, entry.kind = .validator → entry.pubkey = pubkey →
        entry ∈ view.entries ∧ entry.epoch ≤ view.epoch)
      (rest : ∀ entry ∈ entries, entry ∈ view.entries) :
    KeyStep warmUp delay pubkey view .staged .paid (view.pay pubkey due entries)
  | cross (after : ValidatorStatus)
      (passes : ∀ account, view.account = some account → view.Passes account.status after) :
    KeyStep warmUp delay pubkey view .paid .collecting (view.cross after)

/-! ### The view after an update -/

section Updates

variable (data : StateData) (pubkey : Bytes32)

theorem keyView_accounts (accounts : SortedMap Bytes32 ValidatorAccount) :
    { data with validatorAccounts := accounts }.keyView pubkey =
      { data.keyView pubkey with account := accounts.find? pubkey } := rfl

theorem keyView_queue (queue : WithdrawalQueue) :
    { data with withdrawalQueue := queue }.keyView pubkey =
      { data.keyView pubkey with
        entries := queue.withdrawals.filter fun entry => entry.pubkey = pubkey } := rfl

theorem keyView_added (added : SortedMap Nat (List AddedValidator)) :
    { data with addedValidators := added }.keyView pubkey =
      { data.keyView pubkey with
        slots := slotsIn added pubkey } := rfl

theorem keyView_removed (key : PublicKey) (exits : Nat) :
    { data with
      removedValidators := data.removedValidators ++ [key]
      pendingActiveValidatorExits := exits }.keyView pubkey =
      { data.keyView pubkey with
        departures := (data.keyView pubkey).departures + if key.val = pubkey then 1 else 0 } := by
  have count : (data.removedValidators ++ [key]).countP (fun key => key.val = pubkey) =
      (data.keyView pubkey).departures + if key.val = pubkey then 1 else 0 := by
    rw [List.countP_append, List.countP_singleton]
    simp only [decide_eq_true_eq]
    rfl
  rw [← count]
  rfl

theorem keyView_putAccount_self (account : ValidatorAccount) :
    (data.putAccount pubkey account).keyView pubkey =
      { data.keyView pubkey with account := some account } := by
  rw [StateData.putAccount, keyView_accounts, SortedMap.find?_insert_self]

theorem keyView_putAccount_of_ne {other : Bytes32} (apart : other ≠ pubkey)
    (account : ValidatorAccount) :
    (data.putAccount pubkey account).keyView other = data.keyView other := by
  rw [StateData.putAccount, keyView_accounts, SortedMap.find?_insert_of_ne _ _ apart]
  rfl

theorem keyView_pushEntry_self (address : Address) (amount delay : Nat) :
    (data.pushEntry address pubkey amount delay .validator).keyView pubkey =
      { data.keyView pubkey with
        entries := (data.keyView pubkey).entries ++ [data.withdrawalQueue.pendingOf
          { sourceAddress := address, validatorPubkey := pubkey, amount } (data.epoch + delay)
          .validator] } := by
  rw [StateData.pushEntry, keyView_queue, WithdrawalQueue.withdrawals_pushRequest_validator,
    List.filter_append, List.filter_singleton]
  simp only [WithdrawalQueue.pendingOf, decide_true]
  rfl

theorem keyView_pushEntry_of_ne {other : Bytes32} (apart : other ≠ pubkey) (address : Address)
    (amount delay : Nat) :
    (data.pushEntry address pubkey amount delay .validator).keyView other = data.keyView other := by
  rw [StateData.pushEntry, keyView_queue, WithdrawalQueue.withdrawals_pushRequest_validator,
    List.filter_append, List.filter_singleton]
  simp only [WithdrawalQueue.pendingOf, apart.symm, decide_false, cond_false, List.append_nil]
  rfl

theorem keyView_pushEntry_refund (address : Address) (owner : Bytes32) (amount delay : Nat) :
    (data.pushEntry address owner amount delay .depositRefund).keyView pubkey =
      data.keyView pubkey := by
  rw [StateData.pushEntry, keyView_queue, WithdrawalQueue.withdrawals_pushRequest_refund]
  rfl

end Updates

/-! ### Slots -/

section Slots

variable (added : SortedMap Nat (List AddedValidator)) (pubkey : Bytes32)

theorem slotsIn_insert (epoch : Nat) (list : List AddedValidator) (other : Nat) :
    slotsIn (added.insert epoch list) pubkey other =
      if other = epoch then list.countP fun validator => validator.nodeKey.val = pubkey
      else slotsIn added pubkey other := by
  rw [slotsIn, SortedMap.find?_insert]
  split <;> rfl

theorem slotsIn_erase (epoch other : Nat) :
    slotsIn (added.erase epoch) pubkey other =
      if other = epoch then 0 else slotsIn added pubkey other := by
  rw [slotsIn, SortedMap.find?_erase]
  split <;> rfl

/-- Scheduling a validator gives its key one slot more. -/
theorem slotsIn_schedule (epoch : Nat) (validator : AddedValidator) (other : Nat) :
    slotsIn (added.insert epoch ((added.find? epoch).getD [] ++ [validator])) pubkey other =
      slotsIn added pubkey other +
        if validator.nodeKey.val = pubkey ∧ other = epoch then 1 else 0 := by
  rw [slotsIn_insert, List.countP_append, List.countP_singleton]
  by_cases here : other = epoch
  · subst here
    simp [slotsIn]
  · simp [here]

theorem countP_eraseP_nodeKey (list : List AddedValidator) (key : PublicKey) :
    (list.eraseP fun validator => validator.nodeKey = key).countP
        (fun validator => validator.nodeKey.val = pubkey) =
      list.countP (fun validator => validator.nodeKey.val = pubkey) -
        if key.val = pubkey then 1 else 0 := by
  induction list with
  | nil => simp
  | cons validator rest ih =>
    by_cases here : validator.nodeKey = key
    · subst here
      rw [List.eraseP_cons_of_pos (by simp), List.countP_cons]
      split <;> simp_all
    · rw [List.eraseP_cons_of_neg (by simpa using here), List.countP_cons, List.countP_cons, ih]
      have differ : key.val = pubkey → validator.nodeKey.val ≠ pubkey := by
        rintro rfl same
        exact here (Subtype.ext same)
      by_cases mine : key.val = pubkey
      · simp [mine, differ mine]
      · simp [mine]

theorem slotsIn_of_absent {epoch : Nat} {key : PublicKey}
    (absent : ∀ validator ∈ (added.find? epoch).getD [], validator.nodeKey ≠ key) :
    slotsIn added key.val epoch = 0 := by
  refine List.countP_eq_zero.mpr fun validator member same => ?_
  exact absent validator member (Subtype.ext (of_decide_eq_true same))

/-- Taking a validator off the schedule takes one slot of its key. -/
theorem slotsIn_withoutAddedValidator (epoch : Nat) (key : PublicKey) (other : Nat) :
    slotsIn ((LiveState.withoutAddedValidator added epoch key).getD added) pubkey other =
      slotsIn added pubkey other - if key.val = pubkey ∧ other = epoch then 1 else 0 := by
  -- where nothing is removed there is no slot to take
  have kept (absent : ∀ validator ∈ (added.find? epoch).getD [], validator.nodeKey ≠ key) :
      slotsIn added pubkey other =
        slotsIn added pubkey other - if key.val = pubkey ∧ other = epoch then 1 else 0 := by
    split
    · next here =>
      obtain ⟨rfl, rfl⟩ := here
      rw [slotsIn_of_absent added absent]
    · rfl
  unfold LiveState.withoutAddedValidator
  cases found : added.find? epoch with
  | none => exact kept (by simp [found])
  | some scheduled =>
    dsimp only
    have rest : (scheduled.eraseP fun validator => validator.nodeKey = key).countP
          (fun validator => validator.nodeKey.val = pubkey) =
        slotsIn added pubkey epoch - if key.val = pubkey then 1 else 0 := by
      rw [countP_eraseP_nodeKey, slotsIn, found]
      rfl
    by_cases any : scheduled.any fun validator => validator.nodeKey = key
    · rw [if_pos any]
      split
      · next empty =>
        rw [empty] at rest
        rw [Option.getD_some, slotsIn_erase]
        split
        · next here =>
          subst here
          simpa using rest
        · next apart => simp [apart]
      · rw [Option.getD_some, slotsIn_insert]
        split
        · next here =>
          subst here
          simpa using rest
        · next apart => simp [apart]
    · rw [if_neg any]
      refine kept fun validator member same => any ?_
      rw [found] at member
      exact List.any_eq_true.mpr ⟨validator, member, decide_eq_true same⟩

/-- Giving up an activation takes the slot of the key, if it lies ahead. -/
theorem slotsIn_unscheduled_self (data : StateData) (account : ValidatorAccount) :
    slotsIn (data.unscheduled pubkey account) pubkey =
      (data.keyView pubkey).unslotted account := by
  funext epoch
  simp only [StateData.unscheduled, KeyView.unslotted]
  by_cases ahead : account.joiningEpoch > data.epoch
  · rw [if_pos ahead]
    cases decoded : PublicKey.decode pubkey with
    | some key =>
      obtain rfl := PublicKey.decode_eq_some decoded
      rw [slotsIn_withoutAddedValidator]
      by_cases here : epoch = account.joiningEpoch
      · rw [if_pos ⟨rfl, here⟩, if_pos ⟨here, ahead⟩]
        rfl
      · rw [if_neg fun both => here both.2, if_neg fun both => here both.1]
        rfl
    | none =>
      -- no validator has a key that does not decode
      have zero : slotsIn data.addedValidators pubkey epoch = 0 := by
        refine List.countP_eq_zero.mpr fun validator _ same => ?_
        rw [← of_decide_eq_true same, PublicKey.decode_val] at decoded
        cases decoded
      have zero' : (data.keyView pubkey).slots epoch = 0 := zero
      rw [zero', zero, Nat.zero_sub, ite_self]
  · rw [if_neg ahead, if_neg fun both => ahead both.2]
    rfl

theorem slotsIn_unscheduled_of_ne (data : StateData) (account : ValidatorAccount) {other : Bytes32}
    (apart : other ≠ pubkey) :
    slotsIn (data.unscheduled pubkey account) other = slotsIn data.addedValidators other := by
  funext epoch
  unfold StateData.unscheduled
  split
  · split
    · next key decoded =>
      obtain rfl := PublicKey.decode_eq_some decoded
      rw [slotsIn_withoutAddedValidator, if_neg fun both => apart both.1.symm]
      rfl
    · rfl
  · rfl

end Slots

/-! ### Changes and removals, key by key -/

/-- The entries of a key are those that the queue counts for it. -/
theorem length_entries (data : StateData) (pubkey : Bytes32) :
    (data.keyView pubkey).entries.length = data.withdrawalQueue.pendingCount pubkey := by
  rw [WithdrawalQueue.pendingCount_eq]
  exact List.countP_eq_length_filter.symm

variable {data data' : StateData} {warmUp delay n : Nat}

theorem entries_eq_nil_of_pendingCount {pubkey : Bytes32}
    (quiet : data.withdrawalQueue.pendingCount pubkey = 0) : (data.keyView pubkey).entries = [] :=
  List.length_eq_zero_iff.mp ((length_entries data pubkey).trans quiet)

theorem Change.keyMoves (change : Change warmUp delay data n data') (pubkey : Bytes32) :
    Relation.ReflTransGen (KeyMove warmUp delay pubkey) (data.keyView pubkey) (data'.keyView pubkey) := by
  cases change with
  | refund address amount =>
    rw [keyView_pushEntry_refund]
  | credit request account credits =>
    by_cases same : pubkey = request.nodePubkey.val
    · subst same
      rw [keyView_putAccount_self]
      exact .single (KeyMove.credit request account rfl credits)
    · rw [keyView_putAccount_of_ne _ _ same]
  | join request account credits inactive staked quiet =>
    rw [keyView_added (data.putAccount _ _)]
    by_cases same : pubkey = request.nodePubkey.val
    · subst same
      rw [keyView_putAccount_self]
      have slots : slotsIn (data.addedValidators.insert (data.epoch + warmUp)
            ((data.addedValidators.find? (data.epoch + warmUp)).getD [] ++
              [{ nodeKey := request.nodePubkey, consensusKey := account.consensusPublicKey }]))
            request.nodePubkey.val =
          fun epoch => (data.keyView request.nodePubkey.val).slots epoch +
            if epoch = data.epoch + warmUp then 1 else 0 := by
        funext epoch
        rw [slotsIn_schedule]
        simp only [true_and]
        rfl
      rw [slots]
      exact .single (KeyMove.join request account rfl credits inactive staked
        (entries_eq_nil_of_pendingCount quiet))
    · rw [keyView_putAccount_of_ne _ _ same]
      have slots : slotsIn (data.addedValidators.insert (data.epoch + warmUp)
            ((data.addedValidators.find? (data.epoch + warmUp)).getD [] ++
              [{ nodeKey := request.nodePubkey, consensusKey := account.consensusPublicKey }]))
            pubkey = (data.keyView pubkey).slots := by
        funext epoch
        rw [slotsIn_schedule, if_neg fun both => same both.1.symm]
        rfl
      rw [slots]
  | exit key account found active =>
    by_cases same : pubkey = key.val
    · subst same
      rw [keyView_pushEntry_self, keyView_putAccount_self, keyView_removed, if_pos rfl]
      exact .single (KeyMove.exit account _ found active rfl rfl)
    · rw [keyView_pushEntry_of_ne _ _ same, keyView_putAccount_of_ne _ _ same, keyView_removed,
        if_neg (Ne.symm same)]
      exact .refl
  | cancel owner account found joining =>
    rw [keyView_added (data.putAccount _ _)]
    by_cases same : pubkey = owner
    · subst same
      rw [keyView_putAccount_self, slotsIn_unscheduled_self]
      exact .single (KeyMove.cancel account found joining)
    · rw [keyView_putAccount_of_ne _ _ same, slotsIn_unscheduled_of_ne _ _ _ same]
      exact .refl
  | retire owner account found inactive =>
    by_cases same : pubkey = owner
    · subst same
      rw [keyView_pushEntry_self, keyView_putAccount_self]
      exact .single (KeyMove.retire account _ found inactive rfl)
    · rw [keyView_pushEntry_of_ne _ _ same, keyView_putAccount_of_ne _ _ same]
  | withdraw owner account amount found positive allowed =>
    by_cases same : pubkey = owner
    · subst same
      rw [keyView_pushEntry_self]
      exact .single (KeyMove.withdraw account _ found positive allowed)
    · rw [keyView_pushEntry_of_ne _ _ same]

theorem Moves.keyMoves (moves : Moves warmUp delay data n data') (pubkey : Bytes32) :
    Relation.ReflTransGen (KeyMove warmUp delay pubkey) (data.keyView pubkey) (data'.keyView pubkey) := by
  induction moves with
  | refl => exact .refl
  | tail _ last ih =>
    cases last with
    | change change => exact ih.trans (change.keyMoves pubkey)
    | deposits queue => exact ih

theorem Removals.keyRemovals {minStake : Nat} (removals : Removals minStake data n data')
    (pubkey : Bytes32) :
    Relation.ReflTransGen (KeyRemoval minStake) (data.keyView pubkey) (data'.keyView pubkey) := by
  induction removals with
  | refl => exact .refl
  | @tail data' _ _ _ _ last ih =>
    refine ih.trans ?_
    cases last with
    | cancel owner account found joining below =>
      rw [keyView_added (data'.putAccount _ _)]
      by_cases same : pubkey = owner
      · subst same
        rw [keyView_putAccount_self, slotsIn_unscheduled_self]
        exact .single (KeyRemoval.cancel account found joining below)
      · rw [keyView_putAccount_of_ne _ _ same, slotsIn_unscheduled_of_ne _ _ _ same]
        exact .refl
    | stage key account found active below fresh =>
      rw [keyView_removed]
      by_cases same : key.val = pubkey
      · subst same
        rw [if_pos rfl]
        refine .single (KeyRemoval.stage account found active below ?_)
        refine List.countP_eq_zero.mpr fun other member equal => fresh ?_
        rwa [← Subtype.ext (of_decide_eq_true equal)]
      · rw [if_neg same]
        exact .refl

/-! ### Steps, key by key -/

section Steps

variable {warmUp delay : Nat} {data data' : StateData} (pubkey : Bytes32)

theorem departures_pos_iff :
    0 < (data.keyView pubkey).departures ↔ ∃ key ∈ data.removedValidators, key.val = pubkey := by
  simp [StateData.keyView, List.countP_pos_iff]

theorem slots_pos_iff (epoch : Nat) :
    0 < (data.keyView pubkey).slots epoch ↔
      ∃ validator ∈ data.scheduled epoch, validator.nodeKey.val = pubkey := by
  simp [StateData.keyView, slotsIn, StateData.scheduled, List.countP_pos_iff]

theorem keyView_queueParams (batch : List ProtocolParam) :
    (data.queueParams batch).keyView pubkey =
      { data.keyView pubkey with
        prospectiveStake := (data.queueParams batch).prospectiveMinimumStake } := rfl

/-- What holds of the prospective minimum stake and of those in a batch holds once it is queued. -/
theorem prospectiveMinimumStake_queueParams {P : Nat → Prop} {batch : List ProtocolParam}
    (each : ∀ value, .minimumStake value ∈ batch → P value) (old : P data.prospectiveMinimumStake) :
    P (data.queueParams batch).prospectiveMinimumStake := by
  have same : (data.queueParams batch).prospectiveMinimumStake =
      { data with protocolParamChanges := data.protocolParamChanges ++ batch
        }.prospectiveMinimumStake := checked_minimumStake _
  rw [same, StateData.prospectiveMinimumStake, StateData.prospective, List.reverse_append,
    List.findSome?_append]
  cases found : batch.reverse.findSome? StateData.asMinimumStake with
  | none => exact old
  | some value =>
    obtain ⟨param, member, given⟩ := List.exists_of_findSome?_eq_some found
    cases param with
    | minimumStake =>
      obtain rfl := Option.some.inj given
      exact each _ (List.mem_reverse.mp member)
    | _ => cases given

theorem settled_keyView {minStake : Nat} (settled : Settled minStake data pubkey) :
    (data.keyView pubkey).Settled minStake := by
  intro account found
  refine ⟨(settled account found).1, fun active => ((settled account found).2 active).imp_right ?_⟩
  exact (departures_pos_iff pubkey).mpr

theorem passes_of_transition {before after : ValidatorStatus}
    (transition : Transition (data.scheduled (data.epoch + 1)) data.removedValidators pubkey before
      after) : (data.keyView pubkey).Passes before after := by
  obtain ⟨mid, activated, departed⟩ := transition
  have stays (none_ : (data.keyView pubkey).departures = 0) : after = mid :=
    departed.2 fun key member same =>
      absurd ((departures_pos_iff pubkey).mpr ⟨key, member, same⟩) (by omega)
  refine ⟨fun leaves => departed.1 ((departures_pos_iff pubkey).mp leaves), ?_, ?_⟩
  · intro none_ scheduled
    rw [stays none_]
    exact activated.1 ((slots_pos_iff pubkey _).mp scheduled)
  · intro none_ unscheduled
    rw [stays none_]
    refine activated.2 fun validator member same => ?_
    exact absurd ((slots_pos_iff pubkey _).mpr ⟨validator, member, same⟩) (by
      rw [show (data.keyView pubkey).slots (data.epoch + 1) = 0 from unscheduled]
      exact Nat.lt_irrefl 0)

theorem find?_debitAll_bind (minStake : Nat) (accounts : SortedMap Bytes32 ValidatorAccount)
    (entries : List PendingWithdrawal) :
    (debitAll minStake accounts entries).find? pubkey =
      (accounts.find? pubkey).bind fun account => account.paid minStake pubkey entries := by
  cases found : accounts.find? pubkey with
  | none => exact find?_debitAll_of_none found entries
  | some account => exact find?_debitAll found entries

theorem keyStep_pay {validators refunds laterValidators laterRefunds : List PendingWithdrawal}
    (due : data.dueEntries data.epoch = validators ++ refunds)
    (front : data.withdrawalQueue.withdrawals = validators ++ laterValidators)
    (frontRefunds : data.withdrawalQueue.refunds = refunds ++ laterRefunds)
    (paid : PaidOff data.prospectiveMinimumStake data data' (data.dueEntries data.epoch)
      laterValidators laterRefunds) :
    KeyStep warmUp delay pubkey (data.keyView pubkey) .staged .paid (data'.keyView pubkey) := by
  have same : data'.keyView pubkey =
      { data.keyView pubkey with
        account := (debitAll data.prospectiveMinimumStake data.validatorAccounts
          (data.dueEntries data.epoch)).find? pubkey
        entries := laterValidators.filter fun entry => entry.pubkey = pubkey } := by
    rw [← paid.validators]
    conv_lhs => rw [paid.data]
    rfl
  rw [same, find?_debitAll_bind]
  refine KeyStep.pay _ _ ?_ ?_
  · intro entry member kind mine
    refine ⟨List.mem_filter.mpr ⟨?_, decide_eq_true mine⟩,
      WithdrawalQueue.epoch_le_of_due _ member⟩
    rw [front]
    rw [due] at member
    rcases List.mem_append.mp member with here | there
    · exact List.mem_append_left _ here
    · have refund := data.withdrawalQueue.refunds_kind entry
        (frontRefunds ▸ List.mem_append_left _ there)
      rw [kind] at refund
      cases refund
  · intro entry member
    obtain ⟨here, mine⟩ := List.mem_filter.mp member
    exact List.mem_filter.mpr ⟨front ▸ List.mem_append_right _ here, mine⟩

theorem keyStep_retain (params : List ProtocolParam)
    (none_ : ∀ param ∈ params, StateData.isMinimumStake param = false) :
    KeyStep warmUp delay pubkey (data.keyView pubkey) .processed .staged
      ({ data with protocolParamChanges := params }.keyView pubkey) := by
  have stake : { data with protocolParamChanges := params }.prospectiveMinimumStake =
      data.validatorMinimumStake :=
    prospective_of_none _ _ fun param member => by
      simpa [StateData.isMinimumStake] using none_ param member
  have view : { data with protocolParamChanges := params }.keyView pubkey =
      { data.keyView pubkey with
        prospectiveStake :=
          { data with protocolParamChanges := params }.prospectiveMinimumStake } := rfl
  rw [view, stake]
  exact KeyStep.retain

theorem keyStep_cross (crosses : Crosses data data') :
    KeyStep warmUp delay pubkey (data.keyView pubkey) .paid .collecting (data'.keyView pubkey) := by
  have stake : data'.prospectiveMinimumStake = data.prospectiveMinimumStake := by
    rw [← checked_minimumStake data, ← crosses.minimumStake, StateData.prospectiveMinimumStake,
      prospective_of_none data' _ (by rw [crosses.params]; simp)]
  have slots : slotsIn data'.addedValidators pubkey =
      fun epoch => if epoch = data.epoch + 1 then 0 else slotsIn data.addedValidators pubkey epoch := by
    funext epoch
    rw [crosses.added, slotsIn_erase]
  have view {status : ValidatorStatus}
      (found : data'.getAccount pubkey =
        (data.keyView pubkey).account.map fun account => account.withStatus status) :
      data'.keyView pubkey = (data.keyView pubkey).cross status := by
    rw [StateData.keyView, crosses.epoch, crosses.minimumStake, checked_minimumStake, stake, found,
      crosses.withdrawals, crosses.removed, slots]
    rfl
  rcases crosses.accounts pubkey with ⟨absent, absent'⟩ | ⟨account, status, found, found', rule⟩
  · have none_ : (data.keyView pubkey).account = none := absent
    have after : data'.getAccount pubkey =
        (data.keyView pubkey).account.map fun account => account.withStatus .active := by
      rw [none_]
      exact absent'
    rw [view after]
    refine KeyStep.cross .active fun account found => ?_
    rw [none_] at found
    cases found
  · have some_ : (data.keyView pubkey).account = some account := found
    have after : data'.getAccount pubkey =
        (data.keyView pubkey).account.map fun account => account.withStatus status := by
      rw [some_]
      exact found'
    rw [view after]
    refine KeyStep.cross status fun other here => ?_
    obtain rfl := Option.some.inj (some_.symm.trans here)
    exact passes_of_transition pubkey rule

/-- **Every step of an epoch** is a step of each key. -/
theorem keyStep_of_epochStep {phase phase' : Phase}
    (step : EpochStep warmUp delay data phase phase' data') :
    KeyStep warmUp delay pubkey (data.keyView pubkey) phase phase' (data'.keyView pubkey) := by
  cases step with
  | touch phase same =>
    rw [same]
    exact KeyStep.touch phase
  | process accepted moves =>
    refine KeyStep.process _ (prospectiveMinimumStake_queueParams (P := (· < 2 ^ 64))
      fun value member => (accepted _ member).inBounds) ?_
    rw [← keyView_queueParams]
    exact moves.keyMoves pubkey
  | keep none_ =>
    refine keyStep_retain pubkey data.protocolParamChanges fun param member => ?_
    simpa using List.any_eq_false.mp none_ param member
  | drop few =>
    refine keyStep_retain pubkey _ fun param member => ?_
    simpa using (List.mem_filter.mp member).2
  | remove enough removals settled =>
    refine KeyStep.remove (removals.keyRemovals pubkey) fun removable => ?_
    refine settled_keyView pubkey (settled pubkey fun account found seated => ?_)
    obtain ⟨decodes, ahead⟩ := removable account found seated
    refine ⟨decodes, fun joining => ⟨(ahead joining).1, fun leaving => ?_⟩⟩
    obtain ⟨key, member, same⟩ := List.mem_map.mp leaving
    have leaves := (departures_pos_iff pubkey).mpr ⟨key, member, same⟩
    rw [(ahead joining).2] at leaves
    exact absurd leaves (Nat.lt_irrefl 0)
  | pay due front frontRefunds paid => exact keyStep_pay pubkey due front frontRefunds paid
  | cross crosses => exact keyStep_cross pubkey crosses

end Steps

end KeyView

end Summit
