/-
**What the epoch boundary does.**

The queued parameters are applied in order, so of each kind the last one stays, which is what the
prospective value says (`stored_of_applyParams`). The committee transition changes statuses only:
a removed validator is out of the committee, a scheduled one is active, everybody else keeps the
status (`restatus_applyCommitteeTransition`). `Crosses` collects what the whole boundary does to the
data.
-/

import Summit.Model.Finalizer
import Summit.Proof.Changes
import Summit.Proof.Params

set_option linter.unusedSectionVars false

namespace Summit

variable [Crypto]

/-! ### Statuses -/

/-- The same accounts, with statuses related by `rule`. -/
def Restatus (rule : Bytes32 → ValidatorStatus → ValidatorStatus → Prop)
    (accounts accounts' : SortedMap Bytes32 ValidatorAccount) : Prop :=
  ∀ pubkey, (accounts.find? pubkey = none ∧ accounts'.find? pubkey = none) ∨
    ∃ account status, accounts.find? pubkey = some account ∧
      accounts'.find? pubkey = some (account.withStatus status) ∧ rule pubkey account.status status

variable {rule : Bytes32 → ValidatorStatus → ValidatorStatus → Prop}
  {first second third : StateData} {accounts accounts' : SortedMap Bytes32 ValidatorAccount}
  {pubkey : Bytes32} {account : ValidatorAccount} {α : Type} {key : PublicKey}
  {changed : ValidatorStatus → Prop} {before after : ValidatorStatus} {added : List AddedValidator}
  {s s' : LiveState} {result : LiveState × Bool}

theorem Restatus.refl (keeps : ∀ pubkey status, rule pubkey status status)
    (accounts : SortedMap Bytes32 ValidatorAccount) : Restatus rule accounts accounts := by
  intro pubkey
  cases found : accounts.find? pubkey with
  | none => exact Or.inl ⟨rfl, rfl⟩
  | some account => exact Or.inr ⟨account, account.status, rfl, rfl, keeps _ _⟩

theorem Restatus.trans {one two three : Bytes32 → ValidatorStatus → ValidatorStatus → Prop}
    {first second third : SortedMap Bytes32 ValidatorAccount}
    (left : Restatus one first second) (right : Restatus two second third)
    (both : ∀ pubkey a b c, one pubkey a b → two pubkey b c → three pubkey a c) :
    Restatus three first third := by
  intro pubkey
  rcases left pubkey with ⟨absent, absent'⟩ | ⟨account, status, found, found', ruled⟩
  · rcases right pubkey with ⟨-, gone⟩ | ⟨account, _, here, -⟩
    · exact Or.inl ⟨absent, gone⟩
    · rw [absent'] at here
      cases here
  · rcases right pubkey with ⟨gone, -⟩ | ⟨account', status', here, here', ruled'⟩
    · rw [found'] at gone
      cases gone
    · rw [found'] at here
      obtain rfl := Option.some.inj here
      exact Or.inr ⟨account, status', found, here', both _ _ _ _ ruled ruled'⟩

theorem Restatus.of_some (same : Restatus rule accounts accounts')
    (found : accounts.find? pubkey = some account) :
    ∃ status, accounts'.find? pubkey = some (account.withStatus status) ∧
      rule pubkey account.status status := by
  rcases same pubkey with ⟨absent, -⟩ | ⟨account', status, here, here', ruled⟩
  · rw [found] at absent
    cases absent
  · obtain rfl := Option.some.inj (found.symm.trans here)
    exact ⟨status, here', ruled⟩

theorem Restatus.of_some_after (same : Restatus rule accounts accounts')
    {account' : ValidatorAccount} (found : accounts'.find? pubkey = some account') :
    ∃ account, accounts.find? pubkey = some account ∧
      account' = account.withStatus account'.status ∧
      rule pubkey account.status account'.status := by
  rcases same pubkey with ⟨-, absent⟩ | ⟨account, status, here, here', ruled⟩
  · rw [found] at absent
    cases absent
  · obtain rfl := Option.some.inj (found.symm.trans here')
    exact ⟨account, here, rfl, ruled⟩

theorem restatus_insert (found : accounts.find? pubkey = some account) {status : ValidatorStatus}
    (ruled : rule pubkey account.status status)
    (keeps : ∀ other status, other ≠ pubkey → rule other status status) :
    Restatus rule accounts (accounts.insert pubkey (account.withStatus status)) := by
  intro other
  by_cases same : other = pubkey
  · subst same
    exact Or.inr ⟨account, status, found, SortedMap.find?_insert_self _ _ _, ruled⟩
  · rw [SortedMap.find?_insert_of_ne _ _ same]
    cases here : accounts.find? other with
    | none => exact Or.inl ⟨rfl, rfl⟩
    | some kept => exact Or.inr ⟨kept, kept.status, rfl, rfl, keeps other _ same⟩

/-! ### The committee transition -/

/-- A listed key gets a status that satisfies `changed`, every other key keeps its own. -/
def Among {α : Type} (list : List α) (key : α → Bytes32) (changed : ValidatorStatus → Prop)
    (pubkey : Bytes32) (before after : ValidatorStatus) : Prop :=
  ((∃ x ∈ list, key x = pubkey) → changed after) ∧
    ((∀ x ∈ list, key x ≠ pubkey) → after = before)

theorem Among.cons {list : List α} {key : α → Bytes32} {a b c : ValidatorStatus} {x : α}
    (one : Among [x] key changed pubkey a b) (two : Among list key changed pubkey b c) :
    Among (x :: list) key changed pubkey a c := by
  constructor
  · rintro ⟨y, member, same⟩
    by_cases later : ∃ z ∈ list, key z = pubkey
    · exact two.1 later
    · rw [two.2 fun z here equal => later ⟨z, here, equal⟩]
      rcases List.mem_cons.mp member with rfl | here
      · exact one.1 ⟨y, List.mem_singleton_self y, same⟩
      · exact absurd ⟨y, here, same⟩ later
  · intro apart
    rw [two.2 fun z here => apart z (List.mem_cons_of_mem _ here)]
    exact one.2 fun z here => apart z (List.mem_singleton.mp here ▸ List.mem_cons_self)

theorem among_nil (key : α → Bytes32) (changed : ValidatorStatus → Prop) (pubkey : Bytes32)
    (status : ValidatorStatus) : Among [] key changed pubkey status status :=
  ⟨fun ⟨_, member, _⟩ => (List.not_mem_nil member).elim, fun _ => rfl⟩

theorem among_singleton (x : α) (key : α → Bytes32) (given : changed after) :
    Among [x] key changed (key x) before after :=
  ⟨fun _ => given, fun apart => absurd rfl (apart x List.mem_cons_self)⟩

theorem among_other (x : α) (key : α → Bytes32) (changed : ValidatorStatus → Prop)
    (apart : key x ≠ pubkey) (status : ValidatorStatus) :
    Among [x] key changed pubkey status status :=
  ⟨fun ⟨_, member, same⟩ => absurd (List.mem_singleton.mp member ▸ same) apart, fun _ => rfl⟩

/-- The scheduled validators become active. -/
abbrev Activated (added : List AddedValidator) :
    Bytes32 → ValidatorStatus → ValidatorStatus → Prop :=
  Among added (fun validator => validator.nodeKey.val) (· = .active)

/-- The removed validators leave the committee. -/
abbrev Departed (removed : List PublicKey) : Bytes32 → ValidatorStatus → ValidatorStatus → Prop :=
  Among removed (fun key => key.val) (·.isOutOfCommittee = true)

/-- Both, the departures last. -/
def Transition (added : List AddedValidator) (removed : List PublicKey) (pubkey : Bytes32)
    (before after : ValidatorStatus) : Prop :=
  ∃ mid, Activated added pubkey before mid ∧ Departed removed pubkey mid after

/-- Only the accounts differ. -/
def SameButAccounts (data data' : StateData) : Prop :=
  data' = { data with validatorAccounts := data'.validatorAccounts }

theorem SameButAccounts.trans (one : SameButAccounts first second)
    (two : SameButAccounts second third) : SameButAccounts first third := by
  rw [SameButAccounts] at one two ⊢
  rw [two, one]

theorem activated_foldlM (run : added.foldlM LiveState.activate s = some s') :
    SameButAccounts s.toStateData s'.toStateData ∧
      Restatus (Activated added) s.validatorAccounts s'.validatorAccounts := by
  induction added generalizing s with
  | nil =>
    obtain rfl := Option.some.inj run
    exact ⟨rfl, Restatus.refl (fun _ _ => among_nil _ _ _ _) _⟩
  | cons validator rest ih =>
    obtain ⟨mid, first, later⟩ := Run.foldlM_cons_some run
    obtain ⟨account, found, rfl⟩ := Option.map_eq_some_iff.mp first
    obtain ⟨same, restatus⟩ := ih later
    rw [LiveState.data_setAccount] at same restatus
    have step : Restatus (Activated [validator]) s.validatorAccounts
        (s.validatorAccounts.insert validator.nodeKey.val (account.withStatus .active)) :=
      restatus_insert found (among_singleton validator (fun validator => validator.nodeKey.val) rfl)
        fun other status apart => among_other validator _ _ apart.symm status
    exact ⟨SameButAccounts.trans (by rfl) same, step.trans restatus fun _ _ _ _ => Among.cons⟩

theorem departed_foldl (removed : List PublicKey) (s : LiveState) :
    SameButAccounts s.toStateData (removed.foldl LiveState.depart s).toStateData ∧
      Restatus (Departed removed) s.validatorAccounts
        (removed.foldl LiveState.depart s).validatorAccounts := by
  induction removed generalizing s with
  | nil => exact ⟨rfl, Restatus.refl (fun _ _ => among_nil _ _ _ _) _⟩
  | cons key rest ih =>
    obtain ⟨same, restatus⟩ := ih (s.depart key)
    have step : SameButAccounts s.toStateData (s.depart key).toStateData ∧
        Restatus (Departed [key]) s.validatorAccounts (s.depart key).validatorAccounts := by
      unfold LiveState.depart
      split
      · next absent =>
        refine ⟨rfl, fun pubkey => ?_⟩
        cases found : s.validatorAccounts.find? pubkey with
        | none => exact Or.inl ⟨rfl, rfl⟩
        | some account =>
          refine Or.inr ⟨account, account.status, rfl, rfl, ?_⟩
          have apart : key.val ≠ pubkey := by
            rintro rfl
            rw [StateData.getAccount, found] at absent
            cases absent
          exact among_other key _ _ apart _
      · next account found =>
        rw [LiveState.data_setAccount]
        refine ⟨rfl, restatus_insert found (among_singleton key (fun key => key.val) ?_)
          fun other status apart => among_other key _ _ apart.symm status⟩
        split <;> rfl
    exact ⟨step.1.trans same, step.2.trans restatus fun _ _ _ _ => Among.cons⟩

/-- The validators scheduled for `epoch`. -/
def StateData.scheduled (data : StateData) (epoch : Nat) : List AddedValidator :=
  (data.addedValidators.find? epoch).getD []

/-- **The committee transition** changes statuses, and forgets the exits. -/
theorem restatus_applyCommitteeTransition (applied : s.applyCommitteeTransition key = some result) :
    SameButAccounts { s.toStateData with pendingActiveValidatorExits := 0 } result.1.toStateData ∧
      Restatus (Transition (s.scheduled (s.epoch + 1)) s.removedValidators)
        s.validatorAccounts result.1.validatorAccounts := by
  unfold LiveState.applyCommitteeTransition at applied
  dsimp only at applied
  split at applied
  · next idle =>
    obtain ⟨none_, removed⟩ := idle
    obtain rfl := Option.some.inj applied
    have added : s.scheduled (s.epoch + 1) = [] := by
      rw [StateData.scheduled]
      cases found : s.addedValidators.find? (s.epoch + 1) with
      | none => rfl
      | some list =>
        rw [LiveState.data_resetPendingActiveValidatorExits, SortedMap.contains, found] at none_
        cases none_
    refine ⟨rfl, ?_⟩
    rw [added, show s.removedValidators = [] from removed]
    exact Restatus.refl (fun _ status => ⟨status, among_nil _ _ _ _, among_nil _ _ _ _⟩) _
  · obtain ⟨activated, run, rfl⟩ := Option.map_eq_some_iff.mp applied
    obtain ⟨same, restatus⟩ := activated_foldlM run
    obtain ⟨same', restatus'⟩ := departed_foldl activated.removedValidators activated
    have removed : activated.removedValidators = s.removedValidators := by
      rw [same]
      rfl
    rw [removed] at same' restatus'
    rw [removed]
    exact ⟨SameButAccounts.trans same same',
      restatus.trans restatus' fun _ _ mid _ one two => ⟨mid, one, two⟩⟩

theorem exists_foldlM_activate
    (each : ∀ validator ∈ added, (s.getAccount validator.nodeKey.val).isSome = true) :
    ∃ s', added.foldlM LiveState.activate s = some s' := by
  induction added generalizing s with
  | nil => exact ⟨s, rfl⟩
  | cons validator rest ih =>
    obtain ⟨account, found⟩ := Option.isSome_iff_exists.mp (each validator List.mem_cons_self)
    have step : s.activate validator =
        some (s.setAccount validator.nodeKey.val { account with status := .active }) := by
      rw [LiveState.activate, found]
      rfl
    rw [List.foldlM_cons, step]
    refine ih fun other member => ?_
    rw [LiveState.data_setAccount, StateData.getAccount, SortedMap.find?_insert]
    split
    · rfl
    · exact each other (List.mem_cons_of_mem _ member)

/-- The transition goes through if every scheduled validator has an account. -/
theorem exists_applyCommitteeTransition (key : PublicKey)
    (each : ∀ validator ∈ s.scheduled (s.epoch + 1),
      (s.getAccount validator.nodeKey.val).isSome = true) :
    ∃ result, s.applyCommitteeTransition key = some result := by
  unfold LiveState.applyCommitteeTransition
  dsimp only
  split
  · exact ⟨_, rfl⟩
  · have each : ∀ validator ∈ s.resetPendingActiveValidatorExits.scheduled (s.epoch + 1),
        (s.resetPendingActiveValidatorExits.getAccount validator.nodeKey.val).isSome = true := each
    obtain ⟨activated, run⟩ := exists_foldlM_activate each
    rw [StateData.scheduled] at run
    rw [run]
    exact ⟨_, rfl⟩

/-- Who is active after the transition, in terms of the two lists. -/
theorem Transition.active_iff {removed : List PublicKey}
    (transition : Transition added removed pubkey before after) :
    after = .active ↔ (∀ key ∈ removed, key.val ≠ pubkey) ∧
      (before = .active ∨ ∃ validator ∈ added, validator.nodeKey.val = pubkey) := by
  obtain ⟨mid, activated, departed⟩ := transition
  by_cases leaves : ∃ key ∈ removed, key.val = pubkey
  · have out := departed.1 leaves
    refine ⟨?_, fun both => ?_⟩
    · rintro rfl
      cases out
    · obtain ⟨key, member, same⟩ := leaves
      exact absurd same (both.1 key member)
  · have stays : ∀ key ∈ removed, key.val ≠ pubkey := fun key member same =>
      leaves ⟨key, member, same⟩
    rw [departed.2 stays]
    by_cases joins : ∃ validator ∈ added, validator.nodeKey.val = pubkey
    · exact ⟨fun _ => ⟨stays, Or.inr joins⟩, fun _ => activated.1 joins⟩
    · rw [activated.2 fun validator member same => joins ⟨validator, member, same⟩]
      exact ⟨fun active => ⟨stays, Or.inl active⟩, fun both => both.2.resolve_right joins⟩

/-! ### The queued parameters -/

/-- Only the parameters differ. -/
def SameButParams (data data' : StateData) : Prop :=
  data' =
    { data with
      validatorMinimumStake := data'.validatorMinimumStake
      allowedTimestampFutureMs := data'.allowedTimestampFutureMs
      treasuryAddress := data'.treasuryAddress
      maxDepositsPerEpoch := data'.maxDepositsPerEpoch
      maxWithdrawalsPerEpoch := data'.maxWithdrawalsPerEpoch
      observersPerValidator := data'.observersPerValidator
      maxValidatorCount := data'.maxValidatorCount
      minimumValidatorCount := data'.minimumValidatorCount
      invalidDepositTax := data'.invalidDepositTax
      maxPendingWithdrawalsPerValidator := data'.maxPendingWithdrawalsPerValidator
      epocher := data'.epocher }

theorem SameButParams.trans (one : SameButParams first second) (two : SameButParams second third) :
    SameButParams first third := by
  rw [SameButParams] at one two ⊢
  rw [two, one]

/-- The stake and the two counts that the prospective values are about. -/
structure StoredAs (params : List ProtocolParam) (data data' : StateData) : Prop where
  same : SameButParams data data'
  minimumStake : data'.validatorMinimumStake =
    (params.reverse.findSome? StateData.asMinimumStake).getD data.validatorMinimumStake
  minimumCount : data'.minimumValidatorCount =
    (params.reverse.findSome? StateData.asMinimumValidatorCount).getD data.minimumValidatorCount
  maximumCount : data'.maxValidatorCount =
    (params.reverse.findSome? StateData.asMaxValidatorCount).getD data.maxValidatorCount

theorem storedAs_applyParam {param : ProtocolParam} (result : s.applyParam param = some s') :
    StoredAs [param] s.toStateData s'.toStateData := by
  cases param with
  | epochLength length =>
    obtain ⟨-, epocher, -, rfl⟩ := LiveState.applyParam_epochLength result
    exact ⟨rfl, rfl, rfl, rfl⟩
  | observersPerValidator value =>
    exact LiveState.applyParam_observers result ▸ ⟨rfl, rfl, rfl, rfl⟩
  | invalidDepositTax value =>
    rcases LiveState.applyParam_tax result with rfl | ⟨-, rfl⟩ <;> exact ⟨rfl, rfl, rfl, rfl⟩
  | _ => exact Option.some.inj result ▸ ⟨rfl, rfl, rfl, rfl⟩

theorem getD_findSome?_cons (pick : ProtocolParam → Option Nat) (param : ProtocolParam)
    (params : List ProtocolParam) (current : Nat) :
    ((param :: params).reverse.findSome? pick).getD current =
      (params.reverse.findSome? pick).getD (([param].reverse.findSome? pick).getD current) := by
  rw [List.reverse_cons, List.findSome?_append, List.reverse_singleton]
  cases params.reverse.findSome? pick <;> rfl

/-- **The last queued value is stored.** -/
theorem storedAs_foldlM {params : List ProtocolParam}
    (run : params.foldlM LiveState.applyParam s = some s') :
    StoredAs params s.toStateData s'.toStateData := by
  induction params generalizing s with
  | nil =>
    obtain rfl := Option.some.inj run
    exact ⟨rfl, rfl, rfl, rfl⟩
  | cons param params ih =>
    obtain ⟨mid, first, later⟩ := Run.foldlM_cons_some run
    have one := storedAs_applyParam first
    have two := ih later
    refine ⟨one.same.trans two.same, ?_, ?_, ?_⟩
    · rw [two.minimumStake, one.minimumStake, ← getD_findSome?_cons]
    · rw [two.minimumCount, one.minimumCount, ← getD_findSome?_cons]
    · rw [two.maximumCount, one.maximumCount, ← getD_findSome?_cons]

theorem applyProtocolParameterChanges_stores
    (applied : s.applyProtocolParameterChanges = some result) :
    SameButParams { s.toStateData with protocolParamChanges := [] } result.1.toStateData ∧
      result.1.validatorMinimumStake = s.checked.prospectiveMinimumStake ∧
      result.1.minimumValidatorCount = s.checked.prospectiveMinimumValidatorCount ∧
      result.1.maxValidatorCount = s.checked.prospectiveMaxValidatorCount := by
  obtain ⟨changed, run, rfl⟩ := Option.map_eq_some_iff.mp applied
  have stored := storedAs_foldlM run
  rw [LiveState.data_rejectInvalidValidatorCountChanges] at stored
  have same := stored.same
  refine ⟨?_, stored.minimumStake, stored.minimumCount, stored.maximumCount⟩
  rw [SameButParams, LiveState.data_setProtocolParamChanges, same]

/-! ### The whole boundary -/

theorem data_enterNextEpoch (s : LiveState) (digest : Digest) :
    (s.enterNextEpoch digest).toStateData =
      { s.toStateData with
        epoch := s.epoch + 1
        view := 0
        epocher := s.epocher.advanceEpoch (s.epoch + 1)
        epochGenesisHash := digest
        addedValidators := s.addedValidators.erase (s.epoch + 1)
        removedValidators := [] } := by
  unfold LiveState.enterNextEpoch
  dsimp only
  split
  · simp
  · next none_ =>
    have empty : s.removedValidators = [] := by simpa using none_
    simp [empty]

/-- What the boundary does to the data, but for the parameters other than the three above. -/
structure Crosses (before after : StateData) : Prop where
  epoch : after.epoch = before.epoch + 1
  accounts : Restatus
    (Transition (before.scheduled (before.epoch + 1)) before.removedValidators)
    before.validatorAccounts after.validatorAccounts
  withdrawals : after.withdrawalQueue = before.withdrawalQueue
  deposits : after.depositQueue = before.depositQueue
  requests : after.pendingExecutionRequests = before.pendingExecutionRequests
  added : after.addedValidators = before.addedValidators.erase (before.epoch + 1)
  removed : after.removedValidators = []
  exits : after.pendingActiveValidatorExits = 0
  params : after.protocolParamChanges = []
  minimumStake : after.validatorMinimumStake = before.checked.prospectiveMinimumStake
  minimumCount : after.minimumValidatorCount = before.checked.prospectiveMinimumValidatorCount
  maximumCount : after.maxValidatorCount = before.checked.prospectiveMaxValidatorCount

theorem boundary_eq_some {digest : Digest} {checkpoint : Option Checkpoint}
    (result : s.boundary key digest = some (s', checkpoint)) :
    ∃ changed moved, s.applyProtocolParameterChanges = some changed ∧
      changed.1.applyCommitteeTransition key = some moved ∧
      s' = moved.1.takePendingCheckpoint.2.enterNextEpoch digest := by
  obtain ⟨changed, applied, rest⟩ := Option.bind_eq_some_iff.mp result
  obtain ⟨moved, transition, pair⟩ := Option.map_eq_some_iff.mp rest
  exact ⟨changed, moved, applied, transition, (Prod.mk.inj pair).1.symm⟩

/-- **The boundary.** -/
theorem crosses_boundary {digest : Digest} {checkpoint : Option Checkpoint}
    (result : s.boundary key digest = some (s', checkpoint)) :
    Crosses s.toStateData s'.toStateData := by
  obtain ⟨changed, moved, applied, transition, rfl⟩ := boundary_eq_some result
  obtain ⟨same, stake, low, high⟩ := applyProtocolParameterChanges_stores applied
  obtain ⟨same', restatus⟩ := restatus_applyCommitteeTransition transition
  have accounts : changed.1.validatorAccounts = s.validatorAccounts := by rw [same]
  have scheduled : changed.1.scheduled (changed.1.epoch + 1) = s.scheduled (s.epoch + 1) := by
    rw [same]
    rfl
  have removed : changed.1.removedValidators = s.removedValidators := by rw [same]
  rw [accounts, scheduled, removed] at restatus
  simp only [LiveState.takePendingCheckpoint, data_enterNextEpoch,
    LiveState.data_setPendingCheckpoint]
  constructor
  case accounts => exact restatus
  case removed => rfl
  case exits => rw [same']
  case minimumStake => rw [same', stake]
  case minimumCount => rw [same', low]
  case maximumCount => rw [same', high]
  all_goals rw [same', same]

end Summit
