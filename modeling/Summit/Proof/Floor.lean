/-
**The floor under the number of validators.**

Exits are admitted one by one against a budget, removals for want of stake as a group, and both
against the prospective minimum. While a batch is processed the budget is at least the number of
exits (`Tally`), so whoever is left suffices; a removal of a group counts those who are left
(`retainedCount`). From then on nobody else leaves: payouts spare active validators, and the boundary
stores the minimum that the batch was processed with (`Agreed`).
-/

import Summit.Proof.Cap
import Summit.Proof.Exits

set_option linter.unusedSectionVars false

namespace Summit

section Floor

variable [Crypto]

/-! ### Positive minimum stakes -/

/-- The parameter changes that the buffered requests ask for and the parser accepts. -/
def LiveState.requestedParams (s : LiveState) : List ProtocolParam :=
  (LiveState.parseEntries s.pendingExecutionRequests).filterMap LiveState.paramOf

/-- Only positive minimum stakes are asked for. -/
def PositiveStakes (s : EpochState) (event : EpochEvent) : Prop :=
  ∀ domain, event = .process domain →
    ∀ value, .minimumStake value ∈ s.live.requestedParams → 0 < value

/-- The stored and the prospective minimum stake are positive. -/
def KeyView.Positive (view : KeyView) : Prop := 0 < view.minimumStake ∧ 0 < view.prospectiveStake

variable {warmUp delay minStake n : Nat} {pubkey : Bytes32} {view view' : KeyView}
  {phase phase' : Phase} {start : LiveState} {reached : EpochState} {data data' : StateData}
  {account : ValidatorAccount}

theorem KeyMove.stakes (move : KeyMove warmUp delay pubkey view view') :
    view'.minimumStake = view.minimumStake ∧ view'.prospectiveStake = view.prospectiveStake := by
  cases move <;> exact ⟨rfl, rfl⟩

theorem KeyRemoval.stakes (removal : KeyRemoval minStake view view') :
    view'.minimumStake = view.minimumStake ∧ view'.prospectiveStake = view.prospectiveStake := by
  cases removal <;> exact ⟨rfl, rfl⟩

theorem KeyStep.positive (step : KeyStep warmUp delay pubkey view phase phase' view')
    (queued : phase = .collecting → phase' = .processed → 0 < view'.prospectiveStake)
    (positive : view.Positive) : view'.Positive := by
  cases step with
  | touch => exact positive
  | process stake bounded moves =>
    refine ⟨?_, queued rfl rfl⟩
    clear queued
    induction moves with
    | refl => exact positive.1
    | tail _ last ih => exact last.stakes.1 ▸ ih
  | retain => exact ⟨positive.1, positive.1⟩
  | remove removals settled =>
    clear settled queued
    induction removals with
    | refl => exact positive
    | tail _ last ih => exact ⟨last.stakes.1 ▸ ih.1, last.stakes.2 ▸ ih.2⟩
  | pay => exact positive
  | cross => exact ⟨positive.2, positive.2⟩

theorem prospectiveMinimumStake_process_pos {s : LiveState} (domain : Digest) (warmUp delay : Nat)
    (each : ∀ value, .minimumStake value ∈ s.requestedParams → 0 < value)
    (positive : 0 < s.prospectiveMinimumStake) :
    0 < (s.processBufferedRequests domain warmUp delay).prospectiveMinimumStake := by
  have processed : Transfers warmUp delay _ _ _ _ := transfers_processBufferedRequests domain s
  obtain ⟨n, moves, -⟩ := processed
  have same := moves.settings
  have stake : (s.processBufferedRequests domain warmUp delay).prospectiveMinimumStake =
      s.stagedBatch.prospectiveMinimumStake := by
    rw [same]
    rfl
  rw [stake, data_stagedBatch_queueParams]
  exact prospectiveMinimumStake_queueParams (P := (0 < ·)) each positive

/-- **Positive requests make for positive floors.** -/
theorem floored_of_positive (genesis : start.AtGenesis) (positive : 0 < start.validatorMinimumStake)
    (reaches : EpochState.Reaches warmUp delay PositiveStakes ⟨.collecting, start⟩ reached) :
    EpochState.Reaches warmUp delay FlooredPayouts ⟨.collecting, start⟩ reached ∧
      (reached.live.keyView zeroChunk).Positive := by
  induction reaches with
  | refl =>
    have prospective : start.prospectiveMinimumStake = start.validatorMinimumStake :=
      prospective_of_none _ _ (by rw [genesis.params]; simp)
    exact ⟨.refl, positive, lt_of_lt_of_eq positive prospective.symm⟩
  | @tail mid _ _ last ih =>
    obtain ⟨event, allowed, result⟩ := last
    have indexed := EpochState.Reaches.indexed ih.1 genesis.indexed
    refine ⟨ih.1.tail ⟨event, fun _ => ih.2.2, result⟩, ?_⟩
    refine (keyStep_of_epochStep zeroChunk (epochStep_of_step indexed result).1).positive
      (fun before after => ?_) ih.2
    have passes := EpochState.passes_of_step result
    rw [before, after] at passes
    obtain ⟨domain, rfl⟩ := passes.process
    obtain ⟨-, same⟩ := Option.ite_none_right_eq_some.mp result
    obtain rfl := Option.some.inj same
    exact prospectiveMinimumStake_process_pos domain warmUp delay (allowed domain rfl) ih.2.2

/-! ### Counting -/

/-- The active accounts. -/
def StateData.activeCount (data : StateData) : Nat :=
  data.countStatus fun status => status = .active

/-- The accounts that have asked to leave. -/
def StateData.exitingCount (data : StateData) : Nat :=
  data.countStatus fun status => status = .submittedExitRequest

theorem countStatus_signers (data : StateData) :
    data.countStatus ValidatorStatus.isCurrentEpochSigner =
      data.activeCount + data.exitingCount := by
  unfold StateData.activeCount StateData.exitingCount StateData.countStatus
  induction data.validatorAccounts.entries with
  | nil => rfl
  | cons entry rest ih =>
    rw [List.countP_cons, List.countP_cons, List.countP_cons, ih]
    cases entry.2.status <;> simp [ValidatorStatus.isCurrentEpochSigner] <;> omega

/-- An account of the same kind in the place of another, or of no kind that counts. -/
theorem countStatus_putAccount {p : ValidatorStatus → Bool}
    (same : (∃ old, data.getAccount pubkey = some old ∧ p old.status = p account.status) ∨
      data.getAccount pubkey = none ∧ p account.status = false) :
    (data.putAccount pubkey account).countStatus p = data.countStatus p := by
  rcases same with ⟨old, found, kind⟩ | ⟨absent, kind⟩
  · have counted := SortedMap.count_insert_of_some (p := fun entry => p entry.2.status)
      (w := account) found
    rw [kind] at counted
    exact Nat.add_right_cancel counted
  · refine (SortedMap.count_insert_of_none (p := fun entry => p entry.2.status) (w := account)
      absent).trans ?_
    rw [kind]
    rfl

/-- What a change does to the counts: nothing, or one exit under the budget. -/
theorem Change.counts (change : Change warmUp delay data n data') :
    (data'.activeCount = data.activeCount ∧ data'.exitingCount = data.exitingCount ∧
      data'.pendingActiveValidatorExits = data.pendingActiveValidatorExits ∧
      data'.removedValidators = data.removedValidators) ∨
    (data.canAcceptActiveValidatorExit = true ∧ data'.activeCount + 1 = data.activeCount ∧
      data'.exitingCount = data.exitingCount + 1 ∧
      data'.pendingActiveValidatorExits = saturatingAdd data.pendingActiveValidatorExits 1) := by
  cases change with
  | refund | withdraw => exact Or.inl ⟨rfl, rfl, rfl, rfl⟩
  | credit request account credits =>
    have same (p : ValidatorStatus → Bool) (idle : p .inactive = false) :
        (data.putAccount request.nodePubkey.val (account.credit request)).countStatus p =
          data.countStatus p := by
      refine countStatus_putAccount ?_
      rcases credits with found | ⟨absent, inactive, -⟩
      · exact Or.inl ⟨account, found, rfl⟩
      · refine Or.inr ⟨absent, ?_⟩
        rw [ValidatorAccount.credit, inactive]
        exact idle
    exact Or.inl ⟨same (· = .active) rfl, same (· = .submittedExitRequest) rfl, rfl, rfl⟩
  | join request account credits inactive =>
    have same (p : ValidatorStatus → Bool) (idle : p .inactive = false) (joins : p .joining = false) :
        (data.putAccount request.nodePubkey.val
          ((account.credit request).joinAt (data.epoch + warmUp))).countStatus p =
          data.countStatus p := by
      refine countStatus_putAccount ?_
      rcases credits with found | ⟨absent, -⟩
      · refine Or.inl ⟨account, found, ?_⟩
        rw [inactive, idle]
        exact joins.symm
      · exact Or.inr ⟨absent, joins⟩
    exact Or.inl ⟨same (· = .active) rfl rfl, same (· = .submittedExitRequest) rfl rfl, rfl, rfl⟩
  | exit key account found active accepted =>
    have counted (p : ValidatorStatus → Bool) :=
      SortedMap.count_insert_of_some (p := fun entry : Bytes32 × ValidatorAccount => p entry.2.status)
        (w := account.withStatus .submittedExitRequest) found
    have actives := counted fun status => status = .active
    have exiting := counted fun status => status = .submittedExitRequest
    rw [active] at actives exiting
    exact Or.inr ⟨accepted, actives, exiting, rfl⟩
  | cancel pubkey account found joining =>
    have same (p : ValidatorStatus → Bool) (joins : p .joining = p .inactive) :
        (data.putAccount pubkey (account.withStatus .inactive)).countStatus p =
          data.countStatus p :=
      countStatus_putAccount (Or.inl ⟨account, found, by rw [joining, joins]; rfl⟩)
    exact Or.inl ⟨same (· = .active) rfl, same (· = .submittedExitRequest) rfl, rfl, rfl⟩
  | retire pubkey account found inactive =>
    have same (p : ValidatorStatus → Bool) (idle : p .inactive = p .fullPayoutPending) :
        (data.putAccount pubkey (account.withStatus .fullPayoutPending)).countStatus p =
          data.countStatus p :=
      countStatus_putAccount (Or.inl ⟨account, found, by rw [inactive, idle]; rfl⟩)
    exact Or.inl ⟨same (· = .active) rfl, same (· = .submittedExitRequest) rfl, rfl, rfl⟩

/-- The budget counts every exit, and whoever left has left enough. -/
structure Tally (data : StateData) : Prop where
  budget : data.prospectiveMinimumValidatorCount = 0 ∨
    data.exitingCount ≤ data.pendingActiveValidatorExits
  floor : data.removedValidators = [] ∨ data.prospectiveMinimumValidatorCount ≤ data.activeCount

theorem Tally.change (tally : Tally data) (change : Change warmUp delay data n data') :
    Tally data' := by
  have minimum : data'.prospectiveMinimumValidatorCount = data.prospectiveMinimumValidatorCount :=
    congrArg Prod.fst change.settings.1.prospectivePair
  rcases change.counts with ⟨active, exiting, exits, removed⟩ | ⟨accepted, active, exiting, exits⟩
  · refine ⟨?_, ?_⟩
    · rw [minimum, exiting, exits]
      exact tally.budget
    · rw [minimum, active, removed]
      exact tally.floor
  · have enough := of_decide_eq_true accepted
    rw [StateData.currentEpochActiveValidatorCount, countStatus_signers] at enough
    have wraps := Nat.mod_le (data.activeCount + data.exitingCount) (2 ^ 64)
    have small := Nat.mod_lt (data.activeCount + data.exitingCount) (Nat.two_pow_pos 64)
    have budget := tally.budget
    rw [saturatingAdd, u64Max] at enough exits
    constructor
    · rw [minimum, exiting, exits]
      omega
    · right
      rw [minimum]
      omega

theorem Tally.moves (tally : Tally data) (moves : Moves warmUp delay data n data') :
    Tally data' := by
  induction moves with
  | refl => exact tally
  | tail _ step ih =>
    cases step with
    | change change => exact ih.change change
    | deposits queue => exact ⟨ih.budget, ih.floor⟩

/-! ### Whoever stays -/

/-- The active accounts that are not among the removed. -/
def StateData.stayerCount (data : StateData) : Nat :=
  data.validatorAccounts.count fun entry =>
    entry.2.status = .active ∧ entry.1 ∉ data.alreadyRemoved

def KeyView.Stays (view : KeyView) : Prop :=
  view.status = some .active ∧ view.departures = 0

theorem departures_eq_zero_iff (pubkey : Bytes32) :
    (data.keyView pubkey).departures = 0 ↔ pubkey ∉ data.alreadyRemoved := by
  rw [← not_iff_not, not_not, ← ne_eq, ← Nat.pos_iff_ne_zero, departures_pos_iff]
  simp [StateData.alreadyRemoved]

theorem stays_iff (found : data.getAccount pubkey = some account) :
    (data.keyView pubkey).Stays ↔ account.status = .active ∧ pubkey ∉ data.alreadyRemoved := by
  rw [KeyView.Stays, KeyView.status_of_some found, Option.some_inj, departures_eq_zero_iff]

/-- If everyone who is counted stays, there are as many stayers. -/
theorem count_le_stayerCount {p : Bytes32 × ValidatorAccount → Bool}
    (into : ∀ pubkey account, data.getAccount pubkey = some account → p (pubkey, account) = true →
      (data'.keyView pubkey).Stays) : data.validatorAccounts.count p ≤ data'.stayerCount := by
  refine SortedMap.count_le_count fun pubkey account found holds => ?_
  have stays := into pubkey account found holds
  obtain ⟨after, found', -⟩ := Option.map_eq_some_iff.mp stays.1
  exact ⟨after, found', decide_eq_true ((stays_iff found').mp stays)⟩

theorem stayerCount_le_stayerCount
    (into : ∀ pubkey, (data.keyView pubkey).Stays → (data'.keyView pubkey).Stays) :
    data.stayerCount ≤ data'.stayerCount :=
  count_le_stayerCount fun pubkey _ found holds =>
    into pubkey ((stays_iff found).mpr (of_decide_eq_true holds))

/-- While requests are processed, whoever is active stays. -/
theorem activeCount_le_stayerCount (life : ∀ pubkey, Lifecycle .processed (data.keyView pubkey)) :
    data.activeCount ≤ data.stayerCount := by
  refine count_le_stayerCount fun pubkey account found active => ?_
  have status : (data.keyView pubkey).status = _ := KeyView.status_of_some found
  rw [of_decide_eq_true active] at status
  have leaving := (life pubkey).leaving
  rw [KeyView.Leaving, status] at leaving
  exact ⟨status, leaving.trans (if_neg (by decide))⟩

/-- Whoever has the stake is not removed for want of it. -/
theorem stays_of_removals (removals : Relation.ReflTransGen (KeyRemoval minStake) view view')
    (found : view.account = some account) (active : account.status = .active)
    (enough : minStake ≤ account.balance) (stays : view.Stays) : view' = view := by
  induction removals with
  | refl => rfl
  | tail _ last ih =>
    subst ih
    cases last with
    | cancel other here joining =>
      obtain rfl := Option.some.inj (found.symm.trans here)
      rw [active] at joining
      cases joining
    | stage other here _ below =>
      obtain rfl := Option.some.inj (found.symm.trans here)
      exact absurd below (Nat.not_lt.mpr enough)

theorem stays_pay {due entries : List PendingWithdrawal} (backed : view.Backed delay)
    (member : ∀ entry ∈ due, entry.kind = .validator → entry.pubkey = pubkey →
      entry ∈ view.entries ∧ entry.epoch ≤ view.epoch) (floor : 0 < view.prospectiveStake)
    (stays : view.Stays) : (view.pay pubkey due entries).Stays := by
  obtain ⟨account, found, active⟩ := Option.map_eq_some_iff.mp stays.1
  refine ⟨?_, stays.2⟩
  rw [KeyView.status, account_pay_of_some found,
    paid_of_signer backed found (by rw [active]; rfl) (Or.inl active) member floor]
  exact congrArg some active

theorem status_cross_of_stays {after : ValidatorStatus} (orderly : view.Orderly)
    (passes : ∀ account, view.account = some account → view.Passes account.status after)
    (stays : view.Stays) : (view.cross after).status = some .active := by
  obtain ⟨account, found, active⟩ := Option.map_eq_some_iff.mp stays.1
  rw [status_cross found]
  have slots := orderly.scheduled (view.epoch + 1) (Nat.lt_succ_self _)
  rw [KeyView.joins_of_status (by rw [stays.1]; nofun)] at slots
  rw [(passes account found).kept stays.2 slots, active]

/-! ### The second check -/

/-- A check of the counts would drop nothing. -/
def Agreed (data : StateData) : Prop :=
  (∀ param ∈ data.protocolParamChanges, StateData.asMinimumValidatorCount param = none ∧
    StateData.asMaxValidatorCount param = none) ∨
  data.prospectiveMinimumValidatorCount ≤ data.prospectiveMaxValidatorCount ∧
    (data.protocolParamChanges.any StateData.isMaxValidatorCount = false ∨
      data.activeOrJoiningValidatorCount ≤ data.prospectiveMaxValidatorCount)

theorem Agreed.consistentChanges (agreed : Agreed data) :
    data.consistentChanges = data.protocolParamChanges := by
  rcases agreed with none_ | ⟨ordered, within⟩
  · have absent : data.protocolParamChanges.any StateData.isMaxValidatorCount = false :=
      List.any_eq_false.mpr fun param member => by
        rw [StateData.isMaxValidatorCount, (none_ param member).2]
        exact Bool.false_ne_true
    have capped : data.cappedChanges = data.protocolParamChanges := if_neg fun drops => by
      rw [absent] at drops
      cases drops.2.1
    rw [StateData.consistentChanges, capped]
    split
    · refine List.filter_eq_self.mpr fun param member => ?_
      rw [StateData.isMinimumValidatorCount, StateData.isMaxValidatorCount, (none_ param member).1,
        (none_ param member).2]
      rfl
    · rfl
  · have capped : data.cappedChanges = data.protocolParamChanges := if_neg fun drops => by
      rcases within with absent | seated
      · rw [absent] at drops
        cases drops.2.1
      · exact absurd drops.2.2 (Nat.not_lt.mpr seated)
    rw [StateData.consistentChanges, capped]
    exact if_neg (Nat.not_lt.mpr ordered)

/-- **The check agrees with itself.** -/
theorem agreed_checked (data : StateData) : Agreed data.checked := by
  rcases consistentChanges_cases data with dropped | ⟨same, ordered⟩
  · exact Or.inl dropped
  refine Or.inr ?_
  rw [StateData.checked, same]
  refine ⟨?_, ?_⟩
  · rw [StateData.prospectiveMinimumValidatorCount,
      prospective_capped data fun param => not_max_of_asMinimumValidatorCount]
    exact ordered
  unfold StateData.cappedChanges at ordered ⊢
  split
  · left
    refine List.any_eq_false.mpr fun param member max => ?_
    have kept := (List.mem_filter.mp member).2
    rw [max] at kept
    cases kept
  · next fits =>
    rw [if_neg fits] at ordered
    by_cases any : data.protocolParamChanges.any StateData.isMaxValidatorCount = true
    · exact Or.inr (Nat.le_of_not_lt fun below => fits ⟨ordered, any, below⟩)
    · exact Or.inl (Bool.eq_false_iff.mpr any)

/-- Nothing that leaves the pair and takes no seat disturbs the check. -/
theorem Agreed.mono (agreed : Agreed data)
    (part : ∀ param ∈ data'.protocolParamChanges, param ∈ data.protocolParamChanges)
    (pair : data'.prospectivePair = data.prospectivePair)
    (seats : data.activeOrJoiningValidatorCount ≤ data.prospectiveMaxValidatorCount →
      data'.activeOrJoiningValidatorCount ≤ data'.prospectiveMaxValidatorCount) : Agreed data' := by
  obtain ⟨low, high⟩ := Prod.mk.inj pair
  rcases agreed with none_ | ⟨ordered, within⟩
  · exact Or.inl fun param member => none_ param (part param member)
  · refine Or.inr ⟨by rw [low, high]; exact ordered, within.imp (fun absent => ?_) seats⟩
    exact List.any_eq_false.mpr fun param member => List.any_eq_false.mp absent param (part param member)

/-! ### Steps -/

/-- Whoever is removed leaves enough behind, and the check at the boundary drops nothing. -/
structure Floored (phase : Phase) (data : StateData) : Prop where
  agreed : phase ≠ .collecting → Agreed data
  floor : phase ≠ .collecting → data.removedValidators = [] ∨
    data.prospectiveMinimumValidatorCount ≤ data.stayerCount

theorem tally_of_collecting (batch : List ProtocolParam)
    (life : ∀ pubkey, Lifecycle .collecting (data.keyView pubkey)) :
    Tally (data.queueParams batch) := by
  have removed : data.removedValidators = [] := by
    refine List.eq_nil_iff_forall_not_mem.mpr fun key member => ?_
    have leaves := (departures_pos_iff key.val).mpr ⟨key, member, rfl⟩
    rw [(life key.val).leaving.1] at leaves
    cases leaves
  have exiting : data.exitingCount = 0 := by
    refine List.countP_eq_zero.mpr fun entry member submitted => ?_
    have found : (data.keyView entry.1).account = some entry.2 :=
      SortedMap.find?_eq_some_iff.mpr member
    refine (life entry.1).leaving.2 ?_
    rw [KeyView.status_of_some found, of_decide_eq_true submitted]
  exact ⟨Or.inr (exiting.trans_le (Nat.zero_le _)), Or.inl removed⟩

/-- **A step keeps the floor.** -/
theorem EpochStep.floored (step : EpochStep warmUp delay data phase phase' data')
    (life : ∀ pubkey, Lifecycle phase (data.keyView pubkey))
    (backed : ∀ pubkey, (data.keyView pubkey).Backed delay)
    (positive : phase = .staged → phase' = .paid → 0 < data.prospectiveMinimumStake)
    (floored : Floored phase data) : Floored phase' data' := by
  have seats (later : phase ≠ .collecting) :
      data'.activeOrJoiningValidatorCount ≤ data.activeOrJoiningValidatorCount :=
    seats_le_of_seated fun pubkey =>
      (keyStep_of_epochStep pubkey step).seated (life pubkey) later
  -- inside an epoch the pair stays and seats are only given up
  have agreed (later : phase ≠ .collecting) (before : phase' ≠ .collecting)
      (part : ∀ param ∈ data'.protocolParamChanges, param ∈ data.protocolParamChanges) :
      Agreed data' := by
    have pair := step.prospectivePair later before
    refine (floored.agreed later).mono part pair fun seated => ?_
    rw [(Prod.mk.inj pair).2]
    exact (seats later).trans seated
  have minimum (later : phase ≠ .collecting) (before : phase' ≠ .collecting) :
      data'.prospectiveMinimumValidatorCount = data.prospectiveMinimumValidatorCount :=
    (Prod.mk.inj (step.prospectivePair later before)).1
  have keyStep (pubkey : Bytes32) := keyStep_of_epochStep pubkey step
  cases step with
  | touch phase same =>
    rw [same]
    exact ⟨floored.agreed, floored.floor⟩
  | @process batch _ _ accepted moves =>
    have queued : Agreed (data.queueParams batch) :=
      agreed_checked { data with protocolParamChanges := data.protocolParamChanges ++ batch }
    have settings := moves.settings
    have pair := settings.prospectivePair
    refine ⟨fun _ => queued.mono ?_ pair moves.seats, fun _ => ?_⟩
    · rw [SameSettings] at settings
      rw [settings]
      exact fun param member => member
    · refine ((tally_of_collecting batch life).moves moves).floor.imp_right fun enough => ?_
      exact enough.trans (activeCount_le_stayerCount fun pubkey => (keyStep pubkey).lifecycle (life pubkey))
  | keep => exact ⟨fun _ => floored.agreed (by decide), fun _ => floored.floor (by decide)⟩
  | drop few =>
    refine ⟨fun _ => agreed (by decide) (by decide) fun param member => (List.mem_filter.mp member).1,
      fun _ => (floored.floor (by decide)).imp_right fun enough => ?_⟩
    rw [minimum (by decide) (by decide)]
    exact enough
  | remove enough removals settled =>
    have settings := removals.settings.1
    refine ⟨fun _ => agreed (by decide) (by decide) ?_, fun _ => Or.inr ?_⟩
    · rw [SameSettings] at settings
      rw [settings]
      exact fun param member => member
    · rw [minimum (by decide) (by decide)]
      refine enough.trans (count_le_stayerCount fun pubkey account found retained => ?_)
      obtain ⟨active, stake, absent⟩ := of_decide_eq_true retained
      have stays := (stays_iff found).mpr ⟨active, absent⟩
      rw [stays_of_removals (removals.keyRemovals pubkey) found active stake stays]
      exact stays
  | pay due front frontRefunds paid =>
    refine ⟨fun _ => agreed (by decide) (by decide) ?_, fun _ => ?_⟩
    · rw [paid.data]
      exact fun param member => member
    · rw [minimum (by decide) (by decide)]
      refine (floored.floor (by decide)).imp (fun none_ => ?_) fun enough => ?_
      · rw [paid.data]
        exact none_
      · refine enough.trans (stayerCount_le_stayerCount fun pubkey stays => ?_)
        have step := keyStep pubkey
        generalize data'.keyView pubkey = view' at step
        cases step with
        | pay due entries member rest =>
          exact stays_pay (backed pubkey) member (positive rfl rfl) stays
  | cross crosses => exact ⟨fun inside => absurd rfl inside, fun inside => absurd rfl inside⟩

/-- Those who stay are active after the boundary. -/
theorem stayerCount_le_activeCount (life : ∀ pubkey, Lifecycle .paid (data.keyView pubkey))
    (crosses : Crosses data data') : data.stayerCount ≤ data'.activeCount := by
  refine SortedMap.count_le_count fun pubkey account found stays => ?_
  have step : KeyStep 0 0 pubkey _ _ _ _ := keyStep_cross pubkey crosses
  have active : (data'.keyView pubkey).status = some .active := by
    have stays := (stays_iff found).mpr (of_decide_eq_true stays)
    generalize data'.keyView pubkey = view' at step
    cases step with
    | cross after passes => exact status_cross_of_stays (life pubkey).orderly passes stays
  obtain ⟨after, found', status⟩ := Option.map_eq_some_iff.mp active
  exact ⟨after, found', decide_eq_true status⟩

/-! ### Runs -/

theorem floored_of_reaches (genesis : start.AtGenesis)
    (reaches : EpochState.Reaches warmUp delay FlooredPayouts ⟨.collecting, start⟩ reached) :
    Floored reached.phase reached.live.toStateData := by
  induction reaches with
  | refl => exact ⟨fun inside => absurd rfl inside, fun inside => absurd rfl inside⟩
  | tail before last ih =>
    obtain ⟨event, allowed, result⟩ := last
    have indexed := EpochState.Reaches.indexed before genesis.indexed
    refine (epochStep_of_step indexed result).1.floored (lifecycle_of_reaches genesis before)
      (backed_of_reaches genesis before) (fun staged paid => ?_) ih
    have passes := EpochState.passes_of_step result
    rw [staged, paid] at passes
    exact allowed passes.payouts

/-- A signer who is not active after the boundary is among the removed. -/
theorem removed_of_left (life : Lifecycle .paid (data.keyView pubkey))
    (crosses : Crosses data data') (found : data.getAccount pubkey = some account)
    (signs : account.status.isCurrentEpochSigner = true)
    (left : (data'.keyView pubkey).status ≠ some .active) : data.removedValidators ≠ [] := by
  have status : (data.keyView pubkey).status = _ := KeyView.status_of_some found
  have leaves : 0 < (data.keyView pubkey).departures := by
    rw [Nat.pos_iff_ne_zero]
    intro none_
    have active : account.status = .active := by
      cases kind : account.status with
      | active => rfl
      | submittedExitRequest =>
        rw [kind] at status
        have once := life.leaving.2.1 status
        omega
      | _ =>
        rw [kind] at signs
        cases signs
    rw [active] at status
    have step : KeyStep 0 0 pubkey _ _ _ _ := keyStep_cross pubkey crosses
    generalize data'.keyView pubkey = view' at step left
    cases step with
    | cross after passes => exact left (status_cross_of_stays life.orderly passes ⟨status, none_⟩)
  obtain ⟨key, member, -⟩ := (departures_pos_iff pubkey).mp leaves
  exact List.ne_nil_of_mem member

end Floor

/-- **The floor under the number of validators.** In a run with positive minimum stakes, a boundary
at which a validator leaves the committee leaves at least as many active ones as the minimum then in
force. An exit that would break the floor is dropped, and so is a minimum stake that would; neither
removes anybody. -/
theorem minimumValidatorCount_le_active [Crypto] {warmUp delay : Nat} {start : LiveState}
    (genesis : start.AtGenesis) (positive : 0 < start.validatorMinimumStake) {reached : EpochState}
    (run : EpochState.Reaches warmUp delay PositiveStakes ⟨.collecting, start⟩ reached) :
    (∀ key digest crossed, reached.step warmUp delay (.boundary key digest) = some crossed →
      (reached.live.removedValidators ≠ [] ∨
        ∃ pubkey account, reached.live.getAccount pubkey = some account ∧
          account.status.isCurrentEpochSigner = true ∧
          (crossed.live.keyView pubkey).status ≠ some .active) →
      crossed.live.minimumValidatorCount ≤
        crossed.live.countStatus fun status => status = .active) ∧
    (∀ (s : LiveState) (request : WithdrawalRequest) (account : ValidatorAccount),
      s.getAccount request.validatorPubkey = some account → account.status = .active →
      request.amount = 0 → s.canAcceptActiveValidatorExit = false →
      s.applyWithdrawalRequestDeferred request delay = (s, false)) ∧
    (∀ s : LiveState, s.protocolParamChanges.any StateData.isMinimumStake = true →
      s.retainedCount < s.prospectiveMinimumValidatorCount →
      s.enforceMinimumStake.toStateData =
        { s.toStateData with
          protocolParamChanges :=
            s.protocolParamChanges.filter fun param => !StateData.isMinimumStake param }) := by
  refine ⟨fun key digest crossed crossing leaves => ?_, fun s request account found active all full => ?_,
    fun s any few => ?_⟩
  · obtain ⟨floorRun, -⟩ := floored_of_positive genesis positive run
    have floored := floored_of_reaches genesis floorRun
    have life := lifecycle_of_reaches genesis floorRun
    obtain ⟨paid, same⟩ := Option.ite_none_right_eq_some.mp crossing
    obtain ⟨⟨live, checkpoint⟩, result, rfl⟩ := Option.map_eq_some_iff.mp same
    rw [paid] at floored life
    have crosses := crosses_boundary result
    have removed : reached.live.removedValidators ≠ [] := by
      rcases leaves with removed | ⟨pubkey, account, found, signs, left⟩
      · exact removed
      · exact removed_of_left (life pubkey) crosses found signs left
    have stored := (Prod.mk.inj (crosses.storedPair (floored.agreed nofun).consistentChanges)).1
    have enough := (floored.floor nofun).resolve_left removed
    rw [stored]
    exact enough.trans (stayerCount_le_activeCount life crosses)
  · simp only [LiveState.applyWithdrawalRequestDeferred, found]
    split
    · rfl
    split
    · rfl
    split
    · rfl
    rw [LiveState.withdrawActive, if_pos all, full]
    rfl
  · rw [LiveState.enforceMinimumStake, any]
    rw [if_neg (by simp), if_pos few, LiveState.data_setProtocolParamChanges]

open Bytes

attribute [local instance] Crypto.accepting

/-- No request for a zero minimum stake is buffered. -/
def EpochState.asksPositive (s : EpochState) : Bool :=
  s.live.requestedParams.all fun param => param ≠ .minimumStake 0

theorem EpochState.positiveStakes {s : EpochState} (positive : s.asksPositive = true)
    (event : EpochEvent) : PositiveStakes s event := by
  refine fun domain _ value member => Nat.pos_of_ne_zero ?_
  rintro rfl
  have other := List.all_eq_true.mp positive _ member
  exact of_decide_eq_true other rfl

/-- A step that a request for a zero minimum stake stops. -/
def EpochState.positiveStep (warmUp delay : Nat) : EpochState → EpochEvent → Option EpochState :=
  Run.guarded EpochState.asksPositive (EpochState.step warmUp delay)

theorem EpochState.reaches_of_positiveStep {warmUp delay : Nat} {s s' : EpochState}
    {events : List EpochEvent} (run : events.foldlM (EpochState.positiveStep warmUp delay) s = some s') :
    EpochState.Reaches warmUp delay PositiveStakes s s' :=
  Run.reflTransGen_of_guarded run fun _ _ event _ positive result =>
    ⟨event, EpochState.positiveStakes positive event, result⟩

/-- The validator under the zero key asks to leave. -/
def exitRequest : List UInt8 := withdrawalEntry 0 0

/-- One of two leaves, the other one suffices. -/
theorem minimumValidatorCount_le_active_exit :
    (pairGenesis 32 40 40).AtGenesis ∧
    ∃ reached crossed,
      (epochUntilBoundary [exitRequest]).foldlM (EpochState.positiveStep 2 2)
        ⟨.collecting, pairGenesis 32 40 40⟩ = some reached ∧
      reached.live.removedValidators ≠ [] ∧
      reached.step 2 2 (.boundary ⟨zeroChunk, rfl⟩ zeroChunk) = some crossed ∧
      crossed.live.minimumValidatorCount ≤
        crossed.live.countStatus fun status => status = .active := by
  have genesis := atGenesis_pairGenesis 32 40 40
  have positive : 0 < (pairGenesis 32 40 40).validatorMinimumStake := by decide +kernel
  have computed : ((epochUntilBoundary [exitRequest]).foldlM
        (EpochState.positiveStep 2 2) ⟨.collecting, pairGenesis 32 40 40⟩).map
        (fun s => (s.live.removedValidators,
          (s.step 2 2 (.boundary ⟨zeroChunk, rfl⟩ zeroChunk)).isSome)) =
      some ([⟨zeroChunk, rfl⟩], true) := by
    decide +kernel
  obtain ⟨reached, run, facts⟩ := Option.map_eq_some_iff.mp computed
  obtain ⟨removed, crosses⟩ := by simpa only [Prod.mk.injEq] using facts
  obtain ⟨crossed, crossing⟩ := Option.isSome_iff_exists.mp crosses
  have leaves : reached.live.removedValidators ≠ [] := by
    rw [removed]
    nofun
  exact ⟨genesis, reached, crossed, run, leaves, crossing,
    (minimumValidatorCount_le_active genesis positive
      (EpochState.reaches_of_positiveStep run)).1 _ _ _ crossing (Or.inl leaves)⟩

end Summit
