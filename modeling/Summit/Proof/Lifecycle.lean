/-
**The life of a validator.**

What every step of an epoch keeps of one key, whatever the warm-up, the delay and the minimum
stakes: it is scheduled ahead exactly when its account is joining then; a joining account has
nothing in the withdrawal queue, an active one no full exit; and it is removed at most once, when
its account has submitted an exit or lost its stake (`Lifecycle`).
-/

import Summit.Proof.KeyView

set_option linter.unusedSectionVars false

namespace Summit

section Lifecycle

variable [Crypto]

theorem ValidatorStatus.isActiveOrJoining_of_isOutOfCommittee {status : ValidatorStatus}
    (out : status.isOutOfCommittee = true) : status.isActiveOrJoining = false := by
  cases status <;> first | rfl | cases out

namespace KeyView

def status (view : KeyView) : Option ValidatorStatus := view.account.map fun account => account.status

/-- Whether the account joins in `epoch`. -/
def joins (view : KeyView) (epoch : Nat) : Nat :=
  if view.account.any fun account => account.status = .joining ∧ account.joiningEpoch = epoch then 1
  else 0

/-- How a key is removed: by an exit while requests are processed, and then also for want of
stake. -/
def Leaving (view : KeyView) : Phase → Prop
  | .collecting => view.departures = 0 ∧ view.status ≠ some .submittedExitRequest
  | .processed => view.departures = if view.status = some .submittedExitRequest then 1 else 0
  | .staged => view.departures ≤ 1 ∧
      (view.status = some .submittedExitRequest → view.departures = 1) ∧
      (0 < view.departures → view.status.any ValidatorStatus.isCurrentEpochSigner = true)
  | .paid => view.departures ≤ 1 ∧
      (view.status = some .submittedExitRequest → view.departures = 1) ∧
      (0 < view.departures → view.status.all ValidatorStatus.isCurrentEpochSigner = true)

/-- The part of the lifecycle that does not depend on the phase. -/
structure Orderly (view : KeyView) : Prop where
  scheduled : ∀ epoch, view.epoch < epoch → view.slots epoch = view.joins epoch
  quiet : view.status = some .joining → view.entries = []
  partials : view.status = some .active → ∀ entry ∈ view.entries, 0 < entry.inner.amount

variable {view : KeyView} {account : ValidatorAccount}

theorem joins_of_some (found : view.account = some account) (epoch : Nat) :
    view.joins epoch = if account.status = .joining ∧ account.joiningEpoch = epoch then 1 else 0 := by
  simp [joins, found]

theorem status_of_some (found : view.account = some account) :
    view.status = some account.status := by
  rw [status, found]
  rfl

theorem joins_of_status (other : view.status ≠ some .joining) (epoch : Nat) :
    view.joins epoch = 0 := by
  cases found : view.account with
  | none => simp [joins, found]
  | some account =>
    rw [joins_of_some found, if_neg fun both => other ?_]
    rw [status_of_some found, both.1]

/-- An account that deposits can be credited to, in terms of the view. -/
theorem Credits.joins (credits : view.Credits account) (epoch : Nat) :
    view.joins epoch = if account.status = .joining ∧ account.joiningEpoch = epoch then 1 else 0 := by
  rcases credits with found | ⟨absent, inactive, -⟩
  · exact joins_of_some found epoch
  · simp [KeyView.joins, absent, inactive]

theorem Credits.status (credits : view.Credits account) {status : ValidatorStatus}
    (other : status ≠ .inactive) : account.status = status ↔ view.status = some status := by
  rcases credits with found | ⟨absent, inactive, -⟩
  · rw [status_of_some found, Option.some_inj]
  · rw [inactive, KeyView.status, absent]
    exact ⟨fun same => absurd same.symm other, fun same => nomatch same⟩

/-- Giving up an activation ahead leaves no slot there. -/
theorem unslotted_of_joining {epoch : Nat} (joining : account.status = .joining)
    (slots : view.slots epoch =
      if account.status = .joining ∧ account.joiningEpoch = epoch then 1 else 0)
    (ahead : view.epoch < epoch) : view.unslotted account epoch = 0 := by
  rw [unslotted, slots]
  by_cases here : account.joiningEpoch = epoch
  · rw [if_pos ⟨here.symm, here ▸ ahead⟩, if_pos ⟨joining, here⟩]
  · rw [if_neg fun both => here both.1.symm, if_neg fun both => here both.2]

end KeyView

/-! ### Changes -/

variable {view view' : KeyView} {warmUp delay minStake : Nat} {pubkey : Bytes32} {data : StateData}

theorem orderly_cancel {account : ValidatorAccount} (found : view.account = some account)
    (joining : account.status = .joining) (orderly : view.Orderly) :
    { view with
      account := some (account.withStatus .inactive)
      slots := view.unslotted account }.Orderly := by
  refine ⟨fun epoch ahead => ?_, nofun, nofun⟩
  rw [KeyView.joins_of_some rfl, if_neg fun both => nomatch both.1]
  have slots := (orderly.scheduled epoch ahead).trans (KeyView.joins_of_some found epoch)
  exact KeyView.unslotted_of_joining joining slots ahead

theorem KeyMove.orderly (move : KeyMove warmUp delay pubkey view view') (orderly : view.Orderly) :
    view'.Orderly := by
  cases move with
  | credit request account mine credits =>
    refine ⟨fun epoch ahead => ?_, fun joining => ?_, fun active => ?_⟩
    · rw [KeyView.joins_of_some rfl]
      exact (orderly.scheduled epoch ahead).trans (credits.joins epoch)
    · exact orderly.quiet ((credits.status (by decide)).mp (Option.some.inj joining))
    · exact orderly.partials ((credits.status (by decide)).mp (Option.some.inj active))
  | join request account mine credits inactive staked quiet =>
    refine ⟨fun epoch ahead => ?_, fun _ => quiet, nofun⟩
    rw [KeyView.joins_of_some rfl]
    have none_ : view.slots epoch = 0 := by
      rw [orderly.scheduled epoch ahead, credits.joins epoch, if_neg]
      rw [inactive]
      exact fun both => nomatch both.1
    simp only [none_, Nat.zero_add, ValidatorAccount.joinAt, true_and, eq_comm]
  | exit account entry found active all due =>
    refine ⟨fun epoch ahead => ?_, nofun, nofun⟩
    rw [KeyView.joins_of_some rfl, if_neg fun both => nomatch both.1]
    have other : view.status ≠ some .joining := by
      rw [KeyView.status_of_some found, active]
      nofun
    exact (orderly.scheduled epoch ahead).trans (KeyView.joins_of_status other epoch)
  | cancel account found joining => exact orderly_cancel found joining orderly
  | retire account entry found inactive all =>
    refine ⟨fun epoch ahead => ?_, nofun, nofun⟩
    rw [KeyView.joins_of_some rfl, if_neg fun both => nomatch both.1]
    have other : view.status ≠ some .joining := by
      rw [KeyView.status_of_some found, inactive]
      nofun
    exact (orderly.scheduled epoch ahead).trans (KeyView.joins_of_status other epoch)
  | withdraw account entry found positive allowed =>
    refine ⟨orderly.scheduled, fun joining => ?_, fun active => ?_⟩
    · have same := Option.some.inj ((KeyView.status_of_some found).symm.trans joining)
      rcases allowed with ⟨active, -⟩ | ⟨inactive, -⟩
      · rw [active] at same
        cases same
      · rw [inactive] at same
        cases same
    · intro other member
      rcases List.mem_append.mp member with old | new
      · exact orderly.partials active other old
      · rw [List.mem_singleton.mp new]
        exact positive

theorem KeyRemoval.orderly (removal : KeyRemoval minStake view view') (orderly : view.Orderly) :
    view'.Orderly := by
  cases removal with
  | cancel account found joining below =>
    exact orderly_cancel found joining orderly
  | stage account found active below fresh =>
    exact ⟨orderly.scheduled, orderly.quiet, orderly.partials⟩

/-! ### Leaving -/

theorem KeyMove.leaving (move : KeyMove warmUp delay pubkey view view')
    (leaving : view.Leaving .processed) : view'.Leaving .processed := by
  cases move with
  | credit request account mine credits =>
    have same : account.status = .submittedExitRequest ↔ _ := credits.status (by decide)
    refine Eq.trans leaving (if_congr ?_ rfl rfl)
    rw [← same, KeyView.status_of_some rfl, Option.some_inj]
    rfl
  | join request account mine credits inactive staked quiet =>
    have same : account.status = .submittedExitRequest ↔ _ := credits.status (by decide)
    rw [KeyView.Leaving, if_neg fun submitted => ?_] at leaving
    · exact leaving
    · rw [inactive] at same
      cases same.mpr submitted
  | exit account entry found active all due =>
    rw [KeyView.Leaving, KeyView.status_of_some found, active, if_neg nofun] at leaving
    rw [KeyView.Leaving, KeyView.status_of_some rfl, leaving]
    rfl
  | cancel account found joining =>
    rw [KeyView.Leaving, KeyView.status_of_some found, joining, if_neg nofun] at leaving
    exact leaving
  | retire account entry found inactive all =>
    rw [KeyView.Leaving, KeyView.status_of_some found, inactive, if_neg nofun] at leaving
    exact leaving
  | withdraw => exact leaving

theorem KeyRemoval.leaving (removal : KeyRemoval minStake view view')
    (leaving : view.Leaving .staged) : view'.Leaving .staged := by
  obtain ⟨once, submitted, signer⟩ := leaving
  cases removal with
  | cancel account found joining below =>
    refine ⟨once, nofun, fun leaves => ?_⟩
    have signs := signer leaves
    rw [KeyView.status_of_some found, joining] at signs
    cases signs
  | stage account found active below fresh =>
    refine ⟨by rw [fresh], fun _ => by rw [fresh], fun _ => ?_⟩
    rw [KeyView.status, found, Option.map_some, active]
    rfl

/-! ### Payouts -/

section Pay

variable {minStake : Nat} {pubkey : Bytes32} {due : List PendingWithdrawal} {view : KeyView}

variable {account : ValidatorAccount} {entries : List PendingWithdrawal}

theorem paid_of_quiet
    (quiet : ∀ entry ∈ due, entry.kind = .validator → entry.pubkey = pubkey → False) :
    account.paid minStake pubkey due = some account := by
  have none_ : ∀ entry ∈ due, ¬ entry.Consumes pubkey account :=
    fun entry member consumes => quiet entry member consumes.1 consumes.2.1
  rw [ValidatorAccount.paid, if_neg fun both => ?_, remaining_of_none none_]
  obtain ⟨entry, member, consumes⟩ := both.1
  exact none_ entry member consumes

theorem account_pay_of_some (found : view.account = some account) :
    (view.pay pubkey due entries).account = account.paid view.prospectiveStake pubkey due := by
  rw [KeyView.pay, found]
  rfl

theorem account_pay_of_none (absent : view.account = none) :
    (view.pay pubkey due entries).account = none := by
  rw [KeyView.pay, absent]
  rfl

theorem paid_cases (account : ValidatorAccount) :
    account.paid minStake pubkey due = none ∨
      ∃ balance, account.paid minStake pubkey due = some { account with balance } := by
  unfold ValidatorAccount.paid
  split
  · exact Or.inl rfl
  · exact Or.inr ⟨_, rfl⟩

/-- A status that somebody has after the payouts, they had before. -/
theorem status_of_paid {status : ValidatorStatus}
    (after : (view.pay pubkey due entries).status = some status) : view.status = some status := by
  cases found : view.account with
  | none =>
    rw [KeyView.status, account_pay_of_none found] at after
    cases after
  | some account =>
    rw [KeyView.status, account_pay_of_some found] at after
    rcases paid_cases account with gone | ⟨balance, kept⟩
    · rw [gone] at after
      cases after
    · rw [kept] at after
      rw [KeyView.status, found]
      exact after

theorem orderly_pay (orderly : view.Orderly)
    (member : ∀ entry ∈ due, entry.kind = .validator → entry.pubkey = pubkey → entry ∈ view.entries)
    (rest : ∀ entry ∈ entries, entry ∈ view.entries) : (view.pay pubkey due entries).Orderly := by
  refine ⟨fun epoch ahead => (orderly.scheduled epoch ahead).trans ?_, fun joining => ?_,
    fun active entry here => orderly.partials (status_of_paid active) entry (rest entry here)⟩
  · by_cases joining : view.status = some .joining
    · -- nothing is due for a joining account, so it stays as it is
      obtain ⟨account, found, -⟩ := Option.map_eq_some_iff.mp joining
      rw [KeyView.joins, KeyView.joins, account_pay_of_some found, paid_of_quiet, found]
      intro entry here kind mine
      have listed := member entry here kind mine
      rw [orderly.quiet joining] at listed
      cases listed
    · rw [KeyView.joins_of_status joining, KeyView.joins_of_status]
      exact fun after => joining (status_of_paid after)
  · refine List.eq_nil_iff_forall_not_mem.mpr fun entry here => ?_
    have listed := rest entry here
    rw [orderly.quiet (status_of_paid joining)] at listed
    cases listed

theorem leaving_pay (leaving : view.Leaving .staged) :
    (view.pay pubkey due entries).Leaving .paid := by
  obtain ⟨once, submitted, signer⟩ := leaving
  refine ⟨once, fun after => submitted (status_of_paid after), fun leaves => ?_⟩
  have signs := signer leaves
  cases after : (view.pay pubkey due entries).status with
  | none => rfl
  | some status =>
    rw [status_of_paid after] at signs
    exact signs

end Pay

/-! ### The boundary -/

section Cross

variable {view : KeyView} {after : ValidatorStatus}

theorem status_cross {account : ValidatorAccount} (found : view.account = some account) :
    (view.cross after).status = some after := by
  rw [KeyView.status, KeyView.cross, found]
  rfl

/-- What the boundary makes of an account, given that the key was in order. -/
theorem cross_cases {account : ValidatorAccount} (orderly : view.Orderly)
    (leaving : view.Leaving .paid) (found : view.account = some account)
    (passes : view.Passes account.status after) :
    (account.status.isCurrentEpochSigner = true ∧ after.isOutOfCommittee = true) ∨
    (account.status = .joining ∧ account.joiningEpoch = view.epoch + 1 ∧ after = .active) ∨
    (after = account.status ∧ account.status ≠ .submittedExitRequest ∧ view.departures = 0 ∧
      ¬ (account.status = .joining ∧ account.joiningEpoch = view.epoch + 1)) := by
  obtain ⟨-, submitted, signer⟩ := leaving
  rw [KeyView.status_of_some found] at submitted signer
  have slots := (orderly.scheduled (view.epoch + 1) (Nat.lt_succ_self _)).trans
    (KeyView.joins_of_some found (view.epoch + 1))
  by_cases leaves : view.departures = 0
  · by_cases joins : account.status = .joining ∧ account.joiningEpoch = view.epoch + 1
    · rw [if_pos joins] at slots
      exact Or.inr (Or.inl ⟨joins.1, joins.2, passes.activated leaves (by omega)⟩)
    · rw [if_neg joins] at slots
      refine Or.inr (Or.inr ⟨passes.kept leaves slots, fun same => ?_, leaves, joins⟩)
      have once := submitted (congrArg some same)
      omega
  · have pos := Nat.pos_of_ne_zero leaves
    exact Or.inl ⟨signer pos, passes.departed pos⟩

theorem orderly_cross (orderly : view.Orderly) (leaving : view.Leaving .paid)
    (passes : ∀ account, view.account = some account → view.Passes account.status after) :
    (view.cross after).Orderly := by
  have ahead {epoch : Nat} (later : view.epoch + 1 < epoch) :
      (view.cross after).slots epoch = view.joins epoch := by
    rw [← orderly.scheduled epoch (by omega)]
    exact if_neg (by omega)
  cases found : view.account with
  | none =>
    have none_ : (view.cross after).status = none := by
      rw [KeyView.status, KeyView.cross, found]
      rfl
    refine ⟨fun epoch later => ?_, fun joining => ?_, fun active => ?_⟩
    · rw [ahead later, KeyView.joins_of_status, KeyView.joins_of_status]
      · rw [none_]
        nofun
      · rw [KeyView.status, found]
        nofun
    · rw [none_] at joining
      cases joining
    · rw [none_] at active
      cases active
  | some account =>
    have found' : (view.cross after).account = some (account.withStatus after) := by
      rw [KeyView.cross, found]
      rfl
    have cases_ := cross_cases orderly leaving found (passes account found)
    refine ⟨fun epoch (later : view.epoch + 1 < epoch) => ?_, fun joining => ?_, fun active => ?_⟩
    · rw [ahead later, KeyView.joins_of_some found, KeyView.joins_of_some found']
      rcases cases_ with ⟨signs, out⟩ | ⟨joins, now, rfl⟩ | ⟨rfl, -⟩
      · rw [if_neg, if_neg]
        · rintro ⟨same, -⟩
          rw [show after = .joining from same] at out
          cases out
        · rintro ⟨same, -⟩
          rw [same] at signs
          cases signs
      · rw [if_neg fun both => by omega, if_neg fun both => nomatch both.1]
      · rfl
    · rw [status_cross found] at joining
      obtain rfl := Option.some.inj joining
      rcases cases_ with ⟨-, out⟩ | ⟨-, -, same⟩ | ⟨same, -⟩
      · cases out
      · cases same
      · exact orderly.quiet (by rw [KeyView.status_of_some found, same])
    · rw [status_cross found] at active
      obtain rfl := Option.some.inj active
      rcases cases_ with ⟨-, out⟩ | ⟨joins, -⟩ | ⟨same, -⟩
      · cases out
      · intro entry member
        rw [show (view.cross .active).entries = view.entries from rfl,
          orderly.quiet (by rw [KeyView.status_of_some found, joins])] at member
        cases member
      · exact orderly.partials (by rw [KeyView.status_of_some found, same])

theorem leaving_cross (orderly : view.Orderly) (leaving : view.Leaving .paid)
    (passes : ∀ account, view.account = some account → view.Passes account.status after) :
    (view.cross after).Leaving .collecting := by
  refine ⟨rfl, fun submitted => ?_⟩
  cases found : view.account with
  | none =>
    rw [KeyView.status, KeyView.cross, found] at submitted
    cases submitted
  | some account =>
    rw [status_cross found] at submitted
    obtain rfl := Option.some.inj submitted
    rcases cross_cases orderly leaving found (passes account found) with
      ⟨-, out⟩ | ⟨-, -, same⟩ | ⟨same, other, -⟩
    · cases out
    · cases same
    · exact other same.symm

end Cross

/-! ### Steps and runs -/

structure Lifecycle (phase : Phase) (view : KeyView) : Prop where
  orderly : view.Orderly
  leaving : view.Leaving phase

theorem KeyView.Leaving.staged (leaving : view.Leaving .processed) : view.Leaving .staged := by
  refine ⟨?_, fun submitted => ?_, fun leaves => ?_⟩
  · rw [leaving]
    split <;> omega
  · rw [leaving, if_pos submitted]
  · by_cases submitted : view.status = some .submittedExitRequest
    · rw [submitted]
      rfl
    · rw [leaving, if_neg submitted] at leaves
      cases leaves

/-- **A step keeps the lifecycle of a key.** -/
theorem KeyStep.lifecycle {phase phase' : Phase}
    (step : KeyStep warmUp delay pubkey view phase phase' view') (life : Lifecycle phase view) :
    Lifecycle phase' view' := by
  obtain ⟨orderly, leaving⟩ := life
  cases step with
  | touch => exact ⟨orderly, leaving⟩
  | process stake bounded moves =>
    have start : Lifecycle .processed { view with prospectiveStake := stake } :=
      ⟨⟨orderly.scheduled, orderly.quiet, orderly.partials⟩, leaving.1.trans (if_neg leaving.2).symm⟩
    induction moves with
    | refl => exact start
    | tail _ last ih => exact ⟨last.orderly ih.orderly, last.leaving ih.leaving⟩
  | retain =>
    exact ⟨⟨orderly.scheduled, orderly.quiet, orderly.partials⟩, leaving.staged⟩
  | remove removals settled =>
    have start : Lifecycle .staged view := ⟨orderly, leaving.staged⟩
    clear settled
    induction removals with
    | refl => exact start
    | tail _ last ih => exact ⟨last.orderly ih.orderly, last.leaving ih.leaving⟩
  | pay due entries member rest =>
    exact ⟨orderly_pay orderly (fun entry here kind mine => (member entry here kind mine).1) rest,
      leaving_pay leaving⟩
  | cross after passes =>
    exact ⟨orderly_cross orderly leaving passes, leaving_cross orderly leaving passes⟩

/-- A genesis state has nothing queued, scheduled or removed. -/
theorem StateData.AtGenesis.lifecycle (genesis : data.AtGenesis) (pubkey : Bytes32) :
    Lifecycle .collecting (data.keyView pubkey) := by
  have active {status : ValidatorStatus} (has : (data.keyView pubkey).status = some status) :
      status = .active := by
    obtain ⟨account, found, rfl⟩ := Option.map_eq_some_iff.mp has
    exact genesis.active pubkey account found
  have entries : (data.keyView pubkey).entries = [] := by
    simp [StateData.keyView, genesis.withdrawals, WithdrawalQueue.empty]
  refine ⟨⟨fun epoch _ => ?_, fun _ => entries, fun _ => ?_⟩, ?_, fun submitted => ?_⟩
  · have staying : (data.keyView pubkey).status ≠ some .joining := fun joining => by
      cases active joining
    rw [KeyView.joins_of_status staying]
    simp [StateData.keyView, slotsIn, genesis.added]
  · rw [entries]
    exact List.forall_mem_nil _
  · simp [StateData.keyView, genesis.removed]
  · cases active submitted

theorem StateData.AtGenesis.indexed (genesis : data.AtGenesis) : data.withdrawalQueue.Indexed := by
  rw [genesis.withdrawals]
  exact WithdrawalQueue.indexed_empty

/-- **Every validator's life is in order**, in every state of a run from genesis. -/
theorem lifecycle_of_reaches {guard : EpochState → EpochEvent → Prop} {start : LiveState}
    {reached : EpochState} (genesis : start.AtGenesis)
    (reaches : EpochState.Reaches warmUp delay guard ⟨.collecting, start⟩ reached)
    (pubkey : Bytes32) : Lifecycle reached.phase (reached.live.keyView pubkey) :=
  reaches.invariant (P := fun phase data => Lifecycle phase (data.keyView pubkey))
    (fun _ _ step life => (keyStep_of_epochStep pubkey step).lifecycle life)
    genesis.indexed (genesis.lifecycle pubkey)

end Lifecycle

end Summit
