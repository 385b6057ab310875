/-
**Payouts and the committee.**

A payout deletes an account that it empties. As long as the prospective minimum stake is positive
when the payouts are made, nobody in the committee is emptied: a partial withdrawal of a signer
stops at that floor, and a full exit is due only after the boundary at which its validator has left
(`Backed`). With a minimum stake of zero there is no floor, and a partial withdrawal of everything
deletes an active account (`payouts_delete_active`).
-/

import Summit.Proof.Stake

set_option linter.unusedSectionVars false

namespace Summit

section Exits

variable [Crypto]

/-- Every entry of a signer asks for a part of a positive balance, or is a full exit that, if there
is a delay, is not due in this epoch. -/
def KeyView.Backed (view : KeyView) (delay : Nat) : Prop :=
  ∀ account, view.account = some account → account.status.isCurrentEpochSigner = true →
    ∀ entry ∈ view.entries, (0 < entry.inner.amount ∧ 0 < account.balance) ∨
      (account.status = .submittedExitRequest ∧ (1 ≤ delay → view.epoch < entry.epoch))

variable {view view' : KeyView} {delay warmUp : Nat} {account : ValidatorAccount} {pubkey : Bytes32}

theorem backed_of_bystander (found : view.account = some account)
    (bystander : account.status.isCurrentEpochSigner = false) : view.Backed delay := by
  intro other here signs
  obtain rfl := Option.some.inj (found.symm.trans here)
  rw [bystander] at signs
  cases signs

/-- What is asked of an active validator is backed by its balance. -/
theorem KeyView.Backed.of_active (backed : view.Backed delay) (found : view.account = some account)
    (active : account.status = .active) {entry : PendingWithdrawal} (member : entry ∈ view.entries) :
    0 < entry.inner.amount ∧ 0 < account.balance := by
  refine (backed account found (by rw [active]; rfl) entry member).resolve_right fun leaving => ?_
  rw [active] at leaving
  cases leaving.1

theorem KeyMove.backed (move : KeyMove warmUp delay pubkey view view') (backed : view.Backed delay) :
    view'.Backed delay := by
  cases move with
  | credit request account mine credits =>
    rcases credits with here | ⟨-, inactive, -⟩
    · intro credited found signs entry member
      obtain rfl := Option.some.inj found
      refine (backed account here signs entry member).imp_left fun ⟨amount, balance⟩ => ⟨amount, ?_⟩
      exact le_saturatingAdd balance (by decide) _
    · refine backed_of_bystander rfl ?_
      rw [ValidatorAccount.credit, inactive]
      rfl
  | join => exact backed_of_bystander rfl rfl
  | exit account entry found active all due =>
    intro left here _ other member
    obtain rfl := Option.some.inj here
    rcases List.mem_append.mp member with old | new
    · exact Or.inl (backed.of_active found active old)
    · obtain rfl := List.mem_singleton.mp new
      refine Or.inr ⟨rfl, fun late => ?_⟩
      rw [due]
      exact Nat.lt_add_of_pos_right late
  | cancel => exact backed_of_bystander rfl rfl
  | retire => exact backed_of_bystander rfl rfl
  | withdraw account entry found positive allowed =>
    rcases allowed with ⟨active, within⟩ | ⟨inactive, -⟩
    · intro other here signs asked member
      obtain rfl := Option.some.inj (found.symm.trans here)
      rcases List.mem_append.mp member with old | new
      · exact backed account found signs asked old
      · obtain rfl := List.mem_singleton.mp new
        exact Or.inl ⟨positive, by omega⟩
    · refine backed_of_bystander found ?_
      rw [inactive]
      rfl

theorem KeyRemoval.backed {minStake : Nat} (removal : KeyRemoval minStake view view')
    (backed : view.Backed delay) : view'.Backed delay := by
  cases removal with
  | cancel => exact backed_of_bystander rfl rfl
  | stage => exact backed

/-! ### Payouts -/

section Pay

variable {view : KeyView} {delay : Nat} {account : ValidatorAccount} {pubkey : Bytes32}
  {due : List PendingWithdrawal}

/-- What is due of a signer asks for a part of a positive balance. -/
theorem KeyView.Backed.of_due (backed : view.Backed delay) (found : view.account = some account)
    (signs : account.status.isCurrentEpochSigner = true)
    (held : account.status = .active ∨ 1 ≤ delay) {entry : PendingWithdrawal}
    (listed : entry ∈ view.entries) (now : entry.epoch ≤ view.epoch) :
    0 < entry.inner.amount ∧ 0 < account.balance := by
  rcases held with active | late
  · exact backed.of_active found active listed
  · refine (backed account found signs entry listed).resolve_right fun leaving => ?_
    exact absurd (leaving.2 late) (Nat.not_lt.mpr now)

section Signer

variable (backed : view.Backed delay) (found : view.account = some account)
  (signs : account.status.isCurrentEpochSigner = true)
  (held : account.status = .active ∨ 1 ≤ delay)
  (member : ∀ entry ∈ due, entry.kind = .validator → entry.pubkey = pubkey →
    entry ∈ view.entries ∧ entry.epoch ≤ view.epoch)
  (floor : 0 < view.prospectiveStake)
include backed found signs held member floor

/-- A signer with a positive balance keeps some of it. -/
theorem remaining_pos (balance : 0 < account.balance) :
    0 < remaining view.prospectiveStake pubkey account due := by
  refine Nat.lt_of_succ_le (floor_le_remaining ?_ ?_ 1 (Nat.succ_le_of_lt floor)
    (Nat.succ_le_of_lt balance))
  · cases status : account.status with
    | active | submittedExitRequest => rfl
    | _ =>
      rw [status] at signs
      cases signs
  · intro entry here consumes
    obtain ⟨listed, now⟩ := member entry here consumes.1 consumes.2.1
    exact (backed.of_due found signs held listed now).1

/-- **Payouts leave every signer its account.** -/
theorem paid_of_signer : account.paid view.prospectiveStake pubkey due =
    some { account with balance := remaining view.prospectiveStake pubkey account due } := by
  rw [ValidatorAccount.paid, if_neg]
  rintro ⟨⟨entry, here, consumes⟩, empty⟩
  obtain ⟨listed, now⟩ := member entry here consumes.1 consumes.2.1
  have balance := (backed.of_due found signs held listed now).2
  have left := remaining_pos backed found signs held member floor balance
  exact absurd empty (Nat.ne_of_gt left)

end Signer

theorem paid_of_joining (orderly : view.Orderly) (found : view.account = some account)
    (joining : account.status = .joining)
    (member : ∀ entry ∈ due, entry.kind = .validator → entry.pubkey = pubkey →
      entry ∈ view.entries ∧ entry.epoch ≤ view.epoch) :
    account.paid view.prospectiveStake pubkey due = some account := by
  refine paid_of_quiet fun entry here kind mine => ?_
  have listed := (member entry here kind mine).1
  rw [orderly.quiet (by rw [KeyView.status_of_some found, joining])] at listed
  cases listed

theorem backed_pay {entries : List PendingWithdrawal} (backed : view.Backed delay)
    (member : ∀ entry ∈ due, entry.kind = .validator → entry.pubkey = pubkey →
      entry ∈ view.entries ∧ entry.epoch ≤ view.epoch)
    (rest : ∀ entry ∈ entries, entry ∈ view.entries) (floor : 0 < view.prospectiveStake) :
    (view.pay pubkey due entries).Backed delay := by
  intro after here signs entry listed
  have before := status_of_paid (KeyView.status_of_some here)
  obtain ⟨account, found, same⟩ := Option.map_eq_some_iff.mp before
  by_cases held : account.status = .active ∨ 1 ≤ delay
  · rw [← same] at signs
    rw [account_pay_of_some found, paid_of_signer backed found signs held member floor] at here
    obtain rfl := Option.some.inj here
    refine (backed account found signs entry (rest entry listed)).imp_left
      fun ⟨amount, balance⟩ => ?_
    exact ⟨amount, remaining_pos backed found signs held member floor balance⟩
  · -- without a delay nothing is said of a full exit
    refine Or.inr ⟨?_, fun late => absurd (Or.inr late) held⟩
    rw [← same] at signs ⊢
    cases status : account.status with
    | active => exact absurd (Or.inl status) held
    | submittedExitRequest => rfl
    | _ =>
      rw [status] at signs
      cases signs

end Pay

theorem backed_cross {after : ValidatorStatus} (orderly : view.Orderly)
    (leaving : view.Leaving .paid)
    (passes : ∀ account, view.account = some account → view.Passes account.status after)
    (backed : view.Backed delay) : (view.cross after).Backed delay := by
  intro crossed here signs entry member
  obtain ⟨account, found, rfl⟩ := Option.map_eq_some_iff.mp here
  have signs : after.isCurrentEpochSigner = true := signs
  rcases cross_cases orderly leaving found (passes account found) with
    ⟨-, out⟩ | ⟨joining, -⟩ | ⟨rfl, other, -⟩
  · cases after with
    | active | submittedExitRequest => cases out
    | _ => cases signs
  · have listed : entry ∈ view.entries := member
    rw [orderly.quiet (by rw [KeyView.status_of_some found, joining])] at listed
    cases listed
  · exact Or.inl ((backed account found signs entry member).resolve_right fun left => other left.1)

/-- **A step keeps what backs the entries of a key**, if payouts have a floor. -/
theorem KeyStep.backed {phase phase' : Phase}
    (step : KeyStep warmUp delay pubkey view phase phase' view') (life : Lifecycle phase view)
    (floor : phase = .staged → phase' = .paid → 0 < view.prospectiveStake)
    (backed : view.Backed delay) : view'.Backed delay := by
  cases step with
  | touch => exact backed
  | process stake bounded moves =>
    have start : { view with prospectiveStake := stake }.Backed delay := backed
    induction moves with
    | refl => exact start
    | tail _ last ih => exact last.backed ih
  | retain => exact backed
  | remove removals settled =>
    clear settled floor
    induction removals with
    | refl => exact backed
    | tail _ last ih => exact last.backed ih
  | pay due entries member rest => exact backed_pay backed member rest (floor rfl rfl)
  | cross after passes => exact backed_cross life.orderly life.leaving passes backed

/-! ### Runs -/

/-- Payouts are made with a positive prospective minimum stake only. -/
def FlooredPayouts (s : EpochState) (event : EpochEvent) : Prop :=
  event = .payouts → 0 < s.live.prospectiveMinimumStake

theorem backed_of_reaches {start : LiveState} {reached : EpochState} (genesis : start.AtGenesis)
    (reaches : EpochState.Reaches warmUp delay FlooredPayouts ⟨.collecting, start⟩ reached)
    (pubkey : Bytes32) : (reached.live.keyView pubkey).Backed delay := by
  have at_ : (start.keyView pubkey).Backed delay := by
    intro account _ _ entry member
    have none_ : (start.keyView pubkey).entries = [] := by
      simp [StateData.keyView, genesis.withdrawals, WithdrawalQueue.empty]
    rw [none_] at member
    cases member
  refine (reaches.invariant (P := fun phase data =>
      Lifecycle phase (data.keyView pubkey) ∧ (data.keyView pubkey).Backed delay)
    (fun allowed result step both => ⟨(keyStep_of_epochStep pubkey step).lifecycle both.1, ?_⟩)
    genesis.indexed ⟨genesis.lifecycle pubkey, at_⟩).2
  refine (keyStep_of_epochStep pubkey step).backed both.1 (fun before after => ?_) both.2
  have passes := EpochState.passes_of_step result
  rw [before, after] at passes
  exact allowed passes.payouts

/-- The account of a key after the payouts of an epoch. -/
theorem account_of_payouts {s paid : EpochState} (indexed : s.live.withdrawalQueue.Indexed)
    (result : s.step warmUp delay .payouts = some paid) (pubkey : Bytes32) :
    s.phase = .staged ∧ ∃ due : List PendingWithdrawal,
      (∀ entry ∈ due, entry.kind = .validator → entry.pubkey = pubkey →
        entry ∈ (s.live.keyView pubkey).entries ∧ entry.epoch ≤ s.live.epoch) ∧
      paid.live.getAccount pubkey = (s.live.getAccount pubkey).bind fun account =>
        account.paid (s.live.keyView pubkey).prospectiveStake pubkey due := by
  obtain ⟨staged, same⟩ := Option.ite_none_right_eq_some.mp result
  obtain ⟨live, -, rfl⟩ := Option.map_eq_some_iff.mp same
  refine ⟨staged, ?_⟩
  have step := keyStep_of_epochStep pubkey (epochStep_of_step indexed result).1
  rw [staged] at step
  generalize view : live.keyView pubkey = view' at step
  cases step with
  | pay due entries member rest =>
    refine ⟨due, member, ?_⟩
    have account : (live.keyView pubkey).account = _ := congrArg KeyView.account view
    exact account

end Exits

/-- **Payouts spare the committee.** In a run whose payouts are all made with a positive prospective
minimum stake, they delete accounts outside the committee only. So every signer of the epoch, every
removed key and every validator of the next epoch's additions has its account after them. -/
theorem payouts_spare_committee [Crypto] {warmUp delay : Nat} (late : 1 ≤ delay) {start : LiveState}
    (genesis : start.AtGenesis) {reached paid : EpochState}
    (run : EpochState.Reaches warmUp delay FlooredPayouts ⟨.collecting, start⟩ reached)
    (floor : 0 < reached.live.prospectiveMinimumStake)
    (payouts : reached.step warmUp delay .payouts = some paid) :
    (∀ pubkey account, reached.live.getAccount pubkey = some account →
      paid.live.getAccount pubkey = none → account.status.isOutOfCommittee = true) ∧
    (∀ pubkey account, reached.live.getAccount pubkey = some account →
      account.status.isCurrentEpochSigner = true → (paid.live.getAccount pubkey).isSome = true) ∧
    (∀ key ∈ reached.live.removedValidators, (paid.live.getAccount key.val).isSome = true) ∧
    (∀ validator ∈ reached.live.scheduled (reached.live.epoch + 1),
      (paid.live.getAccount validator.nodeKey.val).isSome = true) := by
  have indexed := EpochState.Reaches.indexed run genesis.indexed
  -- whoever signs or joins is left its account
  have spared (pubkey : Bytes32) (account : ValidatorAccount)
      (found : reached.live.getAccount pubkey = some account)
      (seated : account.status.isOutOfCommittee = false) :
      (paid.live.getAccount pubkey).isSome = true := by
    obtain ⟨-, due, member, after⟩ := account_of_payouts indexed payouts pubkey
    have backed := backed_of_reaches genesis run pubkey
    have orderly := (lifecycle_of_reaches genesis run pubkey).orderly
    rw [after, found, Option.bind_some]
    by_cases joining : account.status = .joining
    · rw [paid_of_joining orderly found joining member]
      rfl
    · have signs : account.status.isCurrentEpochSigner = true := by
        cases status : account.status with
        | active | submittedExitRequest => rfl
        | joining => exact absurd status joining
        | _ =>
          rw [status] at seated
          cases seated
      rw [paid_of_signer backed found signs (Or.inr late) member floor]
      rfl
  have signers (pubkey : Bytes32) (account : ValidatorAccount)
      (found : reached.live.getAccount pubkey = some account)
      (signs : account.status.isCurrentEpochSigner = true) :
      (paid.live.getAccount pubkey).isSome = true := by
    refine spared pubkey account found ?_
    cases status : account.status with
    | active | submittedExitRequest => rfl
    | _ =>
      rw [status] at signs
      cases signs
  refine ⟨fun pubkey account found gone => ?_, signers, fun key member => ?_, fun validator member => ?_⟩
  · cases out : account.status.isOutOfCommittee with
    | true => rfl
    | false =>
      have there := spared pubkey account found out
      rw [gone] at there
      cases there
  · have life := lifecycle_of_reaches genesis run key.val
    rw [(account_of_payouts indexed payouts key.val).1] at life
    have signs := life.leaving.2.2 ((departures_pos_iff key.val).mpr ⟨key, member, rfl⟩)
    cases found : (reached.live.keyView key.val).account with
    | none =>
      rw [KeyView.status, found] at signs
      cases signs
    | some account =>
      rw [KeyView.status_of_some found] at signs
      exact signers key.val account found signs
  · have life := lifecycle_of_reaches genesis run validator.nodeKey.val
    have slots := life.orderly.scheduled (reached.live.epoch + 1) (Nat.lt_succ_self _)
    have taken := (slots_pos_iff validator.nodeKey.val _).mpr ⟨validator, member, rfl⟩
    rw [slots] at taken
    cases found : (reached.live.keyView validator.nodeKey.val).account with
    | none => simp [KeyView.joins, found] at taken
    | some account =>
      refine spared _ account found ?_
      rw [KeyView.joins_of_some found] at taken
      split at taken
      · next joins =>
        rw [joins.1]
        rfl
      · cases taken

open Bytes

attribute [local instance] Crypto.accepting

/-- A partial withdrawal of forty for the validator under the zero key. -/
def withdrawFortyRequest : List UInt8 := withdrawalEntry 0 40

/-- An epoch with the given requests, up to its payouts. -/
def epochUntilPayouts (requests : List (List UInt8)) : List EpochEvent :=
  [.buffer requests, .process zeroChunk, .enforce]

/-- An epoch with the given requests, up to its boundary. -/
def epochUntilBoundary (requests : List (List UInt8)) : List EpochEvent :=
  epochUntilPayouts requests ++ [.payouts]

/-- An epoch with the given requests. -/
def wholeEpoch (requests : List (List UInt8)) : List EpochEvent :=
  epochUntilBoundary requests ++ [.boundary zeroKey zeroChunk]

/-- The first validator asks for forty, the second one leaves; both are due two epochs later. -/
def leavingEpochs : List EpochEvent :=
  wholeEpoch [withdrawFortyRequest, withdrawalEntry 1 0] ++ wholeEpoch [] ++ epochUntilPayouts []

/-- The payout of the first is taken from its balance, and the second one's account, which is out of
the committee, is deleted. -/
theorem payouts_spare_committee_exit :
    (pairGenesis 32 80 40).AtGenesis ∧
    ∃ reached paid first second,
      leavingEpochs.foldlM (Run.guarded (fun s => 0 < s.live.prospectiveMinimumStake)
        (EpochState.step 2 2)) ⟨.collecting, pairGenesis 32 80 40⟩ = some reached ∧
      0 < reached.live.prospectiveMinimumStake ∧ reached.step 2 2 .payouts = some paid ∧
      reached.live.getAccount zeroChunk = some first ∧ first.balance = 80 ∧
      (paid.live.getAccount zeroChunk).isSome = true ∧
      (paid.live.getAccount zeroChunk).map ValidatorAccount.balance = some 40 ∧
      reached.live.getAccount secondKey = some second ∧ second.status.isOutOfCommittee = true ∧
      paid.live.getAccount secondKey = none := by
  have genesis := atGenesis_pairGenesis 32 80 40
  have computed : (leavingEpochs.foldlM (Run.guarded (fun s => 0 < s.live.prospectiveMinimumStake)
        (EpochState.step 2 2)) ⟨.collecting, pairGenesis 32 80 40⟩).bind (fun s =>
          (s.step 2 2 .payouts).map fun paid =>
            (s.live.prospectiveMinimumStake, s.live.getAccount zeroChunk,
              (paid.live.getAccount zeroChunk).map ValidatorAccount.balance,
              (s.live.getAccount secondKey).isSome, paid.live.getAccount secondKey)) =
      some (32, some { stakedAccount with balance := 80 }, some 40, true, none) := by
    decide +kernel
  obtain ⟨reached, run, rest⟩ := Option.bind_eq_some_iff.mp computed
  obtain ⟨paid, payouts, facts⟩ := Option.map_eq_some_iff.mp rest
  obtain ⟨stake, found, balance, there, gone⟩ := by simpa only [Prod.mk.injEq] using facts
  obtain ⟨second, leaves⟩ := Option.isSome_iff_exists.mp there
  have floor : 0 < reached.live.prospectiveMinimumStake := by
    rw [stake]
    decide
  have reaches : EpochState.Reaches 2 2 FlooredPayouts _ reached :=
    Run.reflTransGen_of_guarded run fun _ _ event _ positive result =>
      ⟨event, fun _ => of_decide_eq_true positive, result⟩
  have spared := payouts_spare_committee (by decide : 1 ≤ 2) genesis reaches floor payouts
  exact ⟨genesis, reached, paid, _, second, run, floor, payouts, found, rfl,
    spared.2.1 _ _ found rfl, balance, leaves, spared.1 _ _ leaves gone, gone⟩

/-- The minimum stake is set to zero, then the validator under the zero key withdraws all it has;
two epochs later the payout is due. -/
def emptyingEpochs : List EpochEvent :=
  wholeEpoch [minimumStakeRequest 0] ++ wholeEpoch [withdrawFortyRequest] ++ wholeEpoch [] ++
    epochUntilPayouts []

/-- **Without a floor a payout deletes an active validator**, which is not among the removed. -/
theorem payouts_delete_active :
    (pairGenesis 40 40 40).AtGenesis ∧
    ∃ reached paid account,
      emptyingEpochs.foldlM (EpochState.step 2 2) ⟨.collecting, pairGenesis 40 40 40⟩ =
        some reached ∧
      reached.step 2 2 .payouts = some paid ∧
      reached.live.getAccount zeroChunk = some account ∧ account.status = .active ∧
      paid.live.getAccount zeroChunk = none ∧ paid.live.removedValidators = [] := by
  have computed : (emptyingEpochs.foldlM (EpochState.step 2 2)
        ⟨.collecting, pairGenesis 40 40 40⟩).bind
        (fun s => (s.step 2 2 .payouts).map fun paid =>
          (s.live.getAccount zeroChunk, paid.live.getAccount zeroChunk,
            paid.live.removedValidators)) =
      some (some { stakedAccount with balance := 40 }, none, []) := by
    decide +kernel
  obtain ⟨reached, run, rest⟩ := Option.bind_eq_some_iff.mp computed
  obtain ⟨paid, payouts, facts⟩ := Option.map_eq_some_iff.mp rest
  obtain ⟨found, gone, removed⟩ := by simpa only [Prod.mk.injEq] using facts
  exact ⟨atGenesis_pairGenesis 40 40 40, reached, paid, _, run, payouts, found, rfl, gone, removed⟩

end Summit
