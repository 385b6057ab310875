/-
**The minimum stake of the committee.**

At the start of an epoch every active and every joining validator has the minimum stake. A raise is
enforced at the penultimate block against the prospective value (`Settled`), the payouts clamp at
the same value (`floor_le_remaining`), and the boundary stores it; a rejected raise leaves the stored
one. `HasStake` says which bound holds in which phase.
-/

import Summit.Proof.Lifecycle

set_option linter.unusedSectionVars false

namespace Summit

section Stake

variable [Crypto]

/-! ### The clamp of the payouts -/

variable {minStake balance warmUp delay : Nat} {pubkey : Bytes32} {account : ValidatorAccount}
  {due entries : List PendingWithdrawal} {view view' : KeyView} {after : ValidatorStatus}
  {phase phase' : Phase} {guard : EpochState → EpochEvent → Prop} {start : LiveState}
  {reached : EpochState}

/-- A partial withdrawal takes nothing below the floor. -/
theorem floor_le_settle {entry : PendingWithdrawal}
    (floor : account.status.hasMinimumStakeFloor = true)
    (partially : entry.Consumes pubkey account → 0 < entry.inner.amount) (bound : Nat)
    (low : bound ≤ minStake) (enough : bound ≤ balance) :
    bound ≤ settle minStake pubkey account balance entry := by
  unfold settle
  split
  · next consumes =>
    have positive := partially consumes
    rw [withdrawalPayoutAmount, consumes.1]
    dsimp only
    rw [if_neg (Nat.ne_of_gt positive), floor, if_pos rfl]
    omega
  · exact enough

/-- **Payouts respect the floor.** A balance at or above it stays there, if only part of it is
asked for. -/
theorem floor_le_remaining (floor : account.status.hasMinimumStakeFloor = true)
    (partially : ∀ entry ∈ due, entry.Consumes pubkey account → 0 < entry.inner.amount)
    (bound : Nat) (low : bound ≤ minStake) (enough : bound ≤ account.balance) :
    bound ≤ remaining minStake pubkey account due :=
  Run.invariant_foldl (P := (bound ≤ ·))
    (fun _ entry member => floor_le_settle floor (partially entry member) bound low) enough

theorem le_saturatingAdd {bound : Nat} (enough : bound ≤ balance) (small : bound < 2 ^ 64)
    (amount : Nat) : bound ≤ saturatingAdd balance amount := by
  rw [saturatingAdd, u64Max]
  omega

/-! ### What holds in which phase -/

namespace KeyView

/-- The bound on the balance: the stored minimum until the new one is enforced, then the
prospective one. -/
def HasStake (view : KeyView) : Phase → Prop
  | .collecting | .processed => ∀ account, view.account = some account →
      account.status.isActiveOrJoining = true → view.minimumStake ≤ account.balance
  | .staged | .paid => view.Settled view.prospectiveStake

/-- An activation lies ahead. -/
def Ahead (view : KeyView) : Prop :=
  ∀ account, view.account = some account → account.status = .joining →
    view.epoch < account.joiningEpoch

end KeyView

/-! ### Activations lie ahead -/

theorem ahead_of_status (found : view.account = some account) (other : account.status ≠ .joining) :
    view.Ahead := by
  intro account' here joining
  obtain rfl := Option.some.inj (found.symm.trans here)
  exact absurd joining other

theorem KeyMove.ahead (warm : 1 ≤ warmUp) (move : KeyMove warmUp delay pubkey view view')
    (ahead : view.Ahead) : view'.Ahead := by
  cases move with
  | credit request account mine credits =>
    rcases credits with here | ⟨-, inactive, -⟩
    · intro credited found joining
      obtain rfl := Option.some.inj found
      exact ahead account here joining
    · refine ahead_of_status rfl fun joining => ?_
      rw [ValidatorAccount.credit, inactive] at joining
      cases joining
  | join request account mine credits inactive enough quiet =>
    intro joined found _
    obtain rfl := Option.some.inj found
    exact Nat.lt_add_of_pos_right warm
  | exit account entry found | retire account entry found => exact ahead_of_status rfl nofun
  | cancel account found => exact ahead_of_status rfl nofun
  | withdraw => exact ahead

theorem KeyRemoval.ahead (removal : KeyRemoval minStake view view') (ahead : view.Ahead) :
    view'.Ahead := by
  cases removal with
  | cancel account found => exact ahead_of_status rfl nofun
  | stage => exact ahead

theorem ahead_pay (ahead : view.Ahead) : (view.pay pubkey due entries).Ahead := by
  intro after here joining
  cases found : view.account with
  | none =>
    rw [account_pay_of_none found] at here
    cases here
  | some account =>
    rw [account_pay_of_some found] at here
    rcases paid_cases account with gone | ⟨balance, same⟩
    · rw [gone] at here
      cases here
    · obtain rfl := Option.some.inj (same.symm.trans here)
      exact ahead account found joining

/-- Whoever is to join at the boundary joins there. -/
theorem ahead_cross (orderly : view.Orderly) (leaving : view.Leaving .paid)
    (passes : ∀ account, view.account = some account → view.Passes account.status after)
    (ahead : view.Ahead) : (view.cross after).Ahead := by
  intro crossed here joining
  obtain ⟨account, found, rfl⟩ := Option.map_eq_some_iff.mp here
  obtain rfl : after = .joining := joining
  rcases cross_cases orderly leaving found (passes account found) with
    ⟨-, out⟩ | ⟨-, -, same⟩ | ⟨same, -, -, other⟩
  · cases out
  · cases same
  · have later := ahead account found same.symm
    have apart : account.joiningEpoch ≠ view.epoch + 1 := fun now => other ⟨same.symm, now⟩
    exact lt_of_le_of_ne later apart.symm

/-- **A step keeps activations ahead.** -/
theorem KeyStep.ahead (warm : 1 ≤ warmUp)
    (step : KeyStep warmUp delay pubkey view phase phase' view') (life : Lifecycle phase view)
    (ahead : view.Ahead) : view'.Ahead := by
  cases step with
  | touch | retain => exact ahead
  | process stake bounded moves =>
    have start : { view with prospectiveStake := stake }.Ahead := ahead
    induction moves with
    | refl => exact start
    | tail _ last ih => exact last.ahead warm ih
  | remove removals settled =>
    clear settled
    induction removals with
    | refl => exact ahead
    | tail _ last ih => exact last.ahead ih
  | pay due entries member rest => exact ahead_pay ahead
  | cross after passes => exact ahead_cross life.orderly life.leaving passes ahead

theorem ahead_of_reaches (warm : 1 ≤ warmUp) (genesis : start.AtGenesis)
    (reaches : EpochState.Reaches warmUp delay guard ⟨.collecting, start⟩ reached)
    (pubkey : Bytes32) : (reached.live.keyView pubkey).Ahead := by
  have none_ : (start.keyView pubkey).Ahead := by
    intro account found joining
    rw [genesis.active pubkey account found] at joining
    cases joining
  exact (reaches.invariant (P := fun phase data =>
      Lifecycle phase (data.keyView pubkey) ∧ (data.keyView pubkey).Ahead)
    (fun _ _ step both => ⟨(keyStep_of_epochStep pubkey step).lifecycle both.1,
      (keyStep_of_epochStep pubkey step).ahead warm both.1 both.2⟩)
    genesis.indexed ⟨genesis.lifecycle pubkey, none_⟩).2

/-! ### The stake of a key -/

/-- What the minimum stake of a key rests on, in any phase. -/
structure Grounded (pubkey : Bytes32) (view : KeyView) : Prop where
  bounded : view.minimumStake < 2 ^ 64 ∧ view.prospectiveStake < 2 ^ 64
  keyed : view.account.isSome = true → (PublicKey.decode pubkey).isSome = true
  ahead : view.Ahead

structure Staked (pubkey : Bytes32) (phase : Phase) (view : KeyView) : Prop
    extends Grounded pubkey view where
  stake : view.HasStake phase

/-- An account without a seat has no bound to meet. -/
theorem staked_of_seatless (bounded : view.minimumStake < 2 ^ 64 ∧ view.prospectiveStake < 2 ^ 64)
    (decodes : (PublicKey.decode pubkey).isSome = true) (found : view.account = some account)
    (seatless : account.status.isActiveOrJoining = false) : Staked pubkey .processed view := by
  refine ⟨⟨bounded, fun _ => decodes, ahead_of_status found fun joining => ?_⟩,
    fun other here seated => ?_⟩
  · rw [joining] at seatless
    cases seatless
  · obtain rfl := Option.some.inj (found.symm.trans here)
    rw [seated] at seatless
    cases seatless

theorem KeyMove.staked (warm : 1 ≤ warmUp) (move : KeyMove warmUp delay pubkey view view')
    (staked : Staked pubkey .processed view) : Staked pubkey .processed view' := by
  obtain ⟨⟨bounded, keyed, ahead⟩, stake⟩ := staked
  have later := move.ahead warm ahead
  have decodes_of_mine {request : DepositRequest} (mine : request.nodePubkey.val = pubkey) :
      (PublicKey.decode pubkey).isSome = true := by
    rw [← mine, PublicKey.decode_val]
    rfl
  have decodes_of_found {account : ValidatorAccount} (found : view.account = some account) :
      (PublicKey.decode pubkey).isSome = true := keyed (by rw [found]; rfl)
  cases move with
  | credit request account mine credits =>
    rcases credits with here | ⟨-, inactive, -⟩
    · refine ⟨⟨bounded, fun _ => decodes_of_mine mine, later⟩, ?_⟩
      intro credited found seated
      obtain rfl := Option.some.inj found
      exact le_saturatingAdd (stake account here seated) bounded.1 _
    · exact staked_of_seatless bounded (decodes_of_mine mine) rfl
        (by rw [ValidatorAccount.credit, inactive]; rfl)
  | join request account mine credits inactive enough quiet =>
    refine ⟨⟨bounded, fun _ => decodes_of_mine mine, later⟩, ?_⟩
    intro joined found _
    obtain rfl := Option.some.inj found
    exact enough
  | exit account entry found | retire account entry found =>
    exact staked_of_seatless bounded (decodes_of_found found) rfl rfl
  | cancel account found => exact staked_of_seatless bounded (decodes_of_found found) rfl rfl
  | withdraw => exact ⟨⟨bounded, keyed, later⟩, stake⟩

theorem KeyRemoval.grounded (removal : KeyRemoval minStake view view')
    (grounded : Grounded pubkey view) :
    Grounded pubkey view' ∧ view'.prospectiveStake = view.prospectiveStake := by
  obtain ⟨bounded, keyed, ahead⟩ := grounded
  have later := removal.ahead ahead
  cases removal with
  | cancel account found => exact ⟨⟨bounded, fun _ => keyed (by rw [found]; rfl), later⟩, rfl⟩
  | stage => exact ⟨⟨bounded, keyed, later⟩, rfl⟩

/-! ### Steps -/

/-- **Payouts** leave whoever stays in the committee at or above the prospective minimum. -/
theorem settled_pay (orderly : view.Orderly)
    (member : ∀ entry ∈ due, entry.kind = .validator → entry.pubkey = pubkey → entry ∈ view.entries)
    (settled : view.Settled view.prospectiveStake) :
    (view.pay pubkey due entries).Settled view.prospectiveStake := by
  intro after here
  cases found : view.account with
  | none =>
    rw [account_pay_of_none found] at here
    cases here
  | some account =>
    obtain ⟨ofJoining, ofActive⟩ := settled account found
    rw [account_pay_of_some found] at here
    by_cases joining : account.status = .joining
    · -- nothing is due for a joining account
      rw [paid_of_quiet] at here
      · obtain rfl := Option.some.inj here
        exact ⟨ofJoining, ofActive⟩
      · intro entry listed kind mine
        have entry_ := member entry listed kind mine
        rw [orderly.quiet (by rw [KeyView.status_of_some found, joining])] at entry_
        cases entry_
    unfold ValidatorAccount.paid at here
    split at here
    · cases here
    obtain rfl := Option.some.inj here
    refine ⟨fun joins => absurd joins joining, fun active => (ofActive active).imp_left ?_⟩
    refine floor_le_remaining ?_ ?_ _ le_rfl
    · rw [show account.status = .active from active]
      rfl
    · intro entry listed consumes
      exact orderly.partials (by rw [KeyView.status_of_some found]; exact congrArg some active)
        entry (member entry listed consumes.1 consumes.2.1)

/-- **The boundary** stores the prospective minimum, which those who are then in the committee
have. -/
theorem staked_cross (orderly : view.Orderly) (leaving : view.Leaving .paid)
    (passes : ∀ account, view.account = some account → view.Passes account.status after)
    (staked : Staked pubkey .paid view) : Staked pubkey .collecting (view.cross after) := by
  obtain ⟨⟨bounded, keyed, ahead⟩, settled⟩ := staked
  refine ⟨⟨⟨bounded.2, bounded.2⟩, fun some_ => keyed ?_,
    ahead_cross orderly leaving passes ahead⟩, ?_⟩
  · simpa [KeyView.cross] using some_
  · intro crossed here seated
    obtain ⟨account, found, rfl⟩ := Option.map_eq_some_iff.mp here
    obtain ⟨ofJoining, ofActive⟩ := settled account found
    rcases cross_cases orderly leaving found (passes account found) with
      ⟨-, out⟩ | ⟨joining, -, -⟩ | ⟨same, -, none_, -⟩
    · rw [ValidatorAccount.withStatus, ValidatorStatus.isActiveOrJoining_of_isOutOfCommittee out]
        at seated
      cases seated
    · exact ofJoining joining
    · rw [ValidatorAccount.withStatus, same] at seated
      cases status : account.status with
      | active => exact (ofActive status).resolve_right (by rw [none_]; exact Nat.lt_irrefl 0)
      | joining => exact ofJoining status
      | _ =>
        rw [status] at seated
        cases seated

/-- **A step keeps the stake of a key.** -/
theorem KeyStep.staked (warm : 1 ≤ warmUp)
    (step : KeyStep warmUp delay pubkey view phase phase' view') (life : Lifecycle phase view)
    (staked : Staked pubkey phase view) : Staked pubkey phase' view' := by
  cases step with
  | touch => exact staked
  | process stake bounded moves =>
    have start : Staked pubkey .processed { view with prospectiveStake := stake } :=
      ⟨⟨⟨staked.bounded.1, bounded staked.bounded.2⟩, staked.keyed, staked.ahead⟩, staked.stake⟩
    induction moves with
    | refl => exact start
    | tail _ last ih => exact last.staked warm ih
  | retain =>
    refine ⟨⟨⟨staked.bounded.1, staked.bounded.1⟩, staked.keyed, staked.ahead⟩, ?_⟩
    exact fun account found => ⟨fun joining => staked.stake account found (by rw [joining]; rfl),
      fun active => Or.inl (staked.stake account found (by rw [active]; rfl))⟩
  | remove removals settled =>
    have kept : Grounded pubkey view' ∧ view'.prospectiveStake = view.prospectiveStake := by
      clear settled
      induction removals with
      | refl => exact ⟨staked.toGrounded, rfl⟩
      | tail _ last ih =>
        obtain ⟨grounded, same⟩ := last.grounded ih.1
        exact ⟨grounded, same.trans ih.2⟩
    refine ⟨kept.1, ?_⟩
    rw [KeyView.HasStake, kept.2]
    refine settled fun account found _ => ⟨staked.keyed (by rw [found]; rfl), fun joining => ?_⟩
    refine ⟨staked.ahead account found joining, ?_⟩
    have leaving := life.leaving
    rw [KeyView.Leaving, KeyView.status_of_some found, joining] at leaving
    exact leaving.trans (if_neg (by decide))
  | pay due entries member rest =>
    refine ⟨⟨staked.bounded, fun some_ => staked.keyed ?_, ahead_pay staked.ahead⟩, ?_⟩
    · cases found : view.account with
      | none =>
        rw [account_pay_of_none found] at some_
        cases some_
      | some => rfl
    · exact settled_pay life.orderly
        (fun entry here kind mine => (member entry here kind mine).1) staked.stake
  | cross after passes => exact staked_cross life.orderly life.leaving passes staked

/-- The stake of every key, in every state of a run from genesis. -/
theorem staked_of_reaches (warm : 1 ≤ warmUp) (genesis : start.AtGenesis)
    (keyed : ∀ pubkey account, start.getAccount pubkey = some account →
      (PublicKey.decode pubkey).isSome = true) (bounded : start.validatorMinimumStake < 2 ^ 64)
    (enough : ∀ pubkey account, start.getAccount pubkey = some account →
      start.validatorMinimumStake ≤ account.balance)
    (reaches : EpochState.Reaches warmUp delay guard ⟨.collecting, start⟩ reached)
    (pubkey : Bytes32) : Staked pubkey reached.phase (reached.live.keyView pubkey) := by
  have prospective : start.prospectiveMinimumStake = start.validatorMinimumStake :=
    prospective_of_none _ _ (by rw [genesis.params]; simp)
  have at_ : Staked pubkey .collecting (start.keyView pubkey) := by
    refine ⟨⟨⟨bounded, lt_of_eq_of_lt prospective bounded⟩, fun some_ => ?_, fun account found joining => ?_⟩,
      fun account found _ => enough pubkey account found⟩
    · obtain ⟨account, found⟩ := Option.isSome_iff_exists.mp some_
      exact keyed pubkey account found
    · rw [genesis.active pubkey account found] at joining
      cases joining
  exact (reaches.invariant (P := fun phase data =>
      Lifecycle phase (data.keyView pubkey) ∧ Staked pubkey phase (data.keyView pubkey))
    (fun _ _ step both => ⟨(keyStep_of_epochStep pubkey step).lifecycle both.1,
      (keyStep_of_epochStep pubkey step).staked warm both.1 both.2⟩)
    genesis.indexed ⟨genesis.lifecycle pubkey, at_⟩).2

end Stake

/-- A genesis state whose validators have node keys and the minimum stake. -/
structure StateData.StakedGenesis [Crypto] (data : StateData) : Prop extends data.AtGenesis where
  keyed : ∀ pubkey account, data.getAccount pubkey = some account →
    (PublicKey.decode pubkey).isSome = true
  /-- The minimum stake is a `u64`. -/
  bounded : data.validatorMinimumStake < 2 ^ 64
  enough : ∀ pubkey account, data.getAccount pubkey = some account →
    data.validatorMinimumStake ≤ account.balance

/-- **The committee has the minimum stake.** At every epoch start, every active and every joining
validator has at least the minimum stake then in force. -/
theorem minimumStake_le_balance [Crypto] {warmUp delay : Nat} (warm : 1 ≤ warmUp)
    {start : LiveState} (genesis : start.StakedGenesis) {reached : EpochState}
    (run : EpochState.Run warmUp delay start reached) (fresh : reached.phase = .collecting)
    {pubkey : Bytes32} {account : ValidatorAccount}
    (found : reached.live.getAccount pubkey = some account)
    (seated : account.status.isActiveOrJoining = true) :
    reached.live.validatorMinimumStake ≤ account.balance := by
  have staked := staked_of_reaches warm genesis.toAtGenesis genesis.keyed genesis.bounded
    genesis.enough run pubkey
  rw [fresh] at staked
  exact staked.stake account found seated

attribute [local instance] Crypto.accepting

/-- A request to set the minimum stake. -/
def minimumStakeRequest (value : UInt8) : List UInt8 := [0xFF, 0, 8, value, 0, 0, 0, 0, 0, 0, 0]

/-- An epoch in which the minimum stake is set. -/
def minimumStakeEpoch (value : UInt8) : List EpochEvent :=
  [.buffer [minimumStakeRequest value], .process zeroChunk, .enforce, .payouts,
    .boundary zeroKey zeroChunk]

theorem stakedGenesis_pairGenesis {minimumStake balance balance' : Nat}
    (bounded : minimumStake < 2 ^ 64) (enough : minimumStake ≤ balance)
    (enough' : minimumStake ≤ balance') :
    (pairGenesis minimumStake balance balance').StakedGenesis :=
  { atGenesis_pairGenesis minimumStake balance balance' with
    keyed := fun _ _ _ => rfl
    bounded := by
      rw [pairGenesis, LiveState.data_setAccount, LiveState.data_setAccount]
      exact bounded
    enough := fun pubkey account found => by
      have stored : (pairGenesis minimumStake balance balance').validatorMinimumStake =
          minimumStake := by
        rw [pairGenesis, LiveState.data_setAccount, LiveState.data_setAccount]
        rfl
      rw [stored]
      rcases (accounts_pairGenesis found).2 with same | same
      · rw [same]
        exact enough
      · rw [same]
        exact enough' }

/-- The raise removes the second validator, the first one has the new minimum. -/
theorem minimumStake_le_balance_raised :
    (pairGenesis 32 40 32).StakedGenesis ∧
    ∃ reached account,
      (minimumStakeEpoch 36).foldlM (EpochState.step 2 2) ⟨.collecting, pairGenesis 32 40 32⟩ =
        some reached ∧
      reached.phase = .collecting ∧ reached.live.validatorMinimumStake = 36 ∧
      reached.live.getAccount zeroChunk = some account ∧ account.status = .active ∧
      reached.live.validatorMinimumStake ≤ account.balance := by
  have genesis : (pairGenesis 32 40 32).StakedGenesis :=
    stakedGenesis_pairGenesis (by decide) (by decide) (by decide)
  have computed : ((minimumStakeEpoch 36).foldlM (EpochState.step 2 2)
        ⟨.collecting, pairGenesis 32 40 32⟩).map
        (fun s => (s.phase, s.live.validatorMinimumStake, s.live.getAccount zeroChunk)) =
      some (.collecting, 36, some { stakedAccount with balance := 40 }) := by
    decide +kernel
  obtain ⟨reached, run, facts⟩ := Option.map_eq_some_iff.mp computed
  obtain ⟨fresh, stored, found⟩ := by simpa only [Prod.mk.injEq] using facts
  exact ⟨genesis, reached, _, run, fresh, stored, found, rfl,
    minimumStake_le_balance (by decide : 1 ≤ 2) genesis
      (EpochState.reaches_of_foldlM run fun _ _ _ => trivial) fresh found rfl⟩

end Summit
