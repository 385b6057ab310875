/-
**Funds are conserved.**

The funds are the account balances, the queued refunds and the queued deposits. Every change of a
batch adds its label to the first two (`Change.held`), a payout takes off what it emits
(`held_payDue`), and nothing else touches them. So along a run of block-level steps the funds and
what was paid out are the initial balances and what was deposited.
-/

import Summit.Proof.EpochRun

set_option linter.unusedSectionVars false

namespace Summit

open Bytes Run

section Funds

variable [Crypto]

namespace StateData

/-- The balances of all accounts. -/
def balances (data : StateData) : Nat :=
  data.validatorAccounts.total fun entry => entry.2.balance

/-- The amounts of the queued refunds. -/
def refunds (data : StateData) : Nat :=
  (data.withdrawalQueue.refunds.map fun entry => entry.inner.amount).sum

/-- What the state holds outside the deposit queue. -/
def held (data : StateData) : Nat := data.balances + data.refunds

/-- The balance of one key; a key without an account has nothing. -/
def balanceOf (data : StateData) (pubkey : Bytes32) : Nat :=
  ((data.getAccount pubkey).map ValidatorAccount.balance).getD 0

/-- No account has more than the bound of its key. -/
def Below (bound : Bytes32 → Nat) (data : StateData) : Prop :=
  ∀ pubkey account, data.getAccount pubkey = some account → account.balance ≤ bound pubkey

end StateData

/-! ### One change -/

section Changes

variable {data : StateData} {pubkey : Bytes32} {account : ValidatorAccount}

theorem balances_insert (found : data.getAccount pubkey = some account)
    (account' : ValidatorAccount) (same : account'.balance = account.balance) :
    (data.validatorAccounts.insert pubkey account').total (fun entry => entry.2.balance) =
      data.balances := by
  have total := SortedMap.total_insert_of_some data.validatorAccounts (fun entry => entry.2.balance)
    pubkey (w := account') found
  simp only [same] at total
  exact Nat.add_right_cancel total

variable {bound : Bytes32 → Nat}

theorem StateData.Below.insert (below : data.Below bound) {data' : StateData}
    {account' : ValidatorAccount}
    (accounts : data'.validatorAccounts = data.validatorAccounts.insert pubkey account')
    (le : account'.balance ≤ bound pubkey) : data'.Below bound := by
  intro other account found
  rw [StateData.getAccount, accounts, SortedMap.find?_insert] at found
  split at found
  · next same => exact Option.some.inj found ▸ same ▸ le
  · exact below other account found

theorem StateData.Below.add (below : data.Below bound) (n : Nat) :
    data.Below fun key => bound key + n :=
  fun key account found => (below key account found).trans (Nat.le_add_right _ _)

theorem StateData.Below.credited (below : data.Below bound) (credits : data.Credits pubkey account)
    (amount : Nat) : saturatingAdd account.balance amount ≤ bound pubkey + amount := by
  have sum : saturatingAdd account.balance amount ≤ account.balance + amount := Nat.min_le_left _ _
  rcases credits with found | ⟨-, -, zero⟩
  · have le := below pubkey account found
    omega
  · omega

/-- A credit adds its amount, unless the balance would pass `u64::MAX`. -/
theorem balances_credit (credits : data.Credits pubkey account) {amount : Nat}
    (below : data.Below bound) (fits : bound pubkey + amount < 2 ^ 64) (account' : ValidatorAccount)
    (credited : account'.balance = saturatingAdd account.balance amount) :
    (data.validatorAccounts.insert pubkey account').total (fun entry => entry.2.balance) =
      data.balances + amount := by
  rcases credits with found | ⟨absent, -, zero⟩
  · have le := below pubkey account found
    have total := SortedMap.total_insert_of_some data.validatorAccounts
      (fun entry => entry.2.balance) pubkey (w := account') found
    have sum : account'.balance = account.balance + amount := by
      rw [credited, saturatingAdd, u64Max]
      omega
    simp only [sum] at total
    rw [StateData.balances]
    omega
  · have sum : account'.balance = amount := by
      rw [credited, saturatingAdd, u64Max, zero]
      omega
    rw [SortedMap.total_insert_of_none _ _ _ absent, sum, StateData.balances]

theorem refunds_pushEntry_refund (data : StateData) (address : Address) (key : Bytes32)
    (amount delay : Nat) :
    (data.pushEntry address key amount delay .depositRefund).refunds = data.refunds + amount := by
  simp [StateData.refunds, StateData.pushEntry, WithdrawalQueue.pendingOf]

theorem refunds_pushEntry_validator (data : StateData) (address : Address) (key : Bytes32)
    (amount delay : Nat) :
    (data.pushEntry address key amount delay .validator).refunds = data.refunds := by
  simp [StateData.refunds, StateData.pushEntry]

variable {warmUp delay n minStake : Nat} {data' : StateData}

/-- **A change adds its label** to what is held, when no balance passes `u64::MAX` with it. -/
theorem Change.held {data : StateData} (change : Change warmUp delay data n data')
    (below : data.Below bound) (fits : ∀ pubkey, bound pubkey + n < 2 ^ 64) :
    data'.held = data.held + n := by
  cases change with
  | refund address amount =>
    rw [StateData.held, refunds_pushEntry_refund, StateData.held, Nat.add_assoc]
    rfl
  | credit request account credits =>
    have total := balances_credit credits below (fits _) (account.credit request) rfl
    exact (congrArg (· + data.refunds) total).trans (Nat.add_right_comm _ _ _)
  | join request account credits =>
    have total := balances_credit credits below (fits _)
      ((account.credit request).joinAt (data.epoch + warmUp)) rfl
    exact (congrArg (· + data.refunds) total).trans (Nat.add_right_comm _ _ _)
  | exit key account found =>
    have total := balances_insert found (account.withStatus .submittedExitRequest) rfl
    rw [StateData.held, refunds_pushEntry_validator]
    exact congrArg (· + data.refunds) total
  | cancel pubkey account found =>
    exact congrArg (· + data.refunds)
      (balances_insert found (account.withStatus .inactive) rfl)
  | retire pubkey account found =>
    have total := balances_insert found (account.withStatus .fullPayoutPending) rfl
    rw [StateData.held, refunds_pushEntry_validator]
    exact congrArg (· + data.refunds) total
  | withdraw =>
    rw [StateData.held, refunds_pushEntry_validator]
    rfl

/-- A change raises no balance by more than its label. -/
theorem Change.below {data : StateData} (change : Change warmUp delay data n data')
    (below : data.Below bound) : data'.Below fun pubkey => bound pubkey + n := by
  cases change with
  | refund | withdraw => exact below.add _
  | credit request account credits | join request account credits =>
    exact (below.add _).insert rfl (below.credited credits _)
  | exit key account found | cancel key account found | retire key account found =>
    exact (below.add 0).insert rfl (below _ account found)

theorem Moves.held {data : StateData} (moves : Moves warmUp delay data n data')
    (below : data.Below bound) (fits : ∀ pubkey, bound pubkey + n < 2 ^ 64) :
    data'.held = data.held + n ∧ data'.Below fun pubkey => bound pubkey + n := by
  induction moves with
  | refl => exact ⟨rfl, below⟩
  | @tail _ m _ k _ last ih =>
    obtain ⟨before, within⟩ := ih fun pubkey => by have := fits pubkey; omega
    cases last with
    | change change =>
      have later := change.below within
      simp only [Nat.add_assoc] at later
      refine ⟨?_, later⟩
      rw [change.held within fun pubkey => by rw [Nat.add_assoc]; exact fits pubkey, before,
        Nat.add_assoc]
    | deposits queue => exact ⟨before, within⟩

theorem Removal.held {data : StateData} (removal : Removal minStake data n data') :
    data'.held = data.held := by
  cases removal with
  | cancel pubkey account found =>
    exact congrArg (· + data.refunds) (balances_insert found (account.withStatus .inactive) rfl)
  | stage => rfl

theorem Removal.below {data : StateData} (removal : Removal minStake data n data')
    (below : data.Below bound) : data'.Below bound := by
  cases removal with
  | cancel pubkey account found => exact below.insert rfl (below pubkey account found)
  | stage => exact below

theorem Removals.held {data : StateData} (removals : Removals minStake data n data') :
    data'.held = data.held ∧ ∀ bound, data.Below bound → data'.Below bound := by
  induction removals with
  | refl => exact ⟨rfl, fun _ => id⟩
  | tail _ last ih =>
    exact ⟨last.held.trans ih.1, fun bound below => last.below (ih.2 bound below)⟩

end Changes

/-! ### Payouts -/

/-- The amounts of the refunds among the entries. -/
def refundAmount (entries : List PendingWithdrawal) : Nat :=
  (entries.map fun entry => if entry.kind = .depositRefund then entry.inner.amount else 0).sum

theorem refundAmount_append (entries later : List PendingWithdrawal) :
    refundAmount (entries ++ later) = refundAmount entries + refundAmount later := by
  rw [refundAmount, List.map_append, List.sum_append]
  rfl

variable {entries : List PendingWithdrawal} {s s' : LiveState} {result : LiveState × Bool}
  {buffered : List (List UInt8)} {start : StateData} {ledger ledger' : Ledger}
  {steps : List BlockStep}

theorem refundAmount_of_refunds (kinds : ∀ entry ∈ entries, entry.kind = .depositRefund) :
    refundAmount entries = (entries.map fun entry => entry.inner.amount).sum := by
  rw [refundAmount, List.map_congr_left fun entry member => if_pos (kinds entry member)]

theorem refundAmount_of_validators (kinds : ∀ entry ∈ entries, entry.kind = .validator) :
    refundAmount entries = 0 := by
  refine List.sum_eq_zero fun amount member => ?_
  obtain ⟨entry, here, rfl⟩ := List.mem_map.mp member
  rw [kinds entry here]
  rfl

section Payouts

variable {minStake : Nat} {accounts : SortedMap Bytes32 ValidatorAccount}
  {entry : PendingWithdrawal} {account : ValidatorAccount}

theorem total_debitAccounts (found : accounts.find? entry.pubkey = some account) :
    (debitAccounts minStake accounts entry).total (fun entry => entry.2.balance) +
      (account.balance - settle minStake entry.pubkey account account.balance entry) =
      accounts.total fun entry => entry.2.balance := by
  have le : settle minStake entry.pubkey account account.balance entry ≤ account.balance :=
    settle_le _ _
  rw [debitAccounts, found]
  dsimp only
  by_cases consumes : entry.Consumes entry.pubkey account
  · rw [if_pos consumes]
    split
    · next empty =>
      rw [empty, Nat.sub_zero]
      exact SortedMap.total_erase_of_some accounts _ entry.pubkey found
    · have total := SortedMap.total_insert_of_some accounts (fun entry => entry.2.balance)
        entry.pubkey (w := { account with
          balance := settle minStake entry.pubkey account account.balance entry }) found
      simp only at total
      omega
  · rw [if_neg consumes, settle_of_not_consumes consumes, Nat.sub_self, Nat.add_zero]

/-- An entry that no account of its key consumes debits nothing. -/
theorem debitAccounts_of_not_consumes
    (other : ∀ account, accounts.find? entry.pubkey = some account →
      ¬ entry.Consumes entry.pubkey account) :
    debitAccounts minStake accounts entry = accounts := by
  unfold debitAccounts
  split
  · rfl
  · next found => rw [if_neg (other _ found)]

/-- What an entry of an account adds to the emission. -/
theorem totalAmount_emitEntry {data : StateData} (found : data.getAccount entry.pubkey = some account)
    (consumes : entry.Consumes entry.pubkey account) (entries : List PendingWithdrawal) :
    totalAmount (data.emitEntry (data.emitAll entries) entry).2 =
      totalAmount (data.emitAll entries).2 +
        withdrawalPayoutAmount entry
          (remaining data.prospectiveMinimumStake entry.pubkey account entries)
          account.status.hasMinimumStakeFloor data.prospectiveMinimumStake := by
  rw [emitEntry_of_consumes found consumes, running_getD found]
  dsimp only
  split
  · rw [totalAmount_append]
    rfl
  · next zero => rw [Nat.eq_zero_of_not_pos zero, Nat.add_zero]

/-- An entry that is no refund and no account of its key consumes emits nothing. -/
theorem emitEntry_of_not_consumes {data : StateData} (kind : entry.kind = .validator)
    (other : ∀ account, data.getAccount entry.pubkey = some account →
      ¬ entry.Consumes entry.pubkey account)
    (acc : SortedMap Bytes32 Nat × List Withdrawal) : data.emitEntry acc entry = acc := by
  unfold StateData.emitEntry
  rw [if_neg (by rw [kind]; decide)]
  split
  · rfl
  · next found =>
    rw [if_pos fun same => other _ found ⟨kind, rfl, same⟩]

/-- **What the emission pays** is what the accounts lose and what the refunds hold. -/
theorem emitted_add_balances (data : StateData) (entries : List PendingWithdrawal) :
    totalAmount (data.emitAll entries).2 +
        (debitAll data.prospectiveMinimumStake data.validatorAccounts entries).total
          (fun entry => entry.2.balance) =
      data.balances + refundAmount entries := by
  induction entries using List.reverseRecOn with
  | nil => exact Nat.zero_add _
  | append_singleton entries entry ih =>
    rw [StateData.emitAll_concat, debitAll_concat, refundAmount_append]
    by_cases refund : entry.kind = .depositRefund
    · have emitted : (data.emitEntry (data.emitAll entries) entry).2 =
          (data.emitAll entries).2 ++ [entry.inner] := by
        rw [StateData.emitEntry, if_pos refund]
      rw [emitted, totalAmount_append, debitAccounts_of_not_consumes fun _ _ consumes => by
        rw [consumes.1] at refund; cases refund]
      simp only [refundAmount, totalAmount, List.map_cons, List.map_nil, List.sum_singleton,
        if_pos refund] at ih ⊢
      omega
    have kind : entry.kind = .validator := by
      cases given : entry.kind
      · rfl
      · exact absurd given refund
    have none_ : refundAmount [entry] = 0 := refundAmount_of_validators (by simpa using kind)
    rw [none_, Nat.add_zero, ← ih]
    cases found : data.getAccount entry.pubkey with
    | none =>
      rw [emitEntry_of_not_consumes kind (by simp [found]),
        debitAccounts_of_not_consumes (by simp [find?_debitAll_of_none found])]
    | some account =>
      have current : (debitAll data.prospectiveMinimumStake data.validatorAccounts entries).find?
          entry.pubkey = _ := find?_debitAll found entries
      by_cases consumes : entry.Consumes entry.pubkey account
      · rw [totalAmount_emitEntry found consumes]
        have le := withdrawalPayoutAmount_le kind
          (remaining data.prospectiveMinimumStake entry.pubkey account entries)
          account.status.hasMinimumStakeFloor data.prospectiveMinimumStake
        split at current
        · next gone =>
          -- the account is gone already, and nothing was left
          rw [debitAccounts_of_not_consumes (by simp [current])]
          omega
        · have total : (debitAccounts data.prospectiveMinimumStake
              (debitAll data.prospectiveMinimumStake data.validatorAccounts entries) entry).total
                (fun entry => entry.2.balance) +
              (remaining data.prospectiveMinimumStake entry.pubkey account entries -
                settle data.prospectiveMinimumStake entry.pubkey account
                  (remaining data.prospectiveMinimumStake entry.pubkey account entries) entry) = _ :=
            total_debitAccounts current
          rw [settle, if_pos consumes] at total
          omega
      · rw [emitEntry_of_not_consumes kind fun other same => by
            rw [found] at same
            exact Option.some.inj same ▸ consumes,
          debitAccounts_of_not_consumes fun other same => by
            rw [current] at same
            split at same
            · cases same
            · exact Option.some.inj same ▸ consumes]

end Payouts

/-- **A payout** takes off what it emits. -/
theorem held_payDue (s : LiveState) (epoch : Nat) (unique : s.withdrawalQueue.UniqueIndexes) :
    (s.payDue epoch).held + totalAmount (s.emitWithdrawalPayouts epoch) = s.held := by
  obtain ⟨validators, refunds, laterValidators, laterRefunds, due, one, two, paid⟩ :=
    exists_paidOff s epoch unique
  have total := emitted_add_balances s.toStateData (s.dueEntries epoch)
  have accounts : (s.payDue epoch).validatorAccounts =
      debitAll s.prospectiveMinimumStake s.validatorAccounts (s.dueEntries epoch) :=
    congrArg StateData.validatorAccounts paid.data
  have dueRefunds : refundAmount (s.dueEntries epoch) =
      (refunds.map fun entry => entry.inner.amount).sum := by
    rw [due, refundAmount_append, refundAmount_of_validators fun entry member =>
        s.withdrawalQueue.withdrawals_kind entry (one ▸ List.mem_append_left _ member),
      refundAmount_of_refunds fun entry member =>
        s.withdrawalQueue.refunds_kind entry (two ▸ List.mem_append_left _ member), Nat.zero_add]
  have before : s.refunds = (refunds.map fun entry => entry.inner.amount).sum +
      (s.payDue epoch).refunds := by
    rw [StateData.refunds, two, List.map_append, List.sum_append, StateData.refunds, paid.refunds]
  rw [StateData.held, StateData.held, StateData.balances, accounts]
  change totalAmount (s.emitWithdrawalPayouts epoch) + _ = _ at total
  omega

theorem PaidOff.below {data data' : StateData} {minStake : Nat}
    {validators refunds : List PendingWithdrawal} {bound : Bytes32 → Nat}
    (paid : PaidOff minStake data data' entries validators refunds) (below : data.Below bound) :
    data'.Below bound := by
  intro pubkey account left
  rw [paid.data, StateData.getAccount] at left
  cases found : data.getAccount pubkey with
  | none =>
    rw [find?_debitAll_of_none found] at left
    cases left
  | some before =>
    rw [find?_debitAll found] at left
    split at left
    · cases left
    · obtain rfl := Option.some.inj left
      exact (remaining_le _).trans (below pubkey before found)

/-! ### The other steps -/

/-- The same books: what is held, the bounds of the balances, the queues, the buffer and a tax that
is a percentage. -/
structure SameBooks (data data' : StateData) : Prop where
  held : data'.held = data.held
  below : ∀ bound, data.Below bound → data'.Below bound
  deposits : data'.depositQueue = data.depositQueue
  withdrawals : data'.withdrawalQueue = data.withdrawalQueue
  requests : data'.pendingExecutionRequests = data.pendingExecutionRequests
  percent : data.invalidDepositTax ≤ 100 → data'.invalidDepositTax ≤ 100

theorem SameBooks.refl (data : StateData) : SameBooks data data := ⟨rfl, fun _ => id, rfl, rfl, rfl, id⟩

theorem SameBooks.trans {first second third : StateData} (one : SameBooks first second)
    (two : SameBooks second third) : SameBooks first third :=
  ⟨two.held.trans one.held, fun bound below => two.below bound (one.below bound below),
    two.deposits.trans one.deposits, two.withdrawals.trans one.withdrawals,
    two.requests.trans one.requests, fun percent => two.percent (one.percent percent)⟩

theorem SameBooks.queued {data data' : StateData} (same : SameBooks data data') :
    data'.queued = data.queued := by
  rw [StateData.queued, same.deposits, StateData.queued]

theorem sameBooks_enforceMinimumStake (s : LiveState) :
    SameBooks s.toStateData s.enforceMinimumStake.toStateData := by
  rcases enforceMinimumStake_cases s with ⟨same, -⟩ | ⟨-, same⟩ | ⟨-, removals, -⟩
  · rw [same]
    exact SameBooks.refl _
  · rw [same]
    exact ⟨rfl, fun _ => id, rfl, rfl, rfl, id⟩
  · obtain ⟨settings, deposits, queue⟩ := Removals.settings removals
    obtain ⟨held, below⟩ := Removals.held removals
    exact ⟨held, below, deposits, queue, by rw [settings], by rw [settings]; exact id⟩

theorem sameBooks_setAccount {pubkey : Bytes32} {account : ValidatorAccount}
    (found : s.getAccount pubkey = some account) (account' : ValidatorAccount)
    (same : account'.balance = account.balance) :
    SameBooks s.toStateData (s.setAccount pubkey account').toStateData := by
  rw [LiveState.data_setAccount]
  refine ⟨congrArg (· + s.refunds) (balances_insert found account' same), fun bound below => ?_,
    rfl, rfl, rfl, id⟩
  exact below.insert rfl (same ▸ below pubkey account found)

theorem sameBooks_activate {validator : AddedValidator} (result : s.activate validator = some s') :
    SameBooks s.toStateData s'.toStateData := by
  obtain ⟨account, found, rfl⟩ := Option.map_eq_some_iff.mp result
  exact sameBooks_setAccount found _ rfl

theorem sameBooks_depart (s : LiveState) (key : PublicKey) :
    SameBooks s.toStateData (s.depart key).toStateData := by
  unfold LiveState.depart
  split
  · exact SameBooks.refl _
  · next found => exact sameBooks_setAccount found _ rfl

theorem sameBooks_applyCommitteeTransition {key : PublicKey}
    (applied : s.applyCommitteeTransition key = some result) :
    SameBooks s.toStateData result.1.toStateData := by
  have reset : SameBooks s.toStateData s.resetPendingActiveValidatorExits.toStateData :=
    ⟨rfl, fun _ => id, rfl, rfl, rfl, id⟩
  exact LiveState.applyCommitteeTransition_rule
    (P := fun t : LiveState => SameBooks s.toStateData t.toStateData) applied reset
    (fun _ _ _ same result => same.trans (sameBooks_activate result))
    fun t key same => same.trans (sameBooks_depart t key)

theorem sameBooks_applyParam {param : ProtocolParam} (result : s.applyParam param = some s') :
    SameBooks s.toStateData s'.toStateData := by
  cases param with
  | epochLength length =>
    obtain ⟨-, epocher, -, rfl⟩ := LiveState.applyParam_epochLength result
    exact ⟨rfl, fun _ => id, rfl, rfl, rfl, id⟩
  | observersPerValidator value =>
    exact LiveState.applyParam_observers result ▸ ⟨rfl, fun _ => id, rfl, rfl, rfl, id⟩
  | invalidDepositTax value =>
    rcases LiveState.applyParam_tax result with rfl | ⟨percent, rfl⟩
    · exact SameBooks.refl _
    · exact ⟨rfl, fun _ => id, rfl, rfl, rfl, fun _ => percent⟩
  | _ => exact Option.some.inj result ▸ ⟨rfl, fun _ => id, rfl, rfl, rfl, id⟩

theorem sameBooks_applyProtocolParameterChanges
    (applied : s.applyProtocolParameterChanges = some result) :
    SameBooks s.toStateData result.1.toStateData := by
  obtain ⟨changed, run, rfl⟩ := Option.map_eq_some_iff.mp applied
  have checked : SameBooks s.toStateData s.rejectInvalidValidatorCountChanges.toStateData := by
    rw [LiveState.data_rejectInvalidValidatorCountChanges]
    exact ⟨rfl, fun _ => id, rfl, rfl, rfl, id⟩
  have same : SameBooks s.toStateData changed.toStateData :=
    Run.invariant (P := fun t : LiveState => SameBooks s.toStateData t.toStateData)
      (fun _ _ _ _ same result => same.trans (sameBooks_applyParam result)) checked run
  exact same.trans ⟨rfl, fun _ => id, rfl, rfl, rfl, id⟩

/-! ### Parsed amounts -/

theorem u64At_lt (bytes : List UInt8) (start : Nat) : u64At bytes start < 2 ^ 64 := by
  refine lt_of_lt_of_le (leNat_lt _) ?_
  have short : ((bytes.drop start).take 8).length ≤ 8 := List.length_take_le _ _
  exact (Nat.pow_le_pow_right (by norm_num) short).trans (by norm_num)

theorem deposited_parseDepositChunk (chunk : List UInt8) :
    ∀ deposit ∈ (parseDepositChunk chunk).deposited, deposit.2 < 2 ^ 64 := by
  intro deposit member
  unfold parseDepositChunk at member
  split at member
  · next request parsed =>
    obtain rfl := Option.some.inj member
    unfold DepositRequest.tryFromEthBytes at parsed
    split at parsed
    · cases parsed
    split at parsed
    · cases parsed
    split at parsed
    · cases parsed
    · obtain rfl := Except.ok.inj parsed
      exact u64At_lt _ _
  · obtain rfl := Option.some.inj member
    exact u64At_lt _ _

/-- The amount of a parsed deposit is a `u64`. -/
theorem deposited_parseEntries {request : ParsedExecutionRequest}
    (member : request ∈ LiveState.parseEntries buffered) :
    ∀ deposit ∈ request.deposited, deposit.2 < 2 ^ 64 := by
  obtain ⟨entry, -, here⟩ := List.mem_flatMap.mp member
  split at here
  · next parsed result =>
    unfold ExecutionRequest.parseEthEntry at result
    split at result
    · cases result
    split at result
    · split at result
      · cases result
      · obtain rfl := Except.ok.inj result
        obtain ⟨chunk, -, rfl⟩ := List.mem_map.mp here
        exact deposited_parseDepositChunk chunk
    split at result
    · split at result
      · cases result
      · obtain rfl := Except.ok.inj result
        obtain ⟨withdrawal, -, rfl⟩ := List.mem_map.mp here
        exact fun _ none_ => nomatch none_
    split at result
    · split at result
      · cases result
      · obtain rfl := Except.ok.inj result
        obtain ⟨param, -, rfl⟩ := List.mem_map.mp here
        exact fun _ none_ => nomatch none_
    · cases result
  · exact nomatch here

/-- Every deposit chunk of the entries has `0x01` credentials. -/
def WellFormedCredentials (buffered : List (List UInt8)) : Prop :=
  ∀ request ∈ LiveState.parseEntries buffered, ∀ deposit ∈ request.deposited,
    (parseWithdrawalCredentials deposit.1).isSome = true

theorem WellFormedCredentials.allRefundable (wellFormed : WellFormedCredentials buffered) :
    AllRefundable (LiveState.parseEntries buffered) :=
  fun request member deposit here =>
    ⟨wellFormed request member deposit here, deposited_parseEntries member deposit here⟩

theorem WellFormedCredentials.append {later : List (List UInt8)}
    (one : WellFormedCredentials buffered) (two : WellFormedCredentials later) :
    WellFormedCredentials (buffered ++ later) := by
  intro request member
  rw [LiveState.parseEntries, List.flatMap_append] at member
  rcases List.mem_append.mp member with here | here
  · exact one request here
  · exact two request here

/-! ### Runs of block-level steps -/

/-- A block-level step. Payouts are applied with the list that the state emits. -/
inductive BlockStep where
  | bufferExecutionRequests (requests : List (List UInt8))
  | processBufferedRequests (domain : Digest) (warmUpEpochs withdrawalNumEpochs : Nat)
  | enforceMinimumStake
  | applyWithdrawalPayouts (epoch : Nat)
  | applyCommitteeTransition (nodePublicKey : PublicKey)
  | applyProtocolParameterChanges

/-- The state with what was deposited and paid out so far. -/
structure Ledger where
  state : LiveState
  deposited : Nat
  paidOut : Nat

/-- One step; `none` where the source panics. -/
def Ledger.step (ledger : Ledger) : BlockStep → Option Ledger
  | .bufferExecutionRequests requests =>
    some { ledger with state := ledger.state.bufferExecutionRequests requests }
  | .processBufferedRequests domain warmUpEpochs withdrawalNumEpochs =>
    some { ledger with
      state := ledger.state.processBufferedRequests domain warmUpEpochs withdrawalNumEpochs
      deposited := ledger.deposited +
        depositedAmount (LiveState.parseEntries ledger.state.pendingExecutionRequests) }
  | .enforceMinimumStake => some { ledger with state := ledger.state.enforceMinimumStake }
  | .applyWithdrawalPayouts epoch =>
    (ledger.state.applyWithdrawalPayouts epoch (ledger.state.emitWithdrawalPayouts epoch)).map
      fun paid => { ledger with
        state := paid
        paidOut := ledger.paidOut + totalAmount (ledger.state.emitWithdrawalPayouts epoch) }
  | .applyCommitteeTransition nodePublicKey =>
    (ledger.state.applyCommitteeTransition nodePublicKey).map fun moved =>
      { ledger with state := moved.1 }
  | .applyProtocolParameterChanges =>
    ledger.state.applyProtocolParameterChanges.map fun changed => { ledger with state := changed.1 }

/-- The books of a ledger balance, and its queues are in order. -/
structure Balanced (start : StateData) (ledger : Ledger) : Prop where
  sum : ledger.state.held + ledger.state.queued + ledger.paidOut =
    start.balances + ledger.deposited
  queued : ledger.state.queued ≤ ledger.deposited
  /-- No account has more than it had and the deposits that are no longer queued. -/
  below : ledger.state.Below fun pubkey =>
    start.balanceOf pubkey + (ledger.deposited - ledger.state.queued)
  indexed : ledger.state.withdrawalQueue.Indexed
  solvent : Solvent ledger.state.toStateData
  requests : WellFormedCredentials ledger.state.pendingExecutionRequests

theorem Balanced.of_sameBooks (balanced : Balanced start ledger) {state : LiveState}
    (same : SameBooks ledger.state.toStateData state.toStateData) :
    Balanced start { ledger with state } where
  sum := by
    rw [same.held, same.queued]
    exact balanced.sum
  queued := same.queued ▸ balanced.queued
  below := by
    rw [same.queued]
    exact same.below _ balanced.below
  indexed := same.withdrawals ▸ balanced.indexed
  solvent := ⟨same.percent balanced.solvent.percent, same.deposits ▸ balanced.solvent.refundable⟩
  requests := same.requests ▸ balanced.requests

theorem Balanced.process (balanced : Balanced start ledger) (domain : Digest) (warmUp delay : Nat)
    (fits : ∀ pubkey, start.balanceOf pubkey + (ledger.deposited +
      depositedAmount (LiveState.parseEntries ledger.state.pendingExecutionRequests)) < 2 ^ 64) :
    Balanced start { ledger with
      state := ledger.state.processBufferedRequests domain warmUp delay
      deposited := ledger.deposited +
        depositedAmount (LiveState.parseEntries ledger.state.pendingExecutionRequests) } := by
  have transfers : Transfers warmUp delay _ _ _ _ :=
    transfers_processBufferedRequests domain ledger.state
  obtain ⟨n, moves, sound⟩ := transfers
  have staged := data_stagedBatch ledger.state
  have solvent : Solvent ledger.state.stagedBatch.toStateData := by
    rw [staged]
    exact ⟨balanced.solvent.percent, balanced.solvent.refundable⟩
  have held : ledger.state.stagedBatch.held = ledger.state.held := by
    rw [staged]
    rfl
  have queued : ledger.state.stagedBatch.queued = ledger.state.queued := by
    rw [staged]
    rfl
  have below : ledger.state.stagedBatch.Below fun pubkey =>
      start.balanceOf pubkey + (ledger.deposited - ledger.state.queued) := by
    rw [staged]
    exact balanced.below
  obtain ⟨moved, solvent'⟩ := sound balanced.requests.allRefundable solvent
  have sum := balanced.sum
  have taken := balanced.queued
  obtain ⟨held', below'⟩ := Moves.held moves below fun pubkey => by have := fits pubkey; omega
  refine ⟨by dsimp only; omega, by dsimp only; omega, ?_, Moves.indexed moves ?_, solvent', ?_⟩
  · intro pubkey account found
    have le := below' pubkey account found
    dsimp only at le ⊢
    omega
  · rw [staged]
    exact balanced.indexed
  · have settings := Moves.settings moves
    rw [settings, staged]
    exact List.forall_mem_nil _

theorem Balanced.buffer (balanced : Balanced start ledger) {requests : List (List UInt8)}
    (wellFormed : WellFormedCredentials requests) :
    Balanced start { ledger with state := ledger.state.bufferExecutionRequests requests } := by
  have data := ledger.state.data_bufferExecutionRequests requests
  constructor
  · dsimp only
    rw [data]
    exact balanced.sum
  · dsimp only
    rw [data]
    exact balanced.queued
  · dsimp only
    rw [data]
    exact balanced.below
  · dsimp only
    rw [data]
    exact balanced.indexed
  · dsimp only
    rw [data]
    exact ⟨balanced.solvent.percent, balanced.solvent.refundable⟩
  · dsimp only
    rw [data]
    exact balanced.requests.append wellFormed

theorem Balanced.payouts (balanced : Balanced start ledger) (epoch : Nat) :
    Balanced start { ledger with
      state := ledger.state.payDue epoch
      paidOut := ledger.paidOut + totalAmount (ledger.state.emitWithdrawalPayouts epoch) } := by
  obtain ⟨_, _, _, _, -, -, -, paid⟩ := exists_paidOff ledger.state epoch balanced.indexed.unique
  have held := held_payDue ledger.state epoch balanced.indexed.unique
  have sum := balanced.sum
  have queued : (ledger.state.payDue epoch).queued = ledger.state.queued := by
    rw [paid.data]
    rfl
  refine ⟨by dsimp only; omega, queued ▸ balanced.queued, ?_, indexed_payDue balanced.indexed epoch,
    ?_, ?_⟩
  · dsimp only
    rw [queued]
    exact paid.below balanced.below
  · dsimp only
    rw [paid.data]
    exact ⟨balanced.solvent.percent, balanced.solvent.refundable⟩
  · dsimp only
    rw [paid.data]
    exact balanced.requests

/-- The requests that a step buffers have `0x01` credentials. -/
def BlockStep.WellFormed : BlockStep → Prop
  | .bufferExecutionRequests requests => WellFormedCredentials requests
  | _ => True

/-- **One step** keeps the books balanced. -/
theorem Balanced.step {step : BlockStep} (balanced : Balanced start ledger)
    (wellFormed : step.WellFormed) (result : ledger.step step = some ledger')
    (fits : ∀ pubkey, start.balanceOf pubkey + ledger'.deposited < 2 ^ 64) :
    Balanced start ledger' := by
  cases step with
  | bufferExecutionRequests requests =>
    exact Option.some.inj result ▸ balanced.buffer wellFormed
  | processBufferedRequests domain warmUp delay =>
    obtain rfl := Option.some.inj result
    exact balanced.process domain warmUp delay fits
  | enforceMinimumStake =>
    exact Option.some.inj result ▸ balanced.of_sameBooks (sameBooks_enforceMinimumStake _)
  | applyWithdrawalPayouts epoch =>
    rw [Ledger.step, applyWithdrawalPayouts_emitted, Option.map_some] at result
    exact Option.some.inj result ▸ balanced.payouts epoch
  | applyCommitteeTransition key =>
    obtain ⟨moved, applied, rfl⟩ := Option.map_eq_some_iff.mp result
    exact balanced.of_sameBooks (sameBooks_applyCommitteeTransition applied)
  | applyProtocolParameterChanges =>
    obtain ⟨changed, applied, rfl⟩ := Option.map_eq_some_iff.mp result
    exact balanced.of_sameBooks (sameBooks_applyProtocolParameterChanges applied)

theorem Ledger.deposited_le_step {step : BlockStep} (result : ledger.step step = some ledger') :
    ledger.deposited ≤ ledger'.deposited := by
  cases step with
  | processBufferedRequests => exact Option.some.inj result ▸ Nat.le_add_right _ _
  | bufferExecutionRequests | enforceMinimumStake => exact Option.some.inj result ▸ le_rfl
  | applyWithdrawalPayouts | applyCommitteeTransition | applyProtocolParameterChanges =>
    obtain ⟨_, -, rfl⟩ := Option.map_eq_some_iff.mp result
    exact le_rfl

theorem Ledger.deposited_le_run (run : steps.foldlM Ledger.step ledger = some ledger') :
    ledger.deposited ≤ ledger'.deposited :=
  Run.invariant (P := fun l : Ledger => ledger.deposited ≤ l.deposited)
    (fun _ _ _ _ le result => le.trans (Ledger.deposited_le_step result)) le_rfl run

theorem Balanced.run (balanced : Balanced start ledger)
    (wellFormed : ∀ step ∈ steps, step.WellFormed)
    (run : steps.foldlM Ledger.step ledger = some ledger')
    (fits : ∀ pubkey, start.balanceOf pubkey + ledger'.deposited < 2 ^ 64) :
    Balanced start ledger' := by
  induction steps generalizing ledger with
  | nil => exact Option.some.inj run ▸ balanced
  | cons step rest ih =>
    obtain ⟨mid, first, later⟩ := Run.foldlM_cons_some run
    have le := Ledger.deposited_le_run later
    have fits' : ∀ pubkey, start.balanceOf pubkey + mid.deposited < 2 ^ 64 := fun pubkey => by
      have := fits pubkey
      omega
    exact ih (balanced.step (wellFormed step List.mem_cons_self) first fits')
      (fun other member => wellFormed other (List.mem_cons_of_mem _ member)) later

/-- A state whose queues are empty and whose tax is a percentage. -/
structure EmptyQueues (data : StateData) : Prop where
  deposits : data.depositQueue = []
  withdrawals : data.withdrawalQueue.withdrawals = []
  refunds : data.withdrawalQueue.refunds = []
  requests : data.pendingExecutionRequests = []
  percent : data.invalidDepositTax ≤ 100

theorem balanced_of_emptyQueues {start : LiveState} (empty : EmptyQueues start.toStateData) :
    Balanced start.toStateData { state := start, deposited := 0, paidOut := 0 } where
  sum := by
    simp [StateData.held, StateData.refunds, StateData.queued, empty.deposits, empty.refunds]
  queued := by simp [StateData.queued, empty.deposits]
  below := by
    intro pubkey account found
    dsimp only
    rw [StateData.balanceOf, found]
    exact Nat.le_add_right _ _
  indexed := by
    constructor
    · rw [WithdrawalQueue.UniqueIndexes, WithdrawalQueue.iterAll, empty.withdrawals, empty.refunds]
      exact List.nodup_nil
    · rw [WithdrawalQueue.iterAll, empty.withdrawals, empty.refunds]
      exact List.forall_mem_nil _
  solvent := ⟨empty.percent, by rw [empty.deposits]; exact List.forall_mem_nil _⟩
  requests := by
    rw [empty.requests]
    exact List.forall_mem_nil _

end Funds

/-- **Conservation of funds.** Along every run from a state with empty queues, whose deposits all name
an address and stay below `2 ^ 64` gwei together with any one initial balance, the balances, the
queued refunds, the queued deposits and what was paid out are the initial balances and what was
deposited. -/
theorem funds_conserved [Crypto] (start : LiveState) (empty : EmptyQueues start.toStateData)
    (steps : List BlockStep) (wellFormed : ∀ step ∈ steps, step.WellFormed) (ledger : Ledger)
    (run : steps.foldlM Ledger.step { state := start, deposited := 0, paidOut := 0 } = some ledger)
    (fits : ∀ pubkey, start.balanceOf pubkey + ledger.deposited < 2 ^ 64) :
    ledger.state.balances + ledger.state.refunds + ledger.state.queued + ledger.paidOut =
      start.balances + ledger.deposited :=
  ((balanced_of_emptyQueues empty).run wellFormed run fits).sum

attribute [local instance] Crypto.accepting

/-- An entry with one deposit of one gwei under the zero key. -/
def oneGweiDeposit : List UInt8 := 0 :: depositChunk 0 1

/-- The deposit is buffered and processed. -/
def oneGweiSteps : List BlockStep :=
  [.bufferExecutionRequests [oneGweiDeposit], .processBufferedRequests zeroChunk 2 2]

theorem wellFormed_oneGweiSteps : ∀ step ∈ oneGweiSteps, step.WellFormed := by
  have credentials : WellFormedCredentials [oneGweiDeposit] := by
    unfold WellFormedCredentials
    decide +kernel
  simpa [oneGweiSteps, BlockStep.WellFormed] using credentials

theorem emptyQueues_pairGenesis (balance balance' : Nat) :
    EmptyQueues (pairGenesis 32 balance balance').toStateData := by
  have start := atGenesis_pairGenesis 32 balance balance'
  exact ⟨start.deposits, by rw [start.withdrawals]; rfl, by rw [start.withdrawals]; rfl,
    start.requests, by rw [pairGenesis, LiveState.data_setAccount]; exact Nat.zero_le _⟩

/-- Two validators that have `2 ^ 64` gwei together: one gwei more is credited to the first. -/
theorem funds_conserved_deposit :
    EmptyQueues (pairGenesis 32 (2 ^ 63) (2 ^ 63)).toStateData ∧
    (∀ step ∈ oneGweiSteps, step.WellFormed) ∧
    ∃ ledger, oneGweiSteps.foldlM Ledger.step
        { state := pairGenesis 32 (2 ^ 63) (2 ^ 63), deposited := 0, paidOut := 0 } = some ledger ∧
      ledger.state.balances = 2 ^ 64 + 1 ∧
      ledger.state.balances + ledger.state.refunds + ledger.state.queued + ledger.paidOut =
        (pairGenesis 32 (2 ^ 63) (2 ^ 63)).balances + ledger.deposited := by
  have empty := emptyQueues_pairGenesis (2 ^ 63) (2 ^ 63)
  refine ⟨empty, wellFormed_oneGweiSteps, _, rfl, by decide +kernel,
    funds_conserved _ empty oneGweiSteps wellFormed_oneGweiSteps _ rfl fun pubkey => ?_⟩
  have le : (pairGenesis 32 (2 ^ 63) (2 ^ 63)).balanceOf pubkey ≤ 2 ^ 63 := by
    unfold StateData.balanceOf
    cases found : (pairGenesis 32 (2 ^ 63) (2 ^ 63)).getAccount pubkey with
    | none => exact Nat.zero_le _
    | some account =>
      rcases (accounts_pairGenesis found).2 with same | same
      · exact same.le
      · exact same.le
  refine lt_of_le_of_lt (Nat.add_le_add_right le _) ?_
  decide +kernel

/-- A balance of `u64::MAX` saturates: one gwei more is deposited and lost. -/
theorem funds_lost_saturated :
    EmptyQueues (pairGenesis 32 u64Max 40).toStateData ∧
    (∀ step ∈ oneGweiSteps, step.WellFormed) ∧
    ∃ ledger, oneGweiSteps.foldlM Ledger.step
        { state := pairGenesis 32 u64Max 40, deposited := 0, paidOut := 0 } = some ledger ∧
      ledger.deposited < 2 ^ 64 ∧
      ledger.state.balances + ledger.state.refunds + ledger.state.queued + ledger.paidOut ≠
        (pairGenesis 32 u64Max 40).balances + ledger.deposited :=
  ⟨emptyQueues_pairGenesis u64Max 40, wellFormed_oneGweiSteps, _, rfl, by decide +kernel,
    by decide +kernel⟩

end Summit
