/-
**The changes that processing makes**, one by one.

The end of an epoch is a long sequence of operations on the queues and the accounts. `Change` lists
what a single one does to the committed data, with the guard under which it is done; its label is
the amount it adds to the funds that the state holds. Processing the buffered requests is a chain of
such changes (`transfers_processBufferedRequests`), so a property that every change keeps is kept by
the whole batch.
-/

import Summit.Lib.Run
import Summit.Proof.LiveState

set_option linter.unusedSectionVars false

namespace Summit

open Bytes Run

variable [Crypto]

namespace StateData

def putAccount (data : StateData) (pubkey : Bytes32) (account : ValidatorAccount) : StateData :=
  { data with validatorAccounts := data.validatorAccounts.insert pubkey account }

/-- An entry at the end of its queue, due after `delay` epochs. -/
def pushEntry (data : StateData) (address : Address) (pubkey : Bytes32) (amount delay : Nat)
    (kind : WithdrawalKind) : StateData :=
  { data with
    withdrawalQueue := data.withdrawalQueue.pushRequestWithKind
      { sourceAddress := address, validatorPubkey := pubkey, amount } (data.epoch + delay) kind }

/-- The schedule without the activation of a joining validator. -/
def unscheduled (data : StateData) (pubkey : Bytes32) (account : ValidatorAccount) :
    SortedMap Nat (List AddedValidator) :=
  if account.joiningEpoch > data.epoch then
    match PublicKey.decode pubkey with
    | some key =>
      (LiveState.withoutAddedValidator data.addedValidators account.joiningEpoch key).getD
        data.addedValidators
    | none => data.addedValidators
  else data.addedValidators

/-- The account that a deposit is credited to: the existing one, or a new one that is inactive and
has nothing. -/
def Credits (data : StateData) (pubkey : Bytes32) (account : ValidatorAccount) : Prop :=
  data.getAccount pubkey = some account ∨
    data.getAccount pubkey = none ∧ account.status = .inactive ∧ account.balance = 0

/-- No other account has the consensus key. -/
def OwnKey (data : StateData) (pubkey : Bytes32) (key : BlsPublicKey) : Prop :=
  ∀ other account, data.getAccount other = some account → account.consensusPublicKey = key →
    other = pubkey

end StateData

/-- The account after a deposit. -/
def ValidatorAccount.credit (account : ValidatorAccount) (request : DepositRequest) :
    ValidatorAccount :=
  { account with
    balance := saturatingAdd account.balance request.amount
    lastDepositIndex := request.index }

/-- The account as a joining one. -/
def ValidatorAccount.joinAt (account : ValidatorAccount) (epoch : Nat) : ValidatorAccount :=
  { account with status := .joining, joiningEpoch := epoch }

def ValidatorAccount.withStatus (account : ValidatorAccount) (status : ValidatorStatus) :
    ValidatorAccount :=
  { account with status }

/-- A single change of the data while the requests of an epoch are processed, but for those of the
deposit queue. -/
inductive Change (warmUp delay : Nat) (data : StateData) : Nat → StateData → Prop where
  | refund (address : Address) (amount : Nat) (positive : 0 < amount) :
    Change warmUp delay data amount
      (data.pushEntry address (FixedBytes.zero 32) amount delay .depositRefund)
  | credit (request : DepositRequest) (account : ValidatorAccount)
      (credits : data.Credits request.nodePubkey.val account)
      (own : data.OwnKey request.nodePubkey.val account.consensusPublicKey) :
    Change warmUp delay data request.amount
      (data.putAccount request.nodePubkey.val (account.credit request))
  /-- A deposit that activates its validator. -/
  | join (request : DepositRequest) (account : ValidatorAccount)
      (credits : data.Credits request.nodePubkey.val account) (inactive : account.status = .inactive)
      (staked : data.validatorMinimumStake ≤ (account.credit request).balance)
      (quiet : data.withdrawalQueue.pendingCount request.nodePubkey.val = 0)
      (seat : data.activeOrJoiningValidatorCount < data.prospectiveMaxValidatorCount)
      (own : data.OwnKey request.nodePubkey.val account.consensusPublicKey) :
    Change warmUp delay data request.amount
      { data.putAccount request.nodePubkey.val
          ((account.credit request).joinAt (data.epoch + warmUp)) with
        addedValidators := data.addedValidators.insert (data.epoch + warmUp)
          ((data.addedValidators.find? (data.epoch + warmUp)).getD [] ++
            [{ nodeKey := request.nodePubkey, consensusKey := account.consensusPublicKey }]) }
  /-- An active validator leaves the committee. -/
  | exit (key : PublicKey) (account : ValidatorAccount)
      (found : data.getAccount key.val = some account) (active : account.status = .active)
      (accepted : data.canAcceptActiveValidatorExit = true) :
    Change warmUp delay data 0
      (({ data with
          removedValidators := data.removedValidators ++ [key]
          pendingActiveValidatorExits := saturatingAdd data.pendingActiveValidatorExits 1
        }.putAccount key.val (account.withStatus .submittedExitRequest)).pushEntry
        account.withdrawalCredentials key.val 0 delay .validator)
  /-- A joining validator gives up its activation. -/
  | cancel (pubkey : Bytes32) (account : ValidatorAccount)
      (found : data.getAccount pubkey = some account) (joining : account.status = .joining) :
    Change warmUp delay data 0
      { data.putAccount pubkey (account.withStatus .inactive) with
        addedValidators := data.unscheduled pubkey account }
  /-- An inactive validator asks for all it has. -/
  | retire (pubkey : Bytes32) (account : ValidatorAccount)
      (found : data.getAccount pubkey = some account) (inactive : account.status = .inactive) :
    Change warmUp delay data 0
      ((data.putAccount pubkey (account.withStatus .fullPayoutPending)).pushEntry
        account.withdrawalCredentials pubkey 0 delay .validator)
  /-- A partial withdrawal. -/
  | withdraw (pubkey : Bytes32) (account : ValidatorAccount) (amount : Nat)
      (found : data.getAccount pubkey = some account) (positive : 0 < amount)
      (allowed : account.status = .active ∧ amount ≤ account.balance - data.validatorMinimumStake ∨
        account.status = .inactive ∧ amount ≤ account.balance) :
    Change warmUp delay data 0
      (data.pushEntry account.withdrawalCredentials pubkey amount delay .validator)

/-- A chain of changes. -/
abbrev Changes (warmUp delay : Nat) : StateData → Nat → StateData → Prop :=
  Chain (Change warmUp delay)

/-- A change, or any change of the deposit queue. -/
inductive Move (warmUp delay : Nat) (data : StateData) : Nat → StateData → Prop where
  | change {n : Nat} {data' : StateData} (change : Change warmUp delay data n data') :
    Move warmUp delay data n data'
  | deposits (queue : List DepositRequest) :
    Move warmUp delay data 0 { data with depositQueue := queue }

/-- A chain of changes and of changes of the deposit queue. -/
abbrev Moves (warmUp delay : Nat) : StateData → Nat → StateData → Prop :=
  Chain (Move warmUp delay)

variable {warmUp delay n amount : Nat} {data data' first second third : StateData}
  {pubkey : Bytes32} {ok : Prop}

theorem Changes.moves (changes : Changes warmUp delay data n data') :
    Moves warmUp delay data n data' := by
  induction changes with
  | refl => exact Chain.refl _
  | tail _ last ih => exact ih.tail (Move.change last)

/-! ### What no change touches -/

/-- The data differ at most in the queues, the accounts and the committee changes. -/
def SameSettings (data data' : StateData) : Prop :=
  data' =
    { data with
      depositQueue := data'.depositQueue
      withdrawalQueue := data'.withdrawalQueue
      validatorAccounts := data'.validatorAccounts
      addedValidators := data'.addedValidators
      removedValidators := data'.removedValidators
      pendingActiveValidatorExits := data'.pendingActiveValidatorExits }

theorem SameSettings.trans (one : SameSettings first second) (two : SameSettings second third) :
    SameSettings first third := by
  rw [SameSettings] at one two ⊢
  rw [two, one]

theorem SameSettings.epoch (same : SameSettings data data') : data'.epoch = data.epoch := by
  rw [same]

theorem Change.settings (change : Change warmUp delay data n data') :
    SameSettings data data' ∧ data'.depositQueue = data.depositQueue := by
  cases change <;> exact ⟨rfl, rfl⟩

theorem Changes.depositQueue (changes : Changes warmUp delay data n data') :
    data'.depositQueue = data.depositQueue := by
  induction changes with
  | refl => rfl
  | tail _ last ih => exact last.settings.2.trans ih

theorem Moves.settings (moves : Moves warmUp delay data n data') : SameSettings data data' := by
  induction moves with
  | refl => rfl
  | tail _ last ih =>
    cases last with
    | change change => exact ih.trans change.settings.1
    | deposits queue => exact ih.trans rfl

theorem indexed_pushEntry {address : Address} {kind : WithdrawalKind}
    (indexed : data.withdrawalQueue.Indexed) :
    (data.pushEntry address pubkey amount delay kind).withdrawalQueue.Indexed :=
  indexed.pushRequest _ _ _

theorem Change.indexed (change : Change warmUp delay data n data')
    (indexed : data.withdrawalQueue.Indexed) : data'.withdrawalQueue.Indexed := by
  cases change with
  | refund | exit | retire | withdraw =>
    apply indexed_pushEntry
    exact indexed
  | credit | join | cancel => exact indexed

/-- **A change leaves the queue or pushes one entry**, due after the delay. -/
theorem Change.queue (change : Change warmUp delay data n data') :
    data'.withdrawalQueue = data.withdrawalQueue ∨ ∃ request kind,
      data'.withdrawalQueue =
        data.withdrawalQueue.pushRequestWithKind request (data.epoch + delay) kind ∧
      (kind = .depositRefund → 0 < request.amount) := by
  cases change with
  | refund address amount positive =>
    refine Or.inr ⟨_, .depositRefund, rfl, fun _ => ?_⟩
    exact positive
  | exit | retire | withdraw => exact Or.inr ⟨_, .validator, rfl, nofun⟩
  | credit | join | cancel => exact Or.inl rfl

theorem Moves.indexed (moves : Moves warmUp delay data n data')
    (indexed : data.withdrawalQueue.Indexed) : data'.withdrawalQueue.Indexed := by
  induction moves with
  | refl => exact indexed
  | tail _ last ih =>
    cases last with
    | change change => exact change.indexed ih
    | deposits queue => exact ih

/-! ### Deposits -/

/-- The amounts in the deposit queue. -/
def StateData.queued (data : StateData) : Nat :=
  (data.depositQueue.map fun request => request.amount).sum

/-- A deposit is refundable: its credentials name an address. -/
def Refundable (credentials : Bytes32) (amount : Nat) : Prop :=
  (parseWithdrawalCredentials credentials).isSome = true ∧ amount < 2 ^ 64

/-- No queued deposit can be lost: each is refundable and the tax is a percentage. -/
structure Solvent (data : StateData) : Prop where
  percent : data.invalidDepositTax ≤ 100
  refundable : ∀ request ∈ data.depositQueue,
    Refundable request.withdrawalCredentials request.amount

/-- A chain that, on a solvent state and if `ok`, takes in `amount`: what it does not add
to the funds it leaves in the deposit queue. -/
def Transfers (warmUp delay : Nat) (ok : Prop) (amount : Nat) (data data' : StateData) : Prop :=
  ∃ n, Moves warmUp delay data n data' ∧
    (ok → Solvent data → n + data'.queued = data.queued + amount ∧ Solvent data')

theorem Transfers.refl (data : StateData) : Transfers warmUp delay ok 0 data data :=
  ⟨0, Chain.refl data, fun _ solvent => ⟨Nat.zero_add _, solvent⟩⟩

theorem Transfers.trans {m : Nat} (one : Transfers warmUp delay ok n first second)
    (two : Transfers warmUp delay ok m second third) :
    Transfers warmUp delay ok (n + m) first third := by
  obtain ⟨moved, changes, sound⟩ := one
  obtain ⟨moved', changes', sound'⟩ := two
  refine ⟨moved + moved', changes.trans changes', fun holds solvent => ?_⟩
  obtain ⟨sum, mid⟩ := sound holds solvent
  obtain ⟨sum', last⟩ := sound' holds mid
  exact ⟨by omega, last⟩

theorem Transfers.weaken {ok' : Prop} (transfers : Transfers warmUp delay ok n data data')
    (imp : ok' → ok) : Transfers warmUp delay ok' n data data' :=
  transfers.imp fun _ both => ⟨both.1, fun holds => both.2 (imp holds)⟩

theorem Changes.transfers (changes : Changes warmUp delay data n data')
    (moved : ok → data.invalidDepositTax ≤ 100 → n = amount) :
    Transfers warmUp delay ok amount data data' := by
  refine ⟨n, changes.moves, fun holds solvent => ⟨?_, ?_, ?_⟩⟩
  · rw [moved holds solvent.percent, StateData.queued, changes.depositQueue, StateData.queued,
      Nat.add_comm]
  · rw [changes.moves.settings]
    exact solvent.percent
  · rw [changes.depositQueue]
    exact solvent.refundable

section Deposits

variable {warmUp delay : Nat} (s : LiveState)

theorem changes_pushRefundIfPositive (address : Address) (amount : Nat) {epoch : Nat}
    (due : epoch = s.epoch + delay) :
    Changes warmUp delay s.toStateData amount
      (s.pushRefundIfPositive address amount epoch).toStateData := by
  unfold LiveState.pushRefundIfPositive
  split
  · next positive =>
    rw [LiveState.data_pushRefundWithdrawalRequest, due]
    exact Chain.single (Change.refund address amount positive)
  · next zero =>
    rw [Nat.eq_zero_of_not_pos zero]
    exact Chain.refl _

theorem epoch_pushRefundIfPositive (address : Address) (amount epoch : Nat) :
    (s.pushRefundIfPositive address amount epoch).epoch = s.epoch := by
  unfold LiveState.pushRefundIfPositive
  split
  · rw [LiveState.data_pushRefundWithdrawalRequest]
  · rfl

theorem changes_refundDeposit {credentials : Bytes32} {address : Address}
    (parsed : parseWithdrawalCredentials credentials = some address) (amount : Nat)
    (reason : DepositRejectionReason) :
    Changes warmUp delay s.toStateData
      ((invalidDepositRefundSplit amount s.invalidDepositTax).1 +
        (invalidDepositRefundSplit amount s.invalidDepositTax).2)
      (s.refundDeposit credentials amount reason delay).toStateData := by
  rw [LiveState.refundDeposit, parsed]
  refine (changes_pushRefundIfPositive s address _ rfl).trans ?_
  exact changes_pushRefundIfPositive _ _ _ (by rw [epoch_pushRefundIfPositive])

variable {request : DepositRequest} {account : ValidatorAccount}

theorem credits_of_depositAccount (given : s.depositAccount request = some account) :
    s.Credits request.nodePubkey.val account := by
  unfold LiveState.depositAccount at given
  split at given
  · next found => exact Or.inl (found.trans given)
  · next absent =>
    obtain ⟨address, -, rfl⟩ := Option.map_eq_some_iff.mp given
    exact Or.inr ⟨absent, rfl, rfl⟩

/-- A verified deposit brings a consensus key that nobody else has. -/
theorem ownKey_of_depositAccount {domain : Digest}
    (verified : s.verifyDepositRequest request domain = .ok ())
    (given : s.depositAccount request = some account) :
    s.OwnKey request.nodePubkey.val account.consensusPublicKey := by
  unfold StateData.verifyDepositRequest at verified
  dsimp only at verified
  split at verified
  · cases verified
  split at verified
  · cases verified
  split at verified
  · cases verified
  next matches_ =>
  split at verified
  · cases verified
  next others =>
  have same : account.consensusPublicKey = request.consensusPubkey := by
    unfold LiveState.depositAccount at given
    split at given
    · next found =>
      obtain rfl := Option.some.inj given
      rw [found] at matches_
      simpa using matches_
    · obtain ⟨address, -, rfl⟩ := Option.map_eq_some_iff.mp given
      rfl
  intro other holder found key
  by_contra apart
  refine others (List.any_eq_true.mpr ⟨(other, holder), SortedMap.find?_eq_some_iff.mp found, ?_⟩)
  exact decide_eq_true ⟨apart, key.trans same⟩

theorem changes_creditDeposit (credits : s.Credits request.nodePubkey.val account)
    (own : s.OwnKey request.nodePubkey.val account.consensusPublicKey) :
    Changes warmUp delay s.toStateData request.amount
      (s.creditDeposit request account warmUp).toStateData := by
  unfold LiveState.creditDeposit
  dsimp only
  split
  · next free =>
    simp only [LiveState.data_addValidator, LiveState.data_setAccount]
    exact Chain.single
      (Change.join request account credits free.1 free.2.1 free.2.2.1 free.2.2.2 own)
  · rw [LiveState.data_setAccount]
    exact Chain.single (Change.credit request account credits own)

/-- A rejected deposit comes back in full, as a refund and as tax. -/
theorem transfers_refundDeposit (credentials : Bytes32) (amount : Nat)
    (reason : DepositRejectionReason) :
    Transfers warmUp delay (Refundable credentials amount) amount s.toStateData
      (s.refundDeposit credentials amount reason delay).toStateData := by
  cases parsed : parseWithdrawalCredentials credentials with
  | none =>
    rw [LiveState.refundDeposit, parsed]
    refine Changes.transfers (Chain.refl _) fun ok => ?_
    rw [Refundable, parsed] at ok
    exact Bool.noConfusion ok.1
  | some address =>
    exact (changes_refundDeposit s parsed amount reason).transfers
      fun ok percent => invalidDepositRefundSplit_sum ok.2 percent

/-- A deposit that has left the queue is credited or refunded in full. -/
theorem transfers_processDeposit (request : DepositRequest) (domain : Digest) :
    Transfers warmUp delay (Refundable request.withdrawalCredentials request.amount)
      request.amount s.toStateData
      (s.processDeposit request domain warmUp delay).toStateData := by
  unfold LiveState.processDeposit
  split
  · exact transfers_refundDeposit s _ _ _
  · next verified =>
    split
    · next none_ =>
      -- there is no account and the credentials do not parse
      refine Changes.transfers (Chain.refl _) fun ok => ?_
      unfold LiveState.depositAccount at none_
      split at none_
      · cases none_
      · rw [Option.map_eq_none_iff] at none_
        rw [Refundable, none_] at ok
        exact Bool.noConfusion ok.1
    · next given =>
      exact (changes_creditDeposit s (credits_of_depositAccount s given)
        (ownKey_of_depositAccount s verified given)).transfers fun _ _ => rfl

end Deposits

/-- Taking deposits off the queue moves what they hold. -/
theorem transfers_drainDeposits (domain : Digest) (cap : Nat) (s : LiveState) :
    Transfers warmUp delay True 0 s.toStateData
      (LiveState.drainDeposits domain warmUp delay cap s).1.toStateData := by
  induction cap generalizing s with
  | zero => exact Transfers.refl _
  | succ cap ih =>
    unfold LiveState.drainDeposits LiveState.popDepositDeferred
    cases queue : s.depositQueue with
    | nil => exact Transfers.refl _
    | cons request rest =>
      have processed : Transfers warmUp delay _ request.amount _ _ :=
        transfers_processDeposit (s.putDepositQueue rest) request domain
      obtain ⟨n, changes, sound⟩ := processed
      have popped : Move warmUp delay s.toStateData 0 (s.putDepositQueue rest).toStateData :=
        Move.deposits rest
      refine Transfers.trans (m := 0) ⟨0 + n, (Chain.single popped).trans changes, ?_⟩ (ih _)
      intro _ solvent
      have refundable := solvent.refundable request (queue ▸ List.mem_cons_self)
      have solvent' : Solvent (s.putDepositQueue rest).toStateData :=
        ⟨solvent.percent, fun other member =>
          solvent.refundable other (queue ▸ List.mem_cons_of_mem _ member)⟩
      obtain ⟨sum, last⟩ := sound refundable solvent'
      have total : s.queued = request.amount + (s.putDepositQueue rest).queued := by
        rw [StateData.queued, queue, List.map_cons, List.sum_cons]
        rfl
      exact ⟨by omega, last⟩

theorem transfers_processDeposits (domain : Digest) (s : LiveState) :
    Transfers warmUp delay True 0 s.toStateData
      (s.processDeposits domain warmUp delay).toStateData := by
  unfold LiveState.processDeposits
  dsimp only
  split
  · exact transfers_drainDeposits domain _ s
  · exact transfers_drainDeposits domain _ s

/-! ### Withdrawal requests -/

section Requests

variable {warmUp delay : Nat} (s : LiveState)

theorem data_cancelJoining (pubkey : Bytes32) (account : ValidatorAccount) :
    (s.cancelJoining pubkey account).toStateData =
      { s.toStateData.putAccount pubkey (account.withStatus .inactive) with
        addedValidators := s.unscheduled pubkey account } := by
  unfold LiveState.cancelJoining
  rw [LiveState.data_setAccount, StateData.unscheduled]
  split
  · cases PublicKey.decode pubkey with
    | some key =>
      simp only [LiveState.data_removeAddedValidator]
      rfl
    | none => rfl
  · rfl

variable {pubkey : Bytes32} {account : ValidatorAccount}

theorem changes_withdrawActive (found : s.getAccount pubkey = some account)
    (active : account.status = .active) (requested : Nat) :
    Changes warmUp delay s.toStateData 0
      (s.withdrawActive pubkey account requested (s.epoch + delay)).1.toStateData := by
  unfold LiveState.withdrawActive
  dsimp only
  split
  · split
    · exact Chain.refl _
    next accepted =>
    split
    · exact Chain.refl _
    next key decoded =>
    obtain rfl := PublicKey.decode_eq_some decoded
    simp only [LiveState.data_enqueueWithdrawal, LiveState.data_setAccount,
      LiveState.data_incrementPendingActiveValidatorExits, LiveState.data_pushRemovedValidator]
    exact Chain.single (Change.exit key account found active (by simpa using accepted))
  · split
    · exact Chain.refl _
    next positive =>
    rw [LiveState.data_enqueueWithdrawal]
    exact Chain.single (Change.withdraw pubkey account _ found (Nat.pos_of_ne_zero positive)
      (Or.inl ⟨active, Nat.min_le_right _ _⟩))

theorem changes_withdrawInactive (found : s.getAccount pubkey = some account)
    (inactive : account.status = .inactive) (requested : Nat) {epoch : Nat}
    (due : epoch = s.epoch + delay) :
    Changes warmUp delay s.toStateData 0
      (s.withdrawInactive pubkey account requested epoch).1.toStateData := by
  unfold LiveState.withdrawInactive
  dsimp only
  split
  · simp only [LiveState.data_enqueueWithdrawal, LiveState.data_setAccount, due]
    exact Chain.single (Change.retire pubkey account found inactive)
  · split
    · exact Chain.refl _
    next positive =>
    rw [LiveState.data_enqueueWithdrawal, due]
    exact Chain.single (Change.withdraw pubkey account _ found (Nat.pos_of_ne_zero positive)
      (Or.inr ⟨inactive, Nat.min_le_right _ _⟩))

theorem changes_applyWithdrawalRequestDeferred (request : WithdrawalRequest) :
    Changes warmUp delay s.toStateData 0
      (s.applyWithdrawalRequestDeferred request delay).1.toStateData := by
  unfold LiveState.applyWithdrawalRequestDeferred
  dsimp only
  split
  · exact Chain.refl _
  next account found =>
  split
  · exact Chain.refl _
  split
  · exact Chain.refl _
  next leaving =>
  split
  · exact Chain.refl _
  split
  · next active => exact changes_withdrawActive s found active _
  next notActive =>
  split
  · next joining =>
    have cancelled : Change warmUp delay s.toStateData 0
        (s.cancelJoining request.validatorPubkey account).toStateData := by
      rw [data_cancelJoining]
      exact Change.cancel _ account found joining
    refine (Chain.single cancelled).trans (changes_withdrawInactive _ ?_ rfl _ ?_)
    · rw [data_cancelJoining]
      exact SortedMap.find?_insert_self _ _ _
    · rw [data_cancelJoining]
      rfl
  · next notJoining =>
    have inactive : account.status = .inactive := by
      cases status : account.status <;> simp_all
    exact changes_withdrawInactive s found inactive _ rfl

end Requests

/-! ### The batch -/

/-- What a parsed request deposits, and the credentials a refund of it would go to. -/
def ParsedExecutionRequest.deposited : ParsedExecutionRequest → Option (Bytes32 × Nat)
  | .valid (.deposit request) => some (request.withdrawalCredentials, request.amount)
  | .malformedDeposit chunk => some (chunk.withdrawalCredentials, chunk.amount)
  | _ => none

/-- The amounts of all deposit chunks in a batch. -/
def depositedAmount (parsed : List ParsedExecutionRequest) : Nat :=
  (parsed.map fun request => (request.deposited.map Prod.snd).getD 0).sum

/-- Every deposit chunk of the batch is refundable. -/
def AllRefundable (parsed : List ParsedExecutionRequest) : Prop :=
  ∀ request ∈ parsed, ∀ deposit ∈ request.deposited, Refundable deposit.1 deposit.2

theorem transfers_routeRequest (batch : LiveState × Bool) (request : ParsedExecutionRequest) :
    Transfers warmUp delay (∀ deposit ∈ request.deposited, Refundable deposit.1 deposit.2)
      ((request.deposited.map Prod.snd).getD 0) batch.1.toStateData
      (LiveState.routeRequest delay batch request).1.toStateData := by
  unfold LiveState.routeRequest
  split
  · next deposit =>
    refine ⟨0, Chain.single (Move.deposits _), fun ok solvent => ⟨?_, solvent.percent, ?_⟩⟩
    · simp [StateData.queued, ParsedExecutionRequest.deposited]
    · intro other member
      rcases List.mem_append.mp member with old | new
      · exact solvent.refundable other old
      · rw [List.mem_singleton.mp new]
        exact ok _ rfl
  · exact (changes_applyWithdrawalRequestDeferred batch.1 _).transfers fun _ _ => rfl
  · exact Transfers.refl _
  · next chunk =>
    exact (transfers_refundDeposit batch.1 chunk.withdrawalCredentials chunk.amount
      .malformedKey).weaken fun ok => ok _ rfl

theorem transfers_foldl_routeRequest (parsed : List ParsedExecutionRequest)
    (batch : LiveState × Bool) :
    Transfers warmUp delay (AllRefundable parsed) (depositedAmount parsed) batch.1.toStateData
      (parsed.foldl (LiveState.routeRequest delay) batch).1.toStateData := by
  induction parsed generalizing batch with
  | nil => exact Transfers.refl _
  | cons request rest ih =>
    have later := ih (LiveState.routeRequest delay batch request)
    refine ((transfers_routeRequest batch request).weaken fun ok => ?_).trans
      (later.weaken fun ok other member => ok other (List.mem_cons_of_mem _ member))
    exact ok request List.mem_cons_self

/-- The data after the buffer is taken and the parameter changes of the batch are staged. -/
def LiveState.stagedBatch (s : LiveState) : LiveState :=
  (s.setPendingExecutionRequests []).stageParams (parseEntries s.pendingExecutionRequests)

theorem data_stageParams (s : LiveState) (parsed : List ParsedExecutionRequest) :
    (s.stageParams parsed).toStateData =
      { s.toStateData with
        protocolParamChanges := { s.toStateData with
          protocolParamChanges := s.protocolParamChanges ++ parsed.filterMap LiveState.paramOf
          }.consistentChanges } := by
  unfold LiveState.stageParams
  rw [LiveState.data_rejectInvalidValidatorCountChanges]
  split
  · rw [LiveState.data_pushProtocolParamChanges]
  · next none_ =>
    rw [not_not.mp none_, List.append_nil]

theorem data_stagedBatch (s : LiveState) :
    s.stagedBatch.toStateData =
      { s.toStateData with
        pendingExecutionRequests := []
        protocolParamChanges := s.stagedBatch.protocolParamChanges } := by
  rw [LiveState.stagedBatch, data_stageParams]
  rfl

/-- **Processing the buffered requests** is a chain of changes from where the parameter changes are
staged. -/
theorem transfers_processBufferedRequests (domain : Digest) (s : LiveState) :
    Transfers warmUp delay (AllRefundable (LiveState.parseEntries s.pendingExecutionRequests))
      (depositedAmount (LiveState.parseEntries s.pendingExecutionRequests))
      s.stagedBatch.toStateData (s.processBufferedRequests domain warmUp delay).toStateData := by
  have routed : Transfers warmUp delay _ _ _ _ := transfers_foldl_routeRequest
    (LiveState.parseEntries s.pendingExecutionRequests) (s.stagedBatch, false)
  have drained : Transfers warmUp delay True 0 _ _ := transfers_processDeposits domain
    (LiveState.flushWithdrawals ((LiveState.parseEntries s.pendingExecutionRequests).foldl
      (LiveState.routeRequest delay) (s.stagedBatch, false)))
  rw [LiveState.data_flushWithdrawals] at drained
  exact routed.trans (drained.weaken fun _ => trivial)

/-! ### Enforcing a raised minimum stake -/

/-- One candidate below the new minimum stake leaves. -/
inductive Removal (minStake : Nat) (data : StateData) : Nat → StateData → Prop where
  /-- A joining validator loses its activation. -/
  | cancel (pubkey : Bytes32) (account : ValidatorAccount)
      (found : data.getAccount pubkey = some account) (joining : account.status = .joining)
      (below : account.balance < minStake) :
    Removal minStake data 0
      { data.putAccount pubkey (account.withStatus .inactive) with
        addedValidators := data.unscheduled pubkey account }
  /-- An active validator is staged for removal. -/
  | stage (key : PublicKey) (account : ValidatorAccount)
      (found : data.getAccount key.val = some account) (active : account.status = .active)
      (below : account.balance < minStake) (fresh : key ∉ data.removedValidators) :
    Removal minStake data 0
      { data with
        removedValidators := data.removedValidators ++ [key]
        pendingActiveValidatorExits := saturatingAdd data.pendingActiveValidatorExits 1 }

abbrev Removals (minStake : Nat) : StateData → Nat → StateData → Prop := Chain (Removal minStake)

/-- The account of `pubkey` needs no removal: it has the stake, or is out, or leaves. -/
def Settled (minStake : Nat) (data : StateData) (pubkey : Bytes32) : Prop :=
  ∀ account, data.getAccount pubkey = some account →
    (account.status = .joining → minStake ≤ account.balance) ∧
    (account.status = .active →
      minStake ≤ account.balance ∨ ∃ key ∈ data.removedValidators, key.val = pubkey)

section Removals

variable {minStake : Nat} {data data' : StateData}

theorem Removal.settings {n : Nat} (removal : Removal minStake data n data') :
    SameSettings data data' ∧ data'.depositQueue = data.depositQueue ∧
      data'.withdrawalQueue = data.withdrawalQueue := by
  cases removal <;> exact ⟨rfl, rfl, rfl⟩

theorem Removals.settings {n : Nat} (removals : Removals minStake data n data') :
    SameSettings data data' ∧ data'.depositQueue = data.depositQueue ∧
      data'.withdrawalQueue = data.withdrawalQueue := by
  induction removals with
  | refl => exact ⟨rfl, rfl, rfl⟩
  | tail _ last ih =>
    obtain ⟨same, deposits, queue⟩ := last.settings
    exact ⟨ih.1.trans same, deposits.trans ih.2.1, queue.trans ih.2.2⟩

theorem Removal.settled {n : Nat} {pubkey : Bytes32} (removal : Removal minStake data n data')
    (before : Settled minStake data pubkey) : Settled minStake data' pubkey := by
  cases removal with
  | cancel key account found =>
    intro other here
    by_cases same : pubkey = key
    · subst same
      obtain rfl := Option.some.inj ((SortedMap.find?_insert_self _ _ _).symm.trans here)
      exact ⟨fun joining => ValidatorStatus.noConfusion joining,
        fun active => ValidatorStatus.noConfusion active⟩
    · exact before other ((SortedMap.find?_insert_of_ne _ _ same).symm.trans here)
  | stage key account found =>
    intro other here
    refine ⟨(before other here).1, fun active => ((before other here).2 active).imp_right ?_⟩
    rintro ⟨leaving, member, same⟩
    exact ⟨leaving, List.mem_append_left _ member, same⟩

theorem Removals.settled {n : Nat} {pubkey : Bytes32} (removals : Removals minStake data n data')
    (before : Settled minStake data pubkey) : Settled minStake data' pubkey := by
  induction removals with
  | refl => exact before
  | tail _ last ih => exact last.settled ih

end Removals

/-- What becomes of one candidate: nothing, if it cannot be removed; or it loses its activation; or it
is staged. -/
theorem data_removeCandidate {alreadyRemoved : List Bytes32} (s : LiveState)
    {account : ValidatorAccount} (found : s.getAccount pubkey = some account) :
    ((LiveState.removeCandidate alreadyRemoved s (pubkey, account)).toStateData = s.toStateData ∧
      ((PublicKey.decode pubkey).isSome = true → pubkey ∉ alreadyRemoved →
        (account.status = .joining → s.epoch < account.joiningEpoch) →
        account.status ≠ .joining ∧ account.status ≠ .active)) ∨
    (account.status = .joining ∧
      (LiveState.removeCandidate alreadyRemoved s (pubkey, account)).toStateData =
        { s.toStateData.putAccount pubkey (account.withStatus .inactive) with
          addedValidators := s.unscheduled pubkey account }) ∨
    ∃ key : PublicKey, key.val = pubkey ∧ pubkey ∉ alreadyRemoved ∧ account.status = .active ∧
      (LiveState.removeCandidate alreadyRemoved s (pubkey, account)).toStateData =
        { s.toStateData with
          removedValidators := s.removedValidators ++ [key]
          pendingActiveValidatorExits := saturatingAdd s.pendingActiveValidatorExits 1 } := by
  unfold LiveState.removeCandidate
  cases decoded : PublicKey.decode pubkey with
  | none => exact Or.inl ⟨rfl, fun some_ => Bool.noConfusion some_⟩
  | some key =>
    dsimp only
    by_cases leaving : pubkey ∈ alreadyRemoved
    · rw [if_pos leaving]
      exact Or.inl ⟨rfl, fun _ fresh => absurd leaving fresh⟩
    rw [if_neg leaving]
    cases status : account.status with
    | joining =>
      by_cases future : account.joiningEpoch > s.epoch
      · refine Or.inr (Or.inl ⟨rfl, ?_⟩)
        rw [if_pos future]
        have here : (s.removeAddedValidator account.joiningEpoch key).getAccount pubkey =
            some account := by
          rw [LiveState.data_removeAddedValidator]
          exact found
        rw [here]
        simp only [LiveState.data_setAccount, LiveState.data_removeAddedValidator]
        rw [StateData.unscheduled, if_pos future, decoded]
        rfl
      · rw [if_neg future]
        exact Or.inl ⟨rfl, fun _ _ later => absurd (later rfl) future⟩
    | active =>
      refine Or.inr (Or.inr ⟨key, PublicKey.decode_eq_some decoded, leaving, rfl, ?_⟩)
      simp only [LiveState.data_incrementPendingActiveValidatorExits,
        LiveState.data_pushRemovedValidator]
    | inactive => exact Or.inl ⟨rfl, fun _ _ _ => ⟨nofun, nofun⟩⟩
    | submittedExitRequest => exact Or.inl ⟨rfl, fun _ _ _ => ⟨nofun, nofun⟩⟩
    | fullPayoutPending => exact Or.inl ⟨rfl, fun _ _ _ => ⟨nofun, nofun⟩⟩

section Candidates

variable {minStake : Nat} {alreadyRemoved : List Bytes32}

/-- The keys that were leaving before are still leaving, and the rest of the candidates are not. -/
structure Pending (alreadyRemoved : List Bytes32) (data : StateData)
    (candidates : List (Bytes32 × ValidatorAccount)) : Prop where
  distinct : (candidates.map Prod.fst).Nodup
  found : ∀ candidate ∈ candidates, data.getAccount candidate.1 = some candidate.2
  leaving : ∀ pubkey ∈ alreadyRemoved, ∃ key ∈ data.removedValidators, key.val = pubkey
  fresh : ∀ candidate ∈ candidates, candidate.1 ∉ alreadyRemoved →
    ∀ key ∈ data.removedValidators, key.val ≠ candidate.1

/-- A candidate that can be removed: its key decodes, and an activation lies ahead. -/
def Removable (alreadyRemoved : List Bytes32) (epoch : Nat)
    (candidate : Bytes32 × ValidatorAccount) : Prop :=
  (PublicKey.decode candidate.1).isSome = true ∧
    (candidate.2.status = .joining →
      epoch < candidate.2.joiningEpoch ∧ candidate.1 ∉ alreadyRemoved)

variable {s : LiveState} {candidate : Bytes32 × ValidatorAccount}
  {rest : List (Bytes32 × ValidatorAccount)}

theorem Pending.removeCandidate (pending : Pending alreadyRemoved s.toStateData (candidate :: rest)) :
    Pending alreadyRemoved (LiveState.removeCandidate alreadyRemoved s candidate).toStateData
      rest := by
  obtain ⟨pubkey, account⟩ := candidate
  have apart := List.nodup_cons.mp pending.distinct
  have other {candidate : Bytes32 × ValidatorAccount} (member : candidate ∈ rest) :
      candidate.1 ≠ pubkey := by
    rintro rfl
    exact apart.1 (List.mem_map.mpr ⟨candidate, member, rfl⟩)
  have found := pending.found (pubkey, account) List.mem_cons_self
  have foundRest := fun candidate (member : candidate ∈ rest) =>
    pending.found candidate (List.mem_cons_of_mem _ member)
  have freshRest := fun candidate (member : candidate ∈ rest) =>
    pending.fresh candidate (List.mem_cons_of_mem _ member)
  rcases data_removeCandidate s found with ⟨same, -⟩ | ⟨-, same⟩ | ⟨key, rfl, -, -, same⟩
  · rw [same]
    exact ⟨apart.2, foundRest, pending.leaving, freshRest⟩
  · rw [same]
    refine ⟨apart.2, fun candidate member => ?_, pending.leaving, freshRest⟩
    exact (SortedMap.find?_insert_of_ne _ _ (other member)).trans (foundRest candidate member)
  · rw [same]
    refine ⟨apart.2, foundRest, fun pubkey member => ?_, fun candidate member notLeaving => ?_⟩
    · obtain ⟨leaving, old, here⟩ := pending.leaving pubkey member
      exact ⟨leaving, List.mem_append_left _ old, here⟩
    · intro leaving here
      rcases List.mem_append.mp here with old | new
      · exact freshRest candidate member notLeaving leaving old
      · rw [List.mem_singleton.mp new]
        exact (other member).symm

theorem removals_removeCandidate
    (pending : Pending alreadyRemoved s.toStateData (candidate :: rest))
    (below : candidate.2.balance < minStake) :
    Removals minStake s.toStateData 0
      (LiveState.removeCandidate alreadyRemoved s candidate).toStateData := by
  obtain ⟨pubkey, account⟩ := candidate
  have found := pending.found (pubkey, account) List.mem_cons_self
  rcases data_removeCandidate s found with ⟨same, -⟩ | ⟨joining, same⟩ |
    ⟨key, rfl, apart, active, same⟩
  · rw [same]
    exact Chain.refl _
  · rw [same]
    exact Chain.single (Removal.cancel pubkey account found joining below)
  · rw [same]
    refine Chain.single (Removal.stage key account found active below fun member => ?_)
    exact pending.fresh _ List.mem_cons_self apart key member rfl

theorem settled_removeCandidate (pending : Pending alreadyRemoved s.toStateData (candidate :: rest))
    (removable : Removable alreadyRemoved s.epoch candidate) :
    Settled minStake (LiveState.removeCandidate alreadyRemoved s candidate).toStateData
      candidate.1 := by
  obtain ⟨pubkey, account⟩ := candidate
  have found := pending.found (pubkey, account) List.mem_cons_self
  intro other here
  rcases data_removeCandidate s found with ⟨same, stuck⟩ | ⟨-, same⟩ |
    ⟨key, rfl, -, active, same⟩
  · rw [same] at here ⊢
    obtain rfl := Option.some.inj (found.symm.trans here)
    by_cases leaving : pubkey ∈ alreadyRemoved
    · exact ⟨fun joining => absurd leaving (removable.2 joining).2,
        fun _ => Or.inr (pending.leaving pubkey leaving)⟩
    · obtain ⟨notJoining, notActive⟩ :=
        stuck removable.1 leaving fun joining => (removable.2 joining).1
      exact ⟨fun joining => absurd joining notJoining, fun active => absurd active notActive⟩
  · rw [same] at here
    obtain rfl := Option.some.inj ((SortedMap.find?_insert_self _ _ _).symm.trans here)
    exact ⟨nofun, nofun⟩
  · rw [same] at here ⊢
    obtain rfl := Option.some.inj (found.symm.trans here)
    refine ⟨fun joining => ?_, fun _ => Or.inr ⟨key, by simp, rfl⟩⟩
    rw [active] at joining
    cases joining

/-- Removing the candidates one by one, and what it leaves. -/
theorem removals_foldl_removeCandidate {candidates : List (Bytes32 × ValidatorAccount)}
    (s : LiveState) (pending : Pending alreadyRemoved s.toStateData candidates)
    (below : ∀ candidate ∈ candidates, candidate.2.balance < minStake) :
    Removals minStake s.toStateData 0
      (candidates.foldl (LiveState.removeCandidate alreadyRemoved) s).toStateData ∧
    ∀ candidate ∈ candidates, Removable alreadyRemoved s.epoch candidate →
      Settled minStake (candidates.foldl (LiveState.removeCandidate alreadyRemoved) s).toStateData
        candidate.1 := by
  induction candidates generalizing s with
  | nil => exact ⟨Chain.refl _, fun _ member => nomatch member⟩
  | cons candidate rest ih =>
    have first : Removals minStake _ 0 _ :=
      removals_removeCandidate pending (below candidate List.mem_cons_self)
    obtain ⟨later, settled⟩ := ih (LiveState.removeCandidate alreadyRemoved s candidate)
      pending.removeCandidate fun other member => below other (List.mem_cons_of_mem _ member)
    refine ⟨first.trans later, fun other member removable => ?_⟩
    rcases List.mem_cons.mp member with rfl | member
    · exact Removals.settled later (settled_removeCandidate pending removable)
    · refine settled other member ?_
      rw [(Removals.settings first).1.epoch]
      exact removable

end Candidates

/-- **Enforcing the minimum stake** drops the change or removes those below it. -/
theorem enforceMinimumStake_cases (s : LiveState) :
    s.enforceMinimumStake = s ∧ s.protocolParamChanges.any StateData.isMinimumStake = false ∨
    s.retainedCount < s.prospectiveMinimumValidatorCount ∧
      s.enforceMinimumStake = s.setProtocolParamChanges
        (s.protocolParamChanges.filter fun param => !StateData.isMinimumStake param) ∨
    s.prospectiveMinimumValidatorCount ≤ s.retainedCount ∧
      Removals s.prospectiveMinimumStake s.toStateData 0 s.enforceMinimumStake.toStateData ∧
      ∀ pubkey,
        (∀ account, s.getAccount pubkey = some account → account.status.isActiveOrJoining = true →
          Removable s.alreadyRemoved s.epoch (pubkey, account)) →
        Settled s.prospectiveMinimumStake s.enforceMinimumStake.toStateData pubkey := by
  unfold LiveState.enforceMinimumStake
  split
  · next none_ => exact Or.inl ⟨rfl, by simpa using none_⟩
  split
  · next few => exact Or.inr (Or.inl ⟨few, rfl⟩)
  next enough =>
  have member {candidate : Bytes32 × ValidatorAccount} (here : candidate ∈ s.belowMinimum) :
      s.getAccount candidate.1 = some candidate.2 ∧
        candidate.2.balance < s.prospectiveMinimumStake ∧
        candidate.2.status.isActiveOrJoining = true := by
    obtain ⟨entry, both⟩ := List.mem_filter.mp here
    exact ⟨SortedMap.find?_eq_some_iff.mpr entry, of_decide_eq_true both⟩
  have pending : Pending s.alreadyRemoved s.toStateData s.belowMinimum :=
    { distinct := s.validatorAccounts.nodup_keys.sublist (List.filter_sublist.map _)
      found := fun candidate here => (member here).1
      leaving := fun pubkey here => List.mem_map.mp here
      fresh := fun candidate here apart key leaving same =>
        apart (List.mem_map.mpr ⟨key, leaving, same⟩) }
  obtain ⟨removals, settled⟩ :=
    removals_foldl_removeCandidate s pending fun candidate here => (member here).2.1
  refine Or.inr (Or.inr ⟨Nat.le_of_not_lt enough, removals, fun pubkey removable => ?_⟩)
  by_cases candidate : ∃ account, (pubkey, account) ∈ s.belowMinimum
  · obtain ⟨account, here⟩ := candidate
    exact settled (pubkey, account) here (removable account (member here).1 (member here).2.2)
  · -- an account that is no candidate has the stake already
    refine Removals.settled removals fun account found => ?_
    have enough (seated : account.status.isActiveOrJoining = true) :
        s.prospectiveMinimumStake ≤ account.balance := by
      by_contra below
      exact candidate ⟨account, List.mem_filter.mpr
        ⟨SortedMap.find?_eq_some_iff.mp found, decide_eq_true ⟨Nat.lt_of_not_le below, seated⟩⟩⟩
    exact ⟨fun joining => enough (by rw [joining]; rfl),
      fun active => Or.inl (enough (by rw [active]; rfl))⟩

end Summit
