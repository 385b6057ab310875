/-
**Who owns a balance.**

* `StateData.DistinctKeys` — no two accounts have the same consensus key. A deposit brings a key
  that nobody else has, and nothing else writes one (`distinctKeys_of_reaches`).
* `StateData.holding` — what an account is and holds. Routing requests, enforcing the minimum stake
  and the boundary leave every holding alone (`SameHoldings`); a verified deposit adds its amount to
  one, and the payouts of an epoch take from each exactly what is emitted to its own address
  (`paidTo_add_remaining`).
* `Bookkeeping` — a run with a book for every key, opened by the deposit that creates the account and
  closed when the account is deleted, so that a key that comes back under other credentials starts a
  new one. `Bookkeeping.sound_of_reaches` says that an open book describes its account, and that a
  closed one has paid out all it received.
-/

import Summit.Proof.Conservation
import Summit.Proof.WithdrawalRequests

set_option linter.unusedSectionVars false

namespace Summit

open Bytes Run

section Ownership

variable [Crypto]

/-! ### Distinct consensus keys -/

/-- No two accounts have the same consensus key. -/
def StateData.DistinctKeys (data : StateData) : Prop :=
  ∀ pubkey account, data.getAccount pubkey = some account →
    data.OwnKey pubkey account.consensusPublicKey

section PutAccount

variable (data : StateData) {pubkey other : Bytes32} (account : ValidatorAccount)

theorem getAccount_putAccount_self :
    (data.putAccount pubkey account).getAccount pubkey = some account :=
  SortedMap.find?_insert_self _ _ _

theorem getAccount_putAccount_of_ne (apart : other ≠ pubkey) :
    (data.putAccount pubkey account).getAccount other = data.getAccount other :=
  SortedMap.find?_insert_of_ne _ _ apart

/-- An account that is found after one is written is the written one, or was there before. -/
theorem getAccount_putAccount_cases {found : ValidatorAccount}
    (here : (data.putAccount pubkey account).getAccount other = some found) :
    other = pubkey ∧ found = account ∨ other ≠ pubkey ∧ data.getAccount other = some found := by
  by_cases same : other = pubkey
  · subst same
    rw [getAccount_putAccount_self] at here
    exact Or.inl ⟨rfl, (Option.some.inj here).symm⟩
  · rw [getAccount_putAccount_of_ne data account same] at here
    exact Or.inr ⟨same, here⟩

end PutAccount

variable {data data' : StateData} {pubkey : Bytes32} {account : ValidatorAccount}
  {warmUp delay n minStake : Nat} {withdrawal : Withdrawal}

theorem StateData.DistinctKeys.put (distinct : data.DistinctKeys) {key : BlsPublicKey}
    (own : data.OwnKey pubkey key) (sameKey : account.consensusPublicKey = key) :
    (data.putAccount pubkey account).DistinctKeys := by
  intro one first found two second found' same
  rcases getAccount_putAccount_cases data account found with ⟨rfl, rfl⟩ | ⟨-, here⟩
  · rcases getAccount_putAccount_cases data _ found' with ⟨rfl, -⟩ | ⟨-, here'⟩
    · rfl
    · exact own two second here' (same.trans sameKey)
  · rcases getAccount_putAccount_cases data _ found' with ⟨rfl, rfl⟩ | ⟨-, here'⟩
    · exact (own one first here (same.symm.trans sameKey)).symm
    · exact distinct one first here two second here' same

theorem Change.distinctKeys (change : Change warmUp delay data n data')
    (distinct : data.DistinctKeys) : data'.DistinctKeys := by
  cases change with
  | refund | withdraw => exact distinct
  | credit request account credits own => exact distinct.put own rfl
  | join request account credits inactive staked quiet seat own => exact distinct.put own rfl
  | exit key account found active accepted => exact distinct.put (distinct _ account found) rfl
  | cancel pubkey account found joining => exact distinct.put (distinct _ account found) rfl
  | retire pubkey account found inactive => exact distinct.put (distinct _ account found) rfl

/-! ### Identity -/

/-- An account that is there before and after keeps its consensus key and its credentials. -/
def SameIdentity (data data' : StateData) : Prop :=
  ∀ pubkey account account', data.getAccount pubkey = some account →
    data'.getAccount pubkey = some account' →
    account'.consensusPublicKey = account.consensusPublicKey ∧
      account'.withdrawalCredentials = account.withdrawalCredentials

/-- What an account is. -/
def ValidatorAccount.identity (account : ValidatorAccount) : BlsPublicKey × Address :=
  (account.consensusPublicKey, account.withdrawalCredentials)

/-- Every account was there before, with the same identity. -/
def Descends (data data' : StateData) : Prop :=
  ∀ pubkey account', data'.getAccount pubkey = some account' → ∃ account,
    data.getAccount pubkey = some account ∧ account'.identity = account.identity

theorem Descends.of_accounts (same : data'.validatorAccounts = data.validatorAccounts) :
    Descends data data' := by
  intro pubkey account found
  rw [StateData.getAccount, same] at found
  exact ⟨account, found, rfl⟩

theorem Descends.identity (descends : Descends data data') :
    (data.DistinctKeys → data'.DistinctKeys) ∧ SameIdentity data data' := by
  refine ⟨?_, ?_⟩
  · intro distinct one first' found two second' found' same
    obtain ⟨first, here, key⟩ := descends one first' found
    obtain ⟨second, here', key'⟩ := descends two second' found'
    exact distinct one first here two second here'
      ((Prod.mk.inj key').1.symm.trans (same.trans (Prod.mk.inj key).1))
  · intro pubkey account account' found found'
    obtain ⟨old, here, same⟩ := descends pubkey account' found'
    obtain rfl := Option.some.inj (found.symm.trans here)
    exact Prod.mk.inj same

theorem Removals.descends (removals : Removals minStake data n data') : Descends data data' := by
  induction removals with
  | refl => exact .of_accounts rfl
  | @tail before _ _ _ _ last ih =>
    intro pubkey account' found
    cases last with
    | cancel owner account here =>
      have put : (before.putAccount owner (account.withStatus .inactive)).getAccount pubkey =
        some account' := found
      rcases getAccount_putAccount_cases _ _ put with ⟨rfl, rfl⟩ | ⟨-, found⟩
      · exact ih _ account here
      · exact ih pubkey account' found
    | stage => exact ih pubkey account' found

/-- While requests are processed, an account keeps its identity. -/
theorem identity_of_keyMoves {view view' : KeyView} {identity : BlsPublicKey × Address}
    (moves : Relation.ReflTransGen (KeyMove warmUp delay pubkey) view view')
    (before : view.account.map ValidatorAccount.identity = some identity) :
    view'.account.map ValidatorAccount.identity = some identity := by
  induction moves with
  | refl => exact before
  | tail _ last ih =>
    cases last with
    | credit request account mine credits | join request account mine credits =>
      rcases credits with found | ⟨absent, -⟩
      · rw [found] at ih
        exact ih
      · rw [absent] at ih
        cases ih
    | exit account entry found | retire account entry found =>
      rw [found] at ih
      exact ih
    | cancel account found =>
      rw [found] at ih
      exact ih
    | withdraw => exact ih

/-- What the payouts leave of an account has another balance at most. -/
theorem PaidOff.source {entries validators refunds : List PendingWithdrawal}
    (paid : PaidOff minStake data data' entries validators refunds) {account' : ValidatorAccount}
    (found' : data'.getAccount pubkey = some account') :
    ∃ account, data.getAccount pubkey = some account ∧
      account' = { account with balance := remaining minStake pubkey account entries } := by
  rw [StateData.getAccount, paid.data] at found'
  cases found : data.getAccount pubkey with
  | none =>
    rw [find?_debitAll_of_none found] at found'
    cases found'
  | some account =>
    rw [find?_debitAll found] at found'
    split at found'
    · cases found'
    · exact ⟨account, rfl, (Option.some.inj found').symm⟩

/-- **What one step does**: the consensus keys stay distinct, and no account changes its identity. -/
theorem EpochStep.identity {phase phase' : Phase}
    (step : EpochStep warmUp delay data phase phase' data') :
    (data.DistinctKeys → data'.DistinctKeys) ∧ SameIdentity data data' := by
  cases step with
  | touch _ same =>
    rw [same]
    exact Descends.identity (.of_accounts rfl)
  | @process batch _ _ accepted moves =>
    refine ⟨fun distinct => ?_, fun pubkey account account' found found' => ?_⟩
    · refine moves.invariant (P := StateData.DistinctKeys) (fun _ _ _ move held => ?_) distinct
      cases move with
      | change change => exact change.distinctKeys held
      | deposits queue => exact held
    · have here : (data'.keyView pubkey).account = some account' := found'
      have kept := identity_of_keyMoves (moves.keyMoves pubkey) (congrArg _ found)
      rw [here] at kept
      exact Prod.mk.inj (Option.some.inj kept)
  | keep | drop => exact Descends.identity (.of_accounts rfl)
  | remove enough removals settled => exact removals.descends.identity
  | pay due front frontRefunds paid =>
    refine Descends.identity fun pubkey account' found' => ?_
    obtain ⟨account, found, rfl⟩ := paid.source found'
    exact ⟨account, found, rfl⟩
  | cross crosses =>
    refine Descends.identity fun pubkey account' found' => ?_
    obtain ⟨account, found, same, -⟩ := crosses.accounts.of_some_after found'
    exact ⟨account, found, by rw [same]; rfl⟩

theorem distinctKeys_of_reaches {guard : EpochState → EpochEvent → Prop}
    {start reached : EpochState} (reaches : EpochState.Reaches warmUp delay guard start reached)
    (indexed : start.live.withdrawalQueue.Indexed) (distinct : start.live.DistinctKeys) :
    reached.live.DistinctKeys :=
  reaches.invariant (P := fun _ data => data.DistinctKeys)
    (fun _ _ step held => step.identity.1 held) indexed distinct

/-! ### Holdings -/

/-- What an account is and holds. -/
@[ext] structure Holding where
  consensusKey : BlsPublicKey
  address : Address
  balance : Nat

def ValidatorAccount.holding (account : ValidatorAccount) : Holding :=
  ⟨account.consensusPublicKey, account.withdrawalCredentials, account.balance⟩

def StateData.holding (data : StateData) (pubkey : Bytes32) : Option Holding :=
  (data.getAccount pubkey).map ValidatorAccount.holding

theorem holding_putAccount_self (data : StateData) (pubkey : Bytes32)
    (account : ValidatorAccount) :
    (data.putAccount pubkey account).holding pubkey = some account.holding := by
  rw [StateData.holding, getAccount_putAccount_self]
  rfl

theorem holding_putAccount_of_ne (data : StateData) {other : Bytes32} (account : ValidatorAccount)
    (apart : other ≠ pubkey) :
    (data.putAccount pubkey account).holding other = data.holding other := by
  rw [StateData.holding, getAccount_putAccount_of_ne data account apart]
  rfl

/-- The deposit queue and every holding are the same. -/
structure SameHoldings (data data' : StateData) : Prop where
  deposits : data'.depositQueue = data.depositQueue
  holding : ∀ pubkey, data'.holding pubkey = data.holding pubkey

namespace SameHoldings

theorem of_accounts {data data' : StateData} (deposits : data'.depositQueue = data.depositQueue)
    (accounts : data'.validatorAccounts = data.validatorAccounts) : SameHoldings data data' := by
  refine ⟨deposits, fun pubkey => ?_⟩
  rw [StateData.holding, StateData.getAccount, accounts]
  rfl

theorem refl (data : StateData) : SameHoldings data data := of_accounts rfl rfl

theorem trans {first second third : StateData} (one : SameHoldings first second)
    (two : SameHoldings second third) : SameHoldings first third :=
  ⟨two.deposits.trans one.deposits, fun pubkey => (two.holding pubkey).trans (one.holding pubkey)⟩

theorem put {data : StateData} {pubkey : Bytes32} {account : ValidatorAccount} {holding : Holding}
    (held : data.holding pubkey = some holding) (same : account.holding = holding) :
    SameHoldings data (data.putAccount pubkey account) := by
  refine ⟨rfl, fun other => ?_⟩
  by_cases here : other = pubkey
  · subst here
    rw [holding_putAccount_self, held, same]
  · exact holding_putAccount_of_ne data account here

theorem queued {data data' : StateData} (same : SameHoldings data data') :
    data'.queued = data.queued := by
  rw [StateData.queued, same.deposits, StateData.queued]

end SameHoldings

theorem holding_of_getAccount (found : data.getAccount pubkey = some account) :
    data.holding pubkey = some account.holding := by
  rw [StateData.holding, found]
  rfl

theorem SameHoldings.withStatus {status : ValidatorStatus}
    (found : data.getAccount pubkey = some account)
    (deposits : data'.depositQueue = data.depositQueue)
    (accounts : data'.validatorAccounts =
      data.validatorAccounts.insert pubkey (account.withStatus status)) :
    SameHoldings data data' := by
  have put : SameHoldings data (data.putAccount pubkey (account.withStatus status)) :=
    .put (holding_of_getAccount found) rfl
  exact put.trans (.of_accounts deposits accounts)

theorem Removal.sameHoldings (removal : Removal minStake data n data') :
    SameHoldings data data' := by
  cases removal with
  | cancel pubkey account found => exact .withStatus found rfl rfl
  | stage => exact .of_accounts rfl rfl

theorem Crosses.sameHoldings (crosses : Crosses data data') : SameHoldings data data' := by
  refine ⟨crosses.deposits, fun pubkey => ?_⟩
  rcases crosses.accounts pubkey with ⟨absent, absent'⟩ | ⟨account, status, found, found', -⟩
  · rw [StateData.holding, StateData.holding, StateData.getAccount, StateData.getAccount, absent,
      absent']
  · rw [holding_of_getAccount found, holding_of_getAccount found']
    rfl

/-! ### Routing the requests -/

section Routing

variable (s : LiveState)

/-- **A withdrawal request moves no funds**: it queues an entry and may change a status. -/
theorem sameHoldings_applyWithdrawalRequestDeferred (request : WithdrawalRequest) (delay : Nat) :
    SameHoldings s.toStateData (s.applyWithdrawalRequestDeferred request delay).1.toStateData := by
  rcases applyWithdrawalRequestDeferred_cases s request delay with
    same | ⟨account, found, -, -, same⟩ | ⟨account, amount, accepts⟩
  · rw [same]
    exact .refl _
  · rw [same, data_cancelJoining]
    exact .withStatus found rfl rfl
  · rw [accepts.data]
    exact .withStatus accepts.found rfl rfl

theorem sameHoldings_pushRefundIfPositive (address : Address) (amount epoch : Nat) :
    SameHoldings s.toStateData (s.pushRefundIfPositive address amount epoch).toStateData := by
  unfold LiveState.pushRefundIfPositive
  split
  · rw [LiveState.data_pushRefundWithdrawalRequest]
    exact .of_accounts rfl rfl
  · exact .refl _

theorem sameHoldings_refundDeposit (credentials : Bytes32) (amount : Nat)
    (reason : DepositRejectionReason) (delay : Nat) :
    SameHoldings s.toStateData (s.refundDeposit credentials amount reason delay).toStateData := by
  unfold LiveState.refundDeposit
  split
  · exact .refl _
  · exact (sameHoldings_pushRefundIfPositive s _ _ _).trans
      (sameHoldings_pushRefundIfPositive _ _ _ _)

end Routing

/-! ### The book of an account -/

/-- The book of an account over its life. -/
structure AccountBook where
  consensusKey : BlsPublicKey
  address : Address
  /-- What the account had when the book was opened. -/
  initial : Nat
  /-- What deposits have credited. -/
  credited : Nat
  /-- What was paid out to the address of the account. -/
  paid : Nat

namespace AccountBook

def opened (account : ValidatorAccount) : AccountBook :=
  ⟨account.consensusPublicKey, account.withdrawalCredentials, account.balance, 0, 0⟩

def credit (book : AccountBook) (amount : Nat) : AccountBook :=
  { book with credited := book.credited + amount }

def pay (book : AccountBook) (amount : Nat) : AccountBook :=
  { book with paid := book.paid + amount }

def received (book : AccountBook) : Nat := book.initial + book.credited

/-- The book is the one of the account, and its balance is what came in and did not go out. -/
structure Describes (book : AccountBook) (holding : Holding) : Prop where
  consensusKey : holding.consensusKey = book.consensusKey
  address : holding.address = book.address
  balance : holding.balance + book.paid = book.received

theorem describes_opened (account : ValidatorAccount) :
    (opened account).Describes account.holding :=
  ⟨rfl, rfl, rfl⟩

theorem Describes.credit {book : AccountBook} {account : ValidatorAccount}
    (describes : book.Describes account.holding) {request : DepositRequest}
    (fits : book.received + request.amount < 2 ^ 64) :
    (book.credit request.amount).Describes (account.credit request).holding := by
  have balance : account.balance + book.paid = book.initial + book.credited := describes.balance
  have total : book.initial + book.credited + request.amount < 2 ^ 64 := fits
  refine ⟨describes.consensusKey, describes.address, ?_⟩
  show saturatingAdd account.balance request.amount + book.paid =
    book.initial + (book.credited + request.amount)
  rw [saturatingAdd, Nat.min_eq_left (by unfold u64Max; omega)]
  omega

end AccountBook

/-- What the account of an open book has received. -/
def receivedBy (book : Option AccountBook) : Nat := (book.map AccountBook.received).getD 0

/-- There is an open book exactly when there is an account, which it describes; and what the account
has received and may still receive from the deposit queue stays within `total`. -/
structure Kept (total : Nat) (data : StateData) (pubkey : Bytes32) (book : Option AccountBook) :
    Prop where
  describes : Option.Rel (fun holding book => AccountBook.Describes book holding)
    (data.holding pubkey) book
  bounded : receivedBy book + data.queued ≤ total

theorem Kept.of_same {total : Nat} {book : Option AccountBook} (kept : Kept total data pubkey book)
    (same : SameHoldings data data') : Kept total data' pubkey book := by
  refine ⟨?_, ?_⟩
  · rw [same.holding]
    exact kept.describes
  · rw [same.queued]
    exact kept.bounded

/-! ### Deposits in the books -/

/-- The book after a deposit: credited, and opened first when the deposit creates the account. -/
def LiveState.bookDeposit (s : LiveState) (request : DepositRequest) (domain : Digest)
    (pubkey : Bytes32) (book : Option AccountBook) : Option AccountBook :=
  match s.verifyDepositRequest request domain, s.depositAccount request with
  | .ok (), some account =>
    if request.nodePubkey.val = pubkey then
      some ((book.getD (.opened account)).credit request.amount)
    else book
  | _, _ => book

/-- The book after at most `cap` deposits are taken off the queue. -/
def LiveState.bookDeposits (domain : Digest) (warmUp delay : Nat) (pubkey : Bytes32) :
    Nat → LiveState → Option AccountBook → Option AccountBook
  | 0, _, book => book
  | cap + 1, s, book =>
    match s.popDepositDeferred with
    | none => book
    | some (request, popped) =>
      LiveState.bookDeposits domain warmUp delay pubkey cap
        (popped.processDeposit request domain warmUp delay)
        (popped.bookDeposit request domain pubkey book)

section Deposits

variable {total : Nat} {s : LiveState} {pubkey : Bytes32} {book : Option AccountBook}

/-- A credited deposit writes the account of its key. -/
theorem data_creditDeposit_accounts (s : LiveState) (request : DepositRequest)
    (account : ValidatorAccount) (warmUp : Nat) :
    (s.creditDeposit request account warmUp).depositQueue = s.depositQueue ∧
    ∃ written, written.holding = (account.credit request).holding ∧
      (s.creditDeposit request account warmUp).validatorAccounts =
        s.validatorAccounts.insert request.nodePubkey.val written := by
  unfold LiveState.creditDeposit
  dsimp only
  split
  · rw [LiveState.data_addValidator, LiveState.data_setAccount]
    exact ⟨rfl, (account.credit request).joinAt _, rfl, rfl⟩
  · rw [LiveState.data_setAccount]
    exact ⟨rfl, account.credit request, rfl, rfl⟩

theorem holding_creditDeposit (s : LiveState) (request : DepositRequest)
    (account : ValidatorAccount) (warmUp : Nat) (pubkey : Bytes32) :
    (s.creditDeposit request account warmUp).holding pubkey =
      if request.nodePubkey.val = pubkey then some (account.credit request).holding
      else s.holding pubkey := by
  obtain ⟨-, written, same, accounts⟩ := data_creditDeposit_accounts s request account warmUp
  rw [StateData.holding, StateData.getAccount, accounts]
  by_cases here : request.nodePubkey.val = pubkey
  · rw [if_pos here, here, SortedMap.find?_insert_self, ← same]
    rfl
  · rw [if_neg here, SortedMap.find?_insert_of_ne _ _ fun back => here back.symm]
    rfl

theorem Kept.creditDeposit (kept : Kept total s.toStateData pubkey book) {request : DepositRequest}
    {account : ValidatorAccount} (given : s.depositAccount request = some account) (warmUp : Nat)
    (fits : total + request.amount < 2 ^ 64) :
    Kept (total + request.amount) (s.creditDeposit request account warmUp).toStateData pubkey
      (if request.nodePubkey.val = pubkey then
        some ((book.getD (.opened account)).credit request.amount) else book) := by
  have deposits := (data_creditDeposit_accounts s request account warmUp).1
  have queued : (s.creditDeposit request account warmUp).queued = s.queued := by
    rw [StateData.queued, deposits, StateData.queued]
  have bounded := kept.bounded
  by_cases here : request.nodePubkey.val = pubkey
  · -- the open book describes the account, and a new account has nothing yet
    have described : (book.getD (.opened account)).Describes account.holding ∧
        (book.getD (.opened account)).received = receivedBy book := by
      have credits := credits_of_depositAccount s given
      rw [here] at credits
      have describes := kept.describes
      rcases credits with found | ⟨absent, -, nothing⟩
      · rw [holding_of_getAccount found] at describes
        cases describes with
        | some describes => exact ⟨describes, rfl⟩
      · rw [StateData.holding, absent] at describes
        cases describes with
        | none =>
          refine ⟨AccountBook.describes_opened account, ?_⟩
          show account.balance + 0 = 0
          rw [nothing]
    obtain ⟨describes, received⟩ := described
    rw [if_pos here]
    refine ⟨?_, ?_⟩
    · rw [holding_creditDeposit, if_pos here]
      exact .some (describes.credit (by omega))
    · rw [queued]
      show (book.getD (.opened account)).initial +
        ((book.getD (.opened account)).credited + request.amount) + s.queued ≤ _
      unfold AccountBook.received at received
      omega
  · rw [if_neg here]
    refine ⟨?_, ?_⟩
    · rw [holding_creditDeposit, if_neg here]
      exact kept.describes
    · rw [queued]
      omega

/-- **One deposit** off the queue. -/
theorem Kept.processDeposit (kept : Kept total s.toStateData pubkey book)
    (request : DepositRequest) (domain : Digest) (warmUp delay : Nat)
    (fits : total + request.amount < 2 ^ 64) :
    Kept (total + request.amount) (s.processDeposit request domain warmUp delay).toStateData pubkey
      (s.bookDeposit request domain pubkey book) := by
  have weaker : Kept (total + request.amount) s.toStateData pubkey book :=
    ⟨kept.describes, Nat.le_add_right_of_le kept.bounded⟩
  unfold LiveState.processDeposit LiveState.bookDeposit
  cases verified : s.verifyDepositRequest request domain with
  | error reason => exact weaker.of_same (sameHoldings_refundDeposit s _ _ _ _)
  | ok =>
    cases given : s.depositAccount request with
    | none => exact weaker
    | some account => exact kept.creditDeposit given warmUp fits

theorem Kept.drainDeposits (domain : Digest) (warmUp delay cap : Nat)
    (kept : Kept total s.toStateData pubkey book) (fits : total < 2 ^ 64) :
    Kept total (LiveState.drainDeposits domain warmUp delay cap s).1.toStateData pubkey
      (LiveState.bookDeposits domain warmUp delay pubkey cap s book) := by
  induction cap generalizing s book with
  | zero => exact kept
  | succ cap ih =>
    unfold LiveState.drainDeposits LiveState.bookDeposits LiveState.popDepositDeferred
    cases queue : s.depositQueue with
    | nil => exact kept
    | cons request rest =>
      have queued : s.queued = request.amount + (s.putDepositQueue rest).queued := by
        rw [StateData.queued, queue, List.map_cons, List.sum_cons]
        rfl
      have bounded := kept.bounded
      have popped : Kept (total - request.amount) (s.putDepositQueue rest).toStateData pubkey book :=
        ⟨kept.describes, by omega⟩
      have back : total - request.amount + request.amount = total := by omega
      have processed := popped.processDeposit request domain warmUp delay (by omega)
      rw [back] at processed
      exact ih processed

end Deposits

/-! ### A batch of requests in the books -/

/-- The state once the requests of a batch are routed. -/
def LiveState.routedBatch (s : LiveState) (delay : Nat) : LiveState :=
  LiveState.flushWithdrawals ((LiveState.parseEntries s.pendingExecutionRequests).foldl
    (LiveState.routeRequest delay) (s.stagedBatch, false))

/-- The book after the buffered requests are processed. -/
def LiveState.bookBatch (s : LiveState) (domain : Digest) (warmUp delay : Nat) (pubkey : Bytes32)
    (book : Option AccountBook) : Option AccountBook :=
  LiveState.bookDeposits domain warmUp delay pubkey (s.routedBatch delay).maxDepositsPerEpoch
    (s.routedBatch delay) book

section Batch

variable {total : Nat} {pubkey : Bytes32} {book : Option AccountBook}

theorem Kept.routeRequest {batch : LiveState × Bool}
    (kept : Kept total batch.1.toStateData pubkey book) (delay : Nat)
    (request : ParsedExecutionRequest) :
    Kept (total + (request.deposited.map Prod.snd).getD 0)
      (LiveState.routeRequest delay batch request).1.toStateData pubkey book := by
  have bounded := kept.bounded
  have weaker (amount : Nat) : Kept (total + amount) batch.1.toStateData pubkey book :=
    ⟨kept.describes, Nat.le_add_right_of_le bounded⟩
  unfold LiveState.routeRequest
  split
  · next deposit =>
    have queued : (batch.1.pushDeposit deposit).queued = batch.1.queued + deposit.amount := by
      rw [StateData.queued, LiveState.data_pushDeposit, List.map_append, List.sum_append]
      rfl
    refine ⟨kept.describes, ?_⟩
    rw [queued]
    show _ ≤ total + deposit.amount
    omega
  · exact (weaker _).of_same (sameHoldings_applyWithdrawalRequestDeferred _ _ _)
  · exact weaker _
  · exact (weaker _).of_same (sameHoldings_refundDeposit _ _ _ .malformedKey _)

theorem Kept.foldl_routeRequest {batch : LiveState × Bool} (delay : Nat)
    (parsed : List ParsedExecutionRequest) (kept : Kept total batch.1.toStateData pubkey book) :
    Kept (total + depositedAmount parsed)
      (parsed.foldl (LiveState.routeRequest delay) batch).1.toStateData pubkey book := by
  induction parsed generalizing batch total with
  | nil => exact kept
  | cons request rest ih =>
    have routed := ih (kept.routeRequest delay request)
    rw [Nat.add_assoc] at routed
    exact routed

/-- **A batch** adds to the book what its account is credited. -/
theorem Kept.processBufferedRequests {s : LiveState} (kept : Kept total s.toStateData pubkey book)
    (domain : Digest) (warmUp delay : Nat)
    (fits : total + depositedAmount (LiveState.parseEntries s.pendingExecutionRequests) < 2 ^ 64) :
    Kept (total + depositedAmount (LiveState.parseEntries s.pendingExecutionRequests))
      (s.processBufferedRequests domain warmUp delay).toStateData pubkey
      (s.bookBatch domain warmUp delay pubkey book) := by
  have staged : Kept total s.stagedBatch.toStateData pubkey book := by
    rw [data_stagedBatch_queueParams]
    exact kept.of_same (.of_accounts rfl rfl)
  have routed : Kept (total + depositedAmount (LiveState.parseEntries s.pendingExecutionRequests))
      (s.routedBatch delay).toStateData pubkey book := by
    rw [LiveState.routedBatch, LiveState.data_flushWithdrawals]
    exact Kept.foldl_routeRequest delay (LiveState.parseEntries s.pendingExecutionRequests) staged
  have drained := routed.drainDeposits domain warmUp delay
    (s.routedBatch delay).maxDepositsPerEpoch fits
  show Kept _ ((s.routedBatch delay).processDeposits domain warmUp delay).toStateData pubkey _
  unfold LiveState.processDeposits
  dsimp only
  split
  · exact drained
  · exact drained

end Batch

/-! ### Payouts in the books -/

/-- What is emitted for the validator entries of `pubkey` to exactly this address. -/
def StateData.paidTo (data : StateData) (epoch : Nat) (pubkey : Bytes32) (address : Address) : Nat :=
  totalAmount ((data.emitWithdrawalPayouts epoch).filter fun withdrawal =>
    emittedOf (data.dueEntries epoch) pubkey withdrawal && decide (withdrawal.address = address))

/-- Every emitted withdrawal comes from a due entry with its index and address; a validator entry is
paid to the credentials of its account only. -/
theorem source_of_emitted (entries : List PendingWithdrawal)
    (member : withdrawal ∈ (data.emitAll entries).2) :
    ∃ entry ∈ entries, withdrawal.index = entry.inner.index ∧
      (entry.kind = .validator → ∃ account, data.getAccount entry.pubkey = some account ∧
        withdrawal.address = account.withdrawalCredentials) := by
  induction entries using List.reverseRecOn with
  | nil => cases member
  | append_singleton entries entry ih =>
    have before (earlier : withdrawal ∈ (data.emitAll entries).2) :=
      (ih earlier).imp fun other (both : other ∈ entries ∧ _) =>
        (⟨List.mem_append_left [entry] both.1, both.2⟩ : other ∈ entries ++ [entry] ∧ _)
    have last : entry ∈ entries ++ [entry] := List.mem_append_right _ List.mem_cons_self
    rw [StateData.emitAll_concat, StateData.emitEntry] at member
    split at member
    · next refund =>
      rcases List.mem_append.mp member with earlier | here
      · exact before earlier
      · obtain rfl := List.mem_singleton.mp here
        exact ⟨entry, last, rfl, fun validator => by rw [refund] at validator; cases validator⟩
    · split at member
      · exact before member
      · next account found =>
        split at member
        · exact before member
        · next own =>
          dsimp only at member
          split at member
          · rcases List.mem_append.mp member with earlier | here
            · exact before earlier
            · obtain rfl := List.mem_singleton.mp here
              exact ⟨entry, last, rfl, fun _ => ⟨account, found, not_not.mp own⟩⟩
          · exact before member

/-- **Only its own address is paid.** A withdrawal emitted for the validator entries of a key goes to
the credentials of the account that has the key. -/
theorem address_of_emitted (unique : data.withdrawalQueue.UniqueIndexes) {epoch : Nat}
    (member : withdrawal ∈ data.emitWithdrawalPayouts epoch)
    (emitted : emittedOf (data.dueEntries epoch) pubkey withdrawal = true) :
    ∃ account, data.getAccount pubkey = some account ∧
      withdrawal.address = account.withdrawalCredentials := by
  obtain ⟨entry, listed, index, paid⟩ := source_of_emitted _ member
  obtain ⟨validator, rfl⟩ := (emittedOf_iff (nodup_due unique epoch) listed index).mp emitted
  exact paid validator

theorem paidTo_eq_emittedFor (unique : data.withdrawalQueue.UniqueIndexes) (epoch : Nat)
    (found : data.getAccount pubkey = some account) :
    data.paidTo epoch pubkey account.withdrawalCredentials = data.emittedFor epoch pubkey := by
  unfold StateData.paidTo StateData.emittedFor
  congr 1
  refine List.filter_congr fun withdrawal member => ?_
  cases emitted : emittedOf (data.dueEntries epoch) pubkey withdrawal with
  | false => rfl
  | true =>
    obtain ⟨owner, here, address⟩ := address_of_emitted unique member emitted
    obtain rfl := Option.some.inj (found.symm.trans here)
    rw [address, Bool.true_and, decide_eq_true rfl]

/-- What is emitted to the address of an account and what is left of it make up its balance. -/
theorem paidTo_add_remaining (unique : data.withdrawalQueue.UniqueIndexes) (epoch : Nat)
    (found : data.getAccount pubkey = some account) :
    data.paidTo epoch pubkey account.withdrawalCredentials +
      remaining data.prospectiveMinimumStake pubkey account (data.dueEntries epoch) =
        account.balance := by
  rw [paidTo_eq_emittedFor unique epoch found]
  exact emittedFor_add_remaining unique epoch found

/-- The books of a key: the open one, and the closed ones of its earlier accounts. -/
structure KeyBooks where
  current : Option AccountBook
  closed : List AccountBook

/-- The payouts go into the open book, which is closed when the account is gone. -/
def LiveState.bookPayouts (s : LiveState) (pubkey : Bytes32) (books : KeyBooks) : KeyBooks :=
  match books.current with
  | none => books
  | some book =>
    let paid := book.pay (s.paidTo s.epoch pubkey book.address)
    if (s.payDue s.epoch).getAccount pubkey = none then ⟨none, books.closed ++ [paid]⟩
    else ⟨some paid, books.closed⟩

/-- The open book describes the account, and the closed ones have paid out all they received. -/
structure KeyBooks.Sound (total : Nat) (data : StateData) (pubkey : Bytes32) (books : KeyBooks) :
    Prop where
  current : Kept total data pubkey books.current
  closed : ∀ book ∈ books.closed, book.paid = book.received

section Payouts

variable {total : Nat} {s : LiveState} {pubkey : Bytes32}

theorem queued_payDue (indexed : s.withdrawalQueue.Indexed) :
    (s.payDue s.epoch).queued = s.queued := by
  obtain ⟨_, _, _, _, -, -, -, paid⟩ := exists_paidOff s s.epoch indexed.unique
  rw [paid.data]
  rfl

theorem getAccount_payDue_of_none (indexed : s.withdrawalQueue.Indexed)
    (absent : s.getAccount pubkey = none) : (s.payDue s.epoch).getAccount pubkey = none := by
  obtain ⟨_, _, _, _, -, -, -, paid⟩ := exists_paidOff s s.epoch indexed.unique
  rw [StateData.getAccount, paid.data]
  exact find?_debitAll_of_none absent _

/-- An account that the payouts leave has what was not paid to its address; one that they delete has
been paid all it had. -/
theorem getAccount_payDue (indexed : s.withdrawalQueue.Indexed) {account : ValidatorAccount}
    (found : s.getAccount pubkey = some account) :
    ((s.payDue s.epoch).getAccount pubkey = none ∧
      s.paidTo s.epoch pubkey account.withdrawalCredentials = account.balance) ∨
    ∃ left, (s.payDue s.epoch).getAccount pubkey = some { account with balance := left } ∧
      left + s.paidTo s.epoch pubkey account.withdrawalCredentials = account.balance := by
  obtain ⟨_, _, _, _, -, -, -, paid⟩ := exists_paidOff s s.epoch indexed.unique
  have total := paidTo_add_remaining indexed.unique s.epoch found
  rw [StateData.getAccount, paid.data, find?_debitAll found]
  split
  · next gone =>
    rw [gone.2] at total
    exact Or.inl ⟨rfl, total⟩
  · exact Or.inr ⟨_, rfl, (Nat.add_comm _ _).trans total⟩

/-- **The payouts** take from an account what they pay to its address. -/
theorem KeyBooks.Sound.payouts {books : KeyBooks}
    (sound : books.Sound total s.toStateData pubkey) (indexed : s.withdrawalQueue.Indexed) :
    (s.bookPayouts pubkey books).Sound total (s.payDue s.epoch).toStateData pubkey := by
  obtain ⟨⟨describes, bounded⟩, closed⟩ := sound
  obtain ⟨current, old⟩ := books
  rw [← queued_payDue indexed] at bounded
  cases found : s.getAccount pubkey with
  | none =>
    rw [StateData.holding, found] at describes
    cases describes with
    | none =>
      refine ⟨⟨?_, bounded⟩, closed⟩
      rw [StateData.holding, getAccount_payDue_of_none indexed found]
      exact .none
  | some account =>
    rw [holding_of_getAccount found] at describes
    cases describes with
    | @some _ book describes =>
      have address : account.withdrawalCredentials = book.address := describes.address
      have balance : account.balance + book.paid = book.received := describes.balance
      unfold LiveState.bookPayouts
      dsimp only
      rcases getAccount_payDue indexed found with ⟨gone, paid⟩ | ⟨left, here, paid⟩
      · rw [if_pos gone]
        refine ⟨⟨?_, ?_⟩, fun book' member => ?_⟩
        · rw [StateData.holding, gone]
          exact .none
        · exact (Nat.add_le_add_right (Nat.zero_le _) _).trans bounded
        · rcases List.mem_append.mp member with earlier | last
          · exact closed book' earlier
          · obtain rfl := List.mem_singleton.mp last
            show book.paid + s.paidTo s.epoch pubkey book.address = book.received
            rw [← address]
            omega
      · rw [if_neg (by rw [here]; exact Option.some_ne_none _)]
        refine ⟨⟨?_, bounded⟩, closed⟩
        rw [holding_of_getAccount here]
        refine .some ⟨describes.consensusKey, describes.address, ?_⟩
        show left + (book.paid + s.paidTo s.epoch pubkey book.address) = book.received
        rw [← address]
        omega

end Payouts

/-! ### Runs with books -/

/-- A run with the books of every key and the amounts of all deposits so far. -/
structure Bookkeeping where
  state : EpochState
  deposited : Nat
  books : Bytes32 → KeyBooks

namespace Bookkeeping

/-- The books of a genesis state: one for each account. -/
def ofGenesis (genesis : LiveState) : Bookkeeping where
  state := ⟨.collecting, genesis⟩
  deposited := 0
  books := fun pubkey => ⟨(genesis.getAccount pubkey).map .opened, []⟩

/-- Deposits are booked when they are credited and payouts when they are made. -/
def step (warmUp delay : Nat) (run : Bookkeeping) (event : EpochEvent) : Option Bookkeeping :=
  (run.state.step warmUp delay event).map fun state =>
    match event with
    | .process domain =>
      { state
        deposited := run.deposited +
          depositedAmount (LiveState.parseEntries run.state.live.pendingExecutionRequests)
        books := fun pubkey =>
          { run.books pubkey with
            current := run.state.live.bookBatch domain warmUp delay pubkey
              (run.books pubkey).current } }
    | .payouts =>
      { run with state, books := fun pubkey => run.state.live.bookPayouts pubkey (run.books pubkey) }
    | _ => { run with state }

def Steps (warmUp delay : Nat) (run run' : Bookkeeping) : Prop :=
  ∃ event, run.step warmUp delay event = some run'

/-- The states with books that a run reaches. -/
abbrev Reaches (warmUp delay : Nat) : Bookkeeping → Bookkeeping → Prop :=
  Relation.ReflTransGen (Steps warmUp delay)

/-- Every book is sound: no key has received more than it had in genesis and all deposits. -/
def Sound (start : LiveState) (run : Bookkeeping) : Prop :=
  ∀ pubkey, (run.books pubkey).Sound
    (((start.getAccount pubkey).map ValidatorAccount.balance).getD 0 + run.deposited)
    run.state.live.toStateData pubkey

/-- No balance of genesis overflows when all deposits are added to it. -/
def Fits (start : LiveState) (run : Bookkeeping) : Prop :=
  ∀ pubkey, ((start.getAccount pubkey).map ValidatorAccount.balance).getD 0 + run.deposited < 2 ^ 64

variable {warmUp delay : Nat} {start : LiveState} {run run' : Bookkeeping}

theorem step_state {event : EpochEvent} (result : run.step warmUp delay event = some run') :
    run.state.step warmUp delay event = some run'.state := by
  obtain ⟨state, stepped, rfl⟩ := Option.map_eq_some_iff.mp result
  rw [stepped]
  cases event <;> rfl

theorem deposited_le_step {event : EpochEvent} (result : run.step warmUp delay event = some run') :
    run.deposited ≤ run'.deposited := by
  obtain ⟨state, stepped, rfl⟩ := Option.map_eq_some_iff.mp result
  cases event with
  | process domain => exact Nat.le_add_right _ _
  | buffer | enforce | payouts | boundary => exact le_rfl

theorem reaches_state (reaches : Reaches warmUp delay run run') :
    EpochState.Reaches warmUp delay (fun _ _ => True) run.state run'.state := by
  induction reaches with
  | refl => exact .refl
  | tail _ last ih =>
    obtain ⟨event, result⟩ := last
    exact ih.tail ⟨event, trivial, step_state result⟩

/-- Steps other than the two that move funds keep the books. -/
theorem Sound.of_same {state : EpochState} (sound : Sound start run)
    (same : SameHoldings run.state.live.toStateData state.live.toStateData) :
    Sound start { run with state } :=
  fun pubkey => ⟨(sound pubkey).current.of_same same, (sound pubkey).closed⟩

/-- **One step** keeps the books sound. -/
theorem Sound.step {event : EpochEvent} (sound : Sound start run)
    (indexed : run.state.live.withdrawalQueue.Indexed)
    (result : run.step warmUp delay event = some run') (fits : Fits start run') :
    Sound start run' := by
  obtain ⟨state, stepped, rfl⟩ := Option.map_eq_some_iff.mp result
  have effect := (epochStep_of_step indexed stepped).1
  cases event with
  | buffer requests =>
    obtain rfl := Option.some.inj stepped
    refine sound.of_same ?_
    rw [LiveState.data_bufferExecutionRequests]
    exact .of_accounts rfl rfl
  | process domain =>
    obtain ⟨-, same⟩ := Option.ite_none_right_eq_some.mp stepped
    obtain rfl := Option.some.inj same
    intro pubkey
    have total := fits pubkey
    rw [← Nat.add_assoc] at total
    have processed := (sound pubkey).current.processBufferedRequests domain warmUp delay total
    rw [Nat.add_assoc] at processed
    exact ⟨processed, (sound pubkey).closed⟩
  | enforce =>
    obtain ⟨phase, same⟩ := Option.ite_none_right_eq_some.mp stepped
    obtain rfl := Option.some.inj same
    refine sound.of_same ?_
    rcases enforceMinimumStake_cases run.state.live with ⟨same, -⟩ | ⟨-, same⟩ | ⟨-, removals, -⟩
    · dsimp only
      rw [same]
      exact .refl _
    · dsimp only
      rw [same, LiveState.data_setProtocolParamChanges]
      exact .of_accounts rfl rfl
    · exact removals.invariant (P := SameHoldings run.state.live.toStateData)
        (fun _ _ _ removal held => held.trans removal.sameHoldings) (.refl _)
  | payouts =>
    obtain ⟨-, same⟩ := Option.ite_none_right_eq_some.mp stepped
    rw [applyWithdrawalPayouts_emitted] at same
    obtain rfl := Option.some.inj same
    exact fun pubkey => (sound pubkey).payouts indexed
  | boundary key digest =>
    obtain ⟨-, same⟩ := Option.ite_none_right_eq_some.mp stepped
    obtain ⟨⟨crossed, checkpoint⟩, crossing, rfl⟩ := Option.map_eq_some_iff.mp same
    exact sound.of_same (crosses_boundary crossing).sameHoldings

theorem sound_ofGenesis (genesis : start.AtGenesis) : Sound start (ofGenesis start) := by
  intro pubkey
  have nothing : start.queued = 0 := by
    rw [StateData.queued, genesis.deposits]
    rfl
  refine ⟨⟨?_, ?_⟩, List.forall_mem_nil _⟩
  · show Option.Rel _ ((start.getAccount pubkey).map _) ((start.getAccount pubkey).map _)
    cases start.getAccount pubkey with
    | none => exact .none
    | some account => exact .some (AccountBook.describes_opened account)
  · show receivedBy ((start.getAccount pubkey).map _) + start.queued ≤ _
    rw [nothing]
    cases start.getAccount pubkey with
    | none => exact Nat.zero_le _
    | some account => exact le_rfl

/-- **Every run** keeps the books sound, as long as the deposits fit. -/
theorem sound_of_reaches (genesis : start.AtGenesis)
    (reaches : Reaches warmUp delay (ofGenesis start) run) (fits : Fits start run) :
    Sound start run := by
  induction reaches with
  | refl => exact sound_ofGenesis genesis
  | tail before last ih =>
    obtain ⟨event, result⟩ := last
    have le := deposited_le_step result
    have sound := ih fun pubkey => lt_of_le_of_lt (Nat.add_le_add_left le _) (fits pubkey)
    exact sound.step (EpochState.Reaches.indexed (reaches_state before) genesis.indexed) result fits

end Bookkeeping

end Ownership

/-- **Accounts keep their identity, and their balance goes to nobody else.** In every state of every
run from a genesis with distinct consensus keys, in which no balance of genesis overflows with all
deposits added: the consensus keys are distinct; the next step leaves the consensus key and the
credentials of every account that it does not delete; the balance of an account is what it had when
it was created and what deposits have credited since, less what was paid to its own address; earlier
accounts of the key have paid all they received; and a withdrawal is emitted for a key to the
credentials of its account only. -/
theorem accounts_owned [Crypto] {warmUp delay : Nat} {start : LiveState}
    (genesis : start.AtGenesis) (distinct : start.DistinctKeys) {run : Bookkeeping}
    (reaches : Bookkeeping.Reaches warmUp delay (.ofGenesis start) run)
    (fits : run.Fits start) :
    run.state.live.DistinctKeys ∧
    (∀ event run', run.step warmUp delay event = some run' →
      SameIdentity run.state.live.toStateData run'.state.live.toStateData) ∧
    (∀ pubkey, ((run.books pubkey).current = none ↔ run.state.live.getAccount pubkey = none) ∧
      ∀ account book, run.state.live.getAccount pubkey = some account →
        (run.books pubkey).current = some book →
        account.consensusPublicKey = book.consensusKey ∧
        account.withdrawalCredentials = book.address ∧
        book.paid ≤ book.initial + book.credited ∧
        account.balance = book.initial + book.credited - book.paid) ∧
    (∀ pubkey, ∀ book ∈ (run.books pubkey).closed, book.initial + book.credited = book.paid) ∧
    ∀ epoch pubkey, ∀ withdrawal ∈ run.state.live.emitWithdrawalPayouts epoch,
      emittedOf (run.state.live.dueEntries epoch) pubkey withdrawal = true →
      ∃ account, run.state.live.getAccount pubkey = some account ∧
        withdrawal.address = account.withdrawalCredentials := by
  have states := Bookkeeping.reaches_state reaches
  have indexed := EpochState.Reaches.indexed states genesis.indexed
  have sound := Bookkeeping.sound_of_reaches genesis reaches fits
  refine ⟨distinctKeys_of_reaches states genesis.indexed distinct, fun event run' result => ?_,
    fun pubkey => ⟨?_, fun account book found current => ?_⟩,
    fun pubkey book member => ((sound pubkey).closed book member).symm,
    fun epoch pubkey withdrawal member => address_of_emitted indexed.unique member⟩
  · exact (epochStep_of_step indexed (Bookkeeping.step_state result)).1.identity.2
  · have describes := (sound pubkey).current.describes
    rw [StateData.holding] at describes
    cases current : (run.books pubkey).current <;>
      cases found : run.state.live.getAccount pubkey <;>
      rw [current, found] at describes <;> cases describes
    · exact ⟨fun _ => rfl, fun _ => rfl⟩
    · exact ⟨nofun, nofun⟩
  · have describes := (sound pubkey).current.describes
    rw [holding_of_getAccount found, current] at describes
    cases describes with
    | some describes =>
      have balance : account.balance + book.paid = book.initial + book.credited := describes.balance
      exact ⟨describes.consensusKey, describes.address, by omega, by omega⟩

attribute [local instance] Crypto.accepting

theorem distinctKeys_pairGenesis (minimumStake balance balance' : Nat) :
    (pairGenesis minimumStake balance balance').DistinctKeys := by
  have apart : stakedAccount.consensusPublicKey ≠ ⟨FixedBytes.padded 48 [1], rfl⟩ :=
    fun same => absurd (congrArg Subtype.val same) (by decide)
  rw [pairGenesis, LiveState.data_setAccount, LiveState.data_setAccount]
  intro one first found other second found' same
  rcases getAccount_putAccount_cases _ _ found with ⟨rfl, rfl⟩ | ⟨-, found⟩
  · rcases getAccount_putAccount_cases _ _ found' with ⟨rfl, -⟩ | ⟨-, found'⟩
    · rfl
    · rcases getAccount_putAccount_cases _ _ found' with ⟨-, rfl⟩ | ⟨-, found'⟩
      · exact absurd same apart
      · cases found'
  · rcases getAccount_putAccount_cases _ _ found with ⟨rfl, rfl⟩ | ⟨-, found⟩
    · rcases getAccount_putAccount_cases _ _ found' with ⟨-, rfl⟩ | ⟨-, found'⟩
      · exact absurd same apart.symm
      · rcases getAccount_putAccount_cases _ _ found' with ⟨rfl, -⟩ | ⟨-, found'⟩
        · rfl
        · cases found'
    · cases found

/-- The deposit of one gwei is buffered and processed. -/
def oneGweiEvents : List EpochEvent := [.buffer [oneGweiDeposit], .process zeroChunk]

/-- What the run shows of the zero key. -/
def Bookkeeping.ofZeroKey (run : Bookkeeping) : Nat × Option Nat × Option (Nat × Nat × Nat) :=
  (run.deposited, (run.state.live.getAccount zeroChunk).map ValidatorAccount.balance,
    (run.books zeroChunk).current.map fun book => (book.initial, book.credited, book.paid))

theorem accounts_owned_deposit :
    (pairGenesis 32 40 40).AtGenesis ∧ (pairGenesis 32 40 40).DistinctKeys ∧
    ∃ run account book, oneGweiEvents.foldlM (Bookkeeping.step 2 2)
        (.ofGenesis (pairGenesis 32 40 40)) = some run ∧
      run.state.live.getAccount zeroChunk = some account ∧
      (run.books zeroChunk).current = some book ∧ book.credited = 1 ∧
      account.balance = book.initial + book.credited - book.paid := by
  have genesis := atGenesis_pairGenesis 32 40 40
  have distinct := distinctKeys_pairGenesis 32 40 40
  have computed : (oneGweiEvents.foldlM (Bookkeeping.step 2 2)
        (.ofGenesis (pairGenesis 32 40 40))).map Bookkeeping.ofZeroKey =
      some (1, some 41, some (40, 1, 0)) := by decide +kernel
  obtain ⟨run, folded, shown⟩ := Option.map_eq_some_iff.mp computed
  obtain ⟨deposited, rest⟩ := Prod.mk.inj shown
  obtain ⟨balance, current⟩ := Prod.mk.inj rest
  obtain ⟨account, found, -⟩ := Option.map_eq_some_iff.mp balance
  obtain ⟨book, here, amounts⟩ := Option.map_eq_some_iff.mp current
  have reaches := Run.reflTransGen_of_foldlM folded
    (r := Bookkeeping.Steps 2 2) fun _ _ event _ result => ⟨event, result⟩
  have fits : run.Fits (pairGenesis 32 40 40) := by
    intro pubkey
    rw [deposited]
    cases held : (pairGenesis 32 40 40).getAccount pubkey with
    | none => decide
    | some account =>
      have small : account.balance = 40 := or_self_iff.mp (accounts_pairGenesis held).2
      show account.balance + 1 < 2 ^ 64
      rw [small]
      decide
  have owned := (accounts_owned genesis distinct reaches fits).2.2.1 zeroChunk
  exact ⟨genesis, distinct, run, account, book, folded, found, here,
    (Prod.mk.inj (Prod.mk.inj amounts).2).1, (owned.2 account book found here).2.2.2⟩

/-- A balance of `u64::MAX` saturates: one gwei more is credited and the balance is the same. -/
theorem balance_saturated :
    (pairGenesis u64Max u64Max u64Max).AtGenesis ∧ (pairGenesis u64Max u64Max u64Max).DistinctKeys ∧
    ∃ run, Bookkeeping.Reaches 2 2 (.ofGenesis (pairGenesis u64Max u64Max u64Max)) run ∧
      run.deposited < 2 ^ 64 ∧
      ∃ account book, run.state.live.getAccount zeroChunk = some account ∧
        (run.books zeroChunk).current = some book ∧
        account.balance ≠ book.initial + book.credited - book.paid := by
  have computed : (oneGweiEvents.foldlM (Bookkeeping.step 2 2)
        (.ofGenesis (pairGenesis u64Max u64Max u64Max))).map Bookkeeping.ofZeroKey =
      some (1, some u64Max, some (u64Max, 1, 0)) := by decide +kernel
  obtain ⟨run, folded, shown⟩ := Option.map_eq_some_iff.mp computed
  obtain ⟨deposited, rest⟩ := Prod.mk.inj shown
  obtain ⟨balance, current⟩ := Prod.mk.inj rest
  obtain ⟨account, found, same⟩ := Option.map_eq_some_iff.mp balance
  obtain ⟨book, here, amounts⟩ := Option.map_eq_some_iff.mp current
  obtain ⟨initial, moved⟩ := Prod.mk.inj amounts
  obtain ⟨credited, paid⟩ := Prod.mk.inj moved
  refine ⟨atGenesis_pairGenesis _ _ _, distinctKeys_pairGenesis _ _ _, run, ?_, ?_, account, book,
    found, here, ?_⟩
  · exact Run.reflTransGen_of_foldlM folded
      (r := Bookkeeping.Steps 2 2) fun _ _ event _ result => ⟨event, result⟩
  · rw [deposited]
    decide
  · rw [same, initial, credited, paid]
    decide

end Summit
