/-
**The state of a genesis.**

`initialState` gives every validator of the genesis file an account and leaves the rest as a new
chain has it (`data_initialState`). If the file passes `validate` (`Valid`), that state is where the
invariants of a run start: nothing is queued, every parameter is within its bounds, the validators
have their seats, and the next block belongs to the first epoch.
-/

import Summit.Proof.BlockRun
import Summit.Proof.ParamBounds

set_option linter.unusedSectionVars false

namespace Summit

open Bytes DynamicEpocher

section GenesisState

variable [Crypto]

/-! ### The checks of the file -/

theorem inBounds_of_boundsCheck {make : Nat → ProtocolParam} {value : Nat}
    (passed : boundsCheck make value = .ok ()) (validated : (make value).isValidated = true) :
    (make value).InBounds := by
  unfold boundsCheck at passed
  split at passed
  · next ok => exact inBounds_of_validate ok validated
  · cases passed

namespace Genesis

/-- What a genesis file that passes its checks says. -/
structure Valid (genesis : Genesis) : Prop where
  epochLength : (ProtocolParam.epochLength genesis.blocksPerEpoch).InBounds
  allowedTimestampFuture :
    (ProtocolParam.allowedTimestampFuture genesis.allowedTimestampFutureMs).InBounds
  maxDeposits : (ProtocolParam.maxDepositsPerEpoch genesis.maxDepositsPerEpoch).InBounds
  maxWithdrawals : (ProtocolParam.maxWithdrawalsPerEpoch genesis.maxWithdrawalsPerEpoch).InBounds
  observers : (ProtocolParam.observersPerValidator genesis.observersPerValidator).InBounds
  maximum : (ProtocolParam.maxValidatorCount genesis.maxValidatorCount).InBounds
  seated : genesis.validators.length ≤ genesis.maxValidatorCount
  pending : (ProtocolParam.maxPendingWithdrawalsPerValidator
    genesis.maxPendingWithdrawalsPerValidator).InBounds
  minimum : minMinimumValidatorCount ≤ genesis.minimumValidatorCount
  ordered : genesis.minimumValidatorCount ≤ genesis.maxValidatorCount
  tax : genesis.invalidDepositTax ≤ maxInvalidDepositTax

theorem valid_of_validate {genesis : Genesis} (passed : genesis.validate = .ok ()) :
    genesis.Valid := by
  unfold validate at passed
  simp only [Checks.seq_eq_ok, Checks.throw_eq_ok] at passed
  obtain ⟨length, future, deposits, withdrawals, observers, maximum, seated, pending, minimum,
    ordered, tax⟩ := passed
  have taxed : ¬genesis.invalidDepositTax > maxInvalidDepositTax := (Checks.refuse_eq_ok.mp tax).1
  exact
    { epochLength := inBounds_of_boundsCheck length rfl
      allowedTimestampFuture := inBounds_of_boundsCheck future rfl
      maxDeposits := inBounds_of_boundsCheck deposits rfl
      maxWithdrawals := inBounds_of_boundsCheck withdrawals rfl
      observers := inBounds_of_boundsCheck observers rfl
      maximum := inBounds_of_boundsCheck maximum rfl
      seated := Nat.le_of_not_lt seated
      pending := inBounds_of_boundsCheck pending rfl
      minimum := Nat.le_of_not_lt minimum
      ordered := Nat.le_of_not_lt ordered
      tax := Nat.le_of_not_lt taxed }

/-! ### The data -/

variable (genesis : Genesis) (positive : 0 < genesis.blocksPerEpoch)

/-- The accounts, as the file lists them. -/
def accounts : List (Bytes32 × ValidatorAccount) :=
  genesis.validators.map fun validator =>
    (validator.nodePublicKey.val, genesis.account validator)

/-- The data of the chain while it has no accounts. -/
def emptyData : StateData :=
  StateData.new
    { headBlockHash := genesis.ethGenesisHash
      safeBlockHash := genesis.ethGenesisHash
      finalizedBlockHash := genesis.ethGenesisHash }
    genesis.validatorMinimumStake genesis.blocksPerEpoch positive genesis.allowedTimestampFutureMs
    genesis.treasuryAddress genesis.maxDepositsPerEpoch genesis.maxWithdrawalsPerEpoch
    genesis.observersPerValidator genesis.maxValidatorCount genesis.minimumValidatorCount
    genesis.invalidDepositTax genesis.maxPendingWithdrawalsPerValidator

theorem data_setAccounts (validators : List Validator) (live : LiveState) :
    (validators.foldl (fun live validator =>
        live.setAccount validator.nodePublicKey.val (genesis.account validator)) live).toStateData =
      { live.toStateData with
        validatorAccounts := (validators.map fun validator =>
            (validator.nodePublicKey.val, genesis.account validator)).foldl
          (fun accounts entry => accounts.insert entry.1 entry.2) live.validatorAccounts } := by
  induction validators generalizing live with
  | nil => rfl
  | cons validator rest ih =>
    rw [List.foldl_cons, ih, LiveState.data_setAccount]
    rfl

/-- **The data of the initial state**: a new chain with the accounts of the file. -/
theorem data_initialState :
    (genesis.initialState positive).toStateData =
      { genesis.emptyData positive with validatorAccounts := .ofList genesis.accounts } :=
  genesis.data_setAccounts genesis.validators _

theorem committed_initialState : (genesis.initialState positive).Committed :=
  committed_ofData _ _ _

theorem atGenesis_initialState : (genesis.initialState positive).AtGenesis := by
  have data := genesis.data_initialState positive
  constructor
  case active =>
    intro pubkey account found
    rw [data] at found
    have listed := (SortedMap.subset_ofList genesis.accounts).2 _ (SortedMap.find?_eq_some_iff.mp found)
    obtain ⟨validator, -, same⟩ := List.mem_map.mp listed
    rw [← (Prod.mk.inj same).2]
    rfl
  all_goals
    rw [data]
    rfl

theorem size_initialState :
    (genesis.initialState positive).validatorAccounts.size ≤ genesis.validators.length := by
  rw [data_initialState]
  have size := (SortedMap.subset_ofList genesis.accounts).1
  rwa [accounts, List.length_map] at size

end Genesis

/-! ### The invariants at the start -/

section Start

variable {genesis : Genesis} {positive : 0 < genesis.blocksPerEpoch} (valid : genesis.Valid)

include valid

/-- Every parameter starts within its bounds; the minimum stake is a `u64` and is not checked. -/
theorem Genesis.Valid.inBounds (stake : genesis.validatorMinimumStake < 2 ^ 64) :
    (genesis.initialState positive).InBounds := by
  have small : genesis.minimumValidatorCount < 2 ^ 64 :=
    calc genesis.minimumValidatorCount ≤ genesis.maxValidatorCount := valid.ordered
      _ ≤ maxMaxValidatorCount := valid.maximum.2
      _ < 2 ^ 64 := by decide
  rw [genesis.data_initialState positive]
  refine ⟨?_, List.forall_mem_nil _⟩
  simp only [StateData.storedParams, List.forall_mem_cons]
  exact ⟨stake, valid.allowedTimestampFuture, trivial, valid.maxDeposits, valid.maxWithdrawals,
    valid.observers, ⟨valid.minimum, small⟩, valid.tax, valid.pending, valid.maximum,
    List.forall_mem_nil _⟩

theorem Genesis.Valid.ordered_initialState :
    (genesis.initialState positive).minimumValidatorCount ≤
      (genesis.initialState positive).maxValidatorCount := by
  rw [genesis.data_initialState positive]
  exact valid.ordered

theorem Genesis.Valid.seated_initialState :
    (genesis.initialState positive).validatorAccounts.size ≤
      (genesis.initialState positive).maxValidatorCount := by
  refine (genesis.size_initialState positive).trans ?_
  rw [genesis.data_initialState positive]
  exact valid.seated

theorem Genesis.Valid.long : (genesis.initialState positive).Long := by
  have ten := valid.epochLength.1
  rw [genesis.data_initialState positive]
  intro segment member
  rw [List.mem_singleton.mp member]
  exact (show 2 ≤ minEpochLength by decide).trans ten

/-- The next block is the second one of the first epoch, which has ten blocks at least. -/
theorem Genesis.Valid.underway :
    (genesis.initialState positive).Underway ∧
      (genesis.initialState positive).latestHeight + 3 <
        firstHeight (genesis.initialState positive).epocher.newestFirst
          ((genesis.initialState positive).epoch + 1) := by
  have ten : 10 ≤ genesis.blocksPerEpoch := valid.epochLength.1
  rw [genesis.data_initialState positive]
  have first : firstHeight (DynamicEpocher.new genesis.blocksPerEpoch positive).newestFirst 0 = 0 :=
    (Nat.zero_add _).trans (Nat.zero_mul _)
  have next : firstHeight (DynamicEpocher.new genesis.blocksPerEpoch positive).newestFirst 1 =
      genesis.blocksPerEpoch := by
    show 0 + (1 - 0) * genesis.blocksPerEpoch = _
    omega
  refine ⟨⟨⟨scheduled_new positive, rfl⟩, ?_, ?_⟩, ?_⟩
  · show firstHeight (DynamicEpocher.new genesis.blocksPerEpoch positive).newestFirst 0 ≤ 0 + 1
    omega
  · show 0 + 1 < firstHeight (DynamicEpocher.new genesis.blocksPerEpoch positive).newestFirst 1
    omega
  · show 0 + 3 < firstHeight (DynamicEpocher.new genesis.blocksPerEpoch positive).newestFirst 1
    omega

theorem Genesis.Valid.phase : (genesis.initialState positive).phase = .collecting := by
  obtain ⟨underway, later⟩ : (genesis.initialState positive).Underway ∧ _ := valid.underway
  refine if_neg fun last => ?_
  obtain ⟨ends, -⟩ := underway.isLast_iff.mp last
  omega

end Start

end GenesisState

/-- A genesis file with small limits. -/
def smallGenesis [Crypto] (validators : List Validator) : Genesis where
  ethGenesisHash := zeroChunk
  validatorMinimumStake := 32
  blocksPerEpoch := 10
  allowedTimestampFutureMs := 1000
  treasuryAddress := FixedBytes.zero 20
  maxDepositsPerEpoch := 4
  maxWithdrawalsPerEpoch := 4
  observersPerValidator := 0
  maxValidatorCount := 4
  minimumValidatorCount := 1
  invalidDepositTax := 0
  maxPendingWithdrawalsPerValidator := 4
  validators

attribute [local instance] Crypto.accepting

/-- A genesis file with one validator. -/
def singleGenesis : Genesis := smallGenesis [⟨zeroKey, zeroBlsKey, FixedBytes.zero 20⟩]

theorem validate_singleGenesis : singleGenesis.validate = .ok () := by decide +kernel

end Summit
