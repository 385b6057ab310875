/-
**The values of the consensus state.**

Hashing, key decoding and signature checks are code outside the repository: `Crypto` holds them as
functions, and a node or consensus key is a byte array that its decoder accepts. The records below
are those of `account.rs`, `withdrawal.rs`, `execution_request.rs`, `header.rs`,
`protocol_params.rs` and `checkpoint.rs`; unsigned integers are natural numbers, and the places
where the source saturates or truncates say so.
-/

import Summit.Lib.Bytes

set_option linter.unusedSectionVars false

namespace Summit

open Bytes

abbrev Bytes32 := FixedBytes 32
abbrev Digest := Bytes32
abbrev Address := FixedBytes 20

/-- `u64::MAX`. -/
def u64Max : Nat := 2 ^ 64 - 1

/-- `u64::saturating_add`. -/
def saturatingAdd (a b : Nat) : Nat := min (a + b) u64Max

/-! ### Code outside the repository -/

/-- The cryptographic functions the node links against. -/
class Crypto where
  /-- `ethereum_hashing::hash32_concat`, the pair hash of the state tree. -/
  hash32Concat : Bytes32 → Bytes32 → Bytes32
  /-- `Sha256::hash`. -/
  sha256 : List UInt8 → Digest
  /-- Whether `ed25519::PublicKey::decode` accepts the bytes. -/
  nodeKeyDecodes : Bytes32 → Bool
  /-- Whether `bls12381::PublicKey::decode` accepts the bytes. -/
  blsKeyDecodes : FixedBytes 48 → Bool
  /-- Whether the bytes decode to an Ed25519 signature of the message under the key. -/
  verifyNode : Bytes32 → Digest → FixedBytes 64 → Bool
  /-- Whether the bytes decode to a BLS signature of the message under the key. -/
  verifyConsensus : FixedBytes 48 → Digest → FixedBytes 96 → Bool

/-- Stand-ins to evaluate the model with: every key decodes and every signature verifies. -/
@[reducible] def Crypto.accepting : Crypto where
  hash32Concat left _ := left
  sha256 _ := FixedBytes.zero 32
  nodeKeyDecodes _ := true
  blsKeyDecodes _ := true
  verifyNode _ _ _ := true
  verifyConsensus _ _ _ := true

/-- The same with a pair hash that mixes the first bytes of both sides. -/
@[reducible] def Crypto.mixing : Crypto :=
  { Crypto.accepting with
    hash32Concat := fun left right => FixedBytes.padded 32 (leBytes 6
      (leNat (left.val.take 6) * 0x9e3779b97f4b + leNat (right.val.take 6) * 0xc2b2ae3d27d5 +
        0x85ebca77c2b3)) }

section Records

variable [Crypto]

/-- A node's Ed25519 key: the bytes its decoder accepts, which are also its encoding. -/
def PublicKey : Type := { bytes : Bytes32 // Crypto.nodeKeyDecodes bytes = true }

/-- A BLS consensus key. -/
def BlsPublicKey : Type := { bytes : FixedBytes 48 // Crypto.blsKeyDecodes bytes = true }

instance : DecidableEq PublicKey := inferInstanceAs (DecidableEq { _bytes : Bytes32 // _ })
instance : DecidableEq BlsPublicKey := inferInstanceAs (DecidableEq { _bytes : FixedBytes 48 // _ })
instance : LawfulBEq Bytes32 := inferInstance
instance : LawfulBEq PublicKey := inferInstance

/-- The zero keys, to evaluate the model with. -/
def zeroKey : @PublicKey Crypto.accepting := ⟨FixedBytes.zero 32, rfl⟩
def zeroBlsKey : @BlsPublicKey Crypto.accepting := ⟨FixedBytes.zero 48, rfl⟩

/-- `PublicKey::decode`. -/
def PublicKey.decode (bytes : Bytes32) : Option PublicKey :=
  if valid : Crypto.nodeKeyDecodes bytes = true then some ⟨bytes, valid⟩ else none

/-- `bls12381::PublicKey::decode`. -/
def BlsPublicKey.decode (bytes : FixedBytes 48) : Option BlsPublicKey :=
  if valid : Crypto.blsKeyDecodes bytes = true then some ⟨bytes, valid⟩ else none

theorem PublicKey.decode_val (key : PublicKey) : PublicKey.decode key.val = some key := by
  simp only [decode, key.property, dite_true]
  rfl

theorem BlsPublicKey.decode_val (key : BlsPublicKey) : BlsPublicKey.decode key.val = some key := by
  simp only [decode, key.property, dite_true]
  rfl

theorem PublicKey.decode_eq_some {bytes : Bytes32} {key : PublicKey}
    (decoded : PublicKey.decode bytes = some key) : key.val = bytes := by
  unfold decode at decoded
  split at decoded
  · rw [← Option.some.inj decoded]
  · cases decoded

/-! ### Accounts -/

/-- Lifecycle state of a validator account. -/
inductive ValidatorStatus where
  | active
  | inactive
  | submittedExitRequest
  | joining
  | fullPayoutPending
  deriving DecidableEq, Repr

namespace ValidatorStatus

def toU8 : ValidatorStatus → UInt8
  | active => 0
  | inactive => 1
  | submittedExitRequest => 2
  | joining => 3
  | fullPayoutPending => 4

def fromU8 (value : UInt8) : Option ValidatorStatus :=
  match value.toNat with
  | 0 => some active
  | 1 => some inactive
  | 2 => some submittedExitRequest
  | 3 => some joining
  | 4 => some fullPayoutPending
  | _ => none

theorem fromU8_toU8 (status : ValidatorStatus) : fromU8 status.toU8 = some status := by
  cases status <;> rfl

def isCurrentEpochSigner (status : ValidatorStatus) : Bool :=
  status = active || status = submittedExitRequest

def hasMinimumStakeFloor (status : ValidatorStatus) : Bool :=
  status = active || status = submittedExitRequest || status = fullPayoutPending

def isOutOfCommittee (status : ValidatorStatus) : Bool :=
  status = inactive || status = fullPayoutPending

/-- Whether the account holds a seat under the validator cap. -/
def isActiveOrJoining (status : ValidatorStatus) : Bool :=
  status = active || status = joining

end ValidatorStatus

structure ValidatorAccount where
  consensusPublicKey : BlsPublicKey
  withdrawalCredentials : Address
  /-- In gwei. -/
  balance : Nat
  status : ValidatorStatus
  joiningEpoch : Nat
  lastDepositIndex : Nat
  deriving DecidableEq

/-! ### Withdrawals -/

inductive WithdrawalKind where
  | validator
  | depositRefund
  deriving DecidableEq, Repr

namespace WithdrawalKind

def asU8 : WithdrawalKind → UInt8
  | validator => 0
  | depositRefund => 1

def tryFrom (value : UInt8) : Option WithdrawalKind :=
  match value.toNat with
  | 0 => some validator
  | 1 => some depositRefund
  | _ => none

theorem tryFrom_asU8 (kind : WithdrawalKind) : tryFrom kind.asU8 = some kind := by
  cases kind <;> rfl

end WithdrawalKind

/-- An EIP-4895 withdrawal. -/
structure Withdrawal where
  index : Nat
  validatorIndex : Nat
  address : Address
  amount : Nat
  deriving DecidableEq

structure PendingWithdrawal where
  inner : Withdrawal
  pubkey : Bytes32
  /-- The epoch in which the withdrawal is due. -/
  epoch : Nat
  kind : WithdrawalKind
  deriving DecidableEq

structure WithdrawalRequest where
  sourceAddress : Address
  validatorPubkey : Bytes32
  amount : Nat
  deriving DecidableEq

/-! ### Deposits, protocol parameters and committee deltas -/

structure DepositRequest where
  nodePubkey : PublicKey
  consensusPubkey : BlsPublicKey
  withdrawalCredentials : Bytes32
  amount : Nat
  nodeSignature : FixedBytes 64
  consensusSignature : FixedBytes 96
  index : Nat
  deriving DecidableEq

inductive ProtocolParam where
  | minimumStake (value : Nat)
  | epochLength (value : Nat)
  | allowedTimestampFuture (value : Nat)
  | treasuryAddress (address : Address)
  | maxDepositsPerEpoch (value : Nat)
  | maxWithdrawalsPerEpoch (value : Nat)
  | observersPerValidator (value : Nat)
  | minimumValidatorCount (value : Nat)
  | invalidDepositTax (value : Nat)
  | maxPendingWithdrawalsPerValidator (value : Nat)
  | maxValidatorCount (value : Nat)
  deriving DecidableEq

structure AddedValidator where
  nodeKey : PublicKey
  consensusKey : BlsPublicKey
  deriving DecidableEq

end Records

structure ForkchoiceState where
  headBlockHash : Bytes32
  safeBlockHash : Bytes32
  finalizedBlockHash : Bytes32
  deriving DecidableEq

structure Checkpoint where
  data : List UInt8
  digest : Digest
  deriving DecidableEq

/-! ### Helpers of `utils.rs` -/

/-- The address in Eth1 withdrawal credentials: `0x01`, eleven zero bytes, twenty address bytes. -/
def parseWithdrawalCredentials (credentials : Bytes32) : Option Address :=
  if credentials.val.headD 0 ≠ 1 then none
  else if !((credentials.val.drop 1).take 11).all (· == 0) then none
  else some (credentials.slice 12 20)

/-- How a rejected deposit is split: what is refunded and what is taken as tax, `tax` percent
rounded down. The product is taken in 128 bits, so only the truncation to 64 bits is left. -/
def invalidDepositRefundSplit (amount invalidDepositTax : Nat) : Nat × Nat :=
  let tax := (amount * invalidDepositTax / 100) % 2 ^ 64
  (amount - tax, tax)

theorem invalidDepositRefundSplit_sum {amount tax : Nat} (small : amount < 2 ^ 64)
    (percent : tax ≤ 100) :
    (invalidDepositRefundSplit amount tax).1 + (invalidDepositRefundSplit amount tax).2 =
      amount := by
  have part : amount * tax / 100 ≤ amount := by
    refine Nat.div_le_of_le_mul ?_
    rw [Nat.mul_comm 100]
    exact Nat.mul_le_mul_left amount percent
  have fits : amount * tax / 100 % 2 ^ 64 = amount * tax / 100 :=
    Nat.mod_eq_of_lt (lt_of_le_of_lt part small)
  simp only [invalidDepositRefundSplit, fits]
  omega

end Summit
