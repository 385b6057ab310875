/-
**The codec of the consensus state.**

`Encodable` lists what the reader of a state asks for: numbers and lengths that fit their fields,
and the checks across fields. Data that satisfy it are read back as they were written
(`Encodable.reads`). A state is read back with all that its last capture froze, from the snapshot
nested in its encoding (`Frozen.reads`), and takes the bytes that `encode_size` announces
(`length_encode_state`).
-/

import Mathlib.Algebra.Order.BigOperators.Group.List
import Summit.Proof.Commitment
import Summit.Proof.Epocher
import Summit.Proof.ParamBounds
import Summit.Proof.QueueCodec

set_option linter.unusedSectionVars false

namespace Summit

open Bytes

section StateCodec

variable [Crypto]

/-! ### Accounts, deposits and keys -/

@[mk_iff]
structure ValidatorAccount.Fits (account : ValidatorAccount) : Prop where
  balance : account.balance < 2 ^ 64
  joiningEpoch : account.joiningEpoch < 2 ^ 64
  lastDepositIndex : account.lastDepositIndex < 2 ^ 64

instance : DecidablePred ValidatorAccount.Fits := fun account =>
  decidable_of_iff _ (ValidatorAccount.fits_iff account).symm

theorem length_encode_account (account : ValidatorAccount) :
    account.encode.length = ValidatorAccount.size := by
  simp [ValidatorAccount.encode, ValidatorAccount.size]

theorem reads_account {account : ValidatorAccount} (fits : account.Fits) :
    Reads ValidatorAccount.read account.encode account := by
  refine Reads.need _ (length_encode_account account).ge ?_
  refine Reads.cons (reads_fixed account.consensusPublicKey.val) ?_
  refine Reads.orFail _ (BlsPublicKey.decode_val _) ?_
  refine Reads.cons (reads_fixed account.withdrawalCredentials) ?_
  refine Reads.cons (reads_le fits.balance) ?_
  refine Reads.cons (reads_byte account.status.toU8) ?_
  refine Reads.orFail _ (ValidatorStatus.fromU8_toU8 _) ?_
  refine Reads.cons (reads_le fits.joiningEpoch) ?_
  refine Reads.cons (reads_le fits.lastDepositIndex) ?_
  exact reads_pure _

@[mk_iff]
structure DepositRequest.Fits (request : DepositRequest) : Prop where
  amount : request.amount < 2 ^ 64
  index : request.index < 2 ^ 64

instance : DecidablePred DepositRequest.Fits := fun request =>
  decidable_of_iff _ (DepositRequest.fits_iff request).symm

theorem length_encode_deposit (request : DepositRequest) :
    request.encode.length = DepositRequest.size := by
  simp [DepositRequest.encode, DepositRequest.size]

theorem reads_deposit {request : DepositRequest} (fits : request.Fits) :
    Reads DepositRequest.read request.encode request := by
  refine Reads.need _ (length_encode_deposit request).ge ?_
  refine Reads.cons (reads_fixed request.nodePubkey.val) ?_
  refine Reads.orFail _ (PublicKey.decode_val _) ?_
  refine Reads.cons (reads_fixed request.consensusPubkey.val) ?_
  refine Reads.orFail _ (BlsPublicKey.decode_val _) ?_
  refine Reads.cons (reads_fixed request.withdrawalCredentials) ?_
  refine Reads.cons (reads_le fits.amount) ?_
  refine Reads.cons (reads_fixed request.nodeSignature) ?_
  refine Reads.cons (reads_fixed request.consensusSignature) ?_
  refine Reads.cons (reads_le fits.index) ?_
  exact reads_pure _

theorem reads_publicKey (key : PublicKey) : Reads PublicKey.read key.val.val key := by
  refine Reads.congr ((reads_fixed key.val).bind (reads_orFail _ (PublicKey.decode_val key))) ?_ rfl
  exact List.append_nil _

theorem reads_added (validator : AddedValidator) :
    Reads AddedValidator.read validator.encode validator := by
  have consensus : Reads BlsPublicKey.read validator.consensusKey.val.val validator.consensusKey := by
    refine Reads.congr
      ((reads_fixed _).bind (reads_orFail _ (BlsPublicKey.decode_val validator.consensusKey))) ?_ rfl
    exact List.append_nil _
  refine Reads.cons (reads_publicKey validator.nodeKey) ?_
  refine Reads.cons consensus ?_
  exact reads_pure _

/-! ### Protocol parameters -/

variable {param : ProtocolParam} {make : Nat → ProtocolParam} {value : Nat}
  {check : Nat → Except String Unit} {checkpoint : Checkpoint}

theorem validate_of_inBounds (bounded : param.InBounds) (validated : param.isValidated = true) :
    param.validate = .ok () := by
  cases param with
  | minimumStake | minimumValidatorCount | invalidDepositTax => cases validated
  | treasuryAddress => rfl
  | maxDepositsPerEpoch value | observersPerValidator value =>
    exact if_neg (Nat.not_lt.mpr bounded)
  | epochLength value | allowedTimestampFuture value | maxWithdrawalsPerEpoch value
  | maxPendingWithdrawalsPerValidator value | maxValidatorCount value =>
    exact if_pos bounded

theorem boundsReason_eq_ok :
    ProtocolParam.boundsReason make value = .ok () ↔ (make value).validate = .ok () := by
  unfold ProtocolParam.boundsReason
  split
  · next passed => exact ⟨fun _ => passed, fun _ => rfl⟩
  · next failed => exact ⟨nofun, fun passed => by rw [passed] at failed; cases failed⟩

theorem reads_readU64 (small : value < 2 ^ 64) (passed : check value = .ok ()) :
    Reads (ProtocolParam.readU64 make check) (beBytes 8 value) (make value) := by
  intro rest
  rw [ProtocolParam.readU64, (reads_be small).run_bind, passed]
  rfl

theorem reads_param (bounded : param.InBounds) : Reads ProtocolParam.read param.encode param := by
  have checked {make : Nat → ProtocolParam} {value : Nat} (bounded : (make value).InBounds)
      (validated : (make value).isValidated = true) (small : value < 2 ^ 64) :
      Reads (ProtocolParam.readU64 make (ProtocolParam.boundsReason make)) (beBytes 8 value)
        (make value) :=
    reads_readU64 small (boundsReason_eq_ok.mpr (validate_of_inBounds bounded validated))
  cases param with
  | minimumStake value =>
    have tagged : ProtocolParam.readTagged 0x00 =
        ProtocolParam.readU64 .minimumStake fun _ => .ok () := rfl
    exact (reads_byte 0x00).bind (tagged ▸ reads_readU64 bounded rfl)
  | treasuryAddress address =>
    exact (reads_byte 0x03).bind ((reads_fixed address).map ProtocolParam.treasuryAddress)
  | minimumValidatorCount value =>
    exact (reads_byte 0x07).bind
      (reads_readU64 bounded.2 (if_neg (Nat.not_lt.mpr bounded.1)))
  | invalidDepositTax value =>
    exact (reads_byte 0x08).bind (reads_readU64 (lt_of_le_of_lt bounded (by decide))
      (if_neg (Nat.not_lt.mpr bounded)))
  | epochLength value =>
    exact (reads_byte 0x01).bind (checked bounded rfl (lt_of_le_of_lt bounded.2 (by decide)))
  | allowedTimestampFuture value =>
    exact (reads_byte 0x02).bind (checked bounded rfl (lt_of_le_of_lt bounded.2 (by decide)))
  | maxDepositsPerEpoch value =>
    exact (reads_byte 0x04).bind (checked bounded rfl (lt_of_le_of_lt bounded (by decide)))
  | maxWithdrawalsPerEpoch value =>
    exact (reads_byte 0x05).bind (checked bounded rfl (lt_of_le_of_lt bounded.2 (by decide)))
  | observersPerValidator value =>
    exact (reads_byte 0x06).bind (checked bounded rfl (lt_of_le_of_lt bounded (by decide)))
  | maxPendingWithdrawalsPerValidator value =>
    exact (reads_byte 0x09).bind (checked bounded rfl (lt_of_le_of_lt bounded.2 (by decide)))
  | maxValidatorCount value =>
    exact (reads_byte 0x0A).bind (checked bounded rfl (lt_of_le_of_lt bounded.2 (by decide)))

/-! ### Collections -/

section Collections

variable {α : Type}

theorem reads_writeBytes {bytes : List UInt8} (few : bytes.length < 2 ^ 32) :
    Reads readBytes (writeBytes bytes) bytes :=
  (reads_be few).bind (Reads.need _ le_rfl (reads_takeBytes bytes))

variable {item : Reader α} {write : α → List UInt8} {K V : Type}

theorem reads_writeList {values : List α} (few : values.length < 2 ^ 32)
    (each : ∀ value ∈ values, Reads item (write value) value) :
    Reads (readList item) (writeList write values) values :=
  (reads_be few).bind (reads_many each)

theorem reads_readMap [LinearOrder K] {item : Reader (K × V)} {write : K × V → List UInt8}
    {map : SortedMap K V} (few : map.entries.length < 2 ^ 32)
    (each : ∀ entry ∈ map.entries, Reads item (write entry) entry) :
    Reads (readMap item) (writeList write map.entries) map :=
  ((reads_writeList few each).map SortedMap.ofList).congr rfl (SortedMap.ofList_entries map)

theorem reads_writeOption {value : Option α} (each : ∀ a, value = some a → Reads item (write a) a) :
    Reads (readOption item) (writeOption write value) value := by
  cases value with
  | none => exact (reads_byte 0).bind (reads_pure none)
  | some a => exact (reads_byte 1).bind ((each a rfl).map some)

end Collections

/-! ### Checkpoints -/

/-- The digest is that of the data, which are short enough to be written. -/
structure Checkpoint.Sound (checkpoint : Checkpoint) : Prop where
  digest : Crypto.sha256 checkpoint.data = checkpoint.digest
  few : checkpoint.asSszBytes.length < 2 ^ 32

theorem length_asSszBytes (checkpoint : Checkpoint) :
    checkpoint.asSszBytes.length = 36 + checkpoint.data.length := by
  simp [Checkpoint.asSszBytes]
  omega

theorem fromSszBytes_asSszBytes (sound : checkpoint.Sound) :
    Checkpoint.fromSszBytes checkpoint.asSszBytes = some checkpoint := by
  have length := length_asSszBytes checkpoint
  have offset : checkpoint.asSszBytes.take 4 = leBytes 4 36 :=
    List.take_left' (length_leBytes 4 36)
  have middle : checkpoint.asSszBytes.drop 4 = checkpoint.digest.val ++ checkpoint.data := by
    rw [Checkpoint.asSszBytes, List.flatten_cons, List.drop_left' (length_leBytes 4 36)]
    simp
  have data : checkpoint.asSszBytes.drop 36 = checkpoint.data := by
    rw [show 36 = 4 + 32 from rfl, ← List.drop_drop, middle,
      List.drop_left' checkpoint.digest.length_val]
  have digest : bytesAt 32 checkpoint.asSszBytes 4 = checkpoint.digest := by
    refine Subtype.ext ?_
    show (checkpoint.asSszBytes.drop 4 ++ List.replicate 32 0).take 32 = checkpoint.digest.val
    rw [middle, List.append_assoc, List.take_left' checkpoint.digest.length_val]
  unfold Checkpoint.fromSszBytes
  rw [if_neg (by omega), offset, if_neg (by decide), data, digest, if_neg (not_not.mpr sound.digest)]

theorem reads_checkpoint (sound : checkpoint.Sound) :
    Reads Checkpoint.read checkpoint.encode checkpoint := by
  refine (reads_be sound.few).bind (Reads.need _ le_rfl ?_)
  refine Reads.congr ((reads_takeBytes checkpoint.asSszBytes).bind
    (reads_orFail _ (fromSszBytes_asSszBytes sound))) ?_ rfl
  exact List.append_nil _

/-! ### The data of a state -/

theorem reads_readAccount {entry : Bytes32 × ValidatorAccount} (fits : entry.2.Fits) :
    Reads readAccount (writeAccount entry) entry :=
  (reads_fixed entry.1).bind ((reads_account fits).map fun account => (entry.1, account))

theorem reads_readAdded {entry : Nat × List AddedValidator} (small : entry.1 < 2 ^ 64)
    (few : entry.2.length < 2 ^ 32) : Reads readAdded (writeAdded entry) entry :=
  (reads_be small).bind ((reads_writeList few fun validator _ => reads_added validator).map
    fun validators => (entry.1, validators))

theorem reads_forkchoice (forkchoice : ForkchoiceState) :
    Reads ForkchoiceState.read forkchoice.encode forkchoice := by
  refine Reads.cons (reads_fixed forkchoice.headBlockHash) ?_
  refine Reads.cons (reads_fixed forkchoice.safeBlockHash) ?_
  refine Reads.cons (reads_fixed forkchoice.finalizedBlockHash) ?_
  exact reads_pure _

namespace StateData

/-- The numbers fit the machine integers that hold them. -/
@[mk_iff]
structure Fits (data : StateData) : Prop where
  epoch : data.epoch < 2 ^ 64
  view : data.view < 2 ^ 64
  latestHeight : data.latestHeight < 2 ^ 64
  deposits : ∀ request ∈ data.depositQueue, request.Fits
  withdrawals : ∀ entry ∈ data.withdrawalQueue.iterAll, entry.Fits
  accounts : ∀ entry ∈ data.validatorAccounts.entries, entry.2.Fits
  added : ∀ entry ∈ data.addedValidators.entries, entry.1 < 2 ^ 64
  currentEpoch : data.epocher.currentEpoch < 2 ^ 64
  segments : ∀ segment ∈ data.epocher.segments, segment.startEpoch < 2 ^ 64 ∧
    segment.startHeight < 2 ^ 64 ∧ segment.length < 2 ^ 64

instance : DecidablePred Fits := fun data => decidable_of_iff _ (fits_iff data).symm

/-- The lengths of the collections fit four bytes. -/
@[mk_iff]
structure Short (data : StateData) : Prop where
  deposits : data.depositQueue.length < 2 ^ 32
  withdrawals : data.withdrawalQueue.withdrawals.length < 2 ^ 32
  refunds : data.withdrawalQueue.refunds.length < 2 ^ 32
  params : data.protocolParamChanges.length < 2 ^ 32
  accounts : data.validatorAccounts.entries.length < 2 ^ 32
  checkpoint : ∀ checkpoint, data.pendingCheckpoint = some checkpoint →
    checkpoint.asSszBytes.length < 2 ^ 32
  added : data.addedValidators.entries.length < 2 ^ 32
  addedEach : ∀ entry ∈ data.addedValidators.entries, entry.2.length < 2 ^ 32
  removed : data.removedValidators.length < 2 ^ 32
  requests : data.pendingExecutionRequests.length < 2 ^ 32
  requestEach : ∀ request ∈ data.pendingExecutionRequests, request.length < 2 ^ 32
  segments : data.epocher.segments.length < 2 ^ 32

instance {α : Type} {p : α → Prop} [DecidablePred p] (value : Option α) :
    Decidable (∀ a, value = some a → p a) :=
  match value with
  | none => isTrue nofun
  | some a => decidable_of_iff (p a) ⟨fun holds _ same => Option.some.inj same ▸ holds,
      fun holds => holds a rfl⟩

instance : DecidablePred Short := fun data => decidable_of_iff _ (short_iff data).symm

/-- The checks of the reader across fields. -/
structure Admissible (data : StateData) : Prop where
  indexed : data.withdrawalQueue.Indexed
  ordered : data.withdrawalQueue.Ordered
  nextIndex : data.withdrawalQueue.nextIndex < u64Max
  bounds : data.InBounds
  counts : data.minimumValidatorCount ≤ data.maxValidatorCount
  exits : data.pendingActiveValidatorExits ≤
    data.countStatus ValidatorStatus.isCurrentEpochSigner
  checkpoint : ∀ checkpoint, data.pendingCheckpoint = some checkpoint →
    Crypto.sha256 checkpoint.data = checkpoint.digest

/-- What the reader of a state asks for. -/
structure Encodable (data : StateData) : Prop where
  fits : data.Fits
  short : data.Short
  admissible : data.Admissible

variable {data : StateData} {elBlockNumber : Nat} {captured : Option (List UInt8)} {α : Type}
  {write : α → List UInt8} {size : α → Nat}

theorem InBounds.each (bounded : data.InBounds) :
    data.validatorMinimumStake < 2 ^ 64 ∧
      (minAllowedTimestampFutureMs ≤ data.allowedTimestampFutureMs ∧
        data.allowedTimestampFutureMs ≤ maxAllowedTimestampFutureMs) ∧
      data.maxDepositsPerEpoch ≤ maxMaxDepositsPerEpoch ∧
      (maxWithdrawalsPerEpochMin ≤ data.maxWithdrawalsPerEpoch ∧
        data.maxWithdrawalsPerEpoch ≤ maxWithdrawalsPerEpochMax) ∧
      data.observersPerValidator ≤ maxObserversPerValidator ∧
      (minMinimumValidatorCount ≤ data.minimumValidatorCount ∧
        data.minimumValidatorCount < 2 ^ 64) ∧
      data.invalidDepositTax ≤ maxInvalidDepositTax ∧
      (maxPendingWithdrawalsPerValidatorMin ≤ data.maxPendingWithdrawalsPerValidator ∧
        data.maxPendingWithdrawalsPerValidator ≤ maxPendingWithdrawalsPerValidatorMax) ∧
      (minMaxValidatorCount ≤ data.maxValidatorCount ∧
        data.maxValidatorCount ≤ maxMaxValidatorCount) := by
  simpa [storedParams, ProtocolParam.InBounds] using bounded.stored

/-- **Encodable data are read back as they were written.** -/
theorem Encodable.reads (encodable : data.Encodable) (small : elBlockNumber < 2 ^ 64)
    (few : ∀ bytes, captured = some bytes → bytes.length < 2 ^ 32) :
    Reads read (data.encodeWith elBlockNumber captured) (data, elBlockNumber, captured) := by
  obtain ⟨fits, short, admissible⟩ := encodable
  obtain ⟨stake, future, deposits, withdrawals, observers, minimum, tax, pending, maximum⟩ :=
    admissible.bounds.each
  have below {value bound : Nat} (le : value ≤ bound) (lt : bound < 256 ^ 8) : value < 256 ^ 8 :=
    lt_of_le_of_lt le lt
  have exits : data.pendingActiveValidatorExits < 256 ^ 8 := by
    have one := admissible.exits
    have two : data.countStatus ValidatorStatus.isCurrentEpochSigner ≤
      data.validatorAccounts.entries.length := List.countP_le_length
    have three := short.accounts
    omega
  refine Reads.cons (reads_be fits.epoch) ?_
  refine Reads.cons (reads_be fits.view) ?_
  refine Reads.cons (reads_be fits.latestHeight) ?_
  refine Reads.cons (reads_writeList short.deposits fun request member =>
    reads_deposit (fits.deposits request member)) ?_
  refine Reads.cons (WithdrawalQueue.reads_queue admissible.indexed admissible.ordered
    ⟨fits.withdrawals, admissible.nextIndex⟩ short.withdrawals short.refunds) ?_
  refine Reads.cons (reads_writeList short.params fun param member =>
    reads_param (admissible.bounds.queued param member)) ?_
  refine Reads.cons (reads_readMap short.accounts fun entry member =>
    reads_readAccount (fits.accounts entry member)) ?_
  refine Reads.cons (reads_writeOption fun checkpoint same =>
    reads_checkpoint ⟨admissible.checkpoint checkpoint same, short.checkpoint checkpoint same⟩) ?_
  refine Reads.cons (reads_readMap short.added fun entry member =>
    reads_readAdded (fits.added entry member) (short.addedEach entry member)) ?_
  refine Reads.cons (reads_writeList short.removed fun key _ => reads_publicKey key) ?_
  refine Reads.cons (reads_writeList short.requests fun request member =>
    reads_writeBytes (short.requestEach request member)) ?_
  refine Reads.cons (reads_forkchoice data.forkchoice) ?_
  refine Reads.cons (reads_fixed data.epochGenesisHash) ?_
  refine Reads.cons (reads_fixed data.headDigest) ?_
  refine Reads.cons (reads_be stake) ?_
  refine Reads.cons (reads_be (below future.2 (by decide))) ?_
  refine Reads.ensure _ future ?_
  refine Reads.cons (reads_fixed data.treasuryAddress) ?_
  refine Reads.cons (reads_be (below deposits (by decide))) ?_
  refine Reads.ensure _ deposits ?_
  refine Reads.cons (reads_be (below withdrawals.2 (by decide))) ?_
  refine Reads.ensure _ withdrawals ?_
  refine Reads.cons (reads_be (lt_of_le_of_lt observers (by decide))) ?_
  refine Reads.ensure _ observers ?_
  refine Reads.cons (reads_be (below maximum.2 (by decide))) ?_
  refine Reads.ensure _ maximum ?_
  refine Reads.cons (reads_be minimum.2) ?_
  refine Reads.ensure _ (Nat.ne_of_gt minimum.1) ?_
  refine Reads.ensure _ admissible.counts ?_
  refine Reads.cons (reads_be exits) ?_
  refine Reads.ensure _ admissible.exits ?_
  refine Reads.cons (reads_be (below tax (by decide))) ?_
  refine Reads.ensure _ tax ?_
  refine Reads.cons (reads_be (below pending.2 (by decide))) ?_
  refine Reads.ensure _ pending ?_
  refine Reads.cons
    (DynamicEpocher.Small.reads ⟨fits.currentEpoch, fits.segments, short.segments⟩) ?_
  refine Reads.cons (reads_be small) ?_
  refine Reads.cons (reads_writeOption fun bytes same => reads_writeBytes (few bytes same)) ?_
  exact reads_pure _

/-! ### Sizes -/

theorem length_encode_param (param : ProtocolParam) : param.encode.length = param.encodeSize := by
  cases param <;> simp [ProtocolParam.encode, ProtocolParam.encodeSize]

theorem length_encode_checkpoint (checkpoint : Checkpoint) :
    checkpoint.encode.length = checkpoint.encodeSize := by
  rw [Checkpoint.encode, List.length_append, length_beBytes, length_asSszBytes,
    Checkpoint.encodeSize]
  omega

theorem length_encode_epocher (epocher : DynamicEpocher) :
    epocher.encode.length = 8 + 4 + epocher.segments.length * (8 + 8 + 8) := by
  simp only [DynamicEpocher.encode, DynamicEpocher.Segment.encode, List.length_append,
    length_beBytes, List.length_flatMap, List.map_const', List.sum_replicate, nsmul_eq_mul,
    Nat.cast_id]

theorem length_writeList (values : List α) (each : ∀ value, (write value).length = size value) :
    (writeList write values).length = 4 + (values.map size).sum := by
  rw [writeList, List.length_append, length_beBytes, List.length_flatMap, funext each]

theorem length_writeOption (value : Option α) (each : ∀ value, (write value).length = size value) :
    (writeOption write value).length = 1 + value.elim 0 size := by
  cases value with
  | none => rfl
  | some a =>
    rw [writeOption, List.length_append, each]
    rfl

theorem length_writeAdded (entry : Nat × List AddedValidator) :
    (writeAdded entry).length = 8 + 4 + (entry.2.map fun _ => 32 + 48).sum := by
  have each (validator : AddedValidator) : validator.encode.length = 32 + 48 := by
    simp [AddedValidator.encode]
  rw [writeAdded, List.length_append, length_beBytes, length_writeList entry.2 each, Nat.add_assoc]

theorem length_writeAccount (entry : Bytes32 × ValidatorAccount) :
    (writeAccount entry).length = 32 + ValidatorAccount.size := by
  rw [writeAccount, List.length_append, FixedBytes.length_val, length_encode_account]

theorem length_writeBytes (bytes : List UInt8) : (writeBytes bytes).length = 4 + bytes.length := by
  rw [writeBytes, List.length_append, length_beBytes]

theorem length_encode_forkchoice (forkchoice : ForkchoiceState) :
    forkchoice.encode.length = 32 + 32 + 32 := by
  simp [ForkchoiceState.encode]

/-- **`encode_size`** is the length of the encoding. -/
theorem length_encodeWith (data : StateData) (elBlockNumber : Nat)
    (captured : Option (List UInt8)) :
    (data.encodeWith elBlockNumber captured).length = data.encodeSizeWith captured := by
  have key (key : PublicKey) : key.val.val.length = 32 := key.val.length_val
  have added : (data.addedValidators.values.map fun validators =>
      8 + 4 + (validators.map fun _ => 32 + 48).sum) =
        data.addedValidators.entries.map fun entry =>
          8 + 4 + (entry.2.map fun _ => 32 + 48).sum := by
    rw [SortedMap.values, List.map_map]
    rfl
  simp only [encodeWith, encodeSizeWith, List.flatten_cons, List.flatten_nil, List.length_append,
    List.length_nil, length_beBytes, FixedBytes.length_val, added,
    length_writeList data.depositQueue length_encode_deposit, WithdrawalQueue.length_encode,
    length_writeList data.protocolParamChanges length_encode_param,
    length_writeList data.validatorAccounts.entries length_writeAccount,
    length_writeOption data.pendingCheckpoint length_encode_checkpoint,
    length_writeList data.addedValidators.entries length_writeAdded,
    length_writeList data.removedValidators key,
    length_writeList data.pendingExecutionRequests length_writeBytes, length_encode_forkchoice,
    length_encode_epocher, length_writeOption captured length_writeBytes]
  ring

/-- An encoding with less than `2 ^ 32` bytes has no longer collection. -/
theorem short_of_length (small : (data.encodeWith elBlockNumber captured).length < 2 ^ 32) :
    data.Short := by
  rw [length_encodeWith, encodeSizeWith] at small
  have counted {α : Type} (values : List α) (size : α → Nat) (some_ : ∀ value, 1 ≤ size value) :
      values.length ≤ (values.map size).sum := by
    rw [← List.length_map size]
    refine List.length_le_sum_of_one_le _ fun _ member => ?_
    obtain ⟨value, -, rfl⟩ := List.mem_map.mp member
    exact some_ value
  have each {α : Type} {values : List α} {value : α} (size : α → Nat) (member : value ∈ values) :
      size value ≤ (values.map size).sum :=
    List.single_le_sum (fun _ _ => Nat.zero_le _) _ (List.mem_map_of_mem member)
  have queue : data.withdrawalQueue.encodeSize = 8 +
      (4 + data.withdrawalQueue.withdrawals.length * 85) +
        (4 + data.withdrawalQueue.refunds.length * 85) := rfl
  constructor
  case deposits =>
    have := counted data.depositQueue (fun _ => DepositRequest.size) fun _ => by decide
    omega
  case withdrawals => omega
  case refunds => omega
  case params =>
    have := counted data.protocolParamChanges ProtocolParam.encodeSize fun param => by
      cases param <;> exact Nat.le_add_right 1 _
    omega
  case accounts =>
    have := counted data.validatorAccounts.entries (fun _ => 32 + ValidatorAccount.size) fun _ => by
      decide
    omega
  case checkpoint =>
    intro checkpoint held
    have size : data.pendingCheckpoint.elim 0 Checkpoint.encodeSize =
        checkpoint.data.length + 4 + 32 + 4 := by
      rw [held]
      rfl
    rw [length_asSszBytes]
    omega
  case added =>
    have := counted data.addedValidators.values (fun validators =>
      8 + 4 + (validators.map fun _ => 32 + 48).sum) fun _ => by omega
    rw [SortedMap.values, List.length_map] at this
    rw [SortedMap.values] at small
    omega
  case addedEach =>
    intro entry member
    have one : entry.2 ∈ data.addedValidators.values := List.mem_map_of_mem member
    have two := each (fun validators : List AddedValidator =>
      8 + 4 + (validators.map fun _ => 32 + 48).sum) one
    have three := counted entry.2 (fun _ => 32 + 48) fun _ => by decide
    omega
  case removed =>
    have := counted data.removedValidators (fun _ => 32) fun _ => by decide
    omega
  case requests =>
    have := counted data.pendingExecutionRequests (fun request => 4 + request.length) fun _ => by
      omega
    omega
  case requestEach =>
    intro request member
    have := each (fun request : List UInt8 => 4 + request.length) member
    omega
  case segments => omega

end StateData

/-! ### States -/

namespace ConsensusState

/-- The live tree is that of the data, and the last capture froze the tree of `snapshot`. -/
structure Frozen (s : ConsensusState) (snapshot : StateData) : Prop where
  sszTree : s.sszTree = SszStateTree.rebuild s.toStateData
  proofTree : s.proofTree = SszStateTree.rebuild snapshot
  stateRoot : s.stateRoot = (SszStateTree.rebuild snapshot).root
  keys : s.proofValidatorKeys = snapshot.validatorAccounts.keys
  bytes : s.capturedBytes = some (snapshot.encodeWith s.proofElBlockNumber none)

variable {s : ConsensusState} {snapshot : StateData}

/-- A state is what its data, its snapshot and the block number of the capture make. -/
theorem Frozen.eq (frozen : s.Frozen snapshot) :
    (ofData s.toStateData s.proofElBlockNumber s.capturedBytes).withSnapshot
      (ofData snapshot s.proofElBlockNumber none) = s := by
  obtain ⟨sszTree, proofTree, stateRoot, keys, -⟩ := frozen
  obtain ⟨⟨data, tree, counted⟩, tree', keys', root, elBlockNumber, bytes⟩ := s
  dsimp only at sszTree proofTree stateRoot keys
  subst sszTree proofTree stateRoot keys
  rfl

theorem length_encode_state (s : ConsensusState) : s.encode.length = s.encodeSize :=
  StateData.length_encodeWith s.toStateData s.proofElBlockNumber s.capturedBytes

/-- **A state is read back as it was written**, with all that its last capture froze. -/
theorem Frozen.reads (frozen : s.Frozen snapshot) (encodable : s.toStateData.Encodable)
    (encodable' : snapshot.Encodable) (small : s.proofElBlockNumber < 2 ^ 64)
    (few : (snapshot.encodeWith s.proofElBlockNumber none).length < 2 ^ 32) :
    Reads ConsensusState.read s.encode s := by
  intro rest
  have outer : Reads StateData.read s.encode
      (s.toStateData, s.proofElBlockNumber, s.capturedBytes) := by
    refine encodable.reads small fun bytes same => ?_
    rw [frozen.bytes] at same
    rw [← Option.some.inj same]
    exact few
  have inner (depth : Nat) : Reader.decode (readNested (depth + 1))
      (snapshot.encodeWith s.proofElBlockNumber none) =
        .ok (ofData snapshot s.proofElBlockNumber none) := by
    have nothing : ∀ bytes, (none : Option (List UInt8)) = some bytes → bytes.length < 2 ^ 32 := nofun
    refine Reads.decode ?_
    intro rest
    rw [readNested, (encodable'.reads small nothing).run_bind]
    rfl
  -- the encoding is long enough for one nested snapshot
  obtain ⟨depth, length⟩ : ∃ depth, (s.encode ++ rest).length = depth + 2 := by
    refine Nat.exists_eq_add_of_le' ?_
    rw [List.length_append, length_encode_state, encodeSize, StateData.encodeSizeWith]
    omega
  show (readNested (s.encode ++ rest).length).run (s.encode ++ rest) = _
  rw [length, readNested, outer.run_bind]
  rw [frozen.bytes]
  dsimp only
  rw [inner depth, ← frozen.bytes]
  dsimp only
  rw [frozen.eq]
  rfl

/-- A state that is read has the data that are read, and a tree rebuilt from them. -/
theorem data_of_read {buffer rest : List UInt8}
    (result : ConsensusState.read.run buffer = .ok (s, rest)) :
    s.toLiveState = LiveState.ofData s.toStateData ∧ ∃ elBlockNumber captured,
      StateData.read.run buffer = .ok ((s.toStateData, elBlockNumber, captured), rest) := by
  have result : (readNested buffer.length).run buffer = .ok (s, rest) := result
  cases length : buffer.length with
  | zero =>
    rw [length] at result
    cases result
  | succ depth =>
    rw [length, readNested] at result
    obtain ⟨⟨data, elBlockNumber, captured⟩, mid, first, second⟩ := run_bind_eq_ok.mp result
    dsimp only at second
    split at second
    · obtain ⟨rfl, rfl⟩ := Prod.mk.inj (Except.ok.inj second)
      exact ⟨rfl, elBlockNumber, _, first⟩
    · split at second
      · obtain ⟨rfl, rfl⟩ := Prod.mk.inj (Except.ok.inj second)
        exact ⟨rfl, elBlockNumber, _, first⟩
      · cases second

end ConsensusState

end StateCodec

end Summit
