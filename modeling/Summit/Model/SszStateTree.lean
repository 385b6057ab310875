/-
**The two-level state tree** of `ssz_state_tree.rs`.

The top tree has one leaf per scalar field and per collection; a collection's leaf is the root of
its own tree with the number of items mixed in. An item takes a block of leaves: `fields` lists the
leaves it writes, with their offset in the block, in the order the source writes them. Rebuilding a
collection, appending an item and the shift of validator blocks are stated once over such lists.
-/

import Summit.Model.Epocher
import Summit.Model.SszTree
import Summit.Model.WithdrawalQueue

set_option linter.unusedSectionVars false

namespace Summit

open Bytes HeapTree

/-! ### Leaf indices of the top tree -/

namespace Leaf

def epoch : Nat := 0
def view : Nat := 1
def latestHeight : Nat := 2
def headDigest : Nat := 3
def epochGenesisHash : Nat := 4
def validatorMinimumStake : Nat := 5
def nextWithdrawalIndex : Nat := 6
def forkchoiceHeadBlockHash : Nat := 7
def forkchoiceSafeBlockHash : Nat := 8
def forkchoiceFinalizedBlockHash : Nat := 9
def allowedTimestampFutureMs : Nat := 10
def validatorAccountsRoot : Nat := 11
def depositQueueRoot : Nat := 12
def withdrawalQueueRoot : Nat := 13
def protocolParamChangesRoot : Nat := 14
def addedValidatorsRoot : Nat := 15
def removedValidatorsRoot : Nat := 16
def treasuryAddress : Nat := 17
def maxDepositsPerEpoch : Nat := 18
def maxWithdrawalsPerEpoch : Nat := 19
def observersPerValidator : Nat := 20
def pendingExecutionRequestsRoot : Nat := 21
def pendingCheckpoint : Nat := 22
def dynamicEpochSchedule : Nat := 23
def minimumValidatorCount : Nat := 24
def pendingActiveValidatorExits : Nat := 25
def invalidDepositTax : Nat := 26
def maxPendingWithdrawalsPerValidator : Nat := 27
def maxValidatorCount : Nat := 28

end Leaf

/-- `NUM_TOP_LEAVES`. -/
def numTopLeaves : Nat := 29

/-- Leaves per validator, deposit and withdrawal, per protocol parameter and per added
validator. -/
def validatorFieldsPerAccount : Nat := 8
def depositFieldsPerItem : Nat := 8
def withdrawalFieldsPerItem : Nat := 8
def protocolParamFieldsPerItem : Nat := 2
def addedValidatorFieldsPerItem : Nat := 4

section Trees

variable [Crypto]

/-! ### Blocks of field leaves -/

/-- Write the leaves of one item, rehashing each path. -/
def SszTree.setFields (tree : SszTree) (base : Nat) (fields : List (Nat × Bytes32)) : SszTree :=
  fields.foldl (fun tree field => tree.setLeaf (base + field.1) field.2) tree

/-- Write the leaves of one item without rehashing. -/
def SszTree.setFieldsNoRehash (tree : SszTree) (base : Nat) (fields : List (Nat × Bytes32)) :
    SszTree :=
  fields.foldl (fun tree field => tree.setLeafNoRehash (base + field.1) field.2) tree

/-- A fresh tree with one block of `width` leaves per item. -/
def SszTree.ofItems {α : Type} (width : Nat) (fields : α → List (Nat × Bytes32)) (items : List α) :
    SszTree :=
  items.zipIdx.foldl (fun tree item => tree.setFields (item.2 * width) (fields item.1))
    (SszTree.new (max (items.length * width) 1))

/-- Append one item after `count` items, growing the tree when there is no room. -/
def SszTree.pushItem (tree : SszTree) (count width : Nat) (fields : List (Nat × Bytes32)) :
    SszTree :=
  (tree.grow ((count + 1) * width)).setFields (count * width) fields

/-! ### Blocks of any size, with every access checked

`insert_validator_at_slot` and `remove_validator_at_slot` as operations on an array of blocks. A
result is there only when every node that the source reads or writes lies inside the array. -/

namespace SszTree

/-- The source stops at an access outside the array. -/
def checked (inside : Prop) [Decidable inside] (tree : SszTree) : Option SszTree :=
  if inside then some tree else none

def rehash? (tree : SszTree) (indices : List Nat) : Option SszTree :=
  checked (∀ i ∈ indices, 2 * i + 1 < tree.nodes.length) (tree.rehash indices)

def setLeafNoRehash? (tree : SszTree) (leafIndex : Nat) (value : Bytes32) : Option SszTree :=
  checked (tree.capacity + leafIndex < tree.nodes.length) (tree.setLeafNoRehash leafIndex value)

def setFieldsNoRehash? (tree : SszTree) (base : Nat) (fields : List (Nat × Bytes32)) :
    Option SszTree :=
  fields.foldlM (fun tree field => tree.setLeafNoRehash? (base + field.1) field.2) tree

def setLeaf? (tree : SszTree) (leafIndex : Nat) (value : Bytes32) : Option SszTree := do
  let i := tree.capacity + leafIndex
  (← tree.setLeafNoRehash? leafIndex value).rehash? (pathUp i i)

def rehashBlock? (tree : SszTree) (slot blockSize : Nat) : Option SszTree :=
  tree.rehash? (blockIndices tree.capacity slot blockSize)

/-- Both shifts of `count` blocks touch the nodes of `count + 1` blocks, at every level. -/
def ShiftsInside (tree : SszTree) (fromSlot count blockSize : Nat) : Prop :=
  count = 0 ∨ ∀ level ∈ List.range (Nat.log2 blockSize + 1),
    (tree.capacity >>> level) + (fromSlot + count + 1) * (blockSize >>> level) ≤ tree.nodes.length

instance (tree : SszTree) (fromSlot count blockSize : Nat) :
    Decidable (tree.ShiftsInside fromSlot count blockSize) := inferInstanceAs (Decidable (_ ∨ _))

def shiftBlocksRight? (tree : SszTree) (fromSlot count blockSize : Nat) : Option SszTree :=
  checked (tree.ShiftsInside fromSlot count blockSize) (tree.shiftBlocksRight fromSlot count blockSize)

def shiftBlocksLeft? (tree : SszTree) (fromSlot count blockSize : Nat) : Option SszTree :=
  checked (tree.ShiftsInside fromSlot count blockSize) (tree.shiftBlocksLeft fromSlot count blockSize)

/-- The old leaves have to fit the new array. -/
def grow? (tree : SszTree) (minLeaves : Nat) : Option SszTree :=
  checked (minLeaves ≤ tree.capacity ∨
    2 * tree.capacity ≤ tree.nodes.length ∧ tree.capacity ≤ nextPowerOfTwo minLeaves)
    (tree.grow minLeaves)

def shrink? (tree : SszTree) (minLeaves : Nat) : Option SszTree :=
  checked (nextPowerOfTwo (max minLeaves 1) ≥ tree.capacity ∨
    tree.capacity + nextPowerOfTwo (max minLeaves 1) ≤ tree.nodes.length) (tree.shrink minLeaves)

/-- Insert a block at `slot` into an array of `count` blocks. -/
def insertBlock? (tree : SszTree) (count slot blockSize : Nat) (fields : List (Nat × Bytes32)) :
    Option SszTree := do
  let grown ← tree.grow? ((count + 1) * blockSize)
  let shifted ← grown.shiftBlocksRight? slot (count - slot) blockSize
  let written ← shifted.setFieldsNoRehash? (slot * blockSize) fields
  let block ← written.rehashBlock? slot blockSize
  return block.rehashAboveBlock slot blockSize

/-- Zero the leaves of the block at `slot`. -/
def clearBlock? (tree : SszTree) (slot blockSize : Nat) : Option SszTree := do
  let zeroed ← tree.setFieldsNoRehash? (slot * blockSize)
    ((List.range blockSize).map fun i => (i, zeroChunk))
  zeroed.rehashBlock? slot blockSize

/-- Remove the block at `slot` from an array of `count` blocks. -/
def removeBlock? (tree : SszTree) (count slot blockSize : Nat) : Option SszTree := do
  let toShift := count - slot - 1
  let shifted ← tree.shiftBlocksLeft? slot toShift blockSize
  let cleared ← if toShift = 0 then shifted.clearBlock? slot blockSize
    else shifted.rehashBlock? (count - 1) blockSize
  let needed := max ((count - 1) * blockSize) 1
  if nextPowerOfTwo needed < cleared.capacity then cleared.shrink? needed
  else return cleared.rehashAboveBlock slot blockSize

end SszTree

/-- `set_validator_fields`: the map key and the six account fields. -/
def validatorFields (entry : Bytes32 × ValidatorAccount) : List (Nat × Bytes32) :=
  [(6, entry.1),
   (0, hashBlsKey entry.2.consensusPublicKey),
   (1, hashAddress entry.2.withdrawalCredentials),
   (2, hashU64 entry.2.balance),
   (3, hashU8 entry.2.status.toU8),
   (4, hashU64 entry.2.joiningEpoch),
   (5, hashU64 entry.2.lastDepositIndex)]

/-- `set_deposit_fields`. -/
def depositFields (deposit : DepositRequest) : List (Nat × Bytes32) :=
  [(0, deposit.nodePubkey.val),
   (1, hashBlsKey deposit.consensusPubkey),
   (2, deposit.withdrawalCredentials),
   (3, hashU64 deposit.amount),
   (4, hashFixedBytes64 deposit.nodeSignature),
   (5, hashFixedBytes96 deposit.consensusSignature),
   (6, hashU64 deposit.index)]

/-- `set_withdrawal_fields`. -/
def withdrawalFields (withdrawal : PendingWithdrawal) : List (Nat × Bytes32) :=
  [(0, hashU64 withdrawal.inner.index),
   (1, hashU64 withdrawal.inner.validatorIndex),
   (2, hashAddress withdrawal.inner.address),
   (3, hashU64 withdrawal.inner.amount),
   (4, withdrawal.pubkey),
   (5, hashU64 withdrawal.epoch),
   (6, hashU8 withdrawal.kind.asU8)]

/-- Tag and value leaf of a protocol parameter. -/
def protocolParamLeaves : ProtocolParam → Nat × Bytes32
  | .minimumStake v => (0, hashU64 v)
  | .epochLength v => (1, hashU64 v)
  | .allowedTimestampFuture v => (2, hashU64 v)
  | .treasuryAddress address => (3, hashAddress address)
  | .maxDepositsPerEpoch v => (4, hashU64 v)
  | .maxWithdrawalsPerEpoch v => (5, hashU64 v)
  | .observersPerValidator v => (6, hashU64 v)
  | .minimumValidatorCount v => (7, hashU64 v)
  | .invalidDepositTax v => (8, hashU64 v)
  | .maxPendingWithdrawalsPerValidator v => (9, hashU64 v)
  | .maxValidatorCount v => (10, hashU64 v)

/-- `set_protocol_param_fields`. -/
def protocolParamFields (param : ProtocolParam) : List (Nat × Bytes32) :=
  [(0, hashU64 (protocolParamLeaves param).1), (1, (protocolParamLeaves param).2)]

/-- `set_added_validator_fields`: the two keys and the activation epoch. -/
def addedValidatorFields (item : Nat × AddedValidator) : List (Nat × Bytes32) :=
  [(0, item.2.nodeKey.val), (1, hashBlsKey item.2.consensusKey), (2, hashU64 item.1)]

/-- The one leaf of a removed validator. -/
def removedValidatorFields (key : PublicKey) : List (Nat × Bytes32) := [(0, key.val)]

/-- The one leaf of a deferred request. -/
def pendingRequestFields (request : List UInt8) : List (Nat × Bytes32) :=
  [(0, hashByteList request)]

/-! ### The state tree -/

structure SszStateTree where
  top : SszTree
  validatorTree : SszTree
  validatorCount : Nat
  depositTree : SszTree
  depositCount : Nat
  withdrawalTree : SszTree
  withdrawalCount : Nat
  /-- Key to the first slot of its entries. -/
  withdrawalPubkeyIndex : SortedMap Bytes32 Nat
  protocolParamTree : SszTree
  protocolParamCount : Nat
  addedValidatorTree : SszTree
  addedValidatorCount : Nat
  removedValidatorTree : SszTree
  removedValidatorCount : Nat
  pendingExecutionRequestTree : SszTree
  pendingExecutionRequestCount : Nat
  deriving DecidableEq

namespace SszStateTree

def new : SszStateTree where
  top := SszTree.new numTopLeaves
  validatorTree := SszTree.new 1
  validatorCount := 0
  depositTree := SszTree.new 1
  depositCount := 0
  withdrawalTree := SszTree.new 1
  withdrawalCount := 0
  withdrawalPubkeyIndex := .empty
  protocolParamTree := SszTree.new 1
  protocolParamCount := 0
  addedValidatorTree := SszTree.new 1
  addedValidatorCount := 0
  removedValidatorTree := SszTree.new 1
  removedValidatorCount := 0
  pendingExecutionRequestTree := SszTree.new 1
  pendingExecutionRequestCount := 0

/-- The state root. -/
def root (tree : SszStateTree) : Bytes32 := tree.top.root

/-! ### Scalar leaves -/

/-- Set one leaf of the top tree. -/
def setTop (tree : SszStateTree) (leafIndex : Nat) (value : Bytes32) : SszStateTree :=
  { tree with top := tree.top.setLeaf leafIndex value }

def setEpoch (tree : SszStateTree) (epoch : Nat) : SszStateTree :=
  tree.setTop Leaf.epoch (hashU64 epoch)

def setView (tree : SszStateTree) (view : Nat) : SszStateTree :=
  tree.setTop Leaf.view (hashU64 view)

def setLatestHeight (tree : SszStateTree) (height : Nat) : SszStateTree :=
  tree.setTop Leaf.latestHeight (hashU64 height)

def setHeadDigest (tree : SszStateTree) (digest : Bytes32) : SszStateTree :=
  tree.setTop Leaf.headDigest digest

def setEpochGenesisHash (tree : SszStateTree) (hash : Bytes32) : SszStateTree :=
  tree.setTop Leaf.epochGenesisHash hash

def setValidatorMinimumStake (tree : SszStateTree) (stake : Nat) : SszStateTree :=
  tree.setTop Leaf.validatorMinimumStake (hashU64 stake)

def setAllowedTimestampFutureMs (tree : SszStateTree) (ms : Nat) : SszStateTree :=
  tree.setTop Leaf.allowedTimestampFutureMs (hashU64 ms)

def setMaxDepositsPerEpoch (tree : SszStateTree) (value : Nat) : SszStateTree :=
  tree.setTop Leaf.maxDepositsPerEpoch (hashU64 value)

def setMaxWithdrawalsPerEpoch (tree : SszStateTree) (value : Nat) : SszStateTree :=
  tree.setTop Leaf.maxWithdrawalsPerEpoch (hashU64 value)

def setObserversPerValidator (tree : SszStateTree) (value : Nat) : SszStateTree :=
  tree.setTop Leaf.observersPerValidator (hashU32 value)

/-- The digest of the pending checkpoint, or zero when there is none. -/
def setPendingCheckpointDigest (tree : SszStateTree) (digest : Option Digest) : SszStateTree :=
  tree.setTop Leaf.pendingCheckpoint (digest.getD zeroChunk)

def setDynamicEpochSchedule (tree : SszStateTree) (encodedSchedule : List UInt8) : SszStateTree :=
  tree.setTop Leaf.dynamicEpochSchedule (hashByteList encodedSchedule)

def setMinimumValidatorCount (tree : SszStateTree) (value : Nat) : SszStateTree :=
  tree.setTop Leaf.minimumValidatorCount (hashU64 value)

def setPendingActiveValidatorExits (tree : SszStateTree) (value : Nat) : SszStateTree :=
  tree.setTop Leaf.pendingActiveValidatorExits (hashU64 value)

def setInvalidDepositTax (tree : SszStateTree) (value : Nat) : SszStateTree :=
  tree.setTop Leaf.invalidDepositTax (hashU64 value)

def setMaxPendingWithdrawalsPerValidator (tree : SszStateTree) (value : Nat) : SszStateTree :=
  tree.setTop Leaf.maxPendingWithdrawalsPerValidator (hashU64 value)

def setMaxValidatorCount (tree : SszStateTree) (value : Nat) : SszStateTree :=
  tree.setTop Leaf.maxValidatorCount (hashU64 value)

def setTreasuryAddress (tree : SszStateTree) (address : Address) : SszStateTree :=
  tree.setTop Leaf.treasuryAddress (hashAddress address)

def setNextWithdrawalIndex (tree : SszStateTree) (index : Nat) : SszStateTree :=
  tree.setTop Leaf.nextWithdrawalIndex (hashU64 index)

def setForkchoiceHeadBlockHash (tree : SszStateTree) (hash : Bytes32) : SszStateTree :=
  tree.setTop Leaf.forkchoiceHeadBlockHash hash

def setForkchoiceSafeBlockHash (tree : SszStateTree) (hash : Bytes32) : SszStateTree :=
  tree.setTop Leaf.forkchoiceSafeBlockHash hash

def setForkchoiceFinalizedBlockHash (tree : SszStateTree) (hash : Bytes32) : SszStateTree :=
  tree.setTop Leaf.forkchoiceFinalizedBlockHash hash

/-! ### Validator accounts -/

def updateValidatorCollectionRoot (tree : SszStateTree) : SszStateTree :=
  tree.setTop Leaf.validatorAccountsRoot (mixInLength tree.validatorTree.root tree.validatorCount)

def rebuildValidators (tree : SszStateTree) (accounts : SortedMap Bytes32 ValidatorAccount) :
    SszStateTree :=
  { tree with
    validatorTree := SszTree.ofItems validatorFieldsPerAccount validatorFields accounts.entries
    validatorCount := accounts.size }.updateValidatorCollectionRoot

/-- Rewrite the leaves of the validator at `slot`. -/
def updateValidatorAtSlot (tree : SszStateTree) (slot : Nat) (nodePubkey : Bytes32)
    (account : ValidatorAccount) : SszStateTree :=
  { tree with
    validatorTree := tree.validatorTree.setFields (slot * validatorFieldsPerAccount)
      (validatorFields (nodePubkey, account)) }.updateValidatorCollectionRoot

/-- Insert a validator at `slot`, shifting the later ones right by one block. -/
def insertValidatorAtSlot (tree : SszStateTree) (slot : Nat) (nodePubkey : Bytes32)
    (account : ValidatorAccount) : SszStateTree :=
  let newCount := tree.validatorCount + 1
  let grown := tree.validatorTree.grow (newCount * validatorFieldsPerAccount)
  let shifted := grown.shiftBlocksRight slot (tree.validatorCount - slot) validatorFieldsPerAccount
  let written := shifted.setFieldsNoRehash (slot * validatorFieldsPerAccount)
    (validatorFields (nodePubkey, account))
  let block := written.rehashBlock slot validatorFieldsPerAccount
  { tree with
    validatorTree := block.rehashAboveBlock slot validatorFieldsPerAccount
    validatorCount := newCount }.updateValidatorCollectionRoot

/-- Remove the validator at `slot`, shifting the later ones left by one block. The source asserts
that the slot is in range; here the caller proves it. -/
def removeValidatorAtSlot (tree : SszStateTree) (slot : Nat) (_inside : slot < tree.validatorCount) :
    SszStateTree :=
  let toShift := tree.validatorCount - slot - 1
  let shifted := tree.validatorTree.shiftBlocksLeft slot toShift validatorFieldsPerAccount
  let cleared :=
    if toShift = 0 then
      let base := slot * validatorFieldsPerAccount
      ((List.range validatorFieldsPerAccount).foldl
        (fun t i => t.setLeafNoRehash (base + i) zeroChunk) shifted).rehashBlock slot
          validatorFieldsPerAccount
    else
      shifted.rehashBlock (tree.validatorCount - 1) validatorFieldsPerAccount
  let count := tree.validatorCount - 1
  let needed := max (count * validatorFieldsPerAccount) 1
  let resized :=
    if nextPowerOfTwo needed < cleared.capacity then cleared.shrink needed
    else cleared.rehashAboveBlock slot validatorFieldsPerAccount
  { tree with
    validatorTree := resized
    validatorCount := count }.updateValidatorCollectionRoot

/-! ### The other collections -/

def updateDepositCollectionRoot (tree : SszStateTree) : SszStateTree :=
  tree.setTop Leaf.depositQueueRoot (mixInLength tree.depositTree.root tree.depositCount)

def rebuildDeposits (tree : SszStateTree) (deposits : List DepositRequest) : SszStateTree :=
  { tree with
    depositTree := SszTree.ofItems depositFieldsPerItem depositFields deposits
    depositCount := deposits.length }.updateDepositCollectionRoot

def pushDeposit (tree : SszStateTree) (deposit : DepositRequest) : SszStateTree :=
  { tree with
    depositTree :=
      tree.depositTree.pushItem tree.depositCount depositFieldsPerItem (depositFields deposit)
    depositCount := tree.depositCount + 1 }.updateDepositCollectionRoot

/-- After a pop from the front the items shift, so the collection is rebuilt. -/
def popDeposit (tree : SszStateTree) (deposits : List DepositRequest) : SszStateTree :=
  tree.rebuildDeposits deposits

def updateWithdrawalCollectionRoot (tree : SszStateTree) : SszStateTree :=
  tree.setTop Leaf.withdrawalQueueRoot (mixInLength tree.withdrawalTree.root tree.withdrawalCount)

/-- `entry(pubkey).or_insert(slot)`. -/
def indexSlot (index : SortedMap Bytes32 Nat) (pubkey : Bytes32) (slot : Nat) :
    SortedMap Bytes32 Nat :=
  match index.find? pubkey with
  | some _ => index
  | none => index.insert pubkey slot

/-- The first slot of every key of the queue. -/
def pubkeyIndexOf (queue : List PendingWithdrawal) : SortedMap Bytes32 Nat :=
  queue.zipIdx.foldl (fun index item => indexSlot index item.1.pubkey item.2) .empty

def rebuildWithdrawals (tree : SszStateTree) (queue : WithdrawalQueue) : SszStateTree :=
  { tree with
    withdrawalTree := SszTree.ofItems withdrawalFieldsPerItem withdrawalFields queue.iterAll
    withdrawalCount := queue.len
    withdrawalPubkeyIndex := pubkeyIndexOf queue.iterAll }.updateWithdrawalCollectionRoot

/-- Append a withdrawal that belongs at the end of the combined order. -/
def pushWithdrawal (tree : SszStateTree) (withdrawal : PendingWithdrawal) : SszStateTree :=
  { tree with
    withdrawalTree := tree.withdrawalTree.pushItem tree.withdrawalCount withdrawalFieldsPerItem
      (withdrawalFields withdrawal)
    withdrawalCount := tree.withdrawalCount + 1
    withdrawalPubkeyIndex :=
      indexSlot tree.withdrawalPubkeyIndex withdrawal.pubkey tree.withdrawalCount
    }.updateWithdrawalCollectionRoot

def updateProtocolParamCollectionRoot (tree : SszStateTree) : SszStateTree :=
  tree.setTop Leaf.protocolParamChangesRoot
    (mixInLength tree.protocolParamTree.root tree.protocolParamCount)

def rebuildProtocolParams (tree : SszStateTree) (params : List ProtocolParam) : SszStateTree :=
  { tree with
    protocolParamTree := SszTree.ofItems protocolParamFieldsPerItem protocolParamFields params
    protocolParamCount := params.length }.updateProtocolParamCollectionRoot

def updateAddedValidatorCollectionRoot (tree : SszStateTree) : SszStateTree :=
  tree.setTop Leaf.addedValidatorsRoot
    (mixInLength tree.addedValidatorTree.root tree.addedValidatorCount)

/-- The scheduled validators of all epochs in one list, each with its epoch. -/
def flattenAdded (validators : SortedMap Nat (List AddedValidator)) :
    List (Nat × AddedValidator) :=
  validators.entries.flatMap fun entry => entry.2.map fun validator => (entry.1, validator)

def rebuildAddedValidators (tree : SszStateTree)
    (validators : SortedMap Nat (List AddedValidator)) : SszStateTree :=
  { tree with
    addedValidatorTree := SszTree.ofItems addedValidatorFieldsPerItem addedValidatorFields
      (flattenAdded validators)
    addedValidatorCount := (flattenAdded validators).length }.updateAddedValidatorCollectionRoot

def updateRemovedValidatorCollectionRoot (tree : SszStateTree) : SszStateTree :=
  tree.setTop Leaf.removedValidatorsRoot
    (mixInLength tree.removedValidatorTree.root tree.removedValidatorCount)

def rebuildRemovedValidators (tree : SszStateTree) (validators : List PublicKey) : SszStateTree :=
  { tree with
    removedValidatorTree := SszTree.ofItems 1 removedValidatorFields validators
    removedValidatorCount := validators.length }.updateRemovedValidatorCollectionRoot

def updatePendingExecutionRequestCollectionRoot (tree : SszStateTree) : SszStateTree :=
  tree.setTop Leaf.pendingExecutionRequestsRoot
    (mixInLength tree.pendingExecutionRequestTree.root tree.pendingExecutionRequestCount)

def rebuildPendingExecutionRequests (tree : SszStateTree) (requests : List (List UInt8)) :
    SszStateTree :=
  { tree with
    pendingExecutionRequestTree := SszTree.ofItems 1 pendingRequestFields requests
    pendingExecutionRequestCount := requests.length }.updatePendingExecutionRequestCollectionRoot

end SszStateTree

end Trees

end Summit
