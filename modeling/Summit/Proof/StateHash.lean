/-
**The state root as one hash tree.**

The root of the state tree is computed in three kinds of trees: the top tree, one subtree for each
collection with its length mixed in, and the small trees of the fields that take more than one
chunk. `StateData.hashTree` is the whole computation as one `HashTree`, from the chunks of the data
to the root, and `root_eq_of_inSync` says that a tree in sync with the data has its root. What the
root binds and what a branch under it proves are then facts about that one tree.
-/

import Mathlib.Tactic.IntervalCases
import Summit.Lib.HashTree
import Summit.Proof.StateTree

set_option linter.unusedSectionVars false

namespace Summit

open Bytes HeapTree HashTree

section StateHash

variable [Crypto] {α : Type}

/-- The root of a tree of chunks. -/
abbrev rootOf (tree : HashTree Bytes32) : Bytes32 := tree.root Crypto.hash32Concat

/-- The pairs hashed for it. -/
abbrev pairsOf (tree : HashTree Bytes32) : List (Bytes32 × Bytes32) :=
  tree.hashed Crypto.hash32Concat

/-! ### Values of more than one chunk -/

/-- The tree of a list of chunks, padded with zero chunks to a power of two. -/
def chunkTree (list : List Bytes32) : HashTree Bytes32 :=
  spread (Nat.log2 (nextPowerOfTwo list.length)) fun i => chunk (list.getD i zeroChunk)

def blsKeyTree (key : BlsPublicKey) : HashTree Bytes32 :=
  join (chunk (key.val.slice 0 32)) (chunk (FixedBytes.padded 32 (key.val.slice 32 16).val))

def fixedBytes64Tree (bytes : FixedBytes 64) : HashTree Bytes32 :=
  join (chunk (bytes.slice 0 32)) (chunk (bytes.slice 32 32))

def fixedBytes96Tree (bytes : FixedBytes 96) : HashTree Bytes32 :=
  chunkTree [bytes.slice 0 32, bytes.slice 32 32, bytes.slice 64 32]

/-- The chunks of a byte list. -/
def packedBytes (bytes : List UInt8) : List Bytes32 :=
  if bytes = [] then [zeroChunk] else (Bytes.chunks 32 bytes).map (FixedBytes.padded 32)

/-- A tree with a length mixed in. -/
def withLength (tree : HashTree Bytes32) (length : Nat) : HashTree Bytes32 :=
  join tree (chunk (hashU64 length))

def byteListTree (bytes : List UInt8) : HashTree Bytes32 :=
  withLength (chunkTree (packedBytes bytes)) bytes.length

variable {n width : Nat} {layer : List Bytes32} {fields : α → List (Nat × Bytes32)}
  {block : α → List (HashTree Bytes32)} {tree : SszStateTree} {data : StateData}

theorem exists_cons_cons (length : layer.length = (n + 1) * 2) :
    ∃ left right rest, layer = left :: right :: rest ∧ rest.length = n * 2 := by
  match layer, length with
  | [], length => simp at length
  | [_], length => simp only [List.length_singleton] at length; omega
  | left :: right :: rest, length =>
    refine ⟨left, right, rest, rfl, ?_⟩
    simp only [List.length_cons] at length
    omega

theorem length_hashPairs (length : layer.length = n * 2) : (hashPairs layer).length = n := by
  induction n generalizing layer with
  | zero =>
    rw [List.length_eq_zero_iff.mp (length.trans (Nat.zero_mul 2))]
    rfl
  | succ n ih =>
    obtain ⟨left, right, rest, rfl, restLength⟩ := exists_cons_cons length
    rw [hashPairs, List.length_cons, ih restLength]

theorem getD_hashPairs (length : layer.length = n * 2) {i : Nat} (inside : i < n) :
    (hashPairs layer).getD i zeroChunk =
      Crypto.hash32Concat (layer.getD (2 * i) zeroChunk) (layer.getD (2 * i + 1) zeroChunk) := by
  induction n generalizing layer i with
  | zero => cases inside
  | succ n ih =>
    obtain ⟨left, right, rest, rfl, restLength⟩ := exists_cons_cons length
    cases i with
    | zero => rfl
    | succ i =>
      rw [hashPairs, List.getD_cons_succ, ih restLength (by omega)]
      rfl

/-- Hashing a full layer again and again gives the root of the tree over it. -/
theorem merkleizeLayers_eq (depth : Nat) {fuel : Nat} (enough : depth ≤ fuel)
    (length : layer.length = 2 ^ depth) :
    merkleizeLayers fuel layer =
      rootOf (spread depth fun i => chunk (layer.getD i zeroChunk)) := by
  induction depth generalizing fuel layer with
  | zero =>
    obtain ⟨value, rfl⟩ := List.length_eq_one_iff.mp length
    cases fuel with
    | zero => rfl
    | succ fuel => rfl
  | succ depth ih =>
    obtain ⟨fuel, rfl⟩ := Nat.exists_eq_add_of_lt (Nat.lt_of_succ_le enough)
    have more : 1 < layer.length := by
      rw [length]
      exact Nat.one_lt_two_pow (Nat.succ_ne_zero depth)
    have halves : layer.length = 2 ^ depth * 2 := length.trans (pow_succ 2 depth)
    rw [merkleizeLayers, if_pos more, ih (by omega) (length_hashPairs halves), spread_succ]
    refine root_spread_congr fun i inside => ?_
    exact getD_hashPairs halves inside

theorem rootOf_chunkTree (list : List Bytes32) : rootOf (chunkTree list) = merkleize list := by
  obtain ⟨depth, pow⟩ := nextPowerOfTwo_eq_pow list.length
  rw [chunkTree, merkleize]
  by_cases none : list = []
  · subst none
    rfl
  · have fits := le_nextPowerOfTwo list.length
    have length : (list ++ List.replicate (nextPowerOfTwo list.length - list.length)
        zeroChunk).length = 2 ^ depth := by
      rw [List.length_append, List.length_replicate, ← pow]
      omega
    rw [if_neg none, pow, Nat.log2_two_pow]
    rw [pow] at length
    rw [merkleizeLayers_eq depth (Nat.lt_two_pow_self).le length]
    refine root_spread_congr fun i _ => ?_
    -- past the end of the list both sides read a zero chunk
    show list.getD i zeroChunk = _
    rw [List.getD_eq_getElem?_getD, root, List.getD_eq_getElem?_getD, List.getElem?_append]
    split
    · rfl
    · next past =>
      rw [List.getElem?_eq_none (Nat.not_lt.mp past), List.getElem?_replicate]
      split <;> rfl

theorem rootOf_byteListTree (bytes : List UInt8) :
    rootOf (byteListTree bytes) = hashByteList bytes := by
  show Crypto.hash32Concat (rootOf (chunkTree _)) _ = _
  rw [rootOf_chunkTree]
  rfl

/-! ### Collections -/

/-- The subtrees at the leaves of a list of items, `block` giving those of one item in order. -/
def itemTree (width : Nat) (block : α → List (HashTree Bytes32)) (items : List α) (j : Nat) :
    HashTree Bytes32 :=
  match items[j / width]? with
  | some item => (block item).getD (j % width) (chunk zeroChunk)
  | none => chunk zeroChunk

/-- The depth of the subtree of a collection. -/
def collectionDepth (width count : Nat) : Nat :=
  Nat.log2 (nextPowerOfTwo (max (count * width) 1))

theorem two_pow_collectionDepth (width count : Nat) :
    2 ^ collectionDepth width count = nextPowerOfTwo (max (count * width) 1) := by
  obtain ⟨depth, pow⟩ := nextPowerOfTwo_eq_pow (max (count * width) 1)
  rw [collectionDepth, pow, Nat.log2_two_pow]

/-- The tree of a collection, its length mixed in. -/
def collectionTree (width : Nat) (block : α → List (HashTree Bytes32)) (items : List α) :
    HashTree Bytes32 :=
  withLength (spread (collectionDepth width items.length) (itemTree width block items))
    items.length

/-- The subtrees of a block have the leaves that the fields write as their roots. -/
def Blocks (width : Nat) (fields : α → List (Nat × Bytes32))
    (block : α → List (HashTree Bytes32)) : Prop :=
  ∀ item offset, offset < width →
    rootOf ((block item).getD offset (chunk zeroChunk)) = fieldLeaf (fields item) offset

theorem rootOf_itemTree (blocks : Blocks width fields block) (positive : 0 < width) (items : List α)
    (j : Nat) : rootOf (itemTree width block items j) = itemLeaf width fields items j := by
  rw [itemTree, itemLeaf]
  cases items[j / width]? with
  | none => rfl
  | some item => exact blocks item (j % width) (Nat.mod_lt j positive)

/-- A tree that commits to the items has the root of the collection. -/
theorem mixInLength_of_commits (blocks : Blocks width fields block) (positive : 0 < width)
    {tree : SszTree} {items : List α} {count : Nat} (commits : tree.Commits width fields items)
    (counted : count = items.length) :
    mixInLength tree.root count = rootOf (collectionTree width block items) := by
  have isTree := commits.isTree
  rw [← two_pow_collectionDepth] at isTree
  have inner := root_spread isTree fun j _ => (rootOf_itemTree blocks positive items j).symm
  have some : tree.capacity ≠ 0 := by
    rw [commits.capacity_eq]
    exact (nextPowerOfTwo_pos _).ne'
  rw [mixInLength, SszTree.root, if_neg some, SszTree.getNode, inner, counted]
  rfl

def validatorBlock (entry : Bytes32 × ValidatorAccount) : List (HashTree Bytes32) :=
  [blsKeyTree entry.2.consensusPublicKey,
   chunk (hashAddress entry.2.withdrawalCredentials),
   chunk (hashU64 entry.2.balance),
   chunk (hashU8 entry.2.status.toU8),
   chunk (hashU64 entry.2.joiningEpoch),
   chunk (hashU64 entry.2.lastDepositIndex),
   chunk entry.1]

def depositBlock (deposit : DepositRequest) : List (HashTree Bytes32) :=
  [chunk deposit.nodePubkey.val,
   blsKeyTree deposit.consensusPubkey,
   chunk deposit.withdrawalCredentials,
   chunk (hashU64 deposit.amount),
   fixedBytes64Tree deposit.nodeSignature,
   fixedBytes96Tree deposit.consensusSignature,
   chunk (hashU64 deposit.index)]

def withdrawalBlock (withdrawal : PendingWithdrawal) : List (HashTree Bytes32) :=
  [chunk (hashU64 withdrawal.inner.index),
   chunk (hashU64 withdrawal.inner.validatorIndex),
   chunk (hashAddress withdrawal.inner.address),
   chunk (hashU64 withdrawal.inner.amount),
   chunk withdrawal.pubkey,
   chunk (hashU64 withdrawal.epoch),
   chunk (hashU8 withdrawal.kind.asU8)]

def protocolParamBlock (param : ProtocolParam) : List (HashTree Bytes32) :=
  [chunk (hashU64 (protocolParamLeaves param).1), chunk (protocolParamLeaves param).2]

def addedValidatorBlock (item : Nat × AddedValidator) : List (HashTree Bytes32) :=
  [chunk item.2.nodeKey.val, blsKeyTree item.2.consensusKey, chunk (hashU64 item.1)]

def removedValidatorBlock (key : PublicKey) : List (HashTree Bytes32) := [chunk key.val]

def pendingRequestBlock (request : List UInt8) : List (HashTree Bytes32) := [byteListTree request]

theorem blocks_validator : Blocks (2 ^ 3) validatorFields validatorBlock := by
  intro entry offset inside
  interval_cases offset <;> rfl

theorem blocks_deposit : Blocks (2 ^ 3) depositFields depositBlock := by
  intro deposit offset inside
  have signature : rootOf (fixedBytes96Tree deposit.consensusSignature) =
      hashFixedBytes96 deposit.consensusSignature := rootOf_chunkTree _
  interval_cases offset <;> first | exact signature | rfl

theorem blocks_withdrawal : Blocks (2 ^ 3) withdrawalFields withdrawalBlock := by
  intro withdrawal offset inside
  interval_cases offset <;> rfl

theorem blocks_protocolParam : Blocks 2 protocolParamFields protocolParamBlock := by
  intro param offset inside
  interval_cases offset <;> rfl

theorem blocks_addedValidator : Blocks 4 addedValidatorFields addedValidatorBlock := by
  intro item offset inside
  interval_cases offset <;> rfl

theorem blocks_removedValidator : Blocks 1 removedValidatorFields removedValidatorBlock := by
  intro key offset inside
  interval_cases offset
  rfl

theorem blocks_pendingRequest : Blocks 1 pendingRequestFields pendingRequestBlock := by
  intro request offset inside
  interval_cases offset
  exact rootOf_byteListTree request

/-! ### The whole state -/

namespace StateData

/-- The subtrees at the leaves of the top tree, in order. -/
def topTrees (data : StateData) : List (HashTree Bytes32) :=
  [chunk (hashU64 data.epoch),
   chunk (hashU64 data.view),
   chunk (hashU64 data.latestHeight),
   chunk data.headDigest,
   chunk data.epochGenesisHash,
   chunk (hashU64 data.validatorMinimumStake),
   chunk (hashU64 data.withdrawalQueue.nextIndex),
   chunk data.forkchoice.headBlockHash,
   chunk data.forkchoice.safeBlockHash,
   chunk data.forkchoice.finalizedBlockHash,
   chunk (hashU64 data.allowedTimestampFutureMs),
   collectionTree (2 ^ 3) validatorBlock data.validatorAccounts.entries,
   collectionTree (2 ^ 3) depositBlock data.depositQueue,
   collectionTree (2 ^ 3) withdrawalBlock data.withdrawalQueue.iterAll,
   collectionTree 2 protocolParamBlock data.protocolParamChanges,
   collectionTree 4 addedValidatorBlock (SszStateTree.flattenAdded data.addedValidators),
   collectionTree 1 removedValidatorBlock data.removedValidators,
   chunk (hashAddress data.treasuryAddress),
   chunk (hashU64 data.maxDepositsPerEpoch),
   chunk (hashU64 data.maxWithdrawalsPerEpoch),
   chunk (hashU32 data.observersPerValidator),
   collectionTree 1 pendingRequestBlock data.pendingExecutionRequests,
   chunk ((data.pendingCheckpoint.map (·.digest)).getD zeroChunk),
   byteListTree data.epocher.encode,
   chunk (hashU64 data.minimumValidatorCount),
   chunk (hashU64 data.pendingActiveValidatorExits),
   chunk (hashU64 data.invalidDepositTax),
   chunk (hashU64 data.maxPendingWithdrawalsPerValidator),
   chunk (hashU64 data.maxValidatorCount)]

/-- The computation of the state root from the data. -/
def hashTree (data : StateData) : HashTree Bytes32 :=
  spread 5 fun j => data.topTrees.getD j (chunk zeroChunk)

end StateData

theorem topLeaves_eq_map (sync : tree.InSync false false data (hashByteList data.epocher.encode)) :
    SszStateTree.topLeaves tree data (hashByteList data.epocher.encode) =
      data.topTrees.map rootOf := by
  obtain ⟨deposits, depositCount⟩ := sync.deposits rfl
  obtain ⟨withdrawals, withdrawalCount, -⟩ := sync.withdrawals rfl
  have queued : tree.withdrawalCount = data.withdrawalQueue.iterAll.length := by
    rw [withdrawalCount, WithdrawalQueue.iterAll, List.length_append]
    rfl
  rw [SszStateTree.topLeaves,
    mixInLength_of_commits blocks_validator (by norm_num) sync.validators sync.validatorCount,
    mixInLength_of_commits blocks_deposit (by norm_num) deposits depositCount,
    mixInLength_of_commits blocks_withdrawal (by norm_num) withdrawals queued,
    mixInLength_of_commits blocks_protocolParam (by norm_num) sync.params sync.paramCount,
    mixInLength_of_commits blocks_addedValidator (by norm_num) sync.added sync.addedCount,
    mixInLength_of_commits blocks_removedValidator (by norm_num) sync.removed sync.removedCount,
    mixInLength_of_commits blocks_pendingRequest (by norm_num) sync.requests sync.requestCount,
    ← rootOf_byteListTree]
  rfl

/-- **A tree in sync has the root of the whole computation.** -/
theorem root_eq_of_inSync (sync : tree.InSync false false data (hashByteList data.epocher.encode)) :
    tree.root = rootOf data.hashTree := by
  have spans := sync.top
  rw [topLeaves_eq_map sync] at spans
  have roots : ∀ j, j < 2 ^ 5 → (data.topTrees.map rootOf).getD j zeroChunk =
      rootOf (data.topTrees.getD j (chunk zeroChunk)) := by
    intro j _
    rw [List.getD_eq_getElem?_getD, List.getElem?_map, List.getD_eq_getElem?_getD]
    cases data.topTrees[j]? <;> rfl
  have some : tree.top.capacity ≠ 0 := by
    rw [spans.capacity_eq]
    norm_num
  rw [SszStateTree.root, SszTree.root, if_neg some]
  exact @root_spread _ _ 5 _ _ _ _ spans.isTree roots

end StateHash

attribute [local instance] Crypto.mixing

/-- One validator, a change of the minimum stake, a removed key and a buffered request. -/
def filledData : StateData :=
  { StateData.new ⟨FixedBytes.fill 32 20, FixedBytes.fill 32 21, FixedBytes.fill 32 22⟩ 32 10 ten_pos
      1000 (FixedBytes.fill 20 24) 16 16 16 128 1 1 3 with
    epoch := 3
    view := 1
    latestHeight := 31
    headDigest := FixedBytes.fill 32 1
    epochGenesisHash := FixedBytes.fill 32 23
    validatorAccounts := SortedMap.empty.insert (FixedBytes.fill 32 9)
      { consensusPublicKey := ⟨FixedBytes.fill 48 14, rfl⟩
        withdrawalCredentials := FixedBytes.fill 20 8
        balance := 32
        status := .active
        joiningEpoch := 0
        lastDepositIndex := 0 }
    protocolParamChanges := [.minimumStake 32]
    removedValidators := [⟨FixedBytes.fill 32 17, rfl⟩]
    pendingExecutionRequests := [[18, 19]] }

end Summit
