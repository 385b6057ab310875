/-
**When the state tree commits to the data.**

`InSync` says what every part of the tree holds: the top tree has the leaf of every scalar and, for
every collection, the root of its subtree with its length mixed in; every subtree commits to its
items. Nothing is left open, so two trees in sync with the same data are equal (`InSync.unique`),
and a rebuilt tree is in sync (`inSync_rebuild`). The deposit and withdrawal subtrees may be marked
stale, which is how they are inside a batch; the schedule leaf is a parameter, because the schedule
changes without the tree.
-/

import Summit.Model.ConsensusState
import Summit.Proof.SszShift
import Summit.Proof.WithdrawalQueue

set_option linter.unusedSectionVars false

namespace Summit

open Bytes HeapTree SszTree

variable [Crypto]

/-! ### Layouts of the items -/

theorem layout_validator : Layout (2 ^ 3) validatorFields where
  positive := by norm_num
  fits := by simp [validatorFields]
  uniform _ _ := rfl

theorem layout_deposit : Layout (2 ^ 3) depositFields where
  positive := by norm_num
  fits := by simp [depositFields]
  uniform _ _ := rfl

theorem layout_withdrawal : Layout (2 ^ 3) withdrawalFields where
  positive := by norm_num
  fits := by simp [withdrawalFields]
  uniform _ _ := rfl

theorem layout_protocolParam : Layout 2 protocolParamFields where
  positive := by norm_num
  fits := by simp [protocolParamFields]
  uniform _ _ := rfl

theorem layout_addedValidator : Layout 4 addedValidatorFields where
  positive := by norm_num
  fits := by simp [addedValidatorFields]
  uniform _ _ := rfl

theorem layout_removedValidator : Layout 1 removedValidatorFields where
  positive := by norm_num
  fits := by simp [removedValidatorFields]
  uniform _ _ := rfl

theorem layout_pendingRequest : Layout 1 pendingRequestFields where
  positive := by norm_num
  fits := by simp [pendingRequestFields]
  uniform _ _ := rfl

namespace SszStateTree

/-! ### The invariant -/

/-- The leaves of the top tree, in order. -/
def topLeaves (tree : SszStateTree) (data : StateData) (schedule : Bytes32) : List Bytes32 :=
  [hashU64 data.epoch,
   hashU64 data.view,
   hashU64 data.latestHeight,
   data.headDigest,
   data.epochGenesisHash,
   hashU64 data.validatorMinimumStake,
   hashU64 data.withdrawalQueue.nextIndex,
   data.forkchoice.headBlockHash,
   data.forkchoice.safeBlockHash,
   data.forkchoice.finalizedBlockHash,
   hashU64 data.allowedTimestampFutureMs,
   mixInLength tree.validatorTree.root tree.validatorCount,
   mixInLength tree.depositTree.root tree.depositCount,
   mixInLength tree.withdrawalTree.root tree.withdrawalCount,
   mixInLength tree.protocolParamTree.root tree.protocolParamCount,
   mixInLength tree.addedValidatorTree.root tree.addedValidatorCount,
   mixInLength tree.removedValidatorTree.root tree.removedValidatorCount,
   hashAddress data.treasuryAddress,
   hashU64 data.maxDepositsPerEpoch,
   hashU64 data.maxWithdrawalsPerEpoch,
   hashU32 data.observersPerValidator,
   mixInLength tree.pendingExecutionRequestTree.root tree.pendingExecutionRequestCount,
   (data.pendingCheckpoint.map (·.digest)).getD zeroChunk,
   schedule,
   hashU64 data.minimumValidatorCount,
   hashU64 data.pendingActiveValidatorExits,
   hashU64 data.invalidDepositTax,
   hashU64 data.maxPendingWithdrawalsPerValidator,
   hashU64 data.maxValidatorCount]

/-- The top tree is the one over the listed leaves. -/
def TopOver (top : SszTree) (leaves : List Bytes32) : Prop :=
  top.Over 32 fun j => leaves.getD j zeroChunk

theorem TopOver.setLeaf {top : SszTree} {leaves leaves' : List Bytes32}
    (spans : TopOver top leaves) {j : Nat} {value : Bytes32} (inside : j < leaves.length)
    (small : leaves.length ≤ 32) (same : leaves.set j value = leaves') :
    TopOver (top.setLeaf j value) leaves' := by
  refine (Over.setLeaf spans (lt_of_lt_of_le inside small) value).congr fun k _ => ?_
  rw [← same, List.getD_eq_getElem?_getD, List.getElem?_set]
  by_cases here : j = k
  · subst here
    rw [Function.update_self, if_pos rfl, if_pos inside]
    rfl
  · rw [Function.update_of_ne (Ne.symm here), if_neg here, List.getD_eq_getElem?_getD]

/-- The tree commits to the data, up to the subtrees marked stale. -/
structure InSync (staleDeposits staleWithdrawals : Bool) (tree : SszStateTree) (data : StateData)
    (schedule : Bytes32) : Prop where
  top : TopOver tree.top (topLeaves tree data schedule)
  validators : tree.validatorTree.Commits (2 ^ 3) validatorFields data.validatorAccounts.entries
  validatorCount : tree.validatorCount = data.validatorAccounts.size
  deposits : staleDeposits = false →
    tree.depositTree.Commits (2 ^ 3) depositFields data.depositQueue ∧
      tree.depositCount = data.depositQueue.length
  withdrawals : staleWithdrawals = false →
    tree.withdrawalTree.Commits (2 ^ 3) withdrawalFields data.withdrawalQueue.iterAll ∧
      tree.withdrawalCount = data.withdrawalQueue.len ∧
      tree.withdrawalPubkeyIndex = pubkeyIndexOf data.withdrawalQueue.iterAll
  params : tree.protocolParamTree.Commits 2 protocolParamFields data.protocolParamChanges
  paramCount : tree.protocolParamCount = data.protocolParamChanges.length
  added : tree.addedValidatorTree.Commits 4 addedValidatorFields
    (flattenAdded data.addedValidators)
  addedCount : tree.addedValidatorCount = (flattenAdded data.addedValidators).length
  removed : tree.removedValidatorTree.Commits 1 removedValidatorFields data.removedValidators
  removedCount : tree.removedValidatorCount = data.removedValidators.length
  requests : tree.pendingExecutionRequestTree.Commits 1 pendingRequestFields
    data.pendingExecutionRequests
  requestCount : tree.pendingExecutionRequestCount = data.pendingExecutionRequests.length

/-- Two trees in sync with the same data are the same tree. -/
theorem InSync.unique {tree tree' : SszStateTree} {data : StateData} {schedule : Bytes32}
    (one : tree.InSync false false data schedule) (two : tree'.InSync false false data schedule) :
    tree = tree' := by
  obtain ⟨top, v, vc, d, dc, w, wc, wi, p, pc, a, ac, r, rc, q, qc⟩ := tree
  obtain ⟨top', v', vc', d', dc', w', wc', wi', p', pc', a', ac', r', rc', q', qc'⟩ := tree'
  obtain rfl : v = v' := one.validators.unique two.validators
  obtain rfl : vc = vc' := one.validatorCount.trans two.validatorCount.symm
  obtain rfl : d = d' := (one.deposits rfl).1.unique (two.deposits rfl).1
  obtain rfl : dc = dc' := (one.deposits rfl).2.trans (two.deposits rfl).2.symm
  obtain rfl : w = w' := (one.withdrawals rfl).1.unique (two.withdrawals rfl).1
  obtain rfl : wc = wc' := (one.withdrawals rfl).2.1.trans (two.withdrawals rfl).2.1.symm
  obtain rfl : wi = wi' := (one.withdrawals rfl).2.2.trans (two.withdrawals rfl).2.2.symm
  obtain rfl : p = p' := one.params.unique two.params
  obtain rfl : pc = pc' := one.paramCount.trans two.paramCount.symm
  obtain rfl : a = a' := one.added.unique two.added
  obtain rfl : ac = ac' := one.addedCount.trans two.addedCount.symm
  obtain rfl : r = r' := one.removed.unique two.removed
  obtain rfl : rc = rc' := one.removedCount.trans two.removedCount.symm
  obtain rfl : q = q' := one.requests.unique two.requests
  obtain rfl : qc = qc' := one.requestCount.trans two.requestCount.symm
  obtain rfl : top = top' := Over.unique one.top two.top
  rfl

variable {staleDeposits staleWithdrawals : Bool} {tree : SszStateTree} {data : StateData}
  {schedule : Bytes32}

/-- A subtree that is up to date may be marked stale. -/
theorem InSync.weaken {staleDeposits' staleWithdrawals' : Bool}
    (sync : tree.InSync staleDeposits staleWithdrawals data schedule)
    (deposits : staleDeposits' = false → staleDeposits = false)
    (withdrawals : staleWithdrawals' = false → staleWithdrawals = false) :
    tree.InSync staleDeposits' staleWithdrawals' data schedule :=
  { sync with
    deposits := fun fresh => sync.deposits (deposits fresh)
    withdrawals := fun fresh => sync.withdrawals (withdrawals fresh) }

/-! ### One scalar -/

/-- The data with a subtree of its own. -/
def collections (data : StateData) :=
  (data.validatorAccounts, data.depositQueue, data.withdrawalQueue.iterAll, data.withdrawalQueue.len,
    data.protocolParamChanges, data.addedValidators, data.removedValidators,
    data.pendingExecutionRequests)

/-- Setting the leaf of a scalar, when the collections stay. -/
theorem InSync.setTop (sync : tree.InSync staleDeposits staleWithdrawals data schedule)
    {j : Nat} {value : Bytes32} (inside : j < 29) {schedule' : Bytes32} {data' : StateData}
    (same : (topLeaves tree data schedule).set j value =
      topLeaves (tree.setTop j value) data' schedule')
    (kept : collections data' = collections data) :
    (tree.setTop j value).InSync staleDeposits staleWithdrawals data' schedule' := by
  simp only [collections, Prod.mk.injEq] at kept
  obtain ⟨accounts, deposits, entries, len, params, added, removed, requests⟩ := kept
  refine ⟨sync.top.setLeaf inside (Nat.le_of_ble_eq_true rfl) same,
    ?_, ?_, ?_, ?_, ?_, ?_, ?_, ?_, ?_, ?_, ?_, ?_⟩
  · rw [accounts]; exact sync.validators
  · rw [accounts]; exact sync.validatorCount
  · rw [deposits]; exact sync.deposits
  · rw [entries, len]; exact sync.withdrawals
  · rw [params]; exact sync.params
  · rw [params]; exact sync.paramCount
  · rw [added]; exact sync.added
  · rw [added]; exact sync.addedCount
  · rw [removed]; exact sync.removed
  · rw [removed]; exact sync.removedCount
  · rw [requests]; exact sync.requests
  · rw [requests]; exact sync.requestCount

/-- The same tree, but for the schedule leaf and its ancestors in the top tree. -/
structure AgreesOffSchedule (tree tree' : SszStateTree) : Prop where
  top : SszTree.AgreesOff Leaf.dynamicEpochSchedule tree.top tree'.top
  rest : { tree with top := tree'.top } = tree'

/-- Two trees in sync with the same data agree but for the schedule they were given. -/
theorem InSync.agreesOffSchedule {tree' : SszStateTree} {schedule' : Bytes32}
    (one : tree.InSync false false data schedule)
    (two : tree'.InSync false false data schedule') : AgreesOffSchedule tree tree' := by
  have changed : (tree.setTop Leaf.dynamicEpochSchedule schedule').InSync false false data
      schedule' :=
    one.setTop (by decide) rfl rfl
  obtain rfl := two.unique changed
  exact ⟨SszTree.agreesOff_setLeaf _ _ _, rfl⟩

/-! ### One collection -/

section Collections

variable (sync : tree.InSync staleDeposits staleWithdrawals data schedule)

include sync

variable {subtree : SszTree} {count : Nat} {queue : WithdrawalQueue}

theorem InSync.setValidators {accounts : SortedMap Bytes32 ValidatorAccount}
    (commits : subtree.Commits (2 ^ 3) validatorFields accounts.entries)
    (counted : count = accounts.size) :
    { tree with validatorTree := subtree, validatorCount := count }.updateValidatorCollectionRoot
      |>.InSync staleDeposits staleWithdrawals
        { data with validatorAccounts := accounts } schedule :=
  { sync with
    top := sync.top.setLeaf (Nat.le_of_ble_eq_true rfl) (Nat.le_of_ble_eq_true rfl) rfl
    validators := commits
    validatorCount := counted }

theorem InSync.setDeposits {deposits : List DepositRequest}
    (fresh : staleDeposits = false → subtree.Commits (2 ^ 3) depositFields deposits ∧
      count = deposits.length) :
    { tree with depositTree := subtree, depositCount := count }.updateDepositCollectionRoot
      |>.InSync staleDeposits staleWithdrawals { data with depositQueue := deposits } schedule :=
  { sync with
    top := sync.top.setLeaf (Nat.le_of_ble_eq_true rfl) (Nat.le_of_ble_eq_true rfl) rfl
    deposits := fresh }

theorem InSync.setWithdrawals {index : SortedMap Bytes32 Nat}
    (sameIndex : queue.nextIndex = data.withdrawalQueue.nextIndex)
    (fresh : staleWithdrawals = false →
      subtree.Commits (2 ^ 3) withdrawalFields queue.iterAll ∧ count = queue.len ∧
        index = pubkeyIndexOf queue.iterAll) :
    { tree with withdrawalTree := subtree, withdrawalCount := count, withdrawalPubkeyIndex := index
      }.updateWithdrawalCollectionRoot
      |>.InSync staleDeposits staleWithdrawals { data with withdrawalQueue := queue } schedule :=
  { sync with
    top := sync.top.setLeaf (Nat.le_of_ble_eq_true rfl) (Nat.le_of_ble_eq_true rfl) (by
      simp only [topLeaves, sameIndex]
      rfl)
    withdrawals := fresh }

theorem InSync.rebuildDeposits (deposits : List DepositRequest) :
    (tree.rebuildDeposits deposits).InSync false staleWithdrawals
      { data with depositQueue := deposits } schedule :=
  { sync.setDeposits fun _ => ⟨commits_ofItems layout_deposit deposits, rfl⟩ with
    deposits := fun _ => ⟨commits_ofItems layout_deposit deposits, rfl⟩ }

theorem InSync.rebuildWithdrawals (sameIndex : queue.nextIndex = data.withdrawalQueue.nextIndex) :
    (tree.rebuildWithdrawals queue).InSync staleDeposits false
      { data with withdrawalQueue := queue } schedule :=
  { sync.setWithdrawals sameIndex fun _ =>
      ⟨commits_ofItems layout_withdrawal queue.iterAll, rfl, rfl⟩ with
    withdrawals := fun _ => ⟨commits_ofItems layout_withdrawal queue.iterAll, rfl, rfl⟩ }

theorem InSync.rebuildProtocolParams (params : List ProtocolParam) :
    (tree.rebuildProtocolParams params).InSync staleDeposits staleWithdrawals
      { data with protocolParamChanges := params } schedule :=
  { sync with
    top := sync.top.setLeaf (Nat.le_of_ble_eq_true rfl) (Nat.le_of_ble_eq_true rfl) rfl
    params := commits_ofItems layout_protocolParam params
    paramCount := rfl }

theorem InSync.rebuildAddedValidators (validators : SortedMap Nat (List AddedValidator)) :
    (tree.rebuildAddedValidators validators).InSync staleDeposits staleWithdrawals
      { data with addedValidators := validators } schedule :=
  { sync with
    top := sync.top.setLeaf (Nat.le_of_ble_eq_true rfl) (Nat.le_of_ble_eq_true rfl) rfl
    added := commits_ofItems layout_addedValidator (flattenAdded validators)
    addedCount := rfl }

theorem InSync.rebuildRemovedValidators (validators : List PublicKey) :
    (tree.rebuildRemovedValidators validators).InSync staleDeposits staleWithdrawals
      { data with removedValidators := validators } schedule :=
  { sync with
    top := sync.top.setLeaf (Nat.le_of_ble_eq_true rfl) (Nat.le_of_ble_eq_true rfl) rfl
    removed := commits_ofItems layout_removedValidator validators
    removedCount := rfl }

theorem InSync.rebuildPendingExecutionRequests (requests : List (List UInt8)) :
    (tree.rebuildPendingExecutionRequests requests).InSync staleDeposits staleWithdrawals
      { data with pendingExecutionRequests := requests } schedule :=
  { sync with
    top := sync.top.setLeaf (Nat.le_of_ble_eq_true rfl) (Nat.le_of_ble_eq_true rfl) rfl
    requests := commits_ofItems layout_pendingRequest requests
    requestCount := rfl }

end Collections

/-! ### Incremental changes of a collection -/

theorem pubkeyIndexOf_concat (entries : List PendingWithdrawal) (entry : PendingWithdrawal) :
    pubkeyIndexOf (entries ++ [entry]) =
      indexSlot (pubkeyIndexOf entries) entry.pubkey entries.length := by
  simp [pubkeyIndexOf, List.zipIdx_append]

section Incremental

variable (sync : tree.InSync staleDeposits staleWithdrawals data schedule)

include sync

variable {pubkey : Bytes32} {old : ValidatorAccount}

theorem InSync.updateValidator (found : data.validatorAccounts.find? pubkey = some old)
    (account : ValidatorAccount) :
    (tree.updateValidatorAtSlot ((data.validatorAccounts.insert pubkey account).slot pubkey) pubkey
        account).InSync staleDeposits staleWithdrawals
      { data with validatorAccounts := data.validatorAccounts.insert pubkey account } schedule := by
  have entries := SortedMap.entries_of_some found
  have inside : (data.validatorAccounts.below pubkey).length <
      data.validatorAccounts.entries.length := by
    rw [← SortedMap.slot_of_some found]
    exact SortedMap.slot_lt_size found
  have rewritten := sync.validators.setItem layout_validator inside (pubkey, account)
  have same : data.validatorAccounts.entries.set (data.validatorAccounts.below pubkey).length
      (pubkey, account) = (data.validatorAccounts.insert pubkey account).entries := by
    rw [entries, List.set_append_right _ _ le_rfl, Nat.sub_self]
    rfl
  rw [same] at rewritten
  rw [SortedMap.slot_insert]
  exact sync.setValidators rewritten
    (sync.validatorCount.trans (SortedMap.size_insert_of_some found).symm)

theorem InSync.insertValidator (absent : data.validatorAccounts.find? pubkey = none)
    (account : ValidatorAccount) :
    (tree.insertValidatorAtSlot ((data.validatorAccounts.insert pubkey account).slot pubkey) pubkey
        account).InSync staleDeposits staleWithdrawals
      { data with validatorAccounts := data.validatorAccounts.insert pubkey account } schedule := by
  have entries := SortedMap.entries_of_none absent
  have commits := sync.validators
  rw [entries] at commits
  have inserted := commits.insertItem layout_validator (pubkey, account)
  rw [← entries] at inserted
  rw [SortedMap.slot_insert]
  refine sync.setValidators ?_ (by
    rw [sync.validatorCount]
    exact (SortedMap.size_insert_of_none absent).symm)
  rw [sync.validatorCount]
  exact inserted

theorem InSync.removeValidator (found : data.validatorAccounts.find? pubkey = some old)
    (inside : data.validatorAccounts.slot pubkey < tree.validatorCount) :
    (tree.removeValidatorAtSlot (data.validatorAccounts.slot pubkey) inside).InSync staleDeposits
      staleWithdrawals
      { data with validatorAccounts := data.validatorAccounts.erase pubkey } schedule := by
  have entries := SortedMap.entries_of_some found
  have commits := sync.validators
  rw [entries] at commits
  have removed := SszTree.Over.removeItem commits (SszTree.room_of_item _ _ _ _)
  have total : tree.validatorCount = (data.validatorAccounts.below pubkey).length +
      (data.validatorAccounts.above pubkey).length + 1 := by
    rw [sync.validatorCount, SortedMap.size, entries, List.length_append, List.length_cons]
    omega
  have shift : tree.validatorCount - data.validatorAccounts.slot pubkey - 1 =
      (data.validatorAccounts.above pubkey).length := by
    rw [SortedMap.slot_of_some found]
    omega
  have last : tree.validatorCount - 1 = (data.validatorAccounts.below pubkey).length +
      (data.validatorAccounts.above pubkey).length := by omega
  refine sync.setValidators ?_ (by
    rw [sync.validatorCount]
    exact (SortedMap.size_erase_of_some found).symm)
  simp only [shift, last]
  rw [SortedMap.slot_of_some found]
  exact removed

theorem InSync.pushDeposit (fresh : staleDeposits = false) (deposit : DepositRequest) :
    (tree.pushDeposit deposit).InSync staleDeposits staleWithdrawals
      { data with depositQueue := data.depositQueue ++ [deposit] } schedule := by
  obtain ⟨commits, count⟩ := sync.deposits fresh
  refine sync.setDeposits fun _ => ⟨?_, ?_⟩
  · rw [count]
    exact commits.pushItem layout_deposit deposit
  · rw [count, List.length_append, List.length_singleton]

/-- Appending a withdrawal at the end of the combined order. A stale subtree stays stale. -/
theorem InSync.pushWithdrawal {queue : WithdrawalQueue} {entry : PendingWithdrawal}
    (sameIndex : queue.nextIndex = data.withdrawalQueue.nextIndex)
    (appended : queue.iterAll = data.withdrawalQueue.iterAll ++ [entry]) :
    (tree.pushWithdrawal entry).InSync staleDeposits staleWithdrawals
      { data with withdrawalQueue := queue } schedule := by
  refine sync.setWithdrawals sameIndex fun fresh => ?_
  obtain ⟨commits, count, index⟩ := sync.withdrawals fresh
  have len := data.withdrawalQueue.length_iterAll
  rw [appended, count, index, pubkeyIndexOf_concat, len, ← queue.length_iterAll, appended,
    List.length_append, List.length_singleton, len, ← len]
  exact ⟨commits.pushItem layout_withdrawal entry, rfl, rfl⟩

end Incremental

/-! ### The full rebuild -/

theorem TopOver.setLeaves {top : SszTree} {leaves leaves' : List Bytes32}
    (spans : TopOver top leaves) (writes : List (Nat × Bytes32))
    (inside : ∀ write ∈ writes, write.1 < leaves.length) (small : leaves.length ≤ 32)
    (same : writes.foldl (fun l write => l.set write.1 write.2) leaves = leaves') :
    TopOver (writes.foldl (fun t write => t.setLeaf write.1 write.2) top) leaves' := by
  induction writes generalizing top leaves with
  | nil => exact same ▸ spans
  | cons write rest ih =>
    refine ih (spans.setLeaf (inside write List.mem_cons_self) small rfl) (fun other member => ?_)
      (by rwa [List.length_set]) same
    rw [List.length_set]
    exact inside other (List.mem_cons_of_mem _ member)

/-- The leaves that a rebuild writes, in its order. -/
def rebuildWrites (tree : SszStateTree) (data : StateData) : List (Nat × Bytes32) :=
  [(Leaf.epoch, hashU64 data.epoch),
   (Leaf.view, hashU64 data.view),
   (Leaf.latestHeight, hashU64 data.latestHeight),
   (Leaf.headDigest, data.headDigest),
   (Leaf.epochGenesisHash, data.epochGenesisHash),
   (Leaf.validatorMinimumStake, hashU64 data.validatorMinimumStake),
   (Leaf.allowedTimestampFutureMs, hashU64 data.allowedTimestampFutureMs),
   (Leaf.nextWithdrawalIndex, hashU64 data.withdrawalQueue.nextIndex),
   (Leaf.forkchoiceHeadBlockHash, data.forkchoice.headBlockHash),
   (Leaf.forkchoiceSafeBlockHash, data.forkchoice.safeBlockHash),
   (Leaf.forkchoiceFinalizedBlockHash, data.forkchoice.finalizedBlockHash),
   (Leaf.treasuryAddress, hashAddress data.treasuryAddress),
   (Leaf.maxDepositsPerEpoch, hashU64 data.maxDepositsPerEpoch),
   (Leaf.maxWithdrawalsPerEpoch, hashU64 data.maxWithdrawalsPerEpoch),
   (Leaf.observersPerValidator, hashU32 data.observersPerValidator),
   (Leaf.maxValidatorCount, hashU64 data.maxValidatorCount),
   (Leaf.minimumValidatorCount, hashU64 data.minimumValidatorCount),
   (Leaf.pendingActiveValidatorExits, hashU64 data.pendingActiveValidatorExits),
   (Leaf.invalidDepositTax, hashU64 data.invalidDepositTax),
   (Leaf.maxPendingWithdrawalsPerValidator, hashU64 data.maxPendingWithdrawalsPerValidator),
   (Leaf.validatorAccountsRoot, mixInLength tree.validatorTree.root tree.validatorCount),
   (Leaf.depositQueueRoot, mixInLength tree.depositTree.root tree.depositCount),
   (Leaf.withdrawalQueueRoot, mixInLength tree.withdrawalTree.root tree.withdrawalCount),
   (Leaf.protocolParamChangesRoot,
    mixInLength tree.protocolParamTree.root tree.protocolParamCount),
   (Leaf.addedValidatorsRoot, mixInLength tree.addedValidatorTree.root tree.addedValidatorCount),
   (Leaf.removedValidatorsRoot,
    mixInLength tree.removedValidatorTree.root tree.removedValidatorCount),
   (Leaf.pendingExecutionRequestsRoot,
    mixInLength tree.pendingExecutionRequestTree.root tree.pendingExecutionRequestCount),
   (Leaf.pendingCheckpoint, (data.pendingCheckpoint.map (·.digest)).getD zeroChunk),
   (Leaf.dynamicEpochSchedule, hashByteList data.epocher.encode)]

theorem rebuildWrites_leaves (tree : SszStateTree) (data : StateData) :
    (rebuildWrites tree data).foldl (fun leaves write => leaves.set write.1 write.2)
        (List.replicate 29 zeroChunk) =
      topLeaves tree data (hashByteList data.epocher.encode) := by
  simp only [rebuildWrites, List.foldl_cons, List.foldl_nil, List.replicate_succ,
    List.replicate_zero, List.set_cons_zero, List.set_cons_succ, Leaf.epoch, Leaf.view,
    Leaf.latestHeight, Leaf.headDigest, Leaf.epochGenesisHash, Leaf.validatorMinimumStake,
    Leaf.nextWithdrawalIndex, Leaf.forkchoiceHeadBlockHash, Leaf.forkchoiceSafeBlockHash,
    Leaf.forkchoiceFinalizedBlockHash, Leaf.allowedTimestampFutureMs, Leaf.validatorAccountsRoot,
    Leaf.depositQueueRoot, Leaf.withdrawalQueueRoot, Leaf.protocolParamChangesRoot,
    Leaf.addedValidatorsRoot, Leaf.removedValidatorsRoot, Leaf.treasuryAddress,
    Leaf.maxDepositsPerEpoch, Leaf.maxWithdrawalsPerEpoch, Leaf.observersPerValidator,
    Leaf.pendingExecutionRequestsRoot, Leaf.pendingCheckpoint, Leaf.dynamicEpochSchedule,
    Leaf.minimumValidatorCount, Leaf.pendingActiveValidatorExits, Leaf.invalidDepositTax,
    Leaf.maxPendingWithdrawalsPerValidator, Leaf.maxValidatorCount]
  rfl

theorem rebuildWrites_top (data : StateData) :
    (rebuild data).top = (rebuildWrites (rebuild data) data).foldl
      (fun top write => top.setLeaf write.1 write.2) (SszTree.new numTopLeaves) := by
  simp only [rebuildWrites, List.foldl_cons, List.foldl_nil, rebuild, new, setTop, setEpoch,
    setView, setLatestHeight, setHeadDigest, setEpochGenesisHash, setValidatorMinimumStake,
    setAllowedTimestampFutureMs, setMaxDepositsPerEpoch, setMaxWithdrawalsPerEpoch,
    setObserversPerValidator, setPendingCheckpointDigest, setDynamicEpochSchedule,
    setMinimumValidatorCount, setPendingActiveValidatorExits, setInvalidDepositTax,
    setMaxPendingWithdrawalsPerValidator, setMaxValidatorCount, setTreasuryAddress,
    setNextWithdrawalIndex, setForkchoiceHeadBlockHash, setForkchoiceSafeBlockHash,
    setForkchoiceFinalizedBlockHash, SszStateTree.rebuildValidators,
    SszStateTree.rebuildDeposits, SszStateTree.rebuildWithdrawals,
    SszStateTree.rebuildProtocolParams, SszStateTree.rebuildAddedValidators,
    SszStateTree.rebuildRemovedValidators, SszStateTree.rebuildPendingExecutionRequests,
    updateValidatorCollectionRoot, updateDepositCollectionRoot, updateWithdrawalCollectionRoot,
    updateProtocolParamCollectionRoot, updateAddedValidatorCollectionRoot,
    updateRemovedValidatorCollectionRoot, updatePendingExecutionRequestCollectionRoot]

/-- **A rebuilt tree is in sync.** -/
theorem inSync_rebuild (data : StateData) :
    (rebuild data).InSync false false data (hashByteList data.epocher.encode) where
  top := by
    have start : TopOver (SszTree.new numTopLeaves) (List.replicate 29 zeroChunk) :=
      (over_new numTopLeaves).congr fun j _ => by
        rw [List.getD_eq_getElem?_getD, List.getElem?_replicate]
        split <;> rfl
    rw [rebuildWrites_top]
    refine start.setLeaves _ ?_ (by simp) (rebuildWrites_leaves _ data)
    simp only [List.length_replicate, rebuildWrites, List.forall_mem_cons, List.not_mem_nil,
      IsEmpty.forall_iff, implies_true]
    decide
  validators := commits_ofItems layout_validator _
  validatorCount := rfl
  deposits _ := ⟨commits_ofItems layout_deposit _, rfl⟩
  withdrawals _ := ⟨commits_ofItems layout_withdrawal _, rfl, rfl⟩
  params := commits_ofItems layout_protocolParam _
  paramCount := rfl
  added := commits_ofItems layout_addedValidator _
  addedCount := rfl
  removed := commits_ofItems layout_removedValidator _
  removedCount := rfl
  requests := commits_ofItems layout_pendingRequest _
  requestCount := rfl

end SszStateTree

end Summit
