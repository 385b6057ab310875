/-
**What the state root binds.**

Two states with the same root have the same data, as far as the hash goes: if the pairs hashed for
the one state have no collision with those hashed for the other. The argument goes down the hash
tree of the state. Equal roots give equal roots at every leaf of the top tree (`spread_binding`); a
collection's leaf gives the length and from it the shape of its subtree, then the leaves of every
item (`collection_binding`); and the leaves of an item give the item back (`Binds`), because every
leaf encodes its field injectively.

Three things are bound only up to their encoding: the schedule, the checkpoint, which is there by
its digest, and the buckets of scheduled validators, which are flattened, so an empty bucket does
not show.
-/

import Summit.Proof.Sized
import Summit.Proof.StateHash

set_option linter.unusedSectionVars false

namespace Summit

open Bytes HeapTree HashTree

section Binding

variable [Crypto] {α : Type}

/-! ### Leaves -/

theorem hashU64_injective {a b : Nat} (fits : a < 2 ^ 64) (fits' : b < 2 ^ 64)
    (same : hashU64 a = hashU64 b) : a = b := by
  refine @leBytes_injective 8 a b (by simpa using fits) (by simpa using fits') ?_
  exact FixedBytes.padded_injective same (by simp) (by simp)

theorem hashU32_injective {a b : Nat} (fits : a < 2 ^ 32) (fits' : b < 2 ^ 32)
    (same : hashU32 a = hashU32 b) : a = b := by
  refine @leBytes_injective 4 a b (by simpa using fits) (by simpa using fits') ?_
  exact FixedBytes.padded_injective same (by simp) (by simp)

theorem hashU8_injective {a b : UInt8} (same : hashU8 a = hashU8 b) : a = b :=
  (List.cons.inj (FixedBytes.padded_injective same rfl (by simp))).1

theorem hashAddress_injective {a b : Address} (same : hashAddress a = hashAddress b) : a = b :=
  Subtype.ext (FixedBytes.padded_injective same (by simp) (by simp))

/-- Two trees with the same root and no collision between their pairs. -/
def Agree (one two : HashTree Bytes32) : Prop :=
  rootOf one = rootOf two ∧ CollisionFree Crypto.hash32Concat (pairsOf one) (pairsOf two)

theorem Agree.join {left right left' right' : HashTree Bytes32}
    (agree : Agree (join left right) (HashTree.join left' right')) :
    Agree left left' ∧ Agree right right' := by
  obtain ⟨lefts, rights⟩ := join_binding agree.2 agree.1
  exact ⟨⟨lefts, agree.2.left⟩, ⟨rights, agree.2.right⟩⟩

theorem Agree.spread {depth : Nat} {trees trees' : Nat → HashTree Bytes32}
    (agree : Agree (spread depth trees) (HashTree.spread depth trees')) {i : Nat}
    (inside : i < 2 ^ depth) : Agree (trees i) (trees' i) :=
  ⟨spread_binding agree.2 agree.1 inside,
    agree.2.mono (hashed_subset_spread depth trees inside)
      (hashed_subset_spread depth trees' inside)⟩

theorem Agree.withLength {tree tree' : HashTree Bytes32} {n m : Nat}
    (agree : Agree (withLength tree n) (Summit.withLength tree' m)) (fits : n < 2 ^ 64)
    (fits' : m < 2 ^ 64) : Agree tree tree' ∧ n = m :=
  ⟨agree.join.1, hashU64_injective fits fits' agree.join.2.1⟩

theorem Agree.blsKey {a b : BlsPublicKey} (agree : Agree (blsKeyTree a) (blsKeyTree b)) :
    a = b := by
  obtain ⟨⟨low, -⟩, ⟨high, -⟩⟩ := agree.join
  have lows := congrArg Subtype.val low
  have highs := FixedBytes.padded_injective high (by simp) (by simp)
  simp only [rootOf, root] at lows
  rw [FixedBytes.slice_val (by norm_num), FixedBytes.slice_val (by norm_num)] at lows highs
  refine Subtype.ext (FixedBytes.ext_cut 32 (by simpa using lows) ?_)
  rwa [List.take_of_length_le (by simp), List.take_of_length_le (by simp)] at highs

theorem Agree.fixedBytes64 {a b : FixedBytes 64}
    (agree : Agree (fixedBytes64Tree a) (fixedBytes64Tree b)) : a = b := by
  obtain ⟨⟨low, -⟩, ⟨high, -⟩⟩ := agree.join
  have lows := congrArg Subtype.val low
  have highs := congrArg Subtype.val high
  simp only [rootOf, root] at lows highs
  rw [FixedBytes.slice_val (by norm_num), FixedBytes.slice_val (by norm_num)] at lows highs
  refine FixedBytes.ext_cut 32 (by simpa using lows) ?_
  rwa [List.take_of_length_le (by simp), List.take_of_length_le (by simp)] at highs

/-- Chunk lists of the same length are bound by the root of their tree. -/
theorem Agree.chunks {list list' : List Bytes32}
    (agree : Agree (chunkTree list) (chunkTree list')) (sameLength : list.length = list'.length) :
    list = list' := by
  rw [chunkTree, chunkTree, sameLength] at agree
  obtain ⟨depth, pow⟩ := nextPowerOfTwo_eq_pow list'.length
  have fits := le_nextPowerOfTwo list'.length
  rw [pow] at fits
  rw [pow, Nat.log2_two_pow] at agree
  refine List.ext_getElem sameLength fun i inside inside' => ?_
  have same := (agree.spread (lt_of_lt_of_le inside' fits)).1
  simpa [rootOf, root, List.getD_eq_getElem?_getD, inside, inside'] using same

theorem Agree.fixedBytes96 {a b : FixedBytes 96}
    (agree : Agree (fixedBytes96Tree a) (fixedBytes96Tree b)) : a = b := by
  have same := Agree.chunks agree rfl
  simp only [List.cons.injEq, and_true] at same
  obtain ⟨low, middle, high⟩ := same
  have lows := congrArg Subtype.val low
  have middles := congrArg Subtype.val middle
  have highs := congrArg Subtype.val high
  rw [FixedBytes.slice_val (by norm_num), FixedBytes.slice_val (by norm_num)] at lows middles highs
  refine FixedBytes.ext_cut 32 (by simpa using lows) ?_
  rw [List.take_of_length_le (by simp), List.take_of_length_le (by simp)] at highs
  rw [← List.take_append_drop 32 (a.val.drop 32), middles, List.drop_drop, highs,
    show b.val.drop (32 + 32) = (b.val.drop 32).drop 32 from (List.drop_drop ..).symm,
    List.take_append_drop]

/-- The chunks of a byte list determine it once its length is known. -/
theorem packedBytes_injective {a b : List UInt8} (sameLength : a.length = b.length)
    (same : packedBytes a = packedBytes b) : a = b := by
  by_cases none : a = []
  · rw [none] at sameLength ⊢
    exact (List.length_eq_zero_iff.mp sameLength.symm).symm
  · have none' : b ≠ [] := fun empty =>
      none (List.length_eq_zero_iff.mp (by rw [sameLength, empty]; rfl))
    rw [packedBytes, packedBytes, if_neg none, if_neg none'] at same
    rw [← @flatten_chunks 32 (by norm_num) a, ← @flatten_chunks 32 (by norm_num) b]
    congr 1
    have sameCount : (Bytes.chunks 32 a).length = (Bytes.chunks 32 b).length := by
      simp [Bytes.chunks, sameLength]
    refine List.ext_getElem sameCount fun i inside inside' => ?_
    have padded : FixedBytes.padded 32 (Bytes.chunks 32 a)[i] =
        FixedBytes.padded 32 (Bytes.chunks 32 b)[i] := by
      have at_i := congrArg (fun list => list[i]?) same
      simpa [inside, inside'] using at_i
    refine FixedBytes.padded_injective padded ?_ ?_
    · simp [Bytes.chunks, sameLength]
    · simp [Bytes.chunks]

theorem length_packedBytes {a b : List UInt8} (sameLength : a.length = b.length) :
    (packedBytes a).length = (packedBytes b).length := by
  have empties : a = [] ↔ b = [] := by
    rw [← List.length_eq_zero_iff, sameLength, List.length_eq_zero_iff]
  rw [packedBytes, packedBytes]
  by_cases none : a = []
  · rw [if_pos none, if_pos (empties.mp none)]
  · rw [if_neg none, if_neg (fun empty => none (empties.mpr empty)), List.length_map,
      List.length_map, Bytes.chunks, Bytes.chunks, List.length_map, List.length_map, sameLength]

theorem Agree.byteList {a b : List UInt8} (fits : a.length < 2 ^ 64) (fits' : b.length < 2 ^ 64)
    (agree : Agree (byteListTree a) (byteListTree b)) : a = b := by
  obtain ⟨packed, sameLength⟩ := agree.withLength fits fits'
  exact packedBytes_injective sameLength (packed.chunks (length_packedBytes sameLength))

/-! ### Items -/

/-- The leaves of a block determine the item, among the items that `each` admits. -/
def Binds (width : Nat) (block : α → List (HashTree Bytes32)) (each : α → Prop) : Prop :=
  ∀ a b, each a → each b →
    (∀ offset, offset < width →
      Agree ((block a).getD offset (chunk zeroChunk)) ((block b).getD offset (chunk zeroChunk))) →
    a = b

/-- **A collection is bound by its leaf**: first its length, then its items. -/
theorem collection_binding {width : Nat} {block : α → List (HashTree Bytes32)} {each : α → Prop}
    (binds : Binds width block each) {items items' : List α}
    (sized : SizedList each items) (sized' : SizedList each items')
    (agree : Agree (collectionTree width block items) (collectionTree width block items')) :
    items = items' := by
  obtain ⟨spreads, sameLength⟩ := agree.withLength sized.length sized'.length
  rw [sameLength] at spreads
  refine List.ext_getElem sameLength fun i inside inside' => ?_
  refine binds _ _ (sized.each _ (List.getElem_mem inside))
    (sized'.each _ (List.getElem_mem inside')) fun offset small => ?_
  have below : i * width + offset < 2 ^ collectionDepth width items'.length := by
    rw [two_pow_collectionDepth]
    refine lt_of_lt_of_le ?_ (SszTree.blocks_le_capacity items'.length width)
    calc i * width + offset < i * width + width := Nat.add_lt_add_left small _
      _ = (i + 1) * width := (Nat.succ_mul i width).symm
      _ ≤ items'.length * width := Nat.mul_le_mul_right width inside'
  have leaf := spreads.spread below
  rw [itemTree, itemTree, block_slot small, Nat.mul_add_mod_of_lt small,
    List.getElem?_eq_getElem inside, List.getElem?_eq_getElem inside'] at leaf
  exact leaf

theorem status_injective {a b : ValidatorStatus} (same : a.toU8 = b.toU8) : a = b := by
  have read := congrArg ValidatorStatus.fromU8 same
  rw [ValidatorStatus.fromU8_toU8, ValidatorStatus.fromU8_toU8] at read
  exact Option.some.inj read

theorem kind_injective {a b : WithdrawalKind} (same : a.asU8 = b.asU8) : a = b := by
  have read := congrArg WithdrawalKind.tryFrom same
  rw [WithdrawalKind.tryFrom_asU8, WithdrawalKind.tryFrom_asU8] at read
  exact Option.some.inj read

theorem binds_validator :
    Binds (2 ^ 3) validatorBlock fun entry => ValidatorAccount.Sized entry.2 := by
  rintro ⟨key, account⟩ ⟨key', account'⟩ sized sized' agree
  have bls := (agree 0 (by norm_num)).blsKey
  have credentials := hashAddress_injective (agree 1 (by norm_num)).1
  have balance := hashU64_injective sized.balance sized'.balance (agree 2 (by norm_num)).1
  have status := status_injective (hashU8_injective (agree 3 (by norm_num)).1)
  have joining := hashU64_injective sized.joiningEpoch sized'.joiningEpoch
    (agree 4 (by norm_num)).1
  have last := hashU64_injective sized.lastDepositIndex sized'.lastDepositIndex
    (agree 5 (by norm_num)).1
  have keys : key = key' := (agree 6 (by norm_num)).1
  obtain ⟨_, _, _, _, _, _⟩ := account
  obtain ⟨_, _, _, _, _, _⟩ := account'
  simp only at bls credentials balance status joining last
  rw [keys, bls, credentials, balance, status, joining, last]

theorem binds_deposit : Binds (2 ^ 3) depositBlock DepositRequest.Sized := by
  rintro deposit deposit' sized sized' agree
  have node : deposit.nodePubkey = deposit'.nodePubkey := Subtype.ext (agree 0 (by norm_num)).1
  have bls := (agree 1 (by norm_num)).blsKey
  have credentials : deposit.withdrawalCredentials = deposit'.withdrawalCredentials :=
    (agree 2 (by norm_num)).1
  have amount := hashU64_injective sized.amount sized'.amount (agree 3 (by norm_num)).1
  have nodeSignature := (agree 4 (by norm_num)).fixedBytes64
  have consensusSignature := (agree 5 (by norm_num)).fixedBytes96
  have index := hashU64_injective sized.index sized'.index (agree 6 (by norm_num)).1
  obtain ⟨_, _, _, _, _, _, _⟩ := deposit
  obtain ⟨_, _, _, _, _, _, _⟩ := deposit'
  simp only at node bls credentials amount nodeSignature consensusSignature index
  rw [node, bls, credentials, amount, nodeSignature, consensusSignature, index]

theorem binds_withdrawal : Binds (2 ^ 3) withdrawalBlock PendingWithdrawal.Sized := by
  rintro withdrawal withdrawal' sized sized' agree
  have index := hashU64_injective sized.index sized'.index (agree 0 (by norm_num)).1
  have validatorIndex := hashU64_injective sized.validatorIndex sized'.validatorIndex
    (agree 1 (by norm_num)).1
  have address := hashAddress_injective (agree 2 (by norm_num)).1
  have amount := hashU64_injective sized.amount sized'.amount (agree 3 (by norm_num)).1
  have pubkey : withdrawal.pubkey = withdrawal'.pubkey := (agree 4 (by norm_num)).1
  have epoch := hashU64_injective sized.epoch sized'.epoch (agree 5 (by norm_num)).1
  have kind := kind_injective (hashU8_injective (agree 6 (by norm_num)).1)
  obtain ⟨⟨_, _, _, _⟩, _, _, _⟩ := withdrawal
  obtain ⟨⟨_, _, _, _⟩, _, _, _⟩ := withdrawal'
  simp only at index validatorIndex address amount pubkey epoch kind
  rw [index, validatorIndex, address, amount, pubkey, epoch, kind]

/-- The parameter change of a tag, with the number or the address that it carries. -/
def ProtocolParam.ofTag (number : Nat) (address : Address) : Nat → ProtocolParam
  | 0 => .minimumStake number
  | 1 => .epochLength number
  | 2 => .allowedTimestampFuture number
  | 3 => .treasuryAddress address
  | 4 => .maxDepositsPerEpoch number
  | 5 => .maxWithdrawalsPerEpoch number
  | 6 => .observersPerValidator number
  | 7 => .minimumValidatorCount number
  | 8 => .invalidDepositTax number
  | 9 => .maxPendingWithdrawalsPerValidator number
  | _ => .maxValidatorCount number

/-- The leaves of a parameter change in terms of what it carries. -/
theorem protocolParamLeaves_cases (param : ProtocolParam) :
    (∃ address, param = .treasuryAddress address ∧
      protocolParamLeaves param = (3, hashAddress address)) ∨
    ∃ tag, tag ≠ 3 ∧ param = ProtocolParam.ofTag param.number (FixedBytes.zero 20) tag ∧
      protocolParamLeaves param = (tag, hashU64 param.number) := by
  cases param with
  | treasuryAddress address => exact Or.inl ⟨address, rfl, rfl⟩
  | _ => exact Or.inr ⟨_, by decide, rfl, rfl⟩

theorem protocolParamLeaves_injective {a b : ProtocolParam} (sized : a.Sized) (sized' : b.Sized)
    (same : protocolParamLeaves a = protocolParamLeaves b) : a = b := by
  rcases protocolParamLeaves_cases a with ⟨address, rfl, leaves⟩ | ⟨tag, other, param, leaves⟩ <;>
    rcases protocolParamLeaves_cases b with
      ⟨address', rfl, leaves'⟩ | ⟨tag', other', param', leaves'⟩ <;>
    rw [leaves, leaves', Prod.mk.injEq] at same
  · rw [hashAddress_injective same.2]
  · exact absurd same.1.symm other'
  · exact absurd same.1 other
  · rw [param, param', same.1, hashU64_injective sized sized' same.2]

theorem protocolParamLeaves_tag_lt (param : ProtocolParam) :
    (protocolParamLeaves param).1 < 2 ^ 64 := by
  cases param <;> norm_num [protocolParamLeaves]

theorem binds_protocolParam : Binds 2 protocolParamBlock ProtocolParam.Sized :=
  fun a b sized sized' agree =>
    protocolParamLeaves_injective sized sized' (Prod.ext
      (hashU64_injective (protocolParamLeaves_tag_lt a) (protocolParamLeaves_tag_lt b)
        (agree 0 (by norm_num)).1)
      (agree 1 (by norm_num)).1)

theorem binds_addedValidator : Binds 4 addedValidatorBlock fun item => item.1 < 2 ^ 64 := by
  rintro ⟨epoch, node, bls⟩ ⟨epoch', node', bls'⟩ sized sized' agree
  have nodes : node = node' := Subtype.ext (agree 0 (by norm_num)).1
  have keys : bls = bls' := (agree 1 (by norm_num)).blsKey
  have epochs : epoch = epoch' := hashU64_injective sized sized' (agree 2 (by norm_num)).1
  rw [nodes, keys, epochs]

theorem binds_removedValidator : Binds 1 removedValidatorBlock fun _ => True :=
  fun _ _ _ _ agree => Subtype.ext (agree 0 (by norm_num)).1

theorem binds_pendingRequest :
    Binds 1 pendingRequestBlock fun request => request.length < 2 ^ 64 :=
  fun _ _ sized sized' agree => (agree 0 (by norm_num)).byteList sized sized'

/-! ### The queue and the buckets behind the lists -/

/-- The entries and their kinds determine both lists of the queue. -/
theorem queue_eq_of_iterAll {queue queue' : WithdrawalQueue}
    (same : queue.iterAll = queue'.iterAll) (sameIndex : queue.nextIndex = queue'.nextIndex) :
    queue = queue' := by
  have validators : ∀ q : WithdrawalQueue,
      q.iterAll.filter (fun w => w.kind = .validator) = q.withdrawals := by
    intro q
    have none : q.refunds.filter (fun w => w.kind = .validator) = [] :=
      List.filter_eq_nil_iff.mpr fun w member => by simp [q.refunds_kind w member]
    rw [WithdrawalQueue.iterAll, List.filter_append, none, List.append_nil]
    exact List.filter_eq_self.mpr fun w member => by simp [q.withdrawals_kind w member]
  have refunds : ∀ q : WithdrawalQueue,
      q.iterAll.filter (fun w => w.kind = .depositRefund) = q.refunds := by
    intro q
    have none : q.withdrawals.filter (fun w => w.kind = .depositRefund) = [] :=
      List.filter_eq_nil_iff.mpr fun w member => by simp [q.withdrawals_kind w member]
    rw [WithdrawalQueue.iterAll, List.filter_append, none, List.nil_append]
    exact List.filter_eq_self.mpr fun w member => by simp [q.refunds_kind w member]
  refine WithdrawalQueue.ext ?_ ?_ sameIndex
  · rw [← validators queue, same, validators]
  · rw [← refunds queue, same, refunds]

/-- No epoch is scheduled with an empty list. -/
def NoEmptyBucket (validators : SortedMap Nat (List AddedValidator)) : Prop :=
  ∀ entry ∈ validators.entries, entry.2 ≠ []

instance (validators : SortedMap Nat (List AddedValidator)) : Decidable (NoEmptyBucket validators) :=
  inferInstanceAs (Decidable (∀ entry ∈ validators.entries, entry.2 ≠ []))

theorem filter_flattenAdded (validators : SortedMap Nat (List AddedValidator)) (epoch : Nat) :
    ((SszStateTree.flattenAdded validators).filter fun item => item.1 = epoch).map Prod.snd =
      (validators.find? epoch).getD [] := by
  have buckets : ∀ entries : List (Nat × List AddedValidator),
      ((entries.flatMap fun entry => entry.2.map fun v => (entry.1, v)).filter
        fun item => item.1 = epoch).map Prod.snd =
      (entries.filter fun entry => entry.1 = epoch).flatMap Prod.snd := by
    intro entries
    induction entries with
    | nil => rfl
    | cons entry rest ih =>
      rw [List.flatMap_cons, List.filter_append, List.map_append, ih]
      by_cases here : entry.1 = epoch
      · simp [here, List.filter_map, Function.comp_def]
      · simp [here, List.filter_map, Function.comp_def]
  rw [SszStateTree.flattenAdded, buckets, SortedMap.filter_eq_key]
  cases validators.find? epoch with
  | none => rfl
  | some bucket => simp

theorem addedValidators_eq_of_flatten {validators validators' : SortedMap Nat (List AddedValidator)}
    (filled : NoEmptyBucket validators) (filled' : NoEmptyBucket validators')
    (same : SszStateTree.flattenAdded validators = SszStateTree.flattenAdded validators') :
    validators = validators' := by
  refine SortedMap.ext_find? fun epoch => ?_
  have buckets : (validators.find? epoch).getD [] = (validators'.find? epoch).getD [] := by
    rw [← filter_flattenAdded, same, filter_flattenAdded]
  cases found : validators.find? epoch with
  | none =>
    cases found' : validators'.find? epoch with
    | none => rfl
    | some bucket =>
      rw [found, found'] at buckets
      exact absurd buckets.symm (filled' _ (SortedMap.find?_eq_some_iff.mp found'))
  | some bucket =>
    cases found' : validators'.find? epoch with
    | none =>
      rw [found, found'] at buckets
      exact absurd buckets (filled _ (SortedMap.find?_eq_some_iff.mp found))
    | some bucket' =>
      rw [found, found'] at buckets
      exact congrArg some buckets

/-! ### The whole state -/

attribute [ext] StateData

/-- The state with the schedule and the checkpoint of another: what the root shows of these two is
stated apart. -/
def StateData.borrowing (data other : StateData) : StateData :=
  { data with pendingCheckpoint := other.pendingCheckpoint, epocher := other.epocher }

/-- The digest that stands for the pending checkpoint, zero when there is none. -/
def StateData.checkpointDigest (data : StateData) : Digest :=
  (data.pendingCheckpoint.map (·.digest)).getD zeroChunk

theorem binding_of_agree {data data' : StateData} (sized : data.Sized) (sized' : data'.Sized)
    (filled : NoEmptyBucket data.addedValidators) (filled' : NoEmptyBucket data'.addedValidators)
    (agree : Agree data.hashTree data'.hashTree) :
    data.borrowing data' = data' ∧ data.epocher.encode = data'.epocher.encode ∧
      data.checkpointDigest = data'.checkpointDigest := by
  have top : ∀ j, j < 2 ^ 5 → Agree (data.topTrees.getD j (chunk zeroChunk))
      (data'.topTrees.getD j (chunk zeroChunk)) := fun j inside => agree.spread inside
  have epoch := hashU64_injective sized.epoch sized'.epoch (top 0 (by norm_num)).1
  have view := hashU64_injective sized.view sized'.view (top 1 (by norm_num)).1
  have height := hashU64_injective sized.latestHeight sized'.latestHeight (top 2 (by norm_num)).1
  have head : data.headDigest = data'.headDigest := (top 3 (by norm_num)).1
  have genesis : data.epochGenesisHash = data'.epochGenesisHash := (top 4 (by norm_num)).1
  have stake := hashU64_injective sized.validatorMinimumStake sized'.validatorMinimumStake
    (top 5 (by norm_num)).1
  have nextIndex := hashU64_injective sized.nextIndex sized'.nextIndex (top 6 (by norm_num)).1
  have headBlock : data.forkchoice.headBlockHash = data'.forkchoice.headBlockHash :=
    (top 7 (by norm_num)).1
  have safeBlock : data.forkchoice.safeBlockHash = data'.forkchoice.safeBlockHash :=
    (top 8 (by norm_num)).1
  have finalizedBlock : data.forkchoice.finalizedBlockHash = data'.forkchoice.finalizedBlockHash :=
    (top 9 (by norm_num)).1
  have timestamp := hashU64_injective sized.allowedTimestampFutureMs
    sized'.allowedTimestampFutureMs (top 10 (by norm_num)).1
  have accounts := SortedMap.ext (collection_binding binds_validator sized.accounts sized'.accounts
    (top 11 (by norm_num)))
  have deposits := collection_binding binds_deposit sized.deposits sized'.deposits
    (top 12 (by norm_num))
  have queue := queue_eq_of_iterAll (collection_binding binds_withdrawal sized.withdrawals
    sized'.withdrawals (top 13 (by norm_num))) nextIndex
  have params := collection_binding binds_protocolParam sized.params sized'.params
    (top 14 (by norm_num))
  have added := addedValidators_eq_of_flatten filled filled' (collection_binding
    binds_addedValidator sized.added sized'.added (top 15 (by norm_num)))
  have removed := collection_binding binds_removedValidator sized.removed sized'.removed
    (top 16 (by norm_num))
  have treasury := hashAddress_injective (top 17 (by norm_num)).1
  have maxDeposits := hashU64_injective sized.maxDepositsPerEpoch sized'.maxDepositsPerEpoch
    (top 18 (by norm_num)).1
  have maxWithdrawals := hashU64_injective sized.maxWithdrawalsPerEpoch
    sized'.maxWithdrawalsPerEpoch (top 19 (by norm_num)).1
  have observers := hashU32_injective sized.observersPerValidator sized'.observersPerValidator
    (top 20 (by norm_num)).1
  have requests := collection_binding binds_pendingRequest sized.requests sized'.requests
    (top 21 (by norm_num))
  have digest : data.checkpointDigest = data'.checkpointDigest := (top 22 (by norm_num)).1
  have schedule := (top 23 (by norm_num)).byteList sized.schedule sized'.schedule
  have minimum := hashU64_injective sized.minimumValidatorCount sized'.minimumValidatorCount
    (top 24 (by norm_num)).1
  have exits := hashU64_injective sized.pendingActiveValidatorExits
    sized'.pendingActiveValidatorExits (top 25 (by norm_num)).1
  have tax := hashU64_injective sized.invalidDepositTax sized'.invalidDepositTax
    (top 26 (by norm_num)).1
  have pending := hashU64_injective sized.maxPendingWithdrawalsPerValidator
    sized'.maxPendingWithdrawalsPerValidator (top 27 (by norm_num)).1
  have cap := hashU64_injective sized.maxValidatorCount sized'.maxValidatorCount
    (top 28 (by norm_num)).1
  refine ⟨?_, schedule, digest⟩
  have forkchoice : data.forkchoice = data'.forkchoice := by
    cases one : data.forkchoice
    cases two : data'.forkchoice
    simp only [one, two] at headBlock safeBlock finalizedBlock
    rw [headBlock, safeBlock, finalizedBlock]
  exact StateData.ext epoch view height head deposits queue accounts params rfl added removed
    requests forkchoice genesis stake timestamp treasury maxDeposits maxWithdrawals observers cap
    minimum exits tax pending rfl

end Binding

/-- **The state root binds the whole state.** Two states without empty buckets whose rebuilt trees
have the same root have the same data, the same encoded schedule and the same checkpoint digest,
where no checkpoint counts as the zero digest. Of the pair hash only this is used, that the pairs
hashed for the one tree have no collision with those hashed for the other. -/
theorem root_binding [Crypto] (s s' : ConsensusState) (sized : s.toStateData.Sized)
    (sized' : s'.toStateData.Sized) (filled : NoEmptyBucket s.addedValidators)
    (filled' : NoEmptyBucket s'.addedValidators)
    (free : CollisionFree Crypto.hash32Concat (pairsOf s.toStateData.hashTree)
      (pairsOf s'.toStateData.hashTree))
    (same : s.rebuildSszTree.sszTree.root = s'.rebuildSszTree.sszTree.root) :
    s.toStateData.borrowing s'.toStateData = s'.toStateData ∧
      s.epocher.encode = s'.epocher.encode ∧
      s.toStateData.checkpointDigest = s'.toStateData.checkpointDigest := by
  refine binding_of_agree sized sized' filled filled' ⟨?_, free⟩
  rw [← root_eq_of_inSync (SszStateTree.inSync_rebuild s.toStateData),
    ← root_eq_of_inSync (SszStateTree.inSync_rebuild s'.toStateData)]
  exact same

attribute [local instance] Crypto.mixing

/-- The same data with a checkpoint whose digest is zero. -/
def zeroDigestData : StateData := { filledData with pendingCheckpoint := some ⟨[], zeroChunk⟩ }

theorem root_filledData :
    (SszStateTree.rebuild filledData).root = (SszStateTree.rebuild zeroDigestData).root := by
  rw [root_eq_of_inSync (SszStateTree.inSync_rebuild filledData),
    root_eq_of_inSync (SszStateTree.inSync_rebuild zeroDigestData)]
  rfl

/-- A state without a checkpoint and one with a checkpoint of zero digest have the same root. -/
theorem root_binding_filled :
    filledData.borrowing zeroDigestData = zeroDigestData ∧
      filledData.epocher.encode = zeroDigestData.epocher.encode ∧
      filledData.checkpointDigest = zeroDigestData.checkpointDigest :=
  root_binding (ConsensusState.ofData filledData 0 none)
    (ConsensusState.ofData zeroDigestData 0 none)
    (by decide +kernel) (by decide +kernel) (by decide) (by decide) (by decide +kernel)
    root_filledData

end Summit
