/-
**What a keyed field proof proves.**

The verifier of a keyed field proof takes the generalized index from the prover. It checks that the
two leaves lie in the same group of eight nodes and that the key is at its offset in the group, but
not in which collection the group lies. `nodeAt` is the value that the state has at an index, and
verification says no more than that (`nodeAt_of_verify`, `exists_proof`): so a proof is accepted
for every group of eight nodes with the key at the right offset, wherever it is.

Among the leaves of its own collection such a group is the block of an item with that key
(`Collection.hasLeaf_of_inside`). Elsewhere it is not: the node keys of two scheduled validators
lie four leaves apart, which puts the second where a withdrawal has its key.
`keyedProof_sound_iff` says that groups outside the collection are all that stands between the
verifier and soundness.
-/

import Summit.Model.StateProof
import Summit.Proof.Commitment
import Summit.Proof.StateHash

set_option linter.unusedSectionVars false

namespace Summit

open Bytes HeapTree HashTree

section Keyed

variable [Crypto]

/-! ### Verification as a climb -/

theorem foldl_eq_climb (value : Bytes32) (g : Nat) (proof : List Bytes32) :
    proof.foldl (fun (state : Bytes32 × Nat) sibling =>
        (if state.2 % 2 = 0 then Crypto.hash32Concat state.1 sibling
          else Crypto.hash32Concat sibling state.1, state.2 / 2)) (value, g) =
      climb Crypto.hash32Concat value g proof := by
  have step : (fun (state : Bytes32 × Nat) sibling =>
      (if state.2 % 2 = 0 then Crypto.hash32Concat state.1 sibling
        else Crypto.hash32Concat sibling state.1, state.2 / 2)) =
      climbStep Crypto.hash32Concat := by
    funext state sibling
    by_cases even : state.2 % 2 = 0
    · simp [climbStep, input, even]
    · simp [climbStep, input, even]
  rw [step]
  rfl

variable {g : Nat} {root value key : Bytes32} {data : StateData}

theorem div_two_pow_log2 (positive : g ≠ 0) : g / 2 ^ Nat.log2 g = 1 := by
  have lower := Nat.log2_self_le positive
  have upper : g < 2 ^ (Nat.log2 g + 1) := Nat.lt_log2_self
  rw [pow_succ] at upper
  refine Nat.div_eq_of_lt_le ?_ ?_
  · rwa [Nat.one_mul]
  · omega

/-- A path that goes on for `depth` more turns is as much longer. -/
theorem log2_of_div {depth lead : Nat} (above : g / 2 ^ depth = lead) (positive : lead ≠ 0) :
    Nat.log2 g = Nat.log2 lead + depth := by
  have block := Nat.two_pow_pos depth
  have lower : 2 ^ Nat.log2 lead * 2 ^ depth ≤ g := by
    rw [← Nat.le_div_iff_mul_le block, above]
    exact Nat.log2_self_le positive
  have upper : g < 2 ^ (Nat.log2 lead + 1) * 2 ^ depth := by
    rw [← Nat.div_lt_iff_lt_mul block, above]
    exact Nat.lt_log2_self
  have nonzero : g ≠ 0 := by
    rintro rfl
    exact positive (above.symm.trans (Nat.zero_div _))
  rw [Nat.log2_eq_iff nonzero, Nat.add_right_comm, pow_add, pow_add]
  exact ⟨lower, upper⟩

/-- The path to the subtree of a collection has six turns. -/
theorem log2_subtree {top : Nat} (small : top < 32) : Nat.log2 (2 * (32 + top)) = 6 := by
  rw [Nat.log2_eq_iff (by omega)]
  omega

theorem verifyProofGindex_iff {proof : List Bytes32} :
    SszTree.verifyProofGindex root g value proof = true ↔
      g ≠ 0 ∧ proof.length = Nat.log2 g ∧
        (climb Crypto.hash32Concat value g proof).1 = root := by
  unfold SszTree.verifyProofGindex
  by_cases zero : g = 0
  · simp [zero]
  · rw [if_neg zero]
    by_cases length : proof.length = Nat.log2 g
    · rw [if_neg (not_not.mpr length)]
      have top := @climb_index _ Crypto.hash32Concat value g proof
      rw [length, div_two_pow_log2 zero] at top
      simp only [foldl_eq_climb, top, decide_true, Bool.true_and, decide_eq_true_eq]
      exact ⟨fun reached => ⟨zero, length, reached⟩, fun facts => facts.2.2⟩
    · simp [length]

theorem KeyedFieldProof.verify_iff {proof : KeyedFieldProof} {offset : Nat} :
    proof.verify root key 8 offset = true ↔
      proof.field.verify root = true ∧ proof.key.verify root = true ∧ proof.key.leaf = key ∧
        proof.key.gindex % 8 = offset ∧ proof.field.gindex / 8 = proof.key.gindex / 8 := by
  have low : proof.key.gindex &&& (8 - 1) = proof.key.gindex % 8 :=
    Nat.and_two_pow_sub_one_eq_mod _ 3
  have width : isPowerOfTwo 8 = true := by decide
  have shift : Nat.log2 8 = 3 := by decide
  unfold KeyedFieldProof.verify
  simp only [width, shift, low, Nat.shiftRight_eq_div_pow]
  cases proof.field.verify root
  · simp
  · cases proof.key.verify root
    · simp
    · by_cases same : proof.key.leaf = key
      · by_cases here : proof.key.gindex % 8 = offset
        · simp [same, here]
        · simp [same, here]
      · simp [same]

/-! ### The values of a state by index -/

/-- The value that the state tree has at a generalized index. -/
def StateData.nodeAt (data : StateData) (g : Nat) : Option Bytes32 :=
  if g = 0 then none else (data.hashTree.subtree (Nat.log2 g) g).map rootOf

/-- The hashes that checking the proof computes collide with none of the state's and are no raw
leaf of the state. -/
def SszProof.Honest (data : StateData) (proof : SszProof) : Prop :=
  CollisionFree Crypto.hash32Concat (pairsOf data.hashTree)
      (climbed Crypto.hash32Concat proof.leaf proof.gindex proof.branch) ∧
    ∀ p ∈ climbed Crypto.hash32Concat proof.leaf proof.gindex proof.branch,
      Crypto.hash32Concat p.1 p.2 ∉ data.hashTree.chunks

instance (data : StateData) (proof : SszProof) : Decidable (proof.Honest data) :=
  inferInstanceAs (Decidable (_ ∧ _))

def KeyedFieldProof.Honest (data : StateData) (proof : KeyedFieldProof) : Prop :=
  proof.field.Honest data ∧ proof.key.Honest data

instance (data : StateData) (proof : KeyedFieldProof) : Decidable (proof.Honest data) :=
  inferInstanceAs (Decidable (_ ∧ _))

/-- The same for the hashes of the state itself. -/
def StateData.Honest (data : StateData) : Prop :=
  CollisionFree Crypto.hash32Concat (pairsOf data.hashTree) (pairsOf data.hashTree) ∧
    ∀ p ∈ pairsOf data.hashTree, Crypto.hash32Concat p.1 p.2 ∉ data.hashTree.chunks

instance (data : StateData) : Decidable data.Honest := inferInstanceAs (Decidable (_ ∧ _))

/-- **A proof that verifies proves the value at its index.** -/
theorem nodeAt_of_verify {proof : SszProof} (honest : proof.Honest data)
    (verified : proof.verify (rootOf data.hashTree) = true) :
    data.nodeAt proof.gindex = some proof.leaf := by
  obtain ⟨positive, length, reached⟩ := verifyProofGindex_iff.mp verified
  obtain ⟨below, found, value⟩ := exists_subtree_of_climb reached honest.1 honest.2
  rw [length] at found
  rw [StateData.nodeAt, if_neg positive, found, Option.map_some, rootOf, value]

/-- **Every value of the state has a proof.** -/
theorem exists_proof (honest : data.Honest) (found : data.nodeAt g = some value)
    (small : g < 2 ^ 64) :
    ∃ proof : SszProof, proof.gindex = g ∧ proof.leaf = value ∧ proof.Honest data ∧
      proof.verify (rootOf data.hashTree) = true := by
  rw [StateData.nodeAt] at found
  split at found
  · cases found
  · next positive =>
    obtain ⟨below, isSub, rfl⟩ := Option.map_eq_some_iff.mp found
    obtain ⟨branch, length, reached, inside⟩ := @exists_branch _ Crypto.hash32Concat _ _ _ _ isSub
    exact ⟨⟨g, rootOf below, branch, small⟩, rfl, rfl,
      ⟨honest.1.mono (List.Subset.refl _) inside, fun p member => honest.2 p (inside member)⟩,
      verifyProofGindex_iff.mpr ⟨positive, length, reached⟩⟩

/-! ### The leaves of a collection -/

/-- A collection of the state whose items take blocks of eight leaves: its leaf in the top tree,
its items and the offset of the key in a block. -/
structure Collection (data : StateData) (α : Type) where
  top : Nat
  fields : α → List (Nat × Bytes32)
  block : α → List (HashTree Bytes32)
  items : List α
  keyOffset : Nat
  blocks : Blocks (2 ^ 3) fields block
  top_lt : top < 29
  tree : data.topTrees.getD top (chunk zeroChunk) = collectionTree (2 ^ 3) block items

namespace Collection

variable {data : StateData} {α : Type} (collection : Collection data α)

/-- The depth of the collection's subtree. -/
def depth : Nat := collectionDepth (2 ^ 3) collection.items.length

/-- The index is one of a leaf of the collection's subtree: its path begins with the path of the
subtree, and as many turns follow as the subtree is deep. -/
def Inside (g : Nat) : Prop := g / 2 ^ collection.depth = 2 * (32 + collection.top)

instance (g : Nat) : Decidable (collection.Inside g) := inferInstanceAs (Decidable (_ = _))

/-- The collection has an item with the key and the value is a leaf of its block. -/
def HasLeaf (key value : Bytes32) : Prop :=
  ∃ item ∈ collection.items, fieldLeaf (collection.fields item) collection.keyOffset = key ∧
    ∃ offset, offset < 8 ∧ value = fieldLeaf (collection.fields item) offset

theorem log2_of_inside {g : Nat} (inside : collection.Inside g) :
    Nat.log2 g = 6 + collection.depth := by
  have small := collection.top_lt
  rw [log2_of_div inside (by omega), log2_subtree (by omega)]

/-- The value at a leaf of the subtree is the leaf of the item there. -/
theorem nodeAt_of_inside {g : Nat} (inside : collection.Inside g) :
    data.nodeAt g = some (itemLeaf (2 ^ 3) collection.fields collection.items
      (g % 2 ^ collection.depth)) := by
  have small := collection.top_lt
  have positive : g ≠ 0 := by
    rintro rfl
    rw [Inside, Nat.zero_div] at inside
    omega
  have position : 2 * (32 + collection.top) / 2 ^ 1 % 2 ^ 5 = collection.top := by omega
  have left : (2 * (32 + collection.top)) % 2 = 0 := by omega
  have subtree : data.hashTree.subtree 6 (2 * (32 + collection.top)) =
      some (spread collection.depth (itemTree (2 ^ 3) collection.block collection.items)) := by
    rw [subtree_add _ 5 1, StateData.hashTree, subtree_spread, position, collection.tree]
    show some (if decide (2 * (32 + collection.top) % 2 = 1) = true then _ else _) = _
    rw [left]
    rfl
  rw [StateData.nodeAt, if_neg positive, collection.log2_of_inside inside, subtree_add, inside,
    subtree, Option.bind_some, subtree_spread, Option.map_some,
    rootOf_itemTree collection.blocks (by norm_num)]

/-- A group of eight leaves of the subtree is the block of one item. -/
theorem block_of_inside {item : α} {g f : Nat} (inside : collection.Inside g)
    (isItem : collection.items[g % 2 ^ collection.depth / 8]? = some item)
    (group : f / 8 = g / 8) :
    data.nodeAt f = some (fieldLeaf (collection.fields item) (f % 8)) := by
  -- there is an item, so the subtree has at least the eight leaves of a block
  obtain ⟨more, depth⟩ : ∃ more, 2 ^ collection.depth = 8 * 2 ^ more := by
    obtain ⟨isLess, -⟩ := List.getElem?_eq_some_iff.mp isItem
    have room := SszTree.blocks_le_capacity collection.items.length (2 ^ 3)
    obtain ⟨more, blocks⟩ := @exists_blocks (max (collection.items.length * 2 ^ 3) 1) 3 (by omega)
    exact ⟨more, (two_pow_collectionDepth _ _).trans blocks⟩
  have insideToo : collection.Inside f := by
    rw [Inside, depth, ← Nat.div_div_eq_div_mul, group, Nat.div_div_eq_div_mul, ← depth]
    exact inside
  have slot : f % 2 ^ collection.depth / 8 = g % 2 ^ collection.depth / 8 := by
    rw [depth, Nat.mod_mul_right_div_self, Nat.mod_mul_right_div_self, group]
  have offset : f % 2 ^ collection.depth % 8 = f % 8 := by
    rw [depth]
    exact Nat.mod_mod_of_dvd f (Dvd.intro _ rfl)
  have leaf : itemLeaf (2 ^ 3) collection.fields collection.items (f % 2 ^ collection.depth) =
      fieldLeaf (collection.fields item) (f % 2 ^ collection.depth % 8) :=
    itemLeaf_of_some (slot ▸ isItem)
  rw [collection.nodeAt_of_inside insideToo, leaf, offset]

/-- **The collection's own leaves are safe.** A group of eight of them with a key that is not zero
is the block of an item with that key. -/
theorem hasLeaf_of_inside {key value : Bytes32} (nonzero : key ≠ zeroChunk) {g f : Nat}
    (inside : collection.Inside g) (isKey : data.nodeAt g = some key)
    (offset : g % 8 = collection.keyOffset) (group : f / 8 = g / 8)
    (isValue : data.nodeAt f = some value) : collection.HasLeaf key value := by
  cases isItem : collection.items[g % 2 ^ collection.depth / 8]? with
  | none =>
    -- past the last item all leaves are zero
    have zero : itemLeaf (2 ^ 3) collection.fields collection.items (g % 2 ^ collection.depth) =
        zeroChunk := itemLeaf_of_none isItem
    rw [collection.nodeAt_of_inside inside, zero, Option.some.injEq] at isKey
    exact absurd isKey.symm nonzero
  | some item =>
    rw [collection.block_of_inside inside isItem rfl, offset, Option.some.injEq] at isKey
    rw [collection.block_of_inside inside isItem group, Option.some.injEq] at isValue
    exact ⟨item, List.mem_of_getElem? isItem, isKey, f % 8, Nat.mod_lt f (by norm_num),
      isValue.symm⟩

/-- Outside the leaves of the collection, a group of eight nodes with the key at its offset holds
only leaves of an item with that key. -/
def Confined (key : Bytes32) : Prop :=
  ∀ g f value, g < 2 ^ 64 → ¬ collection.Inside g → data.nodeAt g = some key →
    g % 8 = collection.keyOffset → f / 8 = g / 8 → data.nodeAt f = some value →
    collection.HasLeaf key value

/-- It is enough to look through the nodes of the state tree. -/
theorem confined_of_subtrees {key : Bytes32}
    (check : ∀ node ∈ data.hashTree.subtrees 1,
      collection.Inside node.1 ∨ rootOf node.2 ≠ key ∨ node.1 % 8 ≠ collection.keyOffset) :
    collection.Confined key := by
  intro g f value _ outside isKey offset _ _
  rw [StateData.nodeAt] at isKey
  split at isKey
  · cases isKey
  · next positive =>
    obtain ⟨below, found, value⟩ := Option.map_eq_some_iff.mp isKey
    rcases check _ (mem_subtrees positive found) with inside | other | elsewhere
    · exact absurd inside outside
    · exact absurd value other
    · exact absurd offset elsewhere

/-- **Soundness of the verifier for one key**, against every prover. -/
theorem sound_iff (honest : data.Honest) {key : Bytes32} (nonzero : key ≠ zeroChunk) :
    (∀ proof : KeyedFieldProof, proof.Honest data →
      proof.verify (rootOf data.hashTree) key 8 collection.keyOffset = true →
      collection.HasLeaf key proof.field.leaf) ↔ collection.Confined key := by
  constructor
  · intro sound g f value small outside isKey offset group isValue
    obtain ⟨keyProof, rfl, keyLeaf, keyHonest, keyVerified⟩ := exists_proof honest isKey small
    obtain ⟨fieldProof, rfl, rfl, fieldHonest, fieldVerified⟩ :=
      exists_proof honest isValue (by omega)
    exact sound ⟨fieldProof, keyProof⟩ ⟨fieldHonest, keyHonest⟩
      (KeyedFieldProof.verify_iff.mpr ⟨fieldVerified, keyVerified, keyLeaf, offset, group⟩)
  · intro confined proof proofHonest verified
    obtain ⟨fieldVerified, keyVerified, keyLeaf, offset, group⟩ :=
      KeyedFieldProof.verify_iff.mp verified
    have isValue := nodeAt_of_verify proofHonest.1 fieldVerified
    have isKey := nodeAt_of_verify proofHonest.2 keyVerified
    rw [keyLeaf] at isKey
    by_cases inside : collection.Inside proof.key.gindex
    · exact collection.hasLeaf_of_inside nonzero inside isKey offset group isValue
    · exact confined _ _ _ proof.key.gindex_lt inside isKey offset group isValue

end Collection

/-! ### Accounts and withdrawals -/

/-- The validator accounts, with the node key at its offset. -/
def StateData.accountCollection (data : StateData) :
    Collection data (Bytes32 × ValidatorAccount) where
  top := Leaf.validatorAccountsRoot
  fields := validatorFields
  block := validatorBlock
  items := data.validatorAccounts.entries
  keyOffset := validatorFieldNodePubkey
  blocks := blocks_validator
  top_lt := by decide
  tree := rfl

/-- The pending withdrawals, with the key at its offset. -/
def StateData.withdrawalCollection (data : StateData) : Collection data PendingWithdrawal where
  top := Leaf.withdrawalQueueRoot
  fields := withdrawalFields
  block := withdrawalBlock
  items := data.withdrawalQueue.iterAll
  keyOffset := withdrawalFieldPubkey
  blocks := blocks_withdrawal
  top_lt := by decide
  tree := rfl

/-- There is an account under the key, and the value is one of the eight leaves of its block. -/
def StateData.HasAccountLeaf (data : StateData) (key value : Bytes32) : Prop :=
  ∃ account, data.validatorAccounts.find? key = some account ∧
    ∃ offset, offset < validatorFieldsPerAccount ∧
      value = fieldLeaf (validatorFields (key, account)) offset

/-- There is a withdrawal with the key, and the value is one of the eight leaves of its block. -/
def StateData.HasWithdrawalLeaf (data : StateData) (key value : Bytes32) : Prop :=
  ∃ withdrawal ∈ data.withdrawalQueue.iterAll, withdrawal.pubkey = key ∧
    ∃ offset, offset < withdrawalFieldsPerItem ∧
      value = fieldLeaf (withdrawalFields withdrawal) offset

theorem hasAccountLeaf_iff :
    data.accountCollection.HasLeaf key value ↔ data.HasAccountLeaf key value := by
  constructor
  · rintro ⟨⟨own, account⟩, member, isKey, leaf⟩
    obtain rfl : own = key := isKey
    exact ⟨account, SortedMap.find?_eq_some_iff.mpr member, leaf⟩
  · rintro ⟨account, found, leaf⟩
    exact ⟨(key, account), SortedMap.find?_eq_some_iff.mp found, rfl, leaf⟩

theorem hasWithdrawalLeaf_iff :
    data.withdrawalCollection.HasLeaf key value ↔ data.HasWithdrawalLeaf key value := Iff.rfl

/-- The root that a capture freezes is the one of the state's hash tree. -/
theorem stateRoot_captureStateRoot {s : ConsensusState} (holds : s.Committed)
    (elBlockNumber : Nat) :
    (s.captureStateRoot elBlockNumber).stateRoot = rootOf s.toStateData.hashTree := by
  obtain ⟨schedule, sync⟩ := holds
  exact root_eq_of_inSync (LiveState.InSync.refreshSchedule sync)

end Keyed

/-- **When keyed field proofs are sound.** For a key that is not zero, no prover can convince the
verifier of a leaf that is not one of the account under the key, exactly when the key is confined:
wherever it stands at offset six of a group of eight nodes outside the leaves of the accounts, the
group holds only leaves of its account. The same for withdrawals, with offset four. Of the pair
hash only this is used, that the pairs hashed by the state and by the verifier have no collision
and that their hashes are no raw leaves of the state. -/
theorem keyedProof_sound_iff [Crypto] (s : ConsensusState) (holds : s.Committed)
    (honest : s.toStateData.Honest) (elBlockNumber : Nat) (key : Bytes32)
    (nonzero : key ≠ zeroChunk) :
    ((∀ proof : KeyedFieldProof, proof.Honest s.toStateData →
        proof.verify (s.captureStateRoot elBlockNumber).stateRoot key validatorFieldsPerAccount
          validatorFieldNodePubkey = true →
        s.toStateData.HasAccountLeaf key proof.field.leaf) ↔
      s.toStateData.accountCollection.Confined key) ∧
    ((∀ proof : KeyedFieldProof, proof.Honest s.toStateData →
        proof.verify (s.captureStateRoot elBlockNumber).stateRoot key withdrawalFieldsPerItem
          withdrawalFieldPubkey = true →
        s.toStateData.HasWithdrawalLeaf key proof.field.leaf) ↔
      s.toStateData.withdrawalCollection.Confined key) := by
  simp only [stateRoot_captureStateRoot holds, ← hasAccountLeaf_iff, ← hasWithdrawalLeaf_iff]
  exact ⟨s.toStateData.accountCollection.sound_iff honest nonzero,
    s.toStateData.withdrawalCollection.sound_iff honest nonzero⟩

attribute [local instance] Crypto.mixing

/-- Two validators are scheduled for epoch five; there is one account and no withdrawal. -/
def scheduledData : StateData :=
  { filledData with
    protocolParamChanges := []
    addedValidators := SortedMap.empty.insert 5
      [⟨⟨FixedBytes.fill 32 2, rfl⟩, ⟨FixedBytes.fill 48 3, rfl⟩⟩,
       ⟨⟨FixedBytes.fill 32 4, rfl⟩, ⟨FixedBytes.fill 48 5, rfl⟩⟩]
    removedValidators := []
    pendingExecutionRequests := [] }

def scheduledState : ConsensusState := ConsensusState.ofData scheduledData 0 none

/-- The second validator's key leaf and its epoch leaf, as the state's own generator proves them. -/
def scheduledProof : Option KeyedFieldProof := do
  let field ← (scheduledState.captureStateRoot 0).proofTree.generateAddedValidatorFieldProof 1 2
  let key ← (scheduledState.captureStateRoot 0).proofTree.generateAddedValidatorFieldProof 1 0
  return { field, key }

theorem honest_scheduledData : scheduledData.Honest := by decide +kernel

/-- The key of the second validator. -/
def scheduledKey : Bytes32 := FixedBytes.fill 32 4

theorem verify_scheduledProof : scheduledProof.map (fun proof =>
      (decide (proof.Honest scheduledData),
        proof.verify (scheduledState.captureStateRoot 0).stateRoot scheduledKey
          withdrawalFieldsPerItem withdrawalFieldPubkey)) = some (true, true) := by
  decide +kernel

theorem exists_scheduledProof : ∃ proof, scheduledProof = some proof ∧
    proof.Honest scheduledData ∧
    proof.verify (scheduledState.captureStateRoot 0).stateRoot scheduledKey withdrawalFieldsPerItem
      withdrawalFieldPubkey = true := by
  obtain ⟨proof, generated, facts⟩ := Option.map_eq_some_iff.mp verify_scheduledProof
  rw [Prod.mk.injEq, decide_eq_true_eq] at facts
  exact ⟨proof, generated, facts.1, facts.2⟩

theorem not_hasWithdrawalLeaf_scheduledData (value : Bytes32) :
    ¬ scheduledData.HasWithdrawalLeaf scheduledKey value := by
  rintro ⟨withdrawal, member, -⟩
  cases member

/-- The key of the account is nowhere else at the offset of a node key, and is safe; the key of the
second scheduled validator is not. -/
theorem keyedProof_sound_iff_scheduled :
    (scheduledData.validatorAccounts.contains (FixedBytes.fill 32 9) = true ∧
      ∀ proof : KeyedFieldProof, proof.Honest scheduledData →
        proof.verify (scheduledState.captureStateRoot 0).stateRoot (FixedBytes.fill 32 9)
          validatorFieldsPerAccount validatorFieldNodePubkey = true →
        scheduledData.HasAccountLeaf (FixedBytes.fill 32 9) proof.field.leaf) ∧
    ¬ scheduledData.withdrawalCollection.Confined scheduledKey := by
  refine ⟨⟨by decide, ?_⟩, fun confined => ?_⟩
  · have sound := keyedProof_sound_iff scheduledState (committed_ofData _ _ _) honest_scheduledData 0
      (FixedBytes.fill 32 9) (by decide)
    exact sound.1.mpr (Collection.confined_of_subtrees _ (by decide +kernel))
  · obtain ⟨proof, -, honest, verified⟩ := exists_scheduledProof
    have sound := keyedProof_sound_iff scheduledState (committed_ofData _ _ _) honest_scheduledData 0
      scheduledKey (by decide)
    exact not_hasWithdrawalLeaf_scheduledData _ (sound.2.mpr confined proof honest verified)

/-- **A scheduled validator passes for a withdrawal.** The key of the second scheduled validator
lies at offset four of its group of eight leaves, where a withdrawal has its key. The proofs that
the state generates for the leaves of that validator are accepted as a proof of a field of a
withdrawal, and there is no withdrawal at all. -/
theorem keyedProof_accepts_scheduled :
    scheduledState.Committed ∧ scheduledData.Honest ∧ Crypto.nodeKeyDecodes scheduledKey = true ∧
      scheduledKey ≠ zeroChunk ∧
      ∃ proof, scheduledProof = some proof ∧ proof.Honest scheduledData ∧
        proof.verify (scheduledState.captureStateRoot 0).stateRoot scheduledKey
          withdrawalFieldsPerItem withdrawalFieldPubkey = true ∧
        ¬ scheduledState.toStateData.HasWithdrawalLeaf scheduledKey proof.field.leaf := by
  obtain ⟨proof, generated, honest, verified⟩ := exists_scheduledProof
  exact ⟨committed_ofData _ _ _, honest_scheduledData, rfl, by decide, proof, generated, honest,
    verified, not_hasWithdrawalLeaf_scheduledData _⟩

end Summit
