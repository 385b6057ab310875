/-
**Generated proofs verify and prove the right leaf.**

A branch of an array tree climbs from a node to the root (`climb_siblings`). A proof of a
collection joins two such branches with the length in between, and its index joins the two paths,
so verification climbs through the subtree, over the length and through the top tree to the state
root (`verify_collection`). From there the proofs of leaves and of blocks follow for every
collection at once, and every public generator is one of these two at its own collection.
-/

import Mathlib.Data.Nat.Bitwise
import Summit.Proof.KeyedProof

set_option linter.unusedSectionVars false

namespace Summit

open Bytes HeapTree HashTree

section Generated

variable [Crypto]

/-! ### Branches of an array tree -/

variable {i g : Nat} {leaf : Nat → Bytes32}

theorem xor_one_of_even (even : i % 2 = 0) : i ^^^ 1 = 2 * (i / 2) + 1 := by
  have low : (i ^^^ 1) % 2 = (i + 1) % 2 := Nat.xor_mod_two_eq
  have high : (i ^^^ 1) / 2 = i / 2 ^^^ 1 / 2 := Nat.xor_div_two
  rw [show 1 / 2 = 0 from rfl, Nat.xor_zero] at high
  omega

theorem xor_one_of_odd (odd : i % 2 ≠ 0) : i ^^^ 1 = 2 * (i / 2) := by
  have low : (i ^^^ 1) % 2 = (i + 1) % 2 := Nat.xor_mod_two_eq
  have high : (i ^^^ 1) / 2 = i / 2 ^^^ 1 / 2 := Nat.xor_div_two
  rw [show 1 / 2 = 0 from rfl, Nat.xor_zero] at high
  omega

theorem SszTree.length_siblings (tree : SszTree) (levels i : Nat) :
    (tree.siblings levels i).length = levels := by
  induction levels generalizing i with
  | zero => rfl
  | succ levels ih => rw [siblings, List.length_cons, ih]

/-- A node and its sibling hash to their parent, on whichever side the node is. -/
theorem climbStep_sibling {tree : SszTree} {capacity : Nat} (spans : tree.Over capacity leaf)
    (inner : 2 ≤ i) (inside : i < 2 * capacity) (parity : g % 2 = i % 2) :
    (climbStep Crypto.hash32Concat (tree.getNode i, g) (tree.getNode (i ^^^ 1))).1 =
      tree.getNode (i / 2) := by
  have sound := spans.isTree.sound (i / 2) (by omega) (by omega)
  have parent : tree.getNode (i / 2) =
      Crypto.hash32Concat (tree.getNode (2 * (i / 2))) (tree.getNode (2 * (i / 2) + 1)) := sound
  rw [parent, climbStep, input]
  by_cases even : i % 2 = 0
  · rw [if_pos (parity.trans even), xor_one_of_even even, show 2 * (i / 2) = i by omega]
  · rw [if_neg (by omega), xor_one_of_odd even, show 2 * (i / 2) + 1 = i by omega]

/-- **A branch of the array climbs to its root**, along any index with the same turns. -/
theorem climb_siblings {tree : SszTree} {capacity : Nat} (spans : tree.Over capacity leaf)
    (levels : Nat) (level : i / 2 ^ levels = 1) (inside : i < 2 * capacity)
    (turns : g % 2 ^ levels = i % 2 ^ levels) :
    climb Crypto.hash32Concat (tree.getNode i) g (tree.siblings levels i) =
      (tree.getNode 1, g / 2 ^ levels) := by
  induction levels generalizing i g with
  | zero =>
    rw [pow_zero, Nat.div_one] at level ⊢
    rw [level]
    rfl
  | succ levels ih =>
    rw [pow_succ, Nat.mul_comm] at level turns
    rw [Nat.mod_mul, Nat.mod_mul] at turns
    rw [← Nat.div_div_eq_div_mul] at level
    have inner : 2 ≤ i := by
      by_contra low
      rw [show i / 2 = 0 by omega, Nat.zero_div] at level
      omega
    rw [SszTree.siblings, climb_cons, climbStep_sibling spans inner inside (by omega),
      ih level (by omega) (by omega), pow_succ, Nat.mul_comm, Nat.div_div_eq_div_mul]

/-! ### Branches of the state tree -/

/-- The subtree of a collection with blocks of `2 ^ blockDepth` leaves, under its leaf of the top
tree. -/
structure Holds {α : Type} (tree : SszStateTree) (top : Nat) (subtree : SszTree) (count : Nat)
    (blockDepth : Nat) (fields : α → List (Nat × Bytes32)) (items : List α) : Prop where
  top_lt : top < 32
  topTree : ∃ leaf, tree.top.Over 32 leaf
  topLeaf : tree.top.getLeaf top = mixInLength subtree.root count
  commits : subtree.Commits (2 ^ blockDepth) fields items
  counted : count = items.length
  /-- The indices of the subtree's leaves fit in 64 bits. -/
  fits : collectionDepth (2 ^ blockDepth) items.length ≤ 57

variable {α : Type} {tree : SszStateTree} {top : Nat} {subtree : SszTree} {count blockDepth : Nat}
  {fields : α → List (Nat × Bytes32)} {items : List α}

theorem Holds.capacity (holds : Holds tree top subtree count blockDepth fields items) :
    subtree.capacity = 2 ^ collectionDepth (2 ^ blockDepth) items.length :=
  holds.commits.capacity_eq.trans (two_pow_collectionDepth _ _).symm

theorem Holds.depth (holds : Holds tree top subtree count blockDepth fields items) :
    subtree.depth = collectionDepth (2 ^ blockDepth) items.length := by
  rw [holds.commits.depth_eq, collectionDepth]

theorem Holds.root (holds : Holds tree top subtree count blockDepth fields items) :
    subtree.root = subtree.getNode 1 := by
  rw [SszTree.root, if_neg]
  rw [holds.capacity]
  exact (Nat.two_pow_pos _).ne'

variable {levels slot leafIndex shift offset : Nat} {item a : α} {p : α → Bool} {list : List α}
  {accounts : SortedMap Bytes32 ValidatorAccount} {key : Bytes32}

/-- **Verification climbs through both trees.** The node `i` of the subtree, `levels` below its
root, has the index that goes to the subtree and then the way of `i`. -/
theorem verify_collection (holds : Holds tree top subtree count blockDepth fields items) {i g : Nat}
    (level : i / 2 ^ levels = 1) (inside : i < 2 * subtree.capacity)
    (index : g = (32 + top) * 2 ^ (levels + 1) + i % 2 ^ levels) :
    SszTree.verifyProofGindex tree.root g (subtree.getNode i)
      (tree.collectionBranch top (subtree.siblings levels i) count) = true := by
  obtain ⟨leaf, spansTop⟩ := holds.topTree
  have small := holds.top_lt
  have rest := Nat.mod_lt i (Nat.two_pow_pos levels)
  have spread : g = 2 ^ levels * (2 * (32 + top)) + i % 2 ^ levels := by
    rw [index, pow_succ]
    ring
  have above : g / 2 ^ levels = 2 * (32 + top) := by
    rw [spread, Nat.mul_add_div (Nat.two_pow_pos levels), Nat.div_eq_of_lt rest, Nat.add_zero]
  have turns : g % 2 ^ levels = i % 2 ^ levels := by
    rw [spread, Nat.mul_add_mod, Nat.mod_mod]
  have depthTop : tree.top.depth = 5 := spansTop.depth_eq.trans (by decide)
  have capacityTop : tree.top.capacity = 32 := spansTop.capacity_eq
  have nonzero : g ≠ 0 := by
    rintro rfl
    rw [Nat.zero_div] at above
    omega
  rw [verifyProofGindex_iff]
  refine ⟨nonzero, ?_, ?_⟩
  · rw [log2_of_div above (by omega), log2_subtree small, SszStateTree.collectionBranch,
      List.length_append, List.length_append, SszTree.length_siblings, SszTree.generateProof,
      SszTree.length_siblings, depthTop, List.length_singleton]
    omega
  · -- up the subtree
    have spans : subtree.Over subtree.capacity (itemLeaf (2 ^ blockDepth) fields items) := by
      rw [holds.commits.capacity_eq]
      exact holds.commits
    have low := climb_siblings spans levels level inside turns
    -- over the length
    have middle : climb Crypto.hash32Concat (subtree.getNode 1) (2 * (32 + top)) [hashU64 count] =
        (tree.top.getNode (32 + top), 32 + top) := by
      have leaf : tree.top.getNode (32 + top) = mixInLength subtree.root count := by
        rw [← holds.topLeaf, SszTree.getLeaf, capacityTop]
      rw [leaf, holds.root, climb_cons, climbStep, input, if_pos (by omega), mixInLength,
        Nat.mul_div_cancel_left _ (by norm_num)]
      rfl
    -- up the top tree
    have high := @climb_siblings _ (32 + top) (32 + top) _ _ _ spansTop 5 (by omega) (by omega) rfl
    rw [SszStateTree.collectionBranch, climb_append, climb_append, low, above, middle,
      SszTree.generateProof, depthTop, capacityTop, high, SszStateTree.root, SszTree.root, if_neg]
    rw [capacityTop]
    norm_num

/-- The index of a node of a collection, computed with shifts in 64 bits. -/
theorem gindex_eq (small : top < 32) (inside : slot < 2 ^ levels) (fits : levels ≤ 57) :
    ((((1 <<< 5) + top) <<< (levels + 1)) ||| slot) % 2 ^ 64 =
      (32 + top) * 2 ^ (levels + 1) + slot := by
  have room : slot < 2 ^ (levels + 1) := by
    rw [pow_succ]
    omega
  rw [← Nat.shiftLeft_add_eq_or_of_lt room, Nat.shiftLeft_eq, show 1 <<< 5 = 32 from rfl]
  refine Nat.mod_eq_of_lt ?_
  have most : (32 + top) * 2 ^ (levels + 1) + slot < 2 ^ 6 * 2 ^ (levels + 1) := by nlinarith
  refine lt_of_lt_of_le most ?_
  rw [← pow_add]
  exact Nat.pow_le_pow_right (by norm_num) (by omega)

/-! ### Proofs of leaves and of blocks -/

/-- The generator gives a proof of the leaf. -/
def Proves (root : Bytes32) (proof : Option SszProof) (leaf : Bytes32) : Prop :=
  ∃ p, proof = some p ∧ p.verify root = true ∧ p.leaf = leaf

theorem gindex_leafProof (holds : Holds tree top subtree count blockDepth fields items)
    (inside : leafIndex < subtree.capacity) :
    (tree.leafProof top subtree leafIndex count).gindex =
      (32 + top) * 2 ^ (collectionDepth (2 ^ blockDepth) items.length + 1) + leafIndex := by
  obtain ⟨leaf, spansTop⟩ := holds.topTree
  have depthTop : tree.top.depth = 5 := spansTop.depth_eq.trans (by decide)
  rw [holds.capacity] at inside
  show ((((1 <<< tree.top.depth) + top) <<< (subtree.depth + 1)) ||| leafIndex) % 2 ^ 64 = _
  rw [depthTop, holds.depth]
  exact gindex_eq holds.top_lt inside holds.fits

theorem verify_leafProof (holds : Holds tree top subtree count blockDepth fields items)
    (inside : leafIndex < subtree.capacity) :
    (tree.leafProof top subtree leafIndex count).verify tree.root = true ∧
      (tree.leafProof top subtree leafIndex count).leaf =
        itemLeaf (2 ^ blockDepth) fields items leafIndex := by
  have index := gindex_leafProof holds inside
  have depth := holds.depth
  have capacity := holds.capacity
  rw [capacity] at inside
  refine ⟨?_, ?_⟩
  · have way : (subtree.capacity + leafIndex) / 2 ^ subtree.depth = 1 := by
      rw [capacity, depth, Nat.add_div_left _ (Nat.two_pow_pos _), Nat.div_eq_of_lt inside]
    have rest : (subtree.capacity + leafIndex) % 2 ^ subtree.depth = leafIndex := by
      rw [capacity, depth, Nat.add_mod_left, Nat.mod_eq_of_lt inside]
    refine verify_collection holds way (by rw [capacity]; omega) ?_
    rw [rest, depth]
    exact index
  · have leaves := holds.commits.isTree.leaves leafIndex
    rw [← two_pow_collectionDepth] at leaves
    show subtree.getLeaf leafIndex = _
    rw [SszTree.getLeaf, capacity]
    exact leaves inside

/-- The leaves of one block in order. -/
def blockLeaves (width : Nat) (fields : List (Nat × Bytes32)) : List Bytes32 :=
  (List.range width).map (fieldLeaf fields)

/-- A subtree is deep enough for the blocks it has. -/
theorem exists_levels (blockDepth : Nat) {items : Nat} (inside : slot < items) :
    ∃ levels, collectionDepth (2 ^ blockDepth) items = levels + blockDepth ∧ slot < 2 ^ levels := by
  have room := SszTree.blocks_le_capacity items (2 ^ blockDepth)
  have least : (slot + 1) * 2 ^ blockDepth ≤ items * 2 ^ blockDepth :=
    Nat.mul_le_mul_right _ inside
  have one : 2 ^ blockDepth ≤ (slot + 1) * 2 ^ blockDepth := Nat.le_mul_of_pos_left _ slot.succ_pos
  obtain ⟨levels, blocks⟩ := exists_blocks ((one.trans least).trans room)
  have capacity := two_pow_collectionDepth (2 ^ blockDepth) items
  rw [blocks, ← pow_add] at capacity
  refine ⟨levels, (Nat.pow_right_injective le_rfl capacity).trans (Nat.add_comm _ _), ?_⟩
  rw [blocks] at room
  exact Nat.lt_of_succ_le (Nat.le_of_mul_le_mul_right ((least.trans room).trans_eq
    (Nat.mul_comm _ _)) (Nat.two_pow_pos blockDepth))

theorem getNode_block (holds : Holds tree top subtree count blockDepth fields items)
    (found : items[slot]? = some item)
    (deep : collectionDepth (2 ^ blockDepth) items.length = levels + blockDepth) :
    subtree.getNode (2 ^ levels + slot) =
      merkleize (blockLeaves (2 ^ blockDepth) (fields item)) := by
  obtain ⟨inside, rfl⟩ := List.getElem?_eq_some_iff.mp found
  have isTree := holds.commits.isTree
  rw [← two_pow_collectionDepth] at isTree
  have room := SszTree.blocks_le_capacity items.length (2 ^ blockDepth)
  rw [← two_pow_collectionDepth] at room
  have least : (slot + 1) * 2 ^ blockDepth ≤ items.length * 2 ^ blockDepth :=
    Nat.mul_le_mul_right _ inside
  have last : slot * 2 ^ blockDepth + 2 ^ blockDepth ≤
      2 ^ collectionDepth (2 ^ blockDepth) items.length := by
    rw [← Nat.succ_mul]
    exact least.trans room
  have first : (2 ^ levels + slot) * 2 ^ blockDepth =
      2 ^ collectionDepth (2 ^ blockDepth) items.length + slot * 2 ^ blockDepth := by
    rw [deep, pow_add]
    ring
  have leaves := @node_eq_root_spread _ _ _
    (fun j => chunk (itemLeaf (2 ^ blockDepth) fields items j)) _ _ _ _ isTree (fun _ _ => rfl)
    blockDepth _ (Nat.le_add_right_of_le Nat.one_le_two_pow) first last
  have length : (blockLeaves (2 ^ blockDepth) (fields items[slot])).length = 2 ^ blockDepth := by
    rw [blockLeaves, List.length_map, List.length_range]
  have power : nextPowerOfTwo (2 ^ blockDepth) = 2 ^ blockDepth :=
    le_antisymm (nextPowerOfTwo_le_pow le_rfl) (le_nextPowerOfTwo _)
  rw [← rootOf_chunkTree, chunkTree, length, power, Nat.log2_two_pow]
  refine leaves.trans (root_spread_congr fun j small => ?_)
  show itemLeaf _ _ _ _ = (blockLeaves _ _).getD j zeroChunk
  rw [itemLeaf, block_slot small, Nat.mul_add_mod_of_lt small, found, List.getD_eq_getElem?_getD,
    blockLeaves, List.getElem?_map, List.getElem?_range small]
  rfl

theorem Holds.blockDepth_le (holds : Holds tree top subtree count blockDepth fields items)
    (nonempty : items ≠ []) : blockDepth ≤ subtree.depth := by
  obtain ⟨levels, deep, -⟩ := exists_levels blockDepth (List.length_pos_iff.mpr nonempty)
  rw [holds.depth, deep]
  exact Nat.le_add_left _ _

theorem verify_blockProof (holds : Holds tree top subtree count blockDepth fields items)
    (found : items[slot]? = some item) (distance : shift + blockDepth = subtree.depth + 1) :
    (tree.blockProof top subtree (2 ^ blockDepth) shift slot count).verify tree.root = true ∧
      (tree.blockProof top subtree (2 ^ blockDepth) shift slot count).leaf =
        merkleize (blockLeaves (2 ^ blockDepth) (fields item)) := by
  obtain ⟨inside, -⟩ := List.getElem?_eq_some_iff.mp found
  obtain ⟨levels, deep, room⟩ := exists_levels blockDepth inside
  obtain ⟨leaf, spansTop⟩ := holds.topTree
  have depthTop : tree.top.depth = 5 := spansTop.depth_eq.trans (by decide)
  have nodeIndex : subtree.capacity / 2 ^ blockDepth + slot = 2 ^ levels + slot := by
    rw [holds.capacity, deep, pow_add, Nat.mul_div_cancel _ (Nat.two_pow_pos _)]
  have shifts : shift = levels + 1 := by
    rw [holds.depth] at distance
    omega
  have log : Nat.log2 (2 ^ levels + slot) = levels := by
    rw [Nat.log2_eq_iff (by omega), pow_succ]
    omega
  have fits := holds.fits
  subst shifts
  refine ⟨?_, ?_⟩
  · show SszTree.verifyProofGindex _
      (((((1 <<< tree.top.depth) + top) <<< (levels + 1)) ||| slot) % 2 ^ 64)
      (subtree.getNode (subtree.capacity / 2 ^ blockDepth + slot))
      (tree.collectionBranch top (subtree.siblings
        (Nat.log2 (subtree.capacity / 2 ^ blockDepth + slot)) _) count) = true
    rw [nodeIndex, log, depthTop, gindex_eq holds.top_lt room (by omega)]
    refine verify_collection holds ?_ ?_ ?_
    · rw [Nat.add_div_left _ (Nat.two_pow_pos _), Nat.div_eq_of_lt room]
    · rw [holds.capacity, deep, pow_add]
      have least := Nat.le_mul_of_pos_right (2 ^ levels) (Nat.two_pow_pos blockDepth)
      omega
    · rw [Nat.add_mod_left, Nat.mod_eq_of_lt room]
  · show subtree.getNode (subtree.capacity / 2 ^ blockDepth + slot) = _
    rw [nodeIndex]
    exact getNode_block holds found deep

/-- The proofs of a collection that is addressed by position. -/
structure ListProofs (root : Bytes32) (width : Nat) (fields : α → List (Nat × Bytes32))
    (items : List α) (itemProof : Nat → Option SszProof)
    (fieldProof : Nat → Nat → Option SszProof) : Prop where
  item : ∀ i item, items[i]? = some item →
    Proves root (itemProof i) (merkleize (blockLeaves width (fields item)))
  field : ∀ i item offset, items[i]? = some item → offset < width →
    Proves root (fieldProof i offset) (fieldLeaf (fields item) offset)
  no_item : ∀ i, items.length ≤ i → itemProof i = none
  no_field : ∀ i offset, items.length ≤ i ∨ width ≤ offset → fieldProof i offset = none

theorem Holds.leafIndex_lt (holds : Holds tree top subtree count blockDepth fields items)
    (inside : slot < items.length) (small : offset < 2 ^ blockDepth) :
    slot * 2 ^ blockDepth + offset < subtree.capacity := by
  rw [holds.commits.capacity_eq]
  refine lt_of_lt_of_le ?_ (SszTree.blocks_le_capacity items.length (2 ^ blockDepth))
  calc slot * 2 ^ blockDepth + offset < slot * 2 ^ blockDepth + 2 ^ blockDepth :=
        Nat.add_lt_add_left small _
    _ = (slot + 1) * 2 ^ blockDepth := (Nat.succ_mul _ _).symm
    _ ≤ items.length * 2 ^ blockDepth := Nat.mul_le_mul_right _ inside

theorem verify_fieldProof (holds : Holds tree top subtree count blockDepth fields items)
    (found : items[slot]? = some item) (small : offset < 2 ^ blockDepth) :
    Proves tree.root (some (tree.leafProof top subtree (slot * 2 ^ blockDepth + offset) count))
      (fieldLeaf (fields item) offset) := by
  obtain ⟨inside, -⟩ := List.getElem?_eq_some_iff.mp found
  obtain ⟨verified, leaf⟩ := verify_leafProof holds (holds.leafIndex_lt inside small)
  refine ⟨_, rfl, verified, leaf.trans ?_⟩
  rw [itemLeaf, block_slot small, Nat.mul_add_mod_of_lt small, found]

/-- **Every collection has its proofs.** -/
theorem listProofs (holds : Holds tree top subtree count blockDepth fields items)
    (distance : items ≠ [] → shift + blockDepth = subtree.depth + 1) :
    ListProofs tree.root (2 ^ blockDepth) fields items
      (tree.itemProof top subtree (2 ^ blockDepth) shift count)
      (tree.itemFieldProof top subtree (2 ^ blockDepth) count) where
  item i item found := by
    obtain ⟨inside, -⟩ := List.getElem?_eq_some_iff.mp found
    rw [SszStateTree.itemProof, if_neg (by rw [holds.counted]; omega)]
    obtain ⟨verified, leaf⟩ := verify_blockProof holds found
      (distance (List.ne_nil_of_length_pos (by omega)))
    exact ⟨_, rfl, verified, leaf⟩
  field i item offset found small := by
    obtain ⟨inside, -⟩ := List.getElem?_eq_some_iff.mp found
    rw [SszStateTree.itemFieldProof, if_neg (by rw [holds.counted]; omega)]
    exact verify_fieldProof holds found small
  no_item i past := by
    rw [SszStateTree.itemProof, if_pos (by rw [holds.counted]; omega)]
  no_field i offset past := by
    rw [SszStateTree.itemFieldProof, if_pos (by rw [holds.counted]; omega)]

/-- The generator gives a keyed proof of the leaf. -/
def KeyedProves (root : Bytes32) (proof : Option KeyedFieldProof) (key : Bytes32)
    (fieldsPerItem keyFieldIndex : Nat) (leaf : Bytes32) : Prop :=
  ∃ p, proof = some p ∧ p.verify root key fieldsPerItem keyFieldIndex = true ∧ p.field.leaf = leaf

/-- Two fields of one block of eight are bound to each other. -/
theorem verify_keyed (holds : Holds tree top subtree count 3 fields items) {keyOffset : Nat}
    (found : items[slot]? = some item) (small : offset < 8) (keySmall : keyOffset < 8) :
    KeyedProves tree.root
      (some ⟨tree.leafProof top subtree (slot * 8 + offset) count,
        tree.leafProof top subtree (slot * 8 + keyOffset) count⟩)
      (fieldLeaf (fields item) keyOffset) 8 keyOffset (fieldLeaf (fields item) offset) := by
  obtain ⟨inside, -⟩ := List.getElem?_eq_some_iff.mp found
  obtain ⟨levels, deep, -⟩ := exists_levels 3 inside
  obtain ⟨_, field, verified, leaf⟩ := verify_fieldProof holds found small
  obtain ⟨_, key, keyVerified, keyLeaf⟩ := verify_fieldProof holds found keySmall
  cases Option.some.inj field
  cases Option.some.inj key
  have index : ∀ rest, rest < 8 →
      (tree.leafProof top subtree (slot * 8 + rest) count).gindex =
        8 * ((32 + top) * 2 ^ (levels + 1) + slot) + rest := by
    intro rest less
    refine (gindex_leafProof holds (holds.leafIndex_lt inside less)).trans ?_
    rw [deep, pow_succ, pow_succ, pow_add]
    ring
  refine ⟨_, rfl, KeyedFieldProof.verify_iff.mpr ⟨verified, keyVerified, keyLeaf, ?_, ?_⟩, leaf⟩
  · show (tree.leafProof top subtree (slot * 8 + keyOffset) count).gindex % 8 = keyOffset
    rw [index keyOffset keySmall]
    omega
  · show (tree.leafProof top subtree (slot * 8 + offset) count).gindex / 8 =
      (tree.leafProof top subtree (slot * 8 + keyOffset) count).gindex / 8
    rw [index offset small, index keyOffset keySmall]
    omega

/-! ### Lookups by key -/

theorem exists_findIdx?_of_find? (found : list.find? p = some a) :
    ∃ i, list.findIdx? p = some i ∧ list[i]? = some a := by
  induction list with
  | nil => cases found
  | cons first rest ih =>
    rw [List.find?_cons] at found
    cases here : p first with
    | true =>
      rw [here] at found
      exact ⟨0, by rw [List.findIdx?_cons, here]; rfl, found⟩
    | false =>
      rw [here] at found
      obtain ⟨i, index, isAt⟩ := ih found
      exact ⟨i + 1, by rw [List.findIdx?_cons, here, index]; rfl, isAt⟩

theorem exists_findIdx?_of_mem (member : a ∈ list) (holds : p a = true) :
    ∃ i b, list.findIdx? p = some i ∧ list[i]? = some b ∧ p b = true := by
  obtain ⟨b, found⟩ := Option.isSome_iff_exists.mp (List.find?_isSome.mpr ⟨a, member, holds⟩)
  obtain ⟨i, index, isAt⟩ := exists_findIdx?_of_find? found
  exact ⟨i, b, index, isAt, List.find?_some found⟩

/-- The index of the withdrawals maps a key to its first entry. -/
theorem find?_pubkeyIndexOf (entries : List PendingWithdrawal) (pubkey : Bytes32) :
    (SszStateTree.pubkeyIndexOf entries).find? pubkey =
      entries.findIdx? fun w => w.pubkey = pubkey := by
  induction entries using List.reverseRecOn with
  | nil => rfl
  | append_singleton entries entry ih =>
    rw [SszStateTree.pubkeyIndexOf_concat, SszStateTree.indexSlot, List.findIdx?_append, ← ih]
    by_cases same : entry.pubkey = pubkey
    · subst same
      cases known : (SszStateTree.pubkeyIndexOf entries).find? entry.pubkey with
      | none => simp [List.findIdx?_cons]
      | some slot => simp [known]
    · have kept : ∀ slot, ((SszStateTree.pubkeyIndexOf entries).insert entry.pubkey slot).find?
          pubkey = (SszStateTree.pubkeyIndexOf entries).find? pubkey :=
        fun slot => SortedMap.find?_insert_of_ne _ _ (Ne.symm same)
      cases known : (SszStateTree.pubkeyIndexOf entries).find? entry.pubkey with
      | none => simp [List.findIdx?_cons, same, kept]
      | some slot => simp [List.findIdx?_cons, same]

theorem findIdx?_keys {account : ValidatorAccount} (found : accounts.find? key = some account) :
    ∃ slot, SszStateTree.getValidatorIndex accounts.keys key = some slot ∧
      accounts.entries[slot]? = some (key, account) := by
  have first : accounts.entries.find? (fun entry => entry.1 = key) = some (key, account) := by
    obtain ⟨⟨own, value⟩, isFirst, rfl⟩ := Option.map_eq_some_iff.mp found
    obtain rfl : own = key := by simpa using List.find?_some isFirst
    convert isFirst
  obtain ⟨slot, index, isAt⟩ := exists_findIdx?_of_find? first
  refine ⟨slot, ?_, isAt⟩
  rw [SszStateTree.getValidatorIndex, SortedMap.keys, List.findIdx?_map]
  exact index

theorem findIdx?_keys_none (absent : accounts.find? key = none) :
    SszStateTree.getValidatorIndex accounts.keys key = none := by
  rw [SszStateTree.getValidatorIndex, List.findIdx?_eq_none_iff]
  intro other member
  refine decide_eq_false fun same => ?_
  rw [same, SortedMap.mem_keys, absent] at member
  cases member

theorem validatorFieldProof_eq {data : StateData} {fieldIndex : Nat}
    (index : SszStateTree.getValidatorIndex data.validatorAccounts.keys key = some slot)
    (small : fieldIndex < validatorFieldsPerAccount) :
    tree.generateValidatorFieldProof key fieldIndex data.validatorAccounts.keys =
      some (tree.leafProof Leaf.validatorAccountsRoot tree.validatorTree (slot * 8 + fieldIndex)
        tree.validatorCount) := by
  rw [SszStateTree.generateValidatorFieldProof, if_pos small, index]
  rfl

/-- The first added validator with a key is at the same place in the list with the epochs. -/
theorem findIdx?_added (validators : SortedMap Nat (List AddedValidator)) (key : PublicKey) :
    (validators.values.flatMap id).findIdx? (fun av => av.nodeKey = key) =
      (SszStateTree.flattenAdded validators).findIdx? fun item => item.2.nodeKey = key := by
  have values : validators.values.flatMap id =
      (SszStateTree.flattenAdded validators).map Prod.snd := by
    rw [SszStateTree.flattenAdded, List.map_flatMap, SortedMap.values, List.flatMap_map]
    refine List.flatMap_congr fun entry _ => ?_
    rw [List.map_map]
    exact (List.map_id _).symm
  rw [values, List.findIdx?_map]
  rfl

/-! ### All proofs of a state -/

/-- The indices of all leaves fit in 64 bits. -/
structure StateData.IndicesFit (data : StateData) : Prop where
  accounts : collectionDepth (2 ^ 3) data.validatorAccounts.entries.length ≤ 57
  deposits : collectionDepth (2 ^ 3) data.depositQueue.length ≤ 57
  withdrawals : collectionDepth (2 ^ 3) data.withdrawalQueue.iterAll.length ≤ 57
  params : collectionDepth (2 ^ 1) data.protocolParamChanges.length ≤ 57
  added : collectionDepth (2 ^ 2) (SszStateTree.flattenAdded data.addedValidators).length ≤ 57
  removed : collectionDepth (2 ^ 0) data.removedValidators.length ≤ 57

/-- **What the proof generators give** for a tree and the keys frozen with it: proofs that verify
against the root, each of the leaf that the data has there, and none for what is not there. -/
structure ProvesState (tree : SszStateTree) (keys : List Bytes32) (root : Bytes32)
    (data : StateData) : Prop where
  scalar : ∀ leafIndex, leafIndex < 32 →
    (tree.generateScalarProof leafIndex).verify root = true ∧
      (tree.generateScalarProof leafIndex).leaf =
        rootOf (data.topTrees.getD leafIndex (chunk zeroChunk))
  validator : ∀ key account, data.validatorAccounts.find? key = some account →
    Proves root (tree.generateValidatorProof key keys)
      (merkleize (blockLeaves validatorFieldsPerAccount (validatorFields (key, account))))
  validatorField : ∀ key account fieldIndex, data.validatorAccounts.find? key = some account →
    fieldIndex < validatorFieldsPerAccount →
    Proves root (tree.generateValidatorFieldProof key fieldIndex keys)
        (fieldLeaf (validatorFields (key, account)) fieldIndex) ∧
      KeyedProves root (tree.generateValidatorKeyedFieldProof key fieldIndex keys) key
        validatorFieldsPerAccount validatorFieldNodePubkey
        (fieldLeaf (validatorFields (key, account)) fieldIndex)
  noValidator : ∀ key, data.validatorAccounts.find? key = none →
    tree.generateValidatorProof key keys = none ∧
      ∀ fieldIndex, tree.generateValidatorFieldProof key fieldIndex keys = none ∧
        tree.generateValidatorKeyedFieldProof key fieldIndex keys = none
  deposits : ListProofs root depositFieldsPerItem depositFields data.depositQueue
    tree.generateDepositProof tree.generateDepositFieldProof
  withdrawals : ListProofs root withdrawalFieldsPerItem withdrawalFields
    data.withdrawalQueue.iterAll tree.generateWithdrawalProof tree.generateWithdrawalFieldProof
  withdrawalByKey : ∀ key withdrawal, data.withdrawalQueue.getWithdrawal key = some withdrawal →
    Proves root (tree.generateWithdrawalProofByKey key)
      (merkleize (blockLeaves withdrawalFieldsPerItem (withdrawalFields withdrawal)))
  withdrawalFieldByKey : ∀ key withdrawal fieldIndex,
    data.withdrawalQueue.getWithdrawal key = some withdrawal →
    fieldIndex < withdrawalFieldsPerItem →
    Proves root (tree.generateWithdrawalFieldProofByKey key fieldIndex)
        (fieldLeaf (withdrawalFields withdrawal) fieldIndex) ∧
      KeyedProves root (tree.generateWithdrawalKeyedFieldProofByKey key fieldIndex) key
        withdrawalFieldsPerItem withdrawalFieldPubkey
        (fieldLeaf (withdrawalFields withdrawal) fieldIndex)
  noWithdrawal : ∀ key, data.withdrawalQueue.getWithdrawal key = none →
    tree.generateWithdrawalProofByKey key = none ∧
      ∀ fieldIndex, tree.generateWithdrawalFieldProofByKey key fieldIndex = none ∧
        tree.generateWithdrawalKeyedFieldProofByKey key fieldIndex = none
  params : ListProofs root protocolParamFieldsPerItem protocolParamFields data.protocolParamChanges
    tree.generateProtocolParamProof tree.generateProtocolParamFieldProof
  added : ListProofs root addedValidatorFieldsPerItem addedValidatorFields
    (SszStateTree.flattenAdded data.addedValidators) tree.generateAddedValidatorProof
    tree.generateAddedValidatorFieldProof
  addedByKey : ∀ key, (∃ item ∈ SszStateTree.flattenAdded data.addedValidators,
      item.2.nodeKey = key) →
    ∃ item ∈ SszStateTree.flattenAdded data.addedValidators, item.2.nodeKey = key ∧
      Proves root (tree.generateAddedValidatorProofByKey key data.addedValidators)
        (merkleize (blockLeaves addedValidatorFieldsPerItem (addedValidatorFields item)))
  noAdded : ∀ key, (∀ item ∈ SszStateTree.flattenAdded data.addedValidators,
      item.2.nodeKey ≠ key) →
    tree.generateAddedValidatorProofByKey key data.addedValidators = none
  removed : ∀ i key, data.removedValidators[i]? = some key →
    Proves root (tree.generateRemovedValidatorProof i) key.val
  noRemoved : ∀ i, data.removedValidators.length ≤ i →
    tree.generateRemovedValidatorProof i = none
  removedByKey : ∀ key ∈ data.removedValidators,
    Proves root (tree.generateRemovedValidatorProofByKey key data.removedValidators) key.val
  noRemovedByKey : ∀ key, key ∉ data.removedValidators →
    tree.generateRemovedValidatorProofByKey key data.removedValidators = none

section InSync

variable {data : StateData}
  (sync : tree.InSync false false data (hashByteList data.epocher.encode))

include sync

theorem getLeaf_top {j : Nat} (inside : j < 32) :
    tree.top.getLeaf j = (SszStateTree.topLeaves tree data (hashByteList data.epocher.encode)).getD j
      zeroChunk := by
  rw [SszTree.getLeaf, sync.top.capacity_eq]
  exact sync.top.isTree.leaves j inside

theorem verify_scalar {leafIndex : Nat} (inside : leafIndex < 32) :
    (tree.generateScalarProof leafIndex).verify tree.root = true ∧
      (tree.generateScalarProof leafIndex).leaf =
        rootOf (data.topTrees.getD leafIndex (chunk zeroChunk)) := by
  have spans := sync.top
  have depth : tree.top.depth = 5 := spans.depth_eq.trans (by decide)
  have capacity : tree.top.capacity = 32 := spans.capacity_eq
  refine ⟨?_, ?_⟩
  · show SszTree.verifyProofGindex _ (((1 <<< tree.top.depth) + leafIndex) % 2 ^ 64)
      (tree.top.getNode (tree.top.capacity + leafIndex))
      (tree.top.siblings tree.top.depth (tree.top.capacity + leafIndex)) = true
    have index : ((1 <<< 5) + leafIndex) % 2 ^ 64 = 32 + leafIndex := by
      rw [show 1 <<< 5 = 32 from rfl]
      omega
    have log : Nat.log2 (32 + leafIndex) = 5 := by
      rw [Nat.log2_eq_iff (by omega)]
      omega
    rw [depth, capacity, index, verifyProofGindex_iff,
      @climb_siblings _ (32 + leafIndex) (32 + leafIndex) _ _ _ spans 5 (by omega) (by omega) rfl,
      SszTree.length_siblings, log, SszStateTree.root, SszTree.root, if_neg (by omega)]
    exact ⟨by omega, rfl, rfl⟩
  · show tree.top.getLeaf leafIndex = _
    rw [getLeaf_top sync inside, topLeaves_eq_map sync, List.getD_eq_getElem?_getD,
      List.getElem?_map, List.getD_eq_getElem?_getD]
    cases data.topTrees[leafIndex]? <;> rfl

theorem exists_withdrawalSlot {key : Bytes32} {withdrawal : PendingWithdrawal}
    (found : data.withdrawalQueue.getWithdrawal key = some withdrawal) :
    ∃ slot, tree.withdrawalPubkeyIndex.find? key = some slot ∧
      data.withdrawalQueue.iterAll[slot]? = some withdrawal ∧ withdrawal.pubkey = key := by
  obtain ⟨slot, index, isAt⟩ := exists_findIdx?_of_find? found
  refine ⟨slot, ?_, isAt, by simpa using List.find?_some found⟩
  rw [(sync.withdrawals rfl).2.2, find?_pubkeyIndexOf]
  exact index

theorem withdrawalSlot_none {key : Bytes32}
    (absent : data.withdrawalQueue.getWithdrawal key = none) :
    tree.withdrawalPubkeyIndex.find? key = none := by
  rw [(sync.withdrawals rfl).2.2, find?_pubkeyIndexOf, List.findIdx?_eq_none_iff]
  intro withdrawal member
  simpa using List.find?_eq_none.mp absent withdrawal member

variable (fit : data.IndicesFit)

include fit

theorem holds_accounts : Holds tree Leaf.validatorAccountsRoot tree.validatorTree
    tree.validatorCount 3 validatorFields data.validatorAccounts.entries where
  top_lt := by decide
  topTree := ⟨_, sync.top⟩
  topLeaf := getLeaf_top sync (by decide)
  commits := sync.validators
  counted := sync.validatorCount
  fits := fit.accounts

theorem holds_deposits : Holds tree Leaf.depositQueueRoot tree.depositTree tree.depositCount 3
    depositFields data.depositQueue where
  top_lt := by decide
  topTree := ⟨_, sync.top⟩
  topLeaf := getLeaf_top sync (by decide)
  commits := (sync.deposits rfl).1
  counted := (sync.deposits rfl).2
  fits := fit.deposits

theorem holds_withdrawals : Holds tree Leaf.withdrawalQueueRoot tree.withdrawalTree
    tree.withdrawalCount 3 withdrawalFields data.withdrawalQueue.iterAll where
  top_lt := by decide
  topTree := ⟨_, sync.top⟩
  topLeaf := getLeaf_top sync (by decide)
  commits := (sync.withdrawals rfl).1
  counted := (sync.withdrawals rfl).2.1.trans (by
    rw [WithdrawalQueue.len, WithdrawalQueue.iterAll, List.length_append])
  fits := fit.withdrawals

theorem holds_params : Holds tree Leaf.protocolParamChangesRoot tree.protocolParamTree
    tree.protocolParamCount 1 protocolParamFields data.protocolParamChanges where
  top_lt := by decide
  topTree := ⟨_, sync.top⟩
  topLeaf := getLeaf_top sync (by decide)
  commits := sync.params
  counted := sync.paramCount
  fits := fit.params

theorem holds_added : Holds tree Leaf.addedValidatorsRoot tree.addedValidatorTree
    tree.addedValidatorCount 2 addedValidatorFields
    (SszStateTree.flattenAdded data.addedValidators) where
  top_lt := by decide
  topTree := ⟨_, sync.top⟩
  topLeaf := getLeaf_top sync (by decide)
  commits := sync.added
  counted := sync.addedCount
  fits := fit.added

theorem holds_removed : Holds tree Leaf.removedValidatorsRoot tree.removedValidatorTree
    tree.removedValidatorCount 0 removedValidatorFields data.removedValidators where
  top_lt := by decide
  topTree := ⟨_, sync.top⟩
  topLeaf := getLeaf_top sync (by decide)
  commits := sync.removed
  counted := sync.removedCount
  fits := fit.removed

theorem proves_removed {i : Nat} {key : PublicKey} (found : data.removedValidators[i]? = some key) :
    Proves tree.root (tree.generateRemovedValidatorProof i) key.val := by
  have holds := holds_removed sync fit
  obtain ⟨inside, -⟩ := List.getElem?_eq_some_iff.mp found
  have proves := @verify_fieldProof _ _ _ _ _ _ _ _ _ i 0 key holds found (by norm_num)
  rw [SszStateTree.generateRemovedValidatorProof, if_neg (by rw [holds.counted]; omega)]
  rw [pow_zero, Nat.mul_one, Nat.add_zero] at proves
  exact proves

/-- **A tree in sync proves its data.** -/
theorem provesState_of_inSync :
    ProvesState tree data.validatorAccounts.keys tree.root data where
  scalar leafIndex inside := verify_scalar sync inside
  validator key account found := by
    obtain ⟨slot, index, isAt⟩ := findIdx?_keys found
    have holds := holds_accounts sync fit
    have deep := holds.blockDepth_le (List.ne_nil_of_mem (List.mem_of_getElem? isAt))
    obtain ⟨verified, leaf⟩ := @verify_blockProof _ _ _ _ _ _ _ _ _ slot
      (tree.validatorTree.depth - Nat.log2 validatorFieldsPerAccount + 1) _ holds isAt (by
        rw [show Nat.log2 validatorFieldsPerAccount = 3 from rfl]
        omega)
    exact ⟨_, by rw [SszStateTree.generateValidatorProof, index]; rfl, verified, leaf⟩
  validatorField key account fieldIndex found small := by
    obtain ⟨slot, index, isAt⟩ := findIdx?_keys found
    have holds := holds_accounts sync fit
    refine ⟨?_, ?_⟩
    · rw [validatorFieldProof_eq index small]
      exact verify_fieldProof holds isAt small
    · rw [SszStateTree.generateValidatorKeyedFieldProof,
        validatorFieldProof_eq index small,
        validatorFieldProof_eq index (by decide)]
      exact verify_keyed holds isAt small (by decide)
  noValidator key absent := by
    have index := findIdx?_keys_none absent
    have field : ∀ fieldIndex, tree.generateValidatorFieldProof key fieldIndex
        data.validatorAccounts.keys = none := by
      intro fieldIndex
      rw [SszStateTree.generateValidatorFieldProof, index]
      exact ite_self _
    refine ⟨by rw [SszStateTree.generateValidatorProof, index]; rfl, fun fieldIndex =>
      ⟨field fieldIndex, ?_⟩⟩
    rw [SszStateTree.generateValidatorKeyedFieldProof, field fieldIndex]
    rfl
  deposits := listProofs (holds_deposits sync fit) fun nonempty => by
    have deep := (holds_deposits sync fit).blockDepth_le nonempty
    omega
  withdrawals := listProofs (holds_withdrawals sync fit) fun nonempty => by
    have deep := (holds_withdrawals sync fit).blockDepth_le nonempty
    omega
  withdrawalByKey key withdrawal found := by
    obtain ⟨slot, index, isAt, -⟩ := exists_withdrawalSlot sync found
    rw [SszStateTree.generateWithdrawalProofByKey, index]
    exact (listProofs (holds_withdrawals sync fit) fun nonempty => by
      have deep := (holds_withdrawals sync fit).blockDepth_le nonempty
      omega).item slot withdrawal isAt
  withdrawalFieldByKey key withdrawal fieldIndex found small := by
    obtain ⟨slot, index, isAt, rfl⟩ := exists_withdrawalSlot sync found
    have holds := holds_withdrawals sync fit
    obtain ⟨inside, -⟩ := List.getElem?_eq_some_iff.mp isAt
    have field : ∀ offset, offset < withdrawalFieldsPerItem →
        tree.generateWithdrawalFieldProof slot offset =
          some (tree.leafProof Leaf.withdrawalQueueRoot tree.withdrawalTree (slot * 8 + offset)
            tree.withdrawalCount) := by
      intro offset less
      rw [SszStateTree.generateWithdrawalFieldProof, SszStateTree.itemFieldProof,
        if_neg (by rw [holds.counted]; omega)]
      rfl
    refine ⟨?_, ?_⟩
    · rw [SszStateTree.generateWithdrawalFieldProofByKey, index, Option.bind_eq_bind,
        Option.bind_some, field fieldIndex small]
      exact verify_fieldProof holds isAt small
    · rw [SszStateTree.generateWithdrawalKeyedFieldProofByKey, index, Option.bind_eq_bind,
        Option.bind_some, field fieldIndex small, field withdrawalFieldPubkey (by decide)]
      exact verify_keyed holds isAt small (by decide)
  noWithdrawal key absent := by
    have index := withdrawalSlot_none sync absent
    refine ⟨?_, fun fieldIndex => ⟨?_, ?_⟩⟩
    · rw [SszStateTree.generateWithdrawalProofByKey, index]
      rfl
    · rw [SszStateTree.generateWithdrawalFieldProofByKey, index]
      rfl
    · rw [SszStateTree.generateWithdrawalKeyedFieldProofByKey, index]
      rfl
  params := listProofs (holds_params sync fit) fun nonempty => rfl
  added := listProofs (holds_added sync fit) fun nonempty => by
    have deep := (holds_added sync fit).blockDepth_le nonempty
    rw [show Nat.log2 addedValidatorFieldsPerItem = 2 from rfl]
    omega
  addedByKey key present := by
    obtain ⟨item, member, isKey⟩ := present
    obtain ⟨slot, first, index, isAt, isFirst⟩ := exists_findIdx?_of_mem
      (p := fun item => item.2.nodeKey = key) member (decide_eq_true isKey)
    refine ⟨first, List.mem_of_getElem? isAt, of_decide_eq_true isFirst, ?_⟩
    rw [SszStateTree.generateAddedValidatorProofByKey, findIdx?_added, index]
    exact (listProofs (holds_added sync fit) fun nonempty => by
      have deep := (holds_added sync fit).blockDepth_le nonempty
      rw [show Nat.log2 addedValidatorFieldsPerItem = 2 from rfl]
      omega).item slot first isAt
  noAdded key absent := by
    have index : (SszStateTree.flattenAdded data.addedValidators).findIdx?
        (fun item => item.2.nodeKey = key) = none :=
      List.findIdx?_eq_none_iff.mpr fun item member => decide_eq_false (absent item member)
    rw [SszStateTree.generateAddedValidatorProofByKey, findIdx?_added, index]
    rfl
  removed i key found := proves_removed sync fit found
  noRemoved i past := by
    rw [SszStateTree.generateRemovedValidatorProof,
      if_pos (by rw [(holds_removed sync fit).counted]; omega)]
  removedByKey key member := by
    obtain ⟨slot, first, index, isAt, isFirst⟩ := exists_findIdx?_of_mem
      (p := fun other => other = key) member (decide_eq_true rfl)
    obtain rfl : first = key := of_decide_eq_true isFirst
    rw [SszStateTree.generateRemovedValidatorProofByKey, index]
    exact proves_removed sync fit isAt
  noRemovedByKey key absent := by
    have index : data.removedValidators.findIdx? (fun other => other = key) = none :=
      List.findIdx?_eq_none_iff.mpr fun other member =>
        decide_eq_false fun same => absent (same ▸ member)
    rw [SszStateTree.generateRemovedValidatorProofByKey, index]
    rfl

end InSync

end Generated

/-- **Generated proofs verify and prove the right thing.** Whenever the tree is frozen, by a capture
or by a full rebuild, and as long as the indices fit in 64 bits, every proof generated from the
frozen tree and keys verifies against the frozen root and has the leaf of the state, a withdrawal
proof by key is the one of the entry that the queue returns for the key, and there is no proof of
what is not there. -/
theorem provesState_of_frozen [Crypto] (s : ConsensusState) (holds : s.Committed)
    (fit : s.toStateData.IndicesFit) (frozen : ConsensusState)
    (isFrozen : (∃ elBlockNumber, frozen = s.captureStateRoot elBlockNumber) ∨
      frozen = s.rebuildSszTree) :
    ProvesState frozen.proofTree frozen.proofValidatorKeys frozen.stateRoot s.toStateData := by
  rcases isFrozen with ⟨elBlockNumber, rfl⟩ | rfl
  · obtain ⟨schedule, sync⟩ := holds
    exact provesState_of_inSync (LiveState.InSync.refreshSchedule sync) fit
  · exact provesState_of_inSync (SszStateTree.inSync_rebuild s.toStateData) fit

attribute [local instance] Crypto.mixing

/-- An account, a deposit, a withdrawal and a refund, a parameter, scheduled keys and a removed one. -/
def stockedData : StateData :=
  { scheduledData with
    depositQueue :=
      [{ nodePubkey := ⟨FixedBytes.fill 32 30, rfl⟩
         consensusPubkey := ⟨FixedBytes.fill 48 31, rfl⟩
         withdrawalCredentials := FixedBytes.fill 32 32
         amount := 40
         nodeSignature := FixedBytes.fill 64 33
         consensusSignature := FixedBytes.fill 96 34
         index := 7 }]
    withdrawalQueue :=
      (WithdrawalQueue.empty.pushRequestWithKind ⟨FixedBytes.fill 20 8, FixedBytes.fill 32 9, 8⟩ 5
        .validator).pushRequestWithKind ⟨FixedBytes.fill 20 8, FixedBytes.fill 32 30, 1⟩ 5 .depositRefund
    protocolParamChanges := [.minimumStake 31]
    removedValidators := [⟨FixedBytes.fill 32 35, rfl⟩] }

def stockedState : ConsensusState := ConsensusState.ofData stockedData 0 none

/-- There is something to prove in every collection. -/
theorem provesState_of_frozen_stocked :
    ProvesState (stockedState.captureStateRoot 7).proofTree
      (stockedState.captureStateRoot 7).proofValidatorKeys
      (stockedState.captureStateRoot 7).stateRoot stockedData :=
  provesState_of_frozen stockedState (committed_ofData _ _ _)
    ⟨by decide, by decide, by decide, by decide, by decide, by decide⟩ _ (Or.inl ⟨7, rfl⟩)

end Summit
