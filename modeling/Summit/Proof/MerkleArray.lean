/-
**Runs of the Merkle array.**

The array of `ssz_tree.rs` holds blocks of `2 ^ b` leaves. `BlockOp` is what is done with it, and a
run is the list of these operations with every array access checked. Beside it runs the list of
blocks, which is only inserted into, removed from and written to. `block_runs`: the array never
leaves its bounds, its leaves are the blocks followed by zeros, and every node is `merkleize` of the
leaves below it.
-/

import Mathlib.Data.Vector.Basic
import Summit.Lib.Run
import Summit.Proof.StateHash

set_option linter.unusedSectionVars false

namespace Summit

open Bytes HeapTree

/-! ### Operations -/

/-- A block of `2 ^ b` leaves. -/
abbrev LeafBlock (b : Nat) : Type := List.Vector Bytes32 (2 ^ b)

inductive BlockOp (b : Nat) where
  | setLeaf (leafIndex : Nat) (value : Bytes32)
  | grow (minLeaves : Nat)
  | shrink (minLeaves : Nat)
  | insert (slot : Nat) (block : LeafBlock b)
  | remove (slot : Nat)

/-- The leaves of a block at their offsets. -/
def LeafBlock.fields {b : Nat} (block : LeafBlock b) : List (Nat × Bytes32) :=
  block.toList.zipIdx.map fun leaf => (leaf.2, leaf.1)

namespace BlockOp

variable {b : Nat}

/-- What is meant: the list of blocks, and which slots are in range. A tree may be shrunk only to a
capacity that holds all blocks. -/
def onBlocks (blocks : List (LeafBlock b)) : BlockOp b → Option (List (LeafBlock b))
  | setLeaf leafIndex value =>
    if leafIndex < blocks.length * 2 ^ b then
      some (blocks.modify (leafIndex / 2 ^ b) fun block =>
        block.set ⟨leafIndex % 2 ^ b, Nat.mod_lt _ (Nat.two_pow_pos b)⟩ value)
    else none
  | grow _ => some blocks
  | shrink minLeaves =>
    if blocks.length * 2 ^ b ≤ nextPowerOfTwo (max minLeaves 1) then some blocks else none
  | insert slot block =>
    if slot ≤ blocks.length then some (blocks.take slot ++ block :: blocks.drop slot) else none
  | remove slot =>
    if slot < blocks.length then some (blocks.take slot ++ blocks.drop (slot + 1)) else none

/-- What is done: the array and the number of its blocks. -/
def onTree [Crypto] (state : SszTree × Nat) : BlockOp b → Option (SszTree × Nat)
  | setLeaf leafIndex value => (state.1.setLeaf? leafIndex value).map (·, state.2)
  | grow minLeaves => (state.1.grow? minLeaves).map (·, state.2)
  | shrink minLeaves => (state.1.shrink? minLeaves).map (·, state.2)
  | insert slot block =>
    (state.1.insertBlock? state.2 slot (2 ^ b) block.fields).map (·, state.2 + 1)
  | remove slot => (state.1.removeBlock? state.2 slot (2 ^ b)).map (·, state.2 - 1)

end BlockOp

section Runs

variable [Crypto]

/-! ### The leaves of a list of blocks -/

section Leaves

variable {b : Nat} {blocks : List (LeafBlock b)}

theorem offsets_fields (block : LeafBlock b) :
    block.fields.map Prod.fst = List.range (2 ^ b) := by
  rw [LeafBlock.fields, List.map_map]
  show block.toList.zipIdx.map Prod.snd = _
  rw [List.zipIdx_map_snd, block.toList_length, List.range_eq_range']

theorem layout_blocks : Layout (2 ^ b) (LeafBlock.fields (b := b)) where
  positive := Nat.two_pow_pos b
  fits block field member := by
    have listed := List.mem_map_of_mem (f := Prod.fst) member
    rw [offsets_fields] at listed
    exact List.mem_range.mp listed
  uniform one two := by rw [offsets_fields, offsets_fields]

theorem fieldLeaf_fields (block : LeafBlock b) {offset : Nat} (small : offset < 2 ^ b) :
    fieldLeaf block.fields offset = block.get ⟨offset, small⟩ := by
  refine fieldLeaf_eq (fun field member same => ?_)
    (Or.inl (by rw [offsets_fields]; exact List.mem_range.mpr small))
  obtain ⟨leaf, listed, rfl⟩ := List.mem_map.mp member
  have found := (List.mem_zipIdx_iff_getElem?).mp listed
  obtain rfl : leaf.2 = offset := same
  rw [List.Vector.get_eq_get_toList]
  exact (List.getElem_of_getElem? found).2.symm

theorem itemLeaf_blocks {block : LeafBlock b} {j : Nat} (found : blocks[j / 2 ^ b]? = some block) :
    itemLeaf (2 ^ b) LeafBlock.fields blocks j =
      block.get ⟨j % 2 ^ b, Nat.mod_lt _ (Nat.two_pow_pos b)⟩ := by
  rw [itemLeaf_of_some found, fieldLeaf_fields]

/-- The leaves one after the other are the blocks, then zeros. -/
theorem map_itemLeaf (capacity : Nat) (room : blocks.length * 2 ^ b ≤ capacity) :
    (List.range capacity).map (itemLeaf (2 ^ b) LeafBlock.fields blocks) =
      blocks.flatMap List.Vector.toList ++
        List.replicate (capacity - blocks.length * 2 ^ b) zeroChunk := by
  have positive := Nat.two_pow_pos b
  induction blocks generalizing capacity with
  | nil =>
    rw [List.flatMap_nil, List.nil_append, List.length_nil, Nat.zero_mul, Nat.sub_zero]
    refine List.eq_replicate_iff.mpr ⟨by simp, fun leaf member => ?_⟩
    obtain ⟨j, -, rfl⟩ := List.mem_map.mp member
    exact itemLeaf_of_none (by simp)
  | cons block rest ih =>
    rw [List.length_cons, Nat.succ_mul] at room
    obtain ⟨more, rfl⟩ := Nat.exists_eq_add_of_le (show 2 ^ b ≤ capacity by omega)
    have first : (List.range (2 ^ b)).map (itemLeaf (2 ^ b) LeafBlock.fields (block :: rest)) =
        block.toList := by
      refine List.ext_getElem (by simp) fun j inside inside' => ?_
      rw [List.length_map, List.length_range] at inside
      have found : (block :: rest)[j / 2 ^ b]? = some block := by
        rw [Nat.div_eq_of_lt inside, List.getElem?_cons_zero]
      rw [List.getElem_map, List.getElem_range, itemLeaf_blocks found,
        List.Vector.get_eq_get_toList]
      simp only [List.get_eq_getElem, Nat.mod_eq_of_lt inside, Fin.val_cast]
    have later : ∀ j, itemLeaf (2 ^ b) LeafBlock.fields (block :: rest) (2 ^ b + j) =
        itemLeaf (2 ^ b) LeafBlock.fields rest j := by
      intro j
      refine itemLeaf_congr ?_ (Nat.add_mod_left _ _)
      rw [Nat.add_div_left _ positive, List.getElem?_cons_succ]
    rw [List.range_add, List.map_append, List.map_map, first, List.flatMap_cons, List.append_assoc,
      List.length_cons, Nat.succ_mul,
      show 2 ^ b + more - (rest.length * 2 ^ b + 2 ^ b) = more - rest.length * 2 ^ b by omega,
      ← ih more (by omega)]
    exact congrArg _ (List.map_congr_left fun j _ => later j)

end Leaves

/-! ### Every node is the root of its leaves -/

/-- The leaves below node `i`. -/
def SszTree.leavesBelow (tree : SszTree) (i : Nat) : List Bytes32 :=
  let span := tree.capacity / 2 ^ Nat.log2 i
  (List.range' (i * span - tree.capacity) span).map tree.getLeaf

theorem getNode_eq_merkleize {tree : SszTree} {capacity : Nat} {leaf : Nat → Bytes32}
    (spans : tree.Over capacity leaf) {i : Nat} (pos : 1 ≤ i) (inside : i < 2 * capacity) :
    tree.getNode i = merkleize (tree.leavesBelow i) := by
  obtain ⟨d, rfl⟩ := spans.isPow
  have low : 2 ^ Nat.log2 i ≤ i := Nat.log2_self_le (by omega)
  have high : i < 2 ^ (Nat.log2 i + 1) := Nat.lt_log2_self
  have level : Nat.log2 i ≤ d := by
    refine Nat.le_of_lt_succ ((Nat.log2_lt (by omega)).mpr ?_)
    rwa [pow_succ, Nat.mul_comm]
  obtain ⟨depth, rfl⟩ := Nat.exists_eq_add_of_le level
  have span : 2 ^ (Nat.log2 i + depth) / 2 ^ Nat.log2 i = 2 ^ depth := by
    rw [pow_add, Nat.mul_div_cancel_left _ (Nat.two_pow_pos _)]
  have least : 2 ^ (Nat.log2 i + depth) ≤ i * 2 ^ depth := by
    rw [pow_add]
    exact Nat.mul_le_mul_right _ low
  have most : i * 2 ^ depth + 2 ^ depth ≤ 2 * 2 ^ (Nat.log2 i + depth) :=
    calc i * 2 ^ depth + 2 ^ depth = (i + 1) * 2 ^ depth := (Nat.succ_mul ..).symm
      _ ≤ 2 ^ (Nat.log2 i + 1) * 2 ^ depth := Nat.mul_le_mul_right _ high
      _ = 2 * 2 ^ (Nat.log2 i + depth) := by ring
  obtain ⟨start, first⟩ := Nat.exists_eq_add_of_le least
  have leaves : ∀ j, j < 2 ^ (Nat.log2 i + depth) →
      leaf j = (HashTree.chunk (tree.getLeaf j)).root Crypto.hash32Concat :=
    fun j below => (spans.getLeaf below).symm
  have root := HashTree.node_eq_root_spread spans.isTree leaves depth pos first (by omega)
  have length : (tree.leavesBelow i).length = 2 ^ depth := by
    rw [SszTree.leavesBelow, spans.capacity_eq, span, List.length_map, List.length_range']
  have full : nextPowerOfTwo (2 ^ depth) = 2 ^ depth :=
    le_antisymm (nextPowerOfTwo_le_pow le_rfl) (le_nextPowerOfTwo _)
  rw [← rootOf_chunkTree, chunkTree, length, full, Nat.log2_two_pow]
  refine root.trans (HashTree.root_spread_congr fun j below => ?_)
  rw [SszTree.leavesBelow, spans.capacity_eq, span, first, Nat.add_sub_cancel_left,
    List.getD_eq_getElem?_getD, List.getElem?_map, List.getElem?_range' below, Nat.one_mul]
  rfl

/-! ### No access outside the array -/

namespace SszTree

variable {tree : SszTree} {b e : Nat}

theorem checked_of {inside : Prop} [Decidable inside] (holds : inside) :
    checked inside tree = some tree := if_pos holds

theorem setFieldsNoRehash?_eq {base : Nat} {fields : List (Nat × Bytes32)}
    (inside : ∀ field ∈ fields, tree.capacity + (base + field.1) < tree.nodes.length) :
    tree.setFieldsNoRehash? base fields = some (tree.setFieldsNoRehash base fields) := by
  induction fields generalizing tree with
  | nil => rfl
  | cons field rest ih =>
    have first : tree.setLeafNoRehash? (base + field.1) field.2 = some _ :=
      checked_of (inside field List.mem_cons_self)
    rw [setFieldsNoRehash?, List.foldlM_cons, first]
    refine ih fun other member => ?_
    have within := inside other (List.mem_cons_of_mem _ member)
    simpa [setLeafNoRehash] using within

/-- The shape of the array: its capacity is `2 ^ e` blocks and it has two nodes per leaf. -/
structure Shaped (tree : SszTree) (b e : Nat) : Prop where
  capacity : tree.capacity = 2 ^ b * 2 ^ e
  length : tree.nodes.length = 2 * (2 ^ b * 2 ^ e)

variable {leaf : Nat → Bytes32} {v : Nat}

theorem Over.shaped (spans : tree.Over (2 ^ b * 2 ^ e) leaf) :
    tree.Shaped b e := ⟨spans.capacity_eq, spans.isTree.length⟩

theorem TornOver.shaped {p : Nat} (spans : tree.TornOver b e v p leaf) :
    tree.Shaped b e := ⟨spans.capacity_eq, spans.torn.length⟩

theorem Shaped.setFieldsNoRehash? {fields : List (Nat × Bytes32)} (shaped : tree.Shaped b e)
    (vIn : v < 2 ^ e) (fits : ∀ field ∈ fields, field.1 < 2 ^ b) :
    tree.setFieldsNoRehash? (v * 2 ^ b) fields =
      some (tree.setFieldsNoRehash (v * 2 ^ b) fields) := by
  refine setFieldsNoRehash?_eq fun field member => ?_
  have within := block_inside vIn (fits field member)
  rw [shaped.capacity, shaped.length]
  omega

theorem Shaped.rehashBlock? (shaped : tree.Shaped b e) (vIn : v < 2 ^ e) :
    tree.rehashBlock? v (2 ^ b) = some (tree.rehashBlock v (2 ^ b)) := by
  refine checked_of fun i member => ?_
  rw [shaped.capacity] at member
  obtain ⟨t, less, same⟩ := mem_blockIndices.mp member
  have at_ : AtDepth (2 ^ e) t i := by constructor <;> rw [same] <;> omega
  have inner := atDepth_inner less at_
  rw [shaped.length]
  omega

theorem Shaped.rehashBlock (shaped : tree.Shaped b e) : (tree.rehashBlock v (2 ^ b)).Shaped b e :=
  ⟨shaped.capacity, (length_rehashAll ..).trans shaped.length⟩

theorem Shaped.shiftsInside {first count : Nat} (shaped : tree.Shaped b e)
    (room : first + count < 2 ^ e) : tree.ShiftsInside first count (2 ^ b) := by
  refine Or.inr fun level member => ?_
  rw [Nat.log2_two_pow, List.mem_range] at member
  rw [shaped.capacity, shaped.length, shiftRight_capacity (by omega), shiftRight_block (by omega),
    Nat.mul_comm _ (2 ^ e), ← Nat.add_mul]
  exact slots_fit (Nat.sub_le b level) (by omega)

theorem Over.grow?_eq {capacity : Nat} (spans : tree.Over capacity leaf) (minLeaves : Nat) :
    tree.grow? minLeaves = some (tree.grow minLeaves) := by
  refine checked_of ?_
  have least := le_nextPowerOfTwo minLeaves
  rw [spans.isTree.length, spans.capacity_eq]
  omega

theorem shrink?_eq (length : tree.nodes.length = 2 * tree.capacity) (minLeaves : Nat) :
    tree.shrink? minLeaves = some (tree.shrink minLeaves) := by
  refine checked_of ?_
  rw [length]
  omega

end SszTree

/-! ### One operation -/

/-- The array holds the blocks, in a capacity that has room for them. -/
def LaysOut {b : Nat} (tree : SszTree) (blocks : List (LeafBlock b)) : Prop :=
  ∃ capacity, tree.Over capacity (itemLeaf (2 ^ b) LeafBlock.fields blocks) ∧
    blocks.length * 2 ^ b ≤ capacity

section Steps

variable {b : Nat} {tree : SszTree} {blocks : List (LeafBlock b)}

theorem LaysOut.setLeaf (laid : LaysOut tree blocks) {leafIndex : Nat}
    (inside : leafIndex < blocks.length * 2 ^ b) (value : Bytes32) :
    ∃ after, tree.setLeaf? leafIndex value = some after ∧
      LaysOut after (blocks.modify (leafIndex / 2 ^ b) fun block =>
        block.set ⟨leafIndex % 2 ^ b, Nat.mod_lt _ (Nat.two_pow_pos b)⟩ value) := by
  obtain ⟨capacity, spans, room⟩ := laid
  have length := spans.isTree.length
  have first : tree.setLeafNoRehash? leafIndex value = some _ :=
    SszTree.checked_of (by rw [spans.capacity_eq, length]; omega)
  refine ⟨tree.setLeaf leafIndex value, ?_, capacity, ?_, by rwa [List.length_modify]⟩
  · rw [SszTree.setLeaf?, first]
    refine SszTree.checked_of fun i member => ?_
    have bounds := mem_pathUp_bounds member
    rw [spans.capacity_eq] at bounds
    simp only [SszTree.setLeafNoRehash, List.length_set, length]
    omega
  · refine (spans.setLeaf (by omega) value).congr fun j _ => ?_
    have slot : leafIndex / 2 ^ b < blocks.length :=
      (Nat.div_lt_iff_lt_mul (Nat.two_pow_pos b)).mpr inside
    by_cases elsewhere : j / 2 ^ b = leafIndex / 2 ^ b
    · obtain ⟨block, found⟩ : ∃ block, blocks[leafIndex / 2 ^ b]? = some block :=
        ⟨_, List.getElem?_eq_getElem slot⟩
      rw [itemLeaf_blocks (j := j) (by
        rw [elsewhere, List.getElem?_modify_eq, found, Option.map_eq_map, Option.map_some])]
      by_cases same : j = leafIndex
      · subst same
        rw [Function.update_self, List.Vector.get_set_same]
      · have offset : leafIndex % 2 ^ b ≠ j % 2 ^ b := fun agree => same (by
          rw [← Nat.div_add_mod j (2 ^ b), ← Nat.div_add_mod leafIndex (2 ^ b), elsewhere, agree])
        rw [Function.update_of_ne same, itemLeaf_blocks (elsewhere ▸ found),
          List.Vector.get_set_of_ne (Fin.ne_of_val_ne (i := ⟨_, _⟩) (j := ⟨_, _⟩) offset)]
    · rw [Function.update_of_ne fun same => elsewhere (by rw [same])]
      refine itemLeaf_congr ?_ rfl
      rw [List.getElem?_modify_ne _ _ (Ne.symm elsewhere)]

theorem LaysOut.grow (laid : LaysOut tree blocks) (minLeaves : Nat) :
    ∃ after, tree.grow? minLeaves = some after ∧ LaysOut after blocks := by
  obtain ⟨capacity, spans, room⟩ := laid
  exact ⟨_, spans.grow?_eq minLeaves, _,
    spans.grow (fun j past => SszTree.itemLeaf_past (Nat.two_pow_pos b) room past) minLeaves,
    room.trans (le_max_left _ _)⟩

theorem LaysOut.shrink (laid : LaysOut tree blocks) {minLeaves : Nat}
    (holds : blocks.length * 2 ^ b ≤ nextPowerOfTwo (max minLeaves 1)) :
    ∃ after, tree.shrink? minLeaves = some after ∧ LaysOut after blocks := by
  obtain ⟨capacity, spans, room⟩ := laid
  have length : tree.nodes.length = 2 * tree.capacity := by
    rw [spans.isTree.length, spans.capacity_eq]
  refine ⟨_, SszTree.shrink?_eq length minLeaves, ?_⟩
  rw [SszTree.shrink, spans.capacity_eq]
  split
  · exact ⟨capacity, spans, room⟩
  · next smaller =>
    obtain ⟨d, pow⟩ := nextPowerOfTwo_eq_pow (max minLeaves 1)
    rw [pow] at holds smaller ⊢
    exact ⟨_, SszTree.over_resize length le_rfl (by rw [spans.capacity_eq]; omega)
      (fun j inside => spans.getLeaf (by omega)) fun j past before => absurd before (by omega), holds⟩

variable {front back blocks' : List (LeafBlock b)}

theorem LaysOut.insert (laid : LaysOut tree (front ++ back)) (block : LeafBlock b) :
    ∃ after, tree.insertBlock? (front ++ back).length front.length (2 ^ b) block.fields = some after ∧
      LaysOut after (front ++ block :: back) := by
  obtain ⟨capacity, spans, room⟩ := laid
  have inserted := spans.insertItem layout_blocks room block
  have grown := spans.grow (fun j past => SszTree.itemLeaf_past (Nat.two_pow_pos b) room past)
    (((front ++ back).length + 1) * 2 ^ b)
  have fits := le_trans (le_nextPowerOfTwo (((front ++ back).length + 1) * 2 ^ b))
    (le_max_right capacity _)
  have length : (front ++ block :: back).length = (front ++ back).length + 1 := by simp; omega
  refine ⟨_, ?_, _, inserted, by rw [length]; exact fits⟩
  -- the accesses of each step lie inside the grown array
  obtain ⟨e, pow, wide⟩ := SszTree.exists_room grown.isPow fits
  rw [pow] at grown
  have total : (front ++ back).length = front.length + back.length := List.length_append
  have slotIn : front.length < 2 ^ e := by omega
  obtain ⟨leaf, shifted, -⟩ := grown.openGap wide block
  have written := shifted.setFieldsNoRehash slotIn le_rfl (layout_blocks.fits block)
  have shift : SszTree.shiftBlocksRight? _ front.length ((front ++ back).length - front.length)
      (2 ^ b) = some _ := SszTree.checked_of (grown.shaped.shiftsInside (by omega))
  simp only [SszTree.insertBlock?, spans.grow?_eq, shift,
    shifted.shaped.setFieldsNoRehash? slotIn (layout_blocks.fits block),
    written.shaped.rehashBlock? slotIn, Option.bind_eq_bind, Option.bind_some]
  rfl

theorem LaysOut.remove {block : LeafBlock b} (laid : LaysOut tree (front ++ block :: back)) :
    ∃ after, tree.removeBlock? (front ++ block :: back).length front.length (2 ^ b) = some after ∧
      LaysOut after (front ++ back) := by
  obtain ⟨capacity, spans, room⟩ := laid
  have total : (front ++ block :: back).length = front.length + back.length + 1 := by simp; omega
  rw [total] at room ⊢
  have removed := spans.removeItem room
  refine ⟨_, ?_, _, removed, SszTree.blocks_le_capacity _ _⟩
  obtain ⟨e, rfl, wide⟩ := SszTree.exists_room spans.isPow room
  have closed := spans.closeGap wide
  have shift : tree.shiftBlocksLeft? front.length back.length (2 ^ b) = some _ :=
    SszTree.checked_of (spans.shaped.shiftsInside wide)
  have last : ∀ cleared : SszTree, cleared.Shaped b e → ∀ needed,
      (if nextPowerOfTwo needed < cleared.capacity then cleared.shrink? needed
        else some (cleared.rehashAboveBlock front.length (2 ^ b))) =
      some (if nextPowerOfTwo needed < cleared.capacity then cleared.shrink needed
        else cleared.rehashAboveBlock front.length (2 ^ b)) := by
    intro cleared shaped needed
    split
    · exact SszTree.shrink?_eq (by rw [shaped.length, shaped.capacity]) needed
    · rfl
  have count : front.length + back.length + 1 - front.length - 1 = back.length := by omega
  simp only [SszTree.removeBlock?, count, Nat.add_sub_cancel, shift, Option.bind_eq_bind,
    Option.bind_some]
  split at closed
  · next none_ =>
    have zeros : ∀ field ∈ SszTree.zeroFields (2 ^ b), field.1 < 2 ^ b := by
      simp [SszTree.zeroFields]
    have same : tree.shiftBlocksLeft front.length back.length (2 ^ b) = tree := if_pos none_
    have slotIn : front.length < 2 ^ e := by omega
    have cleared : tree.clearBlock? front.length (2 ^ b) = some ((tree.setFieldsNoRehash
        (front.length * 2 ^ b) (SszTree.zeroFields (2 ^ b))).rehashBlock front.length (2 ^ b)) := by
      have zeroed := spans.shaped.setFieldsNoRehash? slotIn zeros
      rw [SszTree.clearBlock?]
      exact Option.bind_eq_some_iff.mpr ⟨_, zeroed, closed.shaped.rehashBlock? slotIn⟩
    simp only [same, if_pos none_, cleared, Option.bind_some]
    rw [SszTree.setFieldsNoRehash, SszTree.zeroFields, List.foldl_map] at closed ⊢
    exact last _ closed.shaped.rehashBlock _
  · next some_ =>
    simp only [if_neg some_, closed.shaped.rehashBlock? wide, Option.bind_some]
    exact last _ closed.shaped.rehashBlock _

/-- Each operation does to the array what is meant for the blocks. -/
theorem LaysOut.step (laid : LaysOut tree blocks) {op : BlockOp b}
    (meant : op.onBlocks blocks = some blocks') :
    ∃ after, op.onTree (tree, blocks.length) = some (after, blocks'.length) ∧
      LaysOut after blocks' := by
  cases op with
  | setLeaf leafIndex value =>
    obtain ⟨inside, same⟩ := Option.ite_none_right_eq_some.mp meant
    obtain rfl := Option.some.inj same
    obtain ⟨after, done_, kept⟩ := laid.setLeaf inside value
    exact ⟨after, by simp only [BlockOp.onTree, done_, Option.map_some, List.length_modify], kept⟩
  | grow minLeaves =>
    obtain rfl := Option.some.inj meant
    obtain ⟨after, done_, kept⟩ := laid.grow minLeaves
    exact ⟨after, by simp only [BlockOp.onTree, done_, Option.map_some], kept⟩
  | shrink minLeaves =>
    obtain ⟨holds, same⟩ := Option.ite_none_right_eq_some.mp meant
    obtain rfl := Option.some.inj same
    obtain ⟨after, done_, kept⟩ := laid.shrink holds
    exact ⟨after, by simp only [BlockOp.onTree, done_, Option.map_some], kept⟩
  | insert slot block =>
    obtain ⟨inside, same⟩ := Option.ite_none_right_eq_some.mp meant
    obtain rfl := Option.some.inj same
    have front : (blocks.take slot).length = slot := List.length_take_of_le inside
    have more : (blocks.take slot ++ block :: blocks.drop slot).length = blocks.length + 1 := by
      simp [front]
      omega
    rw [← List.take_append_drop slot blocks] at laid
    obtain ⟨after, done_, kept⟩ := laid.insert block
    rw [List.take_append_drop, front] at done_
    exact ⟨after, by simp only [BlockOp.onTree, done_, Option.map_some, more], kept⟩
  | remove slot =>
    obtain ⟨inside, same⟩ := Option.ite_none_right_eq_some.mp meant
    obtain rfl := Option.some.inj same
    have front : (blocks.take slot).length = slot := List.length_take_of_le inside.le
    have fewer : (blocks.take slot ++ blocks.drop (slot + 1)).length = blocks.length - 1 := by
      simp [front]
      omega
    have split : blocks.take slot ++ blocks[slot] :: blocks.drop (slot + 1) = blocks := by
      rw [← List.drop_eq_getElem_cons inside, List.take_append_drop]
    rw [← split] at laid
    obtain ⟨after, done_, kept⟩ := laid.remove
    rw [split, front] at done_
    exact ⟨after, by simp only [BlockOp.onTree, done_, Option.map_some, fewer], kept⟩

/-- A run of the blocks is a run of the array. -/
theorem LaysOut.run (laid : LaysOut tree blocks) {ops : List (BlockOp b)}
    (meant : ops.foldlM BlockOp.onBlocks blocks = some blocks') :
    ∃ after, ops.foldlM BlockOp.onTree (tree, blocks.length) = some (after, blocks'.length) ∧
      LaysOut after blocks' := by
  induction ops generalizing tree blocks with
  | nil =>
    obtain rfl := Option.some.inj meant
    exact ⟨tree, rfl, laid⟩
  | cons op rest ih =>
    obtain ⟨mid, first, later⟩ := Run.foldlM_cons_some meant
    obtain ⟨next, done_, kept⟩ := laid.step first
    obtain ⟨after, ran, holds⟩ := ih kept later
    refine ⟨after, ?_, holds⟩
    rw [List.foldlM_cons, done_]
    exact ran

end Steps

/-- What the array is: the hash tree over the blocks and zeros after them. -/
structure SszTree.Holds {b : Nat} (tree : SszTree) (blocks : List (LeafBlock b)) : Prop where
  nodes : ∀ i, 1 ≤ i → i < 2 * tree.capacity → tree.getNode i = merkleize (tree.leavesBelow i)
  root : tree.root = merkleize ((List.range tree.capacity).map tree.getLeaf)
  leaves : (List.range tree.capacity).map tree.getLeaf = blocks.flatMap List.Vector.toList ++
    List.replicate (tree.capacity - blocks.length * 2 ^ b) zeroChunk
  isPow : ∃ d, tree.capacity = 2 ^ d
  room : blocks.length * 2 ^ b ≤ tree.capacity

theorem LaysOut.holds {b : Nat} {tree : SszTree} {blocks : List (LeafBlock b)}
    (laid : LaysOut tree blocks) : tree.Holds blocks := by
  obtain ⟨capacity, spans, room⟩ := laid
  have positive : 0 < tree.capacity := by
    obtain ⟨d, pow⟩ := spans.isPow
    rw [spans.capacity_eq, pow]
    exact Nat.two_pow_pos d
  have nodes : ∀ i, 1 ≤ i → i < 2 * tree.capacity →
      tree.getNode i = merkleize (tree.leavesBelow i) := by
    rw [spans.capacity_eq]
    exact fun i => getNode_eq_merkleize spans
  have top : tree.leavesBelow 1 = (List.range tree.capacity).map tree.getLeaf := by
    have level : Nat.log2 1 = 0 := by decide
    rw [SszTree.leavesBelow, level, pow_zero, Nat.div_one, Nat.one_mul, Nat.sub_self,
      List.range_eq_range']
  refine ⟨nodes, ?_, ?_, spans.capacity_eq ▸ spans.isPow, spans.capacity_eq ▸ room⟩
  · rw [SszTree.root, if_neg positive.ne', nodes 1 le_rfl (by omega), top]
  · rw [spans.capacity_eq, ← map_itemLeaf capacity room]
    exact List.map_congr_left fun j member => spans.getLeaf (List.mem_range.mp member)

end Runs

attribute [local instance] Crypto.mixing

end Summit
