/-
**Inserting and removing validators in the tree.**

Accounts are sorted by key, so a new one lands in the middle and the blocks after it move, at every
level of the blocks. In between the tree is torn: right at its leaves, and sound except in one block
and above the moved ones. The steps of `insertValidatorAtSlot` and `removeValidatorAtSlot` are
followed on torn trees, and the last recomputation makes the tree whole.
-/

import Summit.Proof.SszItems

set_option linter.unusedSectionVars false

namespace Summit

open Bytes HeapTree

variable [Crypto]

namespace SszTree

/-- The tree over `leaf`, in `2 ^ e` blocks, up to block `v` and the nodes above the blocks from
`p` on. -/
structure TornOver (tree : SszTree) (b e v p : Nat) (leaf : Nat → Bytes32) : Prop where
  capacity_eq : tree.capacity = 2 ^ b * 2 ^ e
  depth_eq : tree.depth = Nat.log2 (2 ^ b * 2 ^ e)
  torn : Torn zeroChunk Crypto.hash32Concat b e v p tree.nodes leaf

variable {tree : SszTree} {b e v p : Nat} {leaf : Nat → Bytes32}

theorem Over.tornOver (spans : tree.Over (2 ^ b * 2 ^ e) leaf) : tree.TornOver b e v p leaf :=
  ⟨spans.capacity_eq, spans.depth_eq, spans.isTree.torn zeroChunk Crypto.hash32Concat⟩

theorem TornOver.congr {leaf' : Nat → Bytes32} (spans : tree.TornOver b e v p leaf)
    (same : ∀ j, j < 2 ^ b * 2 ^ e → leaf j = leaf' j) : tree.TornOver b e v p leaf' :=
  { spans with
    torn := { spans.torn with
      leaves := fun j inside => (spans.torn.leaves j inside).trans (same j inside) } }

variable {j offset first count : Nat}

theorem TornOver.getLeaf (spans : tree.TornOver b e v p leaf) (inside : j < 2 ^ b * 2 ^ e) :
    tree.getLeaf j = leaf j := by
  rw [SszTree.getLeaf, getNode, spans.capacity_eq]
  exact spans.torn.leaves j inside

theorem block_inside (vIn : v < 2 ^ e) (small : offset < 2 ^ b) :
    v * 2 ^ b + offset < 2 ^ b * 2 ^ e := by
  have next : (v + 1) * 2 ^ b ≤ 2 ^ e * 2 ^ b := Nat.mul_le_mul_right _ vIn
  rw [Nat.succ_mul, Nat.mul_comm (2 ^ e)] at next
  omega

theorem TornOver.setFieldsNoRehash {fields : List (Nat × Bytes32)} (vIn : v < 2 ^ e) (le : p ≤ v)
    (fits : ∀ field ∈ fields, field.1 < 2 ^ b) (spans : tree.TornOver b e v p leaf) :
    (tree.setFieldsNoRehash (v * 2 ^ b) fields).TornOver b e v p
      (writeFields (v * 2 ^ b) fields leaf) := by
  induction fields generalizing tree leaf with
  | nil => exact spans
  | cons field rest ih =>
    have small := fits field List.mem_cons_self
    refine ih (fun other member => fits other (List.mem_cons_of_mem _ member))
      ⟨spans.capacity_eq, spans.depth_eq, ?_⟩
    have written := spans.torn.setLeaf zeroChunk Crypto.hash32Concat le (block_inside vIn small)
      (block_slot small) field.2
    show Torn _ _ b e v p (tree.nodes.set (tree.capacity + (v * 2 ^ b + field.1)) field.2) _
    rw [spans.capacity_eq]
    exact written

/-! ### Shifting blocks -/

/-- The levels of a block, with their sizes as powers of two. -/
theorem foldl_levels (step : Nat → Nat → List Bytes32 → List Bytes32) (nodes : List Bytes32) :
    (List.range (Nat.log2 (2 ^ b) + 1)).foldl (fun nodes level =>
        step ((2 ^ b * 2 ^ e) >>> level) (2 ^ b >>> level) nodes) nodes =
      (List.range (b + 1)).foldl (fun nodes level =>
        step (2 ^ (b - level) * 2 ^ e) (2 ^ (b - level)) nodes) nodes := by
  rw [Nat.log2_two_pow]
  refine List.foldl_ext _ _ _ fun acc level member => ?_
  have le : level ≤ b := by
    rw [List.mem_range] at member
    omega
  rw [shiftRight_capacity le, shiftRight_block le]

/-- Moving blocks at every level tears the tree at the block that is left without an origin. -/
theorem Over.moveBlocks {origin : Nat → Option Nat} (spans : tree.Over (2 ^ b * 2 ^ e) leaf)
    (step : Nat → Nat → List Bytes32 → List Bytes32)
    (move : LevelMove zeroChunk b (2 ^ e) origin fun t => step (2 ^ t * 2 ^ e) (2 ^ t))
    (pIn : p < 2 ^ e) (filled : ∀ q, q < 2 ^ e → q ≠ v → ∃ q', origin q = some q')
    (kept : ∀ q, q < p → origin q = some q) :
    TornOver { tree with nodes := (List.range (Nat.log2 (2 ^ b) + 1)).foldl (fun nodes level =>
        step (tree.capacity >>> level) (2 ^ b >>> level) nodes) tree.nodes } b e v p fun j =>
      match origin (j / 2 ^ b) with
      | none => zeroChunk
      | some q => leaf (2 ^ b * q + j % 2 ^ b) := by
  have moved := blockMove_levels zeroChunk move spans.isTree.length
  rw [← foldl_levels step] at moved
  refine ⟨spans.capacity_eq, spans.depth_eq, ?_⟩
  rw [spans.capacity_eq]
  exact moved.torn zeroChunk Crypto.hash32Concat pIn spans.isTree move.origin_lt filled kept

theorem Over.shiftBlocksRight (spans : tree.Over (2 ^ b * 2 ^ e) leaf) (some_ : count ≠ 0)
    (room : first + count < 2 ^ e) :
    (tree.shiftBlocksRight first count (2 ^ b)).TornOver b e first first fun j =>
      match originRight first count (j / 2 ^ b) with
      | none => zeroChunk
      | some q => leaf (2 ^ b * q + j % 2 ^ b) := by
  rw [SszTree.shiftBlocksRight, if_neg some_]
  refine spans.moveBlocks (fun base stride => shiftLevelRight zeroChunk base first count stride)
    (levelMove_right zeroChunk room) (by omega) (fun q _ other => ?_) fun q before => ?_
  · rw [originRight, if_neg other]
    split <;> exact ⟨_, rfl⟩
  · exact originRight_kept (Or.inl before)

theorem Over.shiftBlocksLeft (spans : tree.Over (2 ^ b * 2 ^ e) leaf) (some_ : count ≠ 0)
    (room : first + count < 2 ^ e) :
    (tree.shiftBlocksLeft first count (2 ^ b)).TornOver b e (first + count) first fun j =>
      match originLeft first count (j / 2 ^ b) with
      | none => zeroChunk
      | some q => leaf (2 ^ b * q + j % 2 ^ b) := by
  rw [SszTree.shiftBlocksLeft, if_neg some_]
  refine spans.moveBlocks (fun base stride => shiftLevelLeft zeroChunk base first count stride)
    (levelMove_left zeroChunk room) (by omega) (fun q _ other => ?_) fun q before => ?_
  · rw [originLeft, if_neg other]
    split <;> exact ⟨_, rfl⟩
  · exact originLeft_kept (Or.inl before)

/-! ### The last recomputation -/

theorem rehashAboveBlock_eq {nodes : List Bytes32} {depth : Nat} (pIn : p < 2 ^ e)
    (len : nodes.length = 2 * (2 ^ b * 2 ^ e)) :
    (rehashAboveBlock ⟨nodes, 2 ^ b * 2 ^ e, depth⟩ p (2 ^ b)).nodes =
      rehashAll zeroChunk Crypto.hash32Concat nodes (upperIndices (2 ^ e) p) := by
  have blocks : 2 ^ b * 2 ^ e / 2 ^ b = 2 ^ e := Nat.mul_div_cancel_left _ (Nat.two_pow_pos b)
  have capLe : 2 ^ e ≤ 2 ^ b * 2 ^ e := Nat.le_mul_of_pos_left _ (Nat.two_pow_pos b)
  have inside : ∀ i ∈ upperIndices (2 ^ e) p, i * 2 + 1 < nodes.length := by
    intro i member
    have below := ((upperIndices_spec pIn).2.1 i member).2
    rw [len]
    omega
  simp only [rehashAboveBlock, blocks, rehashFromPosition]
  split
  · next one => rw [upperIndices, one, levelsFrom_zero]; rfl
  · rw [show levelsFrom (2 ^ e / 2) (2 ^ e / 2) ((2 ^ e + p) / 2) = upperIndices (2 ^ e) p from rfl,
      rehashInside_eq inside]
    rfl

/-- Recomputing block `v` and the nodes above the blocks makes the tree whole. -/
theorem TornOver.repair (spans : tree.TornOver b e v p leaf) (vIn : v < 2 ^ e) (le : p ≤ v) :
    ((tree.rehashBlock v (2 ^ b)).rehashAboveBlock p (2 ^ b)).Over (2 ^ b * 2 ^ e) leaf := by
  obtain ⟨nodes, capacity, depth⟩ := tree
  obtain ⟨capacityEq, depthEq, torn⟩ := spans
  simp only at capacityEq depthEq torn
  subst capacityEq
  have whole := isTree_repair zeroChunk Crypto.hash32Concat vIn le torn
  have len : (rehashAll zeroChunk Crypto.hash32Concat nodes
      (blockIndices (2 ^ b * 2 ^ e) v (2 ^ b))).length = 2 * (2 ^ b * 2 ^ e) := by
    simpa using torn.length
  refine ⟨?_, ?_, ⟨b + e, by rw [pow_add]⟩, ?_⟩
  · simp only [rehashAboveBlock, rehashFromPosition]
    split <;> rfl
  · rw [← depthEq]
    simp only [rehashAboveBlock, rehashFromPosition]
    split <;> rfl
  · rw [rehashBlock, rehash, rehashAboveBlock_eq (lt_of_le_of_lt le vIn) len]
    exact whole

/-- Recomputing block `v` does not touch the leaves. -/
theorem TornOver.getLeaf_rehashBlock (spans : tree.TornOver b e v p leaf) (vIn : v < 2 ^ e)
    (inside : j < 2 ^ b * 2 ^ e) : (tree.rehashBlock v (2 ^ b)).getLeaf j = leaf j := by
  rw [← spans.getLeaf inside, SszTree.getLeaf, SszTree.getLeaf, getNode, getNode, rehashBlock, rehash]
  refine node_rehashAll_of_not_mem zeroChunk Crypto.hash32Concat _ fun member => ?_
  simp only [spans.capacity_eq] at member
  obtain ⟨t, less, same⟩ := mem_blockIndices.mp member
  have at_ : AtDepth (2 ^ e) t (2 ^ b * 2 ^ e + j) := by constructor <;> rw [same] <;> omega
  have inner := atDepth_inner less at_
  omega

/-! ### Inserting and removing an item -/

variable {α : Type} {fields : α → List (Nat × Bytes32)} {front back : List α} {item : α}

/-- A power of two that holds some blocks holds a power of two of them. -/
theorem exists_room {capacity count : Nat} (isPow : ∃ d, capacity = 2 ^ d)
    (fits : (count + 1) * 2 ^ b ≤ capacity) : ∃ e, capacity = 2 ^ b * 2 ^ e ∧ count < 2 ^ e := by
  obtain ⟨d, rfl⟩ := isPow
  have one : 2 ^ b ≤ 2 ^ d := le_trans (Nat.le_mul_of_pos_left _ (Nat.succ_pos count)) fits
  have le : b ≤ d := (Nat.pow_le_pow_iff_right (by norm_num)).mp one
  refine ⟨d - b, by rw [← pow_add]; congr 1; omega, ?_⟩
  rw [show 2 ^ d = 2 ^ (d - b) * 2 ^ b by rw [← pow_add]; congr 1; omega] at fits
  exact Nat.le_of_mul_le_mul_right fits (Nat.two_pow_pos b)

theorem getElem?_before {q : Nat} (before : q < front.length) :
    (front ++ item :: back)[q]? = (front ++ back)[q]? := by
  rw [List.getElem?_append_left before, List.getElem?_append_left before]

theorem getElem?_here (front back : List α) (item : α) :
    (front ++ item :: back)[front.length]? = some item := by
  rw [List.getElem?_append_right le_rfl, Nat.sub_self, List.getElem?_cons_zero]

theorem getElem?_after {q : Nat} (after : front.length ≤ q) :
    (front ++ item :: back)[q + 1]? = (front ++ back)[q]? := by
  rw [List.getElem?_append_right (by omega), List.getElem?_append_right after,
    Nat.sub_add_comm after, List.getElem?_cons_succ]

/-- After the shift the block of the new item is empty and the later items are one block further
right. -/
theorem Over.openGap (spans : tree.Over (2 ^ b * 2 ^ e) (itemLeaf (2 ^ b) fields (front ++ back)))
    (room : (front ++ back).length < 2 ^ e) (item : α) :
    ∃ leaf, (tree.shiftBlocksRight front.length ((front ++ back).length - front.length)
        (2 ^ b)).TornOver b e front.length front.length leaf ∧
      (∀ offset, offset < 2 ^ b → leaf (front.length * 2 ^ b + offset) = zeroChunk) ∧
      ∀ j, j / 2 ^ b ≠ front.length →
        leaf j = itemLeaf (2 ^ b) fields (front ++ item :: back) j := by
  have total : (front ++ back).length = front.length + back.length := List.length_append
  have more : (front ++ item :: back).length = front.length + back.length + 1 := by simp; omega
  have positive := Nat.two_pow_pos b
  by_cases last : (front ++ back).length - front.length = 0
  · refine ⟨_, by rw [last, SszTree.shiftBlocksRight, if_pos rfl]; exact spans.tornOver, ?_, ?_⟩
    · intro offset small
      refine itemLeaf_of_none (List.getElem?_eq_none ?_)
      rw [block_slot small]
      omega
    · intro j elsewhere
      refine itemLeaf_congr ?_ rfl
      by_cases before : j / 2 ^ b < front.length
      · rw [getElem?_before before]
      · rw [List.getElem?_eq_none (by omega), List.getElem?_eq_none (by omega)]
  · refine ⟨_, spans.shiftBlocksRight last (by omega), ?_, ?_⟩
    · intro offset small
      rw [block_slot small, originRight_self]
    · intro j elsewhere
      by_cases within : front.length < j / 2 ^ b ∧ j / 2 ^ b ≤
          front.length + ((front ++ back).length - front.length)
      · rw [originRight_moved within.1 within.2]
        refine itemLeaf_moved positive ?_
        have moved : (front ++ item :: back)[j / 2 ^ b - 1 + 1]? = _ := getElem?_after (by omega)
        rw [← moved]
        congr 1
        omega
      · rw [originRight_kept (by omega)]
        refine itemLeaf_moved positive ?_
        by_cases before : j / 2 ^ b < front.length
        · rw [getElem?_before before]
        · rw [List.getElem?_eq_none (by omega), List.getElem?_eq_none (by omega)]

/-- **Insertion.** The blocks from the new item's on move right and the item is written in the
gap. -/
theorem Over.insertItem (layout : Layout (2 ^ b) fields) {capacity : Nat}
    (spans : tree.Over capacity (itemLeaf (2 ^ b) fields (front ++ back)))
    (fits : (front ++ back).length * 2 ^ b ≤ capacity) (item : α) :
    let slot := front.length
    let count := (front ++ back).length
    (((((tree.grow ((count + 1) * 2 ^ b)).shiftBlocksRight slot (count - slot) (2 ^ b))
        |>.setFieldsNoRehash (slot * 2 ^ b) (fields item)).rehashBlock slot
          (2 ^ b)).rehashAboveBlock slot (2 ^ b)).Over
      (max capacity (nextPowerOfTwo ((count + 1) * 2 ^ b)))
      (itemLeaf (2 ^ b) fields (front ++ item :: back)) := by
  intro slot count
  have grown := spans.grow (fun j past => itemLeaf_past layout.positive fits past)
    ((count + 1) * 2 ^ b)
  obtain ⟨e, pow, room⟩ := exists_room (b := b) grown.isPow
    (le_trans (le_nextPowerOfTwo _) (le_max_right _ _))
  have total : count = slot + back.length := List.length_append
  rw [pow] at grown ⊢
  have slotIn : slot < 2 ^ e := by omega
  obtain ⟨leaf, shifted, zero, others⟩ := grown.openGap (by omega) item
  have written :=
    (shifted.setFieldsNoRehash slotIn le_rfl (layout.fits item)).repair slotIn le_rfl
  refine written.congr fun j _ => ?_
  rw [writeFields_block layout item (fun offset small => Or.inl (zero offset small))]
  split
  · next here =>
    refine (itemLeaf_of_some ?_).symm
    rw [here, getElem?_here]
  · next elsewhere => exact others j elsewhere

theorem Commits.insertItem (layout : Layout (2 ^ 3) fields)
    (commits : tree.Commits (2 ^ 3) fields (front ++ back)) (item : α) :
    let slot := front.length
    let count := (front ++ back).length
    (((((tree.grow ((count + 1) * 2 ^ 3)).shiftBlocksRight slot (count - slot) (2 ^ 3))
        |>.setFieldsNoRehash (slot * 2 ^ 3) (fields item)).rehashBlock slot (2 ^ 3))
        |>.rehashAboveBlock slot (2 ^ 3)).Commits (2 ^ 3) fields (front ++ item :: back) := by
  intro slot count
  have inserted := (Over.insertItem layout commits (blocks_le_capacity _ _) item :)
  dsimp only at inserted
  have length : (front ++ item :: back).length = count + 1 := by simp [count]; omega
  have least : 1 ≤ (count + 1) * 2 ^ 3 := by omega
  have wider : nextPowerOfTwo (max (count * 2 ^ 3) 1) ≤ nextPowerOfTwo ((count + 1) * 2 ^ 3) :=
    nextPowerOfTwo_mono (max_le (by omega) least)
  rw [max_eq_right wider] at inserted
  rw [Commits, length, max_eq_left least]
  exact inserted

/-- The zero leaves of a block. -/
def zeroFields (width : Nat) : List (Nat × Bytes32) :=
  (List.range width).map fun offset => (offset, zeroChunk)

theorem writeFields_zeros {width : Nat} (positive : 0 < width) (slot : Nat) (leaf : Nat → Bytes32)
    (j : Nat) : writeFields (slot * width) (zeroFields width) leaf j =
      if j / width = slot then zeroChunk else leaf j := by
  have offsets : (zeroFields width).map Prod.fst = List.range width := by
    rw [zeroFields, List.map_map]
    exact List.map_id _
  have split := Nat.div_add_mod j width
  split
  · next here =>
    have place : j = slot * width + j % width := by rw [← here, Nat.mul_comm]; exact split.symm
    rw [place, writeFields_inside, offsets,
      if_pos (List.mem_range.mpr (Nat.mod_lt j positive))]
    refine fieldLeaf_eq (fun field member _ => ?_) (Or.inr rfl)
    obtain ⟨offset, -, rfl⟩ := List.mem_map.mp member
    rfl
  · next elsewhere =>
    refine writeFields_outside leaf fun field member same => elsewhere ?_
    have small : field.1 ∈ List.range width := offsets ▸ List.mem_map_of_mem member
    rw [same, block_slot (List.mem_range.mp small)]

/-- After the shift the removed item is gone and the block left over at the end is empty. -/
theorem Over.closeGap
    (spans : tree.Over (2 ^ b * 2 ^ e) (itemLeaf (2 ^ b) fields (front ++ item :: back)))
    (room : front.length + back.length < 2 ^ e) :
    (if back.length = 0 then tree.setFieldsNoRehash (front.length * 2 ^ b) (zeroFields (2 ^ b))
      else tree.shiftBlocksLeft front.length back.length (2 ^ b)).TornOver b e
        (front.length + back.length) front.length
        (itemLeaf (2 ^ b) fields (front ++ back)) := by
  have total : (front ++ item :: back).length = front.length + back.length + 1 := by simp; omega
  have fewer : (front ++ back).length = front.length + back.length := List.length_append
  have positive := Nat.two_pow_pos b
  -- behind the items both lists have nothing, before the removed one they agree
  have kept : ∀ q, q < front.length ∨ front.length + back.length < q →
      (front ++ item :: back)[q]? = (front ++ back)[q]? := by
    intro q out
    rcases out with before | after
    · exact getElem?_before before
    · rw [List.getElem?_eq_none (by omega), List.getElem?_eq_none (by omega)]
  split
  · next last =>
    have torn : tree.TornOver b e (front.length + back.length) front.length _ := spans.tornOver
    rw [show front.length * 2 ^ b = (front.length + back.length) * 2 ^ b by rw [last, Nat.add_zero]]
    refine (torn.setFieldsNoRehash room (Nat.le_add_right _ _) (by simp [zeroFields])).congr
      fun j _ => ?_
    rw [writeFields_zeros positive]
    split
    · next here => exact (itemLeaf_of_none (List.getElem?_eq_none (by omega))).symm
    · next elsewhere => exact itemLeaf_congr (kept _ (by omega)) rfl
  · next some_ =>
    refine (spans.shiftBlocksLeft some_ (by omega)).congr fun j _ => ?_
    by_cases within : front.length ≤ j / 2 ^ b ∧ j / 2 ^ b < front.length + back.length
    · rw [originLeft_moved within.1 within.2]
      exact itemLeaf_moved positive (getElem?_after within.1)
    · by_cases last : j / 2 ^ b = front.length + back.length
      · rw [last, originLeft_last]
        exact (itemLeaf_of_none (List.getElem?_eq_none (by omega))).symm
      · rw [originLeft_kept (by omega)]
        exact itemLeaf_moved positive (kept _ (by omega))

/-- The last step of a removal: shrink to the capacity of the remaining items, or recompute the
nodes above the blocks. -/
theorem TornOver.settle {items : List α} (spans : tree.TornOver b e v p
      (itemLeaf (2 ^ b) fields items)) (vIn : v < 2 ^ e) (le : p ≤ v)
    (fits : items.length * 2 ^ b ≤ 2 ^ b * 2 ^ e) :
    let block := tree.rehashBlock v (2 ^ b)
    let needed := max (items.length * 2 ^ b) 1
    (if nextPowerOfTwo needed < block.capacity then block.shrink needed
      else block.rehashAboveBlock p (2 ^ b)).Commits (2 ^ b) fields items := by
  intro block needed
  have capacity : block.capacity = 2 ^ b * 2 ^ e := spans.capacity_eq
  have bound : nextPowerOfTwo needed ≤ 2 ^ b * 2 ^ e := by
    have pos := Nat.two_pow_pos (b + e)
    rw [← pow_add] at fits ⊢
    exact nextPowerOfTwo_le_pow (max_le fits pos)
  rw [capacity]
  split
  · next smaller =>
    obtain ⟨d, pow⟩ := nextPowerOfTwo_eq_pow needed
    rw [shrink, max_eq_left (le_max_right _ _), capacity, if_neg (Nat.not_le.mpr smaller), Commits,
      pow]
    rw [pow] at bound
    refine over_resize ?_ le_rfl (capacity ▸ bound) (fun j inside =>
      spans.getLeaf_rehashBlock vIn (lt_of_lt_of_le inside bound)) fun j past before => ?_
    · rw [capacity, ← spans.torn.length]
      simp [block, rehashBlock, rehash]
    · omega
  · next same =>
    rw [Commits, le_antisymm bound (Nat.not_lt.mp same)]
    exact spans.repair vIn le

/-- **Removal.** The blocks after the item's move left, the block left over is cleared, and the
tree shrinks when the remaining items ask for a smaller capacity. -/
theorem Over.removeItem {capacity : Nat}
    (spans : tree.Over capacity (itemLeaf (2 ^ b) fields (front ++ item :: back)))
    (fits : (front.length + back.length + 1) * 2 ^ b ≤ capacity) :
    let shifted := tree.shiftBlocksLeft front.length back.length (2 ^ b)
    let cleared :=
      if back.length = 0 then
        ((List.range (2 ^ b)).foldl (fun t i =>
          t.setLeafNoRehash (front.length * 2 ^ b + i) zeroChunk) shifted).rehashBlock
            front.length (2 ^ b)
      else shifted.rehashBlock (front.length + back.length) (2 ^ b)
    let needed := max ((front.length + back.length) * 2 ^ b) 1
    (if nextPowerOfTwo needed < cleared.capacity then cleared.shrink needed
      else cleared.rehashAboveBlock front.length (2 ^ b)).Commits (2 ^ b) fields
        (front ++ back) := by
  intro shifted cleared needed
  obtain ⟨e, rfl, room⟩ := exists_room spans.isPow fits
  have closed := spans.closeGap room
  have clearedEq : cleared = SszTree.rehashBlock
      (if back.length = 0 then tree.setFieldsNoRehash (front.length * 2 ^ b) (zeroFields (2 ^ b))
        else shifted) (front.length + back.length) (2 ^ b) := by
    simp only [cleared]
    split
    · next last =>
      simp only [shifted, last, Nat.add_zero, SszTree.shiftBlocksLeft, SszTree.setFieldsNoRehash,
        zeroFields, List.foldl_map, if_true]
    · rfl
  have settled := closed.settle room (Nat.le_add_right _ _) (by
    rw [List.length_append, Nat.mul_comm]
    exact Nat.mul_le_mul_left _ room.le)
  rw [List.length_append] at settled
  rw [clearedEq]
  exact settled

/-- A committed list has room for its items. -/
theorem room_of_item (front back : List α) (item : α) (width : Nat) :
    (front.length + back.length + 1) * width ≤
      nextPowerOfTwo (max ((front ++ item :: back).length * width) 1) := by
  rw [List.length_append, List.length_cons]
  exact blocks_le_capacity _ _

end SszTree

end Summit
