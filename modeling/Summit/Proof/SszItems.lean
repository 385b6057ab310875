/-
**Trees of items.**

A collection of the state tree stores each item in a block of leaves. `Commits tree width fields
items` says that the tree is the one over the blocks of `items`, with the capacity their number asks
for; it leaves nothing open (`Commits.unique`). Building the tree from a list, appending an item,
rewriting one, inserting one in the middle and removing one all keep it, for the list with the same
change: so each of these operations agrees with building the tree anew.
-/

import Mathlib.Data.List.Induction
import Summit.Model.SszStateTree
import Summit.Proof.SszTree

set_option linter.unusedSectionVars false

namespace Summit

open Bytes HeapTree

variable [Crypto] {α : Type}

/-! ### The leaves of a list of items -/

/-- The leaves `leaf` with the listed fields of the block at `base` written. -/
def writeFields (base : Nat) (fields : List (Nat × Bytes32)) (leaf : Nat → Bytes32) :
    Nat → Bytes32 :=
  fields.foldl (fun leaf field => Function.update leaf (base + field.1) field.2) leaf

/-- The leaves of one block, zero where no field is written. -/
def fieldLeaf (fields : List (Nat × Bytes32)) : Nat → Bytes32 :=
  writeFields 0 fields fun _ => zeroChunk

/-- The leaves of all blocks, zero after the last. -/
def itemLeaf (width : Nat) (fields : α → List (Nat × Bytes32)) (items : List α) (j : Nat) :
    Bytes32 :=
  match items[j / width]? with
  | some item => fieldLeaf (fields item) (j % width)
  | none => zeroChunk

/-- Items are stored in blocks of `width` leaves, at the same offsets for every item. -/
structure Layout (width : Nat) (fields : α → List (Nat × Bytes32)) : Prop where
  positive : 0 < width
  fits : ∀ item, ∀ field ∈ fields item, field.1 < width
  uniform : ∀ item other, (fields item).map Prod.fst = (fields other).map Prod.fst

theorem writeFields_concat (base : Nat) (fields : List (Nat × Bytes32)) (field : Nat × Bytes32)
    (leaf : Nat → Bytes32) :
    writeFields base (fields ++ [field]) leaf =
      Function.update (writeFields base fields leaf) (base + field.1) field.2 := by
  rw [writeFields, List.foldl_append]
  rfl

/-- A leaf of the block at `base` is the field written there last, or what it was. -/
theorem writeFields_inside (base : Nat) (fields : List (Nat × Bytes32)) (leaf : Nat → Bytes32)
    (offset : Nat) :
    writeFields base fields leaf (base + offset) =
      if offset ∈ fields.map Prod.fst then fieldLeaf fields offset else leaf (base + offset) := by
  induction fields using List.reverseRecOn with
  | nil => rfl
  | append_singleton fields field ih =>
    rw [fieldLeaf, writeFields_concat, writeFields_concat, List.map_append, Nat.zero_add]
    by_cases here : offset = field.1
    · subst here
      rw [Function.update_self, Function.update_self, if_pos (by simp)]
    · rw [Function.update_of_ne (by omega), Function.update_of_ne here, ih, fieldLeaf]
      have same : offset ∈ fields.map Prod.fst ++ [field].map Prod.fst ↔
          offset ∈ fields.map Prod.fst := by
        rw [List.mem_append]
        simp [here]
      simp only [same]

variable {fields : α → List (Nat × Bytes32)} {j offset width : Nat} {items items' : List α}

theorem writeFields_outside {base : Nat} {fields : List (Nat × Bytes32)} (leaf : Nat → Bytes32)
    (outside : ∀ field ∈ fields, j ≠ base + field.1) : writeFields base fields leaf j = leaf j := by
  induction fields using List.reverseRecOn with
  | nil => rfl
  | append_singleton fields field ih =>
    rw [writeFields_concat, Function.update_of_ne (outside field (by simp))]
    exact ih fun other member => outside other (List.mem_append_left _ member)

theorem fieldLeaf_of_not_mem {fields : List (Nat × Bytes32)} (absent : offset ∉ fields.map Prod.fst) :
    fieldLeaf fields offset = zeroChunk :=
  writeFields_outside _ fun field member same =>
    absent (List.mem_map.mpr ⟨field, member, by omega⟩)

theorem itemLeaf_of_some {item : α} (found : items[j / width]? = some item) :
    itemLeaf width fields items j = fieldLeaf (fields item) (j % width) := by
  rw [itemLeaf, found]

theorem itemLeaf_of_none (absent : items[j / width]? = none) :
    itemLeaf width fields items j = zeroChunk := by
  rw [itemLeaf, absent]

theorem itemLeaf_congr {j' : Nat} (same : items[j / width]? = items'[j' / width]?)
    (sameOffset : j % width = j' % width) :
    itemLeaf width fields items j = itemLeaf width fields items' j' := by
  rw [itemLeaf, itemLeaf, same, sameOffset]

/-- A block holds the one value that is written at an offset. -/
theorem fieldLeaf_eq {fields : List (Nat × Bytes32)} {value : Bytes32}
    (only : ∀ field ∈ fields, field.1 = offset → field.2 = value)
    (here : offset ∈ fields.map Prod.fst ∨ value = zeroChunk) :
    fieldLeaf fields offset = value := by
  induction fields using List.reverseRecOn with
  | nil => exact (here.resolve_left (by simp)).symm
  | append_singleton fields field ih =>
    rw [fieldLeaf, writeFields_concat, Nat.zero_add]
    by_cases last : offset = field.1
    · rw [last, Function.update_self]
      exact only field (by simp) last.symm
    · rw [Function.update_of_ne last]
      refine ih (fun other member => only other (List.mem_append_left _ member)) ?_
      simpa [last] using here

theorem itemLeaf_moved {q : Nat} (positive : 0 < width) (same : items[q]? = items'[j / width]?) :
    itemLeaf width fields items (width * q + j % width) = itemLeaf width fields items' j := by
  have small := Nat.mod_lt j positive
  rw [itemLeaf, itemLeaf, Nat.mul_add_div positive, Nat.div_eq_of_lt small, Nat.add_zero,
    Nat.mul_add_mod, Nat.mod_mod, same]

theorem block_slot {slot : Nat} (small : offset < width) :
    (slot * width + offset) / width = slot := by
  rw [Nat.mul_comm, Nat.mul_add_div (by omega), Nat.div_eq_of_lt small, Nat.add_zero]

/-- Writing an item's fields into a block whose leaves are zero or those of another item gives the
leaves of the item. -/
theorem writeFields_block {slot : Nat} (layout : Layout width fields) {leaf : Nat → Bytes32}
    (item : α)
    (block : ∀ offset, offset < width → leaf (slot * width + offset) = zeroChunk ∨
      ∃ old, leaf (slot * width + offset) = fieldLeaf (fields old) offset) (j : Nat) :
    writeFields (slot * width) (fields item) leaf j =
      if j / width = slot then fieldLeaf (fields item) (j % width) else leaf j := by
  have split := Nat.div_add_mod j width
  have offset := Nat.mod_lt j layout.positive
  split
  · next here =>
    have place : j = slot * width + j % width := by rw [← here, Nat.mul_comm]; exact split.symm
    conv_lhs => rw [place, writeFields_inside]
    split
    · rfl
    · next absent =>
      rw [fieldLeaf_of_not_mem absent]
      rcases block _ offset with zero | ⟨old, same⟩
      · exact zero
      · rw [same]
        exact fieldLeaf_of_not_mem (layout.uniform old item ▸ absent)
  · next elsewhere =>
    refine writeFields_outside leaf fun field member same => elsewhere ?_
    rw [same, block_slot (layout.fits item field member)]

/-! ### Trees over items -/

namespace SszTree

/-- `tree` is the tree over the blocks of `items`. -/
def Commits (tree : SszTree) (width : Nat) (fields : α → List (Nat × Bytes32)) (items : List α) :
    Prop :=
  tree.Over (nextPowerOfTwo (max (items.length * width) 1)) (itemLeaf width fields items)

variable {width : Nat} {fields : α → List (Nat × Bytes32)} {items : List α}

variable {tree : SszTree} {capacity slot : Nat} {leaf : Nat → Bytes32}

theorem Commits.unique {tree' : SszTree} (one : tree.Commits width fields items)
    (two : tree'.Commits width fields items) : tree = tree' :=
  Over.unique one two

theorem blocks_le_capacity (count width : Nat) :
    count * width ≤ nextPowerOfTwo (max (count * width) 1) :=
  (le_max_left _ _).trans (le_nextPowerOfTwo _)

theorem Over.setFields {base : Nat} {list : List (Nat × Bytes32)} (spans : tree.Over capacity leaf)
    (inside : ∀ field ∈ list, base + field.1 < capacity) :
    (tree.setFields base list).Over capacity (writeFields base list leaf) := by
  induction list generalizing tree leaf with
  | nil => exact spans
  | cons field rest ih =>
    exact ih (spans.setLeaf (inside field List.mem_cons_self) field.2) fun other member =>
      inside other (List.mem_cons_of_mem _ member)

/-- A field of a block that lies inside the capacity lies inside too. -/
theorem Layout.inside (layout : Layout width fields) (room : (slot + 1) * width ≤ capacity)
    (item : α) : ∀ field ∈ fields item, slot * width + field.1 < capacity := by
  intro field member
  have fits := layout.fits item field member
  rw [Nat.add_mul] at room
  omega

theorem Over.setItem (layout : Layout width fields) (spans : tree.Over capacity leaf)
    (room : (slot + 1) * width ≤ capacity) (item : α)
    (block : ∀ offset, offset < width → leaf (slot * width + offset) = zeroChunk ∨
      ∃ old, leaf (slot * width + offset) = fieldLeaf (fields old) offset) :
    (tree.setFields (slot * width) (fields item)).Over capacity fun j =>
      if j / width = slot then fieldLeaf (fields item) (j % width) else leaf j :=
  (spans.setFields (Layout.inside layout room item)).congr fun j _ =>
    writeFields_block layout item block j

/-- Every block of `items` holds zeros or the leaves of an item. -/
theorem itemLeaf_block (items : List α) (slot offset : Nat)
    (small : offset < width) :
    itemLeaf width fields items (slot * width + offset) = zeroChunk ∨
      ∃ old, itemLeaf width fields items (slot * width + offset) =
        fieldLeaf (fields old) offset := by
  rw [itemLeaf, Nat.mul_add_mod_of_lt small]
  cases items[(slot * width + offset) / width]? with
  | none => exact Or.inl rfl
  | some old => exact Or.inr ⟨old, rfl⟩

/-! ### Appending and rewriting -/

theorem Over.appendItem (layout : Layout width fields)
    (spans : tree.Over capacity (itemLeaf width fields items)) (item : α)
    (room : (items.length + 1) * width ≤ capacity) :
    (tree.setFields (items.length * width) (fields item)).Over capacity
      (itemLeaf width fields (items ++ [item])) := by
  refine (spans.setItem layout room item (itemLeaf_block items _)).congr fun j _ => ?_
  split
  · next here => exact (itemLeaf_of_some (by rw [here]; simp)).symm
  · next elsewhere =>
    refine itemLeaf_congr ?_ rfl
    rcases Nat.lt_or_gt_of_ne elsewhere with before | after
    · rw [List.getElem?_append_left before]
    · rw [List.getElem?_eq_none (by omega), List.getElem?_eq_none (by simp; omega)]

/-- Growing keeps the leaves, with zeros after them. -/
theorem Over.grow (spans : tree.Over capacity leaf) (zeros : ∀ j, capacity ≤ j → leaf j = zeroChunk)
    (least : Nat) : (tree.grow least).Over (max capacity (nextPowerOfTwo least)) leaf := by
  obtain ⟨d, pow⟩ := nextPowerOfTwo_eq_pow least
  obtain ⟨c, capacityPow⟩ := spans.isPow
  rw [SszTree.grow, spans.capacity_eq]
  split
  · next room =>
    rw [max_eq_left (capacityPow ▸ nextPowerOfTwo_le_pow (capacityPow ▸ room))]
    exact spans
  · next full =>
    have wider : capacity ≤ nextPowerOfTwo least :=
      (Nat.le_of_not_le full).trans (le_nextPowerOfTwo least)
    rw [max_eq_right wider]
    rw [pow] at wider ⊢
    exact over_resize (by rw [spans.isTree.length, spans.capacity_eq]) wider
      spans.capacity_eq.ge (fun j inside => spans.getLeaf inside) fun j past _ => zeros j past

/-- Past a capacity that holds all blocks there are zeros. -/
theorem itemLeaf_past (positive : 0 < width) {j : Nat} (room : items.length * width ≤ capacity)
    (past : capacity ≤ j) : itemLeaf width fields items j = zeroChunk := by
  refine itemLeaf_of_none (List.getElem?_eq_none ?_)
  rw [Nat.le_div_iff_mul_le positive]
  exact room.trans past

/-- Growing for one more item keeps the leaves and gives the capacity for it. -/
theorem Commits.grow (layout : Layout width fields) (commits : tree.Commits width fields items) :
    (tree.grow ((items.length + 1) * width)).Over
      (nextPowerOfTwo (max ((items.length + 1) * width) 1)) (itemLeaf width fields items) := by
  have least : 1 ≤ (items.length + 1) * width := Nat.mul_pos (by omega) layout.positive
  have wider : nextPowerOfTwo (max (items.length * width) 1) ≤
      nextPowerOfTwo ((items.length + 1) * width) :=
    nextPowerOfTwo_mono (max_le (Nat.mul_le_mul_right _ (by omega)) least)
  have grown := Over.grow commits
    (fun j past => itemLeaf_past layout.positive (blocks_le_capacity _ _) past)
    ((items.length + 1) * width)
  rw [max_eq_left least]
  rwa [max_eq_right wider] at grown

theorem Commits.pushItem (layout : Layout width fields) (commits : tree.Commits width fields items)
    (item : α) :
    (tree.pushItem items.length width (fields item)).Commits width fields (items ++ [item]) := by
  have room := blocks_le_capacity (items.length + 1) width
  have appended := (commits.grow layout).appendItem layout item room
  rwa [Commits, List.length_append, List.length_singleton]

theorem over_ofItems_loop (layout : Layout width fields) (rest : List α)
    (spans : tree.Over capacity (itemLeaf width fields items))
    (room : (items.length + rest.length) * width ≤ capacity) :
    ((rest.zipIdx items.length).foldl
        (fun tree item => tree.setFields (item.2 * width) (fields item.1)) tree).Over capacity
      (itemLeaf width fields (items ++ rest)) := by
  induction rest generalizing tree items with
  | nil => simpa using spans
  | cons item rest ih =>
    have fits : (items.length + 1) * width ≤ capacity :=
      (Nat.mul_le_mul_right _ (by simp)).trans room
    have next := spans.appendItem layout item fits
    have room' : ((items ++ [item]).length + rest.length) * width ≤ capacity := by
      rw [List.length_append, List.length_singleton, Nat.add_assoc, Nat.add_comm 1]
      exact room
    have loop := ih next room'
    rw [List.length_append, List.length_singleton, List.append_assoc] at loop
    exact loop

theorem commits_ofItems (layout : Layout width fields) (items : List α) :
    (ofItems width fields items).Commits width fields items := by
  have start : (new (max (items.length * width) 1)).Over
      (nextPowerOfTwo (max (items.length * width) 1)) (itemLeaf width fields []) :=
    (over_new _).congr fun j _ => (itemLeaf_of_none rfl).symm
  have loop := over_ofItems_loop layout items start (by
    rw [List.length_nil, Nat.zero_add]
    exact blocks_le_capacity _ _)
  exact loop

theorem Commits.setItem (layout : Layout width fields) (commits : tree.Commits width fields items)
    (inside : slot < items.length) (item : α) :
    (tree.setFields (slot * width) (fields item)).Commits width fields (items.set slot item) := by
  have room : (slot + 1) * width ≤ nextPowerOfTwo (max (items.length * width) 1) :=
    (Nat.mul_le_mul_right _ inside).trans (blocks_le_capacity _ _)
  have changed := Over.setItem layout commits room item (itemLeaf_block items slot)
  rw [Commits, List.length_set]
  refine changed.congr fun j _ => ?_
  split
  · next here =>
    refine (itemLeaf_of_some ?_).symm
    rw [here, List.getElem?_set_self inside]
  · next elsewhere =>
    refine itemLeaf_congr ?_ rfl
    rw [List.getElem?_set_ne (Ne.symm elsewhere)]

end SszTree

end Summit
