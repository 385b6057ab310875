/-
**Complete binary hash trees in one array.**

A tree with `capacity` leaves is an array of `2 * capacity` nodes: node `1` is the root, nodes
`2 * i` and `2 * i + 1` are the children of node `i`, the leaves start at `capacity` and node `0`
is unused. `Sound` says that a node is the hash of its children. Recomputing a list of nodes from
the leaves towards the root (`BottomUp`) makes every listed node sound, so a tree is sound
everywhere as soon as the list holds each unsound node and each parent of a listed one
(`rehashAll_sound_below`). A tree that is sound everywhere is determined by its leaves
(`nodes_unique`).
-/

import Mathlib.Algebra.Order.Ring.Nat
import Mathlib.Data.List.Pairwise
import Mathlib.Data.Nat.Log
import Mathlib.Tactic.Ring

namespace HeapTree

/-! ### Powers of two -/

/-- The least power of two that is at least `n`. -/
def nextPowerOfTwo (n : Nat) : Nat := if n ≤ 1 then 1 else 2 ^ (Nat.log2 (n - 1) + 1)

theorem le_nextPowerOfTwo (n : Nat) : n ≤ nextPowerOfTwo n := by
  unfold nextPowerOfTwo
  split
  · assumption
  · have := Nat.lt_log2_self (n := n - 1)
    omega

theorem nextPowerOfTwo_eq_pow (n : Nat) : ∃ e, nextPowerOfTwo n = 2 ^ e := by
  unfold nextPowerOfTwo
  split
  · exact ⟨0, rfl⟩
  · exact ⟨_, rfl⟩

theorem nextPowerOfTwo_pos (n : Nat) : 0 < nextPowerOfTwo n := by
  obtain ⟨e, eq⟩ := nextPowerOfTwo_eq_pow n
  rw [eq]
  exact Nat.two_pow_pos e

theorem nextPowerOfTwo_le_pow {n e : Nat} (fits : n ≤ 2 ^ e) : nextPowerOfTwo n ≤ 2 ^ e := by
  unfold nextPowerOfTwo
  split
  · exact Nat.one_le_two_pow
  · have low : Nat.log2 (n - 1) < e := (Nat.log2_lt (by omega)).mpr (by omega)
    exact Nat.pow_le_pow_right (by norm_num) low

theorem nextPowerOfTwo_mono {n n' : Nat} (le : n ≤ n') : nextPowerOfTwo n ≤ nextPowerOfTwo n' := by
  obtain ⟨e, eq⟩ := nextPowerOfTwo_eq_pow n'
  rw [eq]
  exact nextPowerOfTwo_le_pow (le.trans (eq ▸ le_nextPowerOfTwo n'))

/-- A capacity that holds a block of `2 ^ b` leaves is a whole number of such blocks. -/
theorem exists_blocks {n b : Nat} (fits : 2 ^ b ≤ nextPowerOfTwo n) :
    ∃ e, nextPowerOfTwo n = 2 ^ b * 2 ^ e := by
  obtain ⟨d, eq⟩ := nextPowerOfTwo_eq_pow n
  have le : b ≤ d := (Nat.pow_le_pow_iff_right (by norm_num)).mp (eq ▸ fits)
  exact ⟨d - b, by rw [eq, ← pow_add]; congr 1; omega⟩

/-! ### Nodes -/

variable {H : Type} (zero : H) (pair : H → H → H)

/-- Node `i` of the array, `zero` past its end. -/
def node (nodes : List H) (i : Nat) : H := nodes.getD i zero

/-- The array with node `i` recomputed from its children. -/
def rehashNode (nodes : List H) (i : Nat) : List H :=
  nodes.set i (pair (node zero nodes (2 * i)) (node zero nodes (2 * i + 1)))

/-- The array with the listed nodes recomputed one after the other. -/
def rehashAll (nodes : List H) (indices : List Nat) : List H :=
  indices.foldl (rehashNode zero pair) nodes

/-- Node `i` is the hash of its two children. -/
def Sound (nodes : List H) (i : Nat) : Prop :=
  node zero nodes i = pair (node zero nodes (2 * i)) (node zero nodes (2 * i + 1))

/-- No node is listed after one that is nearer to the root. -/
def BottomUp (indices : List Nat) : Prop := indices.Pairwise fun i j => Nat.log2 j ≤ Nat.log2 i

theorem node_set (nodes : List H) (i k : Nat) (value : H) :
    node zero (nodes.set i value) k =
      if k = i ∧ i < nodes.length then value else node zero nodes k := by
  unfold node
  rw [List.getD_eq_getElem?_getD, List.getD_eq_getElem?_getD, List.getElem?_set]
  by_cases same : i = k
  · subst same
    by_cases inside : i < nodes.length
    · simp [inside]
    · simp [inside]
  · simp [same, Ne.symm same]

variable {nodes nodes' : List H} {i k capacity : Nat} {indices : List Nat} {leaf : Nat → H}

theorem node_set_self (inside : i < nodes.length) (value : H) :
    node zero (nodes.set i value) i = value := by
  simp [node_set, inside]

theorem node_set_of_ne (nodes : List H) (other : k ≠ i) (value : H) :
    node zero (nodes.set i value) k = node zero nodes k := by
  simp [node_set, other]

@[simp] theorem node_replicate (n i : Nat) : node zero (List.replicate n zero) i = zero := by
  unfold node
  rw [List.getD_eq_getElem?_getD, List.getElem?_replicate]
  split <;> rfl

@[simp] theorem length_rehashNode (nodes : List H) (i : Nat) :
    (rehashNode zero pair nodes i).length = nodes.length := List.length_set

@[simp] theorem length_rehashAll (nodes : List H) (indices : List Nat) :
    (rehashAll zero pair nodes indices).length = nodes.length := by
  induction indices generalizing nodes with
  | nil => rfl
  | cons i rest ih => exact (ih _).trans (length_rehashNode zero pair nodes i)

theorem rehashAll_append (nodes : List H) (first second : List Nat) :
    rehashAll zero pair nodes (first ++ second) =
      rehashAll zero pair (rehashAll zero pair nodes first) second := List.foldl_append

theorem node_rehashAll_of_not_mem (nodes : List H) (absent : k ∉ indices) :
    node zero (rehashAll zero pair nodes indices) k = node zero nodes k := by
  induction indices generalizing nodes with
  | nil => rfl
  | cons i rest ih =>
    rw [List.mem_cons, not_or] at absent
    exact (ih _ absent.2).trans (node_set_of_ne zero nodes absent.1 _)

/-! ### Recomputing from the leaves towards the root -/

theorem Sound.congr (sound : Sound zero pair nodes i)
    (self : node zero nodes' i = node zero nodes i)
    (left : node zero nodes' (2 * i) = node zero nodes (2 * i))
    (right : node zero nodes' (2 * i + 1) = node zero nodes (2 * i + 1)) :
    Sound zero pair nodes' i := by
  rw [Sound, self, left, right]
  exact sound

theorem sound_rehashNode (pos : 1 ≤ i) (inside : i < nodes.length) :
    Sound zero pair (rehashNode zero pair nodes i) i := by
  rw [Sound, rehashNode, node_set_self zero inside, node_set_of_ne zero nodes (by omega),
    node_set_of_ne zero nodes (by omega)]

theorem lt_child_of_log2_le {j : Nat} (pos : 1 ≤ i) (level : Nat.log2 j ≤ Nat.log2 i) :
    j < 2 * i := by
  have upper : j < 2 ^ (Nat.log2 j + 1) := Nat.lt_log2_self
  have step : 2 ^ (Nat.log2 j + 1) ≤ 2 ^ (Nat.log2 i + 1) :=
    Nat.pow_le_pow_right (by norm_num) (by omega)
  have lower : 2 ^ Nat.log2 i ≤ i := Nat.log2_self_le (by omega)
  rw [pow_succ] at step
  omega

theorem sound_rehashAll_of_mem (up : BottomUp indices)
    (inside : ∀ i ∈ indices, 1 ≤ i ∧ i < nodes.length) (member : k ∈ indices) :
    Sound zero pair (rehashAll zero pair nodes indices) k := by
  induction indices generalizing nodes with
  | nil => cases member
  | cons i rest ih =>
    obtain ⟨above, up⟩ := List.pairwise_cons.mp up
    have tail : ∀ j ∈ rest, 1 ≤ j ∧ j < (rehashNode zero pair nodes i).length := by
      intro j later
      rw [length_rehashNode]
      exact inside j (List.mem_cons_of_mem _ later)
    by_cases later : k ∈ rest
    · exact ih up tail later
    · obtain rfl : k = i := (List.mem_cons.mp member).resolve_right later
      obtain ⟨pos, bound⟩ := inside k List.mem_cons_self
      -- no node after `k` is a child of `k`, so the value written for `k` stays right
      have notChild : ∀ j ∈ rest, j < 2 * k := fun j h => lt_child_of_log2_le pos (above j h)
      have left : 2 * k ∉ rest := fun h => absurd (notChild _ h) (by omega)
      have right : 2 * k + 1 ∉ rest := fun h => absurd (notChild _ h) (by omega)
      exact (sound_rehashNode zero pair pos bound).congr zero pair
        (node_rehashAll_of_not_mem zero pair _ later) (node_rehashAll_of_not_mem zero pair _ left)
        (node_rehashAll_of_not_mem zero pair _ right)

/-- **Repairing a tree.** Recomputing a bottom-up list makes every node below `capacity` sound when
each of them is listed, or is sound with neither child listed. -/
theorem rehashAll_sound_below (up : BottomUp indices)
    (inside : ∀ i ∈ indices, 1 ≤ i ∧ i < nodes.length)
    (cover : ∀ i, 1 ≤ i → i < capacity → i ∈ indices ∨
      (Sound zero pair nodes i ∧ 2 * i ∉ indices ∧ 2 * i + 1 ∉ indices)) (i : Nat) (pos : 1 ≤ i)
    (below : i < capacity) : Sound zero pair (rehashAll zero pair nodes indices) i := by
  by_cases member : i ∈ indices
  · exact sound_rehashAll_of_mem zero pair up inside member
  · obtain ⟨sound, left, right⟩ := (cover i pos below).resolve_left member
    exact sound.congr zero pair (node_rehashAll_of_not_mem zero pair _ member)
      (node_rehashAll_of_not_mem zero pair _ left) (node_rehashAll_of_not_mem zero pair _ right)

/-! ### Trees and their leaves -/

/-- The array is a tree over the leaves `leaf 0, …, leaf (capacity - 1)`: it has the right length,
its unused node is zero and every inner node is sound. -/
structure IsTree (nodes : List H) (capacity : Nat) (leaf : Nat → H) : Prop where
  length : nodes.length = 2 * capacity
  unused : node zero nodes 0 = zero
  sound : ∀ i, 1 ≤ i → i < capacity → Sound zero pair nodes i
  leaves : ∀ j, j < capacity → node zero nodes (capacity + j) = leaf j

theorem IsTree.congr {leaf' : Nat → H} (tree : IsTree zero pair nodes capacity leaf)
    (same : ∀ j, j < capacity → leaf j = leaf' j) : IsTree zero pair nodes capacity leaf' :=
  { tree with leaves := fun j inside => (tree.leaves j inside).trans (same j inside) }

theorem node_unique (one : IsTree zero pair nodes capacity leaf)
    (two : IsTree zero pair nodes' capacity leaf) (i : Nat) (inside : i < 2 * capacity) :
    node zero nodes i = node zero nodes' i := by
  -- downward on the index: the children of a node have larger indices
  induction h : 2 * capacity - i using Nat.strongRecOn generalizing i with
  | _ rest ih =>
    rcases Nat.eq_zero_or_pos i with rfl | pos
    · rw [one.unused, two.unused]
    · by_cases inner : i < capacity
      · rw [one.sound i pos inner, two.sound i pos inner,
          ih _ (by omega) (2 * i) (by omega) rfl, ih _ (by omega) (2 * i + 1) (by omega) rfl]
      · obtain ⟨j, rfl⟩ := Nat.exists_eq_add_of_le (Nat.not_lt.mp inner)
        rw [one.leaves j (by omega), two.leaves j (by omega)]

/-- **The leaves determine the tree.** -/
theorem nodes_unique (one : IsTree zero pair nodes capacity leaf)
    (two : IsTree zero pair nodes' capacity leaf) : nodes = nodes' := by
  refine List.ext_getElem (one.length.trans two.length.symm) fun i left right => ?_
  have same := node_unique zero pair one two i (one.length ▸ left)
  simpa [node, List.getD_eq_getElem?_getD, left, right] using same

end HeapTree
