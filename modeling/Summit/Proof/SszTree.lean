/-
**What the operations of the Merkle tree compute.**

`Over tree capacity leaf`: `tree` is the tree over the leaves `leaf 0, …, leaf (capacity - 1)`,
with nothing left open, so two trees over the same leaves are equal (`Over.unique`). A new tree is
over zeros, setting a leaf changes one leaf, and resizing keeps the leaves that fit. `Commits tree
chunks` is the case the state tree is about: the leaves are a list padded with zeros, and the
capacity is the one its length asks for.
-/

import Summit.Model.SszTree

set_option linter.unusedSectionVars false

namespace Summit

open Bytes HeapTree

variable [Crypto]

namespace SszTree

/-- `tree` is the hash tree over `capacity` leaves `leaf 0, …`. -/
structure Over (tree : SszTree) (capacity : Nat) (leaf : Nat → Bytes32) : Prop where
  capacity_eq : tree.capacity = capacity
  depth_eq : tree.depth = Nat.log2 capacity
  isPow : ∃ d, capacity = 2 ^ d
  isTree : IsTree zeroChunk Crypto.hash32Concat tree.nodes capacity leaf

variable {tree : SszTree} {capacity j d : Nat} {leaf : Nat → Bytes32}

theorem Over.unique {tree' : SszTree} (one : tree.Over capacity leaf)
    (two : tree'.Over capacity leaf) : tree = tree' := by
  obtain ⟨nodes, capacity, depth⟩ := tree
  obtain ⟨nodes', capacity', depth'⟩ := tree'
  have sameCapacity := one.capacity_eq.trans two.capacity_eq.symm
  have sameDepth := one.depth_eq.trans two.depth_eq.symm
  have sameNodes := nodes_unique zeroChunk Crypto.hash32Concat one.isTree two.isTree
  simp only at sameCapacity sameDepth sameNodes
  rw [sameCapacity, sameDepth, sameNodes]

theorem Over.congr {leaf' : Nat → Bytes32} (spans : tree.Over capacity leaf)
    (same : ∀ j, j < capacity → leaf j = leaf' j) : tree.Over capacity leaf' :=
  { spans with isTree := spans.isTree.congr _ _ same }

theorem Over.getLeaf (spans : tree.Over capacity leaf) (inside : j < capacity) :
    tree.getLeaf j = leaf j := by
  rw [SszTree.getLeaf, getNode, spans.capacity_eq]
  exact spans.isTree.leaves j inside

/-! ### A new tree -/

theorem node_foldl_set (nodes : List Bytes32) (value : Bytes32) (start len i : Nat)
    (inside : start + len ≤ nodes.length) :
    ((List.range' start len).foldl (fun nodes i => nodes.set i value) nodes).length =
      nodes.length ∧
    node zeroChunk ((List.range' start len).foldl (fun nodes i => nodes.set i value) nodes) i =
      if start ≤ i ∧ i < start + len then value else node zeroChunk nodes i := by
  induction len generalizing start nodes with
  | zero => simp
  | succ len ih =>
    have rest := ih (nodes.set start value) (start + 1) (by rw [List.length_set]; omega)
    rw [List.range'_succ, List.foldl_cons]
    refine ⟨rest.1.trans List.length_set, rest.2.trans ?_⟩
    by_cases here : i = start
    · subst here
      rw [if_neg (by omega), node_set_self zeroChunk (by omega), if_pos (by omega)]
    · rw [node_set_of_ne zeroChunk nodes here]
      congr 1
      exact propext (by omega)

/-- The nodes of a new tree after the first `k` levels above the leaves are filled. -/
theorem node_new_levels (e k i : Nat) (le : k ≤ e) :
    let filled := (List.range' 1 k).foldl (fun nodes d =>
        (List.range' (2 ^ e >>> d) (2 ^ e >>> (d - 1) - 2 ^ e >>> d)).foldl
          (fun nodes i => nodes.set i (zeroHashes d)) nodes)
      (List.replicate (2 * 2 ^ e) zeroChunk)
    filled.length = 2 * 2 ^ e ∧ node zeroChunk filled i =
      if 2 ^ (e - k) ≤ i ∧ i < 2 ^ e then zeroHashes (e - Nat.log2 i) else zeroChunk := by
  induction k generalizing i with
  | zero =>
    refine ⟨by simp, ?_⟩
    rw [if_neg (by rw [Nat.sub_zero]; omega)]
    exact node_replicate zeroChunk _ i
  | succ k ih =>
    obtain ⟨len, -⟩ := ih 0 (by omega)
    have low : 2 ^ e >>> (k + 1) = 2 ^ (e - (k + 1)) := shiftRight_block le
    have high : 2 ^ e >>> (k + 1 - 1) = 2 ^ (e - k) := shiftRight_block (by omega)
    have step : 2 ^ (e - k) = 2 ^ (e - (k + 1)) * 2 := by
      rw [← pow_succ]
      congr 1
      omega
    have top : 2 ^ (e - k) ≤ 2 ^ e := Nat.pow_le_pow_right (by norm_num) (by omega)
    simp only [List.range'_1_concat, List.foldl_append, List.foldl_cons, List.foldl_nil,
      Nat.add_comm 1 k, low, high]
    have filled := node_foldl_set _ (zeroHashes (k + 1)) (2 ^ (e - (k + 1)))
      (2 ^ (e - k) - 2 ^ (e - (k + 1))) i (by rw [len]; omega)
    refine ⟨filled.1.trans len, filled.2.trans ?_⟩
    rw [(ih i (by omega)).2]
    by_cases here : 2 ^ (e - (k + 1)) ≤ i ∧ i < 2 ^ (e - k)
    · have level : Nat.log2 i = e - (k + 1) := log2_eq_of_level here.1 (by
        rw [pow_succ]
        omega)
      rw [if_pos (by omega), if_pos (by omega), level]
      congr 1
      omega
    · rw [if_neg (by omega)]
      congr 1
      exact propext (by omega)

theorem over_new (n : Nat) : (new n).Over (nextPowerOfTwo n) fun _ => zeroChunk := by
  obtain ⟨e, pow⟩ := nextPowerOfTwo_eq_pow n
  have capacity : max (nextPowerOfTwo n) 1 = 2 ^ e := by
    rw [pow]
    exact max_eq_left Nat.one_le_two_pow
  have nodes : ∀ i, (new n).nodes.length = 2 * 2 ^ e ∧ node zeroChunk (new n).nodes i =
      if 1 ≤ i ∧ i < 2 ^ e then zeroHashes (e - Nat.log2 i) else zeroChunk := by
    intro i
    simpa [new, capacity, Nat.log2_two_pow] using node_new_levels e e i le_rfl
  have depth : (new n).depth = Nat.log2 (max (nextPowerOfTwo n) 1) := rfl
  refine ⟨capacity.trans pow.symm, by rw [depth, capacity, pow], ⟨e, pow⟩, ?_⟩
  rw [pow]
  refine ⟨(nodes 0).1, by rw [(nodes 0).2, if_neg (by omega)], fun i pos below => ?_,
    fun j _ => by rw [(nodes _).2, if_neg (by omega)]⟩
  have inner : Nat.log2 i < e := (Nat.log2_lt (by omega)).mpr below
  have lower : 2 ^ Nat.log2 i ≤ i := Nat.log2_self_le (by omega)
  have upper : i < 2 ^ (Nat.log2 i + 1) := Nat.lt_log2_self
  -- a child is a zero hash one level down, also when it is a leaf
  have child : ∀ c, c / 2 = i → node zeroChunk (new n).nodes c =
      zeroHashes (e - (Nat.log2 i + 1)) := by
    intro c half
    rw [(nodes c).2]
    have level : Nat.log2 c = Nat.log2 i + 1 := by
      rw [← log2_half (by omega : 1 < c), half]
    by_cases leaf : c < 2 ^ e
    · rw [if_pos (by omega), level]
    · have bottom : Nat.log2 i + 1 = e := by
        refine le_antisymm inner ?_
        rw [← level]
        exact (Nat.le_log2 (by omega)).mpr (by omega)
      rw [if_neg (by omega), bottom, Nat.sub_self]
      rfl
  rw [Sound, (nodes i).2, if_pos ⟨pos, below⟩, child (2 * i) (by omega),
    child (2 * i + 1) (by omega), show e - Nat.log2 i = e - (Nat.log2 i + 1) + 1 by omega]
  rfl

/-! ### Changing leaves and the capacity -/

theorem Over.setLeaf (spans : tree.Over capacity leaf) (inside : j < capacity) (value : Bytes32) :
    (tree.setLeaf j value).Over capacity (Function.update leaf j value) := by
  have changed := isTree_setLeaf zeroChunk Crypto.hash32Concat spans.isTree inside value
  rw [← spans.capacity_eq] at changed ⊢
  exact ⟨rfl, spans.capacity_eq ▸ spans.depth_eq, spans.capacity_eq ▸ spans.isPow, changed⟩

/-- The same shape and the same nodes, but for leaf `j` and its ancestors. -/
structure AgreesOff (j : Nat) (tree tree' : SszTree) : Prop where
  capacity : tree.capacity = tree'.capacity
  depth : tree.depth = tree'.depth
  length : tree.nodes.length = tree'.nodes.length
  nodes : ∀ i, (∀ n, (tree.capacity + j) / 2 ^ n ≠ i) → tree.getNode i = tree'.getNode i

/-- Setting a leaf changes the leaf and its ancestors only. -/
theorem agreesOff_setLeaf (tree : SszTree) (j : Nat) (value : Bytes32) :
    AgreesOff j tree (tree.setLeaf j value) where
  capacity := rfl
  depth := rfl
  length := by simp [setLeaf, rehash, setLeafNoRehash]
  nodes i apart := by
    have off : i ∉ pathUp (tree.capacity + j) (tree.capacity + j) := fun member =>
      (exists_half_of_mem_pathUp member).elim apart
    have other : i ≠ tree.capacity + j := fun same => apart 0 (by rw [pow_zero, Nat.div_one, same])
    rw [getNode, getNode, setLeaf, rehash, node_rehashAll_of_not_mem _ _ _ off, setLeafNoRehash,
      node_set_of_ne _ _ other]

/-- Indices below the capacity have their right child inside the array. -/
theorem rehashInside_eq {indices : List Nat} (below : ∀ i ∈ indices, i * 2 + 1 < tree.nodes.length) :
    tree.rehashInside indices = tree.rehash indices := by
  rw [rehashInside, List.filter_eq_self.mpr fun i member => by simpa using below i member]

theorem levelsFrom_lt {k : Nat} (member : k ∈ levelsFrom (2 ^ d / 2) (2 ^ d / 2) (2 ^ d / 2)) :
    k * 2 + 1 < 2 * 2 ^ d := by
  cases d with
  | zero =>
    rw [show (2 ^ 0 / 2 : Nat) = 0 from rfl, levelsFrom_zero] at member
    cases member
  | succ d =>
    have half : 2 ^ (d + 1) / 2 = 2 ^ d := by rw [pow_succ]; omega
    rw [half] at member
    have bounds := mem_levelsFrom_bounds le_rfl (by rw [pow_succ]; have := Nat.two_pow_pos d; omega)
      member
    omega

/-- A resized tree is over the leaves that were copied, zeros after them. -/
theorem over_resize {kept : Nat} (len : tree.nodes.length = 2 * tree.capacity) (fits : kept ≤ 2 ^ d)
    (old : kept ≤ tree.capacity) (leaves : ∀ j, j < kept → tree.getLeaf j = leaf j)
    (zeros : ∀ j, kept ≤ j → j < 2 ^ d → leaf j = zeroChunk) :
    (tree.resize (2 ^ d) kept).Over (2 ^ d) leaf := by
  set nodes := List.replicate (2 ^ d) zeroChunk ++ (tree.nodes.drop tree.capacity).take kept ++
    List.replicate (2 ^ d - kept) zeroChunk with nodesEq
  have copied : ((tree.nodes.drop tree.capacity).take kept).length = kept := by
    rw [List.length_take, List.length_drop]
    omega
  have length : nodes.length = 2 * 2 ^ d := by
    rw [nodesEq, List.length_append, List.length_append, List.length_replicate,
      List.length_replicate, copied]
    omega
  have pos := Nat.two_pow_pos d
  have unused : node zeroChunk nodes 0 = zeroChunk := by
    rw [node, nodesEq, List.getD_eq_getElem?_getD, List.append_assoc,
      List.getElem?_append_left (by simp), List.getElem?_replicate, if_pos pos]
    rfl
  have moved : ∀ j, j < 2 ^ d → node zeroChunk nodes (2 ^ d + j) = leaf j := by
    intro j inside
    rw [node, nodesEq, List.getD_eq_getElem?_getD]
    by_cases before : j < kept
    · rw [List.getElem?_append_left (by rw [List.length_append, List.length_replicate]; omega),
        List.getElem?_append_right (by rw [List.length_replicate]; omega), List.length_replicate,
        Nat.add_sub_cancel_left, List.getElem?_take, if_pos before, List.getElem?_drop]
      exact (List.getD_eq_getElem?_getD.symm).trans (leaves j before)
    · rw [List.getElem?_append_right (by rw [List.length_append, List.length_replicate]; omega),
        List.length_append, List.length_replicate, copied, List.getElem?_replicate]
      rw [zeros j (by omega) inside]
      split <;> rfl
  have rebuilt := isTree_rehashLevels zeroChunk Crypto.hash32Concat length unused moved
  refine ⟨rfl, rfl, ⟨d, rfl⟩, ?_⟩
  have inside : ∀ i ∈ levelsFrom (2 ^ d / 2) (2 ^ d / 2) (2 ^ d / 2),
      i * 2 + 1 < (SszTree.mk nodes (2 ^ d) (Nat.log2 (2 ^ d))).nodes.length :=
    fun i member => lt_of_lt_of_eq (levelsFrom_lt member) length.symm
  rw [resize, rehashFrom, ← nodesEq, rehashInside_eq inside]
  exact rebuilt

end SszTree

end Summit
