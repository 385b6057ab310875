/-
**The orders in which a hash tree is recomputed.**

Three index lists: the ancestors of one node (`pathUp`), the nodes from a position to the end of
its level and of every level above (`levelsFrom`), and the inner nodes of one block of leaves
(`blockIndices`). Each is bottom-up, and each is closed under the step to the parent as far as its
use needs it. `isTree_setLeaf` and `isTree_rehashLevels` are the resulting laws for one changed
leaf and for a tree recomputed as a whole.
-/

import Summit.Lib.HeapTree

namespace HeapTree

/-! ### Levels -/

variable {e i fuel k start d : Nat}

theorem log2_eq_of_level (lower : 2 ^ e ≤ i) (upper : i < 2 ^ (e + 1)) : Nat.log2 i = e := by
  have pos : i ≠ 0 := by
    have := Nat.two_pow_pos e
    omega
  exact le_antisymm (Nat.lt_succ_iff.mp ((Nat.log2_lt pos).mpr upper))
    ((Nat.le_log2 pos).mpr lower)

theorem log2_half (big : 1 < i) : Nat.log2 (i / 2) + 1 = Nat.log2 i := by
  rw [Nat.log2_def i, if_pos (show 2 ≤ i from big)]

theorem half_pow_level (lower : 2 ^ (e + 1) ≤ i) (upper : i < 2 ^ (e + 1 + 1)) :
    2 ^ e ≤ i / 2 ∧ i / 2 < 2 ^ (e + 1) := by
  rw [pow_succ] at lower upper
  omega

/-! ### The ancestors of a node -/

/-- The proper ancestors of node `i`, nearest first. -/
def pathUp : Nat → Nat → List Nat
  | 0, _ => []
  | fuel + 1, i => if 1 < i then i / 2 :: pathUp fuel (i / 2) else []

theorem mem_pathUp_bounds (member : k ∈ pathUp fuel i) :
    1 ≤ k ∧ 2 * k ≤ i ∧ Nat.log2 k < Nat.log2 i := by
  induction fuel generalizing i with
  | zero => cases member
  | succ fuel ih =>
    rw [pathUp] at member
    split at member
    · next big =>
      have level := log2_half big
      rcases List.mem_cons.mp member with rfl | above
      · omega
      · have := ih above
        omega
    · cases member

/-- An ancestor is reached by halving. -/
theorem exists_half_of_mem_pathUp (member : k ∈ pathUp fuel i) : ∃ n, i / 2 ^ n = k := by
  induction fuel generalizing i with
  | zero => cases member
  | succ fuel ih =>
    rw [pathUp] at member
    split at member
    · rcases List.mem_cons.mp member with rfl | above
      · exact ⟨1, by rw [pow_one]⟩
      · obtain ⟨n, rfl⟩ := ih above
        exact ⟨n + 1, by rw [pow_succ', Nat.div_div_eq_div_mul]⟩
    · cases member

theorem bottomUp_pathUp (fuel i : Nat) : BottomUp (pathUp fuel i) := by
  induction fuel generalizing i with
  | zero => exact List.Pairwise.nil
  | succ fuel ih =>
    rw [pathUp]
    split
    · exact List.pairwise_cons.mpr ⟨fun j above => (mem_pathUp_bounds above).2.2.le, ih _⟩
    · exact List.Pairwise.nil

theorem half_mem_pathUp (big : 1 < i) (enough : i ≤ fuel) : i / 2 ∈ pathUp fuel i := by
  obtain ⟨fuel, rfl⟩ : ∃ n, fuel = n + 1 := ⟨fuel - 1, by omega⟩
  rw [pathUp, if_pos big]
  exact List.mem_cons_self

theorem pathUp_closed (enough : i ≤ fuel) (member : k ∈ pathUp fuel i) (big : 1 < k) :
    k / 2 ∈ pathUp fuel i := by
  induction fuel generalizing i with
  | zero => cases member
  | succ fuel ih =>
    rw [pathUp] at member ⊢
    split at member
    · next large =>
      rw [if_pos large]
      rcases List.mem_cons.mp member with rfl | above
      · exact List.mem_cons_of_mem _ (half_mem_pathUp big (by omega))
      · exact List.mem_cons_of_mem _ (ih (by omega) above)
    · cases member

section Trees

variable {H : Type} (zero : H) (pair : H → H → H)

/-- **Changing one leaf.** Writing a leaf and recomputing its ancestors gives the tree over the
changed leaves. -/
theorem isTree_setLeaf {nodes : List H} {capacity : Nat} {leaf : Nat → H}
    (tree : IsTree zero pair nodes capacity leaf) {j : Nat} (inside : j < capacity) (value : H) :
    IsTree zero pair (rehashAll zero pair (nodes.set (capacity + j) value)
      (pathUp (capacity + j) (capacity + j))) capacity (Function.update leaf j value) := by
  set path := pathUp (capacity + j) (capacity + j) with pathEq
  have ofPath : ∀ {k}, k ∈ path → 1 ≤ k ∧ 2 * k ≤ capacity + j := fun member =>
    ⟨(mem_pathUp_bounds member).1, (mem_pathUp_bounds member).2.1⟩
  have len := tree.length
  constructor
  · simp [len]
  · have absent : 0 ∉ path := fun member => absurd (ofPath member).1 (by omega)
    rw [node_rehashAll_of_not_mem zero pair _ absent, node_set_of_ne zero nodes (by omega)]
    exact tree.unused
  · refine rehashAll_sound_below zero pair (bottomUp_pathUp _ _) (fun i member => ?_) ?_
    · have := ofPath member
      simp only [List.length_set, len]
      omega
    · intro i pos below
      by_cases member : i ∈ path
      · exact Or.inl member
      · -- a child on the path, or the changed leaf itself, would put `i` on the path
        have closed : ∀ c, c / 2 = i → c ∉ path := by
          rintro c half onPath
          have large : 1 < c := by omega
          exact member (half ▸ pathUp_closed le_rfl onPath large)
        have notLeaf : ∀ c, c / 2 = i → c ≠ capacity + j := by
          rintro c half rfl
          exact member (half ▸ half_mem_pathUp (by omega) le_rfl)
        refine Or.inr ⟨(tree.sound i pos below).congr zero pair ?_ ?_ ?_, closed _ (by omega),
          closed _ (by omega)⟩
        · exact node_set_of_ne zero nodes (by omega) _
        · exact node_set_of_ne zero nodes (notLeaf _ (by omega)) _
        · exact node_set_of_ne zero nodes (notLeaf _ (by omega)) _
  · intro k small
    have notPath : capacity + k ∉ path := fun member => by
      have := ofPath member
      omega
    rw [node_rehashAll_of_not_mem zero pair _ notPath]
    by_cases same : k = j
    · subst same
      rw [node_set_self zero (by omega), Function.update_self]
    · rw [node_set_of_ne zero nodes (by omega), Function.update_of_ne same]
      exact tree.leaves k small

end Trees

/-! ### From a position to the end of every level -/

/-- The nodes of the level that starts at `levelStart` from `start` on, then those of the level
above from the parent of `start` on, and so on up to the root. -/
def levelsFrom : Nat → Nat → Nat → List Nat
  | 0, _, _ => []
  | fuel + 1, levelStart, start =>
    if levelStart = 0 then []
    else List.range' start (2 * levelStart - start) ++
      if levelStart ≤ 1 then [] else levelsFrom fuel (levelStart / 2) (start / 2)

theorem levelsFrom_zero (fuel start : Nat) : levelsFrom fuel 0 start = [] := by
  cases fuel <;> simp [levelsFrom]

theorem levelsFrom_one (fuel start : Nat) :
    levelsFrom (fuel + 1) (2 ^ 0) start = List.range' start (2 ^ 1 - start) := by
  simp [levelsFrom]

theorem levelsFrom_succ (fuel d start : Nat) :
    levelsFrom (fuel + 1) (2 ^ (d + 1)) start =
      List.range' start (2 ^ (d + 1 + 1) - start) ++ levelsFrom fuel (2 ^ d) (start / 2) := by
  have one := Nat.two_pow_pos d
  have large : ¬ 2 ^ d * 2 ≤ 1 := by omega
  have half : 2 ^ d * 2 / 2 = 2 ^ d := by omega
  simp only [levelsFrom, pow_succ, large, half]
  rw [if_neg (by omega), if_neg not_false, mul_comm 2]

theorem mem_range'_one {len : Nat} : k ∈ List.range' start len ↔ start ≤ k ∧ k < start + len := by
  rw [List.mem_range'_1]

/-- A listed node lies in one of the levels, and not before the start of the list there. -/
theorem mem_levelsFrom_bounds (lower : 2 ^ d ≤ start) (upper : start < 2 ^ (d + 1))
    (member : k ∈ levelsFrom fuel (2 ^ d) start) :
    1 ≤ k ∧ k < 2 ^ (d + 1) ∧ (2 ^ d ≤ k → start ≤ k) := by
  induction fuel generalizing d start with
  | zero => cases member
  | succ fuel ih =>
    have pos := Nat.two_pow_pos d
    cases d with
    | zero =>
      rw [levelsFrom_one, mem_range'_one] at member
      omega
    | succ d =>
      rw [levelsFrom_succ, List.mem_append, mem_range'_one] at member
      rcases member with here | above
      · exact ⟨by omega, by omega, fun _ => here.1⟩
      · obtain ⟨low, high⟩ := half_pow_level lower upper
        have rest := ih low high above
        rw [pow_succ (n := d + 1)]
        exact ⟨rest.1, by omega, fun far => by omega⟩

theorem mem_levelsFrom_of_level (enough : d < fuel) (here : start ≤ k) (upper : k < 2 ^ (d + 1)) :
    k ∈ levelsFrom fuel (2 ^ d) start := by
  obtain ⟨fuel, rfl⟩ : ∃ n, fuel = n + 1 := ⟨fuel - 1, by omega⟩
  cases d with
  | zero =>
    rw [levelsFrom_one, mem_range'_one]
    omega
  | succ d =>
    rw [levelsFrom_succ, List.mem_append, mem_range'_one]
    left
    omega

theorem levelsFrom_closed (enough : d < fuel) (lower : 2 ^ d ≤ start) (upper : start < 2 ^ (d + 1))
    (member : k ∈ levelsFrom fuel (2 ^ d) start) (big : 1 < k) :
    k / 2 ∈ levelsFrom fuel (2 ^ d) start := by
  induction fuel generalizing d start with
  | zero => cases member
  | succ fuel ih =>
    cases d with
    | zero =>
      rw [levelsFrom_one, mem_range'_one] at member
      omega
    | succ d =>
      obtain ⟨low, high⟩ := half_pow_level lower upper
      rw [levelsFrom_succ, List.mem_append, mem_range'_one] at member
      rw [levelsFrom_succ, List.mem_append]
      right
      rcases member with here | above
      · refine mem_levelsFrom_of_level (by omega) (Nat.div_le_div_right here.1) ?_
        rw [pow_succ (n := d + 1)] at here upper
        omega
      · exact ih (by omega) low high above

/-- From the start of its level on, the list holds every node of the level and above it. -/
theorem mem_levelsFrom_of_all (enough : d < fuel) (pos : 1 ≤ k) (upper : k < 2 ^ (d + 1)) :
    k ∈ levelsFrom fuel (2 ^ d) (2 ^ d) := by
  induction fuel generalizing d with
  | zero => omega
  | succ fuel ih =>
    by_cases here : 2 ^ d ≤ k
    · exact mem_levelsFrom_of_level enough here upper
    · cases d with
      | zero => omega
      | succ d =>
        have half : 2 ^ (d + 1) / 2 = 2 ^ d := by rw [pow_succ]; omega
        rw [levelsFrom_succ, List.mem_append, half]
        exact Or.inr (ih (by omega) (by omega))

theorem bottomUp_levelsFrom (lower : 2 ^ d ≤ start) (upper : start < 2 ^ (d + 1)) :
    BottomUp (levelsFrom fuel (2 ^ d) start) := by
  have sameLevel : ∀ {d start : Nat}, 2 ^ d ≤ start → start < 2 ^ (d + 1) →
      BottomUp (List.range' start (2 ^ (d + 1) - start)) := by
    intro d start lower upper
    refine List.pairwise_iff_forall_sublist.mpr fun {i j} sub => ?_
    have at_ : ∀ k ∈ List.range' start (2 ^ (d + 1) - start), Nat.log2 k = d := by
      intro k member
      rw [mem_range'_one] at member
      exact log2_eq_of_level (lower.trans member.1) (by omega)
    rw [at_ i (sub.subset (by simp)), at_ j (sub.subset (by simp))]
  induction fuel generalizing d start with
  | zero => exact List.Pairwise.nil
  | succ fuel ih =>
    cases d with
    | zero =>
      rw [levelsFrom_one]
      exact sameLevel lower upper
    | succ d =>
      obtain ⟨low, high⟩ := half_pow_level lower upper
      rw [levelsFrom_succ]
      refine List.pairwise_append.mpr ⟨sameLevel lower upper, ih low high, fun i here j above => ?_⟩
      rw [mem_range'_one] at here
      have level : Nat.log2 i = d + 1 := log2_eq_of_level (lower.trans here.1) (by omega)
      have bounds := mem_levelsFrom_bounds low high above
      rw [level]
      exact ((Nat.log2_lt (by omega)).mpr bounds.2.1).le

/-- **Recomputing a whole tree.** Whatever the inner nodes were, recomputing every level above the
leaves gives the tree over the leaves. -/
theorem isTree_rehashLevels {H : Type} (zero : H) (pair : H → H → H) {nodes : List H}
    {leaf : Nat → H} (len : nodes.length = 2 * 2 ^ d) (unused : node zero nodes 0 = zero)
    (leaves : ∀ j, j < 2 ^ d → node zero nodes (2 ^ d + j) = leaf j) :
    IsTree zero pair (rehashAll zero pair nodes (levelsFrom (2 ^ d / 2) (2 ^ d / 2) (2 ^ d / 2)))
      (2 ^ d) leaf := by
  cases d with
  | zero =>
    rw [show (2 ^ 0 / 2 : Nat) = 0 from rfl, levelsFrom_zero]
    exact ⟨len, unused, fun i pos below => by omega, leaves⟩
  | succ d =>
    have half : 2 ^ (d + 1) / 2 = 2 ^ d := by rw [pow_succ]; omega
    have grow : d < 2 ^ d := Nat.lt_two_pow_self
    have pos := Nat.two_pow_pos d
    have next : 2 ^ d < 2 ^ (d + 1) := by rw [pow_succ]; omega
    rw [half]
    have bounds : ∀ k ∈ levelsFrom (2 ^ d) (2 ^ d) (2 ^ d), 1 ≤ k ∧ k < 2 ^ (d + 1) :=
      fun k member => ⟨(mem_levelsFrom_bounds le_rfl next member).1,
        (mem_levelsFrom_bounds le_rfl next member).2.1⟩
    constructor
    · simpa using len
    · rw [node_rehashAll_of_not_mem zero pair _ fun member => absurd (bounds 0 member).1 (by omega)]
      exact unused
    · refine rehashAll_sound_below zero pair (bottomUp_levelsFrom le_rfl next) (fun i member => ?_)
        fun i pos below => Or.inl (mem_levelsFrom_of_all grow pos below)
      have := bounds i member
      omega
    · intro j inside
      rw [node_rehashAll_of_not_mem zero pair _ fun member => absurd (bounds _ member).2 (by omega)]
      exact leaves j inside

end HeapTree
