/-
**Hash trees.**

A tree of chunks whose root is computed by hashing pairs. `hashed` lists the pairs that computing
the root hashes and `chunks` the values it starts from. Two computations are `CollisionFree` when
no pair of the one has the hash of another pair of the other: that is all a binding argument needs
of the hash, and it is a condition on two finite lists.

* `root_spread` — the root of a heap array is the root of the tree over its leaves.
* `spread_binding` — **binding**: equal roots of two trees over the same number of subtrees give
  equal roots of the subtrees.
* `exists_subtree_of_climb` — **soundness of a branch**: siblings that lead from a value to the root of
  a tree lead from the subtree at that index, and the value is its root.
* `exists_branch` — **completeness**: every subtree has such a branch, which hashes nothing that
  the tree does not.
-/

import Summit.Lib.HeapTree

/-- Chunks hashed in pairs. -/
inductive HashTree (H : Type) where
  | chunk (value : H)
  | join (left right : HashTree H)

namespace HashTree

variable {H : Type} (pair : H → H → H)

/-! ### Roots -/

def root : HashTree H → H
  | chunk value => value
  | join left right => pair left.root right.root

/-- The pairs hashed for the root. -/
def hashed : HashTree H → List (H × H)
  | chunk _ => []
  | join left right => (left.root pair, right.root pair) :: (left.hashed ++ right.hashed)

/-- The values the root is computed from. -/
def chunks : HashTree H → List H
  | chunk value => [value]
  | join left right => left.chunks ++ right.chunks

/-- The subtrees `trees 0, …, trees (2 ^ depth - 1)` side by side under one root. -/
def spread : Nat → (Nat → HashTree H) → HashTree H
  | 0, trees => trees 0
  | depth + 1, trees => join (spread depth trees) (spread depth fun i => trees (2 ^ depth + i))

/-- Different pairs of the two lists have different hashes. -/
def CollisionFree (one two : List (H × H)) : Prop :=
  ∀ p ∈ one, ∀ q ∈ two, pair p.1 p.2 = pair q.1 q.2 → p = q

instance [DecidableEq H] (one two : List (H × H)) : Decidable (CollisionFree pair one two) :=
  inferInstanceAs (Decidable (∀ p ∈ one, ∀ q ∈ two, pair p.1 p.2 = pair q.1 q.2 → p = q))

variable {pair}

theorem CollisionFree.mono {one two one' two' : List (H × H)} (free : CollisionFree pair one two)
    (left : one' ⊆ one) (right : two' ⊆ two) : CollisionFree pair one' two' :=
  fun p first q second => free p (left first) q (right second)

variable {depth i : Nat} {trees trees' : Nat → HashTree H} {left' right' tree below : HashTree H}
  {zero : H} {nodes : List H} {leaf : Nat → H}

theorem root_spread_congr (same : ∀ i, i < 2 ^ depth → (trees i).root pair = (trees' i).root pair) :
    (spread depth trees).root pair = (spread depth trees').root pair := by
  induction depth generalizing trees trees' with
  | zero => exact same 0 Nat.one_pos
  | succ depth ih =>
    rw [pow_succ] at same
    show pair _ _ = pair _ _
    rw [ih fun i inside => same i (by omega), ih fun i inside => same (2 ^ depth + i) (by omega)]

theorem spread_succ (depth : Nat) (trees : Nat → HashTree H) :
    spread (depth + 1) trees = spread depth fun i => join (trees (2 * i)) (trees (2 * i + 1)) := by
  induction depth generalizing trees with
  | zero => rfl
  | succ depth ih =>
    show join (spread (depth + 1) _) (spread (depth + 1) _) = join (spread depth _) (spread depth _)
    rw [ih, ih]
    have left : ∀ i, 2 ^ (depth + 1) + 2 * i = 2 * (2 ^ depth + i) := fun i => by ring
    have right : ∀ i, 2 ^ (depth + 1) + (2 * i + 1) = 2 * (2 ^ depth + i) + 1 := fun i => by ring
    simp only [left, right]

theorem hashed_subset_spread (depth : Nat) (trees : Nat → HashTree H) (inside : i < 2 ^ depth) :
    (trees i).hashed pair ⊆ (spread depth trees).hashed pair := by
  induction depth generalizing trees i with
  | zero =>
    obtain rfl : i = 0 := Nat.lt_one_iff.mp inside
    exact List.Subset.refl _
  | succ depth ih =>
    intro p member
    refine List.mem_cons_of_mem _ (List.mem_append.mpr ?_)
    by_cases low : i < 2 ^ depth
    · exact Or.inl (ih trees low member)
    · obtain ⟨rest, rfl⟩ := Nat.exists_eq_add_of_le (Nat.not_lt.mp low)
      rw [pow_succ] at inside
      exact Or.inr (ih (fun i => trees (2 ^ depth + i)) (by omega) member)

/-! ### Binding -/

theorem join_binding {left right : HashTree H}
    (free : CollisionFree pair ((join left right).hashed pair) ((join left' right').hashed pair))
    (same : (join left right).root pair = (join left' right').root pair) :
    left.root pair = left'.root pair ∧ right.root pair = right'.root pair :=
  Prod.mk.inj (free _ List.mem_cons_self _ List.mem_cons_self same)

theorem CollisionFree.left {left right : HashTree H}
    (free : CollisionFree pair ((join left right).hashed pair) ((join left' right').hashed pair)) :
    CollisionFree pair (left.hashed pair) (left'.hashed pair) :=
  free.mono (fun _ member => List.mem_cons_of_mem _ (List.mem_append_left _ member))
    fun _ member => List.mem_cons_of_mem _ (List.mem_append_left _ member)

theorem CollisionFree.right {left right : HashTree H}
    (free : CollisionFree pair ((join left right).hashed pair) ((join left' right').hashed pair)) :
    CollisionFree pair (right.hashed pair) (right'.hashed pair) :=
  free.mono (fun _ member => List.mem_cons_of_mem _ (List.mem_append_right _ member))
    fun _ member => List.mem_cons_of_mem _ (List.mem_append_right _ member)

/-- **The root binds the subtrees.** -/
theorem spread_binding
    (free : CollisionFree pair ((spread depth trees).hashed pair)
      ((spread depth trees').hashed pair))
    (same : (spread depth trees).root pair = (spread depth trees').root pair) {i : Nat}
    (inside : i < 2 ^ depth) : (trees i).root pair = (trees' i).root pair := by
  induction depth generalizing trees trees' i with
  | zero =>
    obtain rfl : i = 0 := Nat.lt_one_iff.mp inside
    exact same
  | succ depth ih =>
    obtain ⟨left, right⟩ := join_binding free same
    by_cases low : i < 2 ^ depth
    · exact ih free.left left low
    · obtain ⟨rest, rfl⟩ := Nat.exists_eq_add_of_le (Nat.not_lt.mp low)
      rw [pow_succ] at inside
      exact ih free.right right (by omega)

/-! ### Heap arrays -/

/-- The node whose leaves are those from `start` on, in an array over the roots of `trees`. -/
theorem node_eq_root_spread {capacity : Nat} (tree : HeapTree.IsTree zero pair nodes capacity leaf)
    (roots : ∀ i, i < capacity → leaf i = (trees i).root pair) (depth : Nat) {start : Nat}
    (pos : 1 ≤ i) (first : i * 2 ^ depth = capacity + start) (inside : start + 2 ^ depth ≤ capacity) :
    HeapTree.node zero nodes i = (spread depth fun j => trees (start + j)).root pair := by
  induction depth generalizing i start with
  | zero =>
    rw [pow_zero, Nat.mul_one] at first
    rw [first, tree.leaves start (by omega), roots start (by omega)]
    rfl
  | succ depth ih =>
    rw [pow_succ] at first inside
    have inner : i < capacity := by
      have double : i * (2 ^ depth * 2) = 2 * (i * 2 ^ depth) := by ring
      have least := Nat.le_mul_of_pos_right i (Nat.two_pow_pos depth)
      have positive := Nat.two_pow_pos depth
      omega
    have left : 2 * i * 2 ^ depth = capacity + start := by rw [← first]; ring
    have right : (2 * i + 1) * 2 ^ depth = capacity + (start + 2 ^ depth) := by
      rw [← Nat.add_assoc, ← first]; ring
    rw [tree.sound i pos inner, ih (by omega) left (by omega), ih (by omega) right (by omega)]
    show pair _ _ = pair _ _
    simp only [Nat.add_assoc]

/-- The root of an array is the root of the tree over its leaves. -/
theorem root_spread (tree : HeapTree.IsTree zero pair nodes (2 ^ depth) leaf)
    (roots : ∀ i, i < 2 ^ depth → leaf i = (trees i).root pair) :
    HeapTree.node zero nodes 1 = (spread depth trees).root pair := by
  rw [node_eq_root_spread tree roots depth le_rfl (Nat.one_mul _) (Nat.zero_add _).le]
  simp only [Nat.zero_add]

/-! ### Subtrees -/

def child : HashTree H → Bool → Option (HashTree H)
  | chunk _, _ => none
  | join left right, isRight => some (if isRight then right else left)

/-- The subtree `depth` levels below the root whose index is `i`. The lowest `depth` bits of the
index say where to turn, the highest of them first, so a generalized index may keep its leading
bit. -/
def subtree (tree : HashTree H) : Nat → Nat → Option (HashTree H)
  | 0, _ => some tree
  | depth + 1, i => (tree.subtree depth (i / 2)).bind fun above => above.child (i % 2 = 1)

/-- The subtrees with their indices, where the whole tree has the index `lead`. -/
def subtrees (lead : Nat) : HashTree H → List (Nat × HashTree H)
  | chunk value => [(lead, chunk value)]
  | join left right =>
    (lead, join left right) :: (left.subtrees (2 * lead) ++ right.subtrees (2 * lead + 1))

theorem mem_subtrees_self (lead : Nat) (tree : HashTree H) : (lead, tree) ∈ tree.subtrees lead := by
  cases tree with
  | chunk value => exact List.mem_cons_self
  | join left right => exact List.mem_cons_self

theorem mem_subtrees_child {lead i : Nat} {above : HashTree H} (member : (i / 2, above) ∈ tree.subtrees lead)
    (isChild : above.child (i % 2 = 1) = some below) : (i, below) ∈ tree.subtrees lead := by
  induction tree generalizing lead with
  | chunk value =>
    obtain ⟨-, rfl⟩ := Prod.mk.inj (List.mem_singleton.mp member)
    cases isChild
  | join left right ihLeft ihRight =>
    rcases List.mem_cons.mp member with same | member
    · obtain ⟨rfl, rfl⟩ := Prod.mk.inj same
      refine List.mem_cons_of_mem _ (List.mem_append.mpr ?_)
      obtain rfl := Option.some.inj isChild
      by_cases odd : i % 2 = 1
      · have index : 2 * (i / 2) + 1 = i := by omega
        rw [if_pos (decide_eq_true odd), index]
        exact Or.inr (mem_subtrees_self i right)
      · have index : 2 * (i / 2) = i := by omega
        rw [if_neg (by simpa using odd), index]
        exact Or.inl (mem_subtrees_self i left)
    · refine List.mem_cons_of_mem _ (List.mem_append.mpr ?_)
      exact (List.mem_append.mp member).imp ihLeft ihRight

/-- **Every generalized index that leads to a subtree is among the subtrees.** -/
theorem mem_subtrees {g : Nat} (positive : g ≠ 0)
    (found : tree.subtree (Nat.log2 g) g = some below) : (g, below) ∈ tree.subtrees 1 := by
  induction level : Nat.log2 g generalizing g below with
  | zero =>
    rw [level] at found
    obtain rfl := Option.some.inj found
    have one : g < 2 := by
      have := @Nat.lt_log2_self g
      rwa [level] at this
    obtain rfl : g = 1 := by omega
    exact mem_subtrees_self 1 tree
  | succ depth ih =>
    rw [level] at found
    obtain ⟨above, foundAbove, isChild⟩ := Option.bind_eq_some_iff.mp found
    have large : 2 ^ (depth + 1) ≤ g := level ▸ Nat.log2_self_le positive
    rw [pow_succ] at large
    have power := Nat.two_pow_pos depth
    have half : Nat.log2 (g / 2) = depth := by
      rw [Nat.log2_def, if_pos (by omega)] at level
      exact Nat.succ.inj level
    exact mem_subtrees_child (ih (by omega) (half.symm ▸ foundAbove) half) isChild

/-- What a tree collects from its children, it collects from its subtrees. -/
theorem subset_subtree {A : Type} {items : HashTree H → List A}
    (joins : ∀ left right, items left ⊆ items (join left right) ∧
      items right ⊆ items (join left right))
    (found : tree.subtree depth i = some below) : items below ⊆ items tree := by
  induction depth generalizing below i with
  | zero =>
    cases found
    exact List.Subset.refl _
  | succ depth ih =>
    obtain ⟨above, foundAbove, isChild⟩ := Option.bind_eq_some_iff.mp found
    cases above with
    | chunk value => cases isChild
    | join left right =>
      rw [child, Option.some.injEq] at isChild
      subst isChild
      refine List.Subset.trans ?_ (ih foundAbove)
      split
      · exact (joins left right).2
      · exact (joins left right).1

theorem hashed_subset_subtree (found : tree.subtree depth i = some below) :
    below.hashed pair ⊆ tree.hashed pair := by
  refine subset_subtree (fun left right => ⟨fun p member => ?_, fun p member => ?_⟩) found
  · exact List.mem_cons_of_mem _ (List.mem_append_left _ member)
  · exact List.mem_cons_of_mem _ (List.mem_append_right _ member)

theorem chunks_subset_subtree (found : tree.subtree depth i = some below) :
    below.chunks ⊆ tree.chunks :=
  subset_subtree (fun _ _ => ⟨List.subset_append_left _ _, List.subset_append_right _ _⟩) found

/-- Going down `depth + more` levels is going down `depth` levels and then `more`. -/
theorem subtree_add (tree : HashTree H) (depth more i : Nat) :
    tree.subtree (depth + more) i = (tree.subtree depth (i / 2 ^ more)).bind fun t => t.subtree more i := by
  induction more generalizing i with
  | zero =>
    rw [pow_zero, Nat.div_one]
    exact (Option.bind_fun_some _).symm
  | succ more ih =>
    show (tree.subtree (depth + more) (i / 2)).bind _ = _
    rw [ih, Option.bind_assoc, Nat.div_div_eq_div_mul, pow_succ, Nat.mul_comm 2]
    rfl

theorem subtree_spread (depth : Nat) (trees : Nat → HashTree H) (i : Nat) :
    (spread depth trees).subtree depth i = some (trees (i % 2 ^ depth)) := by
  induction depth generalizing trees i with
  | zero => rw [pow_zero, Nat.mod_one]; rfl
  | succ depth ih =>
    -- the first turn is the highest of the bits, so it is split off at the top
    rw [Nat.add_comm depth 1, subtree_add, Nat.add_comm 1 depth]
    show Option.bind (Option.bind (some (join _ _)) _) _ = _
    rw [Option.bind_some, child, Option.bind_some, pow_succ]
    have split : i % (2 ^ depth * 2) = i % 2 ^ depth + 2 ^ depth * (i / 2 ^ depth % 2) :=
      Nat.mod_mul
    by_cases odd : i / 2 ^ depth % 2 = 1
    · rw [odd, Nat.mul_one] at split
      rw [decide_eq_true odd, if_pos rfl, ih, split, Nat.add_comm]
    · have even : i / 2 ^ depth % 2 = 0 := by omega
      rw [even, Nat.mul_zero, Nat.add_zero] at split
      rw [decide_eq_false odd, if_neg Bool.false_ne_true, ih, split]

/-! ### Branches -/

variable (pair)

/-- The pair that a value at index `i` and its sibling are hashed as. -/
def input (value : H) (i : Nat) (sibling : H) : H × H :=
  if i % 2 = 0 then (value, sibling) else (sibling, value)

/-- One level up: the hash of the value with its sibling, and the index of the parent. -/
def climbStep (state : H × Nat) (sibling : H) : H × Nat :=
  let parent := input state.1 state.2 sibling
  (pair parent.1 parent.2, state.2 / 2)

/-- All levels of a branch, the lowest first. -/
def climb (value : H) (i : Nat) (branch : List H) : H × Nat :=
  branch.foldl (climbStep pair) (value, i)

/-- The pairs that climbing the branch hashes. -/
def climbed : H → Nat → List H → List (H × H)
  | _, _, [] => []
  | value, i, sibling :: rest =>
    input value i sibling :: climbed (climbStep pair (value, i) sibling).1 (i / 2) rest

variable {pair}

theorem climb_cons (value : H) (i : Nat) (sibling : H) (rest : List H) :
    climb pair value i (sibling :: rest) =
      climb pair (climbStep pair (value, i) sibling).1 (i / 2) rest := rfl

theorem climb_append (value : H) (i : Nat) (low high : List H) :
    climb pair value i (low ++ high) =
      climb pair (climb pair value i low).1 (climb pair value i low).2 high :=
  List.foldl_append

theorem climb_index (value : H) (i : Nat) (branch : List H) :
    (climb pair value i branch).2 = i / 2 ^ branch.length := by
  induction branch generalizing value i with
  | nil => rw [List.length_nil, pow_zero, Nat.div_one]; rfl
  | cons sibling rest ih =>
    rw [climb_cons, ih, List.length_cons, pow_succ, Nat.mul_comm, Nat.div_div_eq_div_mul]

/-- **What a branch proves.** Where the hashes of the branch collide with none of the tree and give
none of its chunks, a branch that ends in the root of the tree starts in one of its subtrees. -/
theorem exists_subtree_of_climb {tree : HashTree H} {value : H} {i : Nat} {branch : List H}
    (reaches : (climb pair value i branch).1 = tree.root pair)
    (free : CollisionFree pair (tree.hashed pair) (climbed pair value i branch))
    (raw : ∀ p ∈ climbed pair value i branch, pair p.1 p.2 ∉ tree.chunks) :
    ∃ below, tree.subtree branch.length i = some below ∧ below.root pair = value := by
  induction branch generalizing value i with
  | nil => exact ⟨tree, rfl, reaches.symm⟩
  | cons sibling rest ih =>
    obtain ⟨above, found, rootAbove⟩ := ih reaches
      (free.mono (List.Subset.refl _) (List.subset_cons_self _ _))
      fun p member => raw p (List.mem_cons_of_mem _ member)
    cases above with
    | chunk chunkValue =>
      -- a hash of the branch would be a chunk of the tree
      refine absurd (chunks_subset_subtree found (List.mem_singleton.mpr rfl)) ?_
      rw [show chunkValue = _ from rootAbove]
      exact raw _ List.mem_cons_self
    | join left right =>
      have same := free _ (hashed_subset_subtree found List.mem_cons_self) _ List.mem_cons_self
        rootAbove
      refine ⟨if i % 2 = 1 then right else left, ?_, ?_⟩
      · show (tree.subtree rest.length (i / 2)).bind _ = _
        rw [found, Option.bind_some, child]
        simp only [decide_eq_true_eq]
      · rw [input] at same
        by_cases even : i % 2 = 0
        · rw [if_pos even, Prod.mk.injEq] at same
          rw [if_neg (by omega), same.1]
        · rw [if_neg even, Prod.mk.injEq] at same
          rw [if_pos (by omega), same.2]

/-- **Every subtree has a branch.** -/
theorem exists_branch {tree below : HashTree H} {depth i : Nat}
    (found : tree.subtree depth i = some below) :
    ∃ branch : List H, branch.length = depth ∧
      (climb pair (below.root pair) i branch).1 = tree.root pair ∧
      climbed pair (below.root pair) i branch ⊆ tree.hashed pair := by
  induction depth generalizing below i with
  | zero =>
    cases found
    exact ⟨[], rfl, rfl, List.nil_subset _⟩
  | succ depth ih =>
    obtain ⟨above, foundAbove, isChild⟩ := Option.bind_eq_some_iff.mp found
    cases above with
    | chunk value => cases isChild
    | join left right =>
      obtain ⟨branch, length, reaches, inside⟩ := ih foundAbove
      rw [child, Option.some.injEq] at isChild
      -- the sibling is the other child
      have parent : input (below.root pair) i
          (if i % 2 = 0 then right.root pair else left.root pair) =
          (left.root pair, right.root pair) := by
        rw [input, ← isChild]
        by_cases even : i % 2 = 0
        · simp [even]
        · simp [show i % 2 = 1 by omega]
      have step : (climbStep pair (below.root pair, i)
          (if i % 2 = 0 then right.root pair else left.root pair)).1 =
          (join left right).root pair := by
        rw [climbStep, parent]
        rfl
      refine ⟨(if i % 2 = 0 then right.root pair else left.root pair) :: branch,
        by rw [List.length_cons, length], ?_, ?_⟩
      · rw [climb_cons, step]
        exact reaches
      · rw [climbed, step, parent]
        exact List.cons_subset.mpr ⟨hashed_subset_subtree foundAbove List.mem_cons_self, inside⟩

end HashTree
