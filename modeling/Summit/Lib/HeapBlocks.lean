/-
**Moving whole blocks of leaves inside a hash tree.**

The leaves of a tree with `2 ^ b * m` leaves fall into `m` slots of `2 ^ b` leaves. The nodes of
slot `q` are the descendants of node `m + q`: those `i` with `i / 2 ^ t = m + q`, where `t` is the
depth below that node. Copying a slot's nodes to another slot at every depth keeps them sound
(`BlockMove.sound`), so after a shift of slots only the vacated slot and the nodes above the moved
slots are to be recomputed (`isTree_repair`).
-/

import Mathlib.Data.List.Nodup
import Mathlib.Tactic.Linarith
import Summit.Lib.HeapWalk

namespace HeapTree

variable {H : Type} (zero : H) (pair : H → H → H)

/-! ### Overwriting ranges -/

/-- Copy `len` nodes from `src` on to `dst` on; the ranges may overlap. -/
def copyWithin (nodes : List H) (src len dst : Nat) : List H :=
  nodes.take dst ++ (nodes.drop src).take len ++ nodes.drop (dst + len)

/-- Overwrite `len` nodes from `start` on with zeros. -/
def clearRange (nodes : List H) (start len : Nat) : List H :=
  nodes.take start ++ List.replicate len zero ++ nodes.drop (start + len)

variable {nodes before after : List H}
  {src len dst start m t i q b first count level slot e p v : Nat} {origin : Nat → Option Nat}
  {step : Nat → List H → List H} {depths : List Nat} {leaf : Nat → H}

theorem length_copyWithin (srcIn : src + len ≤ nodes.length) (dstIn : dst + len ≤ nodes.length) :
    (copyWithin nodes src len dst).length = nodes.length := by
  simp only [copyWithin, List.length_append, List.length_take, List.length_drop]
  omega

theorem length_clearRange (inside : start + len ≤ nodes.length) :
    (clearRange zero nodes start len).length = nodes.length := by
  simp only [clearRange, List.length_append, List.length_take, List.length_replicate,
    List.length_drop]
  omega

theorem node_copyWithin (srcIn : src + len ≤ nodes.length) (dstIn : dst + len ≤ nodes.length)
    (k : Nat) :
    node zero (copyWithin nodes src len dst) k =
      if dst ≤ k ∧ k < dst + len then node zero nodes (src + (k - dst)) else node zero nodes k := by
  have front : (nodes.take dst).length = dst := by rw [List.length_take]; omega
  have middle : ((nodes.drop src).take len).length = len := by
    rw [List.length_take, List.length_drop]
    omega
  simp only [node, List.getD_eq_getElem?_getD, copyWithin]
  by_cases before : k < dst
  · rw [List.append_assoc, List.getElem?_append_left (by omega), List.getElem?_take,
      if_pos before, if_neg (by omega)]
  · by_cases inside : k < dst + len
    · rw [List.getElem?_append_left (by rw [List.length_append]; omega),
        List.getElem?_append_right (by omega), front, List.getElem?_take, if_pos (by omega),
        List.getElem?_drop, if_pos ⟨by omega, inside⟩]
    · rw [List.getElem?_append_right (by rw [List.length_append]; omega), List.length_append, front,
        middle, List.getElem?_drop, if_neg (by omega)]
      congr 2
      omega

theorem node_clearRange (inside : start + len ≤ nodes.length) (k : Nat) :
    node zero (clearRange zero nodes start len) k =
      if start ≤ k ∧ k < start + len then zero else node zero nodes k := by
  have front : (nodes.take start).length = start := by rw [List.length_take]; omega
  simp only [node, List.getD_eq_getElem?_getD, clearRange]
  by_cases before : k < start
  · rw [List.append_assoc, List.getElem?_append_left (by omega), List.getElem?_take,
      if_pos before, if_neg (by omega)]
  · by_cases within : k < start + len
    · rw [List.getElem?_append_left (by rw [List.length_append, List.length_replicate]; omega),
        List.getElem?_append_right (by omega), front, List.getElem?_replicate, if_pos (by omega),
        if_pos ⟨by omega, within⟩]
      rfl
    · rw [List.getElem?_append_right (by rw [List.length_append, List.length_replicate]; omega),
        List.length_append, front, List.length_replicate, List.getElem?_drop, if_neg (by omega)]
      congr 2
      omega

/-! ### Slots -/

/-- Node `i` lies `t` levels below the roots of `m` slots. -/
def AtDepth (m t i : Nat) : Prop := m ≤ i / 2 ^ t ∧ i / 2 ^ t < 2 * m

theorem AtDepth.bounds (at_ : AtDepth m t i) : 2 ^ t * m ≤ i ∧ i < 2 ^ t * (2 * m) := by
  obtain ⟨low, high⟩ := at_
  rw [Nat.le_div_iff_mul_le (Nat.two_pow_pos t)] at low
  rw [Nat.div_lt_iff_lt_mul (Nat.two_pow_pos t)] at high
  exact ⟨by linarith, by linarith⟩

theorem AtDepth.unique {t' : Nat} (one : AtDepth m t i) (two : AtDepth m t' i) : t = t' := by
  by_contra differ
  wlog less : t < t' generalizing t t'
  · exact this two one (Ne.symm differ) (by omega)
  have low := two.bounds.1
  have high := one.bounds.2
  have step : 2 ^ (t + 1) ≤ 2 ^ t' := Nat.pow_le_pow_right (by norm_num) less
  have scaled : 2 ^ (t + 1) * m ≤ 2 ^ t' * m := Nat.mul_le_mul_right m step
  rw [pow_succ] at scaled
  have same : 2 ^ t * (2 * m) = 2 ^ t * 2 * m := by ring
  omega

theorem AtDepth.child {c : Nat} (at_ : AtDepth m t i) (half : c / 2 = i) :
    AtDepth m (t + 1) c ∧ c / 2 ^ (t + 1) = i / 2 ^ t := by
  have same : c / 2 ^ (t + 1) = i / 2 ^ t := by
    rw [pow_succ', ← Nat.div_div_eq_div_mul, half]
  exact ⟨by unfold AtDepth; rw [same]; exact at_, same⟩

theorem exists_atDepth (b : Nat) (low : m ≤ i) (high : i < 2 ^ (b + 1) * m) :
    ∃ t ≤ b, AtDepth m t i := by
  induction b with
  | zero => exact ⟨0, le_rfl, by simp only [AtDepth, pow_zero, Nat.div_one]; omega⟩
  | succ b ih =>
    by_cases below : i < 2 ^ (b + 1) * m
    · obtain ⟨t, le, at_⟩ := ih below
      exact ⟨t, by omega, at_⟩
    · refine ⟨b + 1, le_rfl, ?_, ?_⟩
      · rw [Nat.le_div_iff_mul_le (Nat.two_pow_pos _)]
        linarith
      · rw [Nat.div_lt_iff_lt_mul (Nat.two_pow_pos _)]
        rw [pow_succ (n := b + 1)] at high
        linarith

theorem not_atDepth_of_lt (upper : i < m) : ¬ AtDepth m t i := fun at_ =>
  absurd at_.1 (Nat.not_le.mpr ((Nat.div_le_self i _).trans_lt upper))

/-! ### Moving slots -/

/-- The content of a node after every slot `q` has been overwritten by slot `origin q` of `nodes`,
or cleared when `origin q` is `none`. -/
def moved (nodes : List H) (m : Nat) (origin : Nat → Option Nat) (t i : Nat) : H :=
  match origin (i / 2 ^ t - m) with
  | none => zero
  | some q => node zero nodes (2 ^ t * (m + q) + i % 2 ^ t)

/-- `step t` overwrites the slots at depth `t` and touches nothing else. -/
structure LevelMove (b m : Nat) (origin : Nat → Option Nat) (step : Nat → List H → List H) :
    Prop where
  length : ∀ {t nodes}, t ≤ b → nodes.length = 2 * (2 ^ b * m) →
    (step t nodes).length = nodes.length
  inside : ∀ {t nodes i}, t ≤ b → nodes.length = 2 * (2 ^ b * m) → AtDepth m t i →
    node zero (step t nodes) i = moved zero nodes m origin t i
  outside : ∀ {t nodes i}, t ≤ b → nodes.length = 2 * (2 ^ b * m) → ¬ AtDepth m t i →
    node zero (step t nodes) i = node zero nodes i
  origin_lt : ∀ {q q'}, q < m → origin q = some q' → q' < m

/-- `after` is `before` with its slots moved at every depth down to the leaves. -/
structure BlockMove (b m : Nat) (origin : Nat → Option Nat) (before after : List H) : Prop where
  length : after.length = before.length
  slots : ∀ {t i}, t ≤ b → AtDepth m t i → node zero after i = moved zero before m origin t i
  upper : ∀ {i}, i < m → node zero after i = node zero before i

theorem atDepth_source (inside : q < m) : AtDepth m t (2 ^ t * (m + q) + i % 2 ^ t) := by
  have quotient : (2 ^ t * (m + q) + i % 2 ^ t) / 2 ^ t = m + q := by
    rw [Nat.mul_add_div (Nat.two_pow_pos t), Nat.div_eq_of_lt (Nat.mod_lt _ (Nat.two_pow_pos t)),
      Nat.add_zero]
  constructor <;> rw [quotient] <;> omega

theorem moved_congr {nodes' : List H} (move : LevelMove zero b m origin step) (at_ : AtDepth m t i)
    (same : ∀ k, AtDepth m t k → node zero nodes' k = node zero nodes k) :
    moved zero nodes' m origin t i = moved zero nodes m origin t i := by
  unfold moved
  cases from_ : origin (i / 2 ^ t - m) with
  | none => rfl
  | some q =>
    obtain ⟨low, high⟩ := at_
    exact same _ (atDepth_source (move.origin_lt (by omega) from_))

/-- Moving depth after depth: a depth in the list is moved, the others keep their nodes. -/
theorem LevelMove.foldl (move : LevelMove zero b m origin step) (nodup : depths.Nodup)
    (range : ∀ t ∈ depths, t ≤ b) (len : nodes.length = 2 * (2 ^ b * m)) :
    (depths.foldl (fun acc t => step t acc) nodes).length = nodes.length ∧
    (∀ {t i}, AtDepth m t i → node zero (depths.foldl (fun acc t => step t acc) nodes) i =
      if t ∈ depths then moved zero nodes m origin t i else node zero nodes i) ∧
    (∀ {i}, i < m → node zero (depths.foldl (fun acc t => step t acc) nodes) i =
      node zero nodes i) := by
  induction depths generalizing nodes with
  | nil => exact ⟨rfl, fun _ => by simp, fun _ => rfl⟩
  | cons d rest ih =>
    obtain ⟨fresh, nodup⟩ := List.nodup_cons.mp nodup
    have dLe := range d List.mem_cons_self
    have stepLen := move.length dLe len
    obtain ⟨restLen, restSlots, restUpper⟩ := ih nodup
      (fun t member => range t (List.mem_cons_of_mem _ member)) (stepLen.trans len)
    refine ⟨restLen.trans stepLen, fun {t i} at_ => ?_, fun {i} upper => ?_⟩
    · rw [List.foldl_cons, restSlots at_]
      have other : t ≠ d → ∀ k, AtDepth m t k → node zero (step d nodes) k = node zero nodes k :=
        fun differ k here => move.outside dLe len fun there => differ (here.unique there)
      by_cases member : t ∈ rest
      · have differ : t ≠ d := fun same => fresh (same ▸ member)
        rw [if_pos member, if_pos (List.mem_cons_of_mem _ member)]
        exact moved_congr zero move at_ (other differ)
      · rw [if_neg member]
        by_cases same : t = d
        · subst same
          rw [if_pos List.mem_cons_self]
          exact move.inside dLe len at_
        · rw [if_neg (by simp [same, member])]
          exact other same i at_
    · rw [List.foldl_cons, restUpper upper]
      exact move.outside dLe len (not_atDepth_of_lt upper)

theorem LevelMove.blockMove (move : LevelMove zero b m origin step)
    (len : nodes.length = 2 * (2 ^ b * m)) (nodup : depths.Nodup) (all : ∀ t, t ∈ depths ↔ t ≤ b) :
    BlockMove zero b m origin nodes (depths.foldl (fun acc t => step t acc) nodes) := by
  obtain ⟨length, slots, upper⟩ := move.foldl zero nodup (fun t => (all t).mp) len
  exact ⟨length, fun le at_ => by rw [slots at_, if_pos ((all _).mpr le)], upper⟩

/-- A moved slot that was sound stays sound. -/
theorem BlockMove.sound (move : BlockMove zero b m origin before after) (le : t < b)
    (at_ : AtDepth m t i) (from_ : origin (i / 2 ^ t - m) = some q)
    (sound : Sound zero pair before (2 ^ t * (m + q) + i % 2 ^ t)) : Sound zero pair after i := by
  have child : ∀ c, c / 2 = i → node zero after c =
      node zero before (2 * (2 ^ t * (m + q) + i % 2 ^ t) + c % 2) := by
    intro c half
    obtain ⟨below, same⟩ := at_.child half
    have offset : 2 ^ (t + 1) * (m + q) + c % 2 ^ (t + 1) =
        2 * (2 ^ t * (m + q) + i % 2 ^ t) + c % 2 := by
      rw [pow_succ', Nat.mod_mul, half]
      ring
    rw [move.slots (t := t + 1) le below, moved, same, from_]
    simp only [offset]
  rw [Sound, move.slots le.le at_, moved, from_, child (2 * i) (by omega),
    child (2 * i + 1) (by omega)]
  unfold Sound at sound
  simpa [Nat.mul_add_mod] using sound

/-! ### Shifting slots by one -/

/-- At one depth, move `count` slots of `stride` nodes from slot `first` on one slot to the right
and clear slot `first`; slot `0` starts at node `base`. -/
def shiftLevelRight (base first count stride : Nat) (nodes : List H) : List H :=
  clearRange zero (copyWithin nodes (base + first * stride) (count * stride)
    (base + first * stride + stride)) (base + first * stride) stride

/-- At one depth, move `count` slots from slot `first + 1` on one slot to the left and clear the
last of them. -/
def shiftLevelLeft (base first count stride : Nat) (nodes : List H) : List H :=
  clearRange zero (copyWithin nodes (base + (first + 1) * stride) (count * stride)
    (base + first * stride)) (base + first * stride + count * stride) stride

/-- Where a slot comes from when `count` slots from `first` on move to the right. -/
def originRight (first count q : Nat) : Option Nat :=
  if q = first then none else if first < q ∧ q ≤ first + count then some (q - 1) else some q

/-- Where a slot comes from when `count` slots from `first + 1` on move to the left. -/
def originLeft (first count q : Nat) : Option Nat :=
  if first ≤ q ∧ q < first + count then some (q + 1)
  else if q = first + count then none else some q

theorem moved_of_none (from_ : origin (i / 2 ^ t - m) = none) :
    moved zero nodes m origin t i = zero := by
  rw [moved, from_]

theorem moved_of_some (from_ : origin (i / 2 ^ t - m) = some q) :
    moved zero nodes m origin t i = node zero nodes (2 ^ t * (m + q) + i % 2 ^ t) := by
  rw [moved, from_]

theorem moved_of_self (low : m ≤ i / 2 ^ t) (from_ : origin (i / 2 ^ t - m) = some (i / 2 ^ t - m)) :
    moved zero nodes m origin t i = node zero nodes i := by
  rw [moved_of_some zero from_, show m + (i / 2 ^ t - m) = i / 2 ^ t by omega, Nat.div_add_mod]

theorem originRight_self (first count : Nat) : originRight first count first = none := if_pos rfl

theorem originRight_moved (after : first < q) (within : q ≤ first + count) :
    originRight first count q = some (q - 1) := by
  rw [originRight, if_neg (by omega), if_pos ⟨after, within⟩]

theorem originRight_kept (out : q < first ∨ first + count < q) :
    originRight first count q = some q := by
  rw [originRight, if_neg (by omega), if_neg (by omega)]

theorem originLeft_last (first count : Nat) : originLeft first count (first + count) = none := by
  rw [originLeft, if_neg (by omega), if_pos rfl]

theorem originLeft_moved (from_ : first ≤ q) (within : q < first + count) :
    originLeft first count q = some (q + 1) := if_pos ⟨from_, within⟩

theorem originLeft_kept (out : q < first ∨ first + count < q) :
    originLeft first count q = some q := by
  rw [originLeft, if_neg (by omega), if_neg (by omega)]

theorem slots_fit {k : Nat} (le : t ≤ b) (inside : k ≤ 2 * m) : k * 2 ^ t ≤ 2 * (2 ^ b * m) := by
  calc k * 2 ^ t ≤ 2 * m * 2 ^ t := Nat.mul_le_mul_right _ inside
    _ ≤ 2 * m * 2 ^ b := Nat.mul_le_mul_left _ (Nat.pow_le_pow_right (by norm_num) le)
    _ = 2 * (2 ^ b * m) := by ring

theorem in_slots_iff {last : Nat} :
    first * 2 ^ t ≤ i ∧ i < last * 2 ^ t ↔ first ≤ i / 2 ^ t ∧ i / 2 ^ t < last := by
  rw [Nat.le_div_iff_mul_le (Nat.two_pow_pos t), Nat.div_lt_iff_lt_mul (Nat.two_pow_pos t)]

/-- At every depth, `count` slots from slot `src` on are copied to slot `dst` on, and slot `last` is
cleared. -/
theorem levelMove_of_shift (src dst last count : Nat) (srcIn : src + count ≤ m)
    (dstIn : dst + count ≤ m) (lastIn : last < m)
    (shifts : ∀ t nodes, step t nodes = clearRange zero (copyWithin nodes ((m + src) * 2 ^ t)
      (count * 2 ^ t) ((m + dst) * 2 ^ t)) ((m + last) * 2 ^ t) (2 ^ t))
    (comes : ∀ q, origin q = if q = last then none
      else if dst ≤ q ∧ q < dst + count then some (src + (q - dst)) else some q) :
    LevelMove zero b m origin step := by
  have node_step {t : Nat} {nodes : List H} (le : t ≤ b) (len : nodes.length = 2 * (2 ^ b * m)) :
      (step t nodes).length = nodes.length ∧ ∀ i, node zero (step t nodes) i =
        if m + last ≤ i / 2 ^ t ∧ i / 2 ^ t < m + last + 1 then zero
        else if m + dst ≤ i / 2 ^ t ∧ i / 2 ^ t < m + dst + count then
          node zero nodes ((m + src) * 2 ^ t + (i - (m + dst) * 2 ^ t))
        else node zero nodes i := by
    have next : (m + last) * 2 ^ t + 2 ^ t = (m + last + 1) * 2 ^ t := by ring
    have srcEnd : (m + src) * 2 ^ t + count * 2 ^ t = (m + src + count) * 2 ^ t := by ring
    have dstEnd : (m + dst) * 2 ^ t + count * 2 ^ t = (m + dst + count) * 2 ^ t := by ring
    have fits {k : Nat} (inside : k ≤ 2 * m) : k * 2 ^ t ≤ nodes.length := len ▸ slots_fit le inside
    have copyIn := srcEnd.trans_le (fits (by omega))
    have copyOut := dstEnd.trans_le (fits (by omega))
    have copied := length_copyWithin copyIn copyOut
    have clearIn := next.trans_le ((fits (by omega)).trans copied.ge)
    rw [shifts]
    refine ⟨(length_clearRange zero clearIn).trans copied, fun i => ?_⟩
    rw [node_clearRange zero clearIn, node_copyWithin zero copyIn copyOut, dstEnd, next]
    simp only [in_slots_iff]
  constructor
  case length => exact fun le len => (node_step le len).1
  case inside =>
    intro t nodes i le len at_
    obtain ⟨low, -⟩ := at_
    rw [(node_step le len).2]
    split_ifs with here within
    · refine (moved_of_none zero ?_).symm
      rw [comes, if_pos (by omega)]
    · obtain ⟨k, eq⟩ : ∃ k, i / 2 ^ t = m + (dst + k) := ⟨i / 2 ^ t - m - dst, by omega⟩
      have from_ : origin (i / 2 ^ t - m) = some (src + k) := by
        rw [comes, if_neg (by omega), if_pos (by omega)]
        congr 1
        omega
      have parts := Nat.div_add_mod i (2 ^ t)
      have shifted : 2 ^ t * (m + (dst + k)) = (m + dst) * 2 ^ t + 2 ^ t * k := by ring
      rw [eq, shifted] at parts
      rw [moved_of_some zero from_, show 2 ^ t * (m + (src + k)) =
        (m + src) * 2 ^ t + 2 ^ t * k by ring]
      congr 1
      omega
    · refine (moved_of_self zero low ?_).symm
      rw [comes, if_neg (by omega), if_neg (by omega)]
  case outside =>
    intro t nodes i le len out
    have notIn : ¬ (m ≤ i / 2 ^ t ∧ i / 2 ^ t < 2 * m) := out
    rw [(node_step le len).2, if_neg (by omega), if_neg (by omega)]
  case origin_lt =>
    intro q q' inside from_
    rw [comes] at from_
    split_ifs at from_ <;> simp only [Option.some.injEq] at from_ <;> omega

theorem levelMove_right (room : first + count < m) :
    LevelMove zero b m (originRight first count)
      (fun t => shiftLevelRight zero (2 ^ t * m) first count (2 ^ t)) := by
  refine levelMove_of_shift zero first (first + 1) first count (by omega) (by omega)
    (by omega) (fun t nodes => ?_) fun q => by grind [originRight]
  have start : 2 ^ t * m + first * 2 ^ t = (m + first) * 2 ^ t := by ring
  have next : (m + first) * 2 ^ t + 2 ^ t = (m + (first + 1)) * 2 ^ t := by ring
  simp only [shiftLevelRight, start, next]

theorem levelMove_left (room : first + count < m) :
    LevelMove zero b m (originLeft first count)
      (fun t => shiftLevelLeft zero (2 ^ t * m) first count (2 ^ t)) := by
  refine levelMove_of_shift zero (first + 1) first (first + count) count (by omega) (by omega)
    (by omega) (fun t nodes => ?_) fun q => by grind [originLeft]
  have slot (k : Nat) : 2 ^ t * m + k * 2 ^ t = (m + k) * 2 ^ t := by ring
  have next : (m + first) * 2 ^ t + count * 2 ^ t = (m + (first + count)) * 2 ^ t := by ring
  simp only [shiftLevelLeft, slot, next]

/-! ### All levels of a block -/

theorem shiftRight_capacity (le : level ≤ b) : (2 ^ b * m) >>> level = 2 ^ (b - level) * m := by
  rw [Nat.shiftRight_eq_div_pow]
  refine Nat.div_eq_of_eq_mul_right (Nat.two_pow_pos level) ?_
  rw [← mul_assoc, ← pow_add, Nat.add_sub_cancel' le]

theorem shiftRight_block (le : level ≤ b) : 2 ^ b >>> level = 2 ^ (b - level) := by
  simpa using shiftRight_capacity (m := 1) le

/-- The levels of a block, from the leaves up, are its depths from the deepest on. -/
theorem blockMove_levels (move : LevelMove zero b m origin step)
    (len : nodes.length = 2 * (2 ^ b * m)) :
    BlockMove zero b m origin nodes
      ((List.range (b + 1)).foldl (fun acc level => step (b - level) acc) nodes) := by
  have depths : (List.range (b + 1)).foldl (fun acc level => step (b - level) acc) nodes =
      ((List.range (b + 1)).map (b - ·)).foldl (fun acc t => step t acc) nodes := by
    rw [List.foldl_map]
  rw [depths]
  refine move.blockMove zero len ?_ fun t => ?_
  · refine (List.nodup_map_iff_inj_on List.nodup_range).mpr fun i left j right same => ?_
    rw [List.mem_range] at left right
    omega
  · rw [List.mem_map]
    constructor
    · rintro ⟨level, -, rfl⟩
      omega
    · intro le
      exact ⟨b - t, List.mem_range.mpr (by omega), by omega⟩

/-- The inner nodes of the block of leaves at `slot`, from the leaves' parents up. -/
def blockIndices (capacity slot blockSize : Nat) : List Nat :=
  (List.range' 1 (Nat.log2 blockSize)).flatMap fun level =>
    List.range' ((capacity >>> level) + slot * (blockSize >>> level)) (blockSize >>> level)

theorem mem_blockLevel (le : level ≤ b) :
    i ∈ List.range' ((2 ^ b * m) >>> level + slot * (2 ^ b >>> level)) (2 ^ b >>> level) ↔
      i / 2 ^ (b - level) = m + slot := by
  have pos := Nat.two_pow_pos (b - level)
  have start : 2 ^ (b - level) * m + slot * 2 ^ (b - level) = (m + slot) * 2 ^ (b - level) := by ring
  have stop : (m + slot) * 2 ^ (b - level) + 2 ^ (b - level) = (m + slot + 1) * 2 ^ (b - level) := by
    ring
  rw [shiftRight_capacity le, shiftRight_block le, mem_range'_one, start, stop, in_slots_iff]
  omega

theorem mem_blockIndices :
    i ∈ blockIndices (2 ^ b * m) slot (2 ^ b) ↔ ∃ t < b, i / 2 ^ t = m + slot := by
  rw [blockIndices, Nat.log2_two_pow, List.mem_flatMap]
  constructor
  · rintro ⟨level, here, member⟩
    rw [mem_range'_one] at here
    exact ⟨b - level, by omega, (mem_blockLevel (by omega)).mp member⟩
  · rintro ⟨t, less, same⟩
    refine ⟨b - t, by rw [mem_range'_one]; omega, (mem_blockLevel (by omega)).mpr ?_⟩
    rw [Nat.sub_sub_self less.le]
    exact same

theorem log2_of_slot (inside : slot < 2 ^ e) (same : i / 2 ^ t = 2 ^ e + slot) :
    Nat.log2 i = e + t := by
  have bounds : (2 ^ e + slot) * 2 ^ t ≤ i ∧ i < (2 ^ e + slot + 1) * 2 ^ t :=
    in_slots_iff.mpr (by omega)
  have lower : 2 ^ e * 2 ^ t ≤ (2 ^ e + slot) * 2 ^ t := Nat.mul_le_mul_right _ (by omega)
  have upper : (2 ^ e + slot + 1) * 2 ^ t ≤ 2 ^ e * 2 * 2 ^ t := Nat.mul_le_mul_right _ (by omega)
  have twice : 2 ^ e * 2 * 2 ^ t = 2 ^ (e + t + 1) := by rw [pow_succ, pow_add]; ring
  rw [← pow_add] at lower
  exact log2_eq_of_level (by omega) (by omega)

theorem bottomUp_blockIndices (inside : slot < 2 ^ e) :
    BottomUp (blockIndices (2 ^ b * 2 ^ e) slot (2 ^ b)) := by
  rw [blockIndices, Nat.log2_two_pow, BottomUp, List.pairwise_flatMap]
  have level : ∀ {l i}, l ∈ List.range' 1 b → i ∈ List.range'
      ((2 ^ b * 2 ^ e) >>> l + slot * (2 ^ b >>> l)) (2 ^ b >>> l) → Nat.log2 i = e + (b - l) := by
    intro l i here member
    rw [mem_range'_one] at here
    exact log2_of_slot inside ((mem_blockLevel (by omega)).mp member)
  constructor
  · intro l here
    refine List.pairwise_iff_forall_sublist.mpr fun {i j} sub => ?_
    rw [level here (sub.subset (by simp)), level here (sub.subset (by simp))]
  · have ordered : (List.range' 1 b).Pairwise (· < ·) := List.pairwise_lt_range'
    refine ordered.imp_of_mem fun {l l'} left right less i one j two => ?_
    rw [level left one, level right two]
    omega

/-! ### Repairing a tree after a move -/

/-- The nodes above the slots that are recomputed when slot `p` and later ones have changed. -/
def upperIndices (m p : Nat) : List Nat := levelsFrom (m / 2) (m / 2) ((m + p) / 2)

theorem upperIndices_spec (inside : p < 2 ^ e) :
    BottomUp (upperIndices (2 ^ e) p) ∧
    (∀ k ∈ upperIndices (2 ^ e) p, 1 ≤ k ∧ k < 2 ^ e) ∧
    (∀ k ∈ upperIndices (2 ^ e) p, 1 < k → k / 2 ∈ upperIndices (2 ^ e) p) ∧
    (∀ c, 1 < c → 2 ^ e + p ≤ c → c < 2 * 2 ^ e → c / 2 ∈ upperIndices (2 ^ e) p) := by
  unfold upperIndices
  cases e with
  | zero =>
    rw [show (2 ^ 0 / 2 : Nat) = 0 from rfl, levelsFrom_zero]
    refine ⟨List.Pairwise.nil, by simp, by simp, fun c big low high => by omega⟩
  | succ d =>
    have pos := Nat.two_pow_pos d
    have half : 2 ^ (d + 1) / 2 = 2 ^ d := by rw [pow_succ]; omega
    have twice : 2 ^ (d + 1) = 2 ^ d * 2 := pow_succ 2 d
    have low : 2 ^ d ≤ (2 ^ (d + 1) + p) / 2 := by omega
    have high : (2 ^ (d + 1) + p) / 2 < 2 ^ (d + 1) := by omega
    have enough : d < 2 ^ d := Nat.lt_two_pow_self
    rw [half]
    refine ⟨bottomUp_levelsFrom low high, fun k member => ?_,
      fun k member big => levelsFrom_closed enough low high member big,
      fun c big lower upper => mem_levelsFrom_of_level enough (by omega) (by omega)⟩
    exact ⟨(mem_levelsFrom_bounds low high member).1, (mem_levelsFrom_bounds low high member).2.1⟩

/-- A tree of `2 ^ e` slots of `2 ^ b` leaves with the right leaves, torn at slot `v`: every other
slot is sound, and so is every node above the slots that is not above slot `p` or a later one. -/
structure Torn (b e v p : Nat) (nodes : List H) (leaf : Nat → H) : Prop where
  length : nodes.length = 2 * (2 ^ b * 2 ^ e)
  unused : node zero nodes 0 = zero
  slots : ∀ t i, t < b → AtDepth (2 ^ e) t i → i / 2 ^ t ≠ 2 ^ e + v → Sound zero pair nodes i
  upper : ∀ i, 1 ≤ i → i < 2 ^ e → i ∉ upperIndices (2 ^ e) p → Sound zero pair nodes i
  leaves : ∀ j, j < 2 ^ b * 2 ^ e → node zero nodes (2 ^ b * 2 ^ e + j) = leaf j

theorem atDepth_inner (less : t < b) (at_ : AtDepth (2 ^ e) t i) : 1 ≤ i ∧ i < 2 ^ b * 2 ^ e := by
  have bounds := at_.bounds
  have low := Nat.mul_le_mul (Nat.two_pow_pos t) (Nat.two_pow_pos e)
  have step : 2 ^ (t + 1) * 2 ^ e ≤ 2 ^ b * 2 ^ e :=
    Nat.mul_le_mul_right _ (Nat.pow_le_pow_right (by norm_num) less)
  have twice : 2 ^ (t + 1) * 2 ^ e = 2 ^ t * (2 * 2 ^ e) := by ring
  omega

/-- A whole tree counts as torn anywhere. -/
theorem IsTree.torn (tree : IsTree zero pair nodes (2 ^ b * 2 ^ e) leaf) :
    Torn zero pair b e v p nodes leaf where
  length := tree.length
  unused := tree.unused
  slots _ i less at_ _ :=
    tree.sound i (atDepth_inner less at_).1 (atDepth_inner less at_).2
  upper i pos below _ := tree.sound i pos
    (lt_of_lt_of_le below (Nat.le_mul_of_pos_left _ (Nat.two_pow_pos b)))
  leaves := tree.leaves

/-- Moving the slots tears a tree only at the slot that is left without an origin, and above the
slots from the first moved one on. -/
theorem BlockMove.torn (pIn : p < 2 ^ e) (tree : IsTree zero pair before (2 ^ b * 2 ^ e) leaf)
    (move : BlockMove zero b (2 ^ e) origin before after)
    (range : ∀ {q q'}, q < 2 ^ e → origin q = some q' → q' < 2 ^ e)
    (filled : ∀ q, q < 2 ^ e → q ≠ v → ∃ q', origin q = some q')
    (kept : ∀ q, q < p → origin q = some q) :
    Torn zero pair b e v p after fun j => match origin (j / 2 ^ b) with
      | none => zero
      | some q => leaf (2 ^ b * q + j % 2 ^ b) := by
  have mPos := Nat.two_pow_pos e
  obtain ⟨-, -, -, upLevel⟩ := upperIndices_spec pIn
  constructor
  · exact move.length.trans tree.length
  · rw [move.upper mPos]
    exact tree.unused
  · intro t i less at_ other
    obtain ⟨low, high⟩ := at_
    obtain ⟨q, from_⟩ := filled (i / 2 ^ t - 2 ^ e) (by omega) (by omega)
    have inside : q < 2 ^ e := range (by omega) from_
    have bounds := atDepth_inner less (atDepth_source (t := t) (i := i) inside)
    exact move.sound zero pair less ⟨low, high⟩ from_ (tree.sound _ bounds.1 bounds.2)
  · intro i pos below notUpper
    have capLe : 2 ^ e ≤ 2 ^ b * 2 ^ e := Nat.le_mul_of_pos_left _ (Nat.two_pow_pos b)
    -- a child that is the root of a slot lies before slot `p`, so that slot has not moved
    have child : ∀ c, c / 2 = i → node zero after c = node zero before c := by
      intro c half
      by_cases high : c < 2 ^ e
      · exact move.upper high
      · have early : c < 2 ^ e + p := by
          by_contra late
          exact notUpper (half ▸ upLevel c (by omega) (by omega) (by omega))
        have quotient : c / 2 ^ 0 = c := by rw [pow_zero, Nat.div_one]
        have at_ : AtDepth (2 ^ e) 0 c := by
          constructor <;> rw [quotient] <;> omega
        rw [move.slots (Nat.zero_le b) at_]
        refine moved_of_self zero at_.1 ?_
        rw [quotient]
        exact kept _ (by omega)
    exact (tree.sound i pos (by omega)).congr zero pair (move.upper below) (child _ (by omega))
      (child _ (by omega))
  · intro j inside
    have pos := Nat.two_pow_pos b
    have slot : (2 ^ b * 2 ^ e + j) / 2 ^ b = 2 ^ e + j / 2 ^ b := Nat.mul_add_div pos _ _
    have offset : (2 ^ b * 2 ^ e + j) % 2 ^ b = j % 2 ^ b := Nat.mul_add_mod _ _ _
    have below : j / 2 ^ b < 2 ^ e := by
      rw [Nat.div_lt_iff_lt_mul pos, Nat.mul_comm]
      exact inside
    have at_ : AtDepth (2 ^ e) b (2 ^ b * 2 ^ e + j) :=
      ⟨by rw [slot]; exact Nat.le_add_right _ _, by rw [slot]; omega⟩
    rw [move.slots le_rfl at_, moved, slot, offset, Nat.add_sub_cancel_left]
    cases from_ : origin (j / 2 ^ b) with
    | none => rfl
    | some q =>
      have fits : 2 ^ b * q + j % 2 ^ b < 2 ^ b * 2 ^ e := by
        have step : 2 ^ b * (q + 1) ≤ 2 ^ b * 2 ^ e := Nat.mul_le_mul_left _ (range below from_)
        have rest := Nat.mod_lt j pos
        rw [Nat.mul_succ] at step
        omega
      simp only [← tree.leaves _ fits, Nat.mul_add, Nat.add_assoc]

/-- Slot `v` and the nodes above it are still to be recomputed, so its leaves may be written. -/
theorem Torn.setLeaf (le : p ≤ v) (torn : Torn zero pair b e v p nodes leaf) {j : Nat}
    (inside : j < 2 ^ b * 2 ^ e) (here : j / 2 ^ b = v) (value : H) :
    Torn zero pair b e v p (nodes.set (2 ^ b * 2 ^ e + j) value) (Function.update leaf j value) := by
  have pos := Nat.two_pow_pos b
  have ePos := Nat.two_pow_pos e
  have small : j / 2 ^ b < 2 ^ e := by
    rw [Nat.div_lt_iff_lt_mul pos, Nat.mul_comm]
    exact inside
  have capLe : 2 ^ e ≤ 2 ^ b * 2 ^ e := Nat.le_mul_of_pos_left _ pos
  constructor
  · rw [List.length_set, torn.length]
  · rw [node_set_of_ne zero nodes (by omega), torn.unused]
  · intro t i less at_ other
    have inner := atDepth_inner less at_
    have notHere : ∀ c, c / 2 = i → c ≠ 2 ^ b * 2 ^ e + j := by
      rintro c half rfl
      obtain ⟨below, same⟩ := at_.child half
      have slot : (2 ^ b * 2 ^ e + j) / 2 ^ b = 2 ^ e + j / 2 ^ b := Nat.mul_add_div pos _ _
      have leafAt : AtDepth (2 ^ e) b (2 ^ b * 2 ^ e + j) :=
        ⟨by rw [slot]; exact Nat.le_add_right _ _, by rw [slot]; omega⟩
      rw [below.unique leafAt, slot, here] at same
      exact other same.symm
    exact (torn.slots t i less at_ other).congr zero pair
      (node_set_of_ne zero nodes (by omega) _) (node_set_of_ne zero nodes (notHere _ (by omega)) _)
      (node_set_of_ne zero nodes (notHere _ (by omega)) _)
  · intro i one below notUpper
    -- a leaf right below these nodes is a slot of its own, from slot `p` on
    have notHere : ∀ c, c / 2 = i → c ≠ 2 ^ b * 2 ^ e + j := by
      rintro c half rfl
      have narrow : 2 ^ b * 2 ^ e < 2 * 2 ^ e := by omega
      have single : 2 ^ b = 1 := by
        have := Nat.lt_of_mul_lt_mul_right narrow
        omega
      rw [single, Nat.div_one] at here
      rw [single, Nat.one_mul] at half inside
      exact notUpper (half ▸ (upperIndices_spec (lt_of_le_of_lt le (here ▸ inside))).2.2.2 _
        (by omega) (by omega) (by omega))
    exact (torn.upper i one below notUpper).congr zero pair
      (node_set_of_ne zero nodes (by omega) _) (node_set_of_ne zero nodes (notHere _ (by omega)) _)
      (node_set_of_ne zero nodes (notHere _ (by omega)) _)
  · intro k small
    by_cases same : k = j
    · subst same
      rw [node_set_self zero (by rw [torn.length]; omega), Function.update_self]
    · rw [node_set_of_ne zero nodes (by omega), Function.update_of_ne same]
      exact torn.leaves k small

/-- **Repairing a torn tree.** Recomputing slot `v` and the nodes above the slots from `p ≤ v` on
gives the tree over the leaves. -/
theorem isTree_repair (vIn : v < 2 ^ e) (le : p ≤ v) (torn : Torn zero pair b e v p nodes leaf) :
    IsTree zero pair (rehashAll zero pair
      (rehashAll zero pair nodes (blockIndices (2 ^ b * 2 ^ e) v (2 ^ b)))
      (upperIndices (2 ^ e) p)) (2 ^ b * 2 ^ e) leaf := by
  obtain ⟨len, unused, slots, upper, leaves⟩ := torn
  obtain ⟨upUp, upIn, upClosed, upLevel⟩ := upperIndices_spec (lt_of_le_of_lt le vIn)
  have mPos := Nat.two_pow_pos e
  -- a recomputed node of slot `v` lies `t < b` levels below the slot's root
  have blockAt : ∀ i ∈ blockIndices (2 ^ b * 2 ^ e) v (2 ^ b),
      ∃ t < b, AtDepth (2 ^ e) t i ∧ i / 2 ^ t = 2 ^ e + v := by
    intro i member
    obtain ⟨t, less, same⟩ := mem_blockIndices.mp member
    exact ⟨t, less, by constructor <;> omega, same⟩
  have blockIn : ∀ i ∈ blockIndices (2 ^ b * 2 ^ e) v (2 ^ b), 2 ^ e ≤ i ∧ i < 2 ^ b * 2 ^ e := by
    intro i member
    obtain ⟨t, less, at_, same⟩ := blockAt i member
    have bounds := at_.bounds
    have one := Nat.two_pow_pos t
    have step : 2 ^ (t + 1) * 2 ^ e ≤ 2 ^ b * 2 ^ e :=
      Nat.mul_le_mul_right _ (Nat.pow_le_pow_right (by norm_num) less)
    have twice : 2 ^ (t + 1) * 2 ^ e = 2 ^ t * (2 * 2 ^ e) := by ring
    exact ⟨le_trans (Nat.le_mul_of_pos_left _ one) bounds.1, by omega⟩
  have capLe : 2 ^ e ≤ 2 ^ b * 2 ^ e := Nat.le_mul_of_pos_left _ (Nat.two_pow_pos b)
  rw [← rehashAll_append]
  set indices := blockIndices (2 ^ b * 2 ^ e) v (2 ^ b) ++ upperIndices (2 ^ e) p with def_
  have bounds : ∀ i ∈ indices, 1 ≤ i ∧ i < 2 ^ b * 2 ^ e := by
    intro i member
    rcases List.mem_append.mp member with block | above
    · have := blockIn i block
      omega
    · have := upIn i above
      omega
  have bottomUp : BottomUp indices := by
    refine List.pairwise_append.mpr ⟨bottomUp_blockIndices vIn, upUp, fun i block j above => ?_⟩
    have inner := (Nat.le_log2 (by have := (blockIn i block).1; omega)).mpr (blockIn i block).1
    have outer := (Nat.log2_lt (by have := (upIn j above).1; omega)).mpr (upIn j above).2
    omega
  constructor
  · simpa using len
  · rw [node_rehashAll_of_not_mem zero pair _ fun member => absurd (bounds 0 member).1 (by omega)]
    exact unused
  · refine rehashAll_sound_below zero pair bottomUp
      (fun i member => by have := bounds i member; omega) fun i pos below => ?_
    by_cases member : i ∈ indices
    · exact Or.inl member
    · have notBlock : i ∉ blockIndices (2 ^ b * 2 ^ e) v (2 ^ b) := fun h =>
        member (List.mem_append_left _ h)
      have notUpper : i ∉ upperIndices (2 ^ e) p := fun h => member (List.mem_append_right _ h)
      right
      by_cases high : i < 2 ^ e
      · -- above the slots: a listed child would be on a listed path, or the root of slot `v`
        have child : ∀ c, c / 2 = i → c ∉ indices := by
          intro c half listed
          rcases List.mem_append.mp listed with block | above
          · obtain ⟨t, -, at_, same⟩ := blockAt c block
            have root : AtDepth (2 ^ e) 0 c := by
              have := (blockIn c block).1
              constructor <;> simp only [pow_zero, Nat.div_one] <;> omega
            obtain rfl := at_.unique root
            rw [pow_zero, Nat.div_one] at same
            exact notUpper (half ▸ upLevel c (by omega) (by omega) (by omega))
          · exact notUpper (half ▸ upClosed c above (by omega))
        exact ⟨upper i pos high notUpper, child _ (by omega), child _ (by omega)⟩
      · -- inside a slot other than `v`, whose nodes are not listed
        obtain ⟨t, tLe, at_⟩ := exists_atDepth b (Nat.not_lt.mp high)
          (by rw [pow_succ]; have := Nat.two_pow_pos b; nlinarith)
        have tLt : t < b := by
          refine lt_of_le_of_ne tLe fun same => ?_
          have := at_.bounds.1
          rw [same] at this
          omega
        have other : i / 2 ^ t ≠ 2 ^ e + v := fun same =>
          notBlock (mem_blockIndices.mpr ⟨t, tLt, same⟩)
        have child : ∀ c, c / 2 = i → c ∉ indices := by
          intro c half listed
          obtain ⟨below, same⟩ := at_.child half
          rcases List.mem_append.mp listed with block | above
          · obtain ⟨t', -, at', eq⟩ := blockAt c block
            obtain rfl := below.unique at'
            exact other (same ▸ eq)
          · have := (upIn c above).2
            omega
        exact ⟨slots t i tLt at_ other, child _ (by omega), child _ (by omega)⟩
  · intro j inside
    rw [node_rehashAll_of_not_mem zero pair _ fun member => absurd (bounds _ member).2 (by omega)]
    exact leaves j inside

end HeapTree
