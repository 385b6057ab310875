/-
**Ordered maps.**

`SortedMap K V` is a finite map kept as its entries in strictly increasing key order; the order is
a field, so a map out of order or with a repeated key cannot be built. Every operation is stated
by the split of the entries at a key, `entries = below k ++ (entry of k) ++ above k`
(`entries_split`): lookup, the position of a key (`slot`), sums over the entries (`total`) and
extensionality follow from it.
-/

import Mathlib.Data.List.Pairwise
import Mathlib.Order.Basic
import Mathlib.Algebra.BigOperators.Group.List.Basic
import Mathlib.Tactic.Ring

/-- A finite map as its entries in increasing key order. -/
structure SortedMap (K V : Type) [LinearOrder K] where
  entries : List (K × V)
  sorted : entries.Pairwise fun a b => a.1 < b.1

namespace SortedMap

variable {K V : Type} [LinearOrder K]

/-! ### Operations -/

def empty : SortedMap K V := ⟨[], List.Pairwise.nil⟩

instance : Inhabited (SortedMap K V) := ⟨empty⟩

instance [DecidableEq V] : DecidableEq (SortedMap K V) := fun a b =>
  decidable_of_iff (a.entries = b.entries) ⟨fun same => by cases a; cases b; congr, congrArg _⟩

/-- The entries with a key smaller than `k`. -/
def below (m : SortedMap K V) (k : K) : List (K × V) := m.entries.filter fun e => e.1 < k

/-- The entries with a key larger than `k`. -/
def above (m : SortedMap K V) (k : K) : List (K × V) := m.entries.filter fun e => k < e.1

def find? (m : SortedMap K V) (k : K) : Option V :=
  (m.entries.find? fun e => e.1 = k).map Prod.snd

def contains (m : SortedMap K V) (k : K) : Bool := (m.find? k).isSome

def keys (m : SortedMap K V) : List K := m.entries.map Prod.fst

def values (m : SortedMap K V) : List V := m.entries.map Prod.snd

def size (m : SortedMap K V) : Nat := m.entries.length

/-- The position of `k` among the keys. -/
def slot (m : SortedMap K V) (k : K) : Nat := m.keys.idxOf k

variable {m n : SortedMap K V} {k k' : K} {e a b : K × V} {v w : V} {entries : List (K × V)}

theorem mem_below : e ∈ m.below k ↔ e ∈ m.entries ∧ e.1 < k := by simp [below]

theorem mem_above : e ∈ m.above k ↔ e ∈ m.entries ∧ k < e.1 := by simp [above]

theorem sorted_below (m : SortedMap K V) (k : K) :
    (m.below k).Pairwise fun a b => a.1 < b.1 := m.sorted.filter _

theorem sorted_above (m : SortedMap K V) (k : K) :
    (m.above k).Pairwise fun a b => a.1 < b.1 := m.sorted.filter _

theorem below_lt_above (low : a ∈ m.below k) (high : b ∈ m.above k) :
    a.1 < b.1 := (mem_below.mp low).2.trans (mem_above.mp high).2

/-- The map with `k` bound to `v`, replacing an earlier binding of `k`. -/
def insert (m : SortedMap K V) (k : K) (v : V) : SortedMap K V where
  entries := m.below k ++ (k, v) :: m.above k
  sorted := by
    refine List.pairwise_append.mpr ⟨m.sorted_below k, List.pairwise_cons.mpr
      ⟨fun e high => (mem_above.mp high).2, m.sorted_above k⟩, fun a low b high => ?_⟩
    rcases List.mem_cons.mp high with rfl | high
    · exact (mem_below.mp low).2
    · exact below_lt_above low high

/-- The map without a binding of `k`. -/
def erase (m : SortedMap K V) (k : K) : SortedMap K V where
  entries := m.below k ++ m.above k
  sorted := List.pairwise_append.mpr
    ⟨m.sorted_below k, m.sorted_above k, fun _ low _ high => below_lt_above low high⟩

/-- The map that a sequence of insertions into the empty map builds. -/
def ofList (entries : List (K × V)) : SortedMap K V :=
  entries.foldl (fun m e => m.insert e.1 e.2) empty

/-- The sum of `f` over the entries. -/
def total (m : SortedMap K V) (f : K × V → Nat) : Nat := (m.entries.map f).sum

/-! ### Lookup and membership -/

theorem ext (same : m.entries = n.entries) : m = n := by
  cases m
  cases n
  congr

theorem key_unique (one : a ∈ m.entries) (two : b ∈ m.entries) (same : a.1 = b.1) : a = b := by
  by_contra differ
  have : Std.Symm fun a b : K × V => a.1 ≠ b.1 := ⟨fun _ _ h => h.symm⟩
  exact (m.sorted.imp fun h => h.ne).forall one two differ same

theorem find?_eq_some_iff : m.find? k = some v ↔ (k, v) ∈ m.entries := by
  constructor
  · intro found
    obtain ⟨e, hit, rfl⟩ := Option.map_eq_some_iff.mp found
    have key : e.1 = k := by simpa using List.find?_some hit
    rw [← key]
    exact List.mem_of_find?_eq_some hit
  · intro member
    cases hit : m.entries.find? fun e => e.1 = k with
    | none => simpa using List.find?_eq_none.mp hit _ member
    | some e =>
      have key : e.1 = k := by simpa using List.find?_some hit
      have same : e = (k, v) := key_unique (List.mem_of_find?_eq_some hit) member key
      rw [find?, hit, same]
      rfl

theorem find?_eq_none_iff : m.find? k = none ↔ ∀ e ∈ m.entries, e.1 ≠ k := by
  simp [find?]

@[simp] theorem mem_keys : k ∈ m.keys ↔ (m.find? k).isSome := by
  rw [Option.isSome_iff_exists, keys, List.mem_map]
  constructor
  · rintro ⟨e, member, rfl⟩
    exact ⟨e.2, find?_eq_some_iff.mpr member⟩
  · rintro ⟨v, found⟩
    exact ⟨(k, v), find?_eq_some_iff.mp found, rfl⟩

theorem nodup_keys (m : SortedMap K V) : m.keys.Nodup :=
  List.pairwise_map.mpr (m.sorted.imp fun h => h.ne)

theorem mem_insert : e ∈ (m.insert k v).entries ↔ e = (k, v) ∨ (e ∈ m.entries ∧ e.1 ≠ k) := by
  simp only [insert, List.mem_append, List.mem_cons, mem_below, mem_above, ne_iff_lt_or_gt]
  tauto

theorem mem_erase : e ∈ (m.erase k).entries ↔ e ∈ m.entries ∧ e.1 ≠ k := by
  simp only [erase, List.mem_append, mem_below, mem_above, ne_iff_lt_or_gt]
  tauto

@[simp] theorem find?_empty (k : K) : (empty : SortedMap K V).find? k = none := rfl

theorem find?_congr (same : ∀ v, (k, v) ∈ m.entries ↔ (k', v) ∈ n.entries) :
    m.find? k = n.find? k' := by
  ext v
  rw [find?_eq_some_iff, find?_eq_some_iff, same]

@[simp] theorem find?_insert_self (m : SortedMap K V) (k : K) (v : V) :
    (m.insert k v).find? k = some v :=
  find?_eq_some_iff.mpr (mem_insert.mpr (Or.inl rfl))

theorem find?_insert_of_ne (m : SortedMap K V) (v : V) (other : k' ≠ k) :
    (m.insert k v).find? k' = m.find? k' := by
  refine find?_congr fun w => ?_
  rw [mem_insert]
  simp [other]

theorem find?_insert (m : SortedMap K V) (k k' : K) (v : V) :
    (m.insert k v).find? k' = if k' = k then some v else m.find? k' := by
  split
  · next same => rw [same, find?_insert_self]
  · next other => exact find?_insert_of_ne m v other

@[simp] theorem find?_erase_self (m : SortedMap K V) (k : K) : (m.erase k).find? k = none :=
  find?_eq_none_iff.mpr fun _ member => (mem_erase.mp member).2

theorem find?_erase_of_ne (m : SortedMap K V) (other : k' ≠ k) :
    (m.erase k).find? k' = m.find? k' := by
  refine find?_congr fun w => ?_
  rw [mem_erase]
  simp [other]

theorem find?_erase (m : SortedMap K V) (k k' : K) :
    (m.erase k).find? k' = if k' = k then none else m.find? k' := by
  split
  · next same => rw [same, find?_erase_self]
  · next other => exact find?_erase_of_ne m other

/-- **Extensionality.** Two maps with the same lookups are equal. -/
theorem ext_find? (same : ∀ k, m.find? k = n.find? k) : m = n := by
  refine ext (List.Perm.eq_of_pairwise (fun a b _ _ lt gt => absurd lt gt.asymm)
    m.sorted n.sorted ?_)
  have nodup : ∀ m : SortedMap K V, m.entries.Nodup := fun m =>
    m.sorted.imp fun lt same => lt.ne (congrArg Prod.fst same)
  refine (List.perm_ext_iff_of_nodup (nodup m) (nodup n)).mpr fun e => ?_
  rw [← find?_eq_some_iff (k := e.1) (v := e.2), same, find?_eq_some_iff]

theorem insert_insert (m : SortedMap K V) (k : K) (v w : V) :
    (m.insert k v).insert k w = m.insert k w := by
  refine ext_find? fun other => ?_
  rw [find?_insert, find?_insert, find?_insert]
  split <;> rfl

theorem insert_of_find? (found : m.find? k = some v) : m.insert k v = m := by
  refine ext_find? fun other => ?_
  rw [find?_insert]
  split
  · next same => rw [same, found]
  · rfl

/-- The values that `f` keeps. -/
def filterMap {W : Type} (m : SortedMap K V) (f : V → Option W) : SortedMap K W where
  entries := m.entries.filterMap fun e => (f e.2).map (e.1, ·)
  sorted := by
    refine m.sorted.filterMap _ fun a b low a' kept b' kept' => ?_
    obtain ⟨_, -, rfl⟩ := Option.map_eq_some_iff.mp kept
    obtain ⟨_, -, rfl⟩ := Option.map_eq_some_iff.mp kept'
    exact low

theorem find?_filterMap {W : Type} (m : SortedMap K V) (f : V → Option W) (k : K) :
    (m.filterMap f).find? k = (m.find? k).bind f := by
  ext w
  rw [find?_eq_some_iff, Option.bind_eq_some_iff, filterMap, List.mem_filterMap]
  constructor
  · rintro ⟨e, member, kept⟩
    obtain ⟨_, given, same⟩ := Option.map_eq_some_iff.mp kept
    obtain ⟨rfl, rfl⟩ := Prod.mk.inj same
    exact ⟨e.2, find?_eq_some_iff.mpr member, given⟩
  · rintro ⟨v, found, given⟩
    exact ⟨(k, v), find?_eq_some_iff.mp found, by rw [given]; rfl⟩

/-- The entries that satisfy `p`. -/
def filter (m : SortedMap K V) (p : K × V → Bool) : SortedMap K V where
  entries := m.entries.filter p
  sorted := m.sorted.filter _

theorem find?_filter (m : SortedMap K V) (p : K × V → Bool) (k : K) :
    (m.filter p).find? k = (m.find? k).filter fun v => p (k, v) := by
  ext v
  rw [find?_eq_some_iff, Option.filter_eq_some_iff, find?_eq_some_iff, filter, List.mem_filter]

/-- Other entries, under keys of the map in the same order. -/
def withEntries {W : Type} (m : SortedMap K V) (entries : List (K × W))
    (kept : (entries.map Prod.fst).Sublist m.keys) : SortedMap K W where
  entries
  sorted := List.pairwise_map.mp ((List.pairwise_map.mpr m.sorted).sublist kept)

/-! ### The split at a key -/

theorem filter_eq_key (m : SortedMap K V) (k : K) :
    m.entries.filter (fun e => e.1 = k) = (m.find? k).toList.map (Prod.mk k) := by
  obtain ⟨entries, sorted⟩ := m
  simp only [find?]
  induction entries with
  | nil => rfl
  | cons e rest ih =>
    obtain ⟨after, sorted⟩ := List.pairwise_cons.mp sorted
    by_cases key : e.1 = k
    · subst key
      have past : rest.filter (fun b => b.1 = e.1) = [] :=
        List.filter_eq_nil_iff.mpr fun b member => by simpa using (after b member).ne'
      simp [past]
    · simpa [key] using ih sorted

theorem entries_split (m : SortedMap K V) (k : K) :
    m.entries = m.below k ++ (m.find? k).toList.map (Prod.mk k) ++ m.above k := by
  rw [← filter_eq_key]
  obtain ⟨entries, sorted⟩ := m
  simp only [below, above]
  induction entries with
  | nil => rfl
  | cons e rest ih =>
    obtain ⟨after, sorted⟩ := List.pairwise_cons.mp sorted
    have tail := ih sorted
    rcases lt_trichotomy e.1 k with low | key | high
    · simp only [List.filter_cons, low, decide_true, if_true, low.ne, decide_false,
        low.not_gt, List.cons_append, Bool.false_eq_true, if_false]
      exact congrArg _ tail
    · have none : rest.filter (fun e => e.1 < k) = [] :=
        List.filter_eq_nil_iff.mpr fun b member => by
          simpa [← key] using (after b member).le
      rw [none] at tail
      simp only [List.filter_cons, key, lt_irrefl, decide_false, decide_true, if_true,
        Bool.false_eq_true, if_false, none, List.nil_append, List.cons_append]
      exact congrArg _ tail
    · have past : ∀ b ∈ rest, k < b.1 := fun b member => high.trans (after b member)
      have none : rest.filter (fun e => e.1 < k) = [] :=
        List.filter_eq_nil_iff.mpr fun b member => by simpa using (past b member).le
      have same : rest.filter (fun e => e.1 = k) = [] :=
        List.filter_eq_nil_iff.mpr fun b member => by simpa using (past b member).ne'
      rw [none, same] at tail
      simp only [List.filter_cons, high, high.ne', high.not_gt, decide_false, decide_true, if_true,
        Bool.false_eq_true, if_false, none, same, List.nil_append]
      exact congrArg _ tail

theorem entries_of_some (found : m.find? k = some v) :
    m.entries = m.below k ++ (k, v) :: m.above k := by
  have split := m.entries_split k
  rw [found] at split
  simpa using split

theorem entries_of_none (absent : m.find? k = none) : m.entries = m.below k ++ m.above k := by
  have split := m.entries_split k
  rw [absent] at split
  simpa using split

theorem erase_of_none (absent : m.find? k = none) : m.erase k = m :=
  ext (entries_of_none absent).symm

theorem slot_of_some (found : m.find? k = some v) : m.slot k = (m.below k).length := by
  have before : k ∉ (m.below k).map Prod.fst := by
    intro member
    obtain ⟨e, low, same⟩ := List.mem_map.mp member
    exact absurd (mem_below.mp low).2 (same ▸ lt_irrefl _)
  rw [slot, keys, entries_of_some found, List.map_append, List.idxOf_append_of_notMem before,
    List.map_cons, List.idxOf_cons_self, List.length_map, Nat.add_zero]

theorem slot_lt_size (found : m.find? k = some v) : m.slot k < m.size := by
  rw [slot_of_some found, size, entries_of_some found, List.length_append, List.length_cons]
  exact Nat.lt_add_of_pos_right (Nat.succ_pos _)

theorem below_insert (m : SortedMap K V) (k : K) (v : V) : (m.insert k v).below k = m.below k := by
  have low : (m.below k).filter (fun e => e.1 < k) = m.below k :=
    List.filter_eq_self.mpr fun e member => by simpa using (mem_below.mp member).2
  have high : ((k, v) :: m.above k).filter (fun e => e.1 < k) = [] := by
    refine List.filter_eq_nil_iff.mpr fun e member => ?_
    rcases List.mem_cons.mp member with rfl | above
    · simp
    · simpa using (mem_above.mp above).2.le
  rw [below, insert, List.filter_append, low, high, List.append_nil]

theorem slot_insert (m : SortedMap K V) (k : K) (v : V) :
    (m.insert k v).slot k = (m.below k).length := by
  rw [slot_of_some (find?_insert_self m k v), below_insert]

theorem size_insert_of_some (found : m.find? k = some v) : (m.insert k w).size = m.size := by
  rw [size, size, entries_of_some found]
  simp [insert]

theorem size_insert_of_none (absent : m.find? k = none) : (m.insert k w).size = m.size + 1 := by
  rw [size, size, entries_of_none absent]
  simp only [insert, List.length_append, List.length_cons]
  omega

theorem size_erase_of_some (found : m.find? k = some v) : (m.erase k).size = m.size - 1 := by
  rw [size, size, entries_of_some found]
  simp only [erase, List.length_append, List.length_cons]
  omega

/-! ### Sums over the entries -/

section Total

variable (m : SortedMap K V) (f : K × V → Nat) (k : K)

theorem total_insert_of_some {v w : V} (found : m.find? k = some v) :
    (m.insert k w).total f + f (k, v) = m.total f + f (k, w) := by
  simp only [total, entries_of_some found, insert, List.map_append, List.map_cons,
    List.sum_append, List.sum_cons]
  omega

theorem total_insert_of_none {w : V} (absent : m.find? k = none) :
    (m.insert k w).total f = m.total f + f (k, w) := by
  simp only [total, entries_of_none absent, insert, List.map_append, List.map_cons,
    List.sum_append, List.sum_cons]
  omega

theorem total_erase_of_some {v : V} (found : m.find? k = some v) :
    (m.erase k).total f + f (k, v) = m.total f := by
  simp only [total, entries_of_some found, erase, List.map_append, List.map_cons,
    List.sum_append, List.sum_cons]
  omega

end Total

/-! ### Counting entries -/

section Count

variable {m : SortedMap K V}

/-- The number of entries that satisfy `p`. -/
def count (m : SortedMap K V) (p : K × V → Bool) : Nat := m.entries.countP p

theorem count_eq_total (m : SortedMap K V) (p : K × V → Bool) :
    m.count p = m.total fun e => if p e then 1 else 0 := by
  rw [count, total]
  induction m.entries with
  | nil => rfl
  | cons e rest ih => rw [List.countP_cons, List.map_cons, List.sum_cons, ih, Nat.add_comm]

variable {p : K × V → Bool} {k : K} {w : V}

/-- Distinct keys whose entries satisfy `p` are at most as many as there are such entries. -/
theorem length_le_count {keys : List K} (nodup : keys.Nodup)
    (each : ∀ k ∈ keys, ∃ v, m.find? k = some v ∧ p (k, v) = true) : keys.length ≤ m.count p := by
  have part : keys ⊆ (m.entries.filter p).map Prod.fst := by
    intro k member
    obtain ⟨v, found, holds⟩ := each k member
    exact List.mem_map.mpr ⟨(k, v), List.mem_filter.mpr ⟨find?_eq_some_iff.mp found, holds⟩, rfl⟩
  have le := (List.subperm_of_subset nodup part).length_le
  rw [List.length_map] at le
  rwa [count, List.countP_eq_length_filter]

/-- Entries that satisfy `p` are at most as many as those that satisfy `q` in another map, when each
of them satisfies `q` there. -/
theorem count_le_count {n : SortedMap K V} {q : K × V → Bool}
    (into : ∀ k v, m.find? k = some v → p (k, v) = true → ∃ w, n.find? k = some w ∧ q (k, w) = true) :
    m.count p ≤ n.count q := by
  have nodup : ((m.entries.filter p).map Prod.fst).Nodup :=
    m.nodup_keys.sublist (List.filter_sublist.map _)
  have le : ((m.entries.filter p).map Prod.fst).length ≤ n.count q := by
    refine length_le_count nodup fun k member => ?_
    obtain ⟨e, inside, rfl⟩ := List.mem_map.mp member
    obtain ⟨entry, holds⟩ := List.mem_filter.mp inside
    exact into e.1 e.2 (find?_eq_some_iff.mpr entry) holds
  rw [List.length_map] at le
  rwa [count, List.countP_eq_length_filter]

theorem count_insert_of_some {v : V} (found : m.find? k = some v) :
    (m.insert k w).count p + (if p (k, v) then 1 else 0) =
      m.count p + if p (k, w) then 1 else 0 := by
  rw [count_eq_total, count_eq_total]
  exact total_insert_of_some m _ k found

theorem count_insert_of_none (absent : m.find? k = none) :
    (m.insert k w).count p = m.count p + if p (k, w) then 1 else 0 := by
  rw [count_eq_total, count_eq_total]
  exact total_insert_of_none m _ k absent

/-- Putting a value does not count more, unless it counts and the old one did not. -/
theorem count_insert_le_of_imp (imp : p (k, w) = true → ∃ v, m.find? k = some v ∧ p (k, v) = true) :
    (m.insert k w).count p ≤ m.count p := by
  refine count_le_count fun k' v found holds => ?_
  rw [find?_insert] at found
  split at found
  · next same =>
    subst same
    obtain rfl := Option.some.inj found
    exact imp holds
  · exact ⟨v, found, holds⟩

theorem count_insert_le (p : K × V → Bool) (k : K) (w : V) :
    (m.insert k w).count p ≤ m.count p + 1 := by
  cases found : m.find? k with
  | none =>
    rw [count_insert_of_none found]
    split <;> omega
  | some v =>
    have same := count_insert_of_some (p := p) (w := w) found
    split at same <;> split at same <;> omega

end Count

/-! ### Rebuilding a map from its entries -/

theorem insert_after_all (v : V) (last : ∀ e ∈ m.entries, e.1 < k) :
    (m.insert k v).entries = m.entries ++ [(k, v)] := by
  have all : m.below k = m.entries :=
    List.filter_eq_self.mpr fun e member => by simpa using last e member
  have none : m.above k = [] :=
    List.filter_eq_nil_iff.mpr fun e member => by simpa using (last e member).le
  simp [insert, all, none]

theorem foldl_insert_entries (rest : List (K × V)) (m : SortedMap K V)
    (sorted : (m.entries ++ rest).Pairwise fun a b => a.1 < b.1) :
    (rest.foldl (fun m e => m.insert e.1 e.2) m).entries = m.entries ++ rest := by
  induction rest generalizing m with
  | nil => simp
  | cons e rest ih =>
    have last : ∀ a ∈ m.entries, a.1 < e.1 := fun a member =>
      (List.pairwise_append.mp sorted).2.2 a member e List.mem_cons_self
    have step : (m.insert e.1 e.2).entries = m.entries ++ [e] := insert_after_all e.2 last
    rw [List.foldl_cons, ih _ (by rw [step]; simpa using sorted), step]
    simp

theorem find?_foldl_insert (nodup : (entries.map Prod.fst).Nodup) (m : SortedMap K V) (k : K)
    (v : V) :
    (entries.foldl (fun m e => m.insert e.1 e.2) m).find? k = some v ↔
      (k, v) ∈ entries ∨ k ∉ entries.map Prod.fst ∧ m.find? k = some v := by
  induction entries generalizing m with
  | nil => simp
  | cons e rest ih =>
    obtain ⟨fresh, nodup⟩ := List.nodup_cons.mp nodup
    rw [List.foldl_cons, ih nodup, List.map_cons, List.mem_cons, List.mem_cons, find?_insert]
    by_cases same : k = e.1
    · subst same
      have none_ : (e.1, v) ∉ rest := fun member => fresh (List.mem_map.mpr ⟨_, member, rfl⟩)
      simp [fresh, none_, Prod.ext_iff, eq_comm]
    · simp [same, Prod.ext_iff]

/-- A map built from bindings of different keys has just these. -/
theorem find?_ofList (nodup : (entries.map Prod.fst).Nodup) (k : K) (v : V) :
    (ofList entries).find? k = some v ↔ (k, v) ∈ entries := by
  rw [ofList, find?_foldl_insert nodup]
  simp

/-- A map built from bindings, of equal keys too, has no other ones. -/
theorem subset_ofList (entries : List (K × V)) :
    (ofList entries).size ≤ entries.length ∧ ∀ e ∈ (ofList entries).entries, e ∈ entries := by
  have grows (rest : List (K × V)) (m : SortedMap K V) :
      (rest.foldl (fun m e => m.insert e.1 e.2) m).size ≤ m.size + rest.length ∧
        ∀ e ∈ (rest.foldl (fun m e => m.insert e.1 e.2) m).entries, e ∈ m.entries ∨ e ∈ rest := by
    induction rest generalizing m with
    | nil => exact ⟨le_rfl, fun e member => Or.inl member⟩
    | cons first rest ih =>
      obtain ⟨size, members⟩ := ih (m.insert first.1 first.2)
      have one : (m.insert first.1 first.2).size ≤ m.size + 1 := by
        cases found : m.find? first.1 with
        | none => exact (size_insert_of_none found).le
        | some v => exact (size_insert_of_some found).le.trans (Nat.le_add_right _ _)
      refine ⟨?_, fun e member => ?_⟩
      · rw [List.foldl_cons, List.length_cons]
        omega
      · rcases members e member with old | new
        · rcases mem_insert.mp old with rfl | kept
          · exact Or.inr List.mem_cons_self
          · exact Or.inl kept.1
        · exact Or.inr (List.mem_cons_of_mem _ new)
  obtain ⟨size, members⟩ := grows entries empty
  exact ⟨size.trans (Nat.zero_add _).le, fun e member => (members e member).resolve_left nofun⟩

@[simp] theorem ofList_entries (m : SortedMap K V) : ofList m.entries = m :=
  ext (foldl_insert_entries m.entries empty m.sorted)

end SortedMap
