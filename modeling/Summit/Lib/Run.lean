/-
**Runs of steps that may fail.**

A step is a function to an option, and a run is `foldlM` of the steps over a list of actions; it
fails when a step does. What every step keeps, a run keeps, and so does a fold of steps that cannot
fail. A run whose steps can be told from the heads they lead to is fixed by its ends (`eq_of_head`).
A `Chain` is a run of a relation instead, whose steps carry a number that adds up.
-/

import Mathlib.Data.List.Basic
import Mathlib.Logic.Relation

namespace Run

variable {S A : Type} {step : S → A → Option S}

variable {s s' : S} {a : A} {P : S → Prop} {actions as : List A} {B : Type} {f : A → Option B}
  {bs : List B}

theorem foldlM_cons_some {rest : List A} (run : (a :: rest).foldlM step s = some s') :
    ∃ mid, step s a = some mid ∧ rest.foldlM step mid = some s' := by
  exact Option.bind_eq_some_iff.mp run

theorem invariant (keeps : ∀ s a s', a ∈ actions → P s → step s a = some s' → P s') (start : P s)
    (run : actions.foldlM step s = some s') : P s' := by
  induction actions generalizing s with
  | nil => exact Option.some.inj run ▸ start
  | cons a rest ih =>
    obtain ⟨mid, first, later⟩ := foldlM_cons_some run
    exact ih (fun t b t' member => keeps t b t' (List.mem_cons_of_mem _ member))
      (keeps s a mid List.mem_cons_self start first) later

/-- A run whose steps are steps of a relation. -/
theorem reflTransGen_of_foldlM {r : S → S → Prop} (run : actions.foldlM step s = some s')
    (sound : ∀ s s', ∀ a ∈ actions, step s a = some s' → r s s') :
    Relation.ReflTransGen r s s' := by
  induction actions generalizing s with
  | nil =>
    obtain rfl := Option.some.inj run
    exact .refl
  | cons a rest ih =>
    obtain ⟨mid, first, later⟩ := foldlM_cons_some run
    exact .head (sound s mid a List.mem_cons_self first)
      (ih later fun s s' a member => sound s s' a (List.mem_cons_of_mem _ member))

/-- A step that is taken only in a state that passes a check. -/
def guarded (check : S → Bool) (step : S → A → Option S) (s : S) (a : A) : Option S :=
  if check s then step s a else none

theorem reflTransGen_of_guarded {r : S → S → Prop} {check : S → Bool}
    (run : actions.foldlM (guarded check step) s = some s')
    (sound : ∀ s s', ∀ a ∈ actions, check s = true → step s a = some s' → r s s') :
    Relation.ReflTransGen r s s' := by
  refine reflTransGen_of_foldlM run fun s s' a member result => ?_
  obtain ⟨checked, taken⟩ := Option.ite_none_right_eq_some.mp result
  exact sound s s' a member checked taken

/-- An invariant of steps that cannot fail is an invariant of the fold. -/
theorem invariant_foldl {next : S → A → S} (keeps : ∀ s a, a ∈ actions → P s → P (next s a))
    (start : P s) : P (actions.foldl next s) :=
  List.foldlRecOn actions next start fun s holds a member => keeps s a member holds

/-- **A run is fixed by its start and the head of its end**, when a step rises by one, its new head
tells the head before it, and its start and new head tell its end. -/
theorem eq_of_head {H : Type} {r : S → S → Prop} (head : S → Nat × H)
    (rises : ∀ s t, r s t → (head t).1 = (head s).1 + 1)
    (back : ∀ s t s' t', r s t → r s' t' → head t = head t' → head s = head s')
    (forth : ∀ s t t', r s t → r s t' → head t = head t' → t = t') {start s t : S}
    (one : Relation.ReflTransGen r start s) (two : Relation.ReflTransGen r start t)
    (same : head s = head t) : s = t := by
  have above {t : S} (run : Relation.ReflTransGen r start t) : (head start).1 ≤ (head t).1 := by
    induction run with
    | refl => exact Nat.le_refl _
    | tail _ last ih => exact Nat.le_trans ih (rises _ _ last ▸ Nat.le_succ _)
  -- both runs are taken back from their ends
  induction one generalizing t with
  | refl =>
    cases two with
    | refl => rfl
    | tail before last => exact absurd (above before) (by rw [same, rises _ _ last]; omega)
  | tail before last ih =>
    cases two with
    | refl => exact absurd (above before) (by rw [← same, rises _ _ last]; omega)
    | tail before' last' =>
      obtain rfl := ih before' (back _ _ _ _ last last' same)
      exact forth _ _ _ last last' same

/-! ### Values that may fail -/

theorem mem_of_mapM (result : as.mapM f = some bs) (b : B) : b ∈ bs ↔ ∃ a ∈ as, f a = some b := by
  induction as generalizing bs with
  | nil =>
    obtain rfl := Option.some.inj result
    simp
  | cons a rest ih =>
    rw [List.mapM_cons] at result
    obtain ⟨head, first, tail⟩ := Option.bind_eq_some_iff.mp result
    obtain ⟨others, later, same⟩ := Option.bind_eq_some_iff.mp tail
    obtain rfl := Option.some.inj same
    have head_iff : f a = some b ↔ b = head := by rw [first, Option.some_inj, eq_comm]
    rw [List.mem_cons, List.exists_mem_cons_iff, ih later, head_iff]

theorem exists_mapM (each : ∀ a ∈ as, (f a).isSome = true) : ∃ bs, as.mapM f = some bs := by
  induction as with
  | nil => exact ⟨[], rfl⟩
  | cons a rest ih =>
    obtain ⟨b, first⟩ := Option.isSome_iff_exists.mp (each a List.mem_cons_self)
    obtain ⟨bs, later⟩ := ih fun a member => each a (List.mem_cons_of_mem _ member)
    exact ⟨b :: bs, by rw [List.mapM_cons, first, later]; rfl⟩

theorem isSome_of_mapM (result : as.mapM f = some bs) (member : a ∈ as) : (f a).isSome = true := by
  induction as generalizing bs with
  | nil => cases member
  | cons head rest ih =>
    rw [List.mapM_cons] at result
    obtain ⟨b, first, tail⟩ := Option.bind_eq_some_iff.mp result
    obtain ⟨others, later, -⟩ := Option.bind_eq_some_iff.mp tail
    rcases List.mem_cons.mp member with rfl | member
    · exact Option.isSome_of_eq_some first
    · exact ih later member

theorem map_of_mapM {C : Type} {g : B → C} {h : A → C} (each : ∀ a b, f a = some b → g b = h a)
    (result : as.mapM f = some bs) : bs.map g = as.map h := by
  induction as generalizing bs with
  | nil =>
    obtain rfl := Option.some.inj result
    rfl
  | cons a rest ih =>
    rw [List.mapM_cons] at result
    obtain ⟨head, first, tail⟩ := Option.bind_eq_some_iff.mp result
    obtain ⟨others, later, same⟩ := Option.bind_eq_some_iff.mp tail
    obtain rfl := Option.some.inj same
    rw [List.map_cons, List.map_cons, each a head first, ih later]

/-! ### Chains of labelled steps -/

/-- A chain of steps, with the sum of their labels. -/
inductive Chain (step : S → Nat → S → Prop) : S → Nat → S → Prop where
  | refl (s : S) : Chain step s 0 s
  | tail {s t u : S} {n m : Nat} (chain : Chain step s n t) (last : step t m u) :
    Chain step s (n + m) u

namespace Chain

variable {step : S → Nat → S → Prop} {s t u : S} {n m : Nat}

theorem single (only : step s m t) : Chain step s m t :=
  Nat.zero_add m ▸ tail (refl s) only

theorem trans (first : Chain step s n t) (second : Chain step t m u) : Chain step s (n + m) u := by
  induction second with
  | refl => exact first
  | tail _ last ih => exact Nat.add_assoc n _ _ ▸ tail ih last

theorem invariant {P : S → Prop} (keeps : ∀ s m t, step s m t → P s → P t)
    (chain : Chain step s n t) (start : P s) : P t := by
  induction chain with
  | refl => exact start
  | tail _ last ih => exact keeps _ _ _ last ih

end Chain

end Run
