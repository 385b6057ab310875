/-
**Checks that may refuse.**

A check is a computation in `Except`; a sequence of checks succeeds exactly when each of them does.
-/

import Mathlib.Data.List.Basic

namespace Checks

variable {ε α β : Type}

variable {check : Except ε α} {next : Except ε β} {b : β} {p : Prop} {error : ε}

theorem bind_eq_ok {next : α → Except ε β} :
    (check >>= next) = .ok b ↔ ∃ a, check = .ok a ∧ next a = .ok b := by
  cases check with
  | error =>
    constructor
    · nofun
    · rintro ⟨_, wrong, -⟩
      cases wrong
  | ok a =>
    constructor
    · exact fun result => ⟨a, rfl, result⟩
    · rintro ⟨_, same, result⟩
      obtain rfl := Except.ok.inj same
      exact result

theorem eq_ok_of_toOption {a : α} (result : check.toOption = some a) : check = .ok a := by
  cases check with
  | error => cases result
  | ok => exact congrArg Except.ok (Option.some.inj result)

theorem seq_eq_ok {check : Except ε Unit} :
    (check >>= fun _ => next) = .ok b ↔ check = .ok () ∧ next = .ok b := by
  rw [bind_eq_ok]
  exact ⟨fun ⟨_, first, second⟩ => ⟨first, second⟩, fun both => ⟨(), both⟩⟩

theorem refuse_eq_ok [Decidable p] :
    (if p then .error error else next) = .ok b ↔ ¬p ∧ next = .ok b := by
  by_cases holds : p
  · rw [if_pos holds]
    exact ⟨nofun, fun both => absurd holds both.1⟩
  · rw [if_neg holds]
    exact ⟨fun result => ⟨holds, result⟩, And.right⟩

theorem refuse_eq_true [Decidable p] {rest : Bool} :
    (if p then false else rest) = true ↔ ¬p ∧ rest = true := by
  by_cases holds : p
  · simp [holds]
  · simp [holds]

theorem throw_eq_ok [Decidable p] {jump : α → Except ε β} :
    (if p then (throw error : Except ε α) >>= jump else next) = .ok b ↔ ¬p ∧ next = .ok b :=
  refuse_eq_ok

theorem forM_eq_ok {check : α → Except ε PUnit} {list : List α} :
    list.forM check = .ok () ↔ ∀ a ∈ list, check a = .ok () := by
  induction list with
  | nil => exact ⟨fun _ => nofun, fun _ => rfl⟩
  | cons a rest ih =>
    show (check a >>= fun _ => rest.forM check) = .ok () ↔ _
    rw [seq_eq_ok, ih, List.forall_mem_cons]

end Checks
