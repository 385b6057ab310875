/-
**Actions on a state that may stop.**

An `Act S` is a stateful program that returns a value or stops; the state it leaves is there in both
cases, as that of an actor that panics is. `exec` runs it, and `Returns` says that it does not stop.
-/

import Mathlib.Logic.Relation

/-- A stateful program that may stop. -/
abbrev Act (S : Type) : Type → Type := OptionT (StateM S)

namespace Act

variable {S A B : Type}

def exec (act : Act S A) (s : S) : Option A × S := act.run.run s

/-- Read part of the state. -/
def read (f : S → A) : Act S A := do return f (← get)

@[simp] theorem exec_pure (a : A) (s : S) : (pure a : Act S A).exec s = (some a, s) := rfl

theorem exec_get (s : S) : (get : Act S S).exec s = (some s, s) := rfl

theorem exec_bind (act : Act S A) (next : A → Act S B) (s : S) :
    (act >>= next).exec s = match act.exec s with
      | (some a, s') => (next a).exec s'
      | (none, s') => (none, s') := by
  simp only [exec, OptionT.run_bind, Option.elimM, StateT.run_bind]
  generalize act.run.run s = made
  obtain ⟨none | a, s'⟩ := made
  · rfl
  · rfl

/-- The program returns, with a value and a state that satisfy `P`. -/
def Returns (act : Act S A) (s : S) (P : A → S → Prop) : Prop :=
  ∃ a s', act.exec s = (some a, s') ∧ P a s'

section Returns

variable {act : Act S A} {next : A → Act S B} {s : S} {P : A → S → Prop} {Q : B → S → Prop}

theorem returns_pure {a : A} (holds : P a s) : Returns (pure a) s P := ⟨a, s, rfl, holds⟩

theorem Returns.mono {P' : A → S → Prop} (returns : Returns act s P)
    (weaker : ∀ a s', P a s' → P' a s') : Returns act s P' := by
  obtain ⟨a, s', run, holds⟩ := returns
  exact ⟨a, s', run, weaker a s' holds⟩

theorem returns_bind {a : A} {s' : S} (run : act.exec s = (some a, s'))
    (rest : Returns (next a) s' Q) : Returns (act >>= next) s Q := by
  obtain ⟨b, s'', run', holds⟩ := rest
  refine ⟨b, s'', ?_, holds⟩
  rw [exec_bind, run]
  exact run'

theorem Returns.bind (first : Returns act s P)
    (second : ∀ a s', P a s' → Returns (next a) s' Q) : Returns (act >>= next) s Q := by
  obtain ⟨a, s', run, holds⟩ := first
  exact returns_bind run (second a s' holds)

end Returns

end Act
