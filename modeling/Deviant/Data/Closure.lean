import Mathlib.Logic.Relation

namespace Deviant.Data

/-! Reachability when a relation changes. -/

open Relation

variable {α : Type} {before after : α → α → Prop} (inside : α → Prop)

theorem reflTransGen_congr_of_closed (closed : ∀ a b, inside a → before a b → inside b)
    (agree : ∀ a b, inside a → (after a b ↔ before a b)) {x z : α} (start : inside x) :
    ReflTransGen after x z ↔ ReflTransGen before x z := by
  constructor
  · intro path
    have kept : inside z ∧ ReflTransGen before x z := by
      induction path with
      | refl => exact ⟨start, .refl⟩
      | tail _ step ih =>
        have old := (agree _ _ ih.1).mp step
        exact ⟨closed _ _ ih.1 old, ih.2.tail old⟩
    exact kept.2
  · intro path
    have kept : inside z ∧ ReflTransGen after x z := by
      induction path with
      | refl => exact ⟨start, .refl⟩
      | tail _ step ih => exact ⟨closed _ _ ih.1 step, ih.2.tail ((agree _ _ ih.1).mpr step)⟩
    exact kept.2

theorem not_transGen_of_source {step : α → α → Prop} {a : α} (source : ∀ b, ¬ step a b) (c : α) :
    ¬ TransGen step a c := by
  intro path
  obtain ⟨b, first, -⟩ := TransGen.head'_iff.mp path
  exact source b first

theorem reflTransGen_congr_of_closed_backward (closed : ∀ a b, inside b → before a b → inside a)
    (agree : ∀ a b, inside b → (after a b ↔ before a b)) {x z : α} (target : inside z) :
    ReflTransGen after x z ↔ ReflTransGen before x z := by
  have swapped : ReflTransGen (Function.swap after) z x ↔ ReflTransGen (Function.swap before) z x :=
    reflTransGen_congr_of_closed inside (fun a b member step => closed b a member step)
      (fun a b member => agree b a member) target
  exact reflTransGen_swap.symm.trans (swapped.trans reflTransGen_swap)

end Deviant.Data
