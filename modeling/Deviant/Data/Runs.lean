import Mathlib.Data.List.Basic
import Mathlib.Data.List.Induction

namespace Deviant.Data

/-! Runs that fold a step over events, watched at every event. -/

variable {S E : Type} {step : S → E → S} {start : S} {events : List E}
  (Inv : S → Prop) (fits : S → E → Prop) (initial : Inv start)

include initial

theorem foldl_of_fits (kept : ∀ state event, Inv state → fits state event → Inv (step state event))
    (every : ∀ passed event, passed ++ [event] <+: events → fits (passed.foldl step start) event)
    (within : passed <+: events) : Inv (passed.foldl step start) := by
  induction passed using List.reverseRecOn with
  | nil => exact initial
  | append_singleton passed event ih =>
    rw [List.foldl_concat]
    exact kept _ _ (ih ((List.prefix_append passed [event]).trans within)) (every passed event within)

/-- Every step turns out well exactly if every step fits. -/
theorem forall_step_iff (good : E → S → Prop)
    (kept : ∀ state event, Inv state → fits state event → Inv (step state event))
    (judged : ∀ state event, Inv state → (good event (step state event) ↔ fits state event)) :
    (∀ passed event, passed ++ [event] <+: events → good event ((passed ++ [event]).foldl step start)) ↔
      ∀ passed event, passed ++ [event] <+: events → fits (passed.foldl step start) event := by
  simp only [List.foldl_concat]
  constructor
  · intro every passed event within
    refine (judged _ _ ?_).mp (every passed event within)
    refine foldl_of_fits Inv (fun state event => good event (step state event)) initial ?_ every
      ((List.prefix_append passed [event]).trans within)
    exact fun state event holds well => kept state event holds ((judged state event holds).mp well)
  · intro every passed event within
    refine (judged _ _ ?_).mpr (every passed event within)
    exact foldl_of_fits Inv fits initial kept every ((List.prefix_append passed [event]).trans within)

/-- The invariant holds at every moment of a run exactly if every step fits. -/
theorem forall_inv_iff
    (judged : ∀ state event, Inv state → (Inv (step state event) ↔ fits state event)) :
    (∀ passed, passed <+: events → Inv (passed.foldl step start)) ↔
      ∀ passed event, passed ++ [event] <+: events → fits (passed.foldl step start) event := by
  rw [← forall_step_iff Inv fits initial (fun _ => Inv)
    (fun _ _ holds => (judged _ _ holds).mpr) judged]
  refine ⟨fun every passed event within => every _ within, fun every passed within => ?_⟩
  rcases passed.eq_nil_or_concat' with rfl | ⟨passed, event, rfl⟩
  · exact initial
  · exact every passed event within

end Deviant.Data
