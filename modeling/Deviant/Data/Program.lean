import Mathlib.Tactic.Common

namespace Deviant.Data

/-! Programs over a signature of operations.

A program is a tree of calls to operations whose meaning is left open.  An
interpretation gives every operation a fallible step on a state; `run` folds it
over the tree.  Two interpretations of one signature are compared operation by
operation (`Refines`) and the comparison lifts to every program once and for all.
-/

inductive Program (Op : Type) (Answer : Op → Type) (ε α : Type) where
  | done (value : α)
  | fail (reason : ε)
  | call (op : Op) (next : Answer op → Program Op Answer ε α)

namespace Program

variable {Op : Type} {Answer : Op → Type} {ε α β γ σ τ : Type}

def bind : Program Op Answer ε α → (α → Program Op Answer ε β) → Program Op Answer ε β
  | .done value, continuation => continuation value
  | .fail reason, _ => .fail reason
  | .call op next, continuation => .call op fun answer => (next answer).bind continuation

instance : Monad (Program Op Answer ε) where
  pure := .done
  bind := Program.bind

def perform (op : Op) : Program Op Answer ε (Answer op) := .call op .done

/-- Run a program; the first failing step, or a `fail` node, ends the run. -/
def run (step : (op : Op) → σ → Except ε (Answer op × σ)) :
    Program Op Answer ε α → σ → Except ε (α × σ)
  | .done value, state => .ok (value, state)
  | .fail reason, _ => .error reason
  | .call op next, state =>
    match step op state with
    | .error reason => .error reason
    | .ok (answer, after) => (next answer).run step after

variable {step : (op : Op) → σ → Except ε (Answer op × σ)}

@[simp] theorem run_pure (value : α) :
    run step (pure value : Program Op Answer ε α) state = .ok (value, state) := rfl

@[simp] theorem run_done :
    run step (.done value : Program Op Answer ε α) state = .ok (value, state) := rfl

@[simp] theorem run_fail :
    run step (.fail reason : Program Op Answer ε α) state = .error reason := rfl

@[simp] theorem run_perform :
    run step (perform op : Program Op Answer ε (Answer op)) state = step op state := by
  cases stepped : step op state with
  | error reason => simp [perform, run, stepped]
  | ok result => simp [perform, run, stepped]

theorem run_bind (continuation : α → Program Op Answer ε β) (state : σ) :
      run step (program >>= continuation) state = match run step program state with
      | .error reason => .error reason
      | .ok (value, after) => run step (continuation value) after := by
  change run step (program.bind continuation) state = _
  induction program generalizing state with
  | done value => rfl
  | fail reason => rfl
  | call op next ih =>
    simp only [Program.bind, run]
    cases stepped : step op state with
    | error reason => rfl
    | ok result => exact ih result.1 result.2

theorem run_bind_ok {program : Program Op Answer ε α} {continuation : α → Program Op Answer ε β}
    {state after : σ} {value : α} (ran : run step program state = .ok (value, after)) :
    run step (program >>= continuation) state = run step (continuation value) after := by
  rw [run_bind, ran]

theorem run_bind_eq_ok {program : Program Op Answer ε α}
    {continuation : α → Program Op Answer ε β} {state final : σ} {result : β}
    (ran : run step (program >>= continuation) state = .ok (result, final)) :
    ∃ value middle, run step program state = .ok (value, middle) ∧
      run step (continuation value) middle = .ok (result, final) := by
  rw [run_bind] at ran
  cases first : run step program state with
  | error reason => simp only [first, reduceCtorEq] at ran
  | ok pair =>
    simp only [first] at ran
    exact ⟨pair.1, pair.2, rfl, ran⟩

theorem run_keeps {Holds : σ → Prop}
    (kept : ∀ op state answer after, Holds state → step op state = .ok (answer, after) → Holds after)
    (program : Program Op Answer ε α) {state after : σ} {value : α} (holds : Holds state)
    (ran : run step program state = .ok (value, after)) : Holds after := by
  induction program generalizing state with
  | done value =>
    cases ran
    exact holds
  | fail reason => cases ran
  | call op next ih =>
    simp only [run] at ran
    cases stepped : step op state with
    | error reason => simp only [stepped, reduceCtorEq] at ran
    | ok result =>
      simp only [stepped] at ran
      exact ih result.1 (kept op state result.1 result.2 holds stepped) ran

theorem run_bind_pure {program : Program Op Answer ε α} {state : σ} {f : α → α}
    (same : ∀ value, f value = value) :
    run step (program >>= fun value => pure (f value)) state = run step program state := by
  rw [run_bind]
  cases run step program state with
  | error reason => rfl
  | ok result => simp [same]

/-- The concrete outcome matches the abstract one: equal answers and related
states, or the same failure, unless the abstract failure is an excused one. -/
def Agrees (Related : σ → τ → Prop) (Excused : ε → Prop) :
    Except ε (α × σ) → Except ε (α × τ) → Prop
  | .ok (value, state), concrete => ∃ state', concrete = .ok (value, state') ∧ Related state state'
  | .error reason, concrete => Excused reason ∨ concrete = .error reason

def Refines (abstractStep : (op : Op) → σ → Except ε (Answer op × σ))
    (concreteStep : (op : Op) → τ → Except ε (Answer op × τ)) (Related : σ → τ → Prop)
    (Excused : ε → Prop) : Prop :=
  ∀ op state state', Related state state' →
    Agrees Related Excused (abstractStep op state) (concreteStep op state')

variable {abstractStep : (op : Op) → σ → Except ε (Answer op × σ)}
  {concreteStep : (op : Op) → τ → Except ε (Answer op × τ)}
  {Related : σ → τ → Prop} {Excused : ε → Prop}

variable (refines : Refines abstractStep concreteStep Related Excused)

include refines

theorem Refines.run_agrees (program : Program Op Answer ε α) {state : σ} {state' : τ}
    (related : Related state state') :
    Agrees Related Excused (run abstractStep program state) (run concreteStep program state') := by
  induction program generalizing state state' with
  | done value => exact ⟨state', rfl, related⟩
  | fail reason => exact .inr rfl
  | call op next ih =>
    have first := refines op state state' related
    simp only [run]
    cases stepped : abstractStep op state with
    | error reason =>
      rw [stepped] at first
      rcases first with excused | same
      · exact .inl excused
      · exact .inr (by rw [same])
    | ok result =>
      rw [stepped] at first
      obtain ⟨after', stepped', related'⟩ := first
      rw [stepped']
      exact ih result.1 related'

theorem Refines.run_ok {program : Program Op Answer ε α} {state after : σ} {state' : τ} {value : α}
    (related : Related state state') (ran : run abstractStep program state = .ok (value, after)) :
    ∃ after', run concreteStep program state' = .ok (value, after') ∧ Related after after' := by
  have agrees := refines.run_agrees program related
  rwa [ran] at agrees

theorem Refines.of_run_ok {program : Program Op Answer ε α} {state : σ} {state' after' : τ} {value : α}
    (related : Related state state') (ran : run concreteStep program state' = .ok (value, after')) :
    (∃ after, run abstractStep program state = .ok (value, after) ∧ Related after after') ∨
      ∃ reason, run abstractStep program state = .error reason ∧ Excused reason := by
  have agrees := refines.run_agrees program related
  cases abstractRan : run abstractStep program state with
  | error reason =>
    rw [abstractRan] at agrees
    rcases agrees with excused | same
    · exact .inr ⟨reason, rfl, excused⟩
    · rw [ran] at same
      cases same
  | ok result =>
    rw [abstractRan] at agrees
    obtain ⟨concreteAfter, same, related'⟩ := agrees
    rw [ran] at same
    cases same
    exact .inl ⟨result.2, rfl, related'⟩

end Program
end Deviant.Data
