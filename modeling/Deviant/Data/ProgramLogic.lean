import Deviant.Data.Program

namespace Deviant.Data.Program

/-! Pre- and postconditions of programs.

`Wp` says of one start state that a run either ends with the postcondition or
fails in an allowed way.  A read-only program also leaves the state alone, from
wherever it starts. -/

variable {Op : Type} {Answer : Op → Type} {ε α β σ : Type}

def Wp (step : (op : Op) → σ → Except ε (Answer op × σ)) (program : Program Op Answer ε α)
    (state : σ) (Post : α → σ → Prop) (Fails : ε → Prop) : Prop :=
  match run step program state with
  | .ok (value, after) => Post value after
  | .error reason => Fails reason

variable {step : (op : Op) → σ → Except ε (Answer op × σ)} {state : σ} {Fails : ε → Prop}

variable {program : Program Op Answer ε α} {Post : α → σ → Prop} {value : α} {after : σ}

theorem Wp.of_ok (ran : run step program state = .ok (value, after)) (post : Post value after) :
    Wp step program state Post Fails := by
  unfold Wp
  rw [ran]
  exact post

variable {reason : ε}

theorem Wp.of_error (ran : run step program state = .error reason) (allowed : Fails reason) :
    Wp step program state Post Fails := by
  unfold Wp
  rw [ran]
  exact allowed

theorem Wp.post (wp : Wp step program state Post Fails)
    (ran : run step program state = .ok (value, after)) :
    Post value after := by
  unfold Wp at wp
  rwa [ran] at wp

theorem Wp.failed (wp : Wp step program state Post Fails)
    (ran : run step program state = .error reason) : Fails reason := by
  unfold Wp at wp
  rwa [ran] at wp

theorem Wp.pure (post : Post value state) :
    Wp step (Pure.pure value : Program Op Answer ε α) state Post Fails := post

theorem Wp.fail (allowed : Fails reason) :
    Wp step (.fail reason : Program Op Answer ε α) state Post Fails := allowed

variable {continuation : α → Program Op Answer ε β}

theorem Wp.after_run {Post : β → σ → Prop} (ran : run step program state = .ok (value, after))
    (next : Wp step (continuation value) after Post Fails) :
    Wp step (program >>= continuation) state Post Fails := by
  unfold Wp at next ⊢
  rwa [run_bind_ok ran]

theorem Wp.bind {Middle : α → σ → Prop} {Post : β → σ → Prop}
    (first : Wp step program state Middle Fails)
    (next : ∀ value after, run step program state = .ok (value, after) → Middle value after →
      Wp step (continuation value) after Post Fails) :
    Wp step (program >>= continuation) state Post Fails := by
  cases ran : run step program state with
  | error reason =>
    refine Wp.of_error ?_ (first.failed ran)
    rw [run_bind, ran]
  | ok result =>
    exact Wp.after_run ran (next result.1 result.2 ran (first.post ran))

theorem Wp.mono {Post' : α → σ → Prop} (wp : Wp step program state Post Fails)
    (weaker : ∀ value after, Post value after → Post' value after) :
    Wp step program state Post' Fails := by
  unfold Wp at wp ⊢
  cases ran : run step program state with
  | error reason => rwa [ran] at wp
  | ok result =>
    rw [ran] at wp
    exact weaker result.1 result.2 wp

/-- From every state, the program leaves the state as it is or fails in an allowed way. -/
def ReadOnly (step : (op : Op) → σ → Except ε (Answer op × σ)) (Fails : ε → Prop)
    (program : Program Op Answer ε α) : Prop :=
  ∀ state, Wp step program state (fun _ after => after = state) Fails

theorem ReadOnly.pure (value : α) : ReadOnly step Fails (Pure.pure value : Program Op Answer ε α) :=
  fun _ => rfl

theorem ReadOnly.fail (allowed : Fails reason) :
    ReadOnly step Fails (.fail reason : Program Op Answer ε α) := fun _ => allowed

theorem ReadOnly.bind (first : ReadOnly step Fails program)
    (next : ∀ value, ReadOnly step Fails (continuation value)) :
    ReadOnly step Fails (program >>= continuation) := by
  intro state
  refine (first state).bind fun value after _ same => ?_
  subst same
  exact next value after

theorem ReadOnly.same (readOnly : ReadOnly step Fails program)
    (ran : run step program state = .ok (value, after)) : after = state :=
  (readOnly state).post ran

theorem ReadOnly.then_wp {Post : β → σ → Prop} (first : ReadOnly step Fails program)
    (next : ∀ value, run step program state = .ok (value, state) →
      Wp step (continuation value) state Post Fails) :
    Wp step (program >>= continuation) state Post Fails := by
  refine (first state).bind fun value after ran same => ?_
  subst same
  exact next value ran

end Deviant.Data.Program
