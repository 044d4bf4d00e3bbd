import Mathlib.Data.List.Basic

namespace Deviant.Data

open List

/-! Two runs of one machine on the same messages, from states that differ.  The machine answers each
message and changes its state. -/

section

variable {S M A : Type} (process : S → M → A × S)

def reached (state : S) (messages : List M) :
    S := messages.foldl (fun state message => (process state message).2) state

def answers (state : S) : List M → List A
  | [] => []
  | message :: messages => (process state message).1 :: answers (process state message).2 messages

/-- Two outcomes with one answer and related states. -/
structure Agree (related : S → S → Prop) (left right : A × S) : Prop where
  answer : left.1 = right.1
  states : related left.2 right.2

/-- From two states the machine gives the same answers, and looks the same after each message. -/
def Unaffected (looksSame : S → S → Prop) (left right : S) (messages : List M) : Prop :=
  answers process left messages = answers process right messages ∧
    ∀ passed, passed <+: messages →
    looksSame (reached process left passed) (reached process right passed)

/-- Up to a first message of some sort nothing is asked, and of that message that it does no
harm. -/
def FirstHarmless (decides harms : S → M → Prop) (state : S) (messages : List M) : Prop :=
  ∀ passed message, passed ++ [message] <+: messages →
    (∀ earlier other, earlier ++ [other] <+: passed →
      ¬ decides (reached process state earlier) other) →
      decides (reached process state passed) message →
      ¬ harms (reached process state passed) message

end

section

variable {S M A : Type} {process : S → M → A × S} {looksSame : S → S → Prop} {left right state : S}
  {message : M}
  {messages : List M} {decides harms : S → M → Prop}

theorem unaffected_nil : Unaffected process looksSame left right [] ↔ looksSame left right := by
  constructor
  · intro unaffected
    exact unaffected.2 [] nil_prefix
  · intro same
    refine ⟨rfl, fun passed within => ?_⟩
    rw [prefix_nil.mp within]
    exact same

theorem unaffected_cons : Unaffected process looksSame left right (message :: messages) ↔
    looksSame left right ∧ (process left message).1 = (process right message).1 ∧
      Unaffected process looksSame (process left message).2 (process right message).2 messages := by
  constructor
  · rintro ⟨answered, same⟩
    have both := cons.inj answered
    refine ⟨same [] nil_prefix, both.1, both.2, fun passed within => ?_⟩
    exact same (message :: passed) (cons_prefix_cons.mpr ⟨rfl, within⟩)
  · rintro ⟨here, answer, answered, same⟩
    refine ⟨congrArg₂ cons answer answered, fun passed within => ?_⟩
    cases passed with
    | nil => exact here
    | cons first passed =>
      obtain ⟨rfl, rest⟩ := cons_prefix_cons.mp within
      exact same passed rest

theorem firstHarmless_nil : FirstHarmless process decides harms state [] := by
  intro passed message within
  exact absurd (prefix_nil.mp within) (by simp)

theorem firstHarmless_cons_of_decides (decided : decides state message) :
    FirstHarmless process decides harms state (message :: messages) ↔ ¬ harms state message := by
  constructor
  · intro harmless
    refine harmless [] message (cons_prefix_cons.mpr ⟨rfl, nil_prefix⟩) ?_ decided
    intro earlier other within
    exact absurd (prefix_nil.mp within) (by simp)
  · intro spared passed later within first
    cases passed with
    | nil =>
      obtain ⟨rfl, _⟩ := cons_prefix_cons.mp within
      exact fun _ => spared
    | cons head passed =>
      obtain ⟨rfl, _⟩ := cons_prefix_cons.mp within
      exact absurd decided (first [] head (cons_prefix_cons.mpr ⟨rfl, nil_prefix⟩))

theorem firstHarmless_cons_of_not_decides (undecided : ¬ decides state message) :
    FirstHarmless process decides harms state (message :: messages) ↔
      FirstHarmless process decides harms (process state message).2 messages := by
  constructor
  · intro harmless passed later within first
    refine harmless (message :: passed) later (cons_prefix_cons.mpr ⟨rfl, within⟩) ?_
    intro earlier other before
    cases earlier with
    | nil =>
      obtain ⟨rfl, _⟩ := cons_prefix_cons.mp before
      exact undecided
    | cons head earlier =>
      obtain ⟨rfl, rest⟩ := cons_prefix_cons.mp before
      exact first earlier other rest
  · intro harmless passed later within first
    cases passed with
    | nil =>
      obtain ⟨rfl, _⟩ := cons_prefix_cons.mp within
      exact fun decided => absurd decided undecided
    | cons head passed =>
      obtain ⟨rfl, rest⟩ := cons_prefix_cons.mp within
      refine harmless passed later rest fun earlier other before => ?_
      exact first (head :: earlier) other (cons_prefix_cons.mpr ⟨rfl, before⟩)

theorem unaffected_of_relation {related : S → S → Prop}
    (look : ∀ left right, related left right → looksSame left right)
    (keeps : ∀ left right message, related left right →
      Agree related (process left message) (process right message))
    (here : related left right) : Unaffected process looksSame left right messages := by
  induction messages generalizing left right with
  | nil => exact unaffected_nil.mpr (look left right here)
  | cons message messages ih =>
    obtain ⟨answer, next⟩ := keeps left right message here
    exact unaffected_cons.mpr ⟨look left right here, answer, ih next⟩

theorem unaffected_iff_firstHarmless {hidden ended : S → S → Prop}
    (look : ∀ left right, hidden left right → looksSame left right)
    (stays : ∀ left right message, hidden left right → ¬ decides right message →
      Agree hidden (process left message) (process right message))
    (ends : ∀ left right message, hidden left right → decides right message →
      ¬ harms right message → Agree ended (process left message) (process right message))
    (shows : ∀ left right message, hidden left right → decides right message → harms right message →
      (process left message).1 = (process right message).1 →
        ¬ looksSame (process left message).2 (process right message).2)
    (apart : ∀ left right messages, ended left right →
      Unaffected process looksSame left right messages)
    (here : hidden left right) :
    Unaffected process looksSame left right messages ↔
      FirstHarmless process decides harms right messages := by
  induction messages generalizing left right with
  | nil => exact iff_of_true (unaffected_nil.mpr (look left right here)) firstHarmless_nil
  | cons message messages ih =>
    rw [unaffected_cons]
    by_cases decided : decides right message
    · rw [firstHarmless_cons_of_decides decided]
      constructor
      · rintro ⟨_, answer, rest⟩ harmful
        exact shows left right message here decided harmful answer (rest.2 [] nil_prefix)
      · intro harmless
        obtain ⟨answer, next⟩ := ends left right message here decided harmless
        exact ⟨look left right here, answer, apart _ _ messages next⟩
    · obtain ⟨answer, next⟩ := stays left right message here decided
      rw [firstHarmless_cons_of_not_decides decided, ← ih next]
      constructor
      · exact fun unaffected => unaffected.2.2
      · exact fun rest => ⟨look left right here, answer, rest⟩

end

end Deviant.Data
