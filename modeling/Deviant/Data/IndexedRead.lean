import Mathlib.Data.List.Basic

namespace Deviant.Data

/-! Computations that read lists by an index nobody checks.  A run is an `Option` that is `none`
once a read was out of range, whatever the computation would have answered; the answer itself may
be a truth value or a refusal (`Except`). -/

variable {α β ε : Type}

/-- The element at an index.  The read is undefined beyond the end. -/
def readAt (list : List α) (index : Nat) : Option α := list[index]?

variable {bounds : Prop} {index : Nat}

theorem readAt_bind {list : List α} {element : α} (found : list[index]? = some element) :
    (readAt list index >>= rest) = rest element := by
  rw [readAt, found]
  rfl

/-- The run stays in range exactly under the condition `bounds`, and then answers `value`. -/
structure ReadsWithin (run : Option α) (value : α) (bounds : Prop) : Prop where
  inside : bounds → run = some value
  outside : ¬bounds → run = none

namespace ReadsWithin

variable {run : Option α} {value : α} {bounds later : Prop}

theorem safe (answers : run = some value) (holds : bounds) : ReadsWithin run value bounds :=
  ⟨fun _ => answers, fun fails => (fails holds).elim⟩

theorem congr {bounds' : Prop} (reads : ReadsWithin run value bounds) (same : bounds ↔ bounds') :
    ReadsWithin run value bounds' :=
  ⟨fun holds => reads.inside (same.mpr holds), fun fails => reads.outside fun holds =>
    fails (same.mp holds)⟩

theorem readAt {list : List β} {rest : β → Option α}
    (reads : ∀ element, list[index]? = some element → ReadsWithin (rest element) value later) :
    ReadsWithin (Data.readAt list index >>= rest) value (index < list.length ∧ later) := by
  unfold Data.readAt
  by_cases inRange : index < list.length
  · have found : list[index]? = some list[index] := List.getElem?_eq_getElem inRange
    rw [found]
    exact (reads _ found).congr (by simp [inRange])
  · rw [List.getElem?_eq_none (Nat.le_of_not_lt inRange)]
    exact ⟨fun holds => (inRange holds.1).elim, fun _ => rfl⟩

theorem answer {list : List β} {verdict : β → α}
    (agrees : ∀ element, list[index]? = some element → verdict element = value) :
    ReadsWithin (Data.readAt list index >>= fun element => pure (verdict element)) value
      (index < list.length) :=
  congr (readAt fun element found => safe (congrArg some (agrees element found)) trivial)
    (and_iff_left trivial)

theorem bind {result : β} {rest : α → Option β} (first : ReadsWithin run value bounds)
    (second : ReadsWithin (rest value) result later) :
    ReadsWithin (run >>= rest) result (bounds ∧ later) := by
  by_cases holds : bounds
  · rw [first.inside holds]
    exact second.congr (by simp [holds])
  · rw [first.outside holds]
    exact ⟨fun both => (holds both.1).elim, fun _ => rfl⟩

theorem map (reads : ReadsWithin run value bounds) (f : α → β) :
    ReadsWithin (run.map f) (f value) bounds :=
  ⟨fun holds => by rw [reads.inside holds]; rfl, fun fails => by rw [reads.outside fails]; rfl⟩

theorem ite {condition : Prop} [Decidable condition] {other : Option α} {result : α}
    (yes : condition → ReadsWithin run value bounds)
    (no : ¬condition → ReadsWithin other result later) :
    ReadsWithin (if condition then run else other) (if condition then value else result)
      ((condition → bounds) ∧ (¬condition → later)) := by
  by_cases holds : condition
  · simpa [holds] using yes holds
  · simpa [holds] using no holds

end ReadsWithin

def settled (check : Except ε α) : ExceptT ε Option α := ExceptT.mk (some check)

def reading (run : Option α) : ExceptT ε Option α := ExceptT.mk (run.map .ok)

namespace ReadsWithin

theorem settled : ReadsWithin (Data.settled check).run check True := safe rfl trivial

theorem andThen {first : ExceptT ε Option α} {passed : Except ε α} {rest : α → ExceptT ε Option β}
    {result : α → Except ε β} {later : α → Prop} (here : ReadsWithin first.run passed bounds)
    (next : ∀ value, passed = .ok value →
      ReadsWithin (rest value).run (result value) (later value)) :
    ReadsWithin (first >>= rest).run (passed >>= result) (bounds ∧ ∀ value, passed = .ok value →
      later value) := by
  refine here.bind ?_
  cases passed with
  | error reason => exact safe rfl (by simp)
  | ok value => exact (next value rfl).congr (by simp)

theorem check {first : ExceptT ε Option Unit} {passed : Except ε Unit}
    {rest : Unit → ExceptT ε Option β} {result : Unit → Except ε β} {later : Prop}
    (here : ReadsWithin first.run passed bounds)
    (next : passed = .ok () → ReadsWithin (rest ()).run (result ()) later) :
    ReadsWithin (first >>= rest).run (passed >>= result) (bounds ∧ (passed = .ok () → later)) :=
  (here.andThen fun _ => next).congr (and_congr_right fun _ =>
    ⟨fun all => all (), fun holds _ => holds⟩)

theorem reading {run : Option α} {value : α} {rest : α → ExceptT ε Option β} {result : Except ε β}
    {later : Prop} (reads : ReadsWithin run value bounds)
    (next : ReadsWithin (rest value).run result later) :
    ReadsWithin (Data.reading run >>= rest).run result (bounds ∧ later) := by
  have unfolded : (Data.reading run >>= rest).run = run >>= fun element => (rest element).run := by
    cases run with
    | none => rfl
    | some element => rfl
  rw [unfolded]
  exact reads.bind next

theorem isSome_andThen {first : ExceptT ε Option α} {passed : Except ε α}
    (here : ReadsWithin first.run passed bounds) :
    (first >>= rest).run.isSome = true ↔ bounds ∧ ∀ value, passed = .ok value →
      (rest value).run.isSome = true := by
  have unfolded : (first >>= rest).run = first.run >>= ExceptT.bindCont rest := rfl
  rw [unfolded]
  by_cases holds : bounds
  · rw [here.inside holds]
    cases passed with
    | error reason => simp [holds, ExceptT.bindCont]
    | ok value => simp [holds, ExceptT.bindCont, ExceptT.run]
  · simp [here.outside holds, holds]

theorem isSome_check {first : ExceptT ε Option Unit} {passed : Except ε Unit}
    (here : ReadsWithin first.run passed bounds) :
    (first >>= rest).run.isSome = true ↔ bounds ∧ (passed = .ok () → (rest ()).run.isSome = true) := by
  rw [isSome_andThen here]
  exact and_congr_right fun _ => ⟨fun all => all (), fun holds _ => holds⟩

theorem isSome_settled : (Data.settled passed >>= rest).run.isSome = true ↔
      ∀ value, passed = .ok value → (rest value).run.isSome = true := by
  rw [isSome_andThen settled]
  exact and_iff_right trivial

end ReadsWithin

theorem forall_split_cons {first : α} {rest : List α} {holds : List α → α → Prop} :
    (∀ before element after, first :: rest = before ++ element :: after → holds before element) ↔
      holds [] first ∧
        ∀ before element after, rest = before ++ element :: after →
        holds (first :: before) element := by
  constructor
  · intro all
    exact ⟨all [] first rest rfl, fun before element after split =>
      all (first :: before) element after (by rw [split]; rfl)⟩
  · intro parts before element after split
    cases before with
    | nil =>
      cases split
      exact parts.1
    | cons head before =>
      cases split
      exact parts.2 before element after rfl

end Deviant.Data
