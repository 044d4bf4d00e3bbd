import Mathlib.Data.List.Infix
import Mathlib.Data.List.Nodup
import Mathlib.Data.List.Basic

namespace Deviant.Data

open List

/-! Nodes with at most one parent each, one level below them. -/

def walk {α : Type} (parent : α → Option α) : Nat → α → List α
  | 0, node => [node]
  | steps + 1, node => node :: (parent node).elim [] (walk parent steps)

/-- Parents, with levels that rise by one from a parent to its children. -/
structure Forest (α : Type) where
  parent : α → Option α
  height : α → Nat
  graded : ∀ {node above}, parent node = some above → height node = height above + 1

namespace Forest

variable {α : Type} {forest : Forest α} {node above other : α}

def ancestry (forest : Forest α) (node : α) : List α := walk forest.parent (forest.height node) node

theorem ancestry_root (top : forest.parent node = none) : forest.ancestry node = [node] := by
  unfold ancestry
  cases forest.height node with
  | zero => rfl
  | succ steps => simp [walk, top]

theorem ancestry_child (own : forest.parent node = some above) :
    forest.ancestry node = node :: forest.ancestry above := by
  unfold ancestry
  rw [forest.graded own, walk, own, Option.elim_some]

theorem induction {motive : α → Prop} (root : ∀ node, forest.parent node = none → motive node)
    (child : ∀ node above, forest.parent node = some above → motive above → motive node)
    (node : α) : motive node := by
  induction level : forest.height node generalizing node with
  | zero =>
    refine root node ?_
    cases own : forest.parent node with
    | none => rfl
    | some above =>
      have step := forest.graded own
      omega
  | succ steps hyp =>
    cases own : forest.parent node with
    | none => exact root node own
    | some above =>
      have step := forest.graded own
      exact child node above own (hyp above (by omega))

theorem mem_ancestry_self (forest : Forest α) : node ∈ forest.ancestry node := by
  cases own : forest.parent node with
  | none => simp [ancestry_root own]
  | some above => simp [ancestry_child own]

theorem ancestry_ne_nil (forest : Forest α) : forest.ancestry node ≠ [] :=
  ne_nil_of_mem forest.mem_ancestry_self

theorem exists_ancestry_eq_cons (forest : Forest α) (node : α) :
    ∃ rest, forest.ancestry node = node :: rest := by
  cases own : forest.parent node with
  | none => exact ⟨[], ancestry_root own⟩
  | some above => exact ⟨_, ancestry_child own⟩

theorem mem_ancestry_parent (own : forest.parent node = some above) :
    above ∈ forest.ancestry node := by
  rw [ancestry_child own]
  exact mem_cons_of_mem _ forest.mem_ancestry_self

@[elab_as_elim]
theorem mem_induction {motive : α → Prop} (member : other ∈ forest.ancestry node)
    (self : motive other) (child : ∀ node above, forest.parent node = some above →
      other ∈ forest.ancestry above → motive above → motive node) :
    motive node := by
  induction node using forest.induction with
  | root node top =>
    rw [ancestry_root top, mem_singleton] at member
    exact member ▸ self
  | child node above own hyp =>
    rw [ancestry_child own, mem_cons] at member
    cases member with
    | inl same => exact same ▸ self
    | inr further => exact child node above own further (hyp further)

theorem ancestry_suffix (member : other ∈ forest.ancestry node) :
    forest.ancestry other <:+ forest.ancestry node := by
  refine mem_induction member suffix_rfl fun node above own _ hyp => ?_
  rw [ancestry_child own]
  exact hyp.trans (suffix_cons node _)

theorem mem_ancestry_trans (member : other ∈ forest.ancestry node)
    (further : last ∈ forest.ancestry other) :
    last ∈ forest.ancestry node := (ancestry_suffix member).subset further

theorem holds_of_mem {holds : α → Prop}
    (closed : ∀ node above, forest.parent node = some above → holds above)
    (here : holds node) (member : other ∈ forest.ancestry node) : holds other := by
  revert here
  exact mem_induction member id fun node above own _ hyp _ => hyp (closed node above own)

theorem height_le_of_mem (member : other ∈ forest.ancestry node) :
    forest.height other ≤ forest.height node := by
  refine mem_induction member Nat.le.refl fun node above own _ hyp => ?_
  rw [forest.graded own]
  exact Nat.le_succ_of_le hyp

theorem height_lt_of_mem_parent (own : forest.parent node = some above)
    (member : other ∈ forest.ancestry above) :
    forest.height other < forest.height node := by
  rw [forest.graded own]
  exact Nat.lt_succ_of_le (height_le_of_mem member)

theorem eq_of_mem_of_height_eq (member : other ∈ forest.ancestry node)
    (level : forest.height other = forest.height node) :
    other = node := by
  revert level
  refine mem_induction member (fun _ => rfl) fun node above own further _ level => ?_
  have below := height_lt_of_mem_parent own further
  omega

theorem mem_ancestry_or (leftMember : left ∈ forest.ancestry node)
    (rightMember : right ∈ forest.ancestry node) :
    left ∈ forest.ancestry right ∨ right ∈ forest.ancestry left := by
  rcases suffix_or_suffix_of_suffix (ancestry_suffix leftMember) (ancestry_suffix rightMember)
    with inside | inside
  · exact .inl (inside.subset forest.mem_ancestry_self)
  · exact .inr (inside.subset forest.mem_ancestry_self)

theorem eq_of_height_eq (leftMember : left ∈ forest.ancestry node)
    (rightMember : right ∈ forest.ancestry node)
    (level : forest.height left = forest.height right) : left = right := by
  rcases mem_ancestry_or leftMember rightMember with inside | inside
  · exact eq_of_mem_of_height_eq inside level
  · exact (eq_of_mem_of_height_eq inside level.symm).symm

theorem mem_takeWhile_of_inherited {stops : α → Bool}
    (inherited : ∀ a b, stops a = true → b ∈ forest.ancestry a → stops b = true)
    (member : other ∈ forest.ancestry node) (goes : stops other = false) :
    other ∈ (forest.ancestry node).takeWhile fun a => !stops a := by
  refine mem_induction member ?_ fun node above own further hyp => ?_
  · obtain ⟨rest, shape⟩ := forest.exists_ancestry_eq_cons other
    simp [shape, goes]
  · have nodeGoes : stops node = false := by
      by_contra stop
      rw [Bool.not_eq_false] at stop
      rw [inherited node other stop (mem_ancestry_trans (mem_ancestry_parent own) further)] at goes
      cases goes
    rw [ancestry_child own, takeWhile_cons_of_pos (by simp [nodeGoes])]
    exact mem_cons_of_mem _ hyp

theorem self_of_search (search : ((forest.ancestry node).takeWhile goes).find? found = some first) :
    node ∈ ((forest.ancestry node).takeWhile goes).takeWhile (fun a => !found a) ∨ node = first := by
  obtain ⟨rest, shape⟩ := forest.exists_ancestry_eq_cons node
  rw [shape] at search ⊢
  by_cases go : goes node = true
  · rw [takeWhile_cons_of_pos go] at search ⊢
    by_cases here : found node = true
    · rw [find?_cons_of_pos here] at search
      exact .inr (Option.some.inj search)
    · rw [takeWhile_cons_of_pos (by simp [here])]
      exact .inl mem_cons_self
  · simp [go] at search

theorem parent_takeWhile (search : ((forest.ancestry node).takeWhile goes).find? found = some first)
    (member : other ∈ ((forest.ancestry node).takeWhile goes).takeWhile fun a => !found a) :
    first ∈ forest.ancestry other ∧ ∃ next, forest.parent other = some next ∧
      (next ∈ ((forest.ancestry node).takeWhile goes).takeWhile (fun a => !found a) ∨ next = first) := by
  induction node using forest.induction with
  | root node top =>
    rw [ancestry_root top] at search member
    by_cases go : goes node = true
    · rw [takeWhile_cons_of_pos go] at search member
      by_cases here : found node = true
      · simp [here] at member
      · simp [here] at search
    · simp [go] at search
  | child node above own hyp =>
    rw [ancestry_child own] at search member ⊢
    by_cases go : goes node = true
    · rw [takeWhile_cons_of_pos go] at search member ⊢
      by_cases here : found node = true
      · simp [here] at member
      · rw [find?_cons_of_neg here] at search
        rw [takeWhile_cons_of_pos (by simp [here]), mem_cons] at member
        rw [takeWhile_cons_of_pos (by simp [here])]
        cases member with
        | inl same =>
          have later : first ∈ forest.ancestry above :=
            (takeWhile_subset goes) (mem_of_find?_eq_some search)
          refine ⟨same ▸ mem_ancestry_trans (mem_ancestry_parent own) later, above, same ▸ own, ?_⟩
          exact (self_of_search search).imp_left (mem_cons_of_mem _)
        | inr further =>
          obtain ⟨reach, next, parent, place⟩ := hyp search further
          exact ⟨reach, next, parent, place.imp_left (mem_cons_of_mem _)⟩
    · simp [go] at search

theorem mem_ancestry_of_find (search : (forest.ancestry node).find? found = some first)
    (member : other ∈ forest.ancestry node) (kind : found other = true) :
    other ∈ forest.ancestry first := by
  induction node using forest.induction with
  | root node top =>
    rw [ancestry_root top] at search
    have same : first = node := by simpa using mem_of_find?_eq_some search
    exact same ▸ member
  | child node above own hyp =>
    by_cases here : found node = true
    · rw [ancestry_child own, find?_cons_of_pos here] at search
      exact Option.some.inj search ▸ member
    · rw [ancestry_child own, find?_cons_of_neg here] at search
      rw [ancestry_child own, mem_cons] at member
      cases member with
      | inl same => exact absurd (same ▸ kind) here
      | inr further => exact hyp search further

theorem exists_root (forest : Forest α) (node : α) :
    ∃ root ∈ forest.ancestry node, forest.parent root = none := by
  induction node using forest.induction with
  | root node top => exact ⟨node, forest.mem_ancestry_self, top⟩
  | child node above own hyp =>
    obtain ⟨root, member, top⟩ := hyp
    exact ⟨root, mem_ancestry_trans (mem_ancestry_parent own) member, top⟩

theorem length_ancestry (rooted : ∀ node, forest.parent node = none → forest.height node = 0)
    (node : α) :
    (forest.ancestry node).length = forest.height node + 1 := by
  induction node using forest.induction with
  | root node top => rw [ancestry_root top, rooted node top, length_singleton]
  | child node above own hyp => rw [ancestry_child own, length_cons, hyp, forest.graded own]

theorem mem_ancestry_of_height_le (leftMember : left ∈ forest.ancestry node)
    (rightMember : right ∈ forest.ancestry node) (level : forest.height left ≤ forest.height right) :
    left ∈ forest.ancestry right := by
  rcases mem_ancestry_or leftMember rightMember with inside | inside
  · exact inside
  · have same := eq_of_mem_of_height_eq inside (level.antisymm' (height_le_of_mem inside))
    exact same ▸ forest.mem_ancestry_self

def ancestorAt (forest : Forest α) (node : α) (level : Nat) : Option α :=
  (forest.ancestry node).find? fun other => decide (forest.height other = level)

theorem ancestorAt_self (forest : Forest α) :
    forest.ancestorAt node (forest.height node) = some node := by
  unfold ancestorAt
  cases own : forest.parent node with
  | none => simp [ancestry_root own]
  | some above => simp [ancestry_child own]

theorem ancestorAt_child (own : forest.parent node = some above) (lower : level < forest.height node) :
    forest.ancestorAt node level = forest.ancestorAt above level := by
  unfold ancestorAt
  rw [ancestry_child own, find?_cons_of_neg]
  rw [decide_eq_true_eq]
  omega

theorem ancestorAt_eq_some :
    forest.ancestorAt node level = some other ↔ other ∈ forest.ancestry node ∧
      forest.height other = level := by
  constructor
  · intro found
    have holds := find?_some found
    rw [decide_eq_true_eq] at holds
    exact ⟨mem_of_find?_eq_some found, holds⟩
  · rintro ⟨member, level⟩
    cases found : forest.ancestorAt node _ with
    | none =>
      have missing := find?_eq_none.mp found other member
      simp [level] at missing
    | some first =>
      have holds := find?_some found
      rw [decide_eq_true_eq] at holds
      rw [eq_of_height_eq (mem_of_find?_eq_some found) member (holds.trans level.symm)]

theorem ancestorAt_trans (found : forest.ancestorAt node upper = some other) (order : lower ≤ upper) :
    forest.ancestorAt node lower = forest.ancestorAt other lower := by
  obtain ⟨member, level⟩ := ancestorAt_eq_some.mp found
  cases further : forest.ancestorAt other lower with
  | some last =>
    obtain ⟨lastMember, lastLevel⟩ := ancestorAt_eq_some.mp further
    exact ancestorAt_eq_some.mpr ⟨mem_ancestry_trans member lastMember, lastLevel⟩
  | none =>
    cases direct : forest.ancestorAt node lower with
    | none => rfl
    | some last =>
      obtain ⟨lastMember, lastLevel⟩ := ancestorAt_eq_some.mp direct
      have inside := mem_ancestry_of_height_le lastMember member (by omega)
      rw [ancestorAt_eq_some.mpr ⟨inside, lastLevel⟩] at further
      cases further

theorem exists_ancestorAt (rooted : ∀ node, forest.parent node = none → forest.height node = 0)
    (within : level ≤ forest.height node) : ∃ other, forest.ancestorAt node level = some other := by
  induction node using forest.induction with
  | root node top =>
    have bottom := rooted node top
    have same : level = forest.height node := by omega
    rw [same]
    exact ⟨node, forest.ancestorAt_self⟩
  | child node above own hyp =>
    have step := forest.graded own
    by_cases same : level = forest.height node
    · rw [same]
      exact ⟨node, forest.ancestorAt_self⟩
    · rw [ancestorAt_child own (by omega)]
      exact hyp (by omega)

/-- The nodes lead from a node to one of its descendants, each the child of the one before. -/
def Climb (forest : Forest α) : α → List α → α → Prop
  | low, [], high => low = high
  | low, next :: rest, high => forest.parent next = some low ∧ Climb forest next rest high

theorem Climb.concat (climb : forest.Climb low nodes above)
    (own : forest.parent node = some above) : forest.Climb low (nodes ++ [node]) node := by
  induction nodes generalizing low with
  | nil =>
    have same : low = above := climb
    exact ⟨same ▸ own, rfl⟩
  | cons next rest hyp => exact ⟨climb.1, hyp climb.2⟩

theorem Climb.mem (climb : forest.Climb low nodes high) : low ∈ forest.ancestry high := by
  induction nodes generalizing low with
  | nil =>
    have same : low = high := climb
    exact same ▸ forest.mem_ancestry_self
  | cons next rest hyp => exact mem_ancestry_trans (hyp climb.2) (mem_ancestry_parent climb.1)

theorem climb_of_append (split : forest.ancestry node = upper ++ forest.ancestry low) :
    forest.Climb low upper.reverse node := by
  induction node using forest.induction generalizing upper with
  | root node top =>
    obtain ⟨rest, shape⟩ := forest.exists_ancestry_eq_cons low
    rw [ancestry_root top, shape] at split
    cases upper with
    | nil =>
      rw [nil_append, cons.injEq] at split
      exact split.1.symm
    | cons next upper => simp at split
  | child node above own hyp =>
    rw [ancestry_child own] at split
    cases upper with
    | nil =>
      obtain ⟨rest, shape⟩ := forest.exists_ancestry_eq_cons low
      rw [nil_append, shape, cons.injEq] at split
      exact split.1.symm
    | cons next upper =>
      rw [cons_append, cons.injEq] at split
      rw [reverse_cons, ← split.1]
      exact (hyp split.2).concat own

theorem takeWhile_append_ancestry (member : low ∈ forest.ancestry node) : forest.ancestry node =
      (forest.ancestry node).takeWhile (fun a => decide (forest.height a ≠ forest.height low)) ++
        forest.ancestry low := by
  refine mem_induction member ?_ fun node above own further hyp => ?_
  · obtain ⟨rest, shape⟩ := forest.exists_ancestry_eq_cons low
    simp [shape]
  · have lower := height_lt_of_mem_parent own further
    rw [ancestry_child own, takeWhile_cons_of_pos (by simp; omega), cons_append, ← hyp]

end Forest

end Deviant.Data
