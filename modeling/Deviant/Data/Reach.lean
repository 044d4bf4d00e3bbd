import Mathlib.Data.Finset.Card
import Mathlib.Data.List.Sort
import Mathlib.Logic.Relation

namespace Deviant.Data

open List

/-! Exploring a finite graph from a worklist.

Sets of nodes are lists without repetition in the order of a rank, as an ordered set is iterated.
The exploration takes the first node of the stage, marks it, and stages those of its successors
that are not marked yet.
-/

variable {α : Type} [DecidableEq α]

def insertSet (rank : α → Nat) (x : α) (set : List α) : List α :=
  if x ∈ set then set else set.orderedInsert (fun a b => rank a ≤ rank b) x

variable {done : List α} {rank : α → Nat} {stage : List α} {fuel : Nat} {x : α}
  {cache : α → Option (List α)}
  {set : List α} {z y : α}

@[simp] theorem mem_insertSet : y ∈ insertSet rank x set ↔ y = x ∨ y ∈ set := by
  unfold insertSet
  split
  next member =>
    constructor
    · exact .inr
    · rintro (rfl | other)
      · exact member
      · exact other
  · exact mem_orderedInsert _

theorem nodup_insertSet (distinct : set.Nodup) : (insertSet rank x set).Nodup := by
  unfold insertSet
  split
  · exact distinct
  next fresh =>
    have same := perm_orderedInsert (fun a b => rank a ≤ rank b) x set
    exact same.nodup_iff.mpr (nodup_cons.mpr ⟨fresh, distinct⟩)

def insertAll (rank : α → Nat) (xs set : List α) :
    List α := xs.foldl (fun set x => insertSet rank x set) set

@[simp] theorem mem_insertAll {xs : List α} : y ∈ insertAll rank xs set ↔ y ∈ xs ∨ y ∈ set := by
  induction xs generalizing set with
  | nil => simp [insertAll]
  | cons x xs ih =>
    have step : insertAll rank (x :: xs) set = insertAll rank xs (insertSet rank x set) := rfl
    rw [step, ih, mem_insertSet, mem_cons]
    exact or_left_comm.trans (or_assoc.symm)

theorem nodup_insertAll {xs : List α} (distinct : set.Nodup) : (insertAll rank xs set).Nodup := by
  induction xs generalizing set with
  | nil => exact distinct
  | cons x xs ih => exact ih (nodup_insertSet distinct)

/-! For some nodes the outcome may be known from earlier explorations: then it is taken from a
cache, and the node is not staged. -/

/-- Visit a successor of the node at hand, with the stage and the marked nodes so far. -/
def visit (rank : α → Nat) (cache : α → Option (List α)) (walk : List α × List α) (y : α) :
    List α × List α :=
  match cache y with
  | some cached => (walk.1, insertAll rank cached walk.2)
  | none => if y ∈ walk.2 then walk else (insertSet rank y walk.1, walk.2)

def exploreCached (rank : α → Nat) (next : α → List α) (cache : α → Option (List α)) :
    (fuel : Nat) → (stage done : List α) → List α
  | 0, _, done => done
  | fuel + 1, stage, done =>
    match stage with
    | [] => done
    | it :: stage =>
      let walk := (next it).foldl (visit rank cache) (stage, insertSet rank it done)
      exploreCached rank next cache fuel walk.1 walk.2

def explore (rank : α → Nat) (next : α → List α) : (fuel : Nat) → (stage done : List α) → List α :=
  exploreCached rank next fun _ => none

/-- `y` can be reached from `x` along successors. -/
def Reach (next : α → List α) : α → α → Prop := Relation.ReflTransGen fun a b => b ∈ next a

/-- The lists have the successors in a relation, each once. -/
structure Adjacency (next : α → List α) (edge : α → α → Prop) : Prop where
  member : ∀ x y, y ∈ next x ↔ edge x y
  distinct : ∀ x, (next x).Nodup

namespace Adjacency

variable {next after : α → List α} {edge other : α → α → Prop} {touched : α → Prop}
    [DecidablePred touched]

omit [DecidableEq α] in
theorem reach (exact : Adjacency next edge) : Reach next x z ↔ Relation.ReflTransGen edge x z := by
  simp [Reach, exact.member]

omit [DecidableEq α] in
theorem of_iff (exact : Adjacency next edge) (same : ∀ x y, edge x y ↔ other x y) :
    Adjacency next other :=
  ⟨fun x y => (exact.member x y).trans (same x y), exact.distinct⟩

omit [DecidableEq α] in
theorem congr (exact : Adjacency next edge) (same : ∀ x, after x = next x) : Adjacency after edge :=
  funext same ▸ exact

omit [DecidableEq α] in
theorem change {fresh : α → List α} (exact : Adjacency next edge)
    (changed : ∀ x, after x = if touched x then fresh x else next x)
    (acts : ∀ x, touched x → ∀ y, y ∈ fresh x ↔ other x y)
    (kept : ∀ x, ¬touched x → ∀ y, edge x y ↔ other x y) (distinct : ∀ x, (fresh x).Nodup) :
    Adjacency after other := by
  refine ⟨fun x y => ?_, fun x => ?_⟩
  · rw [changed]
    split
    next here => exact acts x here y
    next there => exact (exact.member x y).trans (kept x there y)
  · rw [changed]
    split
    · exact distinct x
    · exact exact.distinct x

theorem insert (exact : Adjacency next edge)
    (changed : ∀ x, after x = if touched x then insertSet rank y (next x) else next x) :
    Adjacency after fun a b => edge a b ∨ touched a ∧ b = y :=
  exact.change changed (fun x here z => by simp [exact.member, here, or_comm])
    (fun x there z => by simp [there]) fun x => nodup_insertSet (exact.distinct x)

theorem erase (exact : Adjacency next edge)
    (changed : ∀ x, after x = if touched x then (next x).erase y else next x) :
    Adjacency after fun a b => edge a b ∧ ¬ (touched a ∧ b = y) :=
  exact.change changed
    (fun x here z => by simp [(exact.distinct x).mem_erase_iff, exact.member, here, and_comm])
    (fun x there z => by simp [there]) fun x => (exact.distinct x).erase y

omit [DecidableEq α] in
theorem clear (exact : Adjacency next edge)
    (changed : ∀ x, after x = if touched x then [] else next x) :
    Adjacency after fun a b => edge a b ∧ ¬touched a :=
  exact.change changed (fun x here z => by simp [here]) (fun x there z => by simp [there]) fun _ =>
    nodup_nil

end Adjacency

def Settled (cache : α → Option (List α)) (done : List α) (y : α) : Prop :=
  ∃ cached, cache y = some cached ∧ ∀ z ∈ cached, z ∈ done

/-- What the visits of several successors do to the stage and the marked nodes. -/
structure Visited (cache : α → Option (List α)) (ys : List α) (stage done : List α)
    (walk : List α × List α) :
    Prop where
  stageKept : ∀ z ∈ stage, z ∈ walk.1
  doneKept : ∀ z ∈ done, z ∈ walk.2
  seen : ∀ y ∈ ys, y ∈ walk.2 ∨ y ∈ walk.1 ∨ Settled cache walk.2 y
  staged : ∀ z ∈ walk.1, z ∈ stage ∨ z ∈ ys ∧ z ∉ done
  marked : ∀ z ∈ walk.2, z ∈ done ∨ ∃ y ∈ ys, ∃ cached, cache y = some cached ∧ z ∈ cached ∧
    ∀ w ∈ cached, w ∈ walk.2
  distinct : stage.Nodup → walk.1.Nodup

omit [DecidableEq α] in
theorem Settled.mono {more : List α} (settled : Settled cache done y)
    (kept : ∀ z ∈ done, z ∈ more) : Settled cache more y := by
  obtain ⟨cached, found, inside⟩ := settled
  exact ⟨cached, found, fun z member => kept z (inside z member)⟩

theorem visited_visit : Visited cache [y] stage done (visit rank cache (stage, done) y) := by
  unfold visit
  cases found : cache y with
  | some cached =>
    refine ⟨fun _ => id, fun z old => mem_insertAll.mpr (.inr old), ?_, fun _ => .inl, ?_, id⟩
    · intro z member
      cases mem_singleton.mp member
      exact .inr (.inr ⟨cached, found, fun w inside => mem_insertAll.mpr (.inl inside)⟩)
    · intro z member
      rcases mem_insertAll.mp member with inside | old
      · exact .inr ⟨y, mem_singleton_self y, cached, found, inside,
          fun w other => mem_insertAll.mpr (.inl other)⟩
      · exact .inl old
  | none =>
    by_cases old : y ∈ done
    · rw [if_pos old]
      refine ⟨fun _ => id, fun _ => id, ?_, fun _ => .inl, fun _ => .inl, id⟩
      intro z member
      cases mem_singleton.mp member
      exact .inl old
    · rw [if_neg old]
      refine ⟨fun z waiting => mem_insertSet.mpr (.inr waiting), fun _ => id, ?_, ?_, fun _ => .inl,
        nodup_insertSet⟩
      · intro z member
        cases mem_singleton.mp member
        exact .inr (.inl (mem_insertSet.mpr (.inl rfl)))
      · intro z member
        rcases mem_insertSet.mp member with rfl | waiting
        · exact .inr ⟨mem_singleton_self z, old⟩
        · exact .inl waiting

omit [DecidableEq α] in
theorem Visited.cons {cache : α → Option (List α)} {y : α} {ys stage done : List α}
    {first walk : List α × List α} (one : Visited cache [y] stage done first)
    (rest : Visited cache ys first.1 first.2 walk) :
    Visited cache (y :: ys) stage done walk where
  stageKept z waiting := rest.stageKept z (one.stageKept z waiting)
  doneKept z old := rest.doneKept z (one.doneKept z old)
  seen z member := by
    rcases mem_cons.mp member with rfl | later
    · rcases one.seen z (mem_singleton_self z) with marked | staged | settled
      · exact .inl (rest.doneKept z marked)
      · exact .inr (.inl (rest.stageKept z staged))
      · exact .inr (.inr (settled.mono rest.doneKept))
    · exact rest.seen z later
  staged z member := by
    rcases rest.staged z member with before | ⟨later, unmarked⟩
    · refine (one.staged z before).imp_right fun new => ?_
      cases mem_singleton.mp new.1
      exact ⟨mem_cons_self, new.2⟩
    · exact .inr ⟨mem_cons_of_mem _ later, fun old => unmarked (one.doneKept z old)⟩
  marked z member := by
    rcases rest.marked z member with before | ⟨w, later, cached⟩
    · refine (one.marked z before).imp_right fun ⟨w, new, cached, found, inside, whole⟩ => ?_
      cases mem_singleton.mp new
      exact ⟨y, mem_cons_self, cached, found, inside, fun w other => rest.doneKept w (whole w other)⟩
    · exact .inr ⟨w, mem_cons_of_mem _ later, cached⟩
  distinct nodup := rest.distinct (one.distinct nodup)

theorem visited_foldl (rank : α → Nat) (cache : α → Option (List α)) (ys stage done : List α) :
    Visited cache ys stage done (ys.foldl (visit rank cache) (stage, done)) := by
  induction ys generalizing stage done with
  | nil => exact ⟨fun _ => id, fun _ => id, by simp, fun _ => .inl, fun _ => .inl, id⟩
  | cons y ys ih => exact visited_visit.cons (ih _ _)

variable {next : α → List α}

theorem mem_exploreCached_of_done (marked : x ∈ done) :
    x ∈ exploreCached rank next cache fuel stage done := by
  induction fuel generalizing stage done with
  | zero => exact marked
  | succ fuel ih =>
    match stage with
    | [] => exact marked
    | it :: stage =>
      have visited := visited_foldl rank cache (next it) stage (insertSet rank it done)
      exact ih (visited.doneKept x (mem_insertSet.mpr (.inr marked)))

variable {nodes expanded : Finset α}

section Marking

variable {next : α → List α} {cache : α → Option (List α)} {kept : α → Prop}

/-- The cache has, for each of its nodes, exactly the reachable nodes that are kept, and those are
closed under successors. -/
structure CacheExact (next : α → List α) (cache : α → Option (List α)) (kept : α → Prop) :
    Prop where
  closed : ∀ x, kept x → ∀ y ∈ next x, kept y
  exact : ∀ x cached, cache x = some cached → ∀ z, z ∈ cached ↔ kept z ∧ Reach next x z

def Frontier (next : α → List α) (cache : α → Option (List α)) (stage done : List α) : Prop :=
  ∀ x ∈ done, ∀ y ∈ next x, y ∈ done ∨ y ∈ stage ∨ Settled cache done y

omit [DecidableEq α] in
theorem Frontier.reach (sound : CacheExact next cache kept)
    (frontier : Frontier next cache stage done) (marked : x ∈ done) (path : Reach next x z)
    (keep : kept z) : z ∈ done ∨ ∃ s ∈ stage, Reach next s z := by
  induction path using Relation.ReflTransGen.head_induction_on with
  | refl => exact .inl marked
  | head step rest ih =>
    rcases frontier _ marked _ step with inside | staged | ⟨cached, found, inside⟩
    · exact ih inside
    · exact .inr ⟨_, staged, rest⟩
    · exact .inl (inside z ((sound.exact _ cached found z).mpr ⟨keep, rest⟩))

/-- What the stage, the marked nodes and the fuel have to satisfy: staged nodes are in a finite set
closed under successors and have not been expanded, and there is fuel for every node of it that has
not. -/
structure Explorable (next : α → List α) (cache : α → Option (List α)) (nodes expanded : Finset α)
    (fuel : Nat) (stage done : List α) : Prop where
  closed : ∀ x ∈ nodes, ∀ y ∈ next x, y ∈ nodes
  staged : ∀ x ∈ stage, x ∈ nodes ∧ x ∉ expanded
  expandedMarked : ∀ x ∈ expanded, x ∈ done
  distinct : stage.Nodup
  frontier : Frontier next cache stage done
  enough : (nodes \ expanded).card ≤ fuel

theorem Explorable.step (sound : CacheExact next cache kept) {it : α}
    (ready : Explorable next cache nodes expanded (fuel + 1) (it :: stage) done)
    {walk : List α × List α}
    (visited : Visited cache (next it) stage (insertSet rank it done) walk) :
    Explorable next cache nodes (insert it expanded) fuel walk.1 walk.2 where
  closed := ready.closed
  staged := by
    obtain ⟨itFresh, -⟩ := nodup_cons.mp ready.distinct
    intro x member
    rcases visited.staged x member with waiting | ⟨successor, unmarked⟩
    · obtain ⟨inside, unexpanded⟩ := ready.staged x (mem_cons_of_mem _ waiting)
      refine ⟨inside, fun again => ?_⟩
      rcases Finset.mem_insert.mp again with rfl | old
      · exact itFresh waiting
      · exact unexpanded old
    · refine ⟨ready.closed it (ready.staged it mem_cons_self).1 x successor, fun again => unmarked ?_⟩
      rcases Finset.mem_insert.mp again with rfl | old
      · exact mem_insertSet.mpr (.inl rfl)
      · exact mem_insertSet.mpr (.inr (ready.expandedMarked x old))
  expandedMarked := by
    intro x again
    refine visited.doneKept x (mem_insertSet.mpr ?_)
    exact (Finset.mem_insert.mp again).imp_right (ready.expandedMarked x)
  distinct := visited.distinct (nodup_cons.mp ready.distinct).2
  frontier := by
    intro x marked y successor
    rcases visited.marked x marked with before | ⟨w, -, cached, found, inside, whole⟩
    · rcases mem_insertSet.mp before with rfl | old
      · exact visited.seen y successor
      · rcases ready.frontier x old y successor with inside | staged | settled
        · exact .inl (visited.doneKept y (mem_insertSet.mpr (.inr inside)))
        · rcases mem_cons.mp staged with rfl | waiting
          · exact .inl (visited.doneKept y (mem_insertSet.mpr (.inl rfl)))
          · exact .inr (.inl (visited.stageKept y waiting))
        · exact .inr (.inr (settled.mono fun z old =>
            visited.doneKept z (mem_insertSet.mpr (.inr old))))
    · obtain ⟨keep, path⟩ := (sound.exact w cached found x).mp inside
      have further : y ∈ cached :=
        (sound.exact w cached found y).mpr ⟨sound.closed x keep y successor, path.tail successor⟩
      exact .inl (whole y further)
  enough := by
    obtain ⟨inside, unexpanded⟩ := ready.staged it mem_cons_self
    have counted : it ∈ nodes \ expanded := Finset.mem_sdiff.mpr ⟨inside, unexpanded⟩
    have smaller : nodes \ insert it expanded = (nodes \ expanded).erase it :=
      Finset.sdiff_insert nodes expanded it
    rw [smaller, Finset.card_erase_of_mem counted]
    have enough := ready.enough
    omega

theorem Explorable.stage_nil (ready : Explorable next cache nodes expanded 0 stage done) :
    stage = [] := by
  rcases stage with _ | ⟨it, stage⟩
  · rfl
  · obtain ⟨inside, unexpanded⟩ := ready.staged it mem_cons_self
    have counted : it ∈ nodes \ expanded := Finset.mem_sdiff.mpr ⟨inside, unexpanded⟩
    have none : nodes \ expanded = ∅ := Finset.card_eq_zero.mp (Nat.le_zero.mp ready.enough)
    rw [none] at counted
    exact absurd counted (Finset.notMem_empty it)

theorem reach_of_mem_exploreCached (sound : CacheExact next cache kept)
    (member : z ∈ exploreCached rank next cache fuel stage done) :
    z ∈ done ∨ ∃ x ∈ stage, Reach next x z := by
  induction fuel generalizing stage done with
  | zero => exact .inl member
  | succ fuel ih =>
    match stage with
    | [] => exact .inl member
    | it :: stage =>
      have visited := visited_foldl rank cache (next it) stage (insertSet rank it done)
      rcases ih member with marked | ⟨x, staged, path⟩
      · rcases visited.marked z marked with before | ⟨y, successor, cached, found, inside, -⟩
        · rcases mem_insertSet.mp before with rfl | old
          · exact .inr ⟨z, mem_cons_self, .refl⟩
          · exact .inl old
        · exact .inr ⟨it, mem_cons_self, .head successor ((sound.exact y cached found z).mp inside).2⟩
      · rcases visited.staged x staged with waiting | ⟨successor, -⟩
        · exact .inr ⟨x, mem_cons_of_mem _ waiting, path⟩
        · exact .inr ⟨it, mem_cons_self, .head successor path⟩

theorem mem_exploreCached_of_reach (sound : CacheExact next cache kept)
    (ready : Explorable next cache nodes expanded fuel stage done) (staged : x ∈ stage)
    (path : Reach next x z) (keep : kept z) :
    z ∈ exploreCached rank next cache fuel stage done := by
  induction fuel generalizing stage done expanded x with
  | zero =>
    cases ready.stage_nil
    cases staged
  | succ fuel ih =>
    match stage with
    | it :: stage =>
      have visited := visited_foldl rank cache (next it) stage (insertSet rank it done)
      have after := ready.step sound visited
      rw [exploreCached]
      rcases mem_cons.mp staged with rfl | waiting
      · have marked := visited.doneKept x (mem_insertSet.mpr (.inl rfl))
        rcases after.frontier.reach sound marked path keep with inside | ⟨y, later, rest⟩
        · exact mem_exploreCached_of_done inside
        · exact ih after later rest
      · exact ih after (visited.stageKept x waiting) path

end Marking

theorem mem_exploreCached_head {it : α} (positive : 0 < fuel) :
    it ∈ exploreCached rank next cache fuel (it :: stage) done := by
  obtain ⟨less, rfl⟩ := Nat.exists_eq_add_of_lt positive
  have visited := visited_foldl rank cache (next it) stage (insertSet rank it done)
  rw [Nat.zero_add, exploreCached]
  exact mem_exploreCached_of_done (visited.doneKept it (mem_insertSet.mpr (.inl rfl)))

theorem nodup_foldl_visit {ys : List α} {walk : List α × List α} (distinct : walk.2.Nodup) :
    (ys.foldl (visit rank cache) walk).2.Nodup := by
  induction ys generalizing walk with
  | nil => exact distinct
  | cons y ys ih =>
    apply ih
    unfold visit
    split
    · exact nodup_insertAll distinct
    · split
      · exact distinct
      · exact distinct

theorem nodup_exploreCached (distinct : done.Nodup) :
    (exploreCached rank next cache fuel stage done).Nodup := by
  induction fuel generalizing stage done with
  | zero => exact distinct
  | succ fuel ih =>
    match stage with
    | [] => exact distinct
    | it :: stage => exact ih (nodup_foldl_visit (nodup_insertSet distinct))

section Plain

variable {rank : α → Nat} {next : α → List α}

omit [DecidableEq α] in
theorem cacheExact_none : CacheExact next (fun _ => none) fun _ => True :=
  ⟨fun _ _ _ _ => trivial, fun _ _ found => absurd found (by simp)⟩

/-- The exploration marks exactly what can be reached from the stage, when all that can be reached
from the marked nodes is marked. -/
theorem mem_explore (closed : ∀ x ∈ nodes, ∀ y ∈ next x, y ∈ nodes)
    (staged : ∀ x ∈ stage, x ∈ nodes ∧ x ∉ done) (distinct : stage.Nodup)
    (settled : ∀ x ∈ done, ∀ y ∈ next x, y ∈ done) (enough : nodes.card ≤ fuel) :
    z ∈ explore rank next fuel stage done ↔ z ∈ done ∨ ∃ x ∈ stage, Reach next x z := by
  have ready : Explorable next (fun _ => none) nodes (nodes ∩ done.toFinset) fuel stage done := {
    closed := closed
    staged := fun x member => ⟨(staged x member).1, fun old =>
      (staged x member).2 (mem_toFinset.mp (Finset.mem_inter.mp old).2)⟩
    expandedMarked := fun x old => mem_toFinset.mp (Finset.mem_inter.mp old).2
    distinct := distinct
    frontier := fun x old y successor => .inl (settled x old y successor)
    enough := (Finset.card_le_card Finset.sdiff_subset).trans enough }
  constructor
  · exact reach_of_mem_exploreCached cacheExact_none
  · rintro (old | ⟨x, member, path⟩)
    · exact mem_exploreCached_of_done old
    · exact mem_exploreCached_of_reach cacheExact_none ready member path trivial

theorem nodup_explore (distinct : done.Nodup) :
    (explore rank next fuel stage done).Nodup := nodup_exploreCached distinct

end Plain

end Deviant.Data
