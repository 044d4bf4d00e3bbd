import Deviant.Mempool.ConflictIndex
import Deviant.Mempool.Statistics

namespace Deviant.Mempool

open CTxMemPool Data List Option Primitives Relation CountedOver Statistic

/-! The statistics follow the packages when entries are added and removed. -/

variable {direction : Direction} {stat : Statistic direction} {pool next : CTxMemPool}
  {spends : Uint256 → Uint256 → Prop} {members : Uint256 → Finset Uint256} {own : Uint256 → Int}

theorem Statistic.ownOf_of_core (stat : Statistic direction) {hash : Uint256}
    (core : (next.mapTx.lookup hash).map CTxMemPoolEntry.core =
      (pool.mapTx.lookup hash).map CTxMemPoolEntry.core) :
    stat.ownOf next hash = stat.ownOf pool hash := by
  have elim (found : Option CTxMemPoolEntry) :
      found.elim 0 stat.own = ((found.map CTxMemPoolEntry.core).map stat.own).getD 0 := by
    cases found with
    | none => rfl
    | some entry => exact stat.own_core entry
  rw [ownOf, ownOf, elim, elim, core]

theorem Statistic.ownOf_congr (stat : Statistic direction) (same : SameContents pool next) :
    stat.ownOf next = stat.ownOf pool := by
  funext hash
  exact stat.ownOf_of_core (same.core hash)

section

variable (counted : CountedOver stat pool members own)

include counted

theorem CountedOver.of_mapTx (same : next.mapTx = pool.mapTx) :
    CountedOver stat next members own := by
  intro hash entry found
  rw [same] at found
  exact counted hash entry found

theorem CountedOver.otherOne {size fee count sigOps : Int} :
    CountedOver stat (pool.modify (direction.opposite.update size fee count sigOps) it) members own :=
  counted.other (nodup_singleton it)

theorem CountedOver.gainAll {size fee count sigOps : Int} (disjoint : Disjoint (members it) more)
    (weight : ∀ a, stat.round (a + stat.change size fee count sigOps) =
      stat.round (a + ∑ y ∈ more, own y)) :
    CountedOver stat (pool.modify (direction.update size fee count sigOps) it)
      (fun hash => if hash = it then members hash ∪ more else members hash) own := by
  refine counted.modifyEach (nodup_singleton it) (fun hash same => ?_) fun hash other => ?_
  · cases mem_singleton.mp same
    rw [weight, if_pos rfl, Finset.sum_union disjoint]
  · exact if_neg fun same => other (mem_singleton.mpr same)

end

theorem sumOver_eq_sum {set : List Uint256} (distinct : set.Nodup) :
    pool.sumOver stat.own set = ∑ y ∈ set.toFinset, stat.ownOf pool y := by
  rw [sum_toFinset _ distinct]
  rfl

section Entering

variable {entry : CTxMemPoolEntry} {setAncestors : List Uint256}

section

variable (linked : pool.Linked spends) (fresh : pool.existsTx entry.tx.hash = false)

include linked fresh

theorem reach_spendsWith_old (old : x ≠ entry.tx.hash) :
    ReflTransGen (pool.SpendsWith spends entry.tx) x z ↔ ReflTransGen spends x z := by
  apply reflTransGen_congr_of_closed (fun hash => hash ≠ entry.tx.hash) _ _ old
  · rintro a b - step rfl
    exact (linked.within.not_spends fresh a).2 step
  · intro a b different
    simp [SpendsWith, different]

theorem reach_spendsWith_new :
    ReflTransGen (pool.SpendsWith spends entry.tx) entry.tx.hash z ↔ z = entry.tx.hash ∨ ∃ parent,
        (pool.existsTx parent = true ∧ SpendsFrom entry.tx parent) ∧
        ReflTransGen spends parent z := by
  constructor
  · intro path
    rcases path.cases_head with rfl | ⟨parent, step, rest⟩
    · exact .inl rfl
    · rcases step with old | ⟨-, present, spent⟩
      · exact absurd old (linked.within.not_spends fresh parent).1
      · have old := reach_spendsWith_old linked fresh (z := z) (ne_of_existsTx fresh present)
        exact .inr ⟨parent, ⟨present, spent⟩, old.mp rest⟩
  · rintro (rfl | ⟨parent, ⟨present, spent⟩, rest⟩)
    · exact .refl
    · have old := reach_spendsWith_old linked fresh (z := z) (ne_of_existsTx fresh present)
      exact .head (.inr ⟨rfl, present, spent⟩) (old.mpr rest)

theorem reach_spendsWith_to_new (path : ReflTransGen (pool.SpendsWith spends entry.tx) z entry.tx.hash) :
    z = entry.tx.hash := by
  rcases path.cases_tail with same | ⟨last, -, step⟩
  · exact same.symm
  · exact absurd step (not_spendsWith_new linked fresh last)

end

theorem CountedOver.enter (counted : Counted stat pool spends) (admitted : Admissible pool entry) :
    CountedOver stat (pool.enter entry)
      (fun hash => if hash = entry.tx.hash then {entry.tx.hash} else pool.package
        (direction.steps spends) hash)
      (stat.ownOf (pool.enter entry)) := by
  intro hash found present
  have lookup := lookup_insertEntry admitted.fresh
  rw [enter_mapTx, lookup] at present
  dsimp only
  split at present
  next new =>
    obtain ⟨tx, nFee, nTime, nTxSize, sigOpCount, spendsCoinbaseOrCoinstake, bounded, built⟩ :=
      admitted.built
    cases Option.some.inj present
    rw [if_pos new, Finset.sum_singleton, ownOf, enter_mapTx, lookup, if_pos rfl, elim_some]
    rw [built]
    exact stat.total_new tx nFee nTime nTxSize sigOpCount spendsCoinbaseOrCoinstake _ bounded
  next old =>
    rw [if_neg old, counted hash found present]
    congr 1
    apply Finset.sum_congr rfl
    intro other member
    rw [ownOf, ownOf, enter_mapTx, lookup,
      if_neg (ne_of_existsTx admitted.fresh (mem_package.mp member).1)]

theorem linkParents_mapTx (pool : CTxMemPool) (tx : CTransaction) :
    (pool.linkParents tx).mapTx = pool.mapTx := by
  unfold linkParents
  split
  · rfl
  · apply foldl_project mapTx
    intro pool phash
    split <;> rfl

theorem CountedOver.updateAncestorsOf_entering (counted : CountedOver stat pool members own)
    (present : pool.mapTx.lookup it = some found) (weight : own it = stat.own found)
    (distinct : setAncestors.Nodup) (fresh : ∀ hash ∈ setAncestors, it ∉ members hash) :
    CountedOver stat (pool.updateAncestorsOf true it setAncestors)
      (fun hash => if direction = .descendants ∧
        hash ∈ setAncestors then insert it (members hash) else members hash)
      own := by
  have updated := mapTx_updateAncestorsOf present true setAncestors
  cases direction with
  | ancestors =>
    exact (counted.other distinct).of_mapTx updated
  | descendants =>
    simp only [true_and]
    refine (counted.gain distinct (fun a => ?_) fresh).of_mapTx updated
    simp only [if_true, Int.one_mul]
    rw [weight, stat.change_wrap, stat.change_own]

theorem CountedOver.updateEntryForAncestors (counted : CountedOver stat pool members own)
    (it : Uint256) (distinct : setAncestors.Nodup)
    (present : ∀ hash ∈ setAncestors, pool.existsTx hash = true) (weight : own = stat.ownOf pool)
    (disjoint : Disjoint (members it) setAncestors.toFinset) :
    CountedOver stat (pool.updateEntryForAncestors it setAncestors)
      (fun hash => if direction = .ancestors ∧
        hash = it then members hash ∪ setAncestors.toFinset else members hash)
      own := by
  cases direction with
  | ancestors =>
    simp only [true_and]
    refine counted.gainAll disjoint fun a => ?_
    rw [weight, ← sumOver_eq_sum distinct]
    exact stat.change_sum pool setAncestors present
  | descendants =>
    exact counted.otherOne

theorem Statistic.ownOf_mapTx (stat : Statistic direction) (same : next.mapTx = pool.mapTx) :
    stat.ownOf next = stat.ownOf pool := by
  funext hash
  rw [ownOf, ownOf, same]

section

variable (linked : pool.Linked spends) (ancestors : ∀ z, z ∈ setAncestors ↔ ∃ parent,
  (pool.existsTx parent = true ∧ SpendsFrom entry.tx parent) ∧ ReflTransGen spends parent z)

include linked ancestors

theorem CTxMemPool.Linked.known_ancestors (hash : Uint256) (member : hash ∈ setAncestors) :
    pool.existsTx hash = true := by
  obtain ⟨parent, ⟨present, -⟩, path⟩ := (ancestors hash).mp member
  rcases path.cases_tail with rfl | ⟨last, -, step⟩
  · exact present
  · exact (linked.within last hash step).2

theorem package_addUnchecked (fresh : pool.existsTx entry.tx.hash = false) (hash : Uint256) :
    (pool.addUnchecked entry setAncestors).package
      (direction.steps (pool.SpendsWith spends entry.tx)) hash =
      if hash = entry.tx.hash then
        (if direction = .ancestors then {entry.tx.hash} ∪ setAncestors.toFinset else {entry.tx.hash})
      else if direction = .descendants ∧ hash ∈ setAncestors then
        insert entry.tx.hash (pool.package (direction.steps spends) hash)
      else pool.package (direction.steps spends) hash := by
  have known := linked.known_ancestors ancestors
  ext z
  rw [mem_package, existsTx_addUnchecked setAncestors fresh]
  cases direction with
  | ancestors =>
    simp only [Direction.steps, if_true, reduceCtorEq, false_and, if_false]
    by_cases new : hash = entry.tx.hash
    · subst new
      rw [if_pos rfl, reach_spendsWith_new linked fresh, ← ancestors, Finset.mem_union,
        Finset.mem_singleton, List.mem_toFinset]
      tauto
    · rw [if_neg new, mem_package, reach_spendsWith_old linked fresh new]
      constructor
      · rintro ⟨rfl | present, path⟩
        · have entering := (reach_spendsWith_old linked fresh new).mpr path
          exact absurd (reach_spendsWith_to_new linked fresh entering) new
        · exact ⟨present, path⟩
      · rintro ⟨present, path⟩
        exact ⟨.inr present, path⟩
  | descendants =>
    simp only [Direction.steps, reduceCtorEq, true_and, if_false]
    rw [reflTransGen_swap]
    by_cases new : hash = entry.tx.hash
    · subst new
      rw [if_pos rfl, Finset.mem_singleton]
      constructor
      · rintro ⟨-, path⟩
        exact reach_spendsWith_to_new linked fresh path
      · rintro rfl
        exact ⟨.inl rfl, .refl⟩
    · rw [if_neg new]
      by_cases same : z = entry.tx.hash
      · subst same
        rw [reach_spendsWith_new linked fresh, ← ancestors]
        split
        next above => simp [above]
        next other => simp [mem_package, new, other, fresh]
      · rw [reach_spendsWith_old linked fresh same]
        split
        · rw [Finset.mem_insert, mem_package, reflTransGen_swap]
          simp [same]
        · rw [mem_package, reflTransGen_swap]
          simp [same]

theorem Counted.addUnchecked (counted : Counted stat pool spends)
    (admitted : Admissible pool entry) (distinct : setAncestors.Nodup) :
    Counted stat (pool.addUnchecked entry setAncestors) (pool.SpendsWith spends entry.tx) := by
  have fresh := admitted.fresh
  have known := linked.known_ancestors ancestors
  have notNew : entry.tx.hash ∉ setAncestors := fun member =>
    ne_of_existsTx fresh (known _ member) rfl
  have found : ((pool.enter entry).linkParents entry.tx).mapTx.lookup entry.tx.hash =
      some (entry.prioritised (pool.delta entry.tx.hash)) := by
    rw [linkParents_mapTx, enter_mapTx, lookup_insertEntry fresh, if_pos rfl]
  have entered := (enter counted admitted).of_mapTx (linkParents_mapTx _ entry.tx)
  -- the ancestors first, then the entry itself
  have above := entered.updateAncestorsOf_entering found
    (by rw [ownOf, ← linkParents_mapTx _ entry.tx, found, elim_some]) distinct (by
      intro hash member
      have different : hash ≠ entry.tx.hash := fun same => notNew (same ▸ member)
      rw [if_neg different]
      exact fun inside => ne_of_existsTx fresh (mem_package.mp inside).1 rfl)
  have same := (sameContents_linkParents (pool.enter entry) entry.tx).trans
    (sameContents_updateAncestorsOf true entry.tx.hash setAncestors)
  have both := above.updateEntryForAncestors entry.tx.hash distinct
    (fun hash member =>
      (same.exists_iff hash).trans ((existsTx_enter fresh hash).mpr (.inr (known hash member))))
    (stat.ownOf_congr same).symm (by simp [notNew])
  have last := both.of_mapTx (insertNullifiers_mapTx _ entry.tx)
  have unchanged :
      stat.ownOf (pool.addUnchecked entry setAncestors) = stat.ownOf (pool.enter entry) :=
    (stat.ownOf_mapTx (insertNullifiers_mapTx _ entry.tx)).trans
      (stat.ownOf_congr (sameContents_counted pool entry setAncestors))
  unfold Counted
  rw [unchanged]
  refine congr last (fun hash found present => ⟨found, present, rfl⟩) fun hash _ => ?_
  rw [package_addUnchecked linked ancestors fresh]
  by_cases new : hash = entry.tx.hash
  · subst new
    cases direction <;> simp
  · cases direction <;> simp [new]

end

end Entering

section Leaving

variable {stage done : List Uint256}

theorem updateAncestorsForRemoval_absent (absent : pool.existsTx it = false) :
    pool.updateAncestorsForRemoval it = pool := by
  have missing := lookup_eq_none absent
  simp [updateAncestorsForRemoval, missing]

open Classical in
theorem CountedOver.updateAncestorsForRemoval (within : pool.Within spends)
    (parents : pool.ParentsLinked spends) (keyed : pool.Keyed)
    (counted : CountedOver stat pool members own) (weight : own = stat.ownOf pool) (it : Uint256)
    (inside : direction = .descendants → ∀ hash, TransGen spends it hash → it ∈ members hash) :
    CountedOver stat (pool.updateAncestorsForRemoval it)
      (fun hash => if direction = .descendants ∧
        TransGen spends it hash then (members hash).erase it else members hash) own := by
  cases found : pool.mapTx.lookup it with
  | none =>
    have absent : pool.existsTx it = false := by rw [existsTx, found, isSome_none]
    have unchanged (hash : Uint256) : ¬ (direction = .descendants ∧ TransGen spends it hash) :=
        fun both =>
      not_transGen_of_source (fun parent => (within.not_spends absent parent).1) hash both.2
    simp only [updateAncestorsForRemoval_absent absent, unchanged, if_false]
    exact counted
  | some entry =>
    obtain ⟨distinct, member⟩ := mem_allAncestors within parents entry
    rw [keyed it entry found] at member
    have updated := mapTx_updateAncestorsOf found false (pool.allAncestors entry false)
    have same : pool.updateAncestorsForRemoval it = pool.updateAncestorsOf false it
        (pool.allAncestors entry false) := by
      simp [CTxMemPool.updateAncestorsForRemoval, found]
    rw [same]
    cases direction with
    | ancestors =>
      exact (counted.other distinct).of_mapTx updated
    | descendants =>
      simp only [true_and, ← member]
      refine (counted.lose distinct (fun a => ?_) fun hash above => ?_).of_mapTx updated
      · rw [weight, ownOf, found, elim_some]
        exact stat.change_leaving_mul
      · exact inside rfl hash ((member hash).mp above)

theorem mem_package_descendants {hash y : Uint256} :
    y ∈ pool.package (Direction.descendants.steps spends) hash ↔ pool.existsTx y = true ∧
      ReflTransGen spends y hash := by
  rw [mem_package]
  exact and_congr_right fun _ => reflTransGen_swap

noncomputable def remaining (direction : Direction) (pool : CTxMemPool)
    (spends : Uint256 → Uint256 → Prop) (done : List Uint256) (hash : Uint256) : Finset Uint256 :=
  if direction = .descendants then
    (pool.package (direction.steps spends) hash).filter fun y => y ∈ done → y = hash
  else pool.package (direction.steps spends) hash

open Classical in
theorem remaining_cons (acyclic : ∀ hash, ¬ TransGen spends hash hash) (hash : Uint256) :
    (if direction = .descendants ∧
      TransGen spends it hash then (remaining direction pool spends done hash).erase it
      else remaining direction pool spends done hash) = remaining direction pool spends
      (it :: done) hash := by
  cases direction with
  | ancestors => simp [remaining]
  | descendants =>
    simp only [remaining, if_true, true_and]
    ext y
    by_cases above : TransGen spends it hash
    · rw [if_pos above, Finset.mem_erase, Finset.mem_filter, Finset.mem_filter]
      have different : it ≠ hash := by
        rintro rfl
        exact acyclic it above
      constructor
      · rintro ⟨other, inside, kept⟩
        refine ⟨inside, fun member => ?_⟩
        rcases mem_cons.mp member with same | old
        · exact absurd same other
        · exact kept old
      · rintro ⟨inside, kept⟩
        refine ⟨?_, inside, fun old => kept (mem_cons_of_mem _ old)⟩
        rintro rfl
        exact different (kept mem_cons_self)
    · rw [if_neg above, Finset.mem_filter, Finset.mem_filter]
      refine and_congr_right fun inside =>
        ⟨fun kept member => ?_, fun kept old => kept (mem_cons_of_mem _ old)⟩
      rcases mem_cons.mp member with rfl | old
      · rcases reflTransGen_iff_eq_or_transGen.mp (mem_package_descendants.mp inside).2 with same | path
        · exact same.symm
        · exact absurd path above
      · exact kept old

theorem CountedOver.foldl_updateAncestorsForRemoval (linked : origin.Linked spends)
    (same : SameContents origin pool) (keyed : pool.Keyed) (parents : pool.ParentsLinked spends)
    (children : pool.ChildrenLinked fun child parent => spends child parent ∧ child ∉ done)
    (counted : CountedOver stat pool (remaining direction origin spends done) (stat.ownOf origin))
    (distinct : stage.Nodup) (fresh : ∀ it ∈ stage, it ∉ done) :
    CountedOver stat (stage.foldl CTxMemPool.updateAncestorsForRemoval pool)
      (remaining direction origin spends (stage.reverse ++ done)) (stat.ownOf origin) := by
  induction stage generalizing pool done with
  | nil => exact counted
  | cons it stage ih =>
    obtain ⟨itFresh, distinctRest⟩ := nodup_cons.mp distinct
    have within := linked.within.congr same.exists_iff
    obtain ⟨parentsAfter, childrenAfter⟩ :=
      sever_updateAncestorsForRemoval within parents children it
    have sameAfter := sameContents_updateAncestorsForRemoval pool it
    have step :=
        counted.updateAncestorsForRemoval within parents keyed (stat.ownOf_congr same).symm it (by
      rintro rfl hash above
      obtain ⟨parent, edge, -⟩ := TransGen.head'_iff.mp above
      simp only [remaining, if_true, Finset.mem_filter]
      refine ⟨mem_package_descendants.mpr ⟨(linked.within it parent edge).1, above.to_reflTransGen⟩,
        fun old => ?_⟩
      exact absurd old (fresh it mem_cons_self))
    simp only [remaining_cons linked.acyclic] at step
    have later : ∀ other ∈ stage, other ∉ it :: done := by
      intro other member
      simp only [mem_cons, not_or]
      exact ⟨fun equal => itFresh (equal ▸ member), fresh other (mem_cons_of_mem _ member)⟩
    have rest :=
      ih (same.trans sameAfter) (keyed.congr sameAfter.transactions) parentsAfter childrenAfter step
      distinctRest later
    rw [foldl_cons, reverse_cons, append_assoc]
    exact rest

theorem CountedOver.erase (counted : CountedOver stat pool members own) :
    CountedOver stat (stage.foldl removeUnchecked (stage.foldl updateChildrenForRemoval pool))
      members own := by
  have linked : (stage.foldl updateChildrenForRemoval pool).mapTx = pool.mapTx := by
    apply foldl_project mapTx
    intro pool it
    apply foldl_project mapTx
    intro pool child
    rfl
  apply counted.congr _ fun _ _ => rfl
  intro hash entry found
  rw [lookup_foldl_removeUnchecked, linked] at found
  split at found
  · cases found
  · exact ⟨entry, found, rfl⟩

theorem Counted.of_left {updateDescendants : Bool}
    (counted : CountedOver stat (pool.removeStaged stage updateDescendants) members
      (stat.ownOf pool))
    (left : ∀ hash, pool.existsTx hash = true → hash ∉ stage → ∀ y,
      y ∈ members hash ↔ y ∈ pool.package (direction.steps spends) hash ∧ y ∉ stage)
    (agree : ∀ x z, x ∉ stage → z ∉ stage →
      (ReflTransGen (Without spends stage) x z ↔ ReflTransGen spends x z)) :
    Counted stat (pool.removeStaged stage updateDescendants) (Without spends stage) := by
  intro hash entry found
  have present := existsTx_of_lookup found
  rw [existsTx_removeStaged, Bool.and_eq_true, decide_eq_true_eq] at present
  rw [counted hash entry found]
  congr 1
  have same : members hash = (pool.removeStaged stage updateDescendants).package
      (direction.steps (Without spends stage)) hash := by
    ext y
    rw [left hash present.1 present.2, mem_package, mem_package, existsTx_removeStaged,
      Bool.and_eq_true, decide_eq_true_eq, and_assoc, and_right_comm, and_assoc]
    refine and_congr_right fun _ => and_congr_left fun kept => ?_
    cases direction with
    | ancestors => exact (agree hash y present.2 kept).symm
    | descendants =>
      exact (reflTransGen_swap.trans (agree y hash kept present.2).symm).trans reflTransGen_swap.symm
  rw [← same]
  apply Finset.sum_congr rfl
  intro y member
  have kept := ((left hash present.1 present.2 y).mp member).2
  have core := core_removeStaged pool stage updateDescendants y
  rw [if_neg kept] at core
  exact (stat.ownOf_of_core core).symm

theorem Counted.removeClosed (linked : pool.Linked spends) (keyed : pool.Keyed)
    (counted : Counted stat pool spends) (distinct : stage.Nodup)
    (closed : DescendantClosed spends stage) :
    Counted stat (pool.removeStaged stage false) (Without spends stage) := by
  have start : CountedOver stat pool (remaining direction pool spends []) (stat.ownOf pool) := by
    apply congr counted fun hash entry found => ⟨entry, found, rfl⟩
    intro hash _
    unfold remaining
    split
    · simp
    · rfl
  have children : pool.ChildrenLinked fun child parent => spends child parent ∧
      child ∉ ([] : List Uint256) := by
    simpa using linked.children
  have walked :=
    foldl_updateAncestorsForRemoval linked (.refl pool) keyed linked.parents children start distinct
    fun _ _ => not_mem_nil
  have kept {a b : Uint256} (step : spends a b) (start : a ∉ stage) : b ∉ stage := fun member =>
    start (closed a b step member)
  apply Counted.of_left walked.erase
  · intro hash _ staying y
    simp only [remaining, append_nil, mem_reverse]
    cases direction with
    | ancestors =>
      refine ⟨fun member => ⟨member, fun left => ?_⟩, fun member => member.1⟩
      exact staying (closed.reach (mem_package.mp member).2 left)
    | descendants =>
      simp only [if_true, Finset.mem_filter]
      refine and_congr_right fun _ => ⟨fun same left => ?_, fun stays left => absurd left stays⟩
      exact staying (same left ▸ left)
  · intro x z start _
    apply reflTransGen_congr_of_closed (fun hash => hash ∉ stage) _ _ start
    · exact fun a b inside step => kept step inside
    · exact fun a b inside => ⟨fun step => step.1, fun step => ⟨step, inside, kept step inside⟩⟩

open Classical in
theorem CountedOver.updateDescendantsForRemoval (linked : pool.Linked spends)
    (counted : Counted stat pool spends) (it : Uint256) :
    CountedOver stat (pool.updateDescendantsForRemoval it)
      (fun hash => if direction = .ancestors ∧ TransGen spends hash it then
        (pool.package (direction.steps spends) hash).erase it
          else pool.package (direction.steps spends) hash)
      (stat.ownOf pool) := by
  cases found : pool.mapTx.lookup it with
  | none =>
    have absent : pool.existsTx it = false := by rw [existsTx, found, isSome_none]
    have unchanged (hash : Uint256) : ¬ (direction = .ancestors ∧ TransGen spends hash it) := by
      rintro ⟨-, path⟩
      obtain ⟨child, -, step⟩ := TransGen.tail'_iff.mp path
      exact (linked.within.not_spends absent child).2 step
    simp only [CTxMemPool.updateDescendantsForRemoval, found, unchanged, if_false]
    exact counted
  | some entry =>
    have present := existsTx_of_lookup found
    have distinct : (pool.calculateDescendants [] it).Nodup :=
      nodup_calculateDescendants nodup_nil it
    have below (hash : Uint256) (inside : pool.existsTx hash = true) :
        hash ∈ (pool.calculateDescendants [] it).erase it ↔ TransGen spends hash it := by
      rw [distinct.mem_erase_iff, mem_calculateDescendants_nil linked inside,
        reflTransGen_iff_eq_or_transGen]
      have acyclic := linked.acyclic it
      constructor
      · rintro ⟨different, same | path⟩
        · exact absurd same.symm different
        · exact path
      · intro path
        refine ⟨?_, .inr path⟩
        rintro rfl
        exact acyclic path
    simp only [CTxMemPool.updateDescendantsForRemoval, found]
    cases direction with
    | ancestors =>
      have lost := lose counted (distinct.erase it)
        (fun a => stat.change_leaving.trans (by rw [ownOf, found, elim_some])) (by
          intro hash member
          refine mem_package.mpr ⟨present, ?_⟩
          have reached := reach_of_mem_calculateDescendants linked.children (mem_of_mem_erase member)
          exact reached.resolve_left not_mem_nil)
      refine congr lost (fun hash entry found => ⟨entry, found, rfl⟩) fun hash inside => ?_
      have old : pool.existsTx hash = true := by
        have same := (sameContents_updateDescendantsForRemoval pool it).exists_iff hash
        simp only [CTxMemPool.updateDescendantsForRemoval, found] at same
        exact same.symm.trans inside
      simp [below hash old]
    | descendants =>
      exact other counted (distinct.erase it)

theorem Counted.removeSource (linked : pool.Linked spends) (keyed : pool.Keyed)
    (counted : Counted stat pool spends) (source : ∀ parent, ¬ spends it parent) :
    Counted stat (pool.removeStaged [it] true) (Without spends [it]) := by
  classical
  have same := sameContents_updateDescendantsForRemoval pool it
  have below := updateDescendantsForRemoval linked counted it
  have notAbove := not_transGen_of_source source
  have links := links_countDescendants pool [it] true
  have parents : (pool.updateDescendantsForRemoval it).ParentsLinked spends :=
    linked.parents.congr fun hash => congrArg TxLinks.parents (links hash)
  have above := below.updateAncestorsForRemoval (linked.within.congr same.exists_iff) parents
    (keyed.congr same.transactions) (stat.ownOf_congr same).symm it fun _ hash path =>
    absurd path (notAbove hash)
  simp only [notAbove, and_false, if_false] at above
  apply Counted.of_left above.erase
  · intro hash _ staying y
    have different : hash ≠ it := fun same => staying (mem_singleton.mpr same)
    rw [mem_singleton]
    cases direction with
    | ancestors =>
      by_cases path : TransGen spends hash it
      · rw [if_pos ⟨rfl, path⟩, Finset.mem_erase, and_comm]
      · rw [if_neg fun both => path both.2]
        refine ⟨fun member => ⟨member, ?_⟩, fun member => member.1⟩
        rintro rfl
        rcases reflTransGen_iff_eq_or_transGen.mp (mem_package.mp member).2 with same | below
        · exact different same.symm
        · exact path below
    | descendants =>
      refine ⟨fun member => ⟨member, ?_⟩, fun member => member.1⟩
      rintro rfl
      rcases reflTransGen_iff_eq_or_transGen.mp (mem_package_descendants.mp member).2 with same | path
      · exact different same
      · exact notAbove hash path
  · intro x z _ target
    have kept {a b : Uint256} (step : spends a b) : a ∉ [it] := by
      rw [mem_singleton]
      rintro rfl
      exact source b step
    apply reflTransGen_congr_of_closed_backward (fun hash => hash ∉ [it]) _ _ target
    · exact fun a b _ step => kept step
    · exact fun a b inside => ⟨fun step => step.1, fun step => ⟨step, kept step, inside⟩⟩

end Leaving

end Deviant.Mempool
