import Deviant.Mempool.Links

namespace Deviant.Mempool.CTxMemPool

open Data List Primitives Relation

/-! How the links follow the transactions that enter and leave. -/

variable {pool : CTxMemPool} {spends : Uint256 → Uint256 → Prop}

section Entering

variable {entry : CTxMemPoolEntry} {setAncestors : List Uint256}

def SpendsWith (pool : CTxMemPool) (spends : Uint256 → Uint256 → Prop) (tx : CTransaction)
    (child parent : Uint256) :
    Prop :=
  spends child parent ∨ child = tx.hash ∧ pool.existsTx parent = true ∧ SpendsFrom tx parent

/-- The parents that `linkParents` finds for a transaction. -/
def foundParents (pool : CTxMemPool) (tx : CTransaction) : List Uint256 :=
  (insertAll hashRank (tx.vin.map fun input => input.prevout.hash) []).filter pool.existsTx

theorem mem_foundParents :
    parent ∈ pool.foundParents tx ↔ pool.existsTx parent = true ∧ SpendsFrom tx parent := by
  simp [foundParents, SpendsFrom, outpoints, and_comm]

theorem links_linkParents (pool : CTxMemPool) (noZerocoins : tx.hasZerocoinSpendInputs = false)
    (query : Uint256) :
    (pool.linkParents tx).links query =
      if query = tx.hash then
        { pool.links query with
          parents := insertAll hashRank (pool.foundParents tx) (pool.links query).parents }
      else pool.links query := by
  unfold linkParents foundParents
  rw [noZerocoins, if_neg (by simp)]
  generalize insertAll hashRank (tx.vin.map fun input => input.prevout.hash) [] = hashes
  induction hashes generalizing pool with
  | nil =>
    split
    · rfl
    · rfl
  | cons phash hashes ih =>
    rw [foldl_cons]
    by_cases present : pool.existsTx phash = true
    · rw [if_pos present, ih, filter_cons_of_pos present, links_updateParent]
      split
      · rfl
      · rfl
    · rw [if_neg present, ih, filter_cons_of_neg present]

theorem links_updateAncestorsOf (add : Bool) (present : pool.existsTx it = true)
    (distinct : (pool.getMemPoolParents it).Nodup) (setAncestors : List Uint256) (query : Uint256) :
    (pool.updateAncestorsOf add it setAncestors).links query =
      if query ∈ pool.getMemPoolParents it then
        { pool.links query with children := setOf add it (pool.links query).children }
      else pool.links query := by
  obtain ⟨entry, found⟩ := Option.isSome_iff_exists.mp present
  simp only [updateAncestorsOf, found, links_modifyEach]
  exact foldl_pointwise links (fun links => { links with children := setOf add it links.children })
    (fun pool piter query => links_updateChild) distinct pool query

theorem links_insertNullifiers : (pool.insertNullifiers tx).links query = pool.links query := by
  unfold insertNullifiers
  split <;> rfl

theorem links_eq_empty {hash : Uint256} (noParents : ∀ parent, parent ∉ pool.getMemPoolParents hash)
    (noChildren : ∀ child, child ∉ pool.getMemPoolChildren hash) : pool.links hash = {} := by
  have parents : (pool.links hash).parents = [] := eq_nil_iff_forall_not_mem.mpr noParents
  have children : (pool.links hash).children = [] := eq_nil_iff_forall_not_mem.mpr noChildren
  cases links : pool.links hash
  simp_all

theorem ne_of_existsTx {hash other : Uint256} (absent : pool.existsTx hash = false)
    (present : pool.existsTx other = true) : other ≠ hash := by
  rintro rfl
  simp [absent] at present

theorem Within.not_spends (within : pool.Within spends) {hash : Uint256}
    (absent : pool.existsTx hash = false) (other : Uint256) :
    ¬ spends hash other ∧ ¬ spends other hash :=
  ⟨fun step => ne_of_existsTx absent (within hash other step).1 rfl,
    fun step => ne_of_existsTx absent (within other hash step).2 rfl⟩

theorem Linked.links_absent (linked : pool.Linked spends) {hash : Uint256}
    (absent : pool.existsTx hash = false) :
    pool.links hash = {} := by
  apply links_eq_empty
  · intro parent member
    exact (linked.within.not_spends absent parent).1 ((linked.parents.member hash parent).mp member)
  · intro child member
    exact (linked.within.not_spends absent child).2 (linked.children.member.mp member)

theorem mem_foundParents_enter (fresh : pool.existsTx entry.tx.hash = false)
    (notOwnParent : ¬ SpendsFrom entry.tx entry.tx.hash) :
    parent ∈ (pool.enter entry).foundParents entry.tx ↔ pool.existsTx parent = true ∧
      SpendsFrom entry.tx parent := by
  rw [mem_foundParents, existsTx_enter fresh]
  constructor
  · rintro ⟨rfl | old, spent⟩
    · exact absurd spent notOwnParent
    · exact ⟨old, spent⟩
  · rintro ⟨old, spent⟩
    exact ⟨.inr old, spent⟩

theorem not_spendsWith_new (linked : pool.Linked spends)
    (fresh : pool.existsTx entry.tx.hash = false) (child : Uint256) :
    ¬ pool.SpendsWith spends entry.tx child entry.tx.hash := by
  rintro (old | ⟨-, present, -⟩)
  · exact (linked.within.not_spends fresh child).2 old
  · exact ne_of_existsTx fresh present rfl

variable (setAncestors : List Uint256) (linked : pool.Linked spends)
  (noZerocoins : entry.tx.hasZerocoinSpendInputs = false)
  (fresh : pool.existsTx entry.tx.hash = false) (notOwnParent : ¬ SpendsFrom entry.tx entry.tx.hash)

include linked noZerocoins fresh notOwnParent

theorem links_addUnchecked (query : Uint256) : (pool.addUnchecked entry setAncestors).links query =
      if query = entry.tx.hash
        then { parents := insertAll hashRank ((pool.enter entry).foundParents entry.tx) [] }
      else if query ∈ (pool.enter entry).foundParents entry.tx then
        { pool.links query with children := insertSet hashRank entry.tx.hash (pool.links query).children }
      else pool.links query := by
  have own := linked.links_absent fresh
  have linkedParents := links_linkParents (pool.enter entry) noZerocoins
  simp only [links_enter] at linkedParents
  have parents : ((pool.enter entry).linkParents entry.tx).getMemPoolParents entry.tx.hash =
      insertAll hashRank ((pool.enter entry).foundParents entry.tx) [] := by
    unfold getMemPoolParents
    rw [linkedParents, if_pos rfl, own]
  have present : ((pool.enter entry).linkParents entry.tx).existsTx entry.tx.hash = true := by
    rw [(sameContents_linkParents _ _).exists_iff]
    exact (existsTx_enter fresh _).mpr (.inl rfl)
  have distinct :
      (((pool.enter entry).linkParents entry.tx).getMemPoolParents entry.tx.hash).Nodup := by
    rw [parents]
    exact nodup_insertAll nodup_nil
  unfold addUnchecked
  rw [links_insertNullifiers, updateEntryForAncestors, links_modify]
  refine (links_updateAncestorsOf true present distinct setAncestors query).trans ?_
  rw [parents, linkedParents]
  by_cases new : query = entry.tx.hash
  · subst new
    have notParent : entry.tx.hash ∉ insertAll hashRank ((pool.enter entry).foundParents entry.tx)
        [] := by
      rw [mem_insertAll, mem_foundParents]
      rintro (found | none)
      · exact notOwnParent found.2
      · cases none
    rw [if_neg notParent, if_pos rfl, if_pos rfl, own]
  · rw [if_neg new, if_neg new]
    simp only [mem_insertAll, not_mem_nil, or_false]
    rfl

theorem children_addUnchecked (query : Uint256) :
      (pool.addUnchecked entry setAncestors).getMemPoolChildren query =
        if pool.existsTx query = true ∧ SpendsFrom entry.tx query then
        insertSet hashRank entry.tx.hash (pool.getMemPoolChildren query)
          else pool.getMemPoolChildren query := by
  unfold getMemPoolChildren
  rw [links_addUnchecked setAncestors linked noZerocoins fresh notOwnParent]
  simp only [mem_foundParents_enter fresh notOwnParent]
  by_cases new : query = entry.tx.hash
  · subst new
    rw [if_pos rfl, if_neg fun found => notOwnParent found.2, linked.links_absent fresh]
  · rw [if_neg new]
    split <;> rfl

theorem Linked.addUnchecked :
    (pool.addUnchecked entry setAncestors).Linked (pool.SpendsWith spends entry.tx) where
  within := by
    rintro child parent (old | ⟨rfl, present, -⟩)
    · obtain ⟨childPresent, parentPresent⟩ := linked.within child parent old
      exact ⟨(existsTx_addUnchecked _ fresh _).mpr (.inr childPresent),
        (existsTx_addUnchecked _ fresh _).mpr (.inr parentPresent)⟩
    · exact ⟨(existsTx_addUnchecked _ fresh _).mpr (.inl rfl),
        (existsTx_addUnchecked _ fresh _).mpr (.inr present)⟩
  parents := by
    have links (child : Uint256) : (pool.addUnchecked entry setAncestors).getMemPoolParents child =
        if child = entry.tx.hash then insertAll hashRank ((pool.enter entry).foundParents entry.tx) []
        else pool.getMemPoolParents child := by
      rw [getMemPoolParents, links_addUnchecked setAncestors linked noZerocoins fresh notOwnParent]
      split
      · rfl
      · split <;> rfl
    refine linked.parents.change links (fun child new parent => ?_) (fun child old parent => ?_)
      fun _ => nodup_insertAll nodup_nil
    · subst new
      simp [SpendsWith, mem_foundParents_enter fresh notOwnParent,
        linked.within.not_spends fresh parent]
    · simp [SpendsWith, old]
  children := by
    have children := children_addUnchecked setAncestors linked noZerocoins fresh notOwnParent
    exact (linked.children.insert children).of_iff fun _ _ => or_congr_right and_comm
  acyclic := by
    -- no step leads to the new entry, so a cycle is one of the old relation
    have notEntered := not_spendsWith_new linked fresh
    have old {x z : Uint256} (path : TransGen (pool.SpendsWith spends entry.tx) x z)
        (start : x ≠ entry.tx.hash) :
        z ≠ entry.tx.hash ∧ TransGen spends x z := by
      induction path with
      | single step =>
        refine ⟨fun same => notEntered x (same ▸ step), ?_⟩
        exact .single (step.resolve_right fun new => start new.1)
      | tail _ step ih =>
        refine ⟨fun same => notEntered _ (same ▸ step), ?_⟩
        exact ih.2.tail (step.resolve_right fun new => ih.1 new.1)
    intro hash cycle
    by_cases new : hash = entry.tx.hash
    · subst new
      obtain ⟨last, -, step⟩ := TransGen.tail'_iff.mp cycle
      exact notEntered last step
    · exact linked.acyclic hash (old cycle new).2

end Entering

section Leaving

variable {stage done : List Uint256}

def Without (spends : Uint256 → Uint256 → Prop) (stage : List Uint256) (child parent : Uint256) :
    Prop :=
  spends child parent ∧ child ∉ stage ∧ parent ∉ stage

theorem Within.congr {next : CTxMemPool} (within : pool.Within spends)
    (same : ∀ hash, next.existsTx hash = pool.existsTx hash) : next.Within spends := by
  intro child parent step
  rw [same, same]
  exact within child parent step

section

variable (within : pool.Within spends) (parents : pool.ParentsLinked spends)
  (children : pool.ChildrenLinked fun child parent => spends child parent ∧ child ∉ done)

include within parents children

theorem sever_updateAncestorsForRemoval (it : Uint256) :
      (pool.updateAncestorsForRemoval it).ParentsLinked spends ∧
        (pool.updateAncestorsForRemoval it).ChildrenLinked fun child parent =>
        spends child parent ∧ child ∉ it :: done := by
  by_cases present : pool.existsTx it = true
  · obtain ⟨entry, found⟩ := Option.isSome_iff_exists.mp present
    have links := links_updateAncestorsOf false present (parents.distinct it)
      (pool.allAncestors entry false)
    unfold updateAncestorsForRemoval
    simp only [found]
    have severed (query : Uint256) :
          (pool.updateAncestorsOf false it (pool.allAncestors entry false)).getMemPoolChildren
          query = if query ∈ pool.getMemPoolParents it then (pool.getMemPoolChildren query).erase it
        else pool.getMemPoolChildren query := by
      rw [getMemPoolChildren, links]
      split <;> rfl
    refine ⟨parents.congr fun query => ?_, (children.erase severed).of_iff fun parent child => ?_⟩
    · rw [getMemPoolParents, links]
      split <;> rfl
    · simp only [parents.member, mem_cons, not_or]
      constructor
      · rintro ⟨⟨step, kept⟩, other⟩
        exact ⟨step, fun same => other ⟨same ▸ step, same⟩, kept⟩
      · rintro ⟨step, other, kept⟩
        exact ⟨⟨step, kept⟩, fun both => other both.2⟩
  · have absent : pool.mapTx.lookup it = none := lookup_eq_none (Bool.eq_false_iff.mpr present)
    have unchanged : pool.updateAncestorsForRemoval it = pool := by
      simp [updateAncestorsForRemoval, absent]
    rw [unchanged]
    refine ⟨parents, children.of_iff fun parent child => ?_⟩
    have other : spends child parent → child ≠ it := by
      rintro step rfl
      exact present (within child parent step).1
    simp only [mem_cons, not_or]
    tauto

theorem sever_foldl_updateAncestorsForRemoval (stage : List Uint256) :
    (stage.foldl updateAncestorsForRemoval pool).ParentsLinked spends ∧
      (stage.foldl updateAncestorsForRemoval pool).ChildrenLinked fun child parent =>
        spends child parent ∧ child ∉ done ∧ child ∉ stage := by
  induction stage generalizing pool done with
  | nil => exact ⟨parents, by simpa using children⟩
  | cons it stage ih =>
    obtain ⟨parents, children⟩ := sever_updateAncestorsForRemoval within parents children it
    have within := within.congr (sameContents_updateAncestorsForRemoval pool it).exists_iff
    obtain ⟨parents, children⟩ := ih within parents children
    refine ⟨parents, children.of_iff fun parent child => ?_⟩
    simp only [mem_cons, not_or]
    tauto

end

section

variable (parents : pool.ParentsLinked fun child parent => spends child parent ∧
      ¬ (parent ∈ done ∧ linked child parent))
  (children : pool.ChildrenLinked linked)

include parents children

theorem sever_updateChildrenForRemoval (it : Uint256) :
      (pool.updateChildrenForRemoval it).ChildrenLinked linked ∧
        (pool.updateChildrenForRemoval it).ParentsLinked fun child parent =>
        spends child parent ∧ ¬ (parent ∈ it :: done ∧ linked child parent) := by
  have links :=
    foldl_pointwise links (fun links => { links with parents := setOf false it links.parents })
    (fun pool updateIt query => links_updateParent) (children.distinct it) pool
  have unchanged (query : Uint256) :
      (pool.updateChildrenForRemoval it).getMemPoolChildren query = pool.getMemPoolChildren query := by
    unfold getMemPoolChildren updateChildrenForRemoval
    rw [links]
    split <;> rfl
  have severed (query : Uint256) : (pool.updateChildrenForRemoval it).getMemPoolParents query =
        if query ∈ pool.getMemPoolChildren it then (pool.getMemPoolParents query).erase it
        else pool.getMemPoolParents query := by
    unfold getMemPoolParents updateChildrenForRemoval
    rw [links]
    split <;> rfl
  refine ⟨children.congr unchanged, (parents.erase severed).of_iff fun child parent => ?_⟩
  rw [children.member, mem_cons]
  constructor
  · rintro ⟨⟨step, kept⟩, other⟩
    refine ⟨step, ?_⟩
    rintro ⟨rfl | old, edge⟩
    · exact other ⟨edge, rfl⟩
    · exact kept ⟨old, edge⟩
  · rintro ⟨step, kept⟩
    refine ⟨⟨step, fun both => kept ⟨.inr both.1, both.2⟩⟩, ?_⟩
    rintro ⟨edge, rfl⟩
    exact kept ⟨.inl rfl, edge⟩

theorem sever_foldl_updateChildrenForRemoval (stage : List Uint256) :
      (stage.foldl updateChildrenForRemoval pool).ChildrenLinked linked ∧
        (stage.foldl updateChildrenForRemoval pool).ParentsLinked fun child parent =>
        spends child parent ∧ ¬ ((parent ∈ done ∨ parent ∈ stage) ∧ linked child parent) := by
  induction stage generalizing pool done with
  | nil => exact ⟨children, by simpa using parents⟩
  | cons it stage ih =>
    obtain ⟨children, parents⟩ := sever_updateChildrenForRemoval parents children it
    obtain ⟨children, parents⟩ := ih parents children
    refine ⟨children, parents.of_iff fun child parent => ?_⟩
    simp only [mem_cons]
    tauto

end

theorem links_foldl_removeUnchecked_of_notMem (kept : query ∉ stage) :
    (stage.foldl removeUnchecked pool).links query = pool.links query := by
  induction stage generalizing pool with
  | nil => rfl
  | cons it stage ih =>
    obtain ⟨different, later⟩ := not_or.mp (mt mem_cons.mpr kept)
    rw [foldl_cons, ih later]
    by_cases present : pool.existsTx it = true
    · rw [links_removeUnchecked present, if_neg different]
    · have absent : pool.mapTx.lookup it = none := lookup_eq_none (Bool.eq_false_iff.mpr present)
      simp [removeUnchecked, absent]

theorem links_foldl_removeUnchecked_of_mem (removed : query ∈ stage)
    (unlinked : pool.existsTx query = false → pool.links query = {}) :
    (stage.foldl removeUnchecked pool).links query = {} := by
  induction stage generalizing pool with
  | nil => cases removed
  | cons it stage ih =>
    have step : (pool.removeUnchecked it).existsTx query = false →
        (pool.removeUnchecked it).links query = {} := by
      by_cases present : pool.existsTx it = true
      · rw [links_removeUnchecked present, existsTx, lookup_removeUnchecked]
        split
        · exact fun _ => rfl
        · exact unlinked
      · have absent : pool.mapTx.lookup it = none := lookup_eq_none (Bool.eq_false_iff.mpr present)
        simpa only [removeUnchecked, absent] using unlinked
    rw [foldl_cons]
    by_cases later : query ∈ stage
    · exact ih later step
    · rw [links_foldl_removeUnchecked_of_notMem later]
      apply step
      rcases mem_cons.mp removed with rfl | member
      · rw [existsTx, lookup_removeUnchecked, if_pos rfl, Option.isSome_none]
      · exact absurd member later

section

variable (pool : CTxMemPool) (stage : List Uint256) (updateDescendants : Bool)

/-- The pool after the statistics of the descendants, before the ancestors are walked. -/
def countDescendants : CTxMemPool :=
  if updateDescendants then stage.foldl updateDescendantsForRemoval pool else pool

theorem sameContents_countDescendants :
    SameContents pool (pool.countDescendants stage updateDescendants) := by
  unfold countDescendants
  split
  · exact .foldl sameContents_updateDescendantsForRemoval stage pool
  · exact .refl _

theorem links_countDescendants (query : Uint256) :
    (pool.countDescendants stage updateDescendants).links query = pool.links query := by
  have single (pool : CTxMemPool) (it : Uint256) :
      (pool.updateDescendantsForRemoval it).links query = pool.links query := by
    unfold updateDescendantsForRemoval
    split
    · rfl
    · exact links_modifyEach
  unfold countDescendants
  split
  · exact foldl_project (fun pool => pool.links query) single stage
  · rfl

end

theorem Linked.sever (linked : pool.Linked spends) (stage : List Uint256) (updateDescendants : Bool) :
    (pool.updateForRemoveFromMempool stage updateDescendants).ChildrenLinked
        (fun child parent => spends child parent ∧ child ∉ stage) ∧
      (pool.updateForRemoveFromMempool stage updateDescendants).ParentsLinked fun child parent =>
        spends child parent ∧ ¬ (parent ∈ stage ∧ child ∉ stage) := by
  have counted := links_countDescendants pool stage updateDescendants
  have within :=
    linked.within.congr (sameContents_countDescendants pool stage updateDescendants).exists_iff
  have parents : (pool.countDescendants stage updateDescendants).ParentsLinked spends :=
    linked.parents.congr fun hash => congrArg TxLinks.parents (counted hash)
  have children : (pool.countDescendants stage updateDescendants).ChildrenLinked fun child parent =>
      spends child parent ∧ child ∉ ([] : List Uint256) :=
    (linked.children.congr fun hash => congrArg TxLinks.children (counted hash)).of_iff
      fun parent child => by simp
  obtain ⟨parents, children⟩ := sever_foldl_updateAncestorsForRemoval within parents children stage
  have all : (stage.foldl updateAncestorsForRemoval
      (pool.countDescendants stage updateDescendants)).ParentsLinked
      fun child parent => spends child parent ∧
        ¬ (parent ∈ ([] : List Uint256) ∧ spends child parent ∧ child ∉ ([] : List Uint256) ∧
          child ∉ stage) := by
    simpa using parents
  obtain ⟨children, parents⟩ := sever_foldl_updateChildrenForRemoval all children stage
  refine ⟨children.of_iff fun parent child => ?_, parents.of_iff fun child parent => ?_⟩
  · simp
  · tauto

theorem Linked.removeStaged (linked : pool.Linked spends) :
    (pool.removeStaged stage updateDescendants).Linked (Without spends stage) := by
  obtain ⟨children, parents⟩ := linked.sever stage updateDescendants
  have same := sameContents_updateForRemoveFromMempool pool stage updateDescendants
  have unlinked (query : Uint256)
      (absent : (pool.updateForRemoveFromMempool stage updateDescendants).existsTx query = false) :
      (pool.updateForRemoveFromMempool stage updateDescendants).links query = {} := by
    rw [same.exists_iff] at absent
    apply links_eq_empty
    · intro parent member
      exact (linked.within.not_spends absent parent).1 ((parents.member query parent).mp member).1
    · intro child member
      exact (linked.within.not_spends absent child).2 (children.member.mp member).1
  have links (query : Uint256) : (pool.removeStaged stage updateDescendants).links query =
      if query ∈ stage then {}
      else (pool.updateForRemoveFromMempool stage updateDescendants).links query := by
    split
    next removed => exact links_foldl_removeUnchecked_of_mem removed (unlinked query)
    next kept => exact links_foldl_removeUnchecked_of_notMem kept
  have kept := parents.clear fun child =>
    (congrArg TxLinks.parents (links child)).trans (apply_ite TxLinks.parents _ _ _)
  have keptChildren := children.clear fun parent =>
    (congrArg TxLinks.children (links parent)).trans (apply_ite TxLinks.children _ _ _)
  refine ⟨?_, kept.of_iff fun child parent => ?_, keptChildren.of_iff fun parent child => ?_, ?_⟩
  · rintro child parent ⟨step, childKept, parentKept⟩
    obtain ⟨childPresent, parentPresent⟩ := linked.within child parent step
    rw [existsTx_removeStaged, existsTx_removeStaged, childPresent, parentPresent]
    simp [childKept, parentKept]
  · unfold Without
    tauto
  · unfold Without
    tauto
  · intro hash cycle
    have weaker : Without spends stage ≤ spends := fun _ _ step => step.1
    exact linked.acyclic hash (TransGen.mono weaker _ _ cycle)

end Leaving

end Deviant.Mempool.CTxMemPool
