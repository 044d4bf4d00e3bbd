import Deviant.Data.Closure
import Deviant.Mempool.Adding
import Deviant.Mempool.Removal

namespace Deviant.Mempool.CTxMemPool

open Data List Primitives Relation

/-! The links of the pool against a relation "spends from" between its entries.  In between the
steps of a reorganisation the links stand for less than what the transactions say, so the relation
is not fixed here. -/

variable {pool : CTxMemPool} {spends : Uint256 → Uint256 → Prop}

def ParentsLinked (pool : CTxMemPool) (spends : Uint256 → Uint256 → Prop) : Prop :=
  Adjacency pool.getMemPoolParents spends

def ChildrenLinked (pool : CTxMemPool) (spends : Uint256 → Uint256 → Prop) : Prop :=
  Adjacency pool.getMemPoolChildren fun parent child => spends child parent

theorem ChildrenLinked.member (children : pool.ChildrenLinked spends) :
    child ∈ pool.getMemPoolChildren parent ↔ spends child parent :=
      Adjacency.member children parent child

def Within (pool : CTxMemPool) (spends : Uint256 → Uint256 → Prop) : Prop :=
  ∀ child parent, spends child parent → pool.existsTx child = true ∧ pool.existsTx parent = true

structure Linked (pool : CTxMemPool) (spends : Uint256 → Uint256 → Prop) : Prop where
  within : pool.Within spends
  parents : pool.ParentsLinked spends
  children : pool.ChildrenLinked spends
  acyclic : ∀ hash, ¬ TransGen spends hash hash

def nodes (pool : CTxMemPool) : Finset Uint256 := pool.mapTx.keys.toFinset

theorem mem_nodes {hash : Uint256} : hash ∈ pool.nodes ↔ pool.existsTx hash = true := by
  rw [nodes, mem_toFinset]
  exact AList.lookup_isSome.symm

theorem card_nodes_le : pool.nodes.card ≤ pool.size := toFinset_card_le _

theorem ChildrenLinked.reach (children : pool.ChildrenLinked spends) :
    Reach pool.getMemPoolChildren x z ↔ ReflTransGen spends z x :=
  (Adjacency.reach children).trans reflTransGen_swap

def DescendantClosed (spends : Uint256 → Uint256 → Prop) (set : List Uint256) : Prop :=
  ∀ child parent, spends child parent → parent ∈ set → child ∈ set

variable {set : List Uint256}

theorem DescendantClosed.reach (closed : DescendantClosed spends set)
    (path : ReflTransGen spends x z) (member : z ∈ set) : x ∈ set := by
  induction path using ReflTransGen.head_induction_on with
  | refl => exact member
  | head step _ ih => exact closed _ _ step ih

theorem reach_of_mem_calculateDescendants (children : pool.ChildrenLinked spends)
    (member : z ∈ pool.calculateDescendants set root) : z ∈ set ∨ ReflTransGen spends z root := by
  rcases reach_of_mem_exploreCached cacheExact_none member with old | ⟨x, staged, path⟩
  · exact .inl old
  · split at staged
    · cases staged
    · cases mem_singleton.mp staged
      exact .inr (children.reach.mp path)

theorem mem_calculateDescendants (within : pool.Within spends) (children : pool.ChildrenLinked spends)
    (closed : DescendantClosed spends set) {z : Uint256} (present : pool.existsTx z = true) :
    z ∈ pool.calculateDescendants set root ↔ z ∈ set ∨ ReflTransGen spends z root := by
  refine ⟨reach_of_mem_calculateDescendants children, ?_⟩
  rintro (old | path)
  · exact mem_exploreCached_of_done old
  · by_cases known : root ∈ set
    · exact mem_exploreCached_of_done (closed.reach path known)
    · -- nothing leads to a root that is not in the pool
      have rooted : pool.existsTx root = true := by
        rcases path.cases_tail with rfl | ⟨last, -, step⟩
        · exact present
        · exact (within last root step).2
      unfold calculateDescendants
      rw [if_neg known, mem_explore]
      · exact .inr ⟨root, mem_singleton_self root, children.reach.mpr path⟩
      · intro x _ y successor
        exact mem_nodes.mpr (within y x (children.member.mp successor)).1
      · intro x member
        cases mem_singleton.mp member
        exact ⟨mem_nodes.mpr rooted, known⟩
      · exact nodup_singleton root
      · exact fun x member y successor => closed y x (children.member.mp successor) member
      · exact card_nodes_le

theorem descendantClosed_calculateDescendants (within : pool.Within spends)
    (children : pool.ChildrenLinked spends) (closed : DescendantClosed spends set) :
    DescendantClosed spends (pool.calculateDescendants set root) := by
  intro child parent step member
  obtain ⟨childPresent, parentPresent⟩ := within child parent step
  apply (mem_calculateDescendants within children closed childPresent).mpr
  rcases (mem_calculateDescendants within children closed parentPresent).mp member with old | path
  · exact .inl (closed child parent step old)
  · exact .inr (.head step path)

theorem descendantClosed_descendantsOfAll (linked : pool.Linked spends) :
    DescendantClosed spends (pool.descendantsOfAll roots) := by
  refine foldlRecOn (motive := DescendantClosed spends) roots _ (fun _ _ _ member =>
    absurd member not_mem_nil) ?_
  exact fun _ closed root _ =>
    descendantClosed_calculateDescendants linked.within linked.children closed

theorem mem_calculateDescendants_nil (linked : pool.Linked spends)
    (present : pool.existsTx z = true) :
    z ∈ pool.calculateDescendants [] root ↔ ReflTransGen spends z root := by
  have closed : DescendantClosed spends [] := fun _ _ _ member => absurd member not_mem_nil
  simpa using mem_calculateDescendants linked.within linked.children closed present

theorem nodup_calculateDescendants (distinct : set.Nodup) (root : Uint256) :
    (pool.calculateDescendants set root).Nodup := nodup_explore distinct

theorem stageParents_eq_ok
    (within : stageParents limits setAncestors parents parentHashes = .ok staged) :
    parents.foldl (visit hashRank fun _ => none) (parentHashes, setAncestors) =
      (staged, setAncestors) := by
  induction parents generalizing parentHashes with
  | nil =>
    cases within
    rfl
  | cons phash parents ih =>
    rw [foldl_cons]
    by_cases known : phash ∈ setAncestors
    · simp only [stageParents, if_pos known] at within
      simp only [visit, if_pos known]
      split at within
      · simp at within
      · exact ih within
    · simp only [stageParents, if_neg known] at within
      simp only [visit, if_neg known]
      split at within
      · simp at within
      · exact ih within

theorem stageParents_unlimited (setAncestors parents parentHashes : List Uint256) :
    ∃ staged, stageParents {} setAncestors parents parentHashes = .ok staged := by
  induction parents generalizing parentHashes with
  | nil => exact ⟨parentHashes, rfl⟩
  | cons phash parents ih => exact ih _

theorem ancestorsLoop_eq_ok (within : pool.Within spends) (parents : pool.ParentsLinked spends)
    (staged : ∀ hash ∈ parentHashes, pool.existsTx hash = true)
    (walked : pool.ancestorsLoop limits nTxSize fuel parentHashes setAncestors total = .ok result) :
    result = explore hashRank pool.getMemPoolParents fuel parentHashes setAncestors := by
  induction fuel generalizing parentHashes setAncestors total with
  | zero =>
    cases walked
    rfl
  | succ fuel ih =>
    match parentHashes with
    | [] =>
      cases walked
      rfl
    | stageit :: parentHashes =>
      obtain ⟨ancestor, found⟩ := Option.isSome_iff_exists.mp (staged stageit mem_cons_self)
      simp only [ancestorsLoop, found] at walked
      cases checked : checkLimits limits nTxSize stageit ancestor (total + ancestor.nTxSize) with
      | error reason => simp [checked, bind, Except.bind] at walked
      | ok =>
        cases next : stageParents limits (insertSet hashRank stageit setAncestors)
            (pool.getMemPoolParents stageit) parentHashes with
        | error reason => simp [checked, next, bind, Except.bind] at walked
        | ok waiting =>
          simp only [checked, next, bind, Except.bind] at walked
          have step := stageParents_eq_ok next
          have still : ∀ hash ∈ waiting, pool.existsTx hash = true := by
            intro hash member
            have visited := visited_foldl hashRank (fun _ => none) (pool.getMemPoolParents stageit)
              parentHashes (insertSet hashRank stageit setAncestors)
            rw [step] at visited
            rcases visited.staged hash member with old | ⟨parent, -⟩
            · exact staged hash (mem_cons_of_mem _ old)
            · exact (within stageit hash ((parents.member stageit hash).mp parent)).2
          rw [ih still walked, explore, exploreCached, step]

theorem ancestorsLoop_unlimited (pool : CTxMemPool) (nTxSize fuel : Nat)
    (parentHashes setAncestors : List Uint256) (total : Int) :
    ∃ result, pool.ancestorsLoop {} nTxSize fuel parentHashes setAncestors total = .ok result := by
  induction fuel generalizing parentHashes setAncestors total with
  | zero => exact ⟨setAncestors, rfl⟩
  | succ fuel ih =>
    match parentHashes with
    | [] => exact ⟨setAncestors, rfl⟩
    | stageit :: parentHashes =>
      cases found : pool.mapTx.lookup stageit with
      | none =>
        obtain ⟨result, rest⟩ := ih parentHashes setAncestors total
        exact ⟨result, by simpa only [ancestorsLoop, found] using rest⟩
      | some ancestor =>
        obtain ⟨staged, next⟩ := stageParents_unlimited (insertSet hashRank stageit setAncestors)
          (pool.getMemPoolParents stageit) parentHashes
        obtain ⟨result, rest⟩ :=
          ih staged (insertSet hashRank stageit setAncestors) (total + ancestor.nTxSize)
        refine ⟨result, ?_⟩
        simp only [ancestorsLoop, found, next]
        exact rest

theorem searchForParents_eq_ok (searched : pool.searchForParents limits vin parentHashes = .ok result)
    (distinct : parentHashes.Nodup) : result.Nodup ∧ ∀ hash, hash ∈ result ↔
      hash ∈ parentHashes ∨ pool.existsTx hash = true ∧ ∃ txin ∈ vin, txin.prevout.hash = hash := by
  induction vin generalizing parentHashes with
  | nil =>
    cases searched
    exact ⟨distinct, by simp⟩
  | cons txin vin ih =>
    unfold searchForParents at searched
    split at searched
    next present =>
      dsimp only at searched
      split at searched
      · simp at searched
      · obtain ⟨nodup, member⟩ := ih searched (nodup_insertSet distinct)
        refine ⟨nodup, fun hash => (member hash).trans ?_⟩
        simp only [mem_insertSet, mem_cons, exists_eq_or_imp]
        constructor
        · rintro ((rfl | old) | ⟨other, later⟩)
          · exact .inr ⟨present, .inl rfl⟩
          · exact .inl old
          · exact .inr ⟨other, .inr later⟩
        · rintro (old | ⟨other, rfl | later⟩)
          · exact .inl (.inr old)
          · exact .inl (.inl rfl)
          · exact .inr ⟨other, later⟩
    next absent =>
      obtain ⟨nodup, member⟩ := ih searched distinct
      refine ⟨nodup, fun hash => (member hash).trans ?_⟩
      simp only [mem_cons, exists_eq_or_imp]
      constructor
      · rintro (old | ⟨other, later⟩)
        · exact .inl old
        · exact .inr ⟨other, .inr later⟩
      · rintro (old | ⟨other, rfl | later⟩)
        · exact .inl old
        · exact absurd other absent
        · exact .inr ⟨other, later⟩

theorem searchForParents_unlimited (pool : CTxMemPool) (vin : List CTxIn)
    (parentHashes : List Uint256) :
    ∃ result, pool.searchForParents {} vin parentHashes = .ok result := by
  induction vin generalizing parentHashes with
  | nil => exact ⟨parentHashes, rfl⟩
  | cons txin vin ih =>
    unfold searchForParents
    split
    · exact ih _
    · exact ih _

section

variable (within : pool.Within spends) (parents : pool.ParentsLinked spends)

include within parents

theorem mem_explore_parents
    {stage : List Uint256} (staged : ∀ hash ∈ stage, pool.existsTx hash = true)
    (distinct : stage.Nodup) {z : Uint256} :
    z ∈ explore hashRank pool.getMemPoolParents pool.size stage [] ↔
      ∃ x ∈ stage, ReflTransGen spends x z := by
  rw [mem_explore]
  · simp [parents.reach]
  · intro x _ y successor
    exact mem_nodes.mpr (within x y ((parents.member x y).mp successor)).2
  · exact fun x member => ⟨mem_nodes.mpr (staged x member), not_mem_nil⟩
  · exact distinct
  · simp
  · exact card_nodes_le

theorem mem_calculateMemPoolAncestors
    (calculated : pool.calculateMemPoolAncestors entry limits true = .ok setAncestors) :
    setAncestors.Nodup ∧ ∀ z, z ∈ setAncestors ↔
      ∃ parent, (pool.existsTx parent = true ∧ SpendsFrom entry.tx parent) ∧
      ReflTransGen spends parent z := by
  simp only [calculateMemPoolAncestors, if_true] at calculated
  cases searched : pool.searchForParents limits entry.tx.vin [] with
  | error reason => simp [searched, bind, Except.bind] at calculated
  | ok parentHashes =>
    simp only [searched, bind, Except.bind] at calculated
    obtain ⟨distinct, member⟩ := searchForParents_eq_ok searched nodup_nil
    have staged : ∀ hash, hash ∈ parentHashes ↔ pool.existsTx hash = true ∧
        SpendsFrom entry.tx hash := by
      intro hash
      simp [member, SpendsFrom, outpoints]
    rw [ancestorsLoop_eq_ok within parents (fun hash waiting => ((staged hash).mp waiting).1) calculated]
    refine ⟨nodup_explore nodup_nil, fun z => ?_⟩
    rw [mem_explore_parents within parents (fun hash waiting => ((staged hash).mp waiting).1) distinct]
    simp [staged]

theorem mem_allAncestors (entry : CTxMemPoolEntry) : (pool.allAncestors entry false).Nodup ∧
      ∀ z, z ∈ pool.allAncestors entry false ↔ TransGen spends entry.tx.hash z := by
  have staged : ∀ hash ∈ pool.getMemPoolParents entry.tx.hash, pool.existsTx hash = true :=
      fun hash member =>
    (within entry.tx.hash hash ((parents.member entry.tx.hash hash).mp member)).2
  obtain ⟨result, walked⟩ := ancestorsLoop_unlimited pool entry.nTxSize pool.size
    (pool.getMemPoolParents entry.tx.hash) [] entry.nTxSize
  have calculated : pool.allAncestors entry false = result := by
    unfold allAncestors calculateMemPoolAncestors
    simp [bind, Except.bind, walked]
  rw [calculated, ancestorsLoop_eq_ok within parents staged walked]
  refine ⟨nodup_explore nodup_nil, fun z => ?_⟩
  rw [mem_explore_parents within parents staged (parents.distinct entry.tx.hash), TransGen.head'_iff]
  simp [parents.member]

end

theorem calculateMemPoolAncestors_unlimited :
    pool.calculateMemPoolAncestors entry {} true = .ok (pool.allAncestors entry true) := by
  obtain ⟨parentHashes, searched⟩ := searchForParents_unlimited pool entry.tx.vin []
  obtain ⟨result, walked⟩ :=
    ancestorsLoop_unlimited pool entry.nTxSize pool.size parentHashes [] entry.nTxSize
  have calculated : pool.calculateMemPoolAncestors entry {} true = .ok result := by
    simp [calculateMemPoolAncestors, searched, bind, Except.bind, walked]
  rw [calculated, allAncestors, calculated]

end Deviant.Mempool.CTxMemPool
