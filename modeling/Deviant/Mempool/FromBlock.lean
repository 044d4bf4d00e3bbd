import Deviant.Mempool.Counting

namespace Deviant.Mempool

open CTxMemPool Data List Primitives Relation

/-! Transactions that come back from a disconnected block.

They enter without a look for their children, of which there may be some in the pool.  Until
`UpdateTransactionsFromBlock` has come to a transaction of the batch, its children outside the
batch are not linked to it, and the statistics on both sides leave each other out.  Nothing of the
batch spends from outside of it. -/

def Accounted (batch done : List Uint256) (child parent : Uint256) : Prop :=
  child ∈ batch ∨ parent ∉ batch ∨ parent ∈ done

instance (batch done : List Uint256) (child parent : Uint256) :
    Decidable (Accounted batch done child parent) :=
  inferInstanceAs (Decidable (_ ∨ _ ∨ _))

def LinkedUpTo (spends : Uint256 → Uint256 → Prop) (batch done : List Uint256)
    (child parent : Uint256) : Prop :=
  spends child parent ∧ Accounted batch done child parent

def Upward (spends : Uint256 → Uint256 → Prop) (batch : List Uint256) : Prop :=
  ∀ child parent, spends child parent → child ∈ batch → parent ∈ batch

variable {pool : CTxMemPool} {spends : Uint256 → Uint256 → Prop} {batch done : List Uint256}

theorem Upward.reach (upward : Upward spends batch) (path : ReflTransGen spends x z)
    (start : x ∈ batch) : z ∈ batch := by
  induction path with
  | refl => exact start
  | tail _ step ih => exact upward _ _ step ih

theorem reach_linkedUpTo_nil (upward : Upward spends batch) :
    ReflTransGen (LinkedUpTo spends batch []) x z ↔ ReflTransGen spends x z ∧
      Accounted batch [] x z := by
  constructor
  · intro path
    refine ⟨ReflTransGen.mono (fun _ _ step => step.1) _ _ path, ?_⟩
    by_cases start : x ∈ batch
    · exact .inl start
    · refine .inr (.inl ?_)
      induction path with
      | refl => exact start
      | tail _ step ih => exact (step.2.resolve_left ih).resolve_right not_mem_nil
  · rintro ⟨path, start | target | none⟩
    · refine (reflTransGen_congr_of_closed (· ∈ batch) ?_ ?_ start).mpr path
      · exact fun a b inside step => upward a b step inside
      · exact fun a b inside => ⟨fun step => step.1, fun step => ⟨step, .inl inside⟩⟩
    · refine (reflTransGen_congr_of_closed_backward (· ∉ batch) ?_ ?_ target).mpr path
      · exact fun a b outside step inside => outside (upward a b step inside)
      · exact fun a b outside => ⟨fun step => step.1, fun step => ⟨step, .inr (.inl outside)⟩⟩
    · cases none

def ChildrenDone (spends : Uint256 → Uint256 → Prop) (batch done : List Uint256) : Prop :=
  ∀ child parent, spends child parent → child ∈ batch → parent ∈ done → child ∈ done

theorem reach_linkedUpTo_done (upward : Upward spends batch)
    (childrenDone : ChildrenDone spends batch done) (target : z ∈ done) :
    ReflTransGen (LinkedUpTo spends batch done) x z ↔ ReflTransGen spends x z := by
  apply reflTransGen_congr_of_closed_backward (fun hash => hash ∉ batch ∨
    hash ∈ done) _ _ (.inr target)
  · intro a b inside step
    by_cases member : a ∈ batch
    · have both := upward a b step member
      exact .inr (childrenDone a b step member (inside.resolve_left (not_not_intro both)))
    · exact .inl member
  · intro a b inside
    refine ⟨fun step => step.1, fun step => ⟨step, ?_⟩⟩
    exact .inr inside

theorem acyclic_of_linkedUpTo_nil (upward : Upward spends batch)
    (acyclic : ∀ hash, ¬ TransGen (LinkedUpTo spends batch []) hash hash) (hash : Uint256) :
    ¬ TransGen spends hash hash := by
  intro cycle
  obtain ⟨next, step, rest⟩ := TransGen.head'_iff.mp cycle
  refine acyclic hash (TransGen.head'_iff.mpr ⟨next, ⟨step, ?_⟩,
    (reach_linkedUpTo_nil upward).mpr ⟨rest, ?_⟩⟩)
  · by_cases inside : next ∈ batch
    · exact .inl (upward.reach rest inside)
    · exact .inr (.inl inside)
  · by_cases inside : hash ∈ batch
    · exact .inl (upward hash next step inside)
    · exact .inr (.inl inside)

noncomputable def accountedPackage (direction : Direction) (pool : CTxMemPool)
    (spends : Uint256 → Uint256 → Prop) (batch done : List Uint256) (hash : Uint256) :
    Finset Uint256 :=
  match direction with
  | .ancestors =>
    (pool.package (Direction.ancestors.steps spends) hash).filter (Accounted batch done hash ·)
  | .descendants =>
    (pool.package (Direction.descendants.steps spends) hash).filter (Accounted batch done · hash)

theorem mem_accountedPackage_ancestors {hash y : Uint256} :
    y ∈ accountedPackage .ancestors pool spends batch done hash ↔
      pool.existsTx y = true ∧ ReflTransGen spends hash y ∧ Accounted batch done hash y := by
  rw [accountedPackage, Finset.mem_filter, mem_package, and_assoc]
  exact Iff.rfl

theorem mem_accountedPackage_descendants {hash y : Uint256} :
    y ∈ accountedPackage .descendants pool spends batch done hash ↔
      pool.existsTx y = true ∧ ReflTransGen spends y hash ∧ Accounted batch done y hash := by
  rw [accountedPackage, Finset.mem_filter, mem_package_descendants, and_assoc]

theorem accountedPackage_nil (upward : Upward spends batch) (hash : Uint256) :
    accountedPackage direction pool spends batch [] hash =
      pool.package (direction.steps (LinkedUpTo spends batch [])) hash := by
  ext y
  cases direction with
  | ancestors =>
    rw [mem_accountedPackage_ancestors, mem_package, Direction.steps, reach_linkedUpTo_nil upward]
  | descendants =>
    rw [mem_accountedPackage_descendants, mem_package_descendants, reach_linkedUpTo_nil upward]

theorem accounted_of_done (complete : ∀ hash ∈ batch, hash ∈ done) (parent : Uint256) :
    Accounted batch done child parent := by
  by_cases inside : parent ∈ batch
  · exact .inr (.inr (complete parent inside))
  · exact .inr (.inl inside)

theorem accountedPackage_all (complete : ∀ hash ∈ batch, hash ∈ done) (hash : Uint256) :
    accountedPackage direction pool spends batch done hash = pool.package (direction.steps spends)
      hash := by
  cases direction with
  | ancestors => exact Finset.filter_true_of_mem fun y _ => accounted_of_done complete y
  | descendants => exact Finset.filter_true_of_mem fun y _ => accounted_of_done complete hash

theorem mem_childrenFromIndex (indexed : pool.SpendsIndexed) {hash child : Uint256} :
    child ∈ pool.childrenFromIndex hash ↔ ∃ tx, pool.Holds tx ∧ SpendsFrom tx hash ∧
      tx.hash = child := by
  unfold childrenFromIndex
  rw [mem_insertAll]
  simp only [not_mem_nil, or_false, mem_map, mem_filter, beq_iff_eq]
  constructor
  · rintro ⟨⟨outpoint, tx⟩, ⟨member, spent⟩, same⟩
    have found : pool.mapNextTx.lookup outpoint = some tx := AList.mem_lookup_iff.mpr member
    obtain ⟨held, own⟩ := (indexed.spends outpoint tx).mp found
    exact ⟨tx, held, ⟨outpoint, own, spent⟩, same⟩
  · rintro ⟨tx, held, ⟨outpoint, own, spent⟩, same⟩
    have found := (indexed.spends outpoint tx).mpr ⟨held, own⟩
    exact ⟨⟨outpoint, tx⟩, ⟨AList.mem_lookup_iff.mp found, spent⟩, same⟩

theorem links_linkChild (hash : Uint256) :
    ((pool.updateChild hash child true).updateParent child hash true).getMemPoolParents query =
        (if query = child then insertSet hashRank hash (pool.getMemPoolParents query)
        else pool.getMemPoolParents query) ∧
      ((pool.updateChild hash child true).updateParent child hash true).getMemPoolChildren query =
        if query = hash then insertSet hashRank child (pool.getMemPoolChildren query)
        else pool.getMemPoolChildren query := by
  unfold getMemPoolParents getMemPoolChildren
  rw [links_updateParent, links_updateChild]
  constructor
  · split <;> split <;> rfl
  · split <;> split <;> rfl

structure LinksExact (pool : CTxMemPool) (linked : Uint256 → Uint256 → Prop) : Prop where
  parents : pool.ParentsLinked linked
  children : pool.ChildrenLinked linked

theorem LinksExact.congr (exact : LinksExact pool linked)
    (same : ∀ child parent, linked child parent ↔ other child parent) : LinksExact pool other where
  parents := exact.parents.of_iff same
  children := exact.children.of_iff fun parent child => same child parent

theorem LinksExact.linkChild (exact : LinksExact pool linked) (hash : Uint256) :
    LinksExact ((pool.updateChild hash new true).updateParent new hash true) fun child parent =>
      linked child parent ∨ child = new ∧ parent = hash where
  parents := exact.parents.insert fun _ => (links_linkChild hash).1
  children := (exact.children.insert fun _ => (links_linkChild hash).2).of_iff fun _ _ =>
    or_congr_right and_comm

theorem LinksExact.linkChildren (exact : LinksExact pool linked) (hash : Uint256) :
    LinksExact (pool.linkChildren batch hash) fun child parent =>
      linked child parent ∨ parent = hash ∧ child ∈ pool.childrenFromIndex hash ∧ child ∉ batch := by
  unfold CTxMemPool.linkChildren
  generalize pool.childrenFromIndex hash = children
  induction children generalizing pool linked with
  | nil => exact exact.congr (by simp)
  | cons first rest ih =>
    rw [foldl_cons]
    by_cases member : first ∈ batch
    · rw [if_pos member]
      refine (ih exact).congr fun child parent => or_congr_right (and_congr_right fun _ => ?_)
      rw [mem_cons]
      refine ⟨fun ⟨later, outside⟩ => ⟨.inr later, outside⟩, ?_⟩
      rintro ⟨rfl | later, outside⟩
      · exact absurd member outside
      · exact ⟨later, outside⟩
    · rw [if_neg member]
      refine (ih (exact.linkChild hash)).congr fun child parent => or_assoc.trans (or_congr_right ?_)
      rw [mem_cons]
      constructor
      · rintro (⟨rfl, same⟩ | ⟨same, later, outside⟩)
        · exact ⟨same, .inl rfl, member⟩
        · exact ⟨same, .inr later, outside⟩
      · rintro ⟨same, rfl | later, outside⟩
        · exact .inl ⟨rfl, same⟩
        · exact .inr ⟨same, later, outside⟩

/-- What is cached for a transaction that is done: all its descendants outside the batch. -/
def CacheDone (spends : Uint256 → Uint256 → Prop) (batch done : List Uint256) (cache : CacheMap) :
    Prop :=
  ∀ key cached, cache.lookup key = some cached → key ∈ done ∧ ∀ z, z ∈ cached ↔
    z ∉ batch ∧ ReflTransGen spends z key

/-- The walk of `UpdateForDescendants`. -/
def descendantsWith (pool : CTxMemPool) (cache : CacheMap) (it : Uint256) : List Uint256 :=
  exploreCached hashRank pool.getMemPoolChildren cache.lookup pool.size (pool.getMemPoolChildren it) []

variable {cache : CacheMap} {it : Uint256}

theorem cacheExact_of_cacheDone (upward : Upward spends batch)
    (childrenDone : ChildrenDone spends batch done)
    (links : LinksExact pool (LinkedUpTo spends batch done)) (sub : ∀ hash ∈ known, hash ∈ done)
    (cached : CacheDone spends batch known cache) :
    CacheExact pool.getMemPoolChildren cache.lookup (· ∉ batch) where
  closed := by
    intro x outside y successor inside
    exact outside (upward y x (links.children.member.mp successor).1 inside)
  exact := by
    intro key found present z
    obtain ⟨keyDone, member⟩ := cached key found present
    rw [member, links.children.reach, reach_linkedUpTo_done upward childrenDone (sub key keyDone)]

def countedDescendants (pool : CTxMemPool) (cache : CacheMap) (batch : List Uint256)
    (it : Uint256) : List Uint256 :=
  (descendantsWith pool cache it).filter fun cit => decide (cit ∉ batch)

theorem nodup_countedDescendants : (countedDescendants pool cache batch it).Nodup :=
  (nodup_exploreCached nodup_nil).filter _

section

variable (within : pool.Within spends) (upward : Upward spends batch)
  (childrenDone : ChildrenDone spends batch (it :: done)) (inBatch : it ∈ batch)
  (links : LinksExact pool (LinkedUpTo spends batch (it :: done)))
  (cached : CacheDone spends batch done cache)

include within upward childrenDone inBatch links cached

theorem mem_descendantsWith (outside : z ∉ batch) :
    z ∈ descendantsWith pool cache it ↔ ReflTransGen spends z it := by
  have sound :=
    cacheExact_of_cacheDone upward childrenDone links (fun _ => mem_cons_of_mem it) cached
  have linked (x : Uint256) : ReflTransGen (LinkedUpTo spends batch (it :: done)) x it ↔
      ReflTransGen spends x it :=
    reach_linkedUpTo_done upward childrenDone mem_cons_self
  constructor
  · intro member
    rcases reach_of_mem_exploreCached sound member with none | ⟨x, child, path⟩
    · cases none
    · exact (linked z).mp ((links.children.reach.mp path).tail (links.children.member.mp child))
  · intro path
    rcases ((linked z).mpr path).cases_tail with rfl | ⟨x, rest, step⟩
    · exact absurd inBatch outside
    · have ready : Explorable pool.getMemPoolChildren cache.lookup pool.nodes ∅ pool.size
          (pool.getMemPoolChildren it) [] := {
        closed := fun x _ y successor => mem_nodes.mpr (within y x (links.children.member.mp successor).1).1
        staged := fun x child => ⟨mem_nodes.mpr (within x it (links.children.member.mp child).1).1,
          Finset.notMem_empty x⟩
        expandedMarked := fun x none => absurd none (Finset.notMem_empty x)
        distinct := links.children.distinct it
        frontier := fun x none => absurd none not_mem_nil
        enough := (Finset.card_le_card Finset.sdiff_subset).trans card_nodes_le }
      exact mem_exploreCached_of_reach sound ready (links.children.member.mpr step)
        (links.children.reach.mpr rest) outside

theorem mem_countedDescendants :
    z ∈ countedDescendants pool cache batch it ↔ z ∉ batch ∧ ReflTransGen spends z it := by
  unfold countedDescendants
  rw [mem_filter, decide_eq_true_eq, and_comm]
  exact and_congr_right fun outside =>
    mem_descendantsWith within upward childrenDone inBatch links cached outside

end

theorem accounted_cons :
    Accounted batch (it :: done) child parent ↔ Accounted batch done child parent ∨ parent = it := by
  unfold Accounted
  rw [mem_cons]
  tauto

theorem accountedPackage_cons_ancestors {counted : List Uint256} (inBatch : it ∈ batch)
    (present : pool.existsTx it = true)
    (descendants : ∀ z, z ∈ counted ↔ z ∉ batch ∧ ReflTransGen spends z it) (hash : Uint256) :
    (if hash ∈ counted then insert it (accountedPackage .ancestors pool spends batch done hash)
      else accountedPackage .ancestors pool spends batch done hash) =
        accountedPackage .ancestors pool spends batch (it :: done) hash := by
  ext y
  rw [mem_accountedPackage_ancestors, accounted_cons]
  split
  next below =>
    rw [Finset.mem_insert, mem_accountedPackage_ancestors]
    constructor
    · rintro (rfl | ⟨inside, path, accounted⟩)
      · exact ⟨present, ((descendants hash).mp below).2, .inr rfl⟩
      · exact ⟨inside, path, .inl accounted⟩
    · rintro ⟨inside, path, accounted | rfl⟩
      · exact .inr ⟨inside, path, accounted⟩
      · exact .inl rfl
  next other =>
    rw [mem_accountedPackage_ancestors]
    refine and_congr_right fun _ => and_congr_right fun path => ⟨.inl, ?_⟩
    rintro (accounted | rfl)
    · exact accounted
    · by_cases member : hash ∈ batch
      · exact .inl member
      · exact absurd ((descendants hash).mpr ⟨member, path⟩) other

theorem accountedPackage_cons_descendants (done : List Uint256) {counted : List Uint256}
    (known : ∀ z ∈ counted, pool.existsTx z = true)
    (descendants : ∀ z, z ∈ counted ↔ z ∉ batch ∧ ReflTransGen spends z it) (hash : Uint256) :
    (if hash = it then accountedPackage .descendants pool spends batch done hash ∪ counted.toFinset
      else accountedPackage .descendants pool spends batch done hash) =
        accountedPackage .descendants pool spends batch (it :: done) hash := by
  ext y
  rw [mem_accountedPackage_descendants, accounted_cons]
  split
  next same =>
    subst same
    rw [Finset.mem_union, mem_toFinset, mem_accountedPackage_descendants]
    constructor
    · rintro (⟨inside, path, accounted⟩ | below)
      · exact ⟨inside, path, .inl accounted⟩
      · exact ⟨known y below, ((descendants y).mp below).2, .inr rfl⟩
    · rintro ⟨inside, path, -⟩
      by_cases member : y ∈ batch
      · exact .inl ⟨inside, path, .inl member⟩
      · exact .inr ((descendants y).mpr ⟨member, path⟩)
  next other => simp [mem_accountedPackage_descendants, other]

section Totals

variable {direction : Direction} {stat : Statistic direction} {origin : CTxMemPool}

theorem CountedOver.updateForDescendants (same : SameContents origin pool)
    (within : pool.Within spends) (inBatch : it ∈ batch) (pending : it ∉ done)
    (present : pool.existsTx it = true)
    (descendants : ∀ z, z ∈ countedDescendants pool cache batch it ↔
      z ∉ batch ∧ ReflTransGen spends z it)
    (counted : CountedOver stat pool (accountedPackage direction origin spends batch done)
      (stat.ownOf origin)) :
    CountedOver stat (pool.updateForDescendants it cache batch).1
      (accountedPackage direction origin spends batch (it :: done)) (stat.ownOf origin) := by
  obtain ⟨entry, found⟩ := Option.isSome_iff_exists.mp present
  have known (z : Uint256) (member : z ∈ countedDescendants pool cache batch it) :
      pool.existsTx z = true := by
    obtain ⟨outside, path⟩ := (descendants z).mp member
    rcases path.cases_head with rfl | ⟨parent, step, -⟩
    · exact absurd inBatch outside
    · exact (within z parent step).1
  have weight : stat.ownOf origin it = stat.own entry := by
    rw [← stat.ownOf_congr same, Statistic.ownOf, found, Option.elim_some]
  have unfolded : (pool.updateForDescendants it cache batch).1 =
      (pool.modifyEach
        (Direction.ancestors.update entry.nTxSize entry.getModifiedFee 1 entry.sigOpCount)
          (countedDescendants pool cache batch it)).modify (Direction.descendants.update
          (pool.sumOver (fun entry => entry.nTxSize) (countedDescendants pool cache batch it))
          (wrap64 (pool.sumOver CTxMemPoolEntry.getModifiedFee
            (countedDescendants pool cache batch it)))
          (countedDescendants pool cache batch it).length
          (pool.sumOver (fun entry => entry.sigOpCount) (countedDescendants pool cache batch it)))
      it := by
    simp only [CTxMemPool.updateForDescendants, found]
    rfl
  rw [unfolded]
  cases direction with
  | ancestors =>
    have gained := counted.gain nodup_countedDescendants (fun a => by rw [stat.change_own, weight]) (by
        intro hash member inside
        obtain ⟨-, -, accounted⟩ := mem_accountedPackage_ancestors.mp inside
        rcases accounted with outside | notInBatch | finished
        · exact ((descendants hash).mp member).1 outside
        · exact notInBatch inBatch
        · exact pending finished)
    simp only [accountedPackage_cons_ancestors inBatch (same.exists_iff it ▸ present) descendants]
      at gained
    exact gained.otherOne
  | descendants =>
    have disjoint : Disjoint (accountedPackage .descendants origin spends batch done it)
        (countedDescendants pool cache batch it).toFinset := by
      apply Finset.disjoint_left.mpr
      intro y inside member
      obtain ⟨-, -, accounted⟩ := mem_accountedPackage_descendants.mp inside
      rcases accounted with within | notInBatch | finished
      · exact ((descendants y).mp (mem_toFinset.mp member)).1 within
      · exact notInBatch inBatch
      · exact pending finished
    have sets := funext (accountedPackage_cons_descendants done
      (fun z member => same.exists_iff z ▸ known z member) descendants)
    rw [← sets]
    refine (CountedOver.other counted nodup_countedDescendants).gainAll disjoint fun a => ?_
    rw [stat.change_sum pool _ known, sumOver_eq_sum nodup_countedDescendants, stat.ownOf_congr same]

end Totals

theorem CTxMemPool.within_spends (pool : CTxMemPool) : pool.Within pool.Spends := by
  rintro child parent ⟨⟨tx, held, rfl, -⟩, present⟩
  exact ⟨existsTx_of_holds held, present⟩

/-- What is true of the pool when some of the batch are done. -/
structure Progress (origin pool : CTxMemPool) (batch done : List Uint256) (cache : CacheMap) :
    Prop where
  same : SameContents origin pool
  links : LinksExact pool (LinkedUpTo origin.Spends batch done)
  cached : CacheDone origin.Spends batch done cache

section Progress

variable {origin : CTxMemPool}

theorem LinksExact.of_links (exact : LinksExact pool linked)
    (same : ∀ hash, other.links hash = pool.links hash) :
    LinksExact other linked where
  parents := exact.parents.congr fun hash => congrArg TxLinks.parents (same hash)
  children := exact.children.congr fun hash => congrArg TxLinks.children (same hash)

theorem Progress.linkChildren (progress : Progress origin pool batch done cache)
    (indexed : origin.SpendsIndexed) (present : origin.existsTx it = true) :
    LinksExact (pool.linkChildren batch it) (LinkedUpTo origin.Spends batch (it :: done)) := by
  refine (progress.links.linkChildren it).congr fun child parent => ?_
  rw [mem_childrenFromIndex (indexed.congr progress.same.transactions)]
  simp only [progress.same.transactions.holds]
  unfold LinkedUpTo
  rw [accounted_cons]
  constructor
  · rintro (⟨step, accounted⟩ | ⟨rfl, ⟨tx, held, spent, same⟩, -⟩)
    · exact ⟨step, .inl accounted⟩
    · exact ⟨⟨⟨tx, held, same, spent⟩, present⟩, .inr rfl⟩
  · rintro ⟨step, accounted | rfl⟩
    · exact .inl ⟨step, accounted⟩
    · by_cases inside : child ∈ batch
      · exact .inl ⟨step, .inl inside⟩
      · obtain ⟨⟨tx, held, same, spent⟩, -⟩ := step
        exact .inr ⟨rfl, ⟨tx, held, spent, same⟩, inside⟩

theorem links_updateForDescendants (query : Uint256) :
    (pool.updateForDescendants it cache batch).1.links query = pool.links query := by
  unfold updateForDescendants
  split
  · rfl
  · simp

theorem CacheDone.updateForDescendants (cached : CacheDone spends batch done cache)
    (present : pool.existsTx it = true) (pending : it ∉ done)
    (descendants : ∀ z, z ∈ countedDescendants pool cache batch it ↔
      z ∉ batch ∧ ReflTransGen spends z it) :
    CacheDone spends batch (it :: done) (pool.updateForDescendants it cache batch).2 := by
  obtain ⟨entry, found⟩ := Option.isSome_iff_exists.mp present
  have unfolded : (pool.updateForDescendants it cache batch).2 =
      if (countedDescendants pool cache batch it).isEmpty then cache
      else cache.insert it (insertAll hashRank (countedDescendants pool cache batch it)
        ((cache.lookup it).getD [])) := by
    simp only [CTxMemPool.updateForDescendants, found]
    rfl
  have unknown : cache.lookup it = none := by
    cases known : cache.lookup it with
    | none => rfl
    | some old => exact absurd (cached it old known).1 pending
  intro key value lookup
  rw [unfolded, unknown, Option.getD_none] at lookup
  split at lookup
  · obtain ⟨keyDone, member⟩ := cached key value lookup
    exact ⟨mem_cons_of_mem _ keyDone, member⟩
  · rw [Table.lookup_insert_eq] at lookup
    split at lookup
    next same =>
      cases lookup
      subst same
      refine ⟨mem_cons_self, fun z => ?_⟩
      rw [mem_insertAll, descendants]
      simp
    · obtain ⟨keyDone, member⟩ := cached key value lookup
      exact ⟨mem_cons_of_mem _ keyDone, member⟩

theorem Progress.step (progress : Progress origin pool batch done cache)
    (indexed : origin.SpendsIndexed) (upward : Upward origin.Spends batch)
    (childrenDone : ChildrenDone origin.Spends batch (it :: done)) (inBatch : it ∈ batch)
    (pending : it ∉ done) (present : origin.existsTx it = true) :
    Progress origin (updateTransactionFromBlock batch (pool, cache) it).1 batch (it :: done)
        (updateTransactionFromBlock batch (pool, cache) it).2 ∧
        ∀ {direction : Direction} (stat : Statistic direction),
        CountedOver stat pool (accountedPackage direction origin origin.Spends batch done)
        (stat.ownOf origin) →
        CountedOver stat (updateTransactionFromBlock batch (pool, cache) it).1
          (accountedPackage direction origin origin.Spends batch (it :: done))
          (stat.ownOf origin) := by
  have links := progress.linkChildren indexed present
  have same := progress.same.trans (sameContents_linkChildren batch it)
  have within := (within_spends origin).congr same.exists_iff
  have descendants (z : Uint256) :=
    mem_countedDescendants within upward childrenDone inBatch links progress.cached (z := z)
  have inPool : pool.existsTx it = true := (progress.same.exists_iff it).trans present
  have linkedPresent : (pool.linkChildren batch it).existsTx it = true :=
    (same.exists_iff it).trans present
  have unfolded : updateTransactionFromBlock batch (pool, cache) it =
      (pool.linkChildren batch it).updateForDescendants it cache batch := by
    simp [updateTransactionFromBlock, inPool]
  rw [unfolded]
  refine ⟨⟨same.trans sameContents_updateForDescendants, ?_, ?_⟩, fun stat counted => ?_⟩
  · exact links.of_links links_updateForDescendants
  · exact progress.cached.updateForDescendants linkedPresent pending descendants
  · have linked : (pool.linkChildren batch it).mapTx = pool.mapTx := by
      apply foldl_project mapTx
      intro pool child
      split <;> rfl
    exact (counted.of_mapTx linked).updateForDescendants same within inBatch pending
      linkedPresent descendants

/-- The order in which the batch is gone through: children before what they spend from. -/
def ChildrenFirst (spends : Uint256 → Uint256 → Prop) (batch : List Uint256) :
    (done rest : List Uint256) → Prop
  | _, [] => True
  | done, it :: rest =>
    it ∉ done ∧ ChildrenDone spends batch (it :: done) ∧ ChildrenFirst spends batch (it :: done) rest

theorem Progress.foldl (progress : Progress origin pool batch done cache)
    (indexed : origin.SpendsIndexed) (upward : Upward origin.Spends batch)
    (order : ChildrenFirst origin.Spends batch done rest) (inBatch : ∀ hash ∈ rest, hash ∈ batch)
    (present : ∀ hash ∈ batch, origin.existsTx hash = true) :
    Progress origin (rest.foldl (updateTransactionFromBlock batch) (pool, cache)).1 batch
      (rest.reverse ++ done)
        (rest.foldl (updateTransactionFromBlock batch) (pool, cache)).2 ∧
      ∀ {direction : Direction} (stat : Statistic direction),
        CountedOver stat pool (accountedPackage direction origin origin.Spends batch done)
        (stat.ownOf origin) →
        CountedOver stat (rest.foldl (updateTransactionFromBlock batch) (pool, cache)).1
          (accountedPackage direction origin origin.Spends batch (rest.reverse ++ done))
          (stat.ownOf origin) := by
  induction rest generalizing pool cache done with
  | nil => exact ⟨progress, fun _ => id⟩
  | cons it rest ih =>
    obtain ⟨pending, childrenDone, later⟩ := order
    have itInBatch := inBatch it mem_cons_self
    obtain ⟨after, totals⟩ :=
      progress.step indexed upward childrenDone itInBatch pending (present it itInBatch)
    obtain ⟨final, finalTotals⟩ := ih after later (forall_mem_cons.mp inBatch).2
    rw [foldl_cons, reverse_cons, append_assoc]
    exact ⟨final, fun stat counted => finalTotals stat (totals stat counted)⟩

end Progress

theorem CTxMemPool.SameTransactions.spends_eq (same : SameTransactions pool other) :
    other.Spends = pool.Spends := by
  funext child parent
  simp [Spends, same.holds, same.existsTx_eq]

theorem exact_updateTransactionsFromBlock (linked : pool.Linked (LinkedUpTo pool.Spends batch []))
    (indexed : pool.SpendsIndexed) (upward : Upward pool.Spends batch)
    (order : ChildrenFirst pool.Spends batch [] batch.reverse)
    (present : ∀ hash ∈ batch, pool.existsTx hash = true) :
    (pool.updateTransactionsFromBlock batch).Linked
      (pool.updateTransactionsFromBlock batch).Spends ∧
      ∀ {direction : Direction} (stat : Statistic direction),
      Counted stat pool (LinkedUpTo pool.Spends batch []) →
        Counted stat (pool.updateTransactionsFromBlock batch)
        (pool.updateTransactionsFromBlock batch).Spends := by
  have same := sameContents_updateTransactionsFromBlock pool batch
  have start : Progress pool pool batch [] ∅ :=
    ⟨.refl pool, ⟨linked.parents, linked.children⟩, fun key cached found => by simp at found⟩
  obtain ⟨final, totals⟩ := start.foldl indexed upward order (fun hash => mem_reverse.mp) present
  rw [reverse_reverse, append_nil] at final totals
  rw [same.transactions.spends_eq]
  have links := final.links.congr fun child parent =>
    and_iff_left (accounted_of_done (fun _ => id) parent)
  refine ⟨⟨(within_spends pool).congr same.exists_iff, links.parents, links.children,
    acyclic_of_linkedUpTo_nil upward linked.acyclic⟩, fun {direction} stat counted => ?_⟩
  have before : CountedOver stat pool (accountedPackage direction pool pool.Spends batch [])
      (stat.ownOf pool) := by
    rw [funext (accountedPackage_nil upward)]
    exact counted
  have after := totals stat before
  rw [funext (accountedPackage_all (fun _ => id))] at after
  unfold Counted
  rw [stat.ownOf_congr same]
  refine CountedOver.congr after (fun hash entry found => ⟨entry, found, rfl⟩) fun hash _ => ?_
  ext y
  rw [mem_package, mem_package, same.exists_iff]

end Deviant.Mempool
