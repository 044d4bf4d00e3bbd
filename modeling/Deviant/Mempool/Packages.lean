import Deviant.Mempool.FromBlock

namespace Deviant.Mempool

open CTxMemPool Data List Option Primitives Relation Statistic

/-! Links and statistics over whole runs of the pool. -/

variable {direction : Direction} {stat : Statistic direction} {pool next : CTxMemPool}

/-- The links and the index of spent outpoints are those of the transactions. -/
structure Structured (pool : CTxMemPool) : Prop where
  indexed : pool.SpendsIndexed
  linked : pool.Linked pool.Spends

structure Exact (stat : Statistic direction) (pool : CTxMemPool) :
    Prop extends Structured pool where
  counted : Counted stat pool pool.Spends

theorem Structured.congr (structured : Structured pool) (same : SameTransactions pool next)
    (links : ∀ hash, next.links hash = pool.links hash) : Structured next where
  indexed := structured.indexed.congr same
  linked := by
    rw [same.spends_eq]
    refine ⟨?_, structured.linked.parents.congr fun query => congrArg TxLinks.parents (links query),
      structured.linked.children.congr fun query => congrArg TxLinks.children (links query),
      structured.linked.acyclic⟩
    rw [← same.spends_eq]
    exact next.within_spends

section Entering

variable {entry : CTxMemPoolEntry}

theorem spends_addUnchecked (setAncestors : List Uint256)
    (fresh : pool.existsTx entry.tx.hash = false)
    (notOwnParent : ¬ SpendsFrom entry.tx entry.tx.hash) (child parent : Uint256) :
    (pool.addUnchecked entry setAncestors).Spends child parent ↔
      pool.SpendsWith pool.Spends entry.tx child parent ∨
        parent = entry.tx.hash ∧ ∃ tx, pool.Holds tx ∧ tx.hash = child ∧
        SpendsFrom tx entry.tx.hash := by
  unfold Spends SpendsWith
  rw [existsTx_addUnchecked setAncestors fresh]
  simp only [holds_addUnchecked fresh]
  constructor
  · rintro ⟨⟨tx, rfl | held, rfl, spent⟩, rfl | present⟩
    · exact absurd spent notOwnParent
    · exact .inl (.inr ⟨rfl, present, spent⟩)
    · exact .inr ⟨rfl, tx, held, rfl, spent⟩
    · exact .inl (.inl ⟨⟨tx, held, rfl, spent⟩, present⟩)
  · rintro ((⟨⟨tx, held, rfl, spent⟩, present⟩ | ⟨rfl, present, spent⟩) | ⟨rfl, tx,
      held, rfl, spent⟩)
    · exact ⟨⟨tx, .inr held, rfl, spent⟩, .inr present⟩
    · exact ⟨⟨entry.tx, .inl rfl, rfl, spent⟩, .inr present⟩
    · exact ⟨⟨tx, .inr held, rfl, spent⟩, .inl rfl⟩

variable (admitted : Admissible pool entry)
    (childless : ∀ tx, pool.Holds tx → ¬ SpendsFrom tx entry.tx.hash)

include admitted childless

theorem spends_addUnchecked_childless :
    (pool.addUnchecked entry setAncestors).Spends = pool.SpendsWith pool.Spends entry.tx := by
  funext child parent
  apply propext
  rw [spends_addUnchecked setAncestors admitted.fresh admitted.notOwnParent]
  refine ⟨fun either => either.resolve_right ?_, .inl⟩
  rintro ⟨-, tx, held, -, spent⟩
  exact childless tx held spent

theorem Structured.addUnchecked (structured : Structured pool) :
    Structured (pool.addUnchecked entry setAncestors) where
  indexed := structured.indexed.addUnchecked admitted.toNonConflicting setAncestors
  linked := by
    rw [spends_addUnchecked_childless admitted childless]
    exact structured.linked.addUnchecked setAncestors admitted.noZerocoins admitted.fresh
      admitted.notOwnParent

theorem Exact.addWithin (exact : Exact stat pool) :
    Exact stat (pool.addWithin limits entry) := by
  unfold CTxMemPool.addWithin
  split
  next setAncestors calculated =>
    obtain ⟨distinct, ancestors⟩ :=
      mem_calculateMemPoolAncestors exact.linked.within exact.linked.parents calculated
    refine ⟨exact.toStructured.addUnchecked admitted childless, ?_⟩
    rw [spends_addUnchecked_childless admitted childless]
    exact exact.counted.addUnchecked exact.linked ancestors admitted distinct
  · exact exact

end Entering

section Leaving

variable {stage : List Uint256} {updateDescendants : Bool}

theorem holds_removeStaged (tx : CTransaction) :
    (pool.removeStaged stage updateDescendants).Holds tx ↔ pool.Holds tx ∧ tx.hash ∉ stage := by
  have same := sameContents_updateForRemoveFromMempool pool stage updateDescendants
  rw [← same.transactions.holds tx]
  unfold Holds
  rw [removeStaged, lookup_foldl_removeUnchecked]
  split
  next removed => simp [removed]
  next kept => simp [kept]

theorem spends_removeStaged :
    (pool.removeStaged stage updateDescendants).Spends = Without pool.Spends stage := by
  funext child parent
  apply propext
  unfold Spends Without
  rw [existsTx_removeStaged, Bool.and_eq_true, decide_eq_true_eq]
  simp only [holds_removeStaged]
  constructor
  · rintro ⟨⟨tx, ⟨held, kept⟩, rfl, spent⟩, present, parentKept⟩
    exact ⟨⟨⟨tx, held, rfl, spent⟩, present⟩, kept, parentKept⟩
  · rintro ⟨⟨⟨tx, held, rfl, spent⟩, present⟩, kept, parentKept⟩
    exact ⟨⟨tx, ⟨held, kept⟩, rfl, spent⟩, present, parentKept⟩

theorem Structured.removeStaged (structured : Structured pool) (stage : List Uint256) :
    Structured (pool.removeStaged stage updateDescendants) where
  indexed := structured.indexed.removeStaged
  linked := by
    rw [spends_removeStaged]
    exact structured.linked.removeStaged

theorem nodup_descendantsOfAll : (pool.descendantsOfAll roots).Nodup := by
  have grows (set : List Uint256) (distinct : set.Nodup) :
      (roots.foldl pool.calculateDescendants set).Nodup := by
    induction roots generalizing set with
    | nil => exact distinct
    | cons root roots ih => exact ih _ (nodup_calculateDescendants distinct root)
  exact grows [] nodup_nil

theorem removalInvariant_exact (stat : Statistic direction) : RemovalInvariant (Exact stat) where
  staged exact roots := by
    refine ⟨exact.toStructured.removeStaged _, ?_⟩
    rw [removeDescendantsOf, spends_removeStaged]
    exact exact.counted.removeClosed exact.linked exact.indexed.keyed nodup_descendantsOfAll
      (descendantClosed_descendantsOfAll exact.linked)
  delta exact _ _ := ⟨exact.toStructured.congr ⟨fun _ => rfl, rfl, rfl⟩ fun _ => rfl, exact.counted⟩

end Leaving

section Confirmation

variable {origin : CTxMemPool}

theorem removalInvariant_held (origin : CTxMemPool) :
    RemovalInvariant fun pool => ∀ tx, pool.Holds tx → origin.Holds tx where
  staged fewer _ tx held := fewer tx ((holds_removeStaged tx).mp held).1
  delta fewer _ _ := fewer

theorem not_spends_of_blockOrdered {earlier : List Uint256} (keyed : pool.Keyed)
    (ordered : ∀ parent, origin.existsTx parent → SpendsFrom tx parent → parent ∈ earlier)
    (identified : origin.existsTx tx.hash → origin.Holds tx)
    (fewer : ∀ tx, pool.Holds tx → origin.Holds tx)
    (gone : ∀ hash ∈ earlier, pool.existsTx hash = false) (parent : Uint256) :
    ¬ pool.Spends tx.hash parent := by
  rintro ⟨⟨held, holds, same, spent⟩, present⟩
  have before := fewer held holds
  have known : origin.existsTx tx.hash = true := same ▸ existsTx_of_holds before
  cases eq_of_holds (identified known) before same
  have parentBefore : origin.existsTx parent = true := by
    obtain ⟨entry, found⟩ := isSome_iff_exists.mp present
    rw [← keyed parent entry found]
    exact existsTx_of_holds (fewer _ (keyed.holds found))
  have absent := gone parent (ordered parent parentBefore spent)
  rw [present] at absent
  cases absent

theorem Exact.removeForBlock {vtx : List CTransaction} {earlier : List Uint256}
    (exact : Exact stat pool) (ordered : BlockOrdered origin earlier vtx)
    (identified : Identified origin vtx) (fewer : ∀ tx, pool.Holds tx → origin.Holds tx)
    (gone : ∀ hash ∈ earlier, pool.existsTx hash = false) :
    Exact stat (pool.removeForBlock vtx) := by
  -- the block is gone through in its order; what has had its turn is no longer in the pool
  induction vtx generalizing pool earlier with
  | nil => exact exact
  | cons tx vtx ih =>
    have source :=
      not_spends_of_blockOrdered exact.indexed.keyed ordered.1 (identified tx mem_cons_self)
      fewer gone
    have left (hash : Uint256) (absent : pool.existsTx hash = false) :
        (pool.removeForBlockTx tx).existsTx hash = false := by
      apply (removalInvariant_absent hash).removeForBlockTx absent tx
      intro _
      rw [existsTx_removeStaged, absent, Bool.false_and]
    apply ih _ ordered.2 fun other member => identified other (mem_cons_of_mem tx member)
    · apply (removalInvariant_held origin).removeForBlockTx fewer tx
      intro _ other held
      exact fewer other ((holds_removeStaged other).mp held).1
    · intro hash member
      rcases mem_cons.mp member with rfl | before
      · exact (removalInvariant_absent tx.hash).removeConflicts (existsTx_removed pool tx.hash) tx
      · exact left hash (gone hash before)
    · apply (removalInvariant_exact stat).removeForBlockTx exact tx
      intro _
      refine ⟨exact.toStructured.removeStaged _, ?_⟩
      rw [spends_removeStaged]
      exact exact.counted.removeSource exact.linked exact.indexed.keyed source

end Confirmation

section Returning

variable {entry : CTxMemPoolEntry} {earlier batch : List Uint256}

def NoLaterParents (spends : Uint256 → Uint256 → Prop) (earlier : List Uint256) : Prop :=
  earlier.Pairwise fun later first => first ≠ later ∧ ¬ spends first later

theorem childrenFirst_of_pairwise (complete : ∀ hash ∈ batch, hash ∈ done ∨ hash ∈ rest)
    (apart : ∀ later ∈ done, ∀ first ∈ rest, first ≠ later ∧ ¬ spends first later)
    (ordered : NoLaterParents spends rest) : ChildrenFirst spends batch done rest := by
  induction rest generalizing done with
  | nil => trivial
  | cons it rest ih =>
    obtain ⟨head, tail⟩ := pairwise_cons.mp ordered
    refine ⟨fun member => (apart it member it mem_cons_self).1 rfl, ?_, ih ?_ ?_ tail⟩
    · intro child parent step inBatch member
      rcases complete child inBatch with before | pending
      · exact mem_cons_of_mem it before
      · rcases mem_cons.mp pending with rfl | behind
        · exact mem_cons_self
        · rcases mem_cons.mp member with rfl | parentDone
          · exact absurd step (head child behind).2
          · exact absurd step (apart parent parentDone child pending).2
    · intro hash inBatch
      rcases complete hash inBatch with before | pending
      · exact .inl (mem_cons_of_mem it before)
      · rcases mem_cons.mp pending with rfl | behind
        · exact .inl mem_cons_self
        · exact .inr behind
    · intro later member first behind
      rcases mem_cons.mp member with rfl | before
      · exact head first behind
      · exact apart later before first (mem_cons_of_mem it behind)

/-- The pool while a batch comes back: it stands for itself and is not linked to its children
yet. -/
structure Returning (pool : CTxMemPool) (earlier : List Uint256) : Prop where
  indexed : pool.SpendsIndexed
  linked : pool.Linked (LinkedUpTo pool.Spends earlier [])
  upward : Upward pool.Spends earlier
  ordered : NoLaterParents pool.Spends earlier
  present : ∀ hash ∈ earlier, pool.existsTx hash = true

theorem linkedUpTo_empty : LinkedUpTo spends [] [] = spends := by
  funext child parent
  simp [LinkedUpTo, Accounted]

theorem Structured.returning (structured : Structured pool) : Returning pool [] where
  indexed := structured.indexed
  linked := by
    rw [linkedUpTo_empty]
    exact structured.linked
  upward _ _ _ member := by cases member
  ordered := List.Pairwise.nil
  present _ member := by cases member

theorem linkedUpTo_addUnchecked (admitted : AdmissibleFromBlock pool earlier entry) :
    LinkedUpTo (pool.addUnchecked entry setAncestors).Spends (entry.tx.hash :: earlier) [] =
      pool.SpendsWith (LinkedUpTo pool.Spends earlier []) entry.tx := by
  have absent (hash : Uint256) := @ne_of_existsTx pool _ hash admitted.fresh
  funext child parent
  apply propext
  unfold LinkedUpTo Accounted
  rw [spends_addUnchecked setAncestors admitted.fresh admitted.notOwnParent]
  constructor
  · rintro ⟨(old | new) | ⟨rfl, tx, held, rfl, spent⟩, accounted⟩
    · obtain ⟨childPresent, -⟩ := pool.within_spends child parent old
      refine .inl ⟨old, accounted.imp ?_ (.imp_left ?_)⟩
      · exact fun member => (mem_cons.mp member).resolve_left (absent child childPresent)
      · exact fun outside member => outside (mem_cons_of_mem _ member)
    · exact .inr new
    · -- a child that is accounted for would be one of those that came before
      rcases accounted with member | outside | none
      · rcases mem_cons.mp member with same | before
        · exact absurd same (absent _ (existsTx_of_holds held))
        · exact absurd spent (admitted.childrenLater tx held before)
      · exact absurd mem_cons_self outside
      · cases none
  · rintro (⟨old, accounted⟩ | ⟨rfl, present, spent⟩)
    · obtain ⟨-, parentPresent⟩ := pool.within_spends child parent old
      refine ⟨.inl (.inl old), accounted.imp (mem_cons_of_mem _) (.imp_left ?_)⟩
      exact fun outside member =>
        outside ((mem_cons.mp member).resolve_left (absent parent parentPresent))
    · exact ⟨.inl (.inr ⟨rfl, present, spent⟩), .inl mem_cons_self⟩

theorem Returning.addUnchecked (returning : Returning pool earlier)
    (admitted : AdmissibleFromBlock pool earlier entry) :
    Returning (pool.addUnchecked entry setAncestors) (entry.tx.hash :: earlier) := by
  have known (hash : Uint256) (member : hash ∈ earlier) : hash ≠ entry.tx.hash :=
    ne_of_existsTx admitted.fresh (returning.present hash member)
  have spends := spends_addUnchecked setAncestors admitted.fresh admitted.notOwnParent
  -- between those of the batch that came before, nothing changes
  have between (first later : Uint256) (member : first ∈ earlier) (laterMember : later ∈ earlier)
      (step : (pool.addUnchecked entry setAncestors).Spends first later) : pool.Spends first later := by
    rcases (spends first later).mp step with (old | ⟨same, -⟩) | ⟨same, -⟩
    · exact old
    · exact absurd same (known first member)
    · exact absurd same (known later laterMember)
  constructor
  · exact returning.indexed.addUnchecked admitted.toNonConflicting setAncestors
  · rw [linkedUpTo_addUnchecked admitted]
    exact returning.linked.addUnchecked setAncestors admitted.noZerocoins admitted.fresh
      admitted.notOwnParent
  · intro child parent step member
    rcases (spends child parent).mp step with (old | ⟨-, present, spent⟩) | ⟨rfl, -⟩
    · obtain ⟨present, -⟩ := pool.within_spends child parent old
      rcases mem_cons.mp member with rfl | before
      · exact absurd rfl (ne_of_existsTx admitted.fresh present)
      · exact mem_cons_of_mem _ (returning.upward child parent old before)
    · exact mem_cons_of_mem _ (admitted.parentsEarlier parent present spent)
    · exact mem_cons_self
  · refine pairwise_cons.mpr ⟨fun first member => ⟨known first member, fun step => ?_⟩, ?_⟩
    · rcases (spends first entry.tx.hash).mp step with (old | ⟨same, -⟩) | ⟨-, tx, held, rfl, spent⟩
      · obtain ⟨-, present⟩ := pool.within_spends first entry.tx.hash old
        exact ne_of_existsTx admitted.fresh present rfl
      · exact known first member same
      · exact admitted.childrenLater tx held member spent
    · refine returning.ordered.imp_of_mem fun laterMember member unrelated =>
        ⟨unrelated.1, fun step => ?_⟩
      exact unrelated.2 (between _ _ member laterMember step)
  · intro hash member
    rw [existsTx_addUnchecked setAncestors admitted.fresh]
    exact (mem_cons.mp member).imp_right (returning.present hash)

theorem Counted.addUncheckedAlone (returning : Returning pool earlier)
    (counted : Counted stat pool (LinkedUpTo pool.Spends earlier []))
    (admitted : AdmissibleFromBlock pool earlier entry) : Counted stat (pool.addUncheckedAlone entry)
      (LinkedUpTo (pool.addUncheckedAlone entry).Spends (entry.tx.hash :: earlier) []) := by
  obtain ⟨distinct, ancestors⟩ :=
    mem_calculateMemPoolAncestors returning.linked.within returning.linked.parents
    calculateMemPoolAncestors_unlimited
  unfold CTxMemPool.addUncheckedAlone
  rw [linkedUpTo_addUnchecked admitted]
  exact counted.addUnchecked returning.linked ancestors admitted.toAdmissible distinct

theorem Returning.foldl (returning : Returning pool earlier)
    (counted : Counted stat pool (LinkedUpTo pool.Spends earlier []))
    (admitted : Batch AdmissibleFromBlock pool earlier entries) :
    Returning (entries.foldl addUncheckedAlone pool)
      ((entries.map fun entry => entry.tx.hash).reverse ++ earlier) ∧
      Counted stat (entries.foldl addUncheckedAlone pool)
      (LinkedUpTo (entries.foldl addUncheckedAlone pool).Spends
        ((entries.map fun entry => entry.tx.hash).reverse ++ earlier) []) := by
  induction entries generalizing pool earlier with
  | nil => exact ⟨returning, counted⟩
  | cons entry entries ih =>
    rw [map_cons, reverse_cons, append_assoc]
    exact ih (returning.addUnchecked admitted.1) (counted.addUncheckedAlone returning admitted.1)
      admitted.2

theorem linkedUpTo_reverse : LinkedUpTo spends batch.reverse [] = LinkedUpTo spends batch [] := by
  funext child parent
  simp [LinkedUpTo, Accounted]

theorem Exact.updateTransactionsFromBlock (returned : Returning pool batch.reverse)
    (counted : Counted stat pool (LinkedUpTo pool.Spends batch.reverse [])) :
    Exact stat (pool.updateTransactionsFromBlock batch) := by
  have linked := returned.linked
  rw [linkedUpTo_reverse] at linked counted
  have upward : Upward pool.Spends batch := by
    intro child parent step member
    exact mem_reverse.mp (returned.upward child parent step (mem_reverse.mpr member))
  have order : ChildrenFirst pool.Spends batch [] batch.reverse :=
    childrenFirst_of_pairwise (fun hash member => .inr (mem_reverse.mpr member))
      (fun later member => absurd member not_mem_nil) returned.ordered
  obtain ⟨exactLinks, statistics⟩ :=
    exact_updateTransactionsFromBlock linked returned.indexed upward order fun hash member =>
    returned.present hash (mem_reverse.mpr member)
  have same := sameContents_updateTransactionsFromBlock pool batch
  exact ⟨⟨returned.indexed.congr same.transactions, exactLinks⟩, statistics stat counted⟩

theorem Exact.addFromBlock (exact : Exact stat pool)
    (admitted : Batch AdmissibleFromBlock pool [] entries) :
    Exact stat (pool.addFromBlock entries) := by
  have start : Counted stat pool (LinkedUpTo pool.Spends [] []) := by
    rw [linkedUpTo_empty]
    exact exact.counted
  obtain ⟨returned, counted⟩ := exact.toStructured.returning.foldl start admitted
  rw [append_nil] at returned counted
  exact .updateTransactionsFromBlock returned counted

end Returning

section Prioritisation

variable {hash : Uint256} {entry : CTxMemPoolEntry} {nFeeDelta : Int}

theorem links_prioritiseTransaction (query : Uint256) :
    (pool.prioritiseTransaction hash nFeeDelta).links query = pool.links query := by
  unfold prioritiseTransaction
  dsimp only
  split
  · rfl
  · simp only [links_modify, links_modifyEach]
    rfl

theorem Structured.prioritiseTransaction (structured : Structured pool) (hash : Uint256) :
    Structured (pool.prioritiseTransaction hash nFeeDelta) :=
  structured.congr (sameTransactions_prioritiseTransaction pool hash nFeeDelta)
    links_prioritiseTransaction

def CTxMemPool.raisedDelta (pool : CTxMemPool) (hash : Uint256) (nFeeDelta : Int) : Int :=
  wrap64 (pool.delta hash + nFeeDelta)

theorem lookup_prioritiseTransaction (structured : Structured pool)
    (found : pool.mapTx.lookup hash = some entry) (nFeeDelta : Int) :
    ∃ ancestors : List Uint256, hash ∉ ancestors ∧
      (∀ z, z ∈ ancestors ↔ TransGen pool.Spends hash z) ∧
      ∀ query, (pool.prioritiseTransaction hash nFeeDelta).mapTx.lookup query =
        if query ∈ ancestors then (pool.mapTx.lookup query).map
        (.updateDescendantState 0 nFeeDelta 0)
        else if query = hash then some (entry.updateFeeDelta (pool.raisedDelta hash nFeeDelta))
        else pool.mapTx.lookup query := by
  let noted : CTxMemPool :=
    { pool with mapDeltas := pool.mapDeltas.insert hash (pool.raisedDelta hash nFeeDelta) }
  let updated :=
    noted.modify (CTxMemPoolEntry.updateFeeDelta (pool.raisedDelta hash nFeeDelta)) hash
  have unfolded : pool.prioritiseTransaction hash nFeeDelta =
      updated.modifyEach (.updateDescendantState 0 nFeeDelta 0) (updated.allAncestors entry false) := by
    simp only [CTxMemPool.prioritiseTransaction, found]
    rfl
  have lookup (query : Uint256) : updated.mapTx.lookup query =
      if query = hash then some (entry.updateFeeDelta (pool.raisedDelta hash nFeeDelta))
      else pool.mapTx.lookup query := by
    rw [lookup_modify]
    split
    next same => rw [same, found, map_some]
    · rfl
  have within : updated.Within pool.Spends := by
    apply pool.within_spends.congr
    intro query
    rw [existsTx, lookup]
    split
    next same => rw [same, existsTx, found, isSome_some, isSome_some]
    · rfl
  have parents : updated.ParentsLinked pool.Spends := by
    apply structured.linked.parents.congr
    intro query
    exact congrArg TxLinks.parents links_modify
  obtain ⟨distinct, ancestors⟩ := mem_allAncestors within parents entry
  rw [structured.indexed.keyed hash entry found] at ancestors
  have itself : hash ∉ updated.allAncestors entry false := fun above =>
    structured.linked.acyclic hash ((ancestors hash).mp above)
  refine ⟨_, itself, ancestors, fun query => ?_⟩
  rw [unfolded, lookup_modifyEach distinct, lookup]
  split
  next above => rw [if_neg (ne_of_mem_of_not_mem above itself)]
  · rfl

theorem Statistic.ownOf_prioritiseTransaction (stat : Statistic direction)
    (structured : Structured pool) (found : pool.mapTx.lookup hash = some entry) (nFeeDelta : Int)
    (query : Uint256) :
    stat.ownOf (pool.prioritiseTransaction hash nFeeDelta) query =
      if query = hash then stat.own (entry.updateFeeDelta (pool.raisedDelta hash nFeeDelta))
      else stat.ownOf pool query := by
  obtain ⟨ancestors, itself, -, lookup⟩ := lookup_prioritiseTransaction structured found nFeeDelta
  unfold ownOf
  rw [lookup]
  split
  next ancestor =>
    rw [if_neg (ne_of_mem_of_not_mem ancestor itself)]
    cases pool.mapTx.lookup query with
    | none => rfl
    | some old => exact (stat.own_core _).trans (stat.own_core old).symm
  · split
    · rfl
    · rfl

structure Statistic.FeeFree (stat : Statistic direction) : Prop where
  own : ∀ delta entry, stat.own (entry.updateFeeDelta delta) = stat.own entry
  total : ∀ delta entry, stat.total (entry.updateFeeDelta delta) = stat.total entry
  descendants : ∀ fee entry, stat.total (entry.updateDescendantState 0 fee 0) = stat.total entry

theorem package_congr (same : SameTransactions pool next) (hash : Uint256) :
    next.package steps hash = pool.package steps hash := by
  ext other
  rw [mem_package, mem_package, same.existsTx_eq]

theorem prioritiseTransaction_absent (absent : pool.mapTx.lookup hash = none) (nFeeDelta : Int) :
    (pool.prioritiseTransaction hash nFeeDelta).mapTx = pool.mapTx := by
  simp [CTxMemPool.prioritiseTransaction, absent]

theorem Exact.prioritiseTransaction_feeFree (exact : Exact stat pool) (feeFree : stat.FeeFree) :
    Counted stat (pool.prioritiseTransaction hash nFeeDelta)
      (pool.prioritiseTransaction hash nFeeDelta).Spends := by
  have same := sameTransactions_prioritiseTransaction pool hash nFeeDelta
  cases found : pool.mapTx.lookup hash with
  | none =>
    have unchanged := prioritiseTransaction_absent found nFeeDelta
    rw [Counted, stat.ownOf_mapTx unchanged, same.spends_eq, funext (package_congr same)]
    exact CountedOver.of_mapTx exact.counted unchanged
  | some entry =>
    obtain ⟨ancestors, -, -, lookup⟩ :=
      lookup_prioritiseTransaction exact.toStructured found nFeeDelta
    have own : stat.ownOf (pool.prioritiseTransaction hash nFeeDelta) = stat.ownOf pool := by
      funext query
      rw [stat.ownOf_prioritiseTransaction exact.toStructured found]
      split
      next self => rw [self, feeFree.own, ownOf, found, elim_some]
      · rfl
    rw [Counted, own, same.spends_eq, funext (package_congr same)]
    apply CountedOver.congr exact.counted _ fun _ _ => rfl
    intro query changed present
    rw [lookup] at present
    split at present
    · obtain ⟨old, oldFound, rfl⟩ := map_eq_some_iff.mp present
      exact ⟨old, oldFound, feeFree.descendants nFeeDelta old⟩
    · split at present
      next self =>
        cases present
        exact ⟨entry, self ▸ found, feeFree.total _ entry⟩
      · exact ⟨changed, present, rfl⟩

end Prioritisation

theorem exact_of_no_entries (entries : pool.mapTx = ∅) (links : pool.mapLinks = ∅)
    (nextTx : pool.mapNextTx = ∅) : Exact stat pool := by
  have lookup (hash : Uint256) : pool.mapTx.lookup hash = none := by
    rw [entries, AList.lookup_empty]
  have notHeld (tx : CTransaction) : ¬ pool.Holds tx := by
    simp [Holds, lookup]
  have noLinks (hash : Uint256) : pool.links hash = {} := by
    rw [CTxMemPool.links, links, AList.lookup_empty, getD_none]
  have noSpends (child parent : Uint256) : ¬ pool.Spends child parent := by
    rintro ⟨⟨tx, held, -⟩, -⟩
    exact notHeld tx held
  refine ⟨⟨⟨?_, ?_⟩, ⟨pool.within_spends, ⟨?_, ?_⟩, ⟨?_, ?_⟩, ?_⟩⟩, ?_⟩
  · intro hash entry found
    simp [lookup] at found
  · intro outpoint tx
    simp [nextTx, notHeld]
  · intro child parent
    simp [getMemPoolParents, noLinks, noSpends]
  · intro child
    simp [getMemPoolParents, noLinks]
  · intro child parent
    simp [getMemPoolChildren, noLinks, noSpends]
  · intro parent
    simp [getMemPoolChildren, noLinks]
  · exact fun hash => not_transGen_of_source (noSpends hash) hash
  · intro hash entry found
    simp [lookup] at found

theorem Exact.run (exact : Exact stat pool) (legal : Legal pool operation)
    (prioritised : ∀ hash nFeeDelta, operation = .prioritiseTransaction hash nFeeDelta →
      Counted stat (pool.prioritiseTransaction hash nFeeDelta)
      (pool.prioritiseTransaction hash nFeeDelta).Spends) :
    Exact stat (operation.run pool) := by
  have kept := removalInvariant_exact stat
  cases operation with
  | addUnchecked entry limits => exact exact.addWithin legal.1 legal.2
  | addFromBlock entries => exact exact.addFromBlock legal
  | removeRecursive tx => exact kept.removeRecursive exact
  | removeForBlock vtx =>
    exact exact.removeForBlock legal.1 legal.2 (fun _ held => held) fun _ member =>
      absurd member not_mem_nil
  | removeWithAnchor invalidRoot => exact kept.removeWithAnchor exact
  | expire time => exact kept.expire exact
  | trimToSize policy sizelimit => exact kept.trimLoop exact
  | prioritiseTransaction hash nFeeDelta =>
    exact ⟨exact.toStructured.prioritiseTransaction hash, prioritised hash nFeeDelta rfl⟩
  | clear => exact exact_of_no_entries rfl rfl rfl

theorem exact_of_reached (feeFree : stat.FeeFree) (reached : Reached Legal pool) :
    Exact stat pool := by
  induction reached with
  | empty => exact exact_of_no_entries rfl rfl rfl
  | step _ legal exact =>
    exact exact.run legal fun hash nFeeDelta _ => exact.prioritiseTransaction_feeFree feeFree

namespace CTxMemPool

noncomputable def ancestorsOf (pool : CTxMemPool) (hash : Uint256) :
    Finset Uint256 := pool.package pool.Spends hash

noncomputable def descendantsOf (pool : CTxMemPool) (hash : Uint256) : Finset Uint256 :=
  pool.package (Function.swap pool.Spends) hash

def valueOf (pool : CTxMemPool) (value : CTxMemPoolEntry → Int) (hash : Uint256) : Int :=
  (pool.mapTx.lookup hash).elim 0 value

end CTxMemPool

theorem sum_one_package (hash : Uint256) :
    ∑ y ∈ pool.package steps hash, pool.valueOf (fun _ => 1) y = (pool.package steps hash).card := by
  rw [Finset.sum_eq_card_nsmul (b := 1), nsmul_eq_mul, mul_one]
  intro y member
  obtain ⟨entry, found⟩ := isSome_iff_exists.mp (mem_package.mp member).1
  rw [valueOf, found, elim_some]

/-- Links, numbers, sizes and signature operations are exact in every run. -/
theorem structural_aggregates_exact (reached : Reached Legal pool) {hash : Uint256}
    {entry : CTxMemPoolEntry} (found : pool.mapTx.lookup hash = some entry) :
    (∀ other, other ∈ pool.getMemPoolParents hash ↔ pool.Spends hash other) ∧
    (∀ other, other ∈ pool.getMemPoolChildren hash ↔ pool.Spends other hash) ∧
    entry.nCountWithAncestors = (pool.ancestorsOf hash).card ∧
    entry.nSizeWithAncestors = ∑ y ∈ pool.ancestorsOf hash,
      pool.valueOf (fun other => other.nTxSize) y ∧
    entry.nSigOpCountWithAncestors = ∑ y ∈ pool.ancestorsOf hash,
      pool.valueOf (fun other => other.sigOpCount) y ∧
    entry.nCountWithDescendants = (pool.descendantsOf hash).card ∧
    entry.nSizeWithDescendants = ∑ y ∈ pool.descendantsOf hash,
      pool.valueOf (fun other => other.nTxSize) y := by
  have ancestorCount : Exact countWithAncestors pool :=
    exact_of_reached ⟨fun _ _ => rfl, fun _ _ => rfl, fun _ _ => rfl⟩ reached
  have ancestorSize : Exact sizeWithAncestors pool :=
    exact_of_reached ⟨fun _ _ => rfl, fun _ _ => rfl, fun _ _ => rfl⟩ reached
  have ancestorSigOps : Exact sigOpCountWithAncestors pool :=
    exact_of_reached ⟨fun _ _ => rfl, fun _ _ => rfl, fun _ _ => rfl⟩ reached
  have descendantCount : Exact countWithDescendants pool :=
    exact_of_reached ⟨fun _ _ => rfl, fun _ _ => rfl, fun _ _ => Int.add_zero _⟩ reached
  have descendantSize : Exact sizeWithDescendants pool :=
    exact_of_reached ⟨fun _ _ => rfl, fun _ _ => rfl, fun _ _ => Int.add_zero _⟩ reached
  refine ⟨ancestorCount.linked.parents.member hash,
    fun other => ancestorCount.linked.children.member, ?_, ancestorSize.counted hash entry found,
    ancestorSigOps.counted hash entry found, ?_, descendantSize.counted hash entry found⟩
  · exact (ancestorCount.counted hash entry found).trans (sum_one_package hash)
  · exact (descendantCount.counted hash entry found).trans (sum_one_package hash)

/-! A transaction and one that spends from it. -/

namespace SampleFamily

def parentTx : CTransaction where
  hash := 7
  nVersion := 1
  vin := [⟨⟨1, 0⟩, [], 0⟩]
  vout := [{ nValue := 50, scriptPubKey := [] }]

def childTx : CTransaction where
  hash := 8
  nVersion := 1
  vin := [⟨⟨7, 0⟩, [], 0⟩]
  vout := [{ nValue := 40, scriptPubKey := [] }]

def parentEntry : CTxMemPoolEntry := .new parentTx 10 0 200 1 false

def childEntry : CTxMemPoolEntry := .new childTx 10 0 150 2 false

def one : CTxMemPool := Operation.run {} (.addUnchecked parentEntry {})

def family : CTxMemPool := Operation.run one (.addUnchecked childEntry {})

theorem holds_one (held : one.Holds tx) : tx = parentTx := by
  have entered : one = CTxMemPool.addUnchecked {} parentEntry [] := rfl
  rw [entered, holds_addUnchecked rfl] at held
  exact held.resolve_right not_holds_empty

theorem legal_parent : Legal {} (.addUnchecked parentEntry {}) where
  left := ⟨⟨by decide, by decide, fun tx held => absurd held not_holds_empty,
    fun tx held => absurd held not_holds_empty⟩,
    ⟨parentTx, 10, 0, 200, 1, false, by decide, rfl⟩, by decide⟩
  right tx held := absurd held not_holds_empty

theorem legal_child : Legal one (.addUnchecked childEntry {}) where
  left := by
    refine ⟨⟨by decide, by decide, fun tx held => ?_, fun tx held => ?_⟩,
      ⟨childTx, 10, 0, 150, 2, false, by decide, rfl⟩, by decide⟩
    · cases holds_one held
      decide
    · have none : nullifiers childTx = [] := rfl
      intro nullifier member
      cases member
  right tx held := by
    cases holds_one held
    decide

theorem family_eq : family = one.addUnchecked childEntry [7] := rfl

theorem holds_family : family.Holds tx ↔ tx = childTx ∨ tx = parentTx := by
  rw [family_eq, holds_addUnchecked rfl]
  refine or_congr_right ⟨holds_one, ?_⟩
  rintro rfl
  decide

end SampleFamily

open SampleFamily in
theorem structural_aggregates_exact_family :
    Reached Legal family ∧ (family.ancestorsOf 8).card = 2 ∧ (family.descendantsOf 8).card = 1 := by
  have reached : Reached Legal family := .step (.step .empty legal_parent) legal_child
  obtain ⟨entry, found⟩ : ∃ entry, family.mapTx.lookup 8 = some entry := ⟨_, rfl⟩
  have counts : entry.nCountWithAncestors = 2 ∧ entry.nCountWithDescendants = 1 := by
    cases found
    decide
  obtain ⟨-, -, ancestors, -, -, descendants, -⟩ := structural_aggregates_exact reached found
  exact ⟨reached, by omega, by omega⟩

end Deviant.Mempool
