import Deviant.Mempool.Packages

namespace Deviant.Mempool

open CTxMemPool CTxMemPoolEntry Data Finset Option Primitives Relation Statistic

/-! Fees of packages.  They count with the deltas of `PrioritiseTransaction`, which may be on record
for a transaction before it enters the pool and stay on record when it leaves. -/

variable {pool next : CTxMemPool} {hash : Uint256} {entry : CTxMemPoolEntry} {nFeeDelta : Int}

def DeltasKept (pool : CTxMemPool) : Prop :=
  ∀ hash entry, pool.mapTx.lookup hash = some entry → entry.feeDelta = pool.delta hash

theorem feeDelta_of_core {old : CTxMemPoolEntry} (same : old.core = entry.core) :
    old.feeDelta = entry.feeDelta := by
  have delta := congrArg feeDelta same
  exact delta

theorem DeltasKept.congr (kept : DeltasKept pool) (core : ∀ hash, next.existsTx hash = true →
      (next.mapTx.lookup hash).map core = (pool.mapTx.lookup hash).map core)
    (deltas : ∀ hash, next.existsTx hash = true → next.delta hash = pool.delta hash) :
    DeltasKept next := by
  intro hash entry found
  have present := existsTx_of_lookup found
  have same := core hash present
  rw [found, map_some] at same
  obtain ⟨old, oldFound, oldCore⟩ := map_eq_some_iff.mp same.symm
  rw [deltas hash present, ← kept hash old oldFound, feeDelta_of_core oldCore]

theorem DeltasKept.removeStaged (kept : DeltasKept pool) :
    DeltasKept (pool.removeStaged stage updateDescendants) := by
  apply kept.congr
  · intro hash present
    rw [existsTx_removeStaged, Bool.and_eq_true, decide_eq_true_eq] at present
    rw [core_removeStaged, if_neg present.2]
  · intro hash _
    rw [delta, removeStaged_mapDeltas, delta]

theorem delta_clearPrioritisation :
    (pool.clearPrioritisation hash).delta query = if query = hash then 0 else pool.delta query := by
  unfold delta clearPrioritisation
  rw [Table.lookup_erase_eq]
  split
  · rfl
  · rfl

theorem removalInvariant_deltasKept : RemovalInvariant DeltasKept where
  staged kept _ := kept.removeStaged
  delta := by
    intro pool kept hash absent
    refine DeltasKept.congr kept (fun _ _ => rfl) fun query present => ?_
    rw [delta_clearPrioritisation, if_neg (ne_of_existsTx absent present)]

theorem feeDelta_prioritised (noDelta : entry.feeDelta = 0) (delta : Int) :
    (entry.prioritised delta).feeDelta = delta := by
  unfold prioritised
  split
  next zero => rw [noDelta, zero]
  · rfl

theorem DeltasKept.addUnchecked (kept : DeltasKept pool) (admitted : Admissible pool entry) :
    DeltasKept (pool.addUnchecked entry setAncestors) := by
  intro hash found present
  have core := core_addUnchecked setAncestors admitted.fresh hash
  rw [present, map_some] at core
  rw [delta, mapDeltas_addUnchecked]
  split at core
  next same =>
    obtain ⟨tx, nFee, nTime, nTxSize, sigOpCount, spendsCoinbaseOrCoinstake, -, built⟩ :=
      admitted.built
    have noDelta : entry.feeDelta = 0 := by
      rw [built]
      rfl
    rw [feeDelta_of_core (Option.some.inj core), feeDelta_prioritised noDelta, same]
    rfl
  · obtain ⟨old, oldFound, oldCore⟩ := map_eq_some_iff.mp core.symm
    rw [← feeDelta_of_core oldCore]
    exact kept hash old oldFound

theorem delta_prioritiseTransaction : (pool.prioritiseTransaction hash nFeeDelta).delta query =
      if query = hash then pool.raisedDelta hash nFeeDelta else pool.delta query := by
  have noted : (pool.prioritiseTransaction hash nFeeDelta).mapDeltas =
      pool.mapDeltas.insert hash (pool.raisedDelta hash nFeeDelta) := by
    unfold prioritiseTransaction
    dsimp only
    split
    · rfl
    · simp only [modifyEach_mapDeltas, modify_mapDeltas]
      rfl
  rw [delta, noted, Table.lookup_insert_eq]
  split
  · rfl
  · rfl

theorem DeltasKept.prioritiseTransaction (kept : DeltasKept pool) (structured : Structured pool) :
    DeltasKept (pool.prioritiseTransaction hash nFeeDelta) := by
  intro query changed present
  rw [delta_prioritiseTransaction]
  cases found : pool.mapTx.lookup hash with
  | none =>
    rw [prioritiseTransaction_absent found] at present
    have different : query ≠ hash := by
      rintro rfl
      rw [found] at present
      cases present
    rw [if_neg different]
    exact kept query changed present
  | some entry =>
    obtain ⟨ancestors, itself, -, lookup⟩ := lookup_prioritiseTransaction structured found nFeeDelta
    rw [lookup] at present
    split at present
    next ancestor =>
      obtain ⟨old, oldFound, rfl⟩ := map_eq_some_iff.mp present
      rw [if_neg (ne_of_mem_of_not_mem ancestor itself)]
      exact kept query old oldFound
    · split at present
      next same =>
        cases present
        rw [if_pos same]
        rfl
      next different =>
        rw [if_neg different]
        exact kept query changed present

theorem DeltasKept.run (kept : DeltasKept pool) (structured : Structured pool)
    (legal : Legal pool operation) : DeltasKept (operation.run pool) := by
  cases operation with
  | addUnchecked entry limits =>
    simp only [Operation.run, addWithin]
    split
    · exact kept.addUnchecked legal.1
    · exact kept
  | addFromBlock entries =>
    have added : DeltasKept (entries.foldl addUncheckedAlone pool) :=
      foldl_addUncheckedAlone (fun _ _ _ kept admitted => kept.addUnchecked admitted.toAdmissible)
        kept legal
    have same := sameContents_updateTransactionsFromBlock (entries.foldl addUncheckedAlone pool)
      (entries.map fun entry => entry.tx.hash)
    apply added.congr fun query _ => same.core query
    intro query _
    exact congrArg (fun deltas : Table Uint256 Int => (deltas.lookup query).getD 0) same.deltas
  | removeRecursive tx => exact removalInvariant_deltasKept.removeRecursive kept
  | removeForBlock vtx =>
    apply RemovalInvariant.foldl _ kept
    intro pool tx kept
    exact removalInvariant_deltasKept.removeForBlockTx kept tx fun _ => kept.removeStaged
  | removeWithAnchor invalidRoot => exact removalInvariant_deltasKept.removeWithAnchor kept
  | expire time => exact removalInvariant_deltasKept.expire kept
  | trimToSize policy sizelimit => exact removalInvariant_deltasKept.trimLoop kept
  | prioritiseTransaction hash nFeeDelta => exact kept.prioritiseTransaction structured
  | clear =>
    intro hash entry found
    simp [Operation.run, clear] at found

section Fees

variable {direction : Direction} {stat : Statistic direction} {members : Uint256 → Finset Uint256}
  {own raised : Uint256 → Int}

theorem CountedOver.raise (counted : CountedOver stat pool members own)
    (totals : ∀ query changed, next.mapTx.lookup query = some changed →
      ∃ old, pool.mapTx.lookup query = some old ∧ stat.total changed =
      if hash ∈ members query then stat.round (stat.total old + nFeeDelta) else stat.total old)
    (others : ∀ y, y ≠ hash → raised y = own y)
    (itself : ∀ a, stat.round (a + raised hash) = stat.round (a + own hash + nFeeDelta)) :
    CountedOver stat next members raised := by
  intro query changed found
  obtain ⟨old, oldFound, total⟩ := totals query changed found
  have without (set : Finset Uint256) (outside : hash ∉ set) :
      ∑ y ∈ set, raised y = ∑ y ∈ set, own y :=
    sum_congr rfl fun y member => others y fun same => outside (same ▸ member)
  rw [total, counted query old oldFound]
  split
  next inside =>
    rw [stat.round_add, ← add_sum_erase _ own inside, ← add_sum_erase _ raised inside,
      without _ (notMem_erase hash _), Int.add_comm (raised hash), itself]
    congr 1
    omega
  next outside => rw [without _ outside]

theorem getModifiedFee_updateFeeDelta (delta : Int) :
    (entry.updateFeeDelta delta).getModifiedFee = wrap64 (entry.nFee + delta) := rfl

theorem wrap64_add_raised (kept : entry.feeDelta = pool.delta hash) :
    wrap64 (a + (entry.updateFeeDelta (pool.raisedDelta hash nFeeDelta)).getModifiedFee) =
      wrap64 (a + entry.getModifiedFee + nFeeDelta) := by
  rw [getModifiedFee_updateFeeDelta, raisedDelta, getModifiedFee, kept]
  calc wrap64 (a + wrap64 (entry.nFee + wrap64 (pool.delta hash + nFeeDelta)))
      = wrap64 (a + entry.nFee + (pool.delta hash + nFeeDelta)) := by
        rw [wrap64_add_wrap64, ← Int.add_assoc, wrap64_add_wrap64]
    _ = wrap64 (a + nFeeDelta + (entry.nFee + pool.delta hash)) := by
        congr 1
        omega
    _ = wrap64 (a + wrap64 (entry.nFee + pool.delta hash) + nFeeDelta) := by
        rw [← wrap64_add_wrap64, Int.add_right_comm]

theorem wrap64_add_change (kept : entry.feeDelta = pool.delta hash) (total : Int) :
    wrap64 (total + wrap64 (pool.raisedDelta hash nFeeDelta - entry.feeDelta)) =
      wrap64 (total + nFeeDelta) := by
  have left : total + (wrap64 (pool.delta hash + nFeeDelta) - pool.delta hash) =
      total - pool.delta hash + wrap64 (pool.delta hash + nFeeDelta) := by
    omega
  rw [wrap64_add_wrap64, raisedDelta, kept, left, wrap64_add_wrap64]
  congr 1
  omega

structure Statistic.OfFees (stat : Statistic direction) : Prop where
  own : stat.own = getModifiedFee
  round : stat.round = wrap64
  change : ∀ fee, stat.change 0 fee 0 0 = fee
  total : ∀ delta entry,
    stat.total (entry.updateFeeDelta delta) = wrap64 (stat.total entry + wrap64 (delta - entry.feeDelta))

theorem Statistic.OfFees.total_updateDescendantState (ofFees : stat.OfFees) :
    stat.total (old.updateDescendantState 0 nFeeDelta 0) =
      if direction = .descendants then stat.round (stat.total old + nFeeDelta)
      else stat.total old := by
  cases direction with
  | ancestors => exact stat.total_other 0 nFeeDelta 0 0 old
  | descendants =>
    have updated := stat.total_update 0 nFeeDelta 0 0 old
    rw [ofFees.change] at updated
    exact updated

/-- Prioritisation reaches the totals of the entry and, towards the descendants, those of its
ancestors. -/
def Reaches (direction : Direction) (pool : CTxMemPool) (hash query : Uint256) : Prop :=
  query = hash ∨ direction = .descendants ∧ TransGen pool.Spends hash query

open Classical in
theorem Statistic.OfFees.total_prioritiseTransaction (ofFees : stat.OfFees)
    (structured : Structured pool) (kept : DeltasKept pool)
    (found : pool.mapTx.lookup hash = some entry)
    (changedFound : (pool.prioritiseTransaction hash nFeeDelta).mapTx.lookup query = some changed) :
    ∃ old, pool.mapTx.lookup query = some old ∧ stat.total changed =
      if Reaches direction pool hash query then stat.round (stat.total old + nFeeDelta)
      else stat.total old := by
  obtain ⟨ancestors, itself, above, lookup⟩ :=
    lookup_prioritiseTransaction structured found nFeeDelta
  unfold Reaches
  rw [lookup] at changedFound
  split at changedFound
  next ancestor =>
    obtain ⟨old, oldFound, rfl⟩ := map_eq_some_iff.mp changedFound
    have different : query ≠ hash := ne_of_mem_of_not_mem ancestor itself
    refine ⟨old, oldFound, ofFees.total_updateDescendantState.trans ?_⟩
    simp [different, (above query).mp ancestor]
  next other =>
    split at changedFound
    next same =>
      cases changedFound
      refine ⟨entry, same ▸ found, ?_⟩
      rw [if_pos (.inl same), ofFees.total, ofFees.round]
      exact wrap64_add_change (kept hash entry found) _
    next different =>
      refine ⟨changed, changedFound, ?_⟩
      rw [if_neg]
      rintro (same | ⟨-, path⟩)
      · exact different same
      · exact other ((above query).mpr path)

theorem mem_package_iff_reaches (present : pool.existsTx hash = true)
    (childless : direction = .ancestors → ∀ child, ¬ pool.Spends child hash) (query : Uint256) :
    hash ∈ pool.package (direction.steps pool.Spends) query ↔ Reaches direction pool hash query := by
  cases direction with
  | ancestors =>
    rw [mem_package]
    constructor
    · rintro ⟨-, path⟩
      rcases path.cases_tail with same | ⟨child, -, step⟩
      · exact .inl same.symm
      · exact absurd step (childless rfl child)
    · rintro (rfl | ⟨other, -⟩)
      · exact ⟨present, .refl⟩
      · cases other
  | descendants =>
    rw [mem_package_descendants, reflTransGen_iff_eq_or_transGen]
    exact ⟨fun ⟨_, path⟩ => path.imp_right fun above => ⟨rfl, above⟩,
      fun path => ⟨present, path.imp_right And.right⟩⟩

theorem Exact.prioritiseTransaction_fees (exact : Exact stat pool) (ofFees : stat.OfFees)
    (kept : DeltasKept pool)
    (childless : direction = .ancestors → nFeeDelta = 0 ∨ ∀ child, ¬ pool.Spends child hash) :
    Counted stat (pool.prioritiseTransaction hash nFeeDelta)
      (pool.prioritiseTransaction hash nFeeDelta).Spends := by
  have same := sameTransactions_prioritiseTransaction pool hash nFeeDelta
  rw [Counted, same.spends_eq, funext (package_congr same)]
  cases found : pool.mapTx.lookup hash with
  | none =>
    have unchanged := prioritiseTransaction_absent found nFeeDelta
    rw [stat.ownOf_mapTx unchanged]
    exact CountedOver.of_mapTx exact.counted unchanged
  | some entry =>
    have present := existsTx_of_lookup found
    have own := stat.ownOf_prioritiseTransaction exact.toStructured found nFeeDelta
    apply CountedOver.raise exact.counted
    · intro query changed changedFound
      obtain ⟨old, oldFound, total⟩ :=
        ofFees.total_prioritiseTransaction exact.toStructured kept found changedFound
      refine ⟨old, oldFound, total.trans ?_⟩
      by_cases zero : nFeeDelta = 0
      · -- nothing is added, wherever it is added
        have stable : stat.round (stat.total old + nFeeDelta) = stat.total old := by
          rw [exact.counted query old oldFound, stat.round_add, zero, Int.add_zero]
        rw [stable, ite_self, ite_self]
      · have inside :=
          mem_package_iff_reaches present (fun up => (childless up).resolve_left zero) query
        by_cases reached : Reaches direction pool hash query
        · rw [if_pos reached, if_pos (inside.mpr reached)]
        · rw [if_neg reached, if_neg (mt inside.mp reached)]
    · intro y different
      rw [own, if_neg different]
    · intro a
      rw [own, if_pos rfl, ownOf, found, elim_some, ofFees.own, ofFees.round]
      exact wrap64_add_raised (kept hash entry found)

end Fees

def PrioritisesChildless (pool : CTxMemPool) : Operation → Prop
  | .prioritiseTransaction hash nFeeDelta => nFeeDelta = 0 ∨ ∀ child, ¬ pool.Spends child hash
  | _ => True

structure FeesExact (pool : CTxMemPool) : Prop where
  ancestors : Exact modFeesWithAncestors pool
  descendants : Exact modFeesWithDescendants pool
  deltas : DeltasKept pool

theorem ofFees_ancestors : modFeesWithAncestors.OfFees := ⟨rfl, rfl, fun _ => rfl, fun _ _ => rfl⟩

theorem ofFees_descendants :
    modFeesWithDescendants.OfFees := ⟨rfl, rfl, fun _ => rfl, fun _ _ => rfl⟩

theorem FeesExact.run (exact : FeesExact pool) (legal : Legal pool operation)
    (prioritises : PrioritisesChildless pool operation) : FeesExact (operation.run pool) where
  ancestors := by
    apply exact.ancestors.run legal
    rintro hash nFeeDelta rfl
    exact exact.ancestors.prioritiseTransaction_fees ofFees_ancestors exact.deltas fun _ =>
      prioritises
  descendants := by
    apply exact.descendants.run legal
    rintro hash nFeeDelta rfl
    apply exact.descendants.prioritiseTransaction_fees ofFees_descendants exact.deltas
    intro other
    cases other
  deltas := exact.deltas.run exact.ancestors.toStructured legal

theorem feesExact_of_reached
    (reached : Reached (fun pool operation => Legal pool operation ∧
      PrioritisesChildless pool operation) pool) :
    FeesExact pool := by
  induction reached with
  | empty =>
    refine ⟨exact_of_no_entries rfl rfl rfl, exact_of_no_entries rfl rfl rfl, ?_⟩
    intro hash entry found
    simp at found
  | step _ allowed exact => exact exact.run allowed.1 allowed.2

def CTxMemPool.modifiedFee (pool : CTxMemPool) (hash : Uint256) : Int :=
  pool.valueOf (fun entry => entry.nFee + pool.delta hash) hash

theorem wrap64_sum (f : Uint256 → Int) (set : Finset Uint256) :
    wrap64 (∑ y ∈ set, wrap64 (f y)) = wrap64 (∑ y ∈ set, f y) := by
  induction set using Finset.induction_on with
  | empty => rfl
  | insert y set fresh ih =>
    rw [sum_insert fresh, sum_insert fresh, wrap64_wrap64_add, ← wrap64_add_wrap64, ih,
      wrap64_add_wrap64]

theorem wrap64_sum_ownOf {direction : Direction} {stat : Statistic direction} (ofFees : stat.OfFees)
    (kept : DeltasKept pool) (set : Finset Uint256) :
    wrap64 (∑ y ∈ set, stat.ownOf pool y) = wrap64 (∑ y ∈ set, pool.modifiedFee y) := by
  rw [← wrap64_sum pool.modifiedFee]
  congr 1
  apply sum_congr rfl
  intro y _
  cases found : pool.mapTx.lookup y with
  | none =>
    rw [ownOf, modifiedFee, valueOf, found]
    rfl
  | some entry =>
    rw [ownOf, modifiedFee, valueOf, found, elim_some, elim_some, ofFees.own, getModifiedFee,
      kept y entry found]

/-- When deltas are only given to transactions without children in the pool, the fees of packages
are those of their entries. -/
theorem fee_aggregates_exact
    (reached : Reached (fun pool operation => Legal pool operation ∧
      PrioritisesChildless pool operation) pool)
    (found : pool.mapTx.lookup hash = some entry) :
    entry.nModFeesWithAncestors = wrap64 (∑ y ∈ pool.ancestorsOf hash, pool.modifiedFee y) ∧
    entry.nModFeesWithDescendants = wrap64 (∑ y ∈ pool.descendantsOf hash, pool.modifiedFee y) := by
  have exact := feesExact_of_reached reached
  constructor
  · exact (exact.ancestors.counted hash entry found).trans
      (wrap64_sum_ownOf ofFees_ancestors exact.deltas _)
  · exact (exact.descendants.counted hash entry found).trans
      (wrap64_sum_ownOf ofFees_descendants exact.deltas _)

/-! A transaction with a child: a delta for the child counts in both, and one for the parent is
missing from what the child knows of its ancestors. -/

namespace SampleFamily

theorem existsTx_family : family.existsTx query = true ↔ query = 7 ∨ query = 8 := by
  have entered : one = addUnchecked {} parentEntry [] := rfl
  rw [family_eq, existsTx_addUnchecked [7] (by decide), entered,
    existsTx_addUnchecked [] (by decide)]
  constructor
  · rintro (rfl | rfl | none)
    · exact .inr rfl
    · exact .inl rfl
    · simp [existsTx] at none
  · rintro (rfl | rfl)
    · exact .inr (.inl rfl)
    · exact .inl rfl

def childRaised : CTxMemPool := Operation.run family (.prioritiseTransaction 8 1000)

def parentRaised : CTxMemPool := Operation.run family (.prioritiseTransaction 7 1000)

theorem ancestorsOf_child : parentRaised.ancestorsOf 8 = {7, 8} := by
  have same : SameTransactions family parentRaised :=
    sameTransactions_prioritiseTransaction family 7 1000
  have step : family.Spends 8 7 :=
    ⟨⟨childTx, holds_family.mpr (.inl rfl), rfl, by decide⟩, by decide⟩
  have package : parentRaised.ancestorsOf 8 = family.package family.Spends 8 := by
    unfold ancestorsOf
    rw [same.spends_eq]
    exact package_congr same 8
  rw [package]
  ext query
  rw [mem_package, existsTx_family, mem_insert, mem_singleton]
  constructor
  · exact And.left
  · rintro (rfl | rfl)
    · exact ⟨.inl rfl, .single step⟩
    · exact ⟨.inr rfl, .refl⟩

end SampleFamily

open SampleFamily in
theorem fee_aggregates_exact_family :
    Reached (fun pool operation => Legal pool operation ∧ PrioritisesChildless pool operation)
      childRaised ∧
      wrap64 (∑ y ∈ childRaised.descendantsOf 7, childRaised.modifiedFee y) = 1020 := by
  have childless (child : Uint256) : ¬ family.Spends child 8 := by
    rintro ⟨⟨tx, held, -, spent⟩, -⟩
    rcases holds_family.mp held with rfl | rfl
    · exact absurd spent (by decide)
    · exact absurd spent (by decide)
  have reached :
      Reached (fun pool operation => Legal pool operation ∧ PrioritisesChildless pool operation)
      childRaised :=
    .step (.step (.step .empty ⟨legal_parent, trivial⟩) ⟨legal_child, trivial⟩) ⟨trivial,
      .inr childless⟩
  obtain ⟨entry, found⟩ : ∃ entry, childRaised.mapTx.lookup 7 = some entry := ⟨_, rfl⟩
  have fees : entry.nModFeesWithDescendants = 1020 := by
    cases found
    decide
  exact ⟨reached, (fee_aggregates_exact reached found).2.symm.trans fees⟩

open SampleFamily in
/-- The delta of the parent does not reach the child. -/
theorem parent_delta_missing_from_child :
    Reached Legal parentRaised ∧ ∃ entry, parentRaised.mapTx.lookup 8 = some entry ∧
      entry.nModFeesWithAncestors = 20 ∧
      wrap64 (∑ y ∈ parentRaised.ancestorsOf 8, parentRaised.modifiedFee y) = 1020 := by
  refine ⟨.step (.step (.step .empty legal_parent) legal_child) trivial, _, rfl, by decide, ?_⟩
  rw [ancestorsOf_child, sum_pair (by decide)]
  decide

end Deviant.Mempool
