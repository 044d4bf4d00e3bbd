import Deviant.BlockIndex.WorkOrder
import Mathlib.Data.List.TakeWhile

namespace Deviant.BlockIndex

open Data List Primitives Forest

/-! `FindMostWorkChain`: what it finds, and what it does to the candidates that it finds in vain. -/

namespace BlockTree

variable {env : IndexEnv} {before tree after : BlockTree} {forest : Forest Uint256}
  {pindex pindexNew pindexTest : Uint256}
  {above : List Uint256}

theorem statusOf_setStatus (other : Uint256) :
    (tree.setStatus pindex nStatus).statusOf other = if other = pindex then nStatus
      else tree.statusOf other := by
  unfold statusOf setStatus
  rw [deref_setEntry]
  split <;> rfl

theorem alike_setStatus (known : tree.Known pindex)
    (haveData : nStatus.haveData = (tree.statusOf pindex).haveData) :
    Alike tree (tree.setStatus pindex nStatus) := by
  refine alike_setEntry known ?_
  unfold bare
  rw [haveData]
  rfl

structure Dropped (above : List Uint256) (gone : Uint256 → Bool) (tree after : BlockTree) :
    Prop where
  alike : Alike tree after
  status : ∀ pindex, after.statusOf pindex =
    if pindex ∈ above then { tree.statusOf pindex with failedChild := true } else tree.statusOf pindex
  candidates : after.setBlockIndexCandidates = tree.setBlockIndexCandidates.filter fun c => !gone c
  chainActive : after.chainActive = tree.chainActive

theorem dropped_dropBlock (fFailedChain : Bool) (known : tree.Known pindex) :
    Dropped (if fFailedChain then [pindex] else []) (fun c => decide (c = pindex)) tree
      (tree.dropBlock fFailedChain pindex) := by
  cases fFailedChain with
  | false =>
    exact ⟨Alike.refl tree, fun _ => by simp [dropBlock, eraseCandidate, statusOf, deref],
      by simp [dropBlock, eraseCandidate], rfl⟩
  | true =>
    refine ⟨alike_setStatus known rfl,
      fun other => ?_, by simp [dropBlock, eraseCandidate, setStatus, setEntry], rfl⟩
    show (tree.setStatus pindex _).statusOf other = _
    rw [statusOf_setStatus]
    simp only [if_true, mem_singleton]
    split
    next same => rw [same]
    · rfl

theorem Dropped.trans (first : Dropped firstAbove firstGone tree middle)
    (last : Dropped lastAbove lastGone middle after) :
    Dropped (firstAbove ++ lastAbove) (fun c => firstGone c || lastGone c) tree after where
  alike := first.alike.trans last.alike
  status pindex := by
    rw [last.status, first.status]
    by_cases inFirst : pindex ∈ firstAbove <;> by_cases inLast :
      pindex ∈ lastAbove <;> simp [inFirst]
  candidates := by
    rw [last.candidates, first.candidates, filter_filter]
    congr 1
    funext c
    rw [Bool.not_or, Bool.and_comm]
  chainActive := last.chainActive.trans first.chainActive

theorem dropped_foldl (fFailedChain : Bool) (above : List Uint256) :
    ∀ {tree : BlockTree}, (∀ pindex ∈ above, tree.Known pindex) →
      Dropped (if fFailedChain then above else []) (fun c => decide (c ∈ above)) tree
      (above.foldl (fun tree pindexFailed => tree.dropBlock fFailedChain pindexFailed) tree) := by
  induction above with
  | nil =>
    intro tree _
    exact ⟨Alike.refl tree, fun _ => by simp, by simp, rfl⟩
  | cons pindex above hyp =>
    intro tree known
    have first := dropped_dropBlock fFailedChain (known pindex mem_cons_self)
    have rest := hyp fun other member =>
      (first.alike.known other).trans (known other (mem_cons_of_mem _ member))
    have both := first.trans rest
    cases fFailedChain <;> simpa [Bool.decide_or] using both

theorem dropped_noteInvalid : Dropped [] (fun _ => false) tree (tree.noteInvalid pindex) := by
  unfold noteInvalid
  split
  · exact ⟨Alike.refl tree, fun _ => by simp [statusOf, deref], by simp, rfl⟩
  · exact ⟨Alike.refl tree, fun _ => by simp, by simp, rfl⟩

theorem dropped_dropBranch (known : ∀ other ∈ above, tree.Known other) :
    Dropped (if (tree.statusOf pindexTest).failed then above else [])
      (fun c => decide (c ∈ above) || decide (c = pindexTest)) tree
      (tree.dropBranch pindexNew above pindexTest) := by
  have erased (last : BlockTree) :
      Dropped [] (fun c => decide (c = pindexTest)) last (last.eraseCandidate pindexTest) :=
    ⟨Alike.refl last,
      fun _ => by simp [statusOf, deref, eraseCandidate], by simp [eraseCandidate], rfl⟩
  unfold dropBranch
  cases (tree.statusOf pindexTest).failed with
  | false => simpa using (dropped_foldl false above known).trans (erased _)
  | true =>
    have noted := @dropped_noteInvalid tree pindexNew
    have marked := dropped_foldl true above fun other member =>
      (noted.alike.known other).trans (known other member)
    simpa using (noted.trans marked).trans (erased _)

theorem mapBlocksUnlinked_foldl (fFailedChain : Bool) (above : List Uint256) (tree : BlockTree) :
    (above.foldl (fun tree pindexFailed => tree.dropBlock fFailedChain pindexFailed)
      tree).mapBlocksUnlinked =
      tree.mapBlocksUnlinked ++ if fFailedChain then []
        else above.flatMap fun pindex =>
        ((tree.parentOf pindex).map fun pprev => (pprev, pindex)).toList := by
  induction above generalizing tree with
  | nil => simp
  | cons pindex above hyp =>
    rw [foldl_cons, hyp]
    cases fFailedChain <;> simp [dropBlock, eraseCandidate, setStatus, setEntry, parentOf, deref]

/-- What the search relies on: the active chain has no gaps, and a candidate has its data and was
linked once. -/
structure Searchable (tree : BlockTree) (forest : Forest Uint256) : Prop where
  parentOf : tree.parentOf = forest.parent
  heightOf : tree.heightOf = forest.height
  active : ∀ a ∈ tree.chainActive, ∀ b ∈ forest.ancestry a, b ∈ tree.chainActive
  candidates : ∀ c ∈ tree.setBlockIndexCandidates, (tree.statusOf c).haveData = true ∧
    ∀ a ∈ forest.ancestry c, tree.Known a ∧ tree.linkedOrRoot a = true

/-- No block on the path to the active chain has failed or lacks its data. -/
def Free (tree : BlockTree) (pindex : Uint256) :
    Prop := ∀ a ∈ tree.branch pindex, tree.unusable a = false

def Waits (before tree : BlockTree) (pindex : Uint256) : Prop :=
  ∃ pprev, before.parentOf pindex = some pprev ∧ (pprev, pindex) ∈ tree.mapBlocksUnlinked

/-- The index in the course of the search.  A mark comes from the parent; a lost candidate is marked
or waits. -/
structure Searched (before tree : BlockTree) : Prop where
  alike : Alike before tree
  chainActive : tree.chainActive = before.chainActive
  marked : ∀ pindex, tree.statusOf pindex = before.statusOf pindex ∨
    tree.statusOf pindex = { before.statusOf pindex with failedChild := true } ∧
      ∃ pprev, before.parentOf pindex = some pprev ∧ pprev ∉ before.chainActive ∧
      (tree.statusOf pprev).failed = true
  kept : ∀ pindex ∈ tree.setBlockIndexCandidates, pindex ∈ before.setBlockIndexCandidates
  dropped : ∀ pindex ∈ before.setBlockIndexCandidates, pindex ∉ tree.setBlockIndexCandidates →
    pindex ∉ before.chainActive ∧ ((tree.statusOf pindex).failed = true ∨
      (∃ a ∈ before.branch pindex, (before.statusOf a).haveData = false) ∧ Waits before tree pindex)

theorem Searched.refl (tree : BlockTree) : Searched tree tree :=
  ⟨.refl _, rfl, fun _ => .inl rfl, fun _ => id, fun _ here gone => absurd here gone⟩

section

variable (searchable : before.Searchable forest)

include searchable

theorem Searchable.ancestors : before.ancestors = forest.ancestry := by
  unfold BlockTree.ancestors Forest.ancestry
  rw [searchable.parentOf, searchable.heightOf]

theorem Searchable.mem_branch :
    a ∈ before.branch pindex ↔ a ∈ forest.ancestry pindex ∧ a ∉ before.chainActive := by
  unfold BlockTree.branch
  rw [searchable.ancestors]
  constructor
  · intro member
    have outside := mem_takeWhile_imp member
    exact ⟨takeWhile_subset _ member, by simpa using outside⟩
  · rintro ⟨member, outside⟩
    refine mem_takeWhile_of_inherited (fun b c active inside => ?_) member (by simpa using outside)
    rw [contains_iff_mem] at active ⊢
    exact searchable.active b active c inside

variable (searched : Searched before tree)

include searched

omit searchable in
theorem Searched.branch : tree.branch pindex = before.branch pindex := by
  unfold BlockTree.branch ancestors
  rw [searched.alike.parentOf, searched.alike.heightOf, searched.chainActive]

omit searchable in
theorem Searched.usable (usable : tree.unusable pindex = false) :
    before.unusable pindex = false := by
  unfold unusable at usable ⊢
  rw [searched.alike.haveData] at usable
  rcases searched.marked pindex with same | ⟨same, -⟩
  · rwa [same] at usable
  · simp [same, BlockStatus.failed] at usable

omit searchable in
theorem Searched.failedValid (pindex : Uint256) :
    (tree.statusOf pindex).failedValid = (before.statusOf pindex).failedValid := by
  rcases searched.marked pindex with same | ⟨same, -⟩ <;> rw [same]

theorem Searched.failed (outside : pindex ∉ before.chainActive)
    (failed : (tree.statusOf pindex).failed = true) :
    ∃ a ∈ before.branch pindex, (before.statusOf a).failed = true := by
  induction pindex using forest.induction with
  | root pindex top =>
    rcases searched.marked pindex with same | ⟨-, pprev, own, -⟩
    · exact ⟨pindex, searchable.mem_branch.mpr ⟨forest.mem_ancestry_self, outside⟩, same ▸ failed⟩
    · cases (searchable.parentOf ▸ own).symm.trans top
  | child pindex above own hyp =>
    rcases searched.marked pindex with same | ⟨-, pprev, parent, apart, flag⟩
    · exact ⟨pindex, searchable.mem_branch.mpr ⟨forest.mem_ancestry_self, outside⟩, same ▸ failed⟩
    · cases (searchable.parentOf ▸ parent).symm.trans own
      obtain ⟨a, member, bad⟩ := hyp apart flag
      obtain ⟨inside, left⟩ := searchable.mem_branch.mp member
      exact ⟨a, searchable.mem_branch.mpr ⟨mem_ancestry_trans (mem_ancestry_parent own) inside,
        left⟩, bad⟩

theorem Searched.failed_ancestor (flag : (tree.statusOf pindex).failed = true) :
    ∃ a ∈ forest.ancestry pindex, (before.statusOf a).failed = true := by
  rcases searched.marked pindex with same | ⟨-, pprev, own, away, failed⟩
  · exact ⟨pindex, forest.mem_ancestry_self, same ▸ flag⟩
  · obtain ⟨a, walked, bad⟩ := searched.failed searchable away failed
    rw [searchable.parentOf] at own
    exact ⟨a, mem_ancestry_trans (mem_ancestry_parent own) (searchable.mem_branch.mp walked).1, bad⟩

theorem Searched.dropBranch (member : pindexNew ∈ tree.setBlockIndexCandidates)
    (search : (tree.branch pindexNew).find? tree.unusable = some pindexTest) :
    Searched before (tree.dropBranch pindexNew (tree.usableBranch pindexNew) pindexTest) ∧
    (tree.dropBranch pindexNew (tree.usableBranch pindexNew) pindexTest).setBlockIndexCandidates.length <
      tree.setBlockIndexCandidates.length := by
  have bad := find?_some search
  have outside := (searchable.mem_branch.mp (searched.branch ▸ mem_of_find?_eq_some search)).2
  have shape : tree.branch pindexNew = (forest.ancestry pindexNew).takeWhile fun a =>
      !before.chainActive.contains a := by
    rw [searched.branch, BlockTree.branch, searchable.ancestors]
  have known := (searchable.candidates pindexNew (searched.kept _ member)).2
  generalize isAbove : tree.usableBranch pindexNew = above
  rw [usableBranch, shape] at isAbove
  rw [shape] at search
  have inside {pindex} (walked : pindex ∈ above) : pindex ∈ before.branch pindexNew := by
    rw [← searched.branch, shape]
    exact takeWhile_subset _ (isAbove ▸ walked)
  have path {pindex} (walked : pindex ∈ above) := parent_takeWhile search (isAbove ▸ walked)
  have drop := @dropped_dropBranch tree pindexNew pindexTest above fun other walked =>
    (searched.alike.known other).trans (known other (searchable.mem_branch.mp (inside walked)).1).1
  have unlinked := mapBlocksUnlinked_foldl (tree.statusOf pindexTest).failed above
  have isMarked {pindex} : pindex ∈ (if (tree.statusOf pindexTest).failed then above else []) ↔
      (tree.statusOf pindexTest).failed = true ∧ pindex ∈ above := by
    split <;> simp [*]
  have raised {pindex} (flag : (tree.statusOf pindex).failed = true ∨
      (tree.statusOf pindexTest).failed = true ∧ pindex ∈ above) :
      ((tree.dropBranch pindexNew above pindexTest).statusOf pindex).failed = true := by
    simp only [drop.status, isMarked]
    split
    · exact Bool.or_true _
    next unmarked => exact flag.resolve_right unmarked
  have apart {pindex} (removed : pindex ∈ above ∨ pindex = pindexTest) :
      pindex ∉ before.chainActive := by
    rcases removed with walked | rfl
    · exact (searchable.mem_branch.mp (inside walked)).2
    · exact outside
  refine ⟨⟨searched.alike.trans drop.alike, drop.chainActive.trans searched.chainActive,
    ?_, ?_, ?_⟩, ?_⟩
  · intro pindex
    have status := drop.status pindex
    simp only [isMarked] at status
    rw [status]
    split
    next marks =>
      obtain ⟨flag, walked⟩ := marks
      obtain ⟨-, pprev, own, next⟩ := path walked
      rw [isAbove] at next
      refine .inr ⟨?_, pprev, searchable.parentOf ▸ own, apart next, raised ?_⟩
      · rcases searched.marked pindex with same | ⟨same, -⟩ <;> rw [same]
      · rcases next with further | rfl
        · exact .inr ⟨flag, further⟩
        · exact .inl flag
    · refine (searched.marked pindex).imp_right ?_
      rintro ⟨mark, pprev, own, away, flag⟩
      exact ⟨mark, pprev, own, away, raised (.inl flag)⟩
  · intro pindex left
    rw [drop.candidates] at left
    exact searched.kept pindex (mem_of_mem_filter left)
  · intro pindex candidate gone
    by_cases left : pindex ∈ tree.setBlockIndexCandidates
    · have removed : pindex ∈ above ∨ pindex = pindexTest := by
        rw [drop.candidates, mem_filter] at gone
        simpa [left, or_iff_not_imp_left] using gone
      refine ⟨apart removed, ?_⟩
      cases flag : (tree.statusOf pindexTest).failed with
      | true =>
        refine .inl (raised ?_)
        rcases removed with walked | rfl
        · exact .inr ⟨flag, walked⟩
        · exact .inl flag
      | false =>
        have missing : (before.statusOf pindexTest).haveData = false := by
          simpa [unusable, flag, searched.alike.haveData] using bad
        rcases removed with walked | rfl
        · obtain ⟨reach, pprev, own, -⟩ := path walked
          rw [← searchable.parentOf] at own
          refine .inr ⟨⟨pindexTest, searchable.mem_branch.mpr ⟨reach, outside⟩, missing⟩,
            pprev, own, ?_⟩
          show _ ∈ BlockTree.mapBlocksUnlinked (foldl _ _ above)
          rw [unlinked, flag]
          exact mem_append_right _
            (mem_flatMap.mpr ⟨pindex, walked, by simp [searched.alike.parentOf, own]⟩)
        · rw [(searchable.candidates _ candidate).1] at missing
          cases missing
    · obtain ⟨away, failed | ⟨missing, pprev, own, waits⟩⟩ := searched.dropped pindex candidate left
      · exact ⟨away, .inl (raised (.inl failed))⟩
      · refine ⟨away, .inr ⟨missing, pprev, own, ?_⟩⟩
        show _ ∈ BlockTree.mapBlocksUnlinked (foldl _ _ above)
        rw [unlinked]
        refine mem_append_left _ ?_
        unfold noteInvalid
        split <;> [split; skip] <;> exact waits
  · rw [drop.candidates, length_filter_lt_length_iff_exists]
    have gone := self_of_search search
    exact ⟨pindexNew, member, by simpa [← isAbove, or_iff_not_imp_left] using gone⟩

omit searched in
variable (env) in
theorem Searchable.findMostWorkChain (turns : Nat) : ∀ {tree : BlockTree}, Searched before tree →
    tree.setBlockIndexCandidates.length < turns →
    ∃ after, tree.findMostWorkChain env turns = some (after.bestCandidate env, after) ∧
      Searched before after ∧ ∀ best ∈ after.bestCandidate env, before.Free best := by
  induction turns with
  | zero => exact fun _ enough => absurd enough (Nat.not_lt_zero _)
  | succ turns hyp =>
    intro tree searched enough
    unfold BlockTree.findMostWorkChain
    cases best : tree.bestCandidate env with
    | none => exact ⟨tree, by rw [best], searched, by simp [best]⟩
    | some pindexNew =>
      have member := argmax_mem (bestCandidate_eq_argmax ▸ best : pindexNew ∈ _)
      have asserted :
          (tree.usableBranch pindexNew ++ ((tree.branch pindexNew).find? tree.unusable).toList).all
          tree.linkedOrRoot = true := by
        rw [all_eq_true]
        intro a tested
        have walked : a ∈ tree.branch pindexNew := by
          rcases mem_append.mp tested with usable | last
          · exact takeWhile_subset _ usable
          · exact mem_of_find?_eq_some (Option.mem_toList.mp last)
        have linked := ((searchable.candidates pindexNew (searched.kept _ member)).2 a
          (searchable.mem_branch.mp (searched.branch ▸ walked)).1).2
        rwa [linkedOrRoot, ← searched.alike.nChainTx, ← searched.alike.heightOf] at linked
      dsimp only
      rw [asserted]
      cases search : (tree.branch pindexNew).find? tree.unusable with
      | none =>
        refine ⟨tree, by rw [best]; rfl, searched, fun pindex same a walked => searched.usable ?_⟩
        cases best.symm.trans same
        exact Bool.eq_false_iff.mpr (find?_eq_none.mp search a (searched.branch ▸ walked))
      | some pindexTest =>
        obtain ⟨next, fewer⟩ := searched.dropBranch searchable member search
        exact hyp next (by omega)

omit searched in
variable (env) in
/-- With a turn for every candidate and one more, the search ends.  It finds the greatest candidate
with a free path, or none if there is none; what has failed afterwards has a failed ancestor; a
candidate is lost only if its path is not free, and waits for the data if there is no failed block
on its path. -/
theorem findMostWorkChain_finds (enough : before.setBlockIndexCandidates.length < turns) :
    ∃ pindexMostWork after, before.findMostWorkChain env turns = some (pindexMostWork, after) ∧
      (∀ best ∈ pindexMostWork, best ∈ before.setBlockIndexCandidates ∧ before.Free best ∧
        ∀ other ∈ before.setBlockIndexCandidates, before.Free other →
        before.lessWork env best other = false) ∧
      (pindexMostWork = none → ∀ other ∈ before.setBlockIndexCandidates, ¬ before.Free other) ∧
      (∀ pindex, (after.statusOf pindex).failed = true →
        ∃ a ∈ before.ancestors pindex, (before.statusOf a).failed = true) ∧
      ∀ pindex ∈ before.setBlockIndexCandidates, pindex ∉ after.setBlockIndexCandidates →
      ¬ before.Free pindex ∧
        ((∀ a ∈ before.branch pindex, (before.statusOf a).failed = false) →
          Waits before after pindex) := by
  obtain ⟨after, ran, searched, free⟩ :=
    searchable.findMostWorkChain env turns (.refl before) enough
  have hindered (pindex a) (walked : a ∈ before.branch pindex) (bad : before.unusable a = true) :
      ¬ before.Free pindex :=
    fun free => Bool.false_ne_true ((free a walked).symm.trans bad)
  have lost (pindex) (here : pindex ∈ before.setBlockIndexCandidates)
      (gone : pindex ∉ after.setBlockIndexCandidates) :
      ¬ before.Free pindex ∧ ((∀ a ∈ before.branch pindex, (before.statusOf a).failed = false) →
        Waits before after pindex) := by
    obtain ⟨away, failed | ⟨⟨a, walked, missing⟩, waits⟩⟩ := searched.dropped pindex here gone
    · obtain ⟨a, walked, flag⟩ := searched.failed searchable away failed
      refine ⟨hindered pindex a walked (by simp [unusable, flag]), fun clear => ?_⟩
      cases (clear a walked).symm.trans flag
    · exact ⟨hindered pindex a walked (by simp [unusable, missing]), fun _ => waits⟩
  have stays (pindex) (here : pindex ∈ before.setBlockIndexCandidates)
      (clear : before.Free pindex) :
      pindex ∈ after.setBlockIndexCandidates := by_contra fun gone =>
      (lost pindex here gone).1 clear
  rw [bestCandidate_eq_argmax] at ran free
  refine ⟨_, after, ran, fun best found => ⟨searched.kept _ (argmax_mem found), free best found,
    fun other here clear => ?_⟩,
    fun none other here clear => ?_, fun pindex flag => ?_, lost⟩
  · have least := le_of_mem_argmax (stays other here clear) found
    rw [searched.alike.rank] at least
    rw [← Bool.not_eq_true, lessWork_iff]
    exact least.not_gt
  · exact ne_nil_of_mem (stays other here clear) (argmax_eq_none.mp none)
  · rw [searchable.ancestors]
    exact searched.failed_ancestor searchable flag

end

end BlockTree

end Deviant.BlockIndex
