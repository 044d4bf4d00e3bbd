import Deviant.BlockIndex.BestChain

namespace Deviant.BlockIndex

open Data Primitives Forest

/-! What the block index promises between two calls, and what `ActivateBestChain` makes of it. -/

section

variable {holds : Uint256 → Prop} [DecidablePred holds]

-- without these, a search over all hashes would be preferred
instance (priority := 2000) decidableListForall {hashes : List Uint256} :
    Decidable (∀ hash ∈ hashes, holds hash) :=
  List.decidableBAll holds hashes

instance (priority := 2000) decidableListExists {hashes : List Uint256} :
    Decidable (∃ hash ∈ hashes, holds hash) :=
  List.decidableBEx holds hashes

instance (priority := 2000) decidableOptionForall :
    {hash : Option Uint256} → Decidable (∀ found ∈ hash, holds found)
  | none => isTrue nofun
  | some hash => decidable_of_iff (holds hash) (by simp)

end

namespace BlockTree

variable {env : IndexEnv} {verdict : Verdict} {tree after : BlockTree} {pindex : Uint256}

def blocks (tree : BlockTree) : List Uint256 := tree.mapBlockIndex.keys

def Available (tree : BlockTree) (pindex : Uint256) : Prop :=
  ∀ a ∈ tree.ancestors pindex, (tree.statusOf a).haveData = true

def Unfailed (tree : BlockTree) (pindex : Uint256) : Prop :=
  ∀ a ∈ tree.ancestors pindex, (tree.statusOf a).failedValid = false

instance : Decidable (tree.Available pindex) :=
      inferInstanceAs (Decidable (∀ a ∈ tree.ancestors pindex, _))

instance : Decidable (tree.Unfailed pindex) :=
      inferInstanceAs (Decidable (∀ a ∈ tree.ancestors pindex, _))

/-- A block that the active chain can end in. -/
def Connectable (verdict : Verdict) (tree : BlockTree) (pindex : Uint256) : Prop :=
  tree.Available pindex ∧ tree.Unfailed pindex ∧ ∀ a ∈ tree.ancestors pindex,
    verdict.accepts a = true

instance : Decidable (tree.Connectable verdict pindex) := inferInstanceAs (Decidable (_ ∧ _ ∧ _))

def Best (env : IndexEnv) (verdict : Verdict) (tree : BlockTree) (pindex : Uint256) : Prop :=
  tree.Connectable verdict pindex ∧
    ∀ other ∈ tree.blocks, tree.Connectable verdict other → tree.lessWork env pindex other = false

instance : Decidable (tree.Best env verdict pindex) := inferInstanceAs (Decidable (_ ∧ _))

/-- What `CheckBlockIndex` asserts, for an active chain of blocks that did not fail. -/
structure Sound (env : IndexEnv) (tree : BlockTree) : Prop where
  graded : ∀ pindex ∈ tree.blocks, ∀ pprev ∈ tree.parentOf pindex,
    pprev ∈ tree.blocks ∧ tree.heightOf pindex = tree.heightOf pprev + 1
  rooted : ∀ pindex ∈ tree.blocks, tree.parentOf pindex = none → tree.heightOf pindex = 0
  genesis : ∀ a ∈ tree.blocks, ∀ b ∈ tree.blocks, tree.parentOf a = none → tree.parentOf b = none →
    a = b
  pskip : ∀ pindex ∈ tree.blocks, ∀ pprev ∈ tree.parentOf pindex, (tree.deref pindex).pskip =
    (tree.ancestors pprev).find? fun a => decide (tree.heightOf a = getSkipHeight (tree.heightOf pindex))
  linked : ∀ pindex ∈ tree.blocks, ((tree.deref pindex).nChainTx ≠ 0 ↔ tree.Available pindex)
  flagged : ∀ pindex ∈ tree.blocks, (tree.statusOf pindex).failed = true → ¬ tree.Unfailed pindex
  active : ∃ tip ∈ tree.blocks, tree.chainActive = tree.ancestors tip ∧ tree.Available tip ∧
    tree.Unfailed tip
  candidates : ∀ pindex ∈ tree.setBlockIndexCandidates,
    pindex ∈ tree.blocks ∧ tree.Available pindex ∧ tree.notWorseThanTip env pindex = true
  complete : ∀ pindex ∈ tree.blocks, tree.Available pindex → tree.Unfailed pindex →
    tree.notWorseThanTip env pindex = true → pindex ∈ tree.setBlockIndexCandidates

set_option synthInstance.maxSize 512 in
instance : Decidable (tree.Sound env) :=
  decidable_of_iff (_ ∧ _ ∧ _ ∧ _ ∧ _ ∧ _ ∧ _ ∧ _ ∧ _)
    ⟨fun ⟨graded, rooted, genesis, pskip, linked, flagged, active, candidates, complete⟩ =>
        ⟨graded, rooted, genesis, pskip, linked, flagged, active, candidates, complete⟩,
      fun sound => ⟨sound.graded, sound.rooted, sound.genesis, sound.pskip, sound.linked,
        sound.flagged, sound.active, sound.candidates, sound.complete⟩⟩

theorem mem_blocks : pindex ∈ tree.blocks ↔ tree.Known pindex := AList.lookup_isSome.symm

theorem parentOf_unknown (unknown : pindex ∉ tree.blocks) :
    tree.parentOf pindex = none ∧ tree.heightOf pindex = 0 := by
  rw [mem_blocks, Known, Bool.not_eq_true, Option.isSome_eq_false_iff, Option.isNone_iff_eq_none]
    at unknown
  unfold parentOf heightOf deref
  rw [unknown]
  exact ⟨rfl, rfl⟩

theorem statusOf_unknown (unknown : pindex ∉ tree.blocks) : tree.statusOf pindex = {} := by
  rw [mem_blocks, Known, Bool.not_eq_true, Option.isSome_eq_false_iff, Option.isNone_iff_eq_none]
    at unknown
  unfold statusOf deref
  rw [unknown]
  rfl

theorem Sound.graded_all (sound : tree.Sound env) (own : tree.parentOf pindex = some pprev) :
    tree.heightOf pindex = tree.heightOf pprev + 1 := by
  by_cases known : pindex ∈ tree.blocks
  · exact (sound.graded pindex known pprev own).2
  · rw [(parentOf_unknown known).1] at own
    cases own

variable (sound : tree.Sound env)

def Sound.forest : Forest Uint256 where
  parent := tree.parentOf
  height := tree.heightOf
  graded := sound.graded_all

theorem Sound.rooted_forest : tree.Rooted sound.forest where
  shaped :=
    { parentOf := rfl
      heightOf := rfl
      rooted := fun pindex top => by
        by_cases known : pindex ∈ tree.blocks
        · exact sound.rooted pindex known top
        · exact (parentOf_unknown known).2
      pskip := fun pindex pprev own => by
        by_cases known : pindex ∈ tree.blocks
        · exact sound.pskip pindex known pprev own
        · have none := (parentOf_unknown known).1
          cases none.symm.trans own }
  parents pindex pprev own := by
    by_cases known : pindex ∈ tree.blocks
    · exact mem_blocks.mp (sound.graded pindex known pprev own).1
    · have none := (parentOf_unknown known).1
      cases none.symm.trans own
  genesis a b knownA knownB := sound.genesis a (mem_blocks.mpr knownA) b (mem_blocks.mpr knownB)

def Sound.scene (verdict : Verdict) : Scene tree sound.forest :=
  ⟨env, verdict, sound.rooted_forest, fun pindex known => sound.linked pindex (mem_blocks.mpr known)⟩

theorem Sound.going (accepted : ∀ pindex ∈ tree.chainActive, verdict.accepts pindex = true) :
    ∃ tip, tree.chainActive = sound.forest.ancestry tip ∧ (sound.scene verdict).Clean tip ∧
      (sound.scene verdict).Going tip tree := by
  obtain ⟨tip, known, chain, available, unfailed⟩ := sound.active
  have clean : (sound.scene verdict).Clean tip :=
    ⟨mem_blocks.mp known, fun a member => accepted a (chain ▸ member), available, unfailed⟩
  have notWorse : ∀ c, tree.notWorseThanTip env c = true ↔ tree.rank env tip ≤ tree.rank env c :=
    Scene.notWorseThanTip_iff (Alike.refl tree) (show tree.chainActive = sound.forest.ancestry tip
      from chain)
  refine ⟨tip, chain, clean, Alike.refl tree, fun _ failed => failed, ⟨tip, clean, chain⟩, ?_, ?_,
    ?_, clean, ?_, ?_, ?_⟩
  · intro pindex failed
    by_cases inside : pindex ∈ tree.blocks
    · have invalid := sound.flagged pindex inside failed
      unfold Unfailed at invalid
      push Not at invalid
      obtain ⟨a, member, failedValid⟩ := invalid
      exact ⟨a, member, by simpa using failedValid⟩
    · rw [statusOf_unknown inside] at failed
      cases failed
  · intro pindex failed clear
    rw [failed] at clear
    cases clear
  · intro pindex failed clear
    rw [failed] at clear
    cases clear
  · intro c member
    obtain ⟨inside, availableC, better⟩ := sound.candidates c member
    exact ⟨mem_blocks.mp inside, availableC, (notWorse c).mp better⟩
  · intro b inside availableB unfailedB better
    exact sound.complete b (mem_blocks.mpr inside) availableB unfailedB ((notWorse b).mpr better)
  · exact fun d member => .inl member

/-- What selection leaves: the tip is the best available block without failures.  A block fails if
it is rejected, and then carries a flag with all blocks above it on the branches that were looked
at, which are those of the candidates that are better than the tip. -/
structure Selected (env : IndexEnv) (verdict : Verdict) (before after : BlockTree) : Prop where
  tip : ∃ tip ∈ after.blocks, after.tip = some tip ∧ after.Available tip ∧ after.Unfailed tip ∧
    ∀ pindex ∈ after.blocks, after.Available pindex → after.Unfailed pindex →
    after.lessWork env tip pindex = false
  rejected : ∀ pindex, (after.statusOf pindex).failedValid = true →
    (before.statusOf pindex).failedValid = false → verdict.accepts pindex = false
  examined : ∀ tip ∈ after.tip, ∀ candidate ∈ before.setBlockIndexCandidates,
    after.lessWork env tip candidate = true → (after.statusOf candidate).failed = true
  flagged : ∀ tip ∈ after.tip, ∀ candidate ∈ before.setBlockIndexCandidates,
    after.lessWork env tip candidate = true → ∀ invalid ∈ before.ancestors candidate,
      (after.statusOf invalid).failedValid = true → (before.statusOf invalid).failedValid = false →
      (∀ a ∈ before.ancestors candidate, invalid ∈ before.ancestors a →
        (before.statusOf a).failed = false) →
      ∀ a ∈ before.ancestors candidate, invalid ∈ before.ancestors a →
      (after.statusOf a).failed = true

namespace Scene

variable {before : BlockTree} {forest : Forest Uint256} {scene : Scene before forest}
    {peak tip : Uint256}

theorem Going.flags_run_down (going : scene.Going peak tree)
    (failed : (tree.statusOf invalid).failedValid = true)
    (clear : (before.statusOf invalid).failedValid = false)
    (flag : (tree.statusOf pindex).failed = true)
    (clean : ∀ a ∈ forest.ancestry pindex, invalid ∈ forest.ancestry a →
      (before.statusOf a).failed = false) :
    ∀ a ∈ forest.ancestry pindex, invalid ∈ forest.ancestry a →
      (tree.statusOf a).failed = true := by
  induction pindex using forest.induction with
  | root pindex top =>
    intro a member _
    rw [ancestry_root top, List.mem_singleton] at member
    rw [member]
    exact flag
  | child pindex pprev own hyp =>
    intro a member reach
    rw [ancestry_child own, List.mem_cons] at member
    rcases member with same | further
    · rw [same]
      exact flag
    have above : invalid ∈ forest.ancestry pprev := mem_ancestry_trans further reach
    have below : invalid ∈ forest.ancestry pindex :=
      mem_ancestry_trans (mem_ancestry_parent own) above
    have unflagged := clean pindex forest.mem_ancestry_self below
    have upper : (tree.statusOf pprev).failed = true := by
      rcases going.unbroken pindex flag unflagged with isInvalid | ⟨parent, same, parentFlag⟩
      · -- the block itself cannot have been tried, as an ancestor was rejected
        have differs : invalid ≠ pindex := by
          intro same
          have lower := height_lt_of_mem_parent own above
          rw [same] at lower
          omega
        have tried := going.rejected pindex isInvalid (Bool.or_eq_false_iff.mp unflagged).1
        have accepts := tried.2 invalid below differs
        rw [(going.rejected invalid failed clear).1] at accepts
        cases accepts
      · cases own.symm.trans same
        exact parentFlag
    exact hyp upper (fun b inside => clean b (mem_ancestry_trans (mem_ancestry_parent own) inside))
      a further reach

theorem Loop.selected (loop : scene.Loop peak tip (some tip) after) :
    Selected scene.env scene.verdict before after := by
  have alike := loop.going.alike
  have shaped := alike.shaped scene.rooted.shaped
  have target := (loop.target tip rfl).1
  have better : ∀ {pindex}, after.lessWork scene.env tip pindex = true →
      before.rank scene.env tip < before.rank scene.env pindex := by
    intro pindex less
    rwa [lessWork_iff, alike.rank] at less
  have high := target.best peak loop.going.peak_mem
  have examined : ∀ candidate ∈ before.setBlockIndexCandidates,
      after.lessWork scene.env tip candidate = true → (after.statusOf candidate).failed = true := by
    intro candidate member less
    rcases loop.going.examined candidate member with left | flag | low
    · exact absurd (better less) (target.best candidate left).not_gt
    · exact flag
    · exact absurd (better less) (low.trans_le high).not_gt
  refine ⟨⟨tip, mem_blocks.mpr ((alike.known tip).trans loop.clean.known), tip_eq loop.chain, ?_,
    ?_, ?_⟩, ?_, ?_, ?_⟩
  · intro a member
    rw [shaped.ancestors] at member
    rw [alike.haveData]
    exact loop.clean.haveData a member
  · intro a member
    rw [shaped.ancestors] at member
    exact loop.going.not_failedValid loop.clean a member
  · intro pindex inside available unfailed
    unfold Available at available
    unfold Unfailed at unfailed
    simp only [shaped.ancestors, alike.haveData] at available unfailed
    by_contra less
    rw [Bool.not_eq_false] at less
    have known : before.Known pindex := (alike.known pindex).symm.trans (mem_blocks.mp inside)
    have candidate :=
      loop.going.complete pindex known available unfailed (high.trans (better less).le)
    exact (target.best pindex candidate).not_gt (better less)
  · exact fun pindex failed clear => (loop.going.rejected pindex failed clear).1
  · intro _ same candidate member less
    cases (tip_eq loop.chain).symm.trans same
    exact examined candidate member less
  · intro _ same candidate member less invalid reach failed clear clean a inside
    cases (tip_eq loop.chain).symm.trans same
    simp only [scene.rooted.shaped.ancestors] at clean inside ⊢
    exact loop.going.flags_run_down failed clear (examined candidate member less) clean a inside

end Scene

section

variable (accepted : ∀ pindex ∈ tree.chainActive, verdict.accepts pindex = true)

include sound accepted

theorem Sound.activates : ∃ after peak tip, tree.activateBestChain env verdict = some after ∧
    (sound.scene verdict).Loop peak tip (some tip) after := by
  obtain ⟨tip, chain, clean, going⟩ := sound.going accepted
  have loop : (sound.scene verdict).Loop tip tip none tree := ⟨going, clean, chain, nofun⟩
  have enough : Scene.effort tree sound.forest tip none tree < tree.activationTurns := by
    have count := Scene.clearCount_le tree tree
    have product := Nat.mul_le_mul_right (tree.topHeight + 2) count
    unfold Scene.effort activationTurns
    rw [Option.elim_none, Nat.succ_mul]
    omega
  obtain ⟨after, peak, last, result, loop⟩ := loop.activateOuter enough enough
  exact ⟨after, peak, last, result, loop⟩

/-- The chain is that of the best block that could be connected before. -/
theorem Sound.activates_best :
    ∃ after tip, tree.activateBestChain env verdict = some after ∧ tip ∈ tree.blocks ∧
      tree.Best env verdict tip ∧ after.chainActive.length = tree.heightOf tip + 1 := by
  obtain ⟨after, peak, tip, result, loop⟩ := sound.activates accepted
  have alike := loop.going.alike
  obtain ⟨_, _, same, _, _, best⟩ := loop.selected.tip
  cases (Scene.tip_eq loop.chain).symm.trans same
  have ancestors : after.ancestors = tree.ancestors :=
    (alike.shaped sound.rooted_forest.shaped).ancestors.trans sound.rooted_forest.shaped.ancestors.symm
  refine ⟨after, tip, result, mem_blocks.mpr loop.clean.known,
    ⟨⟨loop.clean.haveData, loop.clean.unfailed, loop.clean.accepted⟩,
      fun other inside connectable => ?_⟩, ?_⟩
  · have known : other ∈ after.blocks :=
      mem_blocks.mpr ((alike.known other).trans (mem_blocks.mp inside))
    have available : after.Available other := fun a member => by
      rw [alike.haveData]
      exact connectable.1 a (ancestors ▸ member)
    have unfailed : after.Unfailed other := fun a member => by
      by_contra failed
      have reason := loop.selected.rejected a (Bool.eq_true_of_not_eq_false failed)
        (connectable.2.1 a (ancestors ▸ member))
      rw [show (sound.scene verdict).verdict.accepts a = true
        from connectable.2.2 a (ancestors ▸ member)] at reason
      cases reason
    have least := best other known available unfailed
    rwa [Bool.eq_false_iff, ne_eq, lessWork_iff, alike.rank, ← lessWork_iff, ← ne_eq,
      ← Bool.eq_false_iff] at least
  · rw [loop.chain]
    exact length_ancestry sound.rooted_forest.shaped.rooted tip

end

/-- From a sound index, with verdicts that accept the active chain again, `ActivateBestChain` ends
without running into an assertion, and with the best available block as the tip. -/
theorem activateBestChain_selects (env : IndexEnv) (verdict : Verdict) (tree : BlockTree)
    (sound : tree.Sound env)
    (accepted : ∀ pindex ∈ tree.chainActive, verdict.accepts pindex = true) :
    ∃ after, tree.activateBestChain env verdict = some after ∧ Selected env verdict tree after := by
  obtain ⟨after, _, _, result, last⟩ := sound.activates accepted
  exact ⟨after, result, last.selected⟩

end BlockTree

namespace SampleSelection

def env : IndexEnv := ⟨BitVec.toNat⟩

def entry (pprev : Option Uint256) (nHeight nChainWork nSequenceId nChainTx : Nat) : CBlockIndex :=
  { pprev := pprev, pskip := pprev.map fun _ => 1, nHeight := nHeight, nChainWork := nChainWork,
    nChainTx := nChainTx, nSequenceId := nSequenceId,
    nStatus := { valid := blockValidTransactions, haveData := true } }

/-- The active chain ends in block 2.  Blocks 3 and 4 are a branch with more work. -/
def tree : BlockTree :=
  { mapBlockIndex := (((∅ : BlockMap).insert 1 (entry none 0 1 1 1)).insert 2
      (entry (some 1) 1 2 2 2)).insert 3
      (entry (some 1) 1 3 3 2) |>.insert 4 (entry (some 3) 2 4 4 3)
    setBlockIndexCandidates := [2, 3, 4]
    chainActive := [2, 1] }

/-- Block 3 was found to be invalid. -/
def failedTree : BlockTree := tree.setStatus 3 { tree.statusOf 3 with failedValid := true }

def verdict (invalid : Uint256) : Verdict := ⟨fun pindex => decide (pindex ≠ invalid), fun _ => 0⟩

end SampleSelection

open SampleSelection in
/-- The chain moves to the branch as far as it is valid, or back to where it was. -/
theorem activateBestChain_selects_branch :
    ((tree.activateBestChain env (verdict 4)).map fun after => after.tip) = some (some 3) ∧
    ((tree.activateBestChain env (verdict 3)).map fun after => after.tip) = some (some 2) ∧
    ∃ after, tree.activateBestChain env (verdict 3) = some after ∧
      BlockTree.Selected env (verdict 3) tree after :=
  ⟨by decide, by decide, BlockTree.activateBestChain_selects env (verdict 3) tree (by decide) (by decide)⟩

open SampleSelection in
/-- The search gives up the branch of block 3 for the older block 2. -/
theorem findMostWorkChain_finds_older :
    ∃ after, failedTree.findMostWorkChain env 4 = some (some 2, after) ∧ failedTree.Free 2 ∧
      ∀ pindex, (after.statusOf pindex).failed = true →
      ∃ a ∈ failedTree.ancestors pindex, (failedTree.statusOf a).failed = true := by
  have sound : failedTree.Sound env := by decide
  obtain ⟨_, _, _, going⟩ :=
    sound.going (show ∀ pindex ∈ [2, 1], (verdict 3).accepts pindex = true by decide)
  obtain ⟨found, after, ran, best, _, marked, _⟩ :=
    BlockTree.findMostWorkChain_finds env going.searchable (show 3 < 4 by decide)
  have same : (failedTree.findMostWorkChain env 4).map Prod.fst = some (some 2) := by decide
  rw [ran] at same
  cases same
  exact ⟨after, ran, (best 2 rfl).2.1, marked⟩

end Deviant.BlockIndex
