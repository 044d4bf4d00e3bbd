import Deviant.BlockIndex.Reorganisation
import Mathlib.Data.Finset.Card

namespace Deviant.BlockIndex

open Data List Option Primitives Forest

/-! The loops of chain selection end, with the best block as the tip. -/

namespace BlockTree

namespace Scene

variable {before tree after : BlockTree} {forest : Forest Uint256} {scene : Scene before forest}
  {peak pindex pindexMostWork tip : Uint256}

theorem disconnectTo_ancestry {fork : Uint256} (member : fork ∈ forest.ancestry tip) :
    disconnectTo (some fork) (forest.ancestry tip) = some (forest.ancestry fork) := by
  induction tip using forest.induction with
  | root tip top =>
    rw [ancestry_root top, mem_singleton] at member
    rw [member, ancestry_root top, disconnectTo, if_pos rfl]
  | child tip pprev own hyp =>
    rw [ancestry_child own, mem_cons] at member
    rw [ancestry_child own, disconnectTo]
    by_cases same : fork = tip
    · rw [if_pos (by rw [same]), same, ancestry_child own]
    · have more : (forest.ancestry pprev).isEmpty = false := by
        rw [isEmpty_eq_false_iff]
        exact forest.ancestry_ne_nil
      rw [if_neg (fun equal => same (Option.some.inj equal).symm), more, if_neg Bool.false_ne_true]
      exact hyp (member.resolve_left same)

theorem Going.activateBestChainStep (going : scene.Going peak tree)
    (clean : scene.Clean tip) (chain : tree.chainActive = forest.ancestry tip)
    (target : scene.Target tree pindexMostWork) :
    ∃ invalid after newPeak, tree.activateBestChainStep scene.env scene.verdict pindexMostWork =
      some (invalid, after) ∧
      (invalid = true ∧ scene.Stopped tree newPeak after ∨
       ∃ newTip, invalid = false ∧ scene.Moved pindexMostWork tree newPeak newTip after ∧
         (tip ∈ forest.ancestry pindexMostWork → tip ≠ pindexMostWork →
           forest.height tip < forest.height newTip)) := by
  have known := (going.candidates _ target.candidate).1
  have shaped := going.alike.shaped scene.rooted.shaped
  have rooted : tree.Rooted forest :=
    ⟨shaped, fun a b own => (going.alike.known b).trans (scene.rooted.parents a b own),
      fun a b first second =>
      scene.rooted.genesis a b ((going.alike.known a).symm.trans first)
        ((going.alike.known b).symm.trans second)⟩
  obtain ⟨fork, forked, onChain, toward, lowest⟩ := rooted.findFork ((going.alike.known _).trans known)
    ((going.alike.known tip).trans clean.known) chain
  have forkClean := clean.of_mem onChain
  have working : scene.Working pindexMostWork peak fork
      { tree with chainActive := forest.ancestry fork } :=
    ⟨going.congr (Alike.refl tree) (fun _ => ⟨rfl, rfl⟩) rfl forkClean rfl,
      target.congr (fun _ => ⟨rfl, rfl⟩) rfl, forkClean, rfl, toward⟩
  obtain ⟨invalid, after, newPeak, result, outcome⟩ :=
    working.connectBatches (forest.height pindexMostWork + 2) (by omega)
  refine ⟨invalid, after, newPeak, ?_, outcome.imp ?_ ?_⟩
  · unfold BlockTree.activateBestChainStep
    dsimp only
    rw [forked, chain, disconnectTo_ancestry onChain]
    rw [shaped.heightOf]
    exact result
  · exact fun stopped => ⟨stopped.1, stopped.2.going, stopped.2.failures⟩
  · rintro ⟨newTip, valid, moved, rise, strict⟩
    refine ⟨newTip, valid, ⟨moved.working, moved.failures⟩, ?_⟩
    intro inside apart
    -- the tip is on the way to the target, so that nothing was disconnected
    have same : fork = tip := by
      have upper := lowest tip inside forest.mem_ancestry_self
      have low := height_le_of_mem upper
      have high := height_le_of_mem onChain
      exact eq_of_mem_of_height_eq onChain (high.antisymm low)
    have higher := strict (same ▸ apart)
    have atLeast := height_le_of_mem rise
    rw [same] at higher atLeast rise
    by_contra notHigher
    exact higher (eq_of_mem_of_height_eq rise (by omega)).symm

def clearCount (before tree : BlockTree) : Nat :=
  (before.mapBlockIndex.keys.toFinset.filter fun pindex =>
    (tree.statusOf pindex).failedValid = false).card

theorem MoreFailed.clearCount_lt (failures : MoreFailed before tree after) :
    clearCount before after < clearCount before tree := by
  obtain ⟨kept, pindex, known, clear, failed⟩ := failures
  apply Finset.card_lt_card
  rw [Finset.ssubset_iff_of_subset]
  · refine ⟨pindex, ?_, ?_⟩
    · rw [Finset.mem_filter, List.mem_toFinset]
      exact ⟨AList.lookup_isSome.mp known, clear⟩
    · simp [failed]
  · intro other member
    rw [Finset.mem_filter] at member ⊢
    refine ⟨member.1, ?_⟩
    by_contra old
    rw [Bool.not_eq_false] at old
    have now := kept other old
    rw [member.2] at now
    cases now

theorem clearCount_congr (failures : ∀ pindex,
      (after.statusOf pindex).failedValid = (tree.statusOf pindex).failedValid) :
    clearCount before after = clearCount before tree := by
  unfold clearCount
  simp [failures]

theorem clearCount_le (before tree : BlockTree) :
    clearCount before tree ≤ before.mapBlockIndex.entries.length := by
  calc clearCount before tree ≤ before.mapBlockIndex.keys.toFinset.card := Finset.card_filter_le _ _
    _ ≤ before.mapBlockIndex.keys.length := toFinset_card_le _
    _ = before.mapBlockIndex.entries.length := by simp [AList.keys, List.keys]

theorem height_le_topHeight (scene : Scene before forest) (known : before.Known pindex) :
    forest.height pindex ≤ before.topHeight := by
  obtain ⟨entry, found⟩ := isSome_iff_exists.mp known
  rw [← scene.rooted.shaped.heightOf, heightOf, deref_of_lookup found]
  refine le_max_of_le' 0 (mem_map.mpr ⟨⟨pindex, entry⟩, ?_, rfl⟩) le_rfl
  exact AList.mem_lookup_iff.mp found

/-- What is left to do: blocks may still fail, and blocks are to be connected before the target is
the tip. -/
def effort (before : BlockTree) (forest : Forest Uint256) (tip : Uint256)
    (pindexMostWork : Option Uint256) (tree : BlockTree) : Nat :=
  clearCount before tree * (before.topHeight + 2) +
    pindexMostWork.elim (before.topHeight + 1) fun pindex => forest.height pindex - forest.height tip

/-- The state at the head of a loop: the target, if there is one, is a descendant of the tip. -/
structure Loop (scene : Scene before forest) (peak tip : Uint256)
    (pindexMostWork : Option Uint256) (tree : BlockTree) : Prop where
  going : scene.Going peak tree
  clean : scene.Clean tip
  chain : tree.chainActive = forest.ancestry tip
  target : ∀ pindex, pindexMostWork = some pindex → scene.Target tree pindex ∧
    tip ∈ forest.ancestry pindex

theorem Loop.search {pindexMostWork : Option Uint256}
    (loop : scene.Loop peak tip pindexMostWork tree) :
    ∃ pindex found, tree.targetOrSearch scene.env pindexMostWork = some (some pindex, found) ∧
      scene.Going peak found ∧ scene.Target found pindex ∧ found.chainActive = tree.chainActive ∧
      (∀ other, (found.statusOf other).failedValid = (tree.statusOf other).failedValid) ∧
      ∀ carried, pindexMostWork = some carried → carried = pindex ∧ tip ∈ forest.ancestry pindex := by
  cases pindexMostWork with
  | some pindex =>
    obtain ⟨target, toward⟩ := loop.target pindex rfl
    refine ⟨pindex, tree, rfl, loop.going, target, rfl, fun _ => rfl, fun carried same => ?_⟩
    cases same
    exact ⟨rfl, toward⟩
  | none =>
    obtain ⟨pindex, found, search, going, target, chain, failures⟩ :=
      loop.going.findMostWorkChain (tree.setBlockIndexCandidates.length + 1) (Nat.lt_succ_self _)
    exact ⟨pindex, found, search, going, target, chain, failures, nofun⟩

theorem Loop.step {pindexMostWork : Option Uint256}
    (loop : scene.Loop peak tip pindexMostWork tree) {found : BlockTree}
    (going : scene.Going peak found) (target : scene.Target found pindex)
    (chain : found.chainActive = tree.chainActive)
    (failures : ∀ other, (found.statusOf other).failedValid = (tree.statusOf other).failedValid)
    (carried : ∀ other, pindexMostWork = some other → other = pindex ∧ tip ∈ forest.ancestry pindex)
    (apart : tip ≠ pindex) :
    ∃ invalid after newPeak newTip, found.activateBestChainStep scene.env scene.verdict pindex =
      some (invalid, after) ∧
      scene.Loop newPeak newTip (if invalid then none else some pindex) after ∧
      effort before forest newTip (if invalid then none else some pindex) after <
      effort before forest tip pindexMostWork tree := by
  have foundChain := chain.trans loop.chain
  obtain ⟨invalid, after, newPeak, steps, outcome⟩ :=
    going.activateBestChainStep loop.clean foundChain target
  have sameCount : clearCount before found = clearCount before tree := clearCount_congr failures
  unfold effort
  rcases outcome with ⟨isInvalid, stopped⟩ | ⟨newTip, valid, moved, higher⟩
  · obtain ⟨newTip, clean, newChain⟩ := stopped.going.active
    refine ⟨invalid, after, newPeak, newTip, steps, ?_, ?_⟩
    · rw [isInvalid]
      exact ⟨stopped.going, clean, newChain, nofun⟩
    · rw [isInvalid, if_pos rfl, elim_none]
      have fewer := stopped.failures.clearCount_lt
      rw [sameCount] at fewer
      have product := Nat.mul_le_mul_right (before.topHeight + 2) fewer
      rw [Nat.succ_mul] at product
      omega
  · have toward := moved.working.toward
    refine ⟨invalid, after, newPeak, newTip, steps, ?_, ?_⟩
    · rw [valid]
      refine ⟨moved.working.going, moved.working.clean, moved.working.chain, fun other same => ?_⟩
      cases same
      exact ⟨moved.working.target, toward⟩
    · rw [valid, if_neg Bool.false_ne_true, elim_some, clearCount_congr moved.failures, sameCount]
      have low := height_le_of_mem toward
      cases pindexMostWork with
      | none =>
        have bound := scene.height_le_topHeight (going.candidates pindex target.candidate).1
        rw [elim_none]
        omega
      | some other =>
        obtain ⟨same, inside⟩ := carried other rfl
        have rise := higher inside apart
        rw [elim_some, same]
        omega

theorem Loop.activateInner :
    ∀ {tree : BlockTree} {peak tip : Uint256} {pindexMostWork : Option Uint256}
      (blocksConnected : Bool),
    scene.Loop peak tip pindexMostWork tree → effort before forest tip pindexMostWork tree < turns →
    ∃ newMostWork connected after newPeak newTip,
      tree.activateInner scene.env scene.verdict startingTip turns pindexMostWork blocksConnected =
        some (newMostWork, connected, after) ∧ scene.Loop newPeak newTip newMostWork after ∧
        (newMostWork = some newTip ∨ connected = true ∧
        effort before forest newTip newMostWork after <
        effort before forest tip pindexMostWork tree) := by
  induction turns with
  | zero => exact fun _ _ enough => absurd enough (Nat.not_lt_zero _)
  | succ turns hyp =>
    intro tree peak tip pindexMostWork blocksConnected loop enough
    obtain ⟨pindex, found, search, going, target, chain, failures, carried⟩ := loop.search
    unfold BlockTree.activateInner
    rw [search]
    dsimp only
    rw [tip_eq (chain.trans loop.chain)]
    by_cases apart : tip = pindex
    · rw [if_pos (by rw [apart])]
      refine ⟨some pindex, blocksConnected, found, peak, tip, rfl,
        ⟨going, loop.clean, chain.trans loop.chain, ?_⟩, ?_⟩
      · intro other same
        cases same
        exact ⟨target, apart ▸ forest.mem_ancestry_self⟩
      · exact .inl (by rw [apart])
    · rw [if_neg fun same => apart (Option.some.inj same)]
      obtain ⟨invalid, after, newPeak, newTip, steps, next, less⟩ :=
        loop.step going target chain failures carried apart
      rw [steps]
      dsimp only
      split
      · obtain ⟨newMostWork, connected, last, lastPeak, lastTip, result, lastLoop, ends⟩ :=
          hyp true next (by omega)
        refine ⟨newMostWork, connected, last, lastPeak, lastTip, result, lastLoop, ?_⟩
        exact ends.imp_right fun progress => ⟨progress.1, progress.2.trans less⟩
      · exact ⟨_, true, after, newPeak, newTip, rfl, next, .inr ⟨rfl, less⟩⟩

theorem Loop.activateOuter {innerTurns : Nat} :
    ∀ {tree : BlockTree} {peak tip : Uint256} {pindexMostWork : Option Uint256},
    scene.Loop peak tip pindexMostWork tree →
      effort before forest tip pindexMostWork tree < innerTurns →
    effort before forest tip pindexMostWork tree < turns →
    ∃ after newPeak newTip,
      tree.activateOuter scene.env scene.verdict innerTurns turns pindexMostWork = some after ∧
      scene.Loop newPeak newTip (some newTip) after := by
  induction turns with
  | zero => exact fun _ _ enough => absurd enough (Nat.not_lt_zero _)
  | succ turns hyp =>
    intro tree peak tip pindexMostWork loop inner enough
    obtain ⟨newMostWork, connected, after, newPeak, newTip, result, next, ends⟩ :=
      loop.activateInner false inner
    unfold BlockTree.activateOuter
    rw [result]
    dsimp only
    rw [tip_eq next.chain]
    rcases ends with reached | ⟨isConnected, less⟩
    · rw [reached] at next
      refine ⟨after, newPeak, newTip, ?_, next⟩
      split <;> rfl
    · rw [isConnected, Bool.not_true, if_neg Bool.false_ne_true]
      by_cases reached : newMostWork = some newTip
      · rw [if_pos reached]
        rw [reached] at next
        exact ⟨after, newPeak, newTip, rfl, next⟩
      · rw [if_neg reached]
        exact hyp next (by omega) (by omega)

end Scene

end BlockTree

end Deviant.BlockIndex
