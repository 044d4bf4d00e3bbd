import Deviant.BlockIndex.Selection

namespace Deviant.BlockIndex

open Data List Option Primitives Forest

/-! The steps that move the active chain, and what they leave of the state of selection. -/

namespace BlockTree

namespace Scene

variable {before tree after : BlockTree} {forest : Forest Uint256} {scene : Scene before forest}
  {peak pindex pindexMostWork tip : Uint256}

/-- Two states in which the same blocks have failed. -/
def SameFailures (tree after : BlockTree) : Prop :=
  ∀ pindex, (after.statusOf pindex).failed = (tree.statusOf pindex).failed ∧
    (after.statusOf pindex).failedValid = (tree.statusOf pindex).failedValid

theorem Going.congr (going : scene.Going peak tree) (alike : Alike tree after)
    (same : SameFailures tree after)
    (candidates : after.setBlockIndexCandidates = tree.setBlockIndexCandidates)
    (clean : scene.Clean tip) (chain : after.chainActive = forest.ancestry tip) :
    scene.Going peak after where
  alike := going.alike.trans alike
  raised pindex := (same pindex).1.symm ▸ going.raised pindex
  active := ⟨tip, clean, chain⟩
  flagged pindex := by
    simp only [fun other => (same other).1, fun other => (same other).2]
    exact going.flagged pindex
  rejected pindex := (same pindex).2.symm ▸ going.rejected pindex
  unbroken pindex := by
    simp only [fun other => (same other).1, fun other => (same other).2]
    exact going.unbroken pindex
  peakClean := going.peakClean
  candidates := candidates ▸ going.candidates
  complete b := by
    simp only [fun other => (same other).2, candidates]
    exact going.complete b
  examined d := by
    rw [(same d).1, candidates]
    exact going.examined d

theorem Target.congr (target : scene.Target tree pindexMostWork)
    (same : SameFailures tree after)
    (candidates : after.setBlockIndexCandidates = tree.setBlockIndexCandidates) :
    scene.Target after pindexMostWork where
  candidate := candidates ▸ target.candidate
  best := candidates ▸ target.best
  unfailed a member := (same a).1.trans (target.unfailed a member)

theorem failed_raiseValidity (nStatus : BlockStatus) :
    (nStatus.raiseValidity nUpTo).failed = nStatus.failed ∧
      (nStatus.raiseValidity nUpTo).failedValid = nStatus.failedValid := by
  unfold BlockStatus.raiseValidity
  split
  · exact ⟨rfl, rfl⟩
  · split <;> exact ⟨rfl, rfl⟩

theorem connectedEntry_facts (pos : Nat) (entry : CBlockIndex) :
    bare (connectedEntry pos entry) = bare entry ∧
      (connectedEntry pos entry).nStatus.failed = entry.nStatus.failed ∧
    (connectedEntry pos entry).nStatus.failedValid = entry.nStatus.failedValid := by
  unfold connectedEntry
  split
  · exact ⟨rfl, rfl, rfl⟩
  · split
    · refine ⟨?_, failed_raiseValidity _⟩
      unfold bare
      rw [BlockStatus.haveData_raiseValidity]
    · refine ⟨?_, failed_raiseValidity _⟩
      unfold bare
      rw [BlockStatus.haveData_raiseValidity]

theorem Going.connectTip_accepted (going : scene.Going peak tree)
    (clean : scene.Clean pindex) (own : tree.parentOf pindex = tree.tip)
    (chain : pindex :: tree.chainActive = forest.ancestry pindex) :
    ∃ after, tree.connectTip scene.verdict pindex = some (true, after) ∧ scene.Going peak after ∧
      after.chainActive = forest.ancestry pindex ∧
      after.setBlockIndexCandidates = tree.setBlockIndexCandidates ∧ SameFailures tree after := by
  obtain ⟨sameBare, sameFailures⟩ :=
    connectedEntry_facts (scene.verdict.undoPos pindex) (tree.deref pindex)
  have accepts := clean.accepted pindex forest.mem_ancestry_self
  have known : tree.Known pindex := (going.alike.known pindex).trans clean.known
  have same : SameFailures tree
      (tree.setEntry pindex (connectedEntry (scene.verdict.undoPos pindex)
        (tree.deref pindex))) := by
    intro other
    unfold statusOf
    rw [deref_setEntry]
    split
    next here => exact here ▸ sameFailures
    · exact ⟨rfl, rfl⟩
  unfold connectTip
  rw [if_neg (not_not.mpr own), if_pos accepts]
  exact ⟨_, rfl, going.congr (alike_setEntry known sameBare) same rfl clean chain, chain, rfl, same⟩

/-- A block fails: it is marked and no candidate any more. -/
structure Fails (pindex : Uint256) (tree after : BlockTree) : Prop where
  alike : Alike tree after
  status : ∀ other, after.statusOf other =
    if other = pindex then { tree.statusOf pindex with failedValid := true } else tree.statusOf other
  candidates : after.setBlockIndexCandidates = tree.setBlockIndexCandidates.filter fun c =>
    decide (c ≠ pindex)
  chainActive : after.chainActive = tree.chainActive

theorem Fails.noteInvalid (fails : Fails pindex tree after) (other : Uint256) :
    Fails pindex tree (after.noteInvalid other) := by
  unfold BlockTree.noteInvalid
  split
  · exact ⟨fails.alike, fails.status, fails.candidates, fails.chainActive⟩
  · exact fails

theorem fails_invalidBlockFound (known : tree.Known pindex) (tip : tree.tip.isNone = false) :
    ∃ after, tree.invalidBlockFound pindex = some after ∧ Fails pindex tree after := by
  have fails : Fails pindex tree
      ((tree.setStatus pindex { tree.statusOf pindex with failedValid := true }).eraseCandidate pindex) :=
    ⟨alike_setStatus known rfl, statusOf_setStatus, rfl, rfl⟩
  refine ⟨_, ?_, fails.noteInvalid pindex⟩
  exact if_neg (by rw [Bool.not_eq_true]; exact tip)

theorem Going.fails (going : scene.Going peak tree) (rejects : scene.verdict.accepts pindex = false)
    (accepted : ∀ a ∈ forest.ancestry pindex, a ≠ pindex → scene.verdict.accepts a = true)
    (fails : Fails pindex tree after) :
    scene.Going peak after := by
  have failedValidIff : ∀ other, (after.statusOf other).failedValid = true ↔
      other = pindex ∨ (tree.statusOf other).failedValid = true := by
    intro other
    rw [fails.status]
    by_cases same : other = pindex <;> simp [same]
  have failedIff : ∀ other, (after.statusOf other).failed = true ↔ other = pindex ∨
      (tree.statusOf other).failed = true := by
    intro other
    rw [fails.status]
    by_cases same : other = pindex <;> simp [same, BlockStatus.failed]
  constructor
  · exact going.alike.trans fails.alike
  · exact fun other old => (failedIff other).mpr (.inr (going.raised other old))
  · rw [fails.chainActive]
    exact going.active
  · intro other flag
    rcases (failedIff other).mp flag with same | old
    · exact ⟨other, forest.mem_ancestry_self, (failedValidIff other).mpr (.inl same)⟩
    · obtain ⟨a, member, invalid⟩ := going.flagged other old
      exact ⟨a, member, (failedValidIff a).mpr (.inr invalid)⟩
  · intro other flag old
    rcases (failedValidIff other).mp flag with same | earlier
    · rw [same]
      exact ⟨rejects, accepted⟩
    · exact going.rejected other earlier old
  · intro other flag old
    rcases (failedIff other).mp flag with same | earlier
    · exact .inl ((failedValidIff other).mpr (.inl same))
    · rcases going.unbroken other earlier old with invalid | ⟨pprev, own, upper⟩
      · exact .inl ((failedValidIff other).mpr (.inr invalid))
      · exact .inr ⟨pprev, own, (failedIff pprev).mpr (.inr upper)⟩
  · exact going.peakClean
  · intro c member
    rw [fails.candidates] at member
    exact going.candidates c (mem_of_mem_filter member)
  · intro b known available unfailed high
    have unfailedBefore : ∀ a ∈ forest.ancestry b, (tree.statusOf a).failedValid = false := by
      intro a member
      by_contra invalid
      rw [Bool.not_eq_false] at invalid
      have now := unfailed a member
      rw [(failedValidIff a).mpr (.inr invalid)] at now
      cases now
    have differs : b ≠ pindex := by
      intro same
      have now := unfailed b forest.mem_ancestry_self
      rw [(failedValidIff b).mpr (.inl same)] at now
      cases now
    rw [fails.candidates, mem_filter, decide_eq_true_eq]
    exact ⟨going.complete b known available unfailedBefore high, differs⟩
  · intro d member
    rw [fails.candidates, mem_filter, decide_eq_true_eq, failedIff]
    rcases going.examined d member with left | flag | low
    · by_cases same : d = pindex
      · exact .inr (.inl (.inl same))
      · exact .inl ⟨left, same⟩
    · exact .inr (.inl (.inr flag))
    · exact .inr (.inr low)

theorem Target.rank_le (going : scene.Going peak tree) (target : scene.Target tree pindexMostWork)
    (clean : scene.Clean tip) : before.rank scene.env tip ≤ before.rank scene.env pindexMostWork := by
  rcases le_total (before.rank scene.env peak) (before.rank scene.env tip) with high | low
  · exact target.best tip
      (going.complete tip clean.known clean.haveData (going.not_failedValid clean) high)
  · exact low.trans (going.candidates pindexMostWork target.candidate).2.2

theorem tip_eq (chain : tree.chainActive = forest.ancestry tip) : tree.tip = some tip := by
  obtain ⟨rest, shape⟩ := forest.exists_ancestry_eq_cons tip
  rw [BlockTree.tip, chain, shape, List.head?_cons]

theorem notWorseThanTip_iff {env : IndexEnv} (alike : Alike before tree)
    (chain : tree.chainActive = forest.ancestry tip) (c : Uint256) :
    tree.notWorseThanTip env c = true ↔ before.rank env tip ≤ before.rank env c := by
  rw [notWorseThanTip, tip_eq chain, all_some, not_lessWork_iff, alike.rank]

/-- Pruning with a clean tip keeps the target.  The tip is the new peak if it is better than the old
one. -/
theorem Going.prune (going : scene.Going peak tree) (target : scene.Target tree pindexMostWork)
    (clean : scene.Clean tip) (chain : tree.chainActive = forest.ancestry tip) :
    ∃ after newPeak, tree.pruneBlockIndexCandidates scene.env = some after ∧ scene.Going newPeak after ∧
      scene.Target after pindexMostWork ∧ after.chainActive = tree.chainActive ∧
      ∀ other, after.statusOf other = tree.statusOf other := by
  have notWorse : ∀ c, tree.notWorseThanTip scene.env c = true ↔
      before.rank scene.env tip ≤ before.rank scene.env c :=
    notWorseThanTip_iff going.alike chain
  have kept : pindexMostWork ∈ tree.setBlockIndexCandidates.filter (tree.notWorseThanTip scene.env) :=
    mem_filter.mpr ⟨target.candidate, (notWorse _).mpr (target.rank_le going clean)⟩
  have left : tree.pruneBlockIndexCandidates scene.env =
      some { tree with setBlockIndexCandidates :=
               tree.setBlockIndexCandidates.filter (tree.notWorseThanTip scene.env) } := by
    exact if_neg fun empty => ne_nil_of_mem kept (isEmpty_iff.mp empty)
  have targetLeft : scene.Target
      { tree with
        setBlockIndexCandidates :=
          tree.setBlockIndexCandidates.filter (tree.notWorseThanTip scene.env) } pindexMostWork :=
    ⟨kept, fun c member => target.best c (mem_of_mem_filter member), target.unfailed⟩
  rcases le_total (before.rank scene.env peak) (before.rank scene.env tip) with high | low
  · refine ⟨_, tip, left, ?_, targetLeft, rfl, fun _ => rfl⟩
    refine ⟨going.alike, going.raised, going.active, going.flagged, going.rejected, going.unbroken,
      clean, ?_, ?_, ?_⟩
    · intro c member
      obtain ⟨old, better⟩ := mem_filter.mp member
      obtain ⟨known, available, _⟩ := going.candidates c old
      exact ⟨known, available, (notWorse c).mp better⟩
    · intro b known available unfailed better
      exact mem_filter.mpr ⟨going.complete b known available unfailed (high.trans better),
        (notWorse b).mpr better⟩
    · intro d member
      rcases going.examined d member with old | flag | worse
      · by_cases better : before.rank scene.env tip ≤ before.rank scene.env d
        · exact .inl (mem_filter.mpr ⟨old, (notWorse d).mpr better⟩)
        · exact .inr (.inr (not_le.mp better))
      · exact .inr (.inl flag)
      · exact .inr (.inr (worse.trans_le high))
  · refine ⟨_, peak, left, ?_, targetLeft, rfl, fun _ => rfl⟩
    have all : ∀ c ∈ tree.setBlockIndexCandidates, tree.notWorseThanTip scene.env c = true :=
        fun c member =>
      (notWorse c).mpr (low.trans (going.candidates c member).2.2)
    rw [filter_eq_self.mpr all]
    exact going

structure Working (scene : Scene before forest) (pindexMostWork : Uint256)
    (peak tip : Uint256) (tree : BlockTree) : Prop where
  going : scene.Going peak tree
  target : scene.Target tree pindexMostWork
  clean : scene.Clean tip
  chain : tree.chainActive = forest.ancestry tip
  toward : tip ∈ forest.ancestry pindexMostWork

def MoreFailed (before tree after : BlockTree) : Prop :=
  (∀ pindex, (tree.statusOf pindex).failedValid = true →
    (after.statusOf pindex).failedValid = true) ∧
  ∃ pindex, before.Known pindex ∧ (tree.statusOf pindex).failedValid = false ∧
    (after.statusOf pindex).failedValid = true

/-- The chain has moved to another ancestor of the target, and no block has failed. -/
structure Moved (scene : Scene before forest) (pindexMostWork : Uint256)
    (tree : BlockTree) (newPeak newTip : Uint256) (after : BlockTree) : Prop where
  working : scene.Working pindexMostWork newPeak newTip after
  failures : ∀ pindex, (after.statusOf pindex).failedValid = (tree.statusOf pindex).failedValid

structure Stopped (scene : Scene before forest)
    (tree : BlockTree) (newPeak : Uint256) (after : BlockTree) : Prop where
  going : scene.Going newPeak after
  failures : MoreFailed before tree after

section

variable (working : scene.Working pindexMostWork peak tip tree)
  (own : forest.parent pindex = some tip) (toward : pindex ∈ forest.ancestry pindexMostWork)

include working own toward

theorem Working.clean_next (accepts : scene.verdict.accepts pindex = true) :
    scene.Clean pindex := by
  obtain ⟨known, available, _⟩ := working.going.candidates pindexMostWork working.target.candidate
  have unfailed : (before.statusOf pindex).failedValid = false := by
    by_contra invalid
    have raised := working.going.raised pindex (by simp [BlockStatus.failed, invalid])
    rw [working.target.unfailed pindex toward] at raised
    cases raised
  have both : ∀ {P : Uint256 → Prop}, P pindex → (∀ a ∈ forest.ancestry tip, P a) →
      ∀ a ∈ forest.ancestry pindex, P a := by
    intro P here rest
    rw [ancestry_child own]
    exact forall_mem_cons.mpr ⟨here, rest⟩
  exact ⟨scene.known known toward, both accepts working.clean.accepted,
    both (available pindex toward) working.clean.haveData, both unfailed working.clean.unfailed⟩

theorem Working.accepted (accepts : scene.verdict.accepts pindex = true) :
    ∃ connected after newPeak, tree.connectTip scene.verdict pindex = some (true, connected) ∧
      connected.pruneBlockIndexCandidates scene.env = some after ∧
      scene.Moved pindexMostWork tree newPeak pindex after := by
  have clean := working.clean_next own toward accepts
  have parent : tree.parentOf pindex = tree.tip := by
    rw [tip_eq working.chain, (working.going.alike.shaped scene.rooted.shaped).parentOf, own]
  have chain : pindex :: tree.chainActive = forest.ancestry pindex := by
    rw [working.chain, ancestry_child own]
  obtain ⟨connected, connects, going, newChain, candidates, same⟩ :=
    working.going.connectTip_accepted clean parent chain
  have target := working.target.congr same candidates
  obtain ⟨after, newPeak, pruned, newGoing, newTarget, sameChain, status⟩ :=
    going.prune target clean newChain
  refine ⟨connected, after, newPeak, connects, pruned,
    ⟨newGoing, newTarget, clean, sameChain.trans newChain, toward⟩, ?_⟩
  intro other
  rw [status, (same other).2]

theorem Working.rejected (rejects : scene.verdict.accepts pindex = false) (last : Uint256) :
    ∃ failed after, tree.connectTip scene.verdict pindex = some (false, failed) ∧
      failed.invalidChainFound last = some after ∧ scene.Stopped tree peak after := by
  obtain ⟨known, _, _⟩ := working.going.candidates pindexMostWork working.target.candidate
  have knownHere := scene.known known toward
  have tipKnown : tree.tip.isNone = false := by rw [tip_eq working.chain, isNone_some]
  have parent : tree.parentOf pindex = tree.tip := by
    rw [tip_eq working.chain, (working.going.alike.shaped scene.rooted.shaped).parentOf, own]
  obtain ⟨failed, found, fails⟩ :=
    fails_invalidBlockFound ((working.going.alike.known pindex).trans knownHere) tipKnown
  have connects : tree.connectTip scene.verdict pindex = some (false, failed) := by
    unfold connectTip
    rw [if_neg (not_not.mpr parent), rejects, if_neg Bool.false_ne_true, found, map_some]
  have noted : failed.invalidChainFound last = some (failed.noteInvalid last) := by
    refine if_neg ?_
    rw [BlockTree.tip, fails.chainActive, ← BlockTree.tip, tipKnown]
    exact Bool.false_ne_true
  have accepted : ∀ a ∈ forest.ancestry pindex, a ≠ pindex → scene.verdict.accepts a = true := by
    intro a member differs
    rw [ancestry_child own, mem_cons] at member
    exact working.clean.accepted a (member.resolve_left differs)
  have all := fails.noteInvalid last
  refine ⟨failed, _, connects, noted, working.going.fails rejects accepted all, fun other old => ?_,
    pindex, knownHere, ?_, ?_⟩
  · rw [all.status]
    split
    · rfl
    · exact old
  · have clear := working.target.unfailed pindex toward
    exact (Bool.or_eq_false_iff.mp clear).1
  · rw [all.status, if_pos rfl]

end

section

variable (first : scene.Moved pindexMostWork tree middlePeak middleTip middle)

include first

theorem Moved.trans (last : scene.Moved pindexMostWork middle newPeak newTip after) :
    scene.Moved pindexMostWork tree newPeak newTip after where
  working := last.working
  failures pindex := (last.failures pindex).trans (first.failures pindex)

theorem Moved.stopped (last : scene.Stopped middle newPeak after) :
    scene.Stopped tree newPeak after where
  going := last.going
  failures := by
    obtain ⟨kept, pindex, known, clear, failed⟩ := last.failures
    refine ⟨fun other old => kept other ?_, pindex, known, ?_, failed⟩
    · rw [first.failures]
      exact old
    · rw [← first.failures]
      exact clear

end

theorem Working.connectBlocks :
    ∀ {tree : BlockTree} {peak tip : Uint256}, scene.Working pindexMostWork peak tip tree →
    forest.Climb tip blocks high → high ∈ forest.ancestry pindexMostWork →
    ∃ progress after newPeak,
      tree.connectBlocks scene.env scene.verdict pindexOldTip (some last) blocks =
        some (progress, after) ∧
      (progress = .invalid ∧ scene.Stopped tree newPeak after ∨
       ∃ newTip, progress ≠ .invalid ∧ scene.Moved pindexMostWork tree newPeak newTip after ∧
         tip ∈ forest.ancestry newTip ∧ (blocks ≠ [] → newTip ≠ tip) ∧
         (progress = .through → newTip = high)) := by
  induction blocks with
  | nil =>
    intro tree peak tip working climb _
    have same : tip = high := climb
    exact ⟨.through, tree, peak, rfl,
      .inr ⟨tip, nofun, ⟨working, fun _ => rfl⟩, forest.mem_ancestry_self,
      fun more => absurd rfl more, fun _ => same⟩⟩
  | cons pindex rest hyp =>
    intro tree peak tip working climb toward
    obtain ⟨own, further⟩ := climb
    have here := mem_ancestry_trans toward further.mem
    unfold BlockTree.connectBlocks
    cases accepts : scene.verdict.accepts pindex with
    | false =>
      obtain ⟨failed, after, connects, noted, stopped⟩ := working.rejected own here accepts last
      rw [connects]
      dsimp only
      rw [bind_some, noted, map_some]
      exact ⟨.invalid, after, peak, rfl, .inl ⟨rfl, stopped⟩⟩
    | true =>
      obtain ⟨connected, pruned, newPeak, connects, prunes, moved⟩ :=
        working.accepted own here accepts
      rw [connects]
      dsimp only
      rw [prunes]
      dsimp only
      have upward : tip ∈ forest.ancestry pindex := mem_ancestry_parent own
      have strict : pindex ≠ tip := by
        intro same
        have step := forest.graded own
        rw [same] at step
        omega
      split
      · exact ⟨.better, pruned, newPeak, rfl,
          .inr ⟨pindex, nofun, moved, upward, fun _ => strict, nofun⟩⟩
      · obtain ⟨progress, after, lastPeak, result, ends⟩ := hyp moved.working further toward
        refine ⟨progress, after, lastPeak, result, ends.imp ?_ ?_⟩
        · exact fun invalid => ⟨invalid.1, moved.stopped invalid.2⟩
        · rintro ⟨newTip, valid, last, rise, _, through⟩
          refine ⟨newTip, valid, moved.trans last, mem_ancestry_trans rise upward,
            fun _ same => ?_, through⟩
          have step := forest.graded own
          have low := height_le_of_mem rise
          rw [same] at low
          omega

theorem Working.connectBatches (turns : Nat) :
    ∀ {tree : BlockTree} {peak tip : Uint256}, scene.Working pindexMostWork peak tip tree →
    forest.height pindexMostWork - forest.height tip < turns → ∃ invalid after newPeak,
      tree.connectBatches scene.env scene.verdict pindexMostWork pindexOldTip turns
      (forest.height tip) = some (invalid, after) ∧
      (invalid = true ∧ scene.Stopped tree newPeak after ∨
       ∃ newTip, invalid = false ∧ scene.Moved pindexMostWork tree newPeak newTip after ∧
         tip ∈ forest.ancestry newTip ∧ (tip ≠ pindexMostWork → newTip ≠ tip)) := by
  induction turns with
  | zero => exact fun _ enough => absurd enough (Nat.not_lt_zero _)
  | succ turns hyp =>
    intro tree peak tip working enough
    have shaped := working.going.alike.shaped scene.rooted.shaped
    have level := height_le_of_mem working.toward
    unfold BlockTree.connectBatches
    rw [shaped.heightOf, shaped.ancestors]
    split
    · next done =>
      have same : tip = pindexMostWork :=
        eq_of_mem_of_height_eq working.toward (by exact_mod_cast done)
      exact ⟨false, tree, peak, rfl,
        .inr ⟨tip, rfl, ⟨working, fun _ => rfl⟩, forest.mem_ancestry_self,
        fun apart => absurd same apart⟩⟩
    next undone =>
    dsimp only
    have below : forest.height tip < forest.height pindexMostWork := by
      omega
    obtain ⟨target, targetInt, above, reached⟩ : ∃ target : Nat,
        min ((forest.height tip : Int) + 32) (forest.height pindexMostWork : Int) = target ∧
        forest.height tip < target ∧ target ≤ forest.height pindexMostWork :=
      ⟨min (forest.height tip + 32) (forest.height pindexMostWork), by omega, by omega, by omega⟩
    obtain ⟨high, found⟩ := exists_ancestorAt shaped.rooted reached
    obtain ⟨highMember, highLevel⟩ := ancestorAt_eq_some.mp found
    have known :=
      (working.going.alike.known _).trans (working.going.candidates _ working.target.candidate).1
    have tipBelow : tip ∈ forest.ancestry high :=
      mem_ancestry_of_height_le working.toward highMember (by omega)
    rw [targetInt, Int.toNat_natCast, shaped.getAncestor known reached, found, elim_some]
    have walked : ((forest.ancestry high).takeWhile fun pindexIter =>
        decide ((forest.height pindexIter : Int) ≠ (forest.height tip : Int))) =
        (forest.ancestry high).takeWhile fun a => decide (forest.height a ≠ forest.height tip) := by
      simp
    rw [walked]
    have climb := climb_of_append (takeWhile_append_ancestry tipBelow)
    cases listed : (forest.ancestry high).takeWhile fun a =>
      decide (forest.height a ≠ forest.height tip) with
    | nil =>
      rw [listed] at climb
      have same : tip = high := climb
      rw [same] at above
      omega
    | cons first rest =>
      rw [listed] at climb
      rw [List.getLast?_cons]
      obtain ⟨progress, after, newPeak, connects, ends⟩ :=
        Working.connectBlocks working climb highMember
      rw [connects]
      rcases ends with ⟨invalid, stopped⟩ | ⟨newTip, valid, moved, rise, strict, through⟩
      · rw [invalid]
        exact ⟨true, after, newPeak, rfl, .inl ⟨rfl, stopped⟩⟩
      have higher : newTip ≠ tip := strict (by simp)
      cases progress with
      | invalid => exact absurd rfl valid
      | better => exact ⟨false, after, newPeak, rfl, .inr ⟨newTip, rfl, moved, rise, fun _ => higher⟩⟩
      | through =>
        have reachedHigh : newTip = high := through rfl
        rw [reachedHigh] at moved
        obtain ⟨invalid, last, lastPeak, result, outcome⟩ := hyp moved.working (by omega)
        rw [highLevel] at result
        refine ⟨invalid, last, lastPeak, result, outcome.imp ?_ ?_⟩
        · exact fun stopped => ⟨stopped.1, moved.stopped stopped.2⟩
        · rintro ⟨lastTip, valid, further, upward, _⟩
          refine ⟨lastTip, valid, moved.trans further, mem_ancestry_trans upward tipBelow,
            fun _ same => ?_⟩
          have low := height_le_of_mem upward
          rw [same] at low
          omega

end Scene

end BlockTree

end Deviant.BlockIndex
