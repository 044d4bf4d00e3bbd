import Deviant.BlockIndex.MostWork

namespace Deviant.BlockIndex

open Data List Primitives Forest

/-! The state of chain selection between two of its steps, and the search for the best candidate. -/

namespace BlockTree

variable {before tree after : BlockTree} {forest : Forest Uint256} {peak pindex : Uint256}

/-- What selection works with: the surroundings, the verdicts, and a tree that says which blocks
have all their data. -/
structure Scene (before : BlockTree) (forest : Forest Uint256) where
  env : IndexEnv
  verdict : Verdict
  rooted : before.Rooted forest
  linked : ∀ pindex, before.Known pindex →
    ((before.deref pindex).nChainTx ≠ 0 ↔ ∀ a ∈ forest.ancestry pindex,
      (before.statusOf a).haveData = true)

namespace Scene

variable {scene : Scene before forest}

/-- A block that selection can never lose: it and its ancestors have data and did not fail, and are
accepted. -/
structure Clean (scene : Scene before forest) (pindex : Uint256) : Prop where
  known : before.Known pindex
  accepted : ∀ a ∈ forest.ancestry pindex, scene.verdict.accepts a = true
  haveData : ∀ a ∈ forest.ancestry pindex, (before.statusOf a).haveData = true
  unfailed : ∀ a ∈ forest.ancestry pindex, (before.statusOf a).failedValid = false

/-- The state between two steps.  Candidates are complete from the best tip so far on, the peak. -/
structure Going (scene : Scene before forest) (peak : Uint256) (tree : BlockTree) : Prop where
  alike : Alike before tree
  raised : ∀ pindex, (before.statusOf pindex).failed = true → (tree.statusOf pindex).failed = true
  active : ∃ tip, scene.Clean tip ∧ tree.chainActive = forest.ancestry tip
  flagged : ∀ pindex, (tree.statusOf pindex).failed = true →
    ∃ a ∈ forest.ancestry pindex, (tree.statusOf a).failedValid = true
  rejected : ∀ pindex, (tree.statusOf pindex).failedValid = true →
    (before.statusOf pindex).failedValid = false → scene.verdict.accepts pindex = false ∧
    ∀ a ∈ forest.ancestry pindex, a ≠ pindex → scene.verdict.accepts a = true
  unbroken : ∀ pindex, (tree.statusOf pindex).failed = true →
    (before.statusOf pindex).failed = false → (tree.statusOf pindex).failedValid = true ∨
    ∃ pprev, forest.parent pindex = some pprev ∧ (tree.statusOf pprev).failed = true
  peakClean : scene.Clean peak
  candidates : ∀ c ∈ tree.setBlockIndexCandidates, before.Known c ∧
    (∀ a ∈ forest.ancestry c, (before.statusOf a).haveData = true) ∧
    before.rank scene.env peak ≤ before.rank scene.env c
  complete : ∀ b, before.Known b → (∀ a ∈ forest.ancestry b, (before.statusOf a).haveData = true) →
    (∀ a ∈ forest.ancestry b, (tree.statusOf a).failedValid = false) →
    before.rank scene.env peak ≤ before.rank scene.env b → b ∈ tree.setBlockIndexCandidates
  examined : ∀ d ∈ before.setBlockIndexCandidates, d ∈ tree.setBlockIndexCandidates ∨
    (tree.statusOf d).failed = true ∨ before.rank scene.env d < before.rank scene.env peak

theorem known (scene : Scene before forest) (known : before.Known pindex)
    (member : a ∈ forest.ancestry pindex) : before.Known a :=
  holds_of_mem scene.rooted.parents known member

theorem Clean.of_mem (clean : scene.Clean pindex) (member : a ∈ forest.ancestry pindex) :
    scene.Clean a where
  known := scene.known clean.known member
  accepted b inside := clean.accepted b (mem_ancestry_trans member inside)
  haveData b inside := clean.haveData b (mem_ancestry_trans member inside)
  unfailed b inside := clean.unfailed b (mem_ancestry_trans member inside)

section

variable (going : scene.Going peak tree)

include going

theorem Going.not_failedValid (clean : scene.Clean pindex) :
    ∀ a ∈ forest.ancestry pindex, (tree.statusOf a).failedValid = false := by
  intro a member
  by_contra failed
  rw [Bool.not_eq_false] at failed
  have rejects := (going.rejected a failed (clean.unfailed a member)).1
  rw [clean.accepted a member] at rejects
  cases rejects

theorem Going.not_failed (clean : scene.Clean pindex) : (tree.statusOf pindex).failed = false := by
  by_contra failed
  rw [Bool.not_eq_false] at failed
  obtain ⟨a, member, invalid⟩ := going.flagged pindex failed
  rw [going.not_failedValid clean a member] at invalid
  cases invalid

theorem Going.peak_mem : peak ∈ tree.setBlockIndexCandidates :=
  going.complete peak going.peakClean.known going.peakClean.haveData
    (going.not_failedValid going.peakClean) le_rfl

end

structure Target (scene : Scene before forest) (tree : BlockTree) (pindexMostWork : Uint256) :
    Prop where
  candidate : pindexMostWork ∈ tree.setBlockIndexCandidates
  best : ∀ c ∈ tree.setBlockIndexCandidates,
    before.rank scene.env c ≤ before.rank scene.env pindexMostWork
  unfailed : ∀ a ∈ forest.ancestry pindexMostWork, (tree.statusOf a).failed = false

section

variable (going : scene.Going peak tree)

include going

theorem Going.linkedOrRoot (known : before.Known pindex)
    (available : ∀ a ∈ forest.ancestry pindex, (before.statusOf a).haveData = true)
    (member : a ∈ forest.ancestry pindex) : tree.linkedOrRoot a = true := by
  have linked := (scene.linked a (scene.known known member)).mpr fun b inside =>
    available b (mem_ancestry_trans member inside)
  rw [← going.alike.nChainTx] at linked
  simp [BlockTree.linkedOrRoot, linked]

theorem Going.searchable : tree.Searchable forest where
  parentOf := (going.alike.shaped scene.rooted.shaped).parentOf
  heightOf := (going.alike.shaped scene.rooted.shaped).heightOf
  active a member b inside := by
    obtain ⟨tip, _, chain⟩ := going.active
    rw [chain] at member ⊢
    exact mem_ancestry_trans member inside
  candidates c member := by
    obtain ⟨known, available, _⟩ := going.candidates c member
    refine ⟨?_, fun a inside => ⟨(going.alike.known a).trans (scene.known known inside), ?_⟩⟩
    · rw [going.alike.haveData]
      exact available c forest.mem_ancestry_self
    · exact going.linkedOrRoot known available inside

theorem Going.searched (searched : Searched tree after) : scene.Going peak after := by
  have searchable := going.searchable
  have mono {pindex} (flag : (tree.statusOf pindex).failed = true) :
      (after.statusOf pindex).failed = true := by
    rcases searched.marked pindex with same | ⟨same, -⟩ <;> rw [same]
    · exact flag
    · exact Bool.or_true _
  have flagged (pindex) (flag : (after.statusOf pindex).failed = true) :
      ∃ a ∈ forest.ancestry pindex, (after.statusOf a).failedValid = true := by
    obtain ⟨a, member, failed⟩ := searched.failed_ancestor searchable flag
    obtain ⟨b, inside, invalid⟩ := going.flagged a failed
    exact ⟨b, mem_ancestry_trans member inside, searched.failedValid b ▸ invalid⟩
  have missed {c a} (candidate : c ∈ tree.setBlockIndexCandidates) (walked : a ∈ tree.branch c) :
      (tree.statusOf a).haveData = true := by
    rw [going.alike.haveData]
    exact (going.candidates c candidate).2.1 a (searchable.mem_branch.mp walked).1
  have lost {c} (candidate : c ∈ tree.setBlockIndexCandidates)
      (gone : c ∉ after.setBlockIndexCandidates) :
      (after.statusOf c).failed = true := by
    obtain ⟨-, failed | ⟨⟨a, walked, missing⟩, -⟩⟩ := searched.dropped c candidate gone
    · exact failed
    · cases (missed candidate walked).symm.trans missing
  constructor
  · exact going.alike.trans searched.alike
  · exact fun pindex old => mono (going.raised pindex old)
  · rw [searched.chainActive]
    exact going.active
  · exact flagged
  · intro pindex flag
    rw [searched.failedValid] at flag
    exact going.rejected pindex flag
  · intro pindex flag old
    rw [searched.failedValid]
    rcases searched.marked pindex with same | ⟨-, pprev, own, -, failed⟩
    · refine (going.unbroken pindex (same ▸ flag) old).imp_right ?_
      rintro ⟨pprev, own, upper⟩
      exact ⟨pprev, own, mono upper⟩
    · exact .inr ⟨pprev, searchable.parentOf ▸ own, failed⟩
  · exact going.peakClean
  · exact fun c member => going.candidates c (searched.kept c member)
  · intro b known available unfailed high
    have here :=
      going.complete b known available (fun a inside => searched.failedValid a ▸ unfailed a inside)
      high
    by_contra gone
    obtain ⟨a, inside, invalid⟩ := flagged b (lost here gone)
    cases (unfailed a inside).symm.trans invalid
  · intro d member
    rcases going.examined d member with left | flag | low
    · by_cases stays : d ∈ after.setBlockIndexCandidates
      · exact .inl stays
      · exact .inr (.inl (lost left stays))
    · exact .inr (.inl (mono flag))
    · exact .inr (.inr low)

end

/-- The search ends with a candidate to work towards.  Branches are marked, but no block fails. -/
theorem Going.findMostWorkChain (turns : Nat) {tree : BlockTree} (going : scene.Going peak tree)
    (enough : tree.setBlockIndexCandidates.length < turns) :
    ∃ pindexMostWork after,
      tree.findMostWorkChain scene.env turns = some (some pindexMostWork, after) ∧
      scene.Going peak after ∧ scene.Target after pindexMostWork ∧
      after.chainActive = tree.chainActive ∧ ∀ pindex,
      (after.statusOf pindex).failedValid = (tree.statusOf pindex).failedValid := by
  have searchable := going.searchable
  obtain ⟨after, ran, searched, free⟩ :=
    searchable.findMostWorkChain scene.env turns (.refl tree) enough
  have next := going.searched searched
  obtain ⟨pindexMostWork, best⟩ : ∃ pindexMostWork,
    after.bestCandidate scene.env = some pindexMostWork := by
    rw [← Option.isSome_iff_exists, Option.isSome_iff_ne_none, bestCandidate_eq_argmax, Ne,
      argmax_eq_none]
    exact ne_nil_of_mem next.peak_mem
  rw [best] at ran
  have greatest := best
  rw [bestCandidate_eq_argmax] at greatest
  refine ⟨pindexMostWork, after, ran, next,
    ⟨argmax_mem greatest, fun c other => ?_, fun a inside => ?_⟩, searched.chainActive,
    searched.failedValid⟩
  · rw [← next.alike.rank]
    exact le_of_mem_argmax other greatest
  · by_contra flag
    rw [Bool.not_eq_false] at flag
    by_cases active : a ∈ after.chainActive
    · obtain ⟨tip, clean, chain⟩ := next.active
      rw [next.not_failed (clean.of_mem (chain ▸ active))] at flag
      cases flag
    · obtain ⟨b, walked, bad⟩ := searched.failed searchable (searched.chainActive ▸ active) flag
      obtain ⟨reach, away⟩ := searchable.mem_branch.mp walked
      have usable :=
        free pindexMostWork best b (searchable.mem_branch.mpr ⟨mem_ancestry_trans inside reach,
          away⟩)
      simp [unusable, bad] at usable

end Scene

end BlockTree

end Deviant.BlockIndex
