import Deviant.BlockIndex.Activation

namespace Deviant.BlockIndex

open Data Primitives Forest

/-! The skip list of the block index finds ancestors. -/

theorem invertLowestOne_le (n : Nat) : invertLowestOne n ≤ n - 1 := Nat.and_le_right

theorem getSkipHeight_lt {height : Nat} (positive : 0 < height) :
    getSkipHeight height < height := by
  unfold getSkipHeight
  have first := invertLowestOne_le height
  have second := invertLowestOne_le (height - 1)
  have third := invertLowestOne_le (invertLowestOne (height - 1))
  split
  · exact positive
  · split <;> omega

namespace BlockTree

variable {tree : BlockTree} {forest : Forest Uint256} {pindex tip : Uint256}

def Known (tree : BlockTree) (pindex : Uint256) :
    Prop := (tree.mapBlockIndex.lookup pindex).isSome = true

/-- The pointers of the entries: parents one level below, and ancestors at the height of the skip
list. -/
structure Shaped (tree : BlockTree) (forest : Forest Uint256) : Prop where
  parentOf : tree.parentOf = forest.parent
  heightOf : tree.heightOf = forest.height
  rooted : ∀ pindex, forest.parent pindex = none → forest.height pindex = 0
  pskip : ∀ pindex pprev, forest.parent pindex = some pprev →
    (tree.deref pindex).pskip = forest.ancestorAt pprev (getSkipHeight (forest.height pindex))

/-- All blocks are there that the others descend from, one root among them. -/
structure Rooted (tree : BlockTree) (forest : Forest Uint256) : Prop where
  shaped : tree.Shaped forest
  parents : ∀ pindex pprev, forest.parent pindex = some pprev → tree.Known pprev
  genesis : ∀ a b, tree.Known a → tree.Known b → forest.parent a = none → forest.parent b = none →
    a = b

theorem Rooted.meet (rooted : tree.Rooted forest) (known : tree.Known a) (otherKnown : tree.Known b) :
    ∃ root ∈ forest.ancestry a, root ∈ forest.ancestry b := by
  obtain ⟨root, member, top⟩ := forest.exists_root a
  obtain ⟨other, otherMember, otherTop⟩ := forest.exists_root b
  have same := rooted.genesis root other (holds_of_mem rooted.parents known member)
    (holds_of_mem rooted.parents otherKnown otherMember) top otherTop
  exact ⟨root, member, same ▸ otherMember⟩

theorem Shaped.ancestors (shaped : tree.Shaped forest) : tree.ancestors = forest.ancestry := by
  unfold BlockTree.ancestors ancestry
  rw [shaped.parentOf, shaped.heightOf]

theorem lookup_bind_pprev :
    (tree.mapBlockIndex.lookup pindex).bind (·.pprev) = tree.parentOf pindex := by
  unfold parentOf deref
  cases tree.mapBlockIndex.lookup pindex <;> rfl

theorem lookup_bind_pskip :
    (tree.mapBlockIndex.lookup pindex).bind (·.pskip) = (tree.deref pindex).pskip := by
  unfold deref
  cases tree.mapBlockIndex.lookup pindex <;> rfl

theorem Shaped.walkToAncestor (shaped : tree.Shaped forest) :
    ∀ {heightWalk : Nat} {pindexWalk : Uint256}, forest.height pindexWalk = heightWalk →
      level ≤ heightWalk → heightWalk - level ≤ fuel →
      BlockIndex.walkToAncestor tree.mapBlockIndex level fuel heightWalk pindexWalk =
      forest.ancestorAt pindexWalk level := by
  induction fuel with
  | zero =>
    intro heightWalk pindexWalk here above enough
    have same : level = forest.height pindexWalk := by omega
    rw [same, forest.ancestorAt_self]
    rfl
  | succ fuel hyp =>
    intro heightWalk pindexWalk here above enough
    rw [BlockIndex.walkToAncestor]
    split
    · have same : level = forest.height pindexWalk := by omega
      rw [same, forest.ancestorAt_self]
    next higher =>
    cases own : forest.parent pindexWalk with
    | none =>
      have bottom := shaped.rooted pindexWalk own
      omega
    | some pprev =>
      have step := forest.graded own
      have skipLower := @getSkipHeight_lt heightWalk (by omega)
      rw [ancestorAt_child own (by omega)]
      dsimp only
      split
      · next skipped =>
        obtain ⟨target, found⟩ := exists_ancestorAt shaped.rooted
          (show getSkipHeight heightWalk ≤ forest.height pprev by omega)
        obtain ⟨_, targetLevel⟩ := ancestorAt_eq_some.mp found
        rw [lookup_bind_pskip, shaped.pskip pindexWalk pprev own, here, found, Option.bind_some,
          ancestorAt_trans found (by omega)]
        exact hyp targetLevel (by omega) (by omega)
      · rw [lookup_bind_pprev, shaped.parentOf, own, Option.bind_some]
        exact hyp (by omega) (by omega) (by omega)

theorem Shaped.getAncestor (shaped : tree.Shaped forest)
    (known : (tree.mapBlockIndex.lookup pindex).isSome = true)
    (within : level ≤ forest.height pindex) :
    BlockIndex.getAncestor tree.mapBlockIndex pindex level = forest.ancestorAt pindex level := by
  obtain ⟨entry, found⟩ := Option.isSome_iff_exists.mp known
  have height : entry.nHeight = forest.height pindex := by
    rw [← shaped.heightOf, BlockTree.heightOf, deref_of_lookup found]
  unfold BlockIndex.getAncestor
  rw [found]
  dsimp only
  rw [if_neg (by omega)]
  exact shaped.walkToAncestor height.symm (by omega) (by omega)

/-- The ancestor at a lower height, with all that the block and a block there have in common. -/
theorem Shaped.exists_getAncestor (shaped : tree.Shaped forest) (known : tree.Known pindex)
    (within : forest.height low ≤ forest.height pindex) :
    ∃ start, BlockIndex.getAncestor tree.mapBlockIndex pindex (forest.height low) = some start ∧
      forest.height start = forest.height low ∧ start ∈ forest.ancestry pindex ∧
      ∀ a ∈ forest.ancestry pindex, a ∈ forest.ancestry low → a ∈ forest.ancestry start := by
  obtain ⟨start, found⟩ := exists_ancestorAt shaped.rooted within
  obtain ⟨member, level⟩ := ancestorAt_eq_some.mp found
  refine ⟨start, (shaped.getAncestor known within).trans found, level, member,
    fun a inside below => ?_⟩
  have lower := height_le_of_mem below
  exact mem_ancestry_of_height_le inside member (by omega)

theorem Rooted.findFork (rooted : tree.Rooted forest) (known : tree.Known pindex)
    (tipKnown : tree.Known tip) (chain : tree.chainActive = forest.ancestry tip) :
    ∃ fork, tree.findFork pindex = some fork ∧ fork ∈ forest.ancestry tip ∧
      fork ∈ forest.ancestry pindex ∧ ∀ a ∈ forest.ancestry pindex, a ∈ forest.ancestry tip →
      a ∈ forest.ancestry fork := by
  have shaped := rooted.shaped
  obtain ⟨below, shape⟩ := forest.exists_ancestry_eq_cons tip
  have tall : below.length = forest.height tip := by
    have length := length_ancestry shaped.rooted tip
    rw [shape, List.length_cons] at length
    omega
  -- the walk starts at the block itself or at its ancestor at the height of the tip
  obtain ⟨start, started, startMember, startLow⟩ : ∃ start,
      (if forest.height pindex > below.length
        then BlockIndex.getAncestor tree.mapBlockIndex pindex below.length
        else some pindex) = some start ∧ start ∈ forest.ancestry pindex ∧
      ∀ a ∈ forest.ancestry pindex, a ∈ forest.ancestry tip → a ∈ forest.ancestry start := by
    rw [tall]
    split
    · next higher =>
      obtain ⟨start, found, -, common⟩ := shaped.exists_getAncestor known higher.le
      exact ⟨start, found, common⟩
    · exact ⟨pindex, rfl, forest.mem_ancestry_self, fun a inside _ => inside⟩
  obtain ⟨root, rootMember, rootActive⟩ := rooted.meet known tipKnown
  cases search : (forest.ancestry start).find? tree.chainActive.contains with
  | none =>
    have missed := List.find?_eq_none.mp search root (startLow root rootMember rootActive)
    rw [List.contains_iff_mem, chain] at missed
    exact absurd rootActive missed
  | some fork =>
    have active := List.find?_some search
    rw [List.contains_iff_mem, chain] at active
    refine ⟨fork, ?_, active, mem_ancestry_trans startMember (List.mem_of_find?_eq_some search), ?_⟩
    · unfold BlockTree.findFork
      rw [chain, shape]
      dsimp only
      rw [shaped.heightOf, started, Option.bind_some, shaped.ancestors, ← shape, ← chain, search]
    · intro a inside member
      refine mem_ancestry_of_find search (startLow a inside member) ?_
      rw [List.contains_iff_mem, chain]
      exact member

end BlockTree

end Deviant.BlockIndex
