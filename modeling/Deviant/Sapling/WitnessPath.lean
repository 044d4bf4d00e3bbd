import Deviant.Sapling.IncrementalWitness

namespace Deviant.Sapling

open Data Primitives Serialize
open List hiding count

/-! A witness that is fed every later leaf has the root of the whole tree and a path to it. -/

variable {H : Type} {hash : MerkleHash H} {d depth : Nat} {parents : List (Option H)}
  {front pair : List H}
  {tree : IncrementalMerkleTree H}

theorem gapsFrom_lookup (found : (gapsFrom depth parents d)[skip]? = some gap) :
    nextDepthFrom parents d skip = gap := by
  induction parents generalizing d skip with
  | nil =>
    obtain ⟨bound, value⟩ := List.getElem?_eq_some_iff.mp found
    simpa [nextDepthFrom, gapsFrom] using value
  | cons parent parents ih =>
    cases parent with
    | some parent => exact ih found
    | none =>
      cases skip with
      | zero => simpa [gapsFrom, nextDepthFrom] using found
      | succ skip => exact ih found

theorem Represents.gaps_eq (holds : Represents hash tree front pair) (nonempty : pair ≠ []) :
    tree.gaps depth = leafGap tree.right ++ gapsFrom depth tree.parents 1 := by
  obtain ⟨left, right, parents⟩ := tree
  cases holds.newest with
  | empty => exact absurd rfl nonempty
  | one a => rfl
  | two a b => rfl

theorem Represents.nextDepth_eq (holds : Represents hash tree front pair) (nonempty : pair ≠ [])
    (found : (tree.gaps depth)[skip]? = some gap) : tree.nextDepth skip = gap := by
  obtain ⟨left, right, parents⟩ := tree
  cases holds.newest with
  | empty => exact absurd rfl nonempty
  | one a =>
    cases skip with
    | zero => exact Option.some.inj found
    | succ skip => exact gapsFrom_lookup found
  | two a b => exact gapsFrom_lookup found

theorem gapsFrom_sublist (high : d + parents.length ≤ depth) :
    gapsFrom depth parents d <+ List.range' d (depth - d) := by
  induction parents generalizing d with
  | nil => simp [gapsFrom]
  | cons parent parents ih =>
    rw [length_cons] at high
    have above := @ih (d + 1) (by omega)
    rw [show depth - d = depth - (d + 1) + 1 by omega, List.range'_succ]
    cases parent with
    | some parent => exact above.cons d
    | none => exact above.cons_cons d

def capacity (gaps : List Nat) : Nat := (gaps.map fun gap => 2 ^ gap).sum

theorem capacity_range' (d count : Nat) :
    capacity (List.range' d count) + 2 ^ d = 2 ^ (d + count) := by
  induction count generalizing d with
  | zero => simp [capacity]
  | succ count ih =>
    have above := ih (d + 1)
    rw [show d + 1 + count = d + (count + 1) by omega, pow_succ] at above
    simp only [capacity, List.range'_succ, map_cons, sum_cons] at above ⊢
    omega

theorem Spine.capacity (spine : Spine hash d parents front) (high : d + parents.length ≤ depth) :
    Sapling.capacity (gapsFrom depth parents d) + front.length + 2 ^ d = 2 ^ depth := by
  induction spine with
  | nil d =>
    have total := capacity_range' d (depth - d)
    rw [Nat.add_sub_cancel' (by simpa using high)] at total
    simpa [gapsFrom] using total
  | @skip d parents front above ih =>
    rw [length_cons] at high
    have total := ih (by omega)
    simp only [gapsFrom, Sapling.capacity, map_cons, sum_cons] at total ⊢
    omega
  | @hold d parents front block full above ih =>
    rw [length_cons] at high
    simp only [gapsFrom, length_append, full]
    omega

theorem Represents.capacity (holds : Represents hash tree front pair) (nonempty : pair ≠ [])
    (high : tree.parents.length < depth) :
    Sapling.capacity (tree.gaps depth) + (front ++ pair).length = 2 ^ depth := by
  have total := holds.spine.capacity (show 1 + tree.parents.length ≤ depth by omega)
  rw [holds.gaps_eq nonempty]
  obtain ⟨left, right, parents⟩ := tree
  cases holds.newest with
  | empty => exact absurd rfl nonempty
  | one a =>
    simp only [leafGap, Sapling.capacity, Option.isSome_none, Bool.false_eq_true,
      if_false, cons_append, nil_append, map_cons, sum_cons, length_append, length_singleton]
      at total ⊢
    omega
  | two a b =>
    simp only [leafGap, Option.isSome_some, if_true, nil_append, length_append, length_cons,
      length_nil] at total ⊢
    omega

theorem Represents.gaps_sublist (holds : Represents hash tree front pair) (nonempty : pair ≠ [])
    (high : tree.parents.length < depth) : tree.gaps depth <+ List.range depth := by
  have above := gapsFrom_sublist (show 1 + tree.parents.length ≤ depth by omega)
  obtain ⟨lower, rfl⟩ := Nat.exists_eq_add_one.mpr (show 0 < depth by omega)
  rw [holds.gaps_eq nonempty, leafGap, range_eq_range', List.range'_succ]
  split
  · exact above.cons 0
  · exact above.cons_cons 0

namespace Filled

variable {gaps : List Nat} {filled later : List H}

variable (uncles : Filled hash gaps filled later)

include uncles

theorem length_le : filled.length ≤ gaps.length := by
  induction uncles with
  | nil gaps => exact Nat.zero_le _
  | cons full others ih => simpa using ih

theorem length_later (all : filled.length = gaps.length) : later.length = capacity gaps := by
  induction uncles with
  | nil gaps =>
    have none : gaps = [] := eq_nil_of_length_eq_zero all.symm
    simp [none, capacity]
  | cons full others ih =>
    have above := ih (by simpa using all)
    simp only [capacity, length_append, full, map_cons, sum_cons] at above ⊢
    omega

theorem concat (next : gaps[filled.length]? = some gap) (full : block.length = 2 ^ gap) :
    Filled hash gaps (filled ++ [hash.root gap block]) (later ++ block) := by
  induction uncles with
  | nil gaps =>
    cases gaps with
    | nil => cases next
    | cons first gaps =>
      obtain rfl : first = gap := Option.some.inj next
      simpa using Filled.cons full (.nil gaps)
  | cons sized others ih =>
    rw [append_assoc]
    exact .cons sized (ih (by simpa using next))

theorem supplies (others : Supplies hash (gaps.drop filled.length) extra rest) :
    Supplies hash gaps (filled ++ extra) (later ++ rest) := by
  induction uncles with
  | nil gaps => exact others
  | @cons d gaps block filled later full above ih =>
    rw [append_assoc, cons_append]
    refine ⟨?_, ?_⟩
    · rw [take_left' full]
      rfl
    · rw [drop_left' full]
      exact ih (by simpa using others)

end Filled

theorem supplies_cursor (short : rest.length ≤ 2 ^ gap) :
    Supplies hash (gap :: gaps) [hash.root gap rest] rest := by
  refine ⟨?_, ?_⟩
  · rw [take_of_length_le short]
    rfl
  · rw [drop_of_length_le short]
    exact supplies_nil gaps

theorem foldPath_pathParents (parents : List (Option H)) (d : Nat) (top : H) (queue : List H) :
    hash.foldPath d top (pathParents hash parents d queue).1 = (climb hash parents d top queue).1 ∧
      (pathParents hash parents d queue).2 = (climb hash parents d top queue).2 ∧
      (pathParents hash parents d queue).1.length = parents.length := by
  induction parents generalizing d top queue with
  | nil => exact ⟨rfl, rfl, rfl⟩
  | cons parent parents ih =>
    cases parent with
    | some parent =>
      obtain ⟨folded, left, size⟩ := ih (d + 1) (hash.combine parent top d) queue
      exact ⟨folded, left, by simp [pathParents, size]⟩
    | none =>
      obtain ⟨folded, left, size⟩ := ih (d + 1) (hash.combine top (nextFiller hash d queue).1 d)
        (nextFiller hash d queue).2
      exact ⟨folded, left, by simp [pathParents, size]⟩

theorem foldPath_pathAbove (count d : Nat) (top : H) (queue : List H) :
    hash.foldPath d top (pathAbove hash count d queue) = extend hash count d top queue ∧
      (pathAbove hash count d queue).length = count := by
  induction count generalizing d top queue with
  | zero => exact ⟨rfl, rfl⟩
  | succ count ih =>
    obtain ⟨folded, size⟩ := ih (d + 1) (hash.combine top (nextFiller hash d queue).1 d)
      (nextFiller hash d queue).2
    exact ⟨folded, by simp [pathAbove, size]⟩

theorem Spine.bits (spine : Spine hash d parents front) (small : low < 2 ^ d) (queue : List H) :
    (pathParents hash parents d queue).1.map Prod.fst =
      (List.range' d parents.length).map (front.length + low).testBit := by
  induction spine generalizing low queue with
  | nil d => rfl
  | @skip d parents front above ih =>
    obtain ⟨high, length⟩ := above.dvd_length
    have bit : (front.length + low).testBit d = false := by
      have digit := testBit_digit high false small
      simpa [length] using digit
    have higher := ih (lt_of_lt_of_le small (Nat.pow_le_pow_right (by decide) (Nat.le_succ d)))
      (nextFiller hash d queue).2
    simp [pathParents, List.range'_succ, bit, higher]
  | @hold d parents front block full above ih =>
    obtain ⟨high, length⟩ := above.dvd_length
    have index : (front ++ block).length + low = front.length + (2 ^ d + low) := by
      rw [length_append, full]
      omega
    have bit : (front.length + (2 ^ d + low)).testBit d = true := by
      have digit := testBit_digit high true small
      simpa [length] using digit
    have higher := ih (show 2 ^ d + low < 2 ^ (d + 1) by rw [pow_succ]; omega) queue
    simp only [pathParents, map_cons, length_cons, List.range'_succ, index, bit, higher]

theorem pathAbove_bits (small : index < 2 ^ d) (queue : List H) :
    (pathAbove hash count d queue).map Prod.fst = (List.range' d count).map index.testBit := by
  induction count generalizing d queue with
  | zero => rfl
  | succ count ih =>
    have higher := ih (lt_of_lt_of_le small (Nat.pow_le_pow_right (by decide) (Nat.le_succ d)))
      (nextFiller hash d queue).2
    simp [pathAbove, List.range'_succ, higher, Nat.testBit_lt_two_pow small]

/-- The path of the newest leaf: as many steps as the tree is high, at the bits of its index, and
folding to the root. -/
structure PathOf (hash : MerkleHash H) (depth index : Nat) (element top : H)
    (steps : List (Bool × H)) : Prop where
  length : steps.length = depth
  bits : steps.map Prod.fst = (List.range depth).map index.testBit
  folds : hash.foldPath 0 element steps = top

theorem pathOf_spine (spine : Spine hash 1 parents front) (high : parents.length < depth)
    (small : low < 2) (lowest : hash.foldPath 0 element [(bit, sibling)] = top)
    (parity : low.testBit 0 = bit) (queue : List H) :
    PathOf hash depth (front.length + low) element
      (extend hash (depth - (1 + parents.length)) (1 + parents.length)
        (climb hash parents 1 top queue).1 (climb hash parents 1 top queue).2)
      ((bit, sibling) :: (pathParents hash parents 1 queue).1 ++
        pathAbove hash (depth - (1 + parents.length)) (1 + parents.length)
        (pathParents hash parents 1 queue).2) := by
  obtain ⟨folded, left, size⟩ := @foldPath_pathParents _ hash parents 1 top queue
  obtain ⟨foldedAbove, sizeAbove⟩ := @foldPath_pathAbove _ hash (depth - (1 + parents.length))
    (1 + parents.length) (climb hash parents 1 top queue).1 (climb hash parents 1 top queue).2
  have bound : front.length + low < 2 ^ (1 + parents.length) := by
    have most := spine.length_add_le
    omega
  have first : (front.length + low).testBit 0 = bit := by
    obtain ⟨half, even⟩ := spine.dvd_length
    rw [← parity, even]
    simp
  have levels : List.range depth = 0 :: (List.range' 1 parents.length ++
      List.range' (1 + parents.length) (depth - (1 + parents.length))) := by
    have count : depth = parents.length + (depth - (1 + parents.length)) + 1 := by omega
    rw [List.range'_append_1, range_eq_range']
    nth_rewrite 1 [count]
    exact List.range'_succ
  refine ⟨?_, ?_, ?_⟩
  · simp only [cons_append, length_cons, length_append, left, size, sizeAbove]
    omega
  · rw [cons_append, map_cons, map_append, spine.bits small, pathAbove_bits bound, ← first, levels,
      map_cons, map_append]
  · rw [cons_append, ← singleton_append, MerkleHash.foldPath_append, lowest, length_singleton,
      MerkleHash.foldPath_append, folded, left, size, foldedAbove]

theorem Represents.pathSteps (holds : Represents hash tree front pair) (nonempty : pair ≠ [])
    (high : tree.parents.length < depth) (queue : List H) :
    ∃ element steps, (front ++ pair).getLast? = some element ∧ tree.last = .ok element ∧
      tree.pathSteps hash depth queue = .ok steps ∧
      PathOf hash depth ((front ++ pair).length - 1) element (tree.root hash depth queue) steps := by
  obtain ⟨left, right, parents⟩ := tree
  cases holds.newest with
  | empty => exact absurd rfl nonempty
  | one a =>
    have path := pathOf_spine holds.spine high (show 0 < 2 by decide)
      (show hash.foldPath 0 a [(false, (nextFiller hash 0 queue).1)] = _ from rfl) rfl
      (nextFiller hash 0 queue).2
    have index : (front ++ [a]).length - 1 = front.length + 0 := by simp
    rw [index]
    exact ⟨a, _, by simp, rfl, rfl, path⟩
  | two a b =>
    have path := pathOf_spine holds.spine high (show 1 < 2 by decide)
      (show hash.foldPath 0 b [(true, a)] = _ from rfl) rfl queue
    have index : (front ++ [a, b]).length - 1 = front.length + 1 := by simp
    rw [index]
    exact ⟨b, _, by simp, rfl, rfl, path⟩

/-- The cursor holds the leaves behind the last filled uncle. -/
inductive Growing (hash : MerkleHash H) (gap : Option Nat) (cursorDepth : Nat) :
    (cursor : Option (IncrementalMerkleTree H)) → (rest : List H) → Prop
  | idle : Growing hash gap cursorDepth none []
  | busy {cursor : IncrementalMerkleTree H} {front pair : List H} (here : gap = some cursorDepth)
      (positive : 1 ≤ cursorDepth) (holds : Represents hash cursor front pair)
      (room : (front ++ pair).length < 2 ^ cursorDepth) :
      Growing hash gap cursorDepth (some cursor) (front ++ pair)

structure Witnesses (hash : MerkleHash H) (depth : Nat) (witness : IncrementalWitness H)
    (front pair done rest : List H) : Prop where
  holds : Represents hash witness.tree front pair
  nonempty : pair ≠ []
  high : witness.tree.parents.length < depth
  uncles : Filled hash (witness.tree.gaps depth) witness.filled done
  growing : Growing hash (witness.tree.gaps depth)[witness.filled.length]? witness.cursorDepth
    witness.cursor rest

namespace Witnesses

variable {witness : IncrementalWitness H} {done rest : List H}

section

variable (holds : Witnesses hash depth witness front pair done rest)

include holds

theorem gap_lt (here : (witness.tree.gaps depth)[witness.filled.length]? = some gap) :
    gap < depth :=
  mem_range.mp ((holds.holds.gaps_sublist holds.nonempty holds.high).subset (mem_of_getElem? here))

theorem next_gap (room : (front ++ pair ++ done).length < 2 ^ depth) :
    ∃ gap, (witness.tree.gaps depth)[witness.filled.length]? = some gap := by
  have total := holds.holds.capacity holds.nonempty holds.high
  have some : witness.filled.length < (witness.tree.gaps depth).length := by
    refine lt_of_le_of_ne holds.uncles.length_le fun all => ?_
    have full := holds.uncles.length_later all
    rw [length_append] at room
    omega
  exact ⟨_, List.getElem?_eq_getElem some⟩

theorem partialPath_supplies :
    Supplies hash (witness.tree.gaps depth) (witness.partialPath hash) (done ++ rest) := by
  obtain ⟨tree, filled, cursor, cursorDepth⟩ := witness
  have uncles := holds.uncles
  cases holds.growing with
  | idle =>
    have whole := uncles.supplies (supplies_nil _)
    simpa [IncrementalWitness.partialPath] using whole
  | @busy cursor low high here positive content room =>
    refine uncles.supplies ?_
    rw [drop_eq_getElem?_toList_append, here, content.root positive room.le]
    exact supplies_cursor room.le

theorem root_eq (fits : (front ++ pair ++ (done ++ rest)).length ≤ 2 ^ depth) :
    witness.root hash depth = hash.root depth (front ++ pair ++ (done ++ rest)) :=
  holds.holds.root_filled (by have := holds.high; omega) holds.partialPath_supplies
    (fun missing => absurd missing holds.nonempty) fits

end

theorem startCursor (holds : Witnesses hash depth witness front pair done [])
    (idle : witness.cursor = none) (room : (front ++ pair ++ done).length < 2 ^ depth) :
    ∃ witness' done' rest', witness.startCursor hash depth obj = .ok witness' ∧
      Witnesses hash depth witness' front pair done' rest' ∧ done' ++ rest' = done ++ [obj] := by
  obtain ⟨gap, here⟩ := holds.next_gap room
  have low := holds.gap_lt here
  unfold IncrementalWitness.startCursor
  rw [holds.holds.nextDepth_eq holds.nonempty here]
  rw [if_neg (by omega)]
  split
  case isTrue zero =>
    subst zero
    refine ⟨_, done ++ [obj], [], rfl, ⟨holds.holds, holds.nonempty, holds.high, ?_, ?_⟩, by simp⟩
    · have next : Filled hash (witness.tree.gaps depth) (witness.filled ++ [hash.root 0 [obj]])
          (done ++ [obj]) :=
        holds.uncles.concat here rfl
      exact next
    · rw [idle]
      exact .idle
  case isFalse positive =>
    have fresh : Represents hash { left := some obj } [] [obj] :=
      ⟨.nil 1, .one obj, by simp, by simp⟩
    have single : ([] ++ [obj] : List H).length < 2 ^ gap := Nat.one_lt_two_pow positive
    exact ⟨_, done, [] ++ [obj], rfl,
      ⟨holds.holds, holds.nonempty, holds.high, holds.uncles,
        .busy here (Nat.one_le_iff_ne_zero.mpr positive) fresh single⟩, rfl⟩

theorem append (holds : Witnesses hash depth witness front pair done rest)
    (room : (front ++ pair ++ (done ++ rest)).length < 2 ^ depth) (obj : H) :
    ∃ witness' done' rest', witness.append hash depth obj = .ok witness' ∧
      Witnesses hash depth witness' front pair done' rest' ∧
      done' ++ rest' = done ++ rest ++ [obj] := by
  obtain ⟨tree, filled, cursor, cursorDepth⟩ := witness
  cases holds.growing with
  | idle =>
    rw [append_nil] at room ⊢
    exact holds.startCursor rfl room
  | @busy cursor low high here positive content small =>
    dsimp only at here positive small
    have below := holds.gap_lt here
    have deep : 2 ^ cursorDepth ≤ 2 ^ depth := Nat.pow_le_pow_right (by decide) below.le
    have appended := content.append (show 1 ≤ depth by omega) (by omega) obj
    rw [if_neg (by omega)] at appended
    obtain ⟨cursor', low', high', built, content', leaves, -⟩ := appended
    have size : (low' ++ high').length = (low ++ high).length + 1 := by
      rw [leaves, length_append, length_singleton]
    simp only [IncrementalWitness.append, built]
    dsimp only [bind, Except.bind]
    unfold IncrementalWitness.finishCursor
    split
    case isTrue complete =>
      have full := (content'.isComplete_iff positive).mp complete
      refine ⟨_, done ++ (low' ++ high'), [], rfl,
        ⟨holds.holds, holds.nonempty, holds.high, ?_, .idle⟩, ?_⟩
      · dsimp only
        rw [content'.root positive full.le]
        exact holds.uncles.concat here full
      · rw [leaves]
        simp
    case isFalse open' =>
      have less : (low' ++ high').length < 2 ^ cursorDepth := by
        refine lt_of_le_of_ne (by omega) fun full =>
          open' ((content'.isComplete_iff positive).mpr full)
      refine ⟨_, done, low' ++ high', rfl,
        ⟨holds.holds, holds.nonempty, holds.high, holds.uncles, ?_⟩, ?_⟩
      · exact .busy here positive content' less
      · rw [leaves]
        simp

end Witnesses

section Stored

variable {hash : MerkleHash Uint256} {front pair done rest : List Uint256}
    {witness : IncrementalWitness Uint256}

theorem Growing.written (growing : Growing hash gap cursorDepth cursor rest)
    (below : ∀ g ∈ gap, g < depth) (bounded : depth ≤ maxSize) :
    ∃ bytes, writeCursor depth cursor = .ok bytes ∧
      Reads (readOptional (readTree depth)) bytes cursor := by
  cases growing with
  | idle => exact ⟨[0], rfl, Reads.last (reads_serReaddata8 (show 0 < 256 by decide)) Reads.pure⟩
  | @busy cursor low high here positive content room =>
    have deep := Nat.pow_le_pow_right (show 0 < 2 by decide) (below cursorDepth here).le
    obtain ⟨written, reads⟩ :=
      content.written (content.parents_lt (by have := below _ here; omega) (by omega)) bounded
    refine ⟨1 :: treeBytes cursor, ?_, ?_⟩
    · rw [writeCursor, written]
      rfl
    · exact Reads.bind (reads_serReaddata8 (show 1 < 256 by decide)) (reads.map some)

theorem Witnesses.stored (holds : Witnesses hash depth witness front pair done rest)
    (bounded : depth ≤ maxSize) :
    ∃ bytes witness', writeWitness depth witness = .ok bytes ∧
      Reads (readWitness depth) bytes witness' ∧
      Witnesses hash depth witness' front pair done rest := by
  obtain ⟨written, reads⟩ := holds.holds.written holds.high bounded
  obtain ⟨cursorBytes, cursorWritten, cursorReads⟩ :=
    holds.growing.written (fun gap here => holds.gap_lt here) bounded
  have few : witness.filled.length ≤ maxSize := by
    have gaps := (holds.holds.gaps_sublist holds.nonempty holds.high).length_le
    rw [length_range] at gaps
    exact holds.uncles.length_le.trans (gaps.trans bounded)
  have filledReads := reads_readVector few fun uncle _ => reads_readUint256 uncle
  refine ⟨_, { witness with cursorDepth := witness.tree.nextDepth witness.filled.length }, ?_,
    reads.bind (filledReads.bind (cursorReads.last Reads.pure)), ?_⟩
  · rw [writeWitness, written, cursorWritten]
    rfl
  · refine ⟨holds.holds, holds.nonempty, holds.high, holds.uncles, ?_⟩
    have growing := holds.growing
    cases found : witness.cursor with
    | none =>
      rw [found] at growing
      cases growing
      exact .idle
    | some cursor =>
      rw [found] at growing
      cases growing with
      | busy here positive content room =>
        rw [holds.holds.nextDepth_eq holds.nonempty here]
        exact .busy here positive content room

end Stored

inductive WitnessStep where
  | append (obj : Uint256)
  | storeAndLoad
deriving DecidableEq

def WitnessStep.leaf : WitnessStep → Option Uint256
  | .append obj => some obj
  | .storeAndLoad => none

variable (hash : MerkleHash Uint256)

/-- `none` if the step throws or leaves bytes unread. -/
def WitnessStep.run (depth : Nat) (witness : IncrementalWitness Uint256) :
    WitnessStep → Option (IncrementalWitness Uint256)
  | .append obj => (witness.append hash depth obj).toOption
  | .storeAndLoad =>
    match writeWitness depth witness with
    | .error _ => none
    | .ok bytes =>
      match (readWitness depth).run bytes with
      | .ok (witness', []) => some witness'
      | _ => none

def runWitness (depth : Nat) (steps : List WitnessStep) (witness : IncrementalWitness Uint256) :
    Option (IncrementalWitness Uint256) :=
  steps.foldlM (WitnessStep.run hash depth) witness

theorem runWitness_witnesses {hash : MerkleHash Uint256} {witness : IncrementalWitness Uint256}
    {front pair : List Uint256} (bounded : depth ≤ maxSize)
    (start : Witnesses hash depth witness front pair [] [])
    (fits : (front ++ pair ++ steps.filterMap WitnessStep.leaf).length ≤ 2 ^ depth) :
    ∃ witness' done rest, runWitness hash depth steps witness = some witness' ∧
      Witnesses hash depth witness' front pair done rest ∧
      done ++ rest = steps.filterMap WitnessStep.leaf := by
  induction steps using List.reverseRecOn with
  | nil => exact ⟨witness, [], [], rfl, start, rfl⟩
  | append_singleton steps step ih =>
    rw [filterMap_append] at fits ⊢
    obtain ⟨witness', done, rest, ran, holds, leaves⟩ := ih (by simp at fits ⊢; omega)
    have last : runWitness hash depth (steps ++ [step]) witness = step.run hash depth witness' := by
      rw [runWitness] at ran ⊢
      simp [ran]
    rw [last]
    cases step with
    | append obj =>
      have room : (front ++ pair ++ (done ++ rest)).length < 2 ^ depth := by
        rw [leaves]
        simp [WitnessStep.leaf] at fits ⊢
        omega
      obtain ⟨witness'', done', rest', appended, holds', leaves'⟩ := holds.append room obj
      refine ⟨witness'', done', rest', ?_, holds', ?_⟩
      · rw [WitnessStep.run, appended]
        rfl
      · rw [leaves', leaves]
        rfl
    | storeAndLoad =>
      obtain ⟨bytes, witness'', written, reads, holds'⟩ := holds.stored bounded
      refine ⟨witness'', done, rest, ?_, holds', by simp [leaves, WitnessStep.leaf]⟩
      have read := reads []
      rw [append_nil] at read
      simp [WitnessStep.run, written, read]

/-- A witness taken right after a leaf and fed all later leaves, with any stores and loads in
between, has the root of the tree of all leaves, its leaf as element, and a path of that leaf. -/
theorem incrementalWitness_valid (depth : Nat) (positive : 1 ≤ depth) (bounded : depth ≤ maxSize)
    (before : List Uint256) (leaf : Uint256) (steps : List WitnessStep)
    (fits : (before ++ [leaf] ++ steps.filterMap WitnessStep.leaf).length ≤ 2 ^ depth) :
    ∃ tree all witness pathSteps,
      IncrementalMerkleTree.appendAll hash depth (before ++ [leaf]) = .ok tree ∧
      IncrementalMerkleTree.appendAll hash depth
      (before ++ [leaf] ++ steps.filterMap WitnessStep.leaf) = .ok all ∧
      runWitness hash depth steps tree.witness = some witness ∧
      witness.root hash depth = all.root hash depth [] ∧ witness.element = .ok leaf ∧
      witness.path hash depth = .ok (merklePath pathSteps) ∧ pathSteps.length = depth ∧
      pathSteps.map Prod.fst = (List.range depth).map before.length.testBit ∧
      hash.foldPath 0 leaf pathSteps = all.root hash depth [] := by
  have short : (before ++ [leaf]).length ≤ 2 ^ depth := by simp at fits ⊢; omega
  obtain ⟨tree, front, pair, built, holds, whole, started⟩ :=
    appendAll_represents hash positive short
  obtain ⟨all, allFront, allPair, builtAll, holdsAll, wholeAll, -⟩ :=
    appendAll_represents hash positive fits
  have nonempty : pair ≠ [] := fun missing => by simpa using started missing
  have few := holds.parents_lt positive (by rw [whole]; exact short)
  have start : Witnesses hash depth tree.witness front pair [] [] :=
    ⟨holds, nonempty, few, .nil _, .idle⟩
  obtain ⟨witness, done, rest, ran, valid, leaves⟩ :=
    runWitness_witnesses bounded start (by rw [whole]; exact fits)
  have rootAll :
      all.root hash depth [] = hash.root depth
      (before ++ [leaf] ++ steps.filterMap WitnessStep.leaf) := by
    rw [holdsAll.root positive (by rw [wholeAll]; exact fits), wholeAll]
  have root : witness.root hash depth = all.root hash depth [] := by
    rw [rootAll, valid.root_eq (by rw [whole, leaves]; exact fits), whole, leaves]
  obtain ⟨element, pathSteps, last, found, stepped, path⟩ :=
    valid.holds.pathSteps valid.nonempty valid.high (witness.partialPath hash)
  obtain rfl : leaf = element := by simpa [whole] using last
  have index : (front ++ pair).length - 1 = before.length := by simp [whole]
  rw [index] at path
  refine ⟨tree, all, witness, pathSteps, built, builtAll, ran, root, found, ?_, path.length,
    path.bits, ?_⟩
  · rw [IncrementalWitness.path, stepped]
    rfl
  · rw [path.folds, ← root]
    rfl

theorem incrementalWitness_two_later : ∃ tree all witness,
      IncrementalMerkleTree.appendAll sampleHash 2 [5, 6] = .ok tree ∧
      IncrementalMerkleTree.appendAll sampleHash 2 [5, 6, 7, 8] = .ok all ∧
      runWitness sampleHash 2 [.append 7, .storeAndLoad, .append 8] tree.witness = some witness ∧
      witness.root sampleHash 2 = all.root sampleHash 2 [] ∧ witness.element = .ok 6 := by
  obtain ⟨tree, all, witness, -, built, builtAll, ran, root, element, -⟩ :=
    incrementalWitness_valid sampleHash 2 (by decide) (by decide) [5] 6 [.append 7,
      .storeAndLoad, .append 8]
      (by decide)
  exact ⟨tree, all, witness, built, builtAll, ran, root, element⟩

end Deviant.Sapling
