import Deviant.Consensus.Params

namespace Deviant.Chain

open Coins Consensus List Primitives

/-! The block index as the code walks it, from a block to its ancestors. -/

/-- A pointer to a block index entry, seen with everything its `pprev` pointers lead to: the entry
first, the genesis block last.  The null pointer is empty. -/
abbrev BlockPath := List CBlockIndex

namespace BlockPath

def nHeight : BlockPath → Nat
  | [] => 0
  | pindex :: _ => pindex.nHeight

def hash : BlockPath → Uint256
  | [] => 0
  | pindex :: _ => pindex.hash

/-- The ancestor at a height; the skip pointers are a shortcut to it. -/
def getAncestor (height : Nat) : BlockPath → BlockPath
  | [] => []
  | pindex :: pprev =>
    if pindex.nHeight < height then []
    else if height < pindex.nHeight then getAncestor height pprev
    else pindex :: pprev

def walkBack : BlockPath → BlockPath → BlockPath × BlockPath
  | a :: pa, b :: pb => if a :: pa = b :: pb then (a :: pa, b :: pb) else walkBack pa pb
  | pa, pb => (pa, pb)

def lastCommonAncestor (pa pb : BlockPath) : Except Failure BlockPath :=
  let met := walkBack (if pb.nHeight < pa.nHeight then getAncestor pb.nHeight pa else pa)
    (if pa.nHeight < pb.nHeight then getAncestor pa.nHeight pb else pb)
  if met.1 = met.2 then .ok met.1 else .error (.assertion "pa == pb")

def Numbered : BlockPath → Prop
  | [] => True
  | pindex :: pprev => pindex.nHeight = pprev.length ∧ Numbered pprev

instance decidableNumbered : (path : BlockPath) → Decidable (Numbered path)
  | [] => .isTrue trivial
  | pindex :: pprev =>
    match decEq pindex.nHeight pprev.length, decidableNumbered pprev with
    | .isTrue here, .isTrue below => .isTrue ⟨here, below⟩
    | .isFalse here, _ => .isFalse fun numbered => here numbered.1
    | _, .isFalse below => .isFalse fun numbered => below numbered.2

theorem Numbered.suffix (numbered : Numbered path) (suffix : ancestor <:+ path) :
    Numbered ancestor := by
  induction path with
  | nil =>
    rw [suffix_nil.mp suffix]
    trivial
  | cons pindex pprev ih =>
    rcases suffix_cons_iff.mp suffix with rfl | below
    · exact numbered
    · exact ih numbered.2 below

theorem Numbered.nHeight (numbered : Numbered path) : path.nHeight = path.length - 1 := by
  cases path with
  | nil => rfl
  | cons pindex pprev =>
    exact numbered.1

theorem getAncestor_suffix (numbered : Numbered path) (suffix : pindex :: pprev <:+ path) :
    getAncestor pindex.nHeight path = pindex :: pprev := by
  induction path with
  | nil => cases suffix_nil.mp suffix
  | cons top below ih =>
    have here : pindex.nHeight = pprev.length := (numbered.suffix suffix).1
    rcases suffix_cons_iff.mp suffix with same | deeper
    · injection same with sameIndex samePrev
      subst sameIndex samePrev
      simp [getAncestor]
    · have length := deeper.length_le
      have topHeight : top.nHeight = below.length := numbered.1
      rw [length_cons] at length
      rw [getAncestor, if_neg (by omega), if_pos (by omega)]
      exact ih numbered.2 deeper

theorem getAncestor_spec (numbered : Numbered path) (inRange : height < path.length) :
    getAncestor height path <:+ path ∧ (getAncestor height path).length = height + 1 := by
  induction path with
  | nil => cases inRange
  | cons top below ih =>
    have topHeight : top.nHeight = below.length := numbered.1
    rw [length_cons] at inRange
    rw [getAncestor, if_neg (by omega)]
    split
    · obtain ⟨suffix, length⟩ := ih numbered.2 (by omega)
      exact ⟨suffix.trans (suffix_cons top below), length⟩
    · exact ⟨suffix_rfl, by rw [length_cons]; omega⟩

theorem walkBack_meets (sameLength : pa.length = pb.length) (fromA : [genesis] <:+ pa)
    (fromB : [genesis] <:+ pb) :
    ∃ fork, walkBack pa pb = (fork, fork) ∧ fork <:+ pa ∧ fork <:+ pb ∧ fork ≠ [] := by
  induction pa generalizing pb with
  | nil => cases suffix_nil.mp fromA
  | cons a pa ih =>
    cases pb with
    | nil => cases suffix_nil.mp fromB
    | cons b pb =>
      rw [walkBack]
      split
      next same =>
        rw [same]
        exact ⟨b :: pb, rfl, suffix_rfl, suffix_rfl, cons_ne_nil b pb⟩
      next differ =>
        rw [length_cons, length_cons, Nat.add_right_cancel_iff] at sameLength
        -- Blocks that differ cannot both be the genesis block.
        have deeper : [genesis] <:+ pa ∧ [genesis] <:+ pb := by
          rcases suffix_cons_iff.mp fromA with atA | belowA
          · rcases suffix_cons_iff.mp fromB with atB | belowB
            · exact absurd (atA.symm.trans atB) differ
            · injection atA with _ nil
              rw [← nil, length_nil] at sameLength
              rw [eq_nil_of_length_eq_zero sameLength.symm] at belowB
              cases suffix_nil.mp belowB
          · rcases suffix_cons_iff.mp fromB with atB | belowB
            · injection atB with _ nil
              rw [← nil, length_nil] at sameLength
              rw [eq_nil_of_length_eq_zero sameLength] at belowA
              cases suffix_nil.mp belowA
            · exact ⟨belowA, belowB⟩
        obtain ⟨fork, met, onA, onB, nonempty⟩ := ih sameLength deeper.1 deeper.2
        exact ⟨fork, met, onA.trans (suffix_cons a pa), onB.trans (suffix_cons b pb), nonempty⟩

theorem aligned (numberedA : Numbered pa) (numberedB : Numbered pb) (fromA : [genesis] <:+ pa)
    (nonempty : pb ≠ []) :
    let cut := if pb.nHeight < pa.nHeight then getAncestor pb.nHeight pa else pa
    cut <:+ pa ∧ cut.length = min pa.length pb.length ∧ [genesis] <:+ cut := by
  have heightA := numberedA.nHeight
  have heightB := numberedB.nHeight
  have lengthA := fromA.length_le
  have lengthB := length_pos_iff.mpr nonempty
  rw [length_singleton] at lengthA
  intro cut
  have spec : cut <:+ pa ∧ cut.length = min pa.length pb.length := by
    simp only [cut]
    split
    · obtain ⟨suffix, length⟩ := getAncestor_spec numberedA (by omega : pb.nHeight < pa.length)
      exact ⟨suffix, by omega⟩
    · exact ⟨suffix_rfl, by omega⟩
  refine ⟨spec.1, spec.2, suffix_of_suffix_length_le fromA spec.1 ?_⟩
  rw [length_singleton]
  omega

theorem lastCommonAncestor_spec (numberedA : Numbered pa) (numberedB : Numbered pb)
    (fromA : [genesis] <:+ pa) (fromB : [genesis] <:+ pb) :
    ∃ fork, lastCommonAncestor pa pb = .ok fork ∧ fork <:+ pa ∧ fork <:+ pb ∧ fork ≠ [] := by
  have nonemptyA : pa ≠ [] := fun nil => by cases suffix_nil.mp (nil ▸ fromA)
  have nonemptyB : pb ≠ [] := fun nil => by cases suffix_nil.mp (nil ▸ fromB)
  obtain ⟨suffixA, lengthA, genesisA⟩ := aligned numberedA numberedB fromA nonemptyB
  obtain ⟨suffixB, lengthB, genesisB⟩ := aligned numberedB numberedA fromB nonemptyA
  obtain ⟨fork, met, onA, onB, nonempty⟩ := walkBack_meets (by omega) genesisA genesisB
  refine ⟨fork, ?_, onA.trans suffixA, onB.trans suffixB, nonempty⟩
  simp [lastCommonAncestor, met]

end BlockPath

/-- `mapBlockIndex`, every entry with the path its pointers make. -/
structure BlockMap where
  genesis : CBlockIndex
  find : Uint256 → Option BlockPath
  named : ∀ hash path, find hash = some path → path.hash = hash
  numbered : ∀ hash path, find hash = some path → path.Numbered
  rooted : ∀ hash path, find hash = some path → [genesis] <:+ path

end Deviant.Chain
