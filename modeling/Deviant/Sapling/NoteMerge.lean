import Deviant.Sapling.WitnessCache

namespace Deviant.Sapling.NoteMerge

open Data Primitives

/-! The note records of a wallet transaction that is scanned again: `UpdatedNoteData` takes the new
records over, with the witnesses of the stored ones. -/

structure SaplingNoteData where
  witnesses : List (IncrementalWitness Uint256) := []
  ivk : Option Uint256 := none
  amount : Option Int := none
  address : Option (List UInt8) := none
  memo : Option (List UInt8) := none
  witnessHeight : Int := -1
  nullifier : Option Uint256 := none
deriving DecidableEq

/-- `operator==`, which does not look at the witnesses. -/
def SaplingNoteData.same (a b : SaplingNoteData) : Bool :=
  a.ivk == b.ivk && a.nullifier == b.nullifier && a.witnessHeight == b.witnessHeight &&
    a.amount == b.amount && a.address == b.address && a.memo == b.memo

abbrev NoteMap := Table SaplingOutPoint SaplingNoteData

def sameNotes (a b : NoteMap) : Bool :=
  (a.keys ++ b.keys).all fun op => (a.lookup op).any fun nd => (b.lookup op).any nd.same

inductive NoteError where
  | outOfRange
deriving DecidableEq

/-- One turn of the loop; `tmp.at` throws where the new records have no such note. -/
def keepWitnesses (_op : SaplingOutPoint) (nd : SaplingNoteData) :
    Option SaplingNoteData → Except NoteError (Option SaplingNoteData)
  | none => .error .outOfRange
  | some new => .ok (some { new with
      witnesses := if nd.witnesses.length > 0 then nd.witnesses else new.witnesses
      witnessHeight := nd.witnessHeight })

/-- Whether the records changed, and the stored ones afterwards. -/
def updatedNoteData (wtxIn wtx : NoteMap) : Except NoteError (Bool × NoteMap) :=
  let unchangedSaplingFlag := wtxIn.entries.isEmpty || sameNotes wtxIn wtx
  if !unchangedSaplingFlag then (mergeTable keepWitnesses wtx wtxIn).map fun tmp => (true, tmp)
  else .ok (false, wtx)

/-- A record for every note of either version, and what was cached for the stored ones. -/
structure Merged (wtxIn wtx after : NoteMap) : Prop where
  noted : ∀ op, (wtxIn.lookup op).isSome ∨ (wtx.lookup op).isSome → (after.lookup op).isSome
  cached : ∀ op nd, wtx.lookup op = some nd →
    ∃ kept, after.lookup op = some kept ∧ kept.witnesses = nd.witnesses ∧
    kept.witnessHeight = nd.witnessHeight

variable {wtxIn wtx after : NoteMap}

theorem isSome_of_sameNotes (same : sameNotes wtxIn wtx = true) (found : (wtxIn.lookup op).isSome) :
    (wtx.lookup op).isSome := by
  have member : op ∈ wtxIn.keys ++ wtx.keys := List.mem_append_left _ (AList.lookup_isSome.mp found)
  have both := List.all_eq_true.mp same op member
  cases stored : wtx.lookup op with
  | none => simp [stored] at both
  | some nd => rfl

/-- The new version has every stored note, without witnesses where none are stored. -/
def Contains (wtxIn wtx : NoteMap) : Prop :=
  ∀ op nd, wtx.lookup op = some nd → ∃ new, wtxIn.lookup op = some new ∧
    (nd.witnesses = [] → new.witnesses = [])

theorem merged_iff_contains :
    (∃ after, mergeTable keepWitnesses wtx wtxIn = .ok after ∧ Merged wtxIn wtx after) ↔
      Contains wtxIn wtx := by
  constructor
  · rintro ⟨after, merged, -, cached⟩ op nd stored
    have turn := mergeTable_present merged stored
    obtain ⟨kept, found, witnesses, -⟩ := cached op nd stored
    cases new : wtxIn.lookup op with
    | none =>
      rw [new] at turn
      cases turn
    | some new' =>
      rw [new, keepWitnesses, found, Except.ok.injEq, Option.some.injEq] at turn
      refine ⟨new', rfl, fun empty => ?_⟩
      simpa [← turn, empty] using witnesses
  · intro contains
    obtain ⟨after, merged⟩ : ∃ after, mergeTable keepWitnesses wtx wtxIn = .ok after := by
      refine mergeTable_exists fun op nd stored => ?_
      obtain ⟨new, found, -⟩ := contains op nd stored
      exact ⟨_, by rw [found, keepWitnesses]⟩
    have cached : ∀ op nd, wtx.lookup op = some nd → ∃ kept, after.lookup op = some kept ∧
        kept.witnesses = nd.witnesses ∧ kept.witnessHeight = nd.witnessHeight := by
      intro op nd stored
      obtain ⟨new, found, bare⟩ := contains op nd stored
      have turn := mergeTable_present merged stored
      rw [found, keepWitnesses, Except.ok.injEq] at turn
      refine ⟨_, turn.symm, ?_, rfl⟩
      cases witnesses : nd.witnesses with
      | nil => simpa [witnesses] using bare witnesses
      | cons front older => simp
    refine ⟨after, merged, ?_, cached⟩
    intro op noted
    cases stored : wtx.lookup op with
    | some nd =>
      obtain ⟨kept, found, -⟩ := cached op nd stored
      simp [found]
    | none =>
      rw [mergeTable_absent merged stored]
      simpa [stored] using noted

/-- The stored records are merged with the new ones exactly where there is nothing new, or where the
new version has all the stored notes. -/
theorem updatedNoteData_merges_iff (wtxIn wtx : NoteMap) :
    (∃ updated after, updatedNoteData wtxIn wtx = .ok (updated, after) ∧ Merged wtxIn wtx after) ↔
      wtxIn.entries.isEmpty = true ∨ sameNotes wtxIn wtx = true ∨ Contains wtxIn wtx := by
  cases unchanged : wtxIn.entries.isEmpty || sameNotes wtxIn wtx with
  | true =>
    rw [← or_assoc, ← Bool.or_eq_true, unchanged]
    refine iff_of_true ⟨false,
      wtx, by simp [updatedNoteData, unchanged], ?_, fun op nd stored => ⟨nd, stored, rfl, rfl⟩⟩
      (.inl rfl)
    rintro op (new | stored)
    · rcases Bool.or_eq_true_iff.mp unchanged with empty | same
      · have none : wtxIn.lookup op = none := by
          rw [AList.lookup, List.isEmpty_iff.mp empty]
          rfl
        simp [none] at new
      · exact isSome_of_sameNotes same new
    · exact stored
  | false =>
    rw [← or_assoc, ← Bool.or_eq_true, unchanged, ← merged_iff_contains]
    cases merged : mergeTable keepWitnesses wtx wtxIn with
    | error reason => simp [updatedNoteData, unchanged, merged, Except.map]
    | ok tmp => simp [updatedNoteData, unchanged, merged, Except.map]

def oneNote (n : Nat) : NoteMap := (∅ : NoteMap).insert ⟨1, n⟩ {}

/-- A stored note that the new version does not have is asked for. -/
theorem updatedNoteData_throws : updatedNoteData (oneNote 0) (oneNote 1) = .error .outOfRange := rfl

end Deviant.Sapling.NoteMerge
