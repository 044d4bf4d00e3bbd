import Deviant.Budget.Voting

namespace Deviant.Budget

open Data List Primitives
open Option hiding mem_map

/-! The index of collaterals.  A transaction may pay for several objects, but the index names one of
them: it is right as long as those that share a collateral leave together. -/

theorem lookup_emplace : (emplace table key value).lookup other =
      if other = key ∧ table.lookup key = none then some value else table.lookup other := by
  unfold emplace
  cases found : table.lookup key with
  | some old => simp
  | none => simp [Table.lookup_insert_eq]

variable {feeTxId : Uint256}

namespace VoteBook

variable {O V : Type} {kind : ObjectKind O V} {book : VoteBook O V}

section

variable (kind : ObjectKind O V) (book : VoteBook O V)

def feeOf (hash : Uint256) : Option Uint256 :=
  (book.objects.lookup hash).map kind.getFeeTXHash

def Uses (feeTxId : Uint256) : Prop :=
  ∃ hash, book.feeOf kind hash = some feeTxId

def Indexes : Prop :=
  ∀ feeTxId, (book.feeTxs.lookup feeTxId).isSome ↔ book.Uses kind feeTxId

/-- What the operations keep: objects are stored under their hashes, and the index names for each
collateral one of the objects that use it. -/
structure WellIndexed : Prop where
  keyed : ∀ hash object, book.objects.lookup hash = some object → kind.getObjectHash object = hash
  target : ∀ feeTxId hash, book.feeTxs.lookup feeTxId = some hash →
    book.feeOf kind hash = some feeTxId
  complete : ∀ hash feeTxId, book.feeOf kind hash = some feeTxId →
    (book.feeTxs.lookup feeTxId).isSome

end

theorem WellIndexed.indexes (indexed : book.WellIndexed kind) : book.Indexes kind := by
  intro feeTxId
  constructor
  · intro present
    obtain ⟨hash, found⟩ := isSome_iff_exists.mp present
    exact ⟨hash, indexed.target feeTxId hash found⟩
  · rintro ⟨hash, uses⟩
    exact indexed.complete hash feeTxId uses

theorem wellIndexed_empty : WellIndexed kind {} where
  keyed _ _ found := by cases found
  target _ _ found := by cases found
  complete _ _ found := by cases found

theorem WellIndexed.emplaceObject (indexed : book.WellIndexed kind)
    (absent : book.objects.lookup (kind.getObjectHash object) = none) :
    (book.emplaceObject kind object).WellIndexed kind := by
  have lookup : ∀ hash, (book.emplaceObject kind object).objects.lookup hash =
      if hash = kind.getObjectHash object then some object else book.objects.lookup hash := by
    intro hash
    unfold VoteBook.emplaceObject
    rw [lookup_emplace, absent]
    simp
  have fees : ∀ hash, (book.emplaceObject kind object).feeOf kind hash =
      if hash = kind.getObjectHash object then some (kind.getFeeTXHash object)
      else book.feeOf kind hash := by
    intro hash
    unfold feeOf
    rw [lookup]
    split <;> rfl
  have index : ∀ feeTxId, (book.emplaceObject kind object).feeTxs.lookup feeTxId =
      if feeTxId = kind.getFeeTXHash object ∧
      book.feeTxs.lookup (kind.getFeeTXHash object) = none then
        some (kind.getObjectHash object)
      else book.feeTxs.lookup feeTxId := fun feeTxId => lookup_emplace
  constructor
  · intro hash found stored
    rw [lookup] at stored
    split at stored
    next same =>
      cases stored
      exact same.symm
    · exact indexed.keyed hash found stored
  · intro feeTxId hash found
    rw [index] at found
    rw [fees]
    split at found
    next new =>
      cases found
      rw [if_pos rfl, new.1]
    · have old := indexed.target feeTxId hash found
      rw [if_neg, old]
      rintro rfl
      unfold feeOf at old
      rw [absent] at old
      cases old
  · intro hash feeTxId uses
    rw [fees] at uses
    rw [index]
    split
    · rfl
    next new =>
      split at uses
      · cases uses
        exact isSome_iff_ne_none.mpr fun missing => new ⟨rfl, missing⟩
      · exact indexed.complete hash feeTxId uses

/-- Votes change neither the hash nor the collateral of an object. -/
structure SameFees (kind : ObjectKind O V) (book after : VoteBook O V) : Prop where
  index : after.feeTxs = book.feeTxs
  objects : ∀ hash,
    (after.objects.lookup hash).map
        (fun object => (kind.getObjectHash object, kind.getFeeTXHash object)) =
      (book.objects.lookup hash).map
        fun object => (kind.getObjectHash object, kind.getFeeTXHash object)

variable {after : VoteBook O V}

theorem SameFees.trans (first : SameFees kind book after) (second : SameFees kind after last) :
    SameFees kind book last :=
  ⟨second.index.trans first.index, fun hash => (second.objects hash).trans (first.objects hash)⟩

theorem SameFees.feeOf (same : SameFees kind book after) (hash : Uint256) :
    after.feeOf kind hash = book.feeOf kind hash := by
  have fees := congrArg (Option.map Prod.snd) (same.objects hash)
  rw [Option.map_map, Option.map_map] at fees
  exact fees

theorem SameFees.indexes_iff (same : SameFees kind book after) :
    after.Indexes kind ↔ book.Indexes kind := by
  unfold Indexes Uses
  simp [same.index, same.feeOf]

theorem WellIndexed.of_sameFees (indexed : book.WellIndexed kind) (same : SameFees kind book after) :
    after.WellIndexed kind := by
  constructor
  · intro hash object stored
    have both := same.objects hash
    rw [stored, map_some, eq_comm, map_eq_some_iff] at both
    obtain ⟨old, found, equal⟩ := both
    have hashes := congrArg Prod.fst equal
    exact hashes.symm.trans (indexed.keyed hash old found)
  · intro feeTxId hash found
    rw [same.feeOf]
    rw [same.index] at found
    exact indexed.target feeTxId hash found
  · intro hash feeTxId uses
    rw [same.feeOf] at uses
    rw [same.index]
    exact indexed.complete hash feeTxId uses

theorem sameFees_update : SameFees kind book (book.update kind fromPeer view vote).2 := by
  unfold VoteBook.update
  cases found : book.objects.lookup (kind.objectHash vote) with
  | none =>
    dsimp only
    split
    · exact ⟨rfl, fun _ => rfl⟩
    · exact ⟨rfl, fun _ => rfl⟩
  | some object =>
    dsimp only
    cases addOrUpdateVote kind.toVoteKind view.getTime (kind.mapVotes object) vote with
    | none => exact ⟨rfl, fun _ => rfl⟩
    | some votes =>
      refine ⟨rfl, fun hash => ?_⟩
      rw [Table.lookup_insert_eq]
      by_cases same : hash = kind.objectHash vote
      · rw [if_pos same, same, found, map_some, map_some, kind.getObjectHash_setVotes,
          kind.getFeeTXHash_setVotes]
      · rw [if_neg same]

theorem foldl_checkObject (updateValid : O → Bool × O) (entries : List (Sigma fun _ : Uint256 => O))
    (objects : Table Uint256 O) (feeTxs : Table Uint256 Uint256) :
    entries.foldl (checkObject kind updateValid) (objects, feeTxs) =
      ((entries.filter fun entry => (updateValid entry.2).1).foldl
          (fun kept entry => emplace kept (kind.getObjectHash (updateValid entry.2).2)
            (updateValid entry.2).2) objects,
        (entries.filter fun entry => !(updateValid entry.2).1).foldl
          (fun feeTxs entry => feeTxs.erase (kind.getFeeTXHash (updateValid entry.2).2))
          feeTxs) := by
  induction entries generalizing objects feeTxs with
  | nil => rfl
  | cons entry entries ih =>
    cases valid : (updateValid entry.2).1 <;> simp [checkObject, valid, ih]

theorem lookup_foldl_emplace (hashOf : O → Uint256) (updated : O → O)
    (entries : List (Sigma fun _ : Uint256 => O)) (distinct : entries.NodupKeys)
    (keyed : ∀ entry ∈ entries, hashOf (updated entry.2) = entry.1) (objects : Table Uint256 O)
    (fresh : ∀ entry ∈ entries, objects.lookup entry.1 = none) (hash : Uint256) :
    (entries.foldl (fun kept entry => emplace kept (hashOf (updated entry.2)) (updated entry.2))
      objects).lookup hash =
      ((entries.dlookup hash).map updated).or (objects.lookup hash) := by
  induction entries generalizing objects with
  | nil => rfl
  | cons entry entries ih =>
    obtain ⟨key, object⟩ := entry
    obtain ⟨unused, rest⟩ := nodupKeys_cons.mp distinct
    have hashed : hashOf (updated object) = key := keyed ⟨key, object⟩ mem_cons_self
    have absent : objects.lookup key = none := fresh ⟨key, object⟩ mem_cons_self
    have restFresh : ∀ entry ∈ entries,
        (emplace objects key (updated object)).lookup entry.1 = none := by
      rintro ⟨other, value⟩ member
      have used : other ∈ entries.keys := mem_keys_of_mem member
      have different : other ≠ key := fun same => unused (same ▸ used)
      rw [lookup_emplace, if_neg fun both => different both.1]
      exact fresh ⟨other, value⟩ (mem_cons_of_mem _ member)
    rw [foldl_cons, hashed, ih rest (forall_mem_cons.mp keyed).2 _ restFresh, lookup_emplace, absent]
    by_cases same : hash = key
    · have missing : entries.dlookup key = none := dlookup_eq_none.mpr unused
      rw [same, missing, dlookup_cons_eq, if_pos ⟨rfl, rfl⟩]
      rfl
    · have later := dlookup_cons_ne entries (⟨key, object⟩ : Sigma fun _ : Uint256 => O) same
      rw [if_neg fun both => same both.1, later]

theorem dlookup_filter (keep : O → Bool) {entries : List (Sigma fun _ : Uint256 => O)}
    (distinct : entries.NodupKeys) (hash : Uint256) :
    (entries.filter fun entry => keep entry.2).dlookup hash =
      (entries.dlookup hash).filter keep := by
  have filtered : (entries.filter fun entry => keep entry.2).NodupKeys :=
    distinct.sublist filter_sublist
  apply Option.ext
  intro object
  rw [← mem_def, mem_dlookup_iff filtered, mem_filter, filter_eq_some_iff, ← mem_def,
    mem_dlookup_iff distinct]

/-- A check that leaves the hash, the collateral and the votes of an object alone. -/
structure Preserving (kind : ObjectKind O V) (updateValid : O → Bool × O) : Prop where
  hash : ∀ object, kind.getObjectHash (updateValid object).2 = kind.getObjectHash object
  fee : ∀ object, kind.getFeeTXHash (updateValid object).2 = kind.getFeeTXHash object
  votes : ∀ object, kind.mapVotes (updateValid object).2 = kind.mapVotes object

variable {updateValid : O → Bool × O}

theorem Preserving.of_same (same : ∀ object,
      kind.getObjectHash (updateValid object).2 = kind.getObjectHash object ∧
    kind.getFeeTXHash (updateValid object).2 = kind.getFeeTXHash object ∧
      kind.mapVotes (updateValid object).2 = kind.mapVotes object) : Preserving kind updateValid :=
  ⟨fun object => (same object).1, fun object => (same object).2.1, fun object => (same object).2.2⟩

section

variable (kind : ObjectKind O V) (updateValid : O → Bool × O) (book : VoteBook O V)

def Drops (feeTxId : Uint256) : Prop :=
  ∃ hash object, book.objects.lookup hash = some object ∧ (updateValid object).1 = false ∧
    kind.getFeeTXHash object = feeTxId

def LeaveTogether : Prop :=
  ∀ hash other object otherObject, book.objects.lookup hash = some object →
    book.objects.lookup other = some otherObject →
      kind.getFeeTXHash object = kind.getFeeTXHash otherObject →
      (updateValid object).1 = (updateValid otherObject).1

end

section

variable (preserving : Preserving kind updateValid)

include preserving

theorem feeTxs_removeInvalid (book : VoteBook O V) (feeTxId : Uint256) :
    (book.Drops kind updateValid feeTxId →
      (book.removeInvalid kind updateValid).feeTxs.lookup feeTxId = none) ∧
    (¬ book.Drops kind updateValid feeTxId →
      (book.removeInvalid kind updateValid).feeTxs.lookup feeTxId =
      book.feeTxs.lookup feeTxId) := by
  have dropped : feeTxId ∈ (book.objects.entries.filter fun entry => !(updateValid entry.2).1).map
      (fun entry => kind.getFeeTXHash (updateValid entry.2).2) ↔ book.Drops kind updateValid feeTxId := by
    simp only [Drops, mem_map, mem_filter, Bool.not_eq_true', preserving.fee]
    constructor
    · rintro ⟨⟨hash, object⟩, ⟨member, invalid⟩, fee⟩
      exact ⟨hash, object, AList.mem_lookup_iff.mpr member, invalid, fee⟩
    · rintro ⟨hash, object, stored, invalid, fee⟩
      exact ⟨⟨hash, object⟩, ⟨AList.mem_lookup_iff.mp stored, invalid⟩, fee⟩
  unfold VoteBook.removeInvalid
  rw [foldl_checkObject]
  rw [Table.lookup_foldl_erase fun entry : Sigma fun _ : Uint256 => O =>
    kind.getFeeTXHash (updateValid entry.2).2]
  constructor
  · intro gone
    rw [if_pos (dropped.mpr gone)]
  · intro kept
    rw [if_neg (mt dropped.mp kept)]

variable (indexed : book.WellIndexed kind)

include indexed

theorem lookup_removeInvalid (hash : Uint256) :
      (book.removeInvalid kind updateValid).objects.lookup hash = ((book.objects.lookup hash).filter
        fun object => (updateValid object).1).map fun object => (updateValid object).2 := by
  have distinct : (book.objects.entries.filter fun entry => (updateValid entry.2).1).NodupKeys :=
    book.objects.nodupKeys.sublist filter_sublist
  unfold VoteBook.removeInvalid
  rw [foldl_checkObject]
  rw [lookup_foldl_emplace kind.getObjectHash (fun object => (updateValid object).2) _ distinct,
    dlookup_filter (fun object => (updateValid object).1) book.objects.nodupKeys]
  · rw [show (∅ : Table Uint256 O).lookup hash = none from rfl, or_none]
    rfl
  · rintro ⟨key, object⟩ member
    have stored : book.objects.lookup key = some object :=
      AList.mem_lookup_iff.mpr (mem_filter.mp member).1
    rw [preserving.hash]
    exact indexed.keyed key object stored
  · exact fun _ _ => rfl

theorem feeOf_removeInvalid (hash : Uint256) :
      (book.removeInvalid kind updateValid).feeOf kind hash = ((book.objects.lookup hash).filter
        fun object => (updateValid object).1).map kind.getFeeTXHash := by
  unfold feeOf
  rw [lookup_removeInvalid preserving indexed, Option.map_map]
  congr 1
  funext object
  exact preserving.fee object

theorem WellIndexed.removeInvalid (together : book.LeaveTogether kind updateValid) :
    (book.removeInvalid kind updateValid).WellIndexed kind := by
  constructor
  · intro hash object stored
    rw [lookup_removeInvalid preserving indexed, map_eq_some_iff] at stored
    obtain ⟨old, found, rfl⟩ := stored
    rw [preserving.hash]
    exact indexed.keyed hash old (filter_eq_some_iff.mp found).1
  · intro feeTxId hash found
    obtain ⟨gone, kept⟩ := book.feeTxs_removeInvalid preserving feeTxId
    by_cases removed : book.Drops kind updateValid feeTxId
    · rw [gone removed] at found
      cases found
    · rw [kept removed] at found
      obtain ⟨object, stored, fee⟩ := map_eq_some_iff.mp (indexed.target feeTxId hash found)
      have valid : (updateValid object).1 = true := by
        by_contra invalid
        exact removed ⟨hash, object, stored, Bool.eq_false_iff.mpr invalid, fee⟩
      rw [feeOf_removeInvalid preserving indexed, stored, filter_some, if_pos valid, map_some, fee]
  · intro hash feeTxId uses
    rw [feeOf_removeInvalid preserving indexed, map_eq_some_iff] at uses
    obtain ⟨object, found, fee⟩ := uses
    obtain ⟨stored, valid⟩ := filter_eq_some_iff.mp found
    rw [(book.feeTxs_removeInvalid preserving feeTxId).2]
    · apply indexed.complete hash
      unfold feeOf
      rw [stored, map_some, fee]
    · rintro ⟨other, otherObject, otherStored, invalid, otherFee⟩
      have same :=
        together hash other object otherObject stored otherStored (fee.trans otherFee.symm)
      rw [valid, invalid] at same
      cases same

theorem LeaveTogether.of_indexes (right : (book.removeInvalid kind updateValid).Indexes kind) :
    book.LeaveTogether kind updateValid := by
  have leaves : ∀ hash other object otherObject, book.objects.lookup hash = some object →
      book.objects.lookup other = some otherObject →
        kind.getFeeTXHash object = kind.getFeeTXHash otherObject → (updateValid object).1 = true →
        (updateValid otherObject).1 = true := by
    intro hash other object otherObject stored otherStored fee valid
    by_contra invalid
    have gone := (book.feeTxs_removeInvalid preserving (kind.getFeeTXHash object)).1
      ⟨other, otherObject, otherStored, Bool.eq_false_iff.mpr invalid, fee.symm⟩
    have present := (right (kind.getFeeTXHash object)).mpr ⟨hash, by
      rw [feeOf_removeInvalid preserving indexed, stored, filter_some, if_pos valid, map_some]⟩
    rw [gone] at present
    cases present
  intro hash other object otherObject stored otherStored fee
  rw [Bool.eq_iff_iff]
  exact ⟨leaves hash other object otherObject stored otherStored fee,
    leaves other hash otherObject object otherStored stored fee.symm⟩

end

theorem eraseVotes_unchanged (book : VoteBook O V) :
    (book.eraseVotes kind object).objects = book.objects ∧
      (book.eraseVotes kind object).feeTxs = book.feeTxs := by
  unfold eraseVotes
  induction (kind.mapVotes object).values generalizing book with
  | nil => exact ⟨rfl, rfl⟩
  | cons vote votes ih =>
    exact ih _

def Sole (kind : ObjectKind O V) (book : VoteBook O V) (feeTxId : Uint256) : Prop :=
  ∀ hash other, book.feeOf kind hash = some feeTxId → book.feeOf kind other = some feeTxId →
    hash = other

theorem removeByFeeTxId_absent (absent : book.feeTxs.lookup feeTxId = none) :
    book.removeByFeeTxId kind feeTxId = (false, book) := by
  unfold VoteBook.removeByFeeTxId
  rw [absent]

variable (indexed : book.WellIndexed kind)

include indexed

theorem removeByFeeTxId_present {hash : Uint256} (found : book.feeTxs.lookup feeTxId = some hash) :
      (book.removeByFeeTxId kind feeTxId).1 = true ∧
        (book.removeByFeeTxId kind feeTxId).2.objects = book.objects.erase hash ∧
      (book.removeByFeeTxId kind feeTxId).2.feeTxs = book.feeTxs.erase feeTxId := by
  obtain ⟨object, stored, _⟩ := map_eq_some_iff.mp (indexed.target feeTxId hash found)
  obtain ⟨objects, feeTxs⟩ : (book.eraseVotes kind object).objects = book.objects ∧
      (book.eraseVotes kind object).feeTxs = book.feeTxs := eraseVotes_unchanged book
  unfold VoteBook.removeByFeeTxId
  rw [found]
  dsimp only
  rw [stored]
  exact ⟨rfl, congrArg (AList.erase hash) objects, congrArg (AList.erase feeTxId) feeTxs⟩

theorem feeOf_removeByFeeTxId {hash : Uint256} (found : book.feeTxs.lookup feeTxId = some hash)
    (other : Uint256) :
    (book.removeByFeeTxId kind feeTxId).2.feeOf kind other = if other = hash then none
      else book.feeOf kind other := by
  unfold feeOf
  rw [(removeByFeeTxId_present indexed found).2.1, Table.lookup_erase_eq]
  split <;> rfl

theorem WellIndexed.removeByFeeTxId (sole : book.Sole kind feeTxId) :
    (book.removeByFeeTxId kind feeTxId).2.WellIndexed kind ∧
      ¬ (book.removeByFeeTxId kind feeTxId).2.Uses kind feeTxId := by
  cases found : book.feeTxs.lookup feeTxId with
  | none =>
    rw [removeByFeeTxId_absent found]
    refine ⟨indexed, fun uses => ?_⟩
    have present := (indexed.indexes feeTxId).mpr uses
    rw [found] at present
    cases present
  | some hash =>
    have fees := feeOf_removeByFeeTxId indexed found
    obtain ⟨_, objects, feeTxs⟩ := removeByFeeTxId_present indexed found
    have target := indexed.target feeTxId hash found
    refine ⟨⟨?_, ?_, ?_⟩, ?_⟩
    · intro other object stored
      rw [objects, Table.lookup_erase_eq] at stored
      split at stored
      · cases stored
      · exact indexed.keyed other object stored
    · intro other otherHash foundOther
      rw [feeTxs, Table.lookup_erase_eq] at foundOther
      split at foundOther
      · cases foundOther
      next same =>
        have otherTarget := indexed.target other otherHash foundOther
        rw [fees, if_neg, otherTarget]
        rintro rfl
        rw [target] at otherTarget
        cases otherTarget
        exact same rfl
    · intro otherHash other uses
      rw [fees] at uses
      split at uses
      · cases uses
      next gone =>
        rw [feeTxs, Table.lookup_erase_eq, if_neg]
        · exact indexed.complete otherHash other uses
        · rintro rfl
          exact gone (sole otherHash hash uses target)
    · rintro ⟨other, uses⟩
      rw [fees] at uses
      split at uses
      · cases uses
      next gone => exact gone (sole other hash uses target)

theorem Sole.of_removeByFeeTxId
    (unused : ¬ (book.removeByFeeTxId kind feeTxId).2.Uses kind feeTxId) : book.Sole kind feeTxId := by
  intro hash other uses otherUses
  obtain ⟨named, found⟩ := isSome_iff_exists.mp (indexed.complete hash feeTxId uses)
  have only : ∀ user, book.feeOf kind user = some feeTxId → user = named := by
    intro user used
    by_contra different
    exact unused ⟨user, by rw [feeOf_removeByFeeTxId indexed found, if_neg different, used]⟩
  exact (only hash uses).trans (only other otherUses).symm

end VoteBook

end Deviant.Budget
