import Deviant.Data.MapMerge
import Mathlib.Data.List.Sort

namespace Deviant.Net

open Data List

/-! A map limited in size (`limitedmap.h`), with a reverse index from the values to the entries. -/

inductive LimitedMapError where
  | emptyIndex
  | assertion
deriving DecidableEq

abbrev Outcome := Except LimitedMapError

/-- The reverse index is kept in the order of the values; a maximum of `0` stands for no limit. -/
structure LimitedMap (K V : Type) where
  map : Table K V := ∅
  rmap : List (V × K) := []
  nMaxSize : Nat := 0

inductive LimitedMapCall (K V : Type) where
  | insert (key : K) (value : V)
  | erase (key : K)
  | update (key : K) (value : V)
  | maxSize (s : Nat)

variable {K V : Type} [DecidableEq K] [LinearOrder V]

/-- `rmap.insert`: behind the entries of the same value. -/
def indexEntry (entry : V × K) (rmap : List (V × K)) : List (V × K) :=
  rmap.orderedInsert (fun a b => a.1 < b.1) entry

/-- `rmap.erase(it)` for the entry of the key among those of its value. -/
def unindexEntry (entry : V × K) (rmap : List (V × K)) : Outcome (List (V × K)) :=
  if entry ∈ rmap then .ok (rmap.erase entry) else .error .assertion

/-- The loop of `max_size`. -/
def shrinkTo (s : Nat) :
    (rmap : List (V × K)) → (map : Table K V) → Outcome (Table K V × List (V × K))
  | [], map => if s < map.keys.length then .error .emptyIndex else .ok (map, [])
  | entry :: rmap, map =>
    if s < map.keys.length then shrinkTo s rmap (map.erase entry.2) else .ok (map, entry :: rmap)

namespace LimitedMap

variable (limited : LimitedMap K V)

def size : Nat := limited.map.keys.length

/-- The new entry is in the map but not yet in the index when another one makes room. -/
def insert (key : K) (value : V) : Outcome (LimitedMap K V) :=
  if (limited.map.lookup key).isSome then .ok limited
  else
    let map := limited.map.insert key value
    if limited.nMaxSize ≠ 0 ∧ map.keys.length = limited.nMaxSize then
      match limited.rmap with
      | [] => .error .emptyIndex
      | entry :: rmap =>
        .ok { limited with map := map.erase entry.2, rmap := indexEntry (value, key) rmap }
    else .ok { limited with map := map, rmap := indexEntry (value, key) limited.rmap }

def erase (key : K) : Outcome (LimitedMap K V) :=
  match limited.map.lookup key with
  | none => .ok limited
  | some value => do
    let rmap ← unindexEntry (value, key) limited.rmap
    .ok { limited with map := limited.map.erase key, rmap := rmap }

def update (key : K) (value : V) : Outcome (LimitedMap K V) :=
  match limited.map.lookup key with
  | none => .ok limited
  | some old => do
    let rmap ← unindexEntry (old, key) limited.rmap
    .ok { limited with map := limited.map.insert key value, rmap := indexEntry (value, key) rmap }

def maxSize (s : Nat) : Outcome (LimitedMap K V) :=
  if s = 0 then .ok { limited with nMaxSize := s }
  else do
    let (map, rmap) ← shrinkTo s limited.rmap limited.map
    .ok { map := map, rmap := rmap, nMaxSize := s }

def call : LimitedMapCall K V → Outcome (LimitedMap K V)
  | .insert key value => limited.insert key value
  | .erase key => limited.erase key
  | .update key value => limited.update key value
  | .maxSize s => limited.maxSize s

end LimitedMap

/-- Exactly one entry for each stored key, under its current value. -/
structure Indexed (map : Table K V) (rmap : List (V × K)) : Prop where
  once : rmap.Nodup
  mem_iff : ∀ value key, (value, key) ∈ rmap ↔ map.lookup key = some value

namespace Indexed

variable {map : Table K V} {rmap rest : List (V × K)} (indexed : Indexed map rmap)

/-- An entry for the key goes to the entries of all others. -/
theorem put (once : rest.Nodup)
    (others : ∀ found other, (found, other) ∈ rest ↔ other ≠ key ∧ map.lookup other = some found)
    (value : V) :
    Indexed (map.insert key value) (indexEntry (value, key) rest) where
  once := by
    have fresh : (value, key) ∉ rest := fun member => ((others value key).mp member).1 rfl
    exact (perm_orderedInsert _ _ _).nodup_iff.mpr (nodup_cons.mpr ⟨fresh, once⟩)
  mem_iff found other := by
    rw [indexEntry, mem_orderedInsert, others, Table.lookup_insert_eq, Prod.mk.injEq]
    by_cases same : other = key
    · simp [same, eq_comm]
    · simp [same]

include indexed

theorem insert (absent : map.lookup key = none) (value : V) :
    Indexed (map.insert key value) (indexEntry (value, key) rmap) := by
  refine put indexed.once (fun found other => ?_) value
  rw [indexed.mem_iff]
  refine ⟨fun stored => ⟨?_, stored⟩, And.right⟩
  rintro rfl
  cases absent.symm.trans stored

theorem others (stored : map.lookup key = some value) (found : V) (other : K) :
    (found, other) ∈ rmap.erase (value, key) ↔ other ≠ key ∧ map.lookup other = some found := by
  rw [indexed.once.mem_erase_iff, indexed.mem_iff, Ne, Prod.mk.injEq]
  refine and_congr_left fun here => ⟨fun apart same => ?_, fun apart same => apart same.2⟩
  subst same
  exact apart ⟨Option.some.inj (here.symm.trans stored), rfl⟩

theorem erase (stored : map.lookup key = some value) :
    Indexed (map.erase key) (rmap.erase (value, key)) where
  once := indexed.once.erase _
  mem_iff found other := by
    rw [indexed.others stored, Table.lookup_erase_eq]
    by_cases same : other = key <;> simp [same]

theorem unindexEntry (stored : map.lookup key = some value) :
    unindexEntry (value, key) rmap = .ok (rmap.erase (value, key)) :=
  if_pos ((indexed.mem_iff value key).mpr stored)

theorem shrinkTo (s : Nat) :
    ∃ map' rmap', shrinkTo s rmap map = .ok (map', rmap') ∧ Indexed map' rmap' ∧
      map'.keys.length ≤ s := by
  induction rmap generalizing map with
  | nil =>
    have empty : map.keys = [] := by
      refine eq_nil_iff_forall_not_mem.mpr fun key member => ?_
      obtain ⟨value, stored⟩ := Option.isSome_iff_exists.mp (AList.lookup_isSome.mpr member)
      exact not_mem_nil ((indexed.mem_iff value key).mpr stored)
    exact ⟨map, [], by simp [Net.shrinkTo, empty], indexed, by simp [empty]⟩
  | cons entry rmap ih =>
    rw [Net.shrinkTo]
    split
    · have smaller := indexed.erase ((indexed.mem_iff entry.1 entry.2).mp mem_cons_self)
      rw [erase_cons_head] at smaller
      exact ih smaller
    · exact ⟨map, _, rfl, indexed, by omega⟩

end Indexed

namespace LimitedMap

variable (limited : LimitedMap K V) {after : LimitedMap K V} {request : LimitedMapCall K V}

def Bounded : Prop := limited.nMaxSize ≠ 0 → limited.size ≤ limited.nMaxSize

/-- What an insert of a new key may remove: the least of all, and only if one too many would be
stored. -/
def EvictsLeast (key : K) (value : V) (after : LimitedMap K V) : Prop :=
  ∀ gone least, (limited.map.insert key value).lookup gone = some least →
    after.map.lookup gone = none → limited.size = limited.nMaxSize ∧
      ∀ other kept, (limited.map.insert key value).lookup other = some kept → least ≤ kept

structure GoodCall (call : LimitedMapCall K V) (after : LimitedMap K V) : Prop where
  indexed : Indexed after.map after.rmap
  bounded : after.Bounded
  evicts : ∀ key value, call = .insert key value → limited.map.lookup key = none →
    limited.EvictsLeast key value after

/-- The calls return, one after the other, and each of them does what it should. -/
def Good (limited : LimitedMap K V) : List (LimitedMapCall K V) → Prop
  | [] => True
  | call :: calls => ∃ after, limited.call call = .ok after ∧ limited.GoodCall call after ∧
    after.Good calls

/-- A new key leaves one place free. -/
def HasRoom : LimitedMapCall K V → Prop
  | .insert key _ => limited.map.lookup key = none → limited.nMaxSize ≠ 0 →
    limited.size + 1 < limited.nMaxSize
  | _ => True

def Roomy (limited : LimitedMap K V) : List (LimitedMapCall K V) → Prop
  | [] => True
  | call :: calls => limited.HasRoom call ∧ ∀ after, limited.call call = .ok after →
    after.Roomy calls

variable {limited}

omit [LinearOrder V] in
theorem length_keys_insert (absent : limited.map.lookup key = none) :
    (limited.map.insert key value).keys.length = limited.size + 1 := by
  rw [AList.keys_insert, length_cons, erase_of_not_mem (AList.lookup_eq_none.mp absent), size]

variable (indexed : Indexed limited.map limited.rmap)

include indexed

theorem goodCall_of_hasRoom (bounded : limited.Bounded) (room : limited.HasRoom request) :
    ∃ after, limited.call request = .ok after ∧ limited.GoodCall request after := by
  cases request with
  | insert key value =>
    cases found : limited.map.lookup key with
    | some old =>
      refine ⟨limited, by simp [call, insert, found], indexed, bounded, ?_⟩
      rintro _ _ ⟨⟩ absent
      cases absent.symm.trans found
    | none =>
      have size := @length_keys_insert _ _ _ limited key value found
      have free : ¬ (limited.nMaxSize ≠ 0 ∧
          (limited.map.insert key value).keys.length = limited.nMaxSize) := by
        rintro ⟨limit, full⟩
        have := room found limit
        omega
      refine ⟨_, by simp only [call, insert, found, if_neg free]; rfl,
        indexed.insert found value, ?_, ?_⟩
      · intro limit
        have := room found limit
        simp only [LimitedMap.size] at *
        omega
      · rintro _ _ ⟨⟩ - gone least stored missing
        cases stored.symm.trans missing
  | erase key =>
    cases found : limited.map.lookup key with
    | none => exact ⟨limited, by simp [call, erase, found], indexed, bounded, nofun⟩
    | some value =>
      refine ⟨_, by simp only [call, erase, found, indexed.unindexEntry found]; rfl,
        indexed.erase found, fun limit => ?_, nofun⟩
      refine le_trans ?_ (bounded limit)
      simp [size, length_erase_le]
  | update key value =>
    cases found : limited.map.lookup key with
    | none => exact ⟨limited, by simp [call, update, found], indexed, bounded, nofun⟩
    | some old =>
      refine ⟨_, by simp only [call, update, found, indexed.unindexEntry found]; rfl,
        Indexed.put (indexed.once.erase _) (indexed.others found) value, fun limit => ?_, nofun⟩
      refine le_trans ?_ (bounded limit)
      have member : key ∈ limited.map.keys := AList.lookup_isSome.mp (by simp [found])
      simp [size, length_erase_of_mem member, Nat.sub_add_cancel (length_pos_of_mem member)]
  | maxSize s =>
    by_cases none : s = 0
    · exact ⟨{ limited with nMaxSize := s }, if_pos none, indexed, fun limit => absurd none limit,
        nofun⟩
    · obtain ⟨map, rmap, shrunk, kept, small⟩ := indexed.shrinkTo s
      refine ⟨⟨map, rmap, s⟩, ?_, kept, fun _ => small, nofun⟩
      rw [call, maxSize, if_neg none, shrunk]
      rfl

theorem hasRoom_of_goodCall (called : limited.call request = .ok after)
    (good : limited.GoodCall request after) :
    limited.HasRoom request := by
  cases request with
  | insert key value =>
    intro found limit
    have size := @length_keys_insert _ _ _ limited key value found
    simp only [call, insert, found, Option.isSome_none, Bool.false_eq_true, if_false, size] at called
    by_cases full : limited.size + 1 = limited.nMaxSize
    · rw [if_pos ⟨limit, full⟩] at called
      split at called
      · cases called
      · next entry rmap first =>
        -- the entry that goes was stored before, although one more would have had its place
        cases called
        have stored := (indexed.mem_iff entry.1 entry.2).mp (by rw [first]; exact mem_cons_self)
        have other : entry.2 ≠ key := by
          intro same
          cases found.symm.trans (same ▸ stored)
        have gone :=
          good.evicts key value rfl found entry.2 entry.1
          (by rw [AList.lookup_insert_ne other, stored]) (AList.lookup_erase _ _)
        omega
    · rw [if_neg fun both => full both.2] at called
      cases called
      have := good.bounded limit
      simp only [LimitedMap.size] at *
      omega
  | erase | update | maxSize => trivial

theorem good_iff_roomy (bounded : limited.Bounded) : limited.Good calls ↔ limited.Roomy calls := by
  induction calls generalizing limited with
  | nil => rfl
  | cons request calls ih =>
    constructor
    · rintro ⟨after, called, good, rest⟩
      refine ⟨hasRoom_of_goodCall indexed called good, fun other again => ?_⟩
      cases called.symm.trans again
      exact (ih good.indexed good.bounded).mp rest
    · rintro ⟨room, rest⟩
      obtain ⟨after, called, good⟩ := goodCall_of_hasRoom indexed bounded room
      exact ⟨after, called, good, (ih good.indexed good.bounded).mpr (rest after called)⟩

omit indexed

/-- Whatever is called in whatever order, a limited map keeps to its limit and its index exactly as
long as every new key leaves one place free. -/
theorem limitedMap_good_iff (nMaxSize : Nat) (calls : List (LimitedMapCall K V)) :
    Good { nMaxSize := nMaxSize } calls ↔ Roomy { nMaxSize := nMaxSize } calls :=
  good_iff_roomy ⟨nodup_nil, fun _ _ => by simp⟩ fun _ => Nat.zero_le _

/-- With a maximum of one the first insert reads an empty index, and with a maximum of two the
second one drops the higher value for the lower. -/
theorem limitedMap_drops_highest :
    ({ nMaxSize := 1 } : LimitedMap Nat Nat).insert 7 5 = .error .emptyIndex ∧
      ((({ nMaxSize := 2 } : LimitedMap Nat Nat).insert 7 5).bind (·.insert 8 3)).map (·.rmap) =
      .ok [(3, 8)] :=
  ⟨rfl, rfl⟩

end LimitedMap

end Deviant.Net
