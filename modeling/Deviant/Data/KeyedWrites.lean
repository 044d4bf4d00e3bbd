import Mathlib.Data.List.AList

namespace Deviant.Data

open Function List Option

/-! Lists of keyed writes applied to a total map, the last write to a key winning. -/

variable {κ α β : Type} [DecidableEq κ]

def applyWrites (map : κ → α) : List (κ × α) → κ → α
  | [] => map
  | (key, value) :: rest => applyWrites (update map key value) rest

@[simp] theorem applyWrites_nil (map : κ → α) : applyWrites map [] = map := rfl

theorem applyWrites_append (map : κ → α) (first second : List (κ × α)) :
    applyWrites map (first ++ second) = applyWrites (applyWrites map first) second := by
  induction first generalizing map with
  | nil => rfl
  | cons write rest ih => exact ih _

variable {map : κ → α} {writes : List (κ × α)} {key : κ}

theorem applyWrites_untouched (untouched : key ∉ writes.map Prod.fst) :
    applyWrites map writes key = map key := by
  induction writes generalizing map with
  | nil => rfl
  | cons write rest ih =>
    obtain ⟨first, value⟩ := write
    simp only [map_cons, mem_cons, not_or] at untouched
    exact (ih untouched.2).trans (update_of_ne untouched.1 value map)

theorem applyWrites_congr {map' : κ → α} (agree : key ∈ writes.map Prod.fst ∨ map key = map' key) :
    applyWrites map writes key = applyWrites map' writes key := by
  induction writes generalizing map map' with
  | nil =>
    rcases agree with member | same
    · cases member
    · exact same
  | cons write rest ih =>
    obtain ⟨first, value⟩ := write
    apply ih
    by_cases same : key = first
    · subst same
      exact .inr (by simp)
    · rcases agree with member | equal
      · simp only [map_cons, mem_cons] at member
        exact .inl (member.resolve_left same)
      · exact .inr (by rw [update_of_ne same, update_of_ne same, equal])

theorem applyWrites_induction (Holds : α → Prop) (before : Holds (map key))
    (each : ∀ value, (key, value) ∈ writes → Holds value) : Holds (applyWrites map writes key) := by
  induction writes generalizing map with
  | nil => exact before
  | cons write rest ih =>
    obtain ⟨first, value⟩ := write
    apply ih
    · by_cases same : key = first
      · subst same
        rw [update_self]
        exact each value mem_cons_self
      · rw [update_of_ne same]
        exact before
    · exact fun later member => each later (mem_cons_of_mem _ member)

theorem applyWrites_idle (idle : ∀ write ∈ writes, map write.1 = write.2) :
    applyWrites map writes = map := by
  funext key
  exact applyWrites_induction (· = map key) rfl fun value member => (idle _ member).symm

theorem applyWrites_written {value : α} (member : (key, value) ∈ writes)
    (only : ∀ other, (key, other) ∈ writes → other = value) : applyWrites map writes key = value := by
  have touched : key ∈ writes.map Prod.fst := mem_map_of_mem member
  have anywhere : applyWrites (fun _ => value) writes key = value :=
    applyWrites_induction (· = value) rfl only
  exact (applyWrites_congr (.inl touched)).trans anywhere

theorem applyWrites_named (base : κ → α) (each : ∀ write ∈ writes, write.2 = base write.1)
    (named : key ∈ writes.map Prod.fst) : applyWrites map writes key = base key := by
  obtain ⟨write, member, rfl⟩ := mem_map.mp named
  rw [← each write member]
  exact applyWrites_written member fun other found => (each _ found).trans (each write member).symm

theorem applyWrites_eq_self_iff (distinct : (writes.map Prod.fst).Nodup) :
    applyWrites map writes = map ↔ ∀ write ∈ writes, map write.1 = write.2 := by
  refine ⟨fun same write member => ?_, applyWrites_idle⟩
  rw [← congrFun same write.1]
  refine applyWrites_written member fun other found => ?_
  exact congrArg Prod.snd (inj_on_of_nodup_map distinct found member rfl)

/-- Writes that are followed by others which settle every key named: all is as before just where it
was as the others leave it. -/
theorem applyWrites_undone_iff (base : κ → α) {first second : List (κ × α)}
    (covered : ∀ key ∈ first.map Prod.fst, key ∈ second.map Prod.fst)
    (settled : ∀ map : κ → α, ∀ key ∈ second.map Prod.fst, applyWrites map second key = base key) :
    applyWrites (applyWrites map first) second = map ↔ ∀ key ∈ second.map Prod.fst,
      map key = base key := by
  refine ⟨fun same key named => ?_, fun fits => funext fun key => ?_⟩
  · rw [← settled _ key named, same]
  · by_cases named : key ∈ second.map Prod.fst
    · rw [settled _ key named, fits key named]
    · rw [applyWrites_untouched named, applyWrites_untouched fun earlier =>
        named (covered key earlier)]

theorem applyWrites_stopped {first second : List (κ × α)}
    (distinct : ((first ++ second).map Prod.fst).Nodup) (map : κ → α) :
    applyWrites map first key = map key ∨
      applyWrites map first key = applyWrites map (first ++ second) key := by
  rw [map_append] at distinct
  by_cases done : key ∈ first.map Prod.fst
  · right
    have unwritten : key ∉ second.map Prod.fst :=
      fun later => disjoint_of_nodup_append distinct done later
    rw [applyWrites_append, applyWrites_untouched unwritten]
  · exact .inl (applyWrites_untouched done)

/-- Undoing and redoing on a mixture of two maps gives the second one, if `undo` leads from the
first map to a common base and `redo` from there to the second. -/
theorem applyWrites_replay {old base new mixed : κ → α} {undo redo : List (κ × α)}
    (undone : applyWrites old undo = base) (redone : applyWrites base redo = new)
    (mixture : ∀ key, mixed key = old key ∨ mixed key = new key) :
    applyWrites (applyWrites mixed undo) redo = new := by
  funext key
  rw [← redone]
  apply applyWrites_congr
  by_cases rewritten : key ∈ redo.map Prod.fst
  · exact .inl rewritten
  · right
    by_cases taken : key ∈ undo.map Prod.fst
    · rw [← undone]
      exact applyWrites_congr (.inl taken)
    · have oldSame : old key = base key := by rw [← undone, applyWrites_untouched taken]
      have newSame : new key = base key := by rw [← redone, applyWrites_untouched rewritten]
      rw [applyWrites_untouched taken]
      rcases mixture key with same | same
      · exact same.trans oldSame
      · exact same.trans newSame

variable (write : κ → β → Option α)

def tableWrites (entries : List (Sigma fun _ : κ => β)) : List (κ × α) :=
  entries.filterMap fun entry => (write entry.1 entry.2).map fun value => (entry.1, value)

omit [DecidableEq κ] in
theorem mem_tableWrites_keys {write : κ → β → Option α} {entries : List (Sigma fun _ : κ => β)}
    (member : key ∈ (tableWrites write entries).map Prod.fst) : key ∈ entries.keys := by
  simp only [tableWrites, List.mem_map, mem_filterMap, map_eq_some_iff] at member
  obtain ⟨pair, ⟨entry, inEntries, value, _, rfl⟩, rfl⟩ := member
  exact mem_keys_of_mem inEntries

omit [DecidableEq κ] in
theorem tableWrites_nodup {entries : List (Sigma fun _ : κ => β)} (distinct : entries.NodupKeys) :
    ((tableWrites write entries).map Prod.fst).Nodup := by
  induction entries with
  | nil => exact nodup_nil
  | cons head rest ih =>
    obtain ⟨firstAbsent, restDistinct⟩ := nodupKeys_cons.mp distinct
    cases written : write head.1 head.2 with
    | none =>
      simp only [tableWrites, filterMap_cons, written, map_none]
      exact ih restDistinct
    | some value =>
      simp only [tableWrites, filterMap_cons, written, map_some, map_cons, nodup_cons]
      exact ⟨fun member => firstAbsent (mem_tableWrites_keys member), ih restDistinct⟩

theorem applyWrites_tableWrites (map : κ → α) {entries : List (Sigma fun _ : κ => β)}
    (distinct : entries.NodupKeys) :
    applyWrites map (tableWrites write entries) key = ((entries.dlookup key).bind (write key)).getD
      (map key) := by
  induction entries generalizing map with
  | nil => rfl
  | cons head rest ih =>
    obtain ⟨first, entry⟩ := head
    obtain ⟨firstAbsent, restDistinct⟩ := nodupKeys_cons.mp distinct
    by_cases same : key = first
    · subst same
      have unwritten : key ∉ (tableWrites write rest).map Prod.fst :=
        fun member => firstAbsent (mem_tableWrites_keys member)
      rw [dlookup_cons_eq, bind_some]
      cases written : write key entry with
      | none =>
        simp only [tableWrites, filterMap_cons, written, map_none, getD_none]
        exact applyWrites_untouched unwritten
      | some value =>
        simp only [tableWrites, filterMap_cons, written, map_some, getD_some, applyWrites]
        exact (applyWrites_untouched unwritten).trans (update_self key value map)
    · rw [dlookup_cons_ne _ _ same]
      cases written : write first entry with
      | none =>
        simp only [tableWrites, filterMap_cons, written, map_none]
        exact ih map restDistinct
      | some value =>
        simp only [tableWrites, filterMap_cons, written, map_some, applyWrites]
        rw [← update_of_ne same value map]
        exact ih _ restDistinct

end Deviant.Data
