import Mathlib.Data.List.AList

namespace Deviant.Data

/-! Merging one finite map into another, entry by entry.

The keys of a finite map are distinct, so a loop over its entries that reads
and replaces only the visited key of the target acts on every key on its own,
in whatever order the entries are visited.
-/

abbrev Table (κ β : Type) := AList fun _ : κ => β

variable {κ β γ ε : Type} [DecidableEq κ]

variable {ι : Type} (drop : β → Bool) (table : Table κ β)

namespace Table

section

variable (table : Table κ γ)

def put (key : κ) : Option γ → Table κ γ
  | none => table.erase key
  | some value => table.insert key value

@[simp] theorem lookup_put_same : (table.put key value).lookup key = value := by
  cases value with
  | none => exact AList.lookup_erase key table
  | some value => exact AList.lookup_insert table

theorem lookup_put_ne (different : other ≠ key) :
    (table.put key value).lookup other = table.lookup other := by
  cases value with
  | none => exact AList.lookup_erase_ne different
  | some value => exact AList.lookup_insert_ne different

theorem lookup_insert_eq (key other : κ) (value : γ) :
    (table.insert key value).lookup other = if other = key then some value
      else table.lookup other := by
  by_cases same : other = key
  · subst same
    rw [if_pos rfl, AList.lookup_insert]
  · rw [if_neg same, AList.lookup_insert_ne same]

variable {table} in
theorem forall_lookup_insert {holds : κ → γ → Prop} {key : κ} {value : γ} (new : holds key value)
    (old : ∀ other found, table.lookup other = some found → holds other found) :
    ∀ other found, (table.insert key value).lookup other = some found → holds other found := by
  intro other found
  rw [lookup_insert_eq]
  split
  next same => exact fun here => Option.some.inj here ▸ same ▸ new
  · exact old other found

theorem lookup_erase_eq (key : κ) :
    (table.erase key).lookup other = if other = key then none else table.lookup other := by
  by_cases same : other = key
  · subst same
    rw [if_pos rfl, AList.lookup_erase]
  · rw [if_neg same, AList.lookup_erase_ne same]

end

theorem lookup_foldl {step : Table κ β → ι → Table κ β} {key : ι → κ} {outcome : Option β}
      (acts : ∀ table item query,
      (step table item).lookup query = if query = key item then outcome else table.lookup query)
      (items : List ι)
    (table : Table κ β) :
    (items.foldl step table).lookup query = if query ∈ items.map key then outcome
    else table.lookup query := by
  induction items generalizing table with
  | nil => rfl
  | cons item items ih =>
    rw [List.foldl_cons, ih, acts, List.map_cons]
    by_cases later : query ∈ items.map key
    · simp [later]
    · simp [later]

theorem lookup_foldl_insert (items : List ι) (table : Table κ β) (query : κ) :
    (items.foldl (fun table item => table.insert (key item) value) table).lookup query =
      if query ∈ items.map key then some value else table.lookup query :=
  lookup_foldl (fun table item query => table.lookup_insert_eq (key item) query value) items table

theorem lookup_foldl_erase (key : ι → κ) (items : List ι) (table : Table κ β) (query : κ) :
    (items.foldl (fun table item => table.erase (key item)) table).lookup query =
      if query ∈ items.map key then none else table.lookup query :=
  lookup_foldl (fun table item _ => table.lookup_erase_eq (key item)) items table

def eraseWhere (drop : β → Bool) (table : Table κ β) : Table κ β :=
  (table.entries.filter fun entry => drop entry.2).foldl (fun table entry => table.erase entry.1) table

theorem lookup_eraseWhere (key : κ) :
    (table.eraseWhere drop).lookup key = (table.lookup key).filter fun value => !drop value := by
  unfold eraseWhere
  rw [lookup_foldl_erase fun entry : Sigma fun _ : κ => β => entry.1]
  have member : key ∈ (table.entries.filter fun entry => drop entry.2).map (fun entry => entry.1) ↔
      ∃ value, table.lookup key = some value ∧ drop value = true := by
    simp only [List.mem_map, List.mem_filter]
    constructor
    · rintro ⟨⟨_, value⟩, ⟨present, dropped⟩, rfl⟩
      exact ⟨value, AList.mem_lookup_iff.mpr present, dropped⟩
    · rintro ⟨value, found, dropped⟩
      exact ⟨⟨key, value⟩, ⟨AList.mem_lookup_iff.mp found, dropped⟩, rfl⟩
  cases found : table.lookup key with
  | none =>
    rw [Option.filter_none, ite_self]
  | some value =>
    cases dropped : drop value with
    | true =>
      rw [if_pos (member.mpr ⟨value, found, dropped⟩), Option.filter_some, dropped]
      rfl
    | false =>
      rw [if_neg, Option.filter_some, dropped]
      · rfl
      · rw [member, found]
        rintro ⟨other, same, otherDropped⟩
        cases same
        rw [dropped] at otherDropped
        cases otherDropped

theorem entries_eraseWhere_perm :
    (table.eraseWhere drop).entries.Perm (table.entries.filter fun entry => !drop entry.2) := by
  have distinct : (table.entries.filter fun entry => !drop entry.2).NodupKeys :=
    table.nodupKeys.sublist List.filter_sublist
  apply List.lookup_ext (table.eraseWhere drop).nodupKeys distinct
  intro key value
  rw [show (table.eraseWhere drop).entries.dlookup key = (table.eraseWhere drop).lookup key
    from rfl, lookup_eraseWhere, Option.mem_def, Option.filter_eq_some_iff,
    List.mem_dlookup_iff distinct, List.mem_filter]
  exact and_congr_left' (List.mem_dlookup_iff table.nodupKeys)

variable (replace : κ → β → β)

def replaceAll (table : Table κ β) : Table κ β :=
  table.entries.foldl (fun replaced entry => replaced.insert entry.1 (replace entry.1 entry.2)) table

private theorem lookup_foldl_replace (entries : List (Sigma fun _ : κ => β))
    (distinct : entries.NodupKeys) (table : Table κ β) (key : κ) :
    (entries.foldl (fun replaced entry => replaced.insert entry.1 (replace entry.1 entry.2))
      table).lookup key =
      ((entries.dlookup key).map (replace key)).or (table.lookup key) := by
  induction entries generalizing table with
  | nil => rfl
  | cons entry entries ih =>
    obtain ⟨head, value⟩ := entry
    obtain ⟨unused, rest⟩ := List.nodupKeys_cons.mp distinct
    rw [List.foldl_cons, ih rest, lookup_insert_eq]
    by_cases same : key = head
    · have missing : entries.dlookup head = none := List.dlookup_eq_none.mpr unused
      rw [if_pos same, same, missing, List.dlookup_cons_eq]
      rfl
    · have later := List.dlookup_cons_ne entries (⟨head, value⟩ : Sigma fun _ : κ => β) same
      rw [if_neg same, later]

theorem lookup_replaceAll (key : κ) :
    (table.replaceAll replace).lookup key = (table.lookup key).map (replace key) := by
  unfold replaceAll
  rw [lookup_foldl_replace replace table.entries table.nodupKeys,
    show table.entries.dlookup key = table.lookup key from rfl]
  cases table.lookup key with
  | none => rfl
  | some value => rfl

def values (table : Table κ β) : List β := table.entries.map fun entry => entry.2

theorem mem_values : value ∈ table.values ↔ ∃ key, table.lookup key = some value := by
  simp only [values, List.mem_map, ← Option.mem_def, AList.mem_lookup_iff]
  exact ⟨fun ⟨⟨key, _⟩, member, same⟩ => ⟨key, same ▸ member⟩,
    fun ⟨key, member⟩ => ⟨⟨key, value⟩, member, rfl⟩⟩

theorem values_insert (absent : table.lookup key = none) :
    values (table.insert key value) = value :: table.values := by
  unfold values
  rw [AList.entries_insert_of_notMem (AList.lookup_eq_none.mp absent), List.map_cons]

theorem values_perm (found : table.lookup key = some value) :
    table.values.Perm (value :: values (table.erase key)) := by
  have listed : key ∈ table.entries.keys := AList.lookup_isSome.mp (by simp [found])
  obtain ⟨held, before, later, -, whole, left⟩ := List.exists_of_kerase listed
  have same : table.lookup key = some held := List.mem_dlookup table.nodupKeys (by simp [whole])
  obtain rfl := Option.some.inj (found.symm.trans same)
  have removed : (table.erase key).entries = before ++ later := left
  simp only [values, removed, whole, List.map_append, List.map_cons]
  exact List.perm_middle

theorem values_eraseWhere_perm :
    (table.eraseWhere drop).values.Perm (table.values.filter fun value => !drop value) := by
  unfold values
  rw [List.filter_map]
  exact (table.entries_eraseWhere_perm drop).map _

end Table

/-- The loop: `merge key entry current` gives the new entry of the target at `key`. -/
def mergeEntries (merge : κ → β → Option γ → Except ε (Option γ)) :
    List (Sigma fun _ : κ => β) → Table κ γ → Except ε (Table κ γ)
  | [], target => .ok target
  | ⟨key, entry⟩ :: rest, target =>
    match merge key entry (target.lookup key) with
    | .error reason => .error reason
    | .ok merged => mergeEntries merge rest (target.put key merged)

def mergeTable (merge : κ → β → Option γ → Except ε (Option γ)) (source : Table κ β)
    (target : Table κ γ) : Except ε (Table κ γ) :=
  mergeEntries merge source.entries target

variable {merge : κ → β → Option γ → Except ε (Option γ)}

private theorem mergeEntries_spec (distinct : entries.NodupKeys) (target : Table κ γ) :
    (∀ after, mergeEntries merge entries target = .ok after →
      (∀ key, key ∉ entries.keys → after.lookup key = target.lookup key) ∧
      ∀ key entry, ⟨key, entry⟩ ∈ entries →
      merge key entry (target.lookup key) = .ok (after.lookup key)) ∧
    ∀ reason, mergeEntries merge entries target = .error reason →
      ∃ key entry, ⟨key, entry⟩ ∈ entries ∧
      merge key entry (target.lookup key) = .error reason := by
  induction entries generalizing target with
  | nil => simp [mergeEntries]
  | cons head rest ih =>
    obtain ⟨headKey, headEntry⟩ := head
    obtain ⟨headAbsent, restDistinct⟩ := List.nodupKeys_cons.mp distinct
    have different {key : κ} {entry : β} (later : ⟨key, entry⟩ ∈ rest) : key ≠ headKey := by
      have inRest : key ∈ rest.keys := List.mem_keys_of_mem later
      exact fun same => headAbsent (same ▸ inRest)
    simp only [mergeEntries]
    cases first : merge headKey headEntry (target.lookup headKey) with
    | error raised =>
      refine ⟨fun _ failed => (by cases failed),
        fun reason failed => ⟨headKey, headEntry, List.mem_cons_self, ?_⟩⟩
      cases failed
      exact first
    | ok value =>
      obtain ⟨stored, failed⟩ := ih restDistinct (target.put headKey value)
      refine ⟨fun after merged => ?_, fun reason raised => ?_⟩
      · obtain ⟨absent, present⟩ := stored after merged
        refine ⟨fun key outside => ?_, fun key entry member => ?_⟩
        · simp only [List.keys_cons, List.mem_cons, not_or] at outside
          rw [absent key outside.2, target.lookup_put_ne outside.1]
        · rcases List.mem_cons.mp member with same | later
          · cases same
            rw [first, absent headKey headAbsent, Table.lookup_put_same]
          · rw [← present key entry later, Table.lookup_put_ne _ (different later)]
      · obtain ⟨key, entry, member, raised⟩ := failed reason raised
        rw [Table.lookup_put_ne _ (different member)] at raised
        exact ⟨key, entry, List.mem_cons_of_mem _ member, raised⟩

theorem mergeTable_absent (merged : mergeTable merge source target = .ok after)
    (absent : source.lookup key = none) :
    after.lookup key = target.lookup key :=
  ((mergeEntries_spec source.nodupKeys target).1 after merged).1 key (List.dlookup_eq_none.mp absent)

theorem mergeTable_present (merged : mergeTable merge source target = .ok after)
    (present : source.lookup key = some entry) :
    merge key entry (target.lookup key) = .ok (after.lookup key) :=
  ((mergeEntries_spec source.nodupKeys target).1 after merged).2 key entry (List.of_mem_dlookup present)

theorem mergeTable_error (failed : mergeTable merge source target = .error reason) :
    ∃ key entry, source.lookup key = some entry ∧
      merge key entry (target.lookup key) = .error reason := by
  obtain ⟨key, entry, member, raised⟩ := (mergeEntries_spec source.nodupKeys target).2 reason failed
  exact ⟨key, entry, List.mem_dlookup source.nodupKeys member, raised⟩

theorem mergeTable_exists (accepted : ∀ key entry, source.lookup key = some entry →
      ∃ merged, merge key entry (target.lookup key) = .ok merged) :
    ∃ after, mergeTable merge source target = .ok after := by
  cases outcome : mergeTable merge source target with
  | ok after => exact ⟨after, rfl⟩
  | error reason =>
    obtain ⟨key, entry, present, raised⟩ := mergeTable_error outcome
    obtain ⟨merged, accept⟩ := accepted key entry present
    rw [raised] at accept
    cases accept

variable (merge) in
/-- Each merged entry is in order and shows what the entry it was merged with does. -/
theorem mergeTable_spec {δ : Type} {Ok : κ → γ → Prop} {beneath : κ → δ} {shown : γ → δ}
    {merges : β → δ} {source : Table κ β} {target : Table κ γ}
    (targetOk : ∀ key us, target.lookup key = some us → Ok key us)
    (turn : ∀ key entry, source.lookup key = some entry →
      ∃ merged, merge key entry (target.lookup key) = .ok merged ∧
      (∀ us, merged = some us → Ok key us) ∧ merged.elim (beneath key) shown = merges entry) :
    ∃ after, mergeTable merge source target = .ok after ∧
      (∀ key us, after.lookup key = some us → Ok key us) ∧ ∀ key,
      (after.lookup key).elim (beneath key) shown =
        (source.lookup key).elim ((target.lookup key).elim (beneath key) shown) merges := by
  obtain ⟨after, merged⟩ := mergeTable_exists fun key entry present =>
    (turn key entry present).imp fun _ result => result.1
  refine ⟨after, merged, forall_and.mp fun key => ?_⟩
  cases present : source.lookup key with
  | none =>
    rw [mergeTable_absent merged present]
    exact ⟨targetOk key, rfl⟩
  | some entry =>
    obtain ⟨value, computed, result⟩ := turn key entry present
    rw [mergeTable_present merged present, Except.ok.injEq] at computed
    exact computed ▸ result

end Deviant.Data
