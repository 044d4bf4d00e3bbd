import Deviant.Mempool.TxMempool

namespace Deviant.Mempool

open Data List Option Primitives CTxMemPoolEntry

/-! What each basic operation of the pool changes, and what it leaves alone. -/

namespace CTxMemPool

variable {κ β ι : Type} [DecidableEq κ]

theorem lookup_insertNew (key : κ) (value : β) : (insertNew table key value).lookup query =
      if query = key then some ((table.lookup key).getD value) else table.lookup query := by
  unfold insertNew
  cases found : table.lookup key with
  | some old =>
    rw [if_pos (by rfl), getD_some]
    split
    next same => rw [same, found]
    · rfl
  | none =>
    rw [if_neg (by simp), Table.lookup_insert_eq, getD_none]

theorem lookup_foldl_insertNew (key : ι → κ) (items : List ι) (table : Table κ β)
    (fresh : ∀ item ∈ items, table.lookup (key item) = none ∨ table.lookup (key item) = some value) :
    (items.foldl (fun table item => insertNew table (key item) value) table).lookup query =
      if query ∈ items.map key then some value else table.lookup query := by
  induction items generalizing table with
  | nil => rfl
  | cons item items ih =>
    have first : (table.lookup (key item)).getD value = value := by
      rcases fresh item mem_cons_self with absent | present
      · rw [absent, getD_none]
      · rw [present, getD_some]
    rw [foldl_cons, ih]
    · rw [lookup_insertNew, first, map_cons]
      by_cases later : query ∈ items.map key
      · simp [later]
      · simp [later]
    · intro other member
      rw [lookup_insertNew, first]
      split
      · exact .inr rfl
      · exact fresh other (mem_cons_of_mem _ member)

variable {pool : CTxMemPool} {f : CTxMemPoolEntry → CTxMemPoolEntry} {hash : Uint256}
    {set : List Uint256}

theorem lookup_modify (query : Uint256) : (pool.modify f hash).mapTx.lookup query =
      if query = hash then (pool.mapTx.lookup query).map f else pool.mapTx.lookup query := by
  unfold modify
  by_cases same : query = hash
  · subst same
    cases found : pool.mapTx.lookup query with
    | none => simp [found]
    | some entry => simp
  · rw [if_neg same]
    split
    · rfl
    · simp [Table.lookup_insert_eq, if_neg same]

@[simp] theorem modify_mapLinks : (pool.modify f hash).mapLinks = pool.mapLinks := by
  unfold modify; split <;> rfl

@[simp] theorem modify_mapNextTx : (pool.modify f hash).mapNextTx = pool.mapNextTx := by
  unfold modify; split <;> rfl

@[simp] theorem modify_mapSaplingNullifiers :
    (pool.modify f hash).mapSaplingNullifiers = pool.mapSaplingNullifiers := by
  unfold modify; split <;> rfl

@[simp] theorem modify_mapDeltas : (pool.modify f hash).mapDeltas = pool.mapDeltas := by
  unfold modify; split <;> rfl

/-- Each item changes what is read at it, and is met once. -/
theorem foldl_pointwise {step : CTxMemPool → Uint256 → CTxMemPool} (read : CTxMemPool → Uint256 → ι)
    (change : ι → ι) (acts : ∀ (pool : CTxMemPool) item query,
      read (step pool item) query =
      if query = item then change (read pool query) else read pool query)
    (distinct : set.Nodup) (pool : CTxMemPool) (query : Uint256) :
    read (set.foldl step pool) query = if query ∈ set then change (read pool query)
      else read pool query := by
  induction set generalizing pool with
  | nil => rfl
  | cons first rest ih =>
    obtain ⟨fresh, distinctRest⟩ := nodup_cons.mp distinct
    rw [foldl_cons, ih distinctRest, acts]
    by_cases same : query = first
    · subst same
      rw [if_neg fresh, if_pos rfl, if_pos mem_cons_self]
    · rw [if_neg same]
      simp [same]

theorem lookup_modifyEach (distinct : set.Nodup) (query : Uint256) :
      (pool.modifyEach f set).mapTx.lookup query =
        if query ∈ set then (pool.mapTx.lookup query).map f else pool.mapTx.lookup query :=
  foldl_pointwise (fun pool query => pool.mapTx.lookup query) (Option.map f)
    (fun _ _ => lookup_modify) distinct pool query

omit [DecidableEq κ] in
theorem foldl_project {step : CTxMemPool → κ → CTxMemPool} (project : CTxMemPool → ι)
    (kept : ∀ pool item, project (step pool item) = project pool) (items : List κ) :
    project (items.foldl step pool) = project pool := by
  induction items generalizing pool with
  | nil => rfl
  | cons first rest ih => exact ih.trans (kept pool first)

@[simp] theorem modifyEach_mapLinks : (pool.modifyEach f set).mapLinks = pool.mapLinks :=
  foldl_project CTxMemPool.mapLinks (fun _ _ => modify_mapLinks) set

@[simp] theorem modifyEach_mapNextTx : (pool.modifyEach f set).mapNextTx = pool.mapNextTx :=
  foldl_project CTxMemPool.mapNextTx (fun _ _ => modify_mapNextTx) set

@[simp] theorem modifyEach_mapSaplingNullifiers :
    (pool.modifyEach f set).mapSaplingNullifiers = pool.mapSaplingNullifiers :=
  foldl_project CTxMemPool.mapSaplingNullifiers (fun _ _ => modify_mapSaplingNullifiers) set

@[simp] theorem modifyEach_mapDeltas : (pool.modifyEach f set).mapDeltas = pool.mapDeltas :=
  foldl_project CTxMemPool.mapDeltas (fun _ _ => modify_mapDeltas) set

theorem modify_mapTx_congr {next : CTxMemPool} (same : next.mapTx = pool.mapTx) :
    (next.modify f hash).mapTx = (pool.modify f hash).mapTx := by
  unfold modify
  rw [same]
  split
  · exact same
  · rfl

theorem modifyEach_mapTx_congr {next : CTxMemPool} (same : next.mapTx = pool.mapTx) :
    (next.modifyEach f set).mapTx = (pool.modifyEach f set).mapTx := by
  induction set generalizing pool next with
  | nil => exact same
  | cons first rest ih => exact ih (modify_mapTx_congr same)

theorem links_congr {before after : CTxMemPool} (same : after.mapLinks = before.mapLinks) :
    after.links query = before.links query := by
  unfold links
  rw [same]

@[simp] theorem links_modify : (pool.modify f hash).links query = pool.links query :=
  links_congr modify_mapLinks

@[simp] theorem links_modifyEach : (pool.modifyEach f set).links query = pool.links query :=
  links_congr modifyEach_mapLinks

theorem links_updateChild : (pool.updateChild entry child add).links query =
      if query = entry
        then { pool.links query with children := setOf add child (pool.links query).children }
      else pool.links query := by
  by_cases same : query = entry
  · subst same
    simp [updateChild, links]
  · simp [updateChild, links, same]

theorem links_updateParent : (pool.updateParent entry parent add).links query =
      if query = entry
        then { pool.links query with parents := setOf add parent (pool.links query).parents }
      else pool.links query := by
  by_cases same : query = entry
  · subst same
    simp [updateParent, links]
  · simp [updateParent, links, same]

end CTxMemPool

def CTxMemPoolEntry.core (entry : CTxMemPoolEntry) : CTxMemPoolEntry :=
  { entry with
    nCountWithDescendants := 0, nSizeWithDescendants := 0, nModFeesWithDescendants := 0
    nCountWithAncestors := 0, nSizeWithAncestors := 0, nModFeesWithAncestors :=
      0, nSigOpCountWithAncestors := 0 }

theorem CTxMemPoolEntry.core_updateDescendantState (modifySize modifyFee modifyCount : Int)
    (entry : CTxMemPoolEntry) :
    (entry.updateDescendantState modifySize modifyFee modifyCount).core = entry.core := rfl

theorem CTxMemPoolEntry.core_updateAncestorState (modifyCount modifySigOps : Int)
    (entry : CTxMemPoolEntry) :
    (entry.updateAncestorState modifySize modifyFee modifyCount modifySigOps).core = entry.core :=
      rfl

namespace CTxMemPool

/-- Entries may differ in their statistics, and links may differ. -/
structure SameContents (before after : CTxMemPool) : Prop where
  core : ∀ hash, (after.mapTx.lookup hash).map core =
    (before.mapTx.lookup hash).map core
  nextTx : after.mapNextTx = before.mapNextTx
  nullifiers : after.mapSaplingNullifiers = before.mapSaplingNullifiers
  deltas : after.mapDeltas = before.mapDeltas

namespace SameContents

variable {a b c : CTxMemPool}

theorem refl (a : CTxMemPool) :
    SameContents a a := ⟨fun _ => Eq.refl _, Eq.refl _, Eq.refl _, Eq.refl _⟩

theorem trans (first : SameContents a b) (second : SameContents b c) : SameContents a c :=
  ⟨fun hash => (second.core hash).trans (first.core hash), second.nextTx.trans first.nextTx,
    second.nullifiers.trans first.nullifiers, second.deltas.trans first.deltas⟩

theorem foldl {ι : Type} {step : CTxMemPool → ι → CTxMemPool}
    (kept : ∀ pool item, SameContents pool (step pool item)) (items : List ι) (pool : CTxMemPool) :
    SameContents pool (items.foldl step pool) := by
  induction items generalizing pool with
  | nil => exact .refl _
  | cons item items ih => exact (kept pool item).trans (ih (step pool item))

theorem exists_iff (same : SameContents a b) (hash : Uint256) :
    b.existsTx hash = a.existsTx hash := by
  have core := congrArg Option.isSome (same.core hash)
  simpa only [isSome_map, existsTx] using core

theorem map (same : SameContents a b) (fromCore : ∀ entry, value entry = value entry.core)
    (hash : Uint256) :
    (b.mapTx.lookup hash).map value = (a.mapTx.lookup hash).map value := by
  have composed : value = value ∘ CTxMemPoolEntry.core := by
    ext entry
    exact fromCore entry
  rw [composed, ← Option.map_map, ← Option.map_map, same.core hash]

end SameContents

theorem sameContents_modify (kept : ∀ entry, (f entry).core = entry.core) (hash : Uint256) :
    SameContents pool (pool.modify f hash) where
  core query := by
    rw [lookup_modify]
    split
    · rw [Option.map_map]
      exact congrArg (Option.map · _) (by ext entry; exact kept entry)
    · rfl
  nextTx := modify_mapNextTx
  nullifiers := modify_mapSaplingNullifiers
  deltas := modify_mapDeltas

theorem sameContents_modifyEach (kept : ∀ entry, (f entry).core = entry.core) (set : List Uint256) :
    SameContents pool (pool.modifyEach f set) :=
  .foldl (fun _ hash => sameContents_modify kept hash) set pool

theorem sameContents_updateChild (entry child : Uint256) (add : Bool) :
    SameContents pool (pool.updateChild entry child add) := ⟨fun _ => rfl, rfl, rfl, rfl⟩

theorem sameContents_updateParent (entry parent : Uint256) :
    SameContents pool (pool.updateParent entry parent add) := ⟨fun _ => rfl, rfl, rfl, rfl⟩

theorem sameContents_updateAncestorsOf (add : Bool) (it : Uint256) (setAncestors : List Uint256) :
    SameContents pool (pool.updateAncestorsOf add it setAncestors) := by
  unfold updateAncestorsOf
  split
  · exact .refl _
  · apply SameContents.trans
    · exact .foldl (fun _ piter => sameContents_updateChild piter it add)
        (pool.getMemPoolParents it) pool
    · exact sameContents_modifyEach (core_updateDescendantState _ _ _) setAncestors

variable (pool : CTxMemPool)

theorem sameContents_updateDescendantsForRemoval (it : Uint256) :
    SameContents pool (pool.updateDescendantsForRemoval it) := by
  unfold updateDescendantsForRemoval
  split
  · exact .refl _
  · exact sameContents_modifyEach (core_updateAncestorState _ _) _

theorem sameContents_updateAncestorsForRemoval (it : Uint256) :
    SameContents pool (pool.updateAncestorsForRemoval it) := by
  unfold updateAncestorsForRemoval
  split
  · exact .refl _
  · exact sameContents_updateAncestorsOf false it _

theorem sameContents_updateChildrenForRemoval (it : Uint256) :
    SameContents pool (pool.updateChildrenForRemoval it) :=
  .foldl (fun _ _ => sameContents_updateParent _ _) _ pool

theorem sameContents_updateForRemoveFromMempool (entriesToRemove : List Uint256)
    (updateDescendants : Bool) :
    SameContents pool (pool.updateForRemoveFromMempool entriesToRemove updateDescendants) := by
  refine .trans ?_ (.trans (.foldl sameContents_updateAncestorsForRemoval entriesToRemove _)
    (.foldl sameContents_updateChildrenForRemoval entriesToRemove _))
  cases updateDescendants with
  | true => exact .foldl sameContents_updateDescendantsForRemoval entriesToRemove pool
  | false => exact .refl _

end CTxMemPool

end Deviant.Mempool
