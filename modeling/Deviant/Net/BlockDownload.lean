import Deviant.Data.MapMerge
import Deviant.Primitives.Transaction

namespace Deviant.Net

open Data List Option Primitives Table

/-! Which blocks were asked for from which peer: a list for each peer, and a map from the hash of a
block to the peer and the place in its list. -/

abbrev NodeId := Int

/-- An entry of a list. What an iterator points to is the number of the entry. -/
structure QueuedBlock where
  it : Nat
  hash : Uint256
  pindex : Option Uint256
  nTime : Int
  nValidatedQueuedBefore : Int
  fValidatedHeaders : Bool
deriving DecidableEq

structure CNodeState where
  nStallingSince : Int := 0
  vBlocksInFlight : List QueuedBlock := []
  nBlocksInFlight : Int := 0

structure BlockDownload where
  mapNodeState : Table NodeId CNodeState := ∅
  mapBlocksInFlight : Table Uint256 (NodeId × Nat) := ∅
  nQueuedValidatedHeaders : Int := 0
  /-- How many entries there were so far. -/
  allocated : Nat := 0

def CNodeState.validated (state : CNodeState) :
    Nat := state.vBlocksInFlight.countP QueuedBlock.fValidatedHeaders

namespace CNodeState

def Lists (state : CNodeState) (hash : Uint256) (it : Nat) : Prop :=
  ∃ entry ∈ state.vBlocksInFlight, entry.hash = hash ∧ entry.it = it

/-- The entries of a peer are different ones, and all counted. -/
structure Counted (state : CNodeState) (allocated : Nat) : Prop where
  distinct : (state.vBlocksInFlight.map QueuedBlock.it).Nodup
  below : ∀ entry ∈ state.vBlocksInFlight, entry.it < allocated
  length : state.nBlocksInFlight = state.vBlocksInFlight.length

def without (state : CNodeState) (entry : QueuedBlock) : CNodeState :=
  ⟨0, state.vBlocksInFlight.erase entry, state.nBlocksInFlight - 1⟩

variable {state : CNodeState} {entry : QueuedBlock} {hash : Uint256}

theorem lists_append :
    Lists { state with vBlocksInFlight := state.vBlocksInFlight ++ [entry], nBlocksInFlight := n }
      hash it ↔ state.Lists hash it ∨ entry.hash = hash ∧ entry.it = it := by
  simp [Lists]

namespace Counted

theorem empty : Counted {} allocated := ⟨.nil, nofun, rfl⟩

variable (counted : state.Counted allocated)

include counted

theorem mono : state.Counted (allocated + 1) :=
  ⟨counted.distinct, fun entry listed => Nat.lt_succ_of_lt (counted.below entry listed),
    counted.length⟩

theorem append (fresh : entry.it = allocated) : Counted { state with
    vBlocksInFlight := state.vBlocksInFlight ++ [entry], nBlocksInFlight :=
      state.nBlocksInFlight + 1 } (allocated + 1) where
  distinct := by
    rw [map_append, map_singleton, ← concat_eq_append]
    refine counted.distinct.concat fun listed => ?_
    obtain ⟨old, member, same⟩ := mem_map.mp listed
    exact absurd (same.trans fresh) (Nat.ne_of_lt (counted.below old member))
  below := by
    intro old listed
    rcases mem_append.mp listed with before | added
    · exact Nat.lt_succ_of_lt (counted.below old before)
    · rw [mem_singleton.mp added, fresh]
      exact Nat.lt_succ_self _
  length := by simp [counted.length]

variable (member : entry ∈ state.vBlocksInFlight)

include member

theorem find_entry :
    state.vBlocksInFlight.find? (fun other => other.it == entry.it) = some entry := by
  cases sought : state.vBlocksInFlight.find? fun other => other.it == entry.it with
  | none => simpa using List.find?_eq_none.mp sought entry member
  | some other =>
    rw [inj_on_of_nodup_map counted.distinct (mem_of_find?_eq_some sought) member
      (by simpa using List.find?_some sought)]

theorem lists_without (unique : ∀ it, state.Lists entry.hash it → it = entry.it) :
    (state.without entry).Lists hash it ↔ state.Lists hash it ∧ hash ≠ entry.hash := by
  simp only [Lists, CNodeState.without, counted.distinct.of_map.mem_erase_iff]
  constructor
  · rintro ⟨other, ⟨differs, listed⟩, rfl, rfl⟩
    refine ⟨⟨other, listed, rfl, rfl⟩, fun same => differs ?_⟩
    exact inj_on_of_nodup_map counted.distinct listed member (unique _ ⟨other, listed, same, rfl⟩)
  · rintro ⟨⟨other, listed, rfl, rfl⟩, differs⟩
    exact ⟨other, ⟨fun same => differs (same ▸ rfl), listed⟩, rfl, rfl⟩

theorem without : (state.without entry).Counted allocated where
  distinct := counted.distinct.sublist (erase_sublist.map _)
  below other listed := counted.below other (mem_of_mem_erase listed)
  length := by
    have shorter := (perm_cons_erase member).length_eq
    have length := counted.length
    simp only [length_cons] at shorter
    simp only [CNodeState.without]
    omega

end Counted

end CNodeState

open CNodeState

namespace BlockDownload

section

variable (s : BlockDownload)

/-- A peer that is not there has no block in flight. -/
def stateOf (nodeid : NodeId) : CNodeState := (s.mapNodeState.lookup nodeid).getD {}

/-- A peer that is there already keeps its state. -/
def initializeNode (nodeid : NodeId) : BlockDownload :=
  if (s.mapNodeState.lookup nodeid).isSome then s
  else { s with mapNodeState := s.mapNodeState.insert nodeid {} }

/-- No result for a null pointer. -/
def finalizeNode (nodeid : NodeId) : Option BlockDownload :=
  (s.mapNodeState.lookup nodeid).map fun state =>
    { s with mapNodeState := s.mapNodeState.erase nodeid
             mapBlocksInFlight := state.vBlocksInFlight.foldl (fun table entry => table.erase entry.hash)
               s.mapBlocksInFlight }

/-- No result for a peer or an entry that is not there any more. -/
def markBlockAsReceived (hash : Uint256) : Option BlockDownload :=
  match s.mapBlocksInFlight.lookup hash with
  | none => some s
  | some (nodeid, it) => do
      let state ← s.mapNodeState.lookup nodeid
      let entry ← state.vBlocksInFlight.find? fun entry => entry.it == it
      some { s with
        nQueuedValidatedHeaders := s.nQueuedValidatedHeaders - entry.fValidatedHeaders.toNat
        mapNodeState := s.mapNodeState.insert nodeid
          { nStallingSince := 0, vBlocksInFlight := state.vBlocksInFlight.erase entry
            nBlocksInFlight := state.nBlocksInFlight - 1 }
        mapBlocksInFlight := s.mapBlocksInFlight.erase hash }

/-- No result if the assertion fails. -/
def markBlockAsInFlight (nodeid : NodeId) (hash : Uint256) (pindex : Option Uint256) (nTime : Int) :
    Option BlockDownload := do
  let _ ← s.mapNodeState.lookup nodeid
  let s ← s.markBlockAsReceived hash
  let state ← s.mapNodeState.lookup nodeid
  let newentry : QueuedBlock :=
    ⟨s.allocated, hash, pindex, nTime, s.nQueuedValidatedHeaders, pindex.isSome⟩
  some {
    nQueuedValidatedHeaders := s.nQueuedValidatedHeaders + newentry.fValidatedHeaders.toNat
    mapNodeState := s.mapNodeState.insert nodeid
      { state with vBlocksInFlight := state.vBlocksInFlight ++ [newentry]
                   nBlocksInFlight := state.nBlocksInFlight + 1 }
    mapBlocksInFlight := s.mapBlocksInFlight.insert hash (nodeid, newentry.it)
    allocated := s.allocated + 1 }

inductive Event where
  | opened (nodeid : NodeId)
  | closed (nodeid : NodeId)
  | received (hash : Uint256)
  | requested (nodeid : NodeId) (hash : Uint256) (pindex : Option Uint256) (nTime : Int)

def step (s : BlockDownload) : Event → Option BlockDownload
  | .opened nodeid => some (s.initializeNode nodeid)
  | .closed nodeid => s.finalizeNode nodeid
  | .received hash => s.markBlockAsReceived hash
  | .requested nodeid hash pindex nTime => s.markBlockAsInFlight nodeid hash pindex nTime

/-- A peer that goes has no block in flight that was asked for with its header validated. -/
def Harmless (event : Event) : Prop :=
  ∀ nodeid, event = .closed nodeid → (s.stateOf nodeid).validated = 0

end

inductive Reached : BlockDownload → Prop
  | start : Reached {}
  | step {s after : BlockDownload} (event : Event) (reached : Reached s)
      (harmless : s.Harmless event) (ran : s.step event = some after) : Reached after

/-- The map has the places of all entries and no others, and the counters are exact. -/
structure Bookkept (s : BlockDownload) : Prop where
  referred : ∀ hash nodeid it, s.mapBlocksInFlight.lookup hash = some (nodeid, it) ↔
    (s.stateOf nodeid).Lists hash it
  counted : ∀ nodeid, (s.stateOf nodeid).Counted s.allocated
  headers : s.nQueuedValidatedHeaders = (s.mapNodeState.values.map validated).sum

variable {s after : BlockDownload} {nodeid : NodeId} {hash : Uint256}

theorem stateOf_found (found : s.mapNodeState.lookup nodeid = some state) :
    s.stateOf nodeid = state := by
  simp [stateOf, found]

theorem stateOf_insert (new : CNodeState) (allocated : Nat) :
      stateOf ⟨s.mapNodeState.insert nodeid new, inFlight, queued, allocated⟩ other =
        if other = nodeid then new else s.stateOf other := by
  simp only [stateOf, lookup_insert_eq]
  split <;> rfl

theorem sum_validated : (s.mapNodeState.values.map validated).sum = (s.stateOf nodeid).validated +
    ((values (s.mapNodeState.erase nodeid)).map validated).sum := by
  cases found : s.mapNodeState.lookup nodeid with
  | none =>
    have whole : (s.mapNodeState.erase nodeid).entries = s.mapNodeState.entries :=
      kerase_of_notMem_keys (AList.lookup_eq_none.mp found)
    simp [stateOf, found, validated, values, whole]
  | some state =>
    rw [((values_perm _ found).map validated).sum_nat, stateOf_found found]
    simp

theorem sum_validated_insert (table : Table NodeId CNodeState) :
    ((values (table.insert nodeid new)).map validated).sum = new.validated +
      ((values (table.erase nodeid)).map validated).sum := rfl

/-- A hash is in flight from one peer only. -/
theorem Bookkept.same_place (kept : s.Bookkept) (listed : (s.stateOf nodeid).Lists hash it)
    (other : (s.stateOf otherid).Lists hash otherIt) : otherid = nodeid ∧ otherIt = it := by
  have place := (kept.referred hash nodeid it).mpr listed
  have there := (kept.referred hash otherid otherIt).mpr other
  exact Prod.ext_iff.mp (some.inj (there.symm.trans place))

theorem Bookkept.initializeNode (kept : s.Bookkept) : (s.initializeNode nodeid).Bookkept := by
  unfold BlockDownload.initializeNode
  split
  case isTrue => exact kept
  case isFalse absent =>
    have missing : s.mapNodeState.lookup nodeid = none := by simpa using absent
    have same other : stateOf { s with mapNodeState := s.mapNodeState.insert nodeid {} } other =
        s.stateOf other := by
      rw [stateOf_insert]
      split
      case isTrue at_ => rw [at_, stateOf, missing, getD_none]
      case isFalse => rfl
    refine ⟨by simpa only [same] using kept.referred, by simpa only [same] using kept.counted, ?_⟩
    rw [kept.headers, values_insert _ missing]
    simp [validated]

theorem Bookkept.finalizeNode (kept : s.Bookkept) (harmless : (s.stateOf nodeid).validated = 0)
    (ran : s.finalizeNode nodeid = some after) : after.Bookkept := by
  obtain ⟨state, found, rfl⟩ := map_eq_some_iff.mp ran
  obtain rfl := stateOf_found found
  have left other :
      stateOf ⟨s.mapNodeState.erase nodeid,
        (s.stateOf nodeid).vBlocksInFlight.foldl (fun table entry =>
      table.erase entry.hash) s.mapBlocksInFlight, s.nQueuedValidatedHeaders, s.allocated⟩ other =
        if other = nodeid then {} else s.stateOf other := by
    simp only [stateOf, lookup_erase_eq]
    split <;> rfl
  refine ⟨fun hash other it => ?_, fun other => ?_, ?_⟩
  · rw [lookup_foldl_erase fun entry : QueuedBlock => entry.hash, left]
    by_cases at_ : other = nodeid
    · subst at_
      split
      case isTrue => simp [CNodeState.Lists]
      case isFalse stays =>
        rw [kept.referred, if_pos rfl]
        refine ⟨fun ⟨entry, member, same, _⟩ => absurd (mem_map.mpr ⟨entry, member, same⟩) stays, ?_⟩
        simp [CNodeState.Lists]
    · rw [if_neg at_, ← kept.referred]
      split
      case isTrue erased =>
        -- What another peer has in flight is not in this list too.
        obtain ⟨gone, member, rfl⟩ := mem_map.mp erased
        refine ⟨nofun, fun listed => absurd ?_ at_⟩
        exact (kept.same_place ⟨gone, member, rfl, rfl⟩ ((kept.referred _ _ _).mp listed)).1
      case isFalse => rfl
  · rw [left]
    split
    · exact .empty
    · exact kept.counted other
  · simp [kept.headers, @sum_validated s nodeid, harmless]

theorem Bookkept.markBlockAsReceived (kept : s.Bookkept) (hash : Uint256) : ∃ after,
    s.markBlockAsReceived hash = some after ∧ after.Bookkept ∧
      after.mapBlocksInFlight.lookup hash = none := by
  cases placed : s.mapBlocksInFlight.lookup hash with
  | none => exact ⟨s, by simp [BlockDownload.markBlockAsReceived, placed], kept, placed⟩
  | some place =>
    obtain ⟨nodeid, it⟩ := place
    obtain ⟨entry, member, rfl, rfl⟩ := (kept.referred hash nodeid it).mp placed
    cases found : s.mapNodeState.lookup nodeid with
    | none => simp [stateOf, found] at member
    | some state =>
      obtain rfl := stateOf_found found
      have peer := kept.counted nodeid
      refine ⟨⟨s.mapNodeState.insert nodeid ((s.stateOf nodeid).without entry),
        s.mapBlocksInFlight.erase entry.hash,
        s.nQueuedValidatedHeaders - entry.fValidatedHeaders.toNat, s.allocated⟩, ?_,
        ⟨?_, ?_, ?_⟩, by simp⟩
      · simp [BlockDownload.markBlockAsReceived, placed, found, peer.find_entry member, without]
      · intro hash other it
        rw [stateOf_insert, lookup_erase_eq]
        by_cases at_ : other = nodeid
        · subst at_
          rw [if_pos rfl, peer.lists_without member fun _ listed =>
            (kept.same_place ⟨entry, member, rfl, rfl⟩ listed).2,
            ← kept.referred]
          split
          case isTrue same => simp [same]
          case isFalse differs => simp [differs]
        · rw [if_neg at_, ← kept.referred]
          split
          case isTrue same =>
            refine ⟨nofun, fun listed => absurd ?_ at_⟩
            exact (kept.same_place ⟨entry, member, same.symm, rfl⟩ ((kept.referred _ _ _).mp listed)).1
          case isFalse => rfl
      · intro other
        rw [stateOf_insert]
        split
        · exact peer.without member
        · exact kept.counted other
      · have fewer := (perm_cons_erase member).countP_eq QueuedBlock.fValidatedHeaders
        rw [countP_cons] at fewer
        rw [kept.headers, @sum_validated s nodeid, sum_validated_insert, validated, validated, fewer]
        cases entry.fValidatedHeaders <;> simp [without]
        omega

theorem Bookkept.markBlockAsInFlight (kept : s.Bookkept)
    (ran : s.markBlockAsInFlight nodeid hash pindex nTime = some after) : after.Bookkept := by
  obtain ⟨middle, received, kept, absent⟩ := kept.markBlockAsReceived hash
  simp only [BlockDownload.markBlockAsInFlight, received, bind_eq_bind, bind_some,
    bind_eq_some_iff, some.injEq] at ran
  obtain ⟨_, _, state, found, rfl⟩ := ran
  obtain rfl := stateOf_found found
  refine ⟨fun query other it => ?_, fun other => ?_, ?_⟩
  · rw [stateOf_insert, lookup_insert_eq]
    by_cases at_ : other = nodeid
    · rw [if_pos at_, lists_append, ← kept.referred, at_]
      split
      case isTrue asked =>
        subst asked
        simp [absent]
      case isFalse differs => simp [Ne.symm differs]
    · rw [if_neg at_, ← kept.referred]
      split
      case isTrue asked =>
        subst asked
        simp [absent, Ne.symm at_]
      case isFalse => rfl
  · rw [stateOf_insert]
    split
    · exact (kept.counted nodeid).append rfl
    · exact (kept.counted other).mono
  · rw [kept.headers, sum_validated_insert, @sum_validated middle nodeid]
    cases pindex <;> simp [validated]
    omega

/-- The books are right as long as no peer goes while a block with a validated header is asked for
from it. -/
theorem Reached.downloads_bookkept (reached : Reached s) : s.Bookkept := by
  induction reached with
  | start => exact ⟨by simp [stateOf, CNodeState.Lists], fun _ => .empty, rfl⟩
  | step event reached harmless ran kept =>
    cases event with
    | opened nodeid =>
      obtain rfl := some.inj ran
      exact kept.initializeNode
    | closed nodeid => exact kept.finalizeNode (harmless nodeid rfl) ran
    | received hash =>
      obtain ⟨reached, same, kept, _⟩ := kept.markBlockAsReceived hash
      obtain rfl := some.inj (same.symm.trans ran)
      exact kept
    | requested nodeid hash pindex nTime => exact kept.markBlockAsInFlight ran

theorem bookkept_two_peers :
    ∃ s, [Event.opened 1, .opened 2, .requested 1 7 (some 7) 0, .requested 2 8 none 0,
    .closed 2].foldlM step {} = some s ∧ s.nQueuedValidatedHeaders = 1 ∧ s.Bookkept :=
  have both := Reached.step (.opened 2) (.step (.opened 1) .start nofun rfl) nofun rfl
  have asked :=
    Reached.step (.requested 2 8 none 0) (.step (.requested 1 7 (some 7) 0) both nofun rfl)
    nofun rfl
  ⟨_, rfl, rfl,
    Reached.downloads_bookkept (.step (.closed 2) asked (fun _ same => by cases same; rfl) rfl)⟩

/-- The block is not asked for any more, and still counted. -/
theorem validated_header_outlives_peer :
    ∃ s, [Event.opened 1, .requested 1 7 (some 7) 0, .closed 1].foldlM step {} = some s ∧
      s.mapNodeState = ∅ ∧ s.nQueuedValidatedHeaders = 1 ∧ ¬ s.Bookkept := by
  refine ⟨_, rfl, rfl, rfl, fun kept => ?_⟩
  exact absurd kept.headers (by decide)

end BlockDownload

end Deviant.Net
