import Deviant.Budget.BookSteps
import Deviant.Budget.Collateral

namespace Deviant.Budget

open Data List Option Primitives VoteBook

/-! Votes that arrive before the object they are on.  For one object a book is a small machine:
while the object is missing it keeps the last vote that arrives, and with the object it takes that
vote and every later one. -/

/-- What arrives at a book.  Each new object makes the manager try its orphan votes, also on the
book of the other kind. -/
inductive BookEvent (O V : Type) where
  | object (view : BudgetView) (object : O)
  | vote (view : BudgetView) (vote : V)
  | check (view : BudgetView)

namespace VoteBook

variable {O V : Type} (kind : ObjectKind O V) (mustBeEnabled : Bool) (book : VoteBook O V)

def step : BookEvent O V → VoteBook O V
  | .object view object => (book.emplaceObject kind object).checkOrphanVotes kind view
  | .vote view vote => (book.processVote kind mustBeEnabled view vote).state
  | .check view => book.checkOrphanVotes kind view

def run (events : List (BookEvent O V)) : VoteBook O V :=
  events.foldl (step kind mustBeEnabled) book

end VoteBook

/-- What is known about an object: whether it is there, the vote that waits for it, and its
votes. -/
structure Slot (V : Type) where
  arrived : Bool := false
  orphan : Option V := none
  votes : List V := []

namespace Slot

variable {O V : Type} (kind : ObjectKind O V) (hash : Uint256) (slot : Slot V)

def step : BookEvent O V → Slot V
  | .object _ object =>
    if kind.getObjectHash object = hash then { arrived := true, votes := slot.orphan.toList }
      else slot
  | .vote view vote =>
    if kind.objectHash vote = hash then
      if slot.arrived then { slot with votes := slot.votes ++ [vote] }
      else if view.isSynced then { slot with orphan := some vote }
      else slot
    else slot
  | .check _ => slot

def run (events : List (BookEvent O V)) : Slot V :=
  events.foldl (step kind hash) slot

end Slot

namespace VoteBook

variable {O V : Type} {kind : ObjectKind O V} {book : VoteBook O V} {view : BudgetView} {vote : V}
  {hash : Uint256}
  {mustBeEnabled : Bool}

def Holds (kind : ObjectKind O V) (object : O) (votes : List V) : Prop :=
  ∀ mnId vote, (kind.mapVotes object).lookup mnId = some vote ↔ vote ∈ votes ∧ kind.mnId vote = mnId

/-- The book is, as far as one object is concerned, in the state of the slot. -/
structure Represents (kind : ObjectKind O V) (hash : Uint256) (book : VoteBook O V)
    (slot : Slot V) : Prop where
  orphan : book.orphanVotes.lookup hash = slot.orphan
  absent : slot.arrived = false → book.objects.lookup hash = none ∧ slot.votes = []
  present : slot.arrived = true →
    slot.orphan = none ∧ ∃ object, book.objects.lookup hash = some object ∧
    Holds kind object slot.votes

theorem voted_of_fresh (holds : Holds kind object votes)
    (fresh : ∀ other ∈ votes, kind.mnId other ≠ kind.mnId vote)
    (inWindow : kind.getTime vote ≤ view.getTime + 60 * 60) :
    ∃ after, voted kind view vote object = some after ∧ Holds kind after (votes ++ [vote]) := by
  have none : (kind.mapVotes object).lookup (kind.mnId vote) = none := by
    cases found : (kind.mapVotes object).lookup (kind.mnId vote) with
    | none => rfl
    | some other =>
      obtain ⟨member, same⟩ := (holds _ _).mp found
      exact absurd same (fresh other member)
  refine ⟨kind.setVotes ((kind.mapVotes object).insert (kind.mnId vote) vote) object, ?_, ?_⟩
  · unfold voted addOrUpdateVote votedTooRecently
    rw [none, if_neg Bool.false_ne_true, if_neg (by omega), map_some]
  · intro mnId found
    rw [kind.mapVotes_setVotes, Table.lookup_insert_eq, mem_append, mem_singleton]
    by_cases same : mnId = kind.mnId vote
    · rw [if_pos same, Option.some.injEq]
      constructor
      · rintro rfl
        exact ⟨.inr rfl, same.symm⟩
      · rintro ⟨member | rfl, of⟩
        · exact absurd (of.trans same) (fresh found member)
        · rfl
    · rw [if_neg same, holds]
      constructor
      · exact fun member => ⟨.inl member.1, member.2⟩
      · rintro ⟨member | rfl, of⟩
        · exact ⟨member, of⟩
        · exact absurd of.symm same

def Expected (kind : ObjectKind O V) (mustBeEnabled : Bool) (hash : Uint256) (book : VoteBook O V)
    (slot : Slot V) :
    BookEvent O V → Prop
  | .object view object => kind.getObjectHash object = hash → slot.arrived = false ∧
        kind.mapVotes object = ∅ ∧ ∀ orphan, slot.orphan = some orphan →
        kind.getTime orphan ≤ view.getTime + 60 * 60
  | .vote view vote => kind.objectHash vote = hash →
      book.Admitted kind mustBeEnabled view vote ∧ kind.getTime vote ≤ view.getTime + 60 * 60 ∧
        ∀ other ∈ slot.votes, kind.mnId other ≠ kind.mnId vote
  | .check _ => True

variable {slot : Slot V} (represents : book.Represents kind hash slot)

include represents

theorem Represents.congr {other : VoteBook O V}
    (orphans : other.orphanVotes.lookup hash = book.orphanVotes.lookup hash)
    (objects : other.objects.lookup hash = book.objects.lookup hash) :
    other.Represents kind hash slot where
  orphan := orphans.trans represents.orphan
  absent missing := objects.symm ▸ represents.absent missing
  present there := objects.symm ▸ represents.present there

theorem Represents.checkOrphanVotes (keyed : book.OrphansKeyed kind)
    (view : BudgetView) : (book.checkOrphanVotes kind view).Represents kind hash slot := by
  obtain ⟨objects, orphans⟩ := @checkOrphanVotes_spec _ _ kind book view keyed hash
  rw [represents.orphan] at objects orphans
  cases arrived : slot.arrived with
  | true =>
    obtain ⟨settled, -⟩ := represents.present arrived
    rw [settled] at objects orphans
    exact represents.congr (orphans.trans (represents.orphan.trans settled).symm) objects
  | false =>
    obtain ⟨missing, unvoted⟩ := represents.absent arrived
    rw [missing] at objects
    refine ⟨?_, fun _ => ⟨?_, unvoted⟩, fun there => absurd (arrived.symm.trans there) (by decide)⟩
    · rw [orphans]
      cases waiting : slot.orphan with
      | none => rfl
      | some orphan =>
        have own : kind.objectHash orphan = hash :=
          keyed hash orphan (represents.orphan.trans waiting)
        have refused : book.takes kind view orphan = false := by
          unfold takes
          rw [own, missing]
          rfl
        dsimp only
        rw [refused, if_neg Bool.false_ne_true]
    · rw [objects]
      cases slot.orphan with
      | none => rfl
      | some orphan => rfl

theorem Represents.step_object (keyed : book.OrphansKeyed kind)
    (expected : Expected kind mustBeEnabled hash book slot (.object view object)) :
    (book.step kind mustBeEnabled (.object view object)).Represents kind hash
      (slot.step kind hash (.object view object)) := by
  have storedKeyed : (book.emplaceObject kind object).OrphansKeyed kind := keyed
  have objects : (book.emplaceObject kind object).objects.lookup hash =
      if hash = kind.getObjectHash object ∧ book.objects.lookup (kind.getObjectHash object) = none
      then some object
      else book.objects.lookup hash := lookup_emplace
  by_cases own : kind.getObjectHash object = hash
  · obtain ⟨missing, unvoted, inWindow⟩ := expected own
    have absent := (represents.absent missing).1
    rw [own, if_pos ⟨rfl, absent⟩] at objects
    have empty : Holds kind object [] := by
      intro mnId found
      rw [unvoted]
      simp
    obtain ⟨afterObjects, afterOrphans⟩ :=
      @checkOrphanVotes_spec _ _ kind (book.emplaceObject kind object) view storedKeyed hash
    have waiting : (book.emplaceObject kind object).orphanVotes.lookup hash = slot.orphan :=
      represents.orphan
    rw [waiting, objects] at afterObjects
    rw [waiting] at afterOrphans
    rw [Slot.step, if_pos own]
    cases orphan : slot.orphan with
    | none =>
      rw [orphan] at afterObjects afterOrphans
      exact ⟨afterOrphans, fun away => absurd away (by simp),
        fun _ => ⟨rfl, object, afterObjects, empty⟩⟩
    | some vote =>
      rw [orphan] at afterObjects afterOrphans
      obtain ⟨after, taken, holds⟩ := voted_of_fresh empty (fun _ member => absurd member (by simp))
        (inWindow vote orphan)
      have takes : (book.emplaceObject kind object).takes kind view vote = true := by
        unfold takes
        rw [keyed hash vote (represents.orphan.trans orphan), objects, bind_some, taken]
        rfl
      dsimp only at afterObjects afterOrphans
      rw [takes, if_pos rfl] at afterOrphans
      rw [map_some, taken, getD_some] at afterObjects
      exact ⟨afterOrphans, fun away => absurd away (by simp),
        fun _ => ⟨rfl, after, afterObjects, holds⟩⟩
  · rw [if_neg fun both => own both.1.symm] at objects
    rw [Slot.step, if_neg own]
    refine Represents.checkOrphanVotes ?_ storedKeyed view
    exact represents.congr rfl objects

theorem Represents.update_other (other : kind.objectHash vote ≠ hash) :
    (book.update kind true view vote).2.Represents kind hash slot := by
  have objects :
      (book.update kind true view vote).2.objects.lookup hash = book.objects.lookup hash := by
    rw [objects_update, if_neg (Ne.symm other)]
  have orphans :
      (book.update kind true view vote).2.orphanVotes.lookup hash =
      book.orphanVotes.lookup hash := by
    rw [orphanVotes_update]
    split
    · rw [Table.lookup_insert_eq, if_neg (Ne.symm other)]
    · rfl
  exact represents.congr orphans objects

theorem Represents.step_vote
    (expected : Expected kind mustBeEnabled hash book slot (.vote view vote)) :
    (book.step kind mustBeEnabled (.vote view vote)).Represents kind hash
      (slot.step kind hash (.vote view vote)) := by
  have seen : (book.addSeenVote kind vote).Represents kind hash slot := represents.congr rfl rfl
  rw [Slot.step, step]
  by_cases own : kind.objectHash vote = hash
  · obtain ⟨admitted, inWindow, fresh⟩ := expected own
    have objects := @objects_update _ _ kind (book.addSeenVote kind vote) view vote true hash
    have orphans := @orphanVotes_update _ _ kind (book.addSeenVote kind vote) view vote true
    rw [if_pos own.symm] at objects
    rw [own] at orphans
    rw [if_pos own, (processVote_admitted admitted).2]
    cases arrived : slot.arrived with
    | true =>
      obtain ⟨settled, object, stored, holds⟩ := seen.present arrived
      obtain ⟨after, taken, afterHolds⟩ := voted_of_fresh holds fresh inWindow
      rw [stored, map_some, taken, getD_some] at objects
      rw [stored, isNone_some, Bool.false_and, Bool.false_and, if_neg Bool.false_ne_true] at orphans
      refine ⟨?_, fun away => absurd away (by simp), fun _ => ⟨settled, after, objects, afterHolds⟩⟩
      rw [orphans]
      exact seen.orphan
    | false =>
      obtain ⟨missing, unvoted⟩ := seen.absent arrived
      rw [missing, map_none] at objects
      rw [missing, isNone_none, Bool.true_and, Bool.true_and] at orphans
      cases synced : view.isSynced with
      | true =>
        rw [synced, if_pos rfl] at orphans
        refine ⟨?_, fun _ => ⟨objects, unvoted⟩, fun there => absurd there (by simp)⟩
        rw [orphans]
        exact AList.lookup_insert _
      | false =>
        rw [synced, if_neg Bool.false_ne_true] at orphans
        refine ⟨?_, fun _ => ⟨objects, unvoted⟩,
          fun there => absurd (arrived.symm.trans there) (by decide)⟩
        rw [orphans]
        exact seen.orphan
  · rw [if_neg own]
    exact processVote_induction (motive := (·.Represents kind hash slot)) represents seen
      (seen.update_other own)

end VoteBook

namespace BookEvent

variable {O V : Type}

def view : BookEvent O V → BudgetView
  | .object view _ => view
  | .vote view _ => view
  | .check view => view

def vote? : BookEvent O V → Option V
  | .vote _ cast => some cast
  | _ => none

def object? : BookEvent O V → Option O
  | .object _ arriving => some arriving
  | _ => none

def ballot? (kind : ObjectKind O V) (hash : Uint256) : BookEvent O V → Option (Bool × V)
  | .vote view cast => if kind.objectHash cast = hash then some (view.isSynced, cast) else none
  | _ => none

end BookEvent

open BookEvent hiding object view

section Orders

variable {O V : Type} {kind : ObjectKind O V} {hash : Uint256} {mustBeEnabled : Bool}
  {events passed before after : List (BookEvent O V)} {event : BookEvent O V}

def votesIn (events : List (BookEvent O V)) : List V := events.filterMap vote?

def objectsIn (events : List (BookEvent O V)) : List O := events.filterMap object?

def ballotsOn (kind : ObjectKind O V) (hash : Uint256) (events : List (BookEvent O V)) :
    List (Bool × V) :=
  events.filterMap (ballot? kind hash)

@[simp] theorem votesIn_append :
    votesIn (before ++ after) = votesIn before ++ votesIn after := filterMap_append

@[simp] theorem objectsIn_append :
    objectsIn (before ++ after) = objectsIn before ++ objectsIn after := filterMap_append

theorem map_snd_ballotsOn :
    (ballotsOn kind hash events).map Prod.snd = (votesIn events).filter fun vote =>
      kind.objectHash vote = hash := by
  unfold ballotsOn votesIn
  induction events with
  | nil => rfl
  | cons event events ih =>
    cases event with
    | object view object => exact ih
    | check view => exact ih
    | vote view vote =>
      by_cases own : kind.objectHash vote = hash
      · simp [ballot?, vote?, ih, own]
      · simp [ballot?, vote?, ih, own]

/-- Genuine votes in the accepted window, on objects that arrive once and without votes: the votes
differ, and each is of another masternode than the others on the same object. -/
structure Regular (kind : ObjectKind O V) (mustBeEnabled : Bool) (events : List (BookEvent O V)) :
    Prop where
  genuine : ∀ view vote, .vote view vote ∈ events →
    ∃ pmn, view.masternodes.find (kind.mnId vote) = some pmn ∧
    kind.checkSignature vote pmn.pubKeyMasternode = true ∧
    (mustBeEnabled = true → pmn.enabled = true)
  inWindow : ∀ event ∈ events, ∀ vote ∈ votesIn events,
    kind.getTime vote ≤ event.view.getTime + 60 * 60
  hashes : ((votesIn events).map kind.getHash).Nodup
  voters : ((votesIn events).map fun vote => (kind.objectHash vote, kind.mnId vote)).Nodup
  objects : ((objectsIn events).map kind.getObjectHash).Nodup
  unvoted : ∀ object ∈ objectsIn events, kind.mapVotes object = ∅

theorem Regular.perm (regular : Regular kind mustBeEnabled events) (reordered : events.Perm other) :
    Regular kind mustBeEnabled other := by
  have votes : (votesIn events).Perm (votesIn other) := reordered.filterMap _
  have objects : (objectsIn events).Perm (objectsIn other) := reordered.filterMap _
  constructor
  · intro view vote member
    exact regular.genuine view vote (reordered.mem_iff.mpr member)
  · intro event member vote cast
    exact regular.inWindow event (reordered.mem_iff.mpr member) vote (votes.mem_iff.mpr cast)
  · exact (votes.map _).nodup_iff.mp regular.hashes
  · exact (votes.map _).nodup_iff.mp regular.voters
  · exact (objects.map _).nodup_iff.mp regular.objects
  · intro object member
    exact regular.unvoted object (objects.mem_iff.mpr member)

/-- At most one vote on an object arrives before the object, and only at a synced node. -/
def InOrder (kind : ObjectKind O V) (events : List (BookEvent O V)) : Prop :=
  ∀ before view object after, events = before ++ .object view object :: after →
    ballotsOn kind (kind.getObjectHash object) before = [] ∨
      ∃ vote, ballotsOn kind (kind.getObjectHash object) before = [(true, vote)]

def HoldsAll (kind : ObjectKind O V) (events : List (BookEvent O V)) (book : VoteBook O V) : Prop :=
  ∀ object ∈ objectsIn events, ∃ stored,
    book.objects.lookup (kind.getObjectHash object) = some stored ∧
    Holds kind stored ((ballotsOn kind (kind.getObjectHash object) events).map Prod.snd)

theorem Slot.run_append (kind : ObjectKind O V) (slot : Slot V) :
    slot.run kind hash (first ++ second) = (slot.run kind hash first).run kind hash second :=
  foldl_append

theorem Slot.run_before (absent : ∀ object ∈ objectsIn events, kind.getObjectHash object ≠ hash)
    (slot : Slot V) (missing : slot.arrived = false) : slot.run kind hash events =
      { slot with
        orphan := (((ballotsOn kind hash events).filter Prod.fst).getLast?.map Prod.snd).or
          slot.orphan } := by
  induction events using List.reverseRecOn with
  | nil => rfl
  | append_singleton events event ih =>
    have rest := ih fun object member => absent object (by simp [member])
    rw [Slot.run_append, rest]
    unfold ballotsOn
    rw [filterMap_append, filter_append, filterMap_cons, filterMap_nil, Slot.run,
      foldl_cons, foldl_nil]
    cases event with
    | check view => simp [Slot.step, ballot?]
    | object view object =>
      have other : kind.getObjectHash object ≠ hash := absent object (by simp [objectsIn, object?])
      simp [Slot.step, if_neg other, ballot?]
    | vote view vote =>
      by_cases own : kind.objectHash vote = hash
      · cases synced : view.isSynced with
        | true =>
          simp [Slot.step, ballot?, if_pos own, missing, synced]
        | false =>
          simp [Slot.step, ballot?, if_pos own, missing, synced]
      · simp [Slot.step, ballot?, if_neg own]

theorem Slot.run_after (absent : ∀ object ∈ objectsIn events, kind.getObjectHash object ≠ hash)
    (slot : Slot V) (arrived : slot.arrived = true) :
    slot.run kind hash events =
      { slot with votes := slot.votes ++ (ballotsOn kind hash events).map Prod.snd } := by
  induction events using List.reverseRecOn with
  | nil => simp [ballotsOn, Slot.run]
  | append_singleton events event ih =>
    have rest := ih fun object member => absent object (by simp [member])
    rw [Slot.run_append, rest]
    cases event with
    | check view => simp [Slot.run, Slot.step, ballotsOn, ballot?]
    | object view object =>
      have other : kind.getObjectHash object ≠ hash := absent object (by simp [objectsIn, object?])
      simp [Slot.run, Slot.step, other, ballotsOn, ballot?]
    | vote view vote =>
      by_cases own : kind.objectHash vote = hash
      · simp [Slot.run, Slot.step, own, arrived, ballotsOn, ballot?]
      · simp [Slot.run, Slot.step, own, ballotsOn, ballot?]

theorem VoteBook.run_concat (book : VoteBook O V) (event : BookEvent O V) :
    book.run kind mustBeEnabled (events ++ [event]) = (book.run kind mustBeEnabled events).step kind
      mustBeEnabled event := by
  unfold run
  rw [foldl_append, foldl_cons, foldl_nil]

theorem Slot.run_concat (slot : Slot V) (events : List (BookEvent O V)) :
    slot.run kind hash (events ++ [event]) = (slot.run kind hash events).step kind hash event := by
  rw [Slot.run_append]
  rfl

/-- What a slot has are votes that arrived on its object, and it has the object once the object
arrived. -/
structure Slot.FromEvents (kind : ObjectKind O V) (hash : Uint256) (events : List (BookEvent O V))
    (slot : Slot V) : Prop where
  votes : ∀ vote ∈ slot.votes, vote ∈ votesIn events ∧ kind.objectHash vote = hash
  orphan : ∀ vote, slot.orphan = some vote → vote ∈ votesIn events ∧ kind.objectHash vote = hash
  arrived : slot.arrived = true → ∃ object ∈ objectsIn events, kind.getObjectHash object = hash

theorem Slot.fromEvents_run (kind : ObjectKind O V) (hash : Uint256) (events : List (BookEvent O V)) :
    Slot.FromEvents kind hash events (Slot.run kind hash {} events) := by
  induction events using List.reverseRecOn with
  | nil => exact ⟨fun _ member => (nomatch member), fun _ found => (nomatch found),
    fun away => (nomatch away)⟩
  | append_singleton events event ih =>
    have same : Slot.FromEvents kind hash (events ++ [event]) (Slot.run kind hash {} events) := by
      refine ⟨fun vote member => ?_, fun vote found => ?_, fun there => ?_⟩
      · simp [ih.votes vote member]
      · simp [ih.orphan vote found]
      · obtain ⟨object, member, own⟩ := ih.arrived there
        exact ⟨object, by simp [member], own⟩
    rw [Slot.run_concat]
    cases event with
    | check view => exact same
    | object view object =>
      rw [Slot.step]
      by_cases own : kind.getObjectHash object = hash
      · rw [if_pos own]
        exact ⟨fun vote member => same.orphan vote (mem_toList.mp member),
          fun _ found => (nomatch found), fun _ => ⟨object, by simp [objectsIn, object?], own⟩⟩
      · rw [if_neg own]
        exact same
    | vote view vote =>
      rw [Slot.step]
      by_cases own : kind.objectHash vote = hash
      · have new : vote ∈ votesIn (events ++ [BookEvent.vote view vote]) := by simp [votesIn, vote?]
        rw [if_pos own]
        split
        · refine ⟨fun other member => ?_, same.orphan, same.arrived⟩
          rcases mem_append.mp member with old | last
          · exact same.votes other old
          · cases mem_singleton.mp last
            exact ⟨new, own⟩
        · split
          · refine ⟨same.votes, fun other found => ?_, same.arrived⟩
            cases found
            exact ⟨new, own⟩
          · exact same
      · rw [if_neg own]
        exact same

def VoteBook.SeenFrom (kind : ObjectKind O V) (events : List (BookEvent O V))
    (book : VoteBook O V) : Prop :=
  ∀ voteHash, (book.seenVotes.lookup voteHash).isSome → voteHash ∈ (votesIn events).map kind.getHash

theorem VoteBook.seenFrom_step {book : VoteBook O V} (seen : book.SeenFrom kind events) :
    (book.step kind mustBeEnabled event).SeenFrom kind (events ++ [event]) := by
  have older : book.SeenFrom kind (events ++ [event]) := by
    intro voteHash found
    rw [votesIn_append, map_append]
    exact mem_append_left _ (seen voteHash found)
  cases event with
  | object view object =>
    intro voteHash found
    rw [step, seenVotes_checkOrphanVotes] at found
    exact older voteHash found
  | check view =>
    intro voteHash found
    rw [step, seenVotes_checkOrphanVotes] at found
    exact older voteHash found
  | vote view vote =>
    have added : (book.addSeenVote kind vote).SeenFrom kind (events ++ [.vote view vote]) := by
      intro voteHash found
      unfold addSeenVote at found
      rw [lookup_emplace] at found
      by_cases own : voteHash = kind.getHash vote ∧ book.seenVotes.lookup (kind.getHash vote) = none
      · simp [own.1, votesIn, vote?]
      · rw [if_neg own] at found
        exact older voteHash found
    rw [step]
    exact processVote_induction older added fun voteHash found =>
      added voteHash (seenVotes_update ▸ found)

theorem VoteBook.orphansKeyed_step {book : VoteBook O V} (keyed : book.OrphansKeyed kind)
    (event : BookEvent O V) :
    (book.step kind mustBeEnabled event).OrphansKeyed kind := by
  cases event with
  | object view object =>
    have stored : (book.emplaceObject kind object).OrphansKeyed kind := keyed
    exact stored.checkOrphanVotes
  | vote view vote => exact keyed.processVote mustBeEnabled view vote
  | check view => exact keyed.checkOrphanVotes

theorem VoteBook.Holds.iff_mem (holds : Holds kind stored kept) :
    Holds kind stored votes ↔ ∀ vote, vote ∈ kept ↔ vote ∈ votes := by
  constructor
  · intro all vote
    have mine := holds (kind.mnId vote) vote
    have theirs := all (kind.mnId vote) vote
    rw [mine] at theirs
    simpa only [and_true] using theirs
  · intro same mnId vote
    rw [holds, same]

theorem mem_last_iff {early : List (Bool × V)} (distinct : (early.map Prod.snd ++ late).Nodup) :
    (∀ vote, vote ∈ ((early.filter Prod.fst).getLast?.map Prod.snd).toList ++ late ↔
      vote ∈ early.map Prod.snd ++ late) ↔
      early = [] ∨ ∃ vote, early = [(true, vote)] := by
  constructor
  · intro same
    have last : ∀ ballot ∈ early, (early.filter Prod.fst).getLast?.map Prod.snd = some ballot.2 := by
      intro ballot member
      have among := (same ballot.2).mpr (mem_append_left _ (mem_map_of_mem member))
      rcases mem_append.mp among with kept | later
      · exact mem_toList.mp kept
      · exact absurd rfl ((nodup_append.mp distinct).2.2 _ (mem_map_of_mem member) _ later)
    cases early with
    | nil => exact .inl rfl
    | cons first rest =>
      right
      cases rest with
      | cons second rest =>
        have firstLast := last first mem_cons_self
        have secondLast := last second (mem_cons_of_mem _ mem_cons_self)
        have equal : first.2 = second.2 := Option.some.inj (firstLast.symm.trans secondLast)
        have apart := (nodup_append.mp distinct).1
        simp [equal] at apart
      | nil =>
        obtain ⟨synced, vote⟩ := first
        cases synced with
        | true => exact ⟨vote, rfl⟩
        | false => exact absurd (last (false, vote) mem_cons_self) (by simp)
  · rintro (rfl | ⟨vote, rfl⟩)
    · exact fun _ => Iff.rfl
    · exact fun _ => Iff.rfl

variable (regular : Regular kind mustBeEnabled events)

include regular

theorem Regular.expected (within : passed ++ [event] <+: events) (seen : book.SeenFrom kind passed) :
    Expected kind mustBeEnabled hash book (Slot.run kind hash {} passed) event := by
  obtain ⟨rest, split⟩ := within
  have known := Slot.fromEvents_run kind hash passed
  have here : event ∈ events := by
    rw [← split]
    simp
  have earlier (vote) (member : vote ∈ votesIn passed) :
    vote ∈ votesIn events := by simp [← split, member]
  cases event with
  | check view => trivial
  | object view object =>
    intro own
    have objects := regular.objects
    rw [← split] at objects
    simp only [objectsIn, filterMap_append, filterMap_cons, object?, map_append, map_cons,
      append_assoc, singleton_append] at objects
    refine ⟨?_, regular.unvoted object (mem_filterMap.mpr ⟨_, here, rfl⟩), ?_⟩
    · cases arrived : (Slot.run kind hash {} passed).arrived with
      | false => rfl
      | true =>
        obtain ⟨other, member, same⟩ := known.arrived arrived
        have apart := (nodup_append.mp objects).2.2 (kind.getObjectHash other)
          (mem_map_of_mem member) (kind.getObjectHash object) mem_cons_self
        exact absurd (same.trans own.symm) apart
    · intro orphan waiting
      exact regular.inWindow _ here orphan (earlier orphan (known.orphan orphan waiting).1)
  | vote view vote =>
    intro own
    have hashes := regular.hashes
    have voters := regular.voters
    rw [← split] at hashes voters
    simp only [votesIn, filterMap_append, filterMap_cons, vote?, map_append, map_cons,
      append_assoc, singleton_append] at hashes voters
    refine ⟨⟨?_, regular.genuine view vote here⟩, ?_, ?_⟩
    · by_contra found
      have old := seen (kind.getHash vote) (isSome_iff_ne_none.mpr found)
      exact (nodup_append.mp hashes).2.2 _ old _ mem_cons_self rfl
    · exact regular.inWindow _ here vote (mem_filterMap.mpr ⟨_, here, rfl⟩)
    · intro other member same
      obtain ⟨old, otherOwn⟩ := known.votes other member
      have apart := (nodup_append.mp voters).2.2 (kind.objectHash other, kind.mnId other)
        (mem_map_of_mem old) (kind.objectHash vote, kind.mnId vote) mem_cons_self
      exact apart (by rw [otherOwn, own, same])

theorem Regular.represents (within : passed <+: events) :
      (run kind mustBeEnabled {} passed).OrphansKeyed kind ∧
        (run kind mustBeEnabled {} passed).SeenFrom kind passed ∧ ∀ hash,
        (run kind mustBeEnabled {} passed).Represents kind hash (Slot.run kind hash {} passed) := by
  induction passed using List.reverseRecOn with
  | nil =>
    refine ⟨fun _ _ found => (nomatch found), fun _ found => (nomatch found), fun hash => ?_⟩
    exact ⟨rfl, fun _ => ⟨rfl, rfl⟩, fun away => (nomatch away)⟩
  | append_singleton passed event ih =>
    obtain ⟨keyed, seen, slots⟩ := ih ((prefix_append passed [event]).trans within)
    rw [run_concat]
    refine ⟨orphansKeyed_step keyed event, seenFrom_step seen, fun hash => ?_⟩
    have expected : Expected kind mustBeEnabled hash _ _ event := regular.expected within seen
    rw [Slot.run_concat]
    cases event with
    | object view object => exact (slots hash).step_object keyed expected
    | vote view vote => exact (slots hash).step_vote expected
    | check view => exact (slots hash).checkOrphanVotes keyed view

theorem Regular.absent (within : passed ++ [.object view object] <+: events) :
    (run kind mustBeEnabled {} passed).objects.lookup (kind.getObjectHash object) = none := by
  obtain ⟨_, seen, slots⟩ := regular.represents ((prefix_append passed _).trans within)
  have expected :
      Expected kind mustBeEnabled (kind.getObjectHash object) _ _ (.object view object) :=
    regular.expected within seen
  exact ((slots _).absent (expected rfl).1).1

theorem Regular.slot_run
    (split : events = before ++ .object view object :: after) :
    Slot.run kind (kind.getObjectHash object) {} events =
      { arrived := true
        votes := (((ballotsOn kind (kind.getObjectHash object) before).filter Prod.fst).getLast?.map
          Prod.snd).toList ++
          (ballotsOn kind (kind.getObjectHash object) after).map Prod.snd } := by
  have objects := regular.objects
  rw [split] at objects
  simp only [objectsIn, filterMap_append, filterMap_cons, object?, map_append, map_cons] at objects
  have absentBefore : ∀ other ∈ objectsIn before,
      kind.getObjectHash other ≠ kind.getObjectHash object := by
    intro other member
    exact (nodup_append.mp objects).2.2 _ (mem_map_of_mem member) _ mem_cons_self
  have absentAfter : ∀ other ∈ objectsIn after,
      kind.getObjectHash other ≠ kind.getObjectHash object := by
    intro other member same
    have unused := (nodup_cons.mp (nodup_append.mp objects).2.1).1
    exact unused (same ▸ mem_map_of_mem member)
  have first := Slot.run_before absentBefore {} rfl
  rw [or_none] at first
  rw [split, Slot.run_append, first, Slot.run, foldl_cons, ← Slot.run, Slot.step, if_pos rfl]
  exact Slot.run_after absentAfter _ rfl

/-- After a regular order every object has all its votes exactly if at most one of them came before
it, and to a synced node. -/
theorem Regular.holdsAll_iff_inOrder :
    HoldsAll kind events (run kind mustBeEnabled {} events) ↔ InOrder kind events := by
  have slots := (regular.represents (prefix_refl events)).2.2
  have each : ∀ before view object after, events = before ++ .object view object :: after →
      ((∃ stored, (run kind mustBeEnabled {} events).objects.lookup (kind.getObjectHash object) =
        some stored ∧
          Holds kind stored ((ballotsOn kind (kind.getObjectHash object) events).map Prod.snd)) ↔
        (ballotsOn kind (kind.getObjectHash object) before = [] ∨
          ∃ vote, ballotsOn kind (kind.getObjectHash object) before = [(true, vote)])) := by
    intro before view object after split
    have slot := slots (kind.getObjectHash object)
    rw [regular.slot_run split] at slot
    obtain ⟨_, stored, found, holds⟩ := slot.present rfl
    have ballots : (ballotsOn kind (kind.getObjectHash object) events).map Prod.snd =
        (ballotsOn kind (kind.getObjectHash object) before).map Prod.snd ++
          (ballotsOn kind (kind.getObjectHash object) after).map Prod.snd := by
      rw [split]
      simp [ballotsOn, filterMap_cons, ballot?]
    have distinct := (regular.hashes.of_map).filter fun vote =>
      decide (kind.objectHash vote = kind.getObjectHash object)
    rw [← map_snd_ballotsOn, ballots] at distinct
    rw [← mem_last_iff distinct, ← ballots]
    constructor
    · rintro ⟨other, otherFound, all⟩
      cases found.symm.trans otherFound
      exact holds.iff_mem.mp all
    · intro same
      exact ⟨stored, found, holds.iff_mem.mpr same⟩
  constructor
  · intro all before view object after split
    apply (each before view object after split).mp
    apply all object
    rw [split]
    exact mem_filterMap.mpr ⟨.object view object, by simp, rfl⟩
  · intro order object member
    obtain ⟨event, arrives, is⟩ := mem_filterMap.mp member
    cases event with
    | vote view vote => cases is
    | check view => cases is
    | object view other =>
      cases is
      obtain ⟨before, after, split⟩ := append_of_mem arrives
      exact (each before view object after split).mpr (order before view object after split)

end Orders

end Deviant.Budget
