import Deviant.Budget.Messages
import Deviant.Budget.BookSteps
import Deviant.Data.TwoRuns

namespace Deviant.Budget

open Data Option Primitives

/-! What a vote that its masternode did not sign does to the votes that come later: the hash by
which a vote counts as seen does not cover the signature. -/

/-- Two outcomes with one answer and related states. -/
structure Processed.Agree {S : Type} (related : S → S → Prop) (left right : Processed S) :
    Prop where
  added : left.added = right.added
  states : related left.state right.state

namespace VoteBook

variable {O V : Type} {kind : ObjectKind O V} {book left right : VoteBook O V} {view : BudgetView}
  {vote : V}
  {mustBeEnabled : Bool}

theorem isSome_seenVotes_addSeenVote (hash : Uint256) :
    ((book.addSeenVote kind vote).seenVotes.lookup hash).isSome =
      ((book.seenVotes.lookup hash).isSome || decide (hash = kind.getHash vote)) := by
  unfold addSeenVote
  rw [lookup_emplace]
  by_cases own : hash = kind.getHash vote
  · subst own
    cases book.seenVotes.lookup (kind.getHash vote) with
    | none => simp
    | some seen => simp
  · rw [if_neg fun both => own both.1]
    simp [own]

theorem isSome_seenVotes_processVote (hash : Uint256) :
    ((book.processVote kind mustBeEnabled view vote).state.seenVotes.lookup hash).isSome =
      ((book.seenVotes.lookup hash).isSome ||
        (decide (hash = kind.getHash vote) && (view.masternodes.find (kind.mnId vote)).isSome)) := by
  unfold processVote
  cases seen : book.seenVotes.lookup (kind.getHash vote) with
  | some _ =>
    rw [isSome_some, if_pos rfl]
    by_cases own : hash = kind.getHash vote
    · rw [own, seen]
      simp
    · simp [own]
  | none =>
    rw [isSome_none, if_neg Bool.false_ne_true]
    cases known : view.masternodes.find (kind.mnId vote) with
    | none => simp
    | some pmn =>
      have added := @isSome_seenVotes_addSeenVote O V kind book vote hash
      simp only [isSome_some, Bool.and_true]
      rw [← added]
      split
      · rfl
      · split
        · rfl
        · dsimp only
          rw [seenVotes_update]

theorem votes_refused (refused : ¬ book.Admitted kind mustBeEnabled view vote) :
    (book.processVote kind mustBeEnabled view vote).state.objects = book.objects ∧
      (book.processVote kind mustBeEnabled view vote).state.orphanVotes = book.orphanVotes := by
  rcases (processVote_refused refused).2 with same | seen
  · rw [same]
    exact ⟨rfl, rfl⟩
  · rw [seen]
    exact ⟨rfl, rfl⟩

theorem objects_update_of_not_takes (refused : book.takes kind view vote = false) (fromPeer : Bool)
    (hash : Uint256) :
    (book.update kind fromPeer view vote).2.objects.lookup hash = book.objects.lookup hash := by
  rw [objects_update]
  by_cases own : hash = kind.objectHash vote
  · rw [if_pos own, own]
    unfold takes at refused
    cases found : book.objects.lookup (kind.objectHash vote) with
    | none => rfl
    | some object =>
      rw [found, bind_some, isSome_eq_false_iff, isNone_iff_eq_none] at refused
      rw [map_some, refused, getD_none]
  · rw [if_neg own]

/-- The same objects and orphans, which stand under the hashes of their objects, and the same seen
votes except for some hashes. -/
structure Alike (kind : ObjectKind O V) (apart : Uint256 → Prop) (left right : VoteBook O V) :
    Prop where
  objects : ∀ hash, left.objects.lookup hash = right.objects.lookup hash
  orphans : ∀ hash, left.orphanVotes.lookup hash = right.orphanVotes.lookup hash
  seen : ∀ hash, ¬ apart hash →
    (left.seenVotes.lookup hash).isSome = (right.seenVotes.lookup hash).isSome
  keyed : right.OrphansKeyed kind

variable {apart : Uint256 → Prop}

section

variable (alike : Alike kind apart left right)

include alike

theorem Alike.takes : left.takes kind view vote = right.takes kind view vote :=
  takes_of_lookup (alike.objects _)

theorem Alike.update :
    Alike kind apart (left.update kind fromPeer view vote).2
      (right.update kind fromPeer view vote).2 := by
  refine ⟨?_, ?_, ?_, alike.keyed.update fromPeer view vote⟩
  · intro hash
    rw [objects_update, objects_update, alike.objects]
  · intro hash
    rw [orphanVotes_update, orphanVotes_update, alike.objects]
    split
    · rw [Table.lookup_insert_eq, Table.lookup_insert_eq, alike.orphans]
    · exact alike.orphans hash
  · intro hash shared
    rw [seenVotes_update, seenVotes_update]
    exact alike.seen hash shared

theorem Alike.emplaceObject (object : O) :
    Alike kind apart (left.emplaceObject kind object) (right.emplaceObject kind object) := by
  refine ⟨fun hash => ?_, alike.orphans, alike.seen, alike.keyed⟩
  unfold VoteBook.emplaceObject
  rw [lookup_emplace, lookup_emplace, alike.objects, alike.objects]

theorem Alike.checkOrphanVotes (view : BudgetView) :
    Alike kind apart (left.checkOrphanVotes kind view) (right.checkOrphanVotes kind view) := by
  have keyed := alike.keyed
  have leftKeyed : left.OrphansKeyed kind := fun hash vote found =>
    keyed hash vote (alike.orphans hash ▸ found)
  refine ⟨?_, ?_, ?_, keyed.checkOrphanVotes⟩
  · intro hash
    rw [(checkOrphanVotes_spec leftKeyed hash).1, (checkOrphanVotes_spec keyed hash).1,
      alike.orphans, alike.objects]
  · intro hash
    rw [(checkOrphanVotes_spec leftKeyed hash).2, (checkOrphanVotes_spec keyed hash).2, alike.orphans]
    cases right.orphanVotes.lookup hash with
    | none => rfl
    | some orphan =>
      dsimp only
      rw [alike.takes]
  · intro hash shared
    rw [seenVotes_checkOrphanVotes, seenVotes_checkOrphanVotes]
    exact alike.seen hash shared

theorem Alike.of_admitted
    (admitted : left.Admitted kind mustBeEnabled view vote ↔ right.Admitted kind mustBeEnabled view vote)
    (seen : ∀ hash, ¬ after hash →
      ((left.processVote kind mustBeEnabled view vote).state.seenVotes.lookup hash).isSome =
        ((right.processVote kind mustBeEnabled view vote).state.seenVotes.lookup hash).isSome) :
    Processed.Agree (Alike kind after) (left.processVote kind mustBeEnabled view vote)
      (right.processVote kind mustBeEnabled view vote) := by
  have keyed := alike.keyed.processVote mustBeEnabled view vote
  by_cases admits : right.Admitted kind mustBeEnabled view vote
  · obtain ⟨leftAdded, leftState⟩ := processVote_admitted (admitted.mpr admits)
    obtain ⟨rightAdded, rightState⟩ := processVote_admitted admits
    have marked : Alike kind (fun _ => True) (left.addSeenVote kind vote)
        (right.addSeenVote kind vote) :=
      ⟨alike.objects, alike.orphans, fun _ shared => absurd trivial shared, alike.keyed⟩
    have updated : Alike kind (fun _ => True) (left.processVote kind mustBeEnabled view vote).state
        (right.processVote kind mustBeEnabled view vote).state := by
      rw [leftState, rightState]
      exact marked.update
    exact ⟨by rw [leftAdded, rightAdded, alike.takes], updated.objects, updated.orphans, seen, keyed⟩
  · have leftRefused : ¬ left.Admitted kind mustBeEnabled view vote := fun admits' =>
      admits (admitted.mp admits')
    obtain ⟨leftObjects, leftOrphans⟩ := votes_refused leftRefused
    obtain ⟨rightObjects, rightOrphans⟩ := votes_refused admits
    refine ⟨?_, fun hash => ?_, fun hash => ?_, seen, keyed⟩
    · rw [(processVote_refused leftRefused).1, (processVote_refused admits).1]
    · rw [leftObjects, rightObjects]
      exact alike.objects hash
    · rw [leftOrphans, rightOrphans]
      exact alike.orphans hash

theorem Alike.processVote
    (same : apart (kind.getHash vote) → view.masternodes.find (kind.mnId vote) = none) :
    Processed.Agree (Alike kind apart) (left.processVote kind mustBeEnabled view vote)
      (right.processVote kind mustBeEnabled view vote) := by
  apply alike.of_admitted
  · unfold Admitted
    apply and_congr_left
    rintro ⟨pmn, known, _⟩
    have shared : ¬ apart (kind.getHash vote) := fun differs =>
      (nomatch known.symm.trans (same differs))
    rw [← not_isSome_iff_eq_none, ← not_isSome_iff_eq_none, alike.seen _ shared]
  · intro hash shared
    rw [isSome_seenVotes_processVote, isSome_seenVotes_processVote, alike.seen hash shared]

end

/-- Two books of which one has seen a vote that the other may not have. -/
structure SeenForged (kind : ObjectKind O V) (hash : Uint256) (left right : VoteBook O V) :
    Prop where
  alike : Alike kind (· = hash) left right
  forged : (left.seenVotes.lookup hash).isSome = true

def Decides (kind : ObjectKind O V) (hash : Uint256) (view : BudgetView) (vote : V) : Prop :=
  kind.getHash vote = hash ∧ view.masternodes.find (kind.mnId vote) ≠ none

/-- The vote is admitted, and its object takes it, or it is set to wait for its object. -/
def Keeps (kind : ObjectKind O V) (mustBeEnabled : Bool) (view : BudgetView) (book : VoteBook O V)
    (vote : V) : Prop :=
  book.Admitted kind mustBeEnabled view vote ∧ (book.takes kind view vote = true ∨
      book.objects.lookup (kind.objectHash vote) = none ∧ view.isSynced = true ∧
        book.orphanVotes.lookup (kind.objectHash vote) ≠ some vote)

variable {hash : Uint256}

theorem SeenForged.stays (hidden : SeenForged kind hash left right)
    (undecided : ¬ Decides kind hash view vote) :
    Processed.Agree (SeenForged kind hash) (left.processVote kind mustBeEnabled view vote)
      (right.processVote kind mustBeEnabled view vote) := by
  have unknown : kind.getHash vote = hash → view.masternodes.find (kind.mnId vote) = none := by
    intro own
    by_contra known
    exact undecided ⟨own, known⟩
  obtain ⟨answer, alike⟩ := hidden.alike.processVote unknown
  refine ⟨answer, alike, ?_⟩
  rw [isSome_seenVotes_processVote, hidden.forged, Bool.true_or]

theorem SeenForged.left_ignores (hidden : SeenForged kind hash left right)
    (own : kind.getHash vote = hash) :
    left.processVote kind mustBeEnabled view vote = { state := left } := by
  unfold VoteBook.processVote
  rw [own, hidden.forged, if_pos rfl]

theorem SeenForged.ends (hidden : SeenForged kind hash left right)
    (decides : Decides kind hash view vote)
    (harmless : ¬ right.Keeps kind mustBeEnabled view vote) :
    Processed.Agree (Alike kind fun _ => False) (left.processVote kind mustBeEnabled view vote)
      (right.processVote kind mustBeEnabled view vote) := by
  have keyed := hidden.alike.keyed.processVote mustBeEnabled view vote
  have seen : ∀ other, (left.seenVotes.lookup other).isSome =
      ((right.processVote kind mustBeEnabled view vote).state.seenVotes.lookup other).isSome := by
    intro other
    rw [isSome_seenVotes_processVote, decides.1, isSome_iff_ne_none.mpr decides.2, Bool.and_true]
    by_cases same : other = hash
    · rw [same, hidden.forged, decide_eq_true rfl, Bool.or_true]
    · rw [decide_eq_false same, Bool.or_false]
      exact hidden.alike.seen other same
  rw [hidden.left_ignores decides.1]
  by_cases admits : right.Admitted kind mustBeEnabled view vote
  · obtain ⟨added, state⟩ := processVote_admitted admits
    have refuses : right.takes kind view vote = false := by
      by_contra takes
      exact harmless ⟨admits, .inl (Bool.not_eq_false _ ▸ takes)⟩
    have waiting :
        ∀ other, (right.processVote kind mustBeEnabled view vote).state.orphanVotes.lookup other =
        right.orphanVotes.lookup other := by
      intro other
      rw [state, orphanVotes_update]
      split
      next waits =>
        simp only [Bool.and_eq_true, isNone_iff_eq_none, and_true] at waits
        have already : right.orphanVotes.lookup (kind.objectHash vote) = some vote := by
          by_contra new
          exact harmless ⟨admits, .inr ⟨waits.1, waits.2, new⟩⟩
        rw [Table.lookup_insert_eq]
        by_cases own : other = kind.objectHash vote
        · rw [if_pos own, own, already]
        · rw [if_neg own]
          rfl
      · rfl
    refine ⟨(added.trans refuses).symm, fun other => ?_, fun other => ?_, fun other _ => seen other,
      keyed⟩
    · have unmarked : (right.addSeenVote kind vote).takes kind view vote = false := refuses
      rw [state, objects_update_of_not_takes unmarked]
      exact hidden.alike.objects other
    · rw [waiting]
      exact hidden.alike.orphans other
  · obtain ⟨objects, orphans⟩ := votes_refused admits
    refine ⟨(processVote_refused admits).1.symm, fun other => ?_, fun other => ?_,
      fun other _ => seen other, keyed⟩
    · rw [objects]
      exact hidden.alike.objects other
    · rw [orphans]
      exact hidden.alike.orphans other

/-- The same votes on all objects, and the same votes that wait for one. -/
structure SameVotes (kind : ObjectKind O V) (left right : VoteBook O V) : Prop where
  votes : ∀ hash,
    (left.objects.lookup hash).map kind.mapVotes = (right.objects.lookup hash).map kind.mapVotes
  waiting : ∀ hash, left.orphanVotes.lookup hash = right.orphanVotes.lookup hash

theorem Alike.sameVotes (alike : Alike kind apart left right) : SameVotes kind left right :=
  ⟨fun hash => by rw [alike.objects], alike.orphans⟩

theorem SeenForged.shows (hidden : SeenForged kind hash left right)
    (decides : Decides kind hash view vote) (harmful : right.Keeps kind mustBeEnabled view vote)
    (answer : (left.processVote kind mustBeEnabled view vote).added =
      (right.processVote kind mustBeEnabled view vote).added) :
    ¬ SameVotes kind (left.processVote kind mustBeEnabled view vote).state
      (right.processVote kind mustBeEnabled view vote).state := by
  obtain ⟨admits, taken | ⟨missing, synced, new⟩⟩ := harmful
  · rw [hidden.left_ignores decides.1, (processVote_admitted admits).1, taken] at answer
    cases answer
  · intro same
    have waits := same.waiting (kind.objectHash vote)
    have unknown : (right.addSeenVote kind vote).objects.lookup (kind.objectHash vote) = none :=
      missing
    rw [hidden.left_ignores decides.1, (processVote_admitted admits).2, orphanVotes_update, unknown,
      synced] at waits
    refine new ((hidden.alike.orphans _).symm.trans (waits.trans ?_))
    exact AList.lookup_insert _

theorem processVote_forged (keyed : book.OrphansKeyed kind)
    (forged : ∀ pmn, view.masternodes.find (kind.mnId vote) = some pmn →
    kind.checkSignature vote pmn.pubKeyMasternode = false) :
    Alike kind (fun _ => False) (book.processVote kind mustBeEnabled view vote).state book ∧
        ¬ (book.seenVotes.lookup (kind.getHash vote) = none ∧
          view.masternodes.find (kind.mnId vote) ≠ none) ∨
      (book.seenVotes.lookup (kind.getHash vote) = none ∧
        view.masternodes.find (kind.mnId vote) ≠ none) ∧
        SeenForged kind (kind.getHash vote)
        (book.processVote kind mustBeEnabled view vote).state book := by
  have refused : ¬ book.Admitted kind mustBeEnabled view vote := by
    rintro ⟨_, pmn, known, signed, _⟩
    exact absurd (signed.symm.trans (forged pmn known)) (by decide)
  obtain ⟨objects, orphans⟩ := votes_refused refused
  by_cases records : book.seenVotes.lookup (kind.getHash vote) = none ∧
    view.masternodes.find (kind.mnId vote) ≠ none
  · refine .inr ⟨records,
      ⟨fun hash => by rw [objects], fun hash => by rw [orphans], fun hash differs => ?_, keyed⟩, ?_⟩
    · rw [isSome_seenVotes_processVote, decide_eq_false differs, Bool.false_and, Bool.or_false]
    · rw [isSome_seenVotes_processVote, decide_eq_true rfl, isSome_iff_ne_none.mpr records.2,
        Bool.and_true, Bool.or_true]
  · refine .inl ⟨⟨fun
      hash => by rw [objects], fun hash => by rw [orphans], fun hash _ => ?_, keyed⟩, records⟩
    rw [isSome_seenVotes_processVote]
    by_cases own : hash = kind.getHash vote
    · subst own
      cases seen : book.seenVotes.lookup (kind.getHash vote) with
      | some _ => rfl
      | none =>
        have unknown : view.masternodes.find (kind.mnId vote) = none := by
          by_contra known
          exact records ⟨seen, known⟩
        rw [unknown, isSome_none, isSome_none, Bool.and_false, Bool.or_false]
    · rw [decide_eq_false own, Bool.false_and, Bool.or_false]

/-- A relation between books that new objects and the search for their orphans keep. -/
structure Preserved (kind : ObjectKind O V) (related : VoteBook O V → VoteBook O V → Prop) :
    Prop where
  objects : ∀ {left right}, related left right →
    ∀ hash, left.objects.lookup hash = right.objects.lookup hash
  emplaceObject : ∀ {left right}, related left right → ∀ object,
    related (left.emplaceObject kind object) (right.emplaceObject kind object)
  checkOrphanVotes : ∀ {left right}, related left right → ∀ view,
    related (left.checkOrphanVotes kind view) (right.checkOrphanVotes kind view)

theorem preserved_alike : Preserved kind (Alike kind apart) :=
  ⟨Alike.objects, Alike.emplaceObject, Alike.checkOrphanVotes⟩

theorem preserved_seenForged : Preserved kind (SeenForged kind hash) := by
  constructor
  · intro left right hidden
    exact hidden.alike.objects
  · intro left right hidden object
    exact ⟨hidden.alike.emplaceObject object, hidden.forged⟩
  · intro left right hidden view
    refine ⟨hidden.alike.checkOrphanVotes view, ?_⟩
    rw [seenVotes_checkOrphanVotes]
    exact hidden.forged

end VoteBook

end Deviant.Budget
