import Deviant.Budget.VoteBook

namespace Deviant.Budget

open Data List Option Primitives

/-! What the operations of a book do to one object, to the orphan kept for it and to the seen
votes. -/

namespace VoteBook

variable {O V : Type} {kind : ObjectKind O V} {book : VoteBook O V} {view : BudgetView} {vote : V}

def voted (kind : ObjectKind O V) (view : BudgetView) (vote : V) (object : O) : Option O :=
  (addOrUpdateVote kind.toVoteKind view.getTime (kind.mapVotes object) vote).map fun votes =>
    kind.setVotes votes object

def takes (kind : ObjectKind O V) (view : BudgetView) (book : VoteBook O V) (vote : V) : Bool :=
  ((book.objects.lookup (kind.objectHash vote)).bind (voted kind view vote)).isSome

theorem update_fst : (book.update kind fromPeer view vote).1 = book.takes kind view vote := by
  unfold update takes
  cases book.objects.lookup (kind.objectHash vote) with
  | none =>
    dsimp only
    split <;> rfl
  | some object =>
    rw [bind_some, voted, isSome_map]
    dsimp only
    cases addOrUpdateVote kind.toVoteKind view.getTime (kind.mapVotes object) vote <;> rfl

theorem objects_update (fromPeer : Bool) (hash : Uint256) :
    (book.update kind fromPeer view vote).2.objects.lookup hash = if hash = kind.objectHash vote then
        (book.objects.lookup hash).map fun object => (voted kind view vote object).getD object
      else book.objects.lookup hash := by
  unfold update
  by_cases same : hash = kind.objectHash vote
  · rw [if_pos same]
    subst same
    cases found : book.objects.lookup (kind.objectHash vote) with
    | none =>
      dsimp only
      split <;> exact found
    | some object =>
      dsimp only [map_some]
      unfold voted
      cases addOrUpdateVote kind.toVoteKind view.getTime (kind.mapVotes object) vote with
      | none => exact found
      | some votes => exact AList.lookup_insert _
  · rw [if_neg same]
    cases book.objects.lookup (kind.objectHash vote) with
    | none =>
      dsimp only
      split <;> rfl
    | some object =>
      dsimp only
      cases addOrUpdateVote kind.toVoteKind view.getTime (kind.mapVotes object) vote with
      | none => rfl
      | some votes => exact AList.lookup_insert_ne same

theorem orphanVotes_update (fromPeer : Bool) : (book.update kind fromPeer view vote).2.orphanVotes =
      if (book.objects.lookup (kind.objectHash vote)).isNone && fromPeer && view.isSynced then
        book.orphanVotes.insert (kind.objectHash vote) vote else book.orphanVotes := by
  unfold update
  cases book.objects.lookup (kind.objectHash vote) with
  | none =>
    rw [isNone_none, Bool.true_and]
    dsimp only
    split <;> rfl
  | some object =>
    dsimp only [isNone_some, Bool.false_and]
    split <;> rfl

theorem seenVotes_update : (book.update kind fromPeer view vote).2.seenVotes = book.seenVotes := by
  unfold update
  split <;> split <;> rfl

def OrphansKeyed (kind : ObjectKind O V) (book : VoteBook O V) : Prop :=
  ∀ hash vote, book.orphanVotes.lookup hash = some vote → kind.objectHash vote = hash

theorem OrphansKeyed.update (keyed : book.OrphansKeyed kind) (fromPeer : Bool) (view : BudgetView)
    (vote : V) :
    (book.update kind fromPeer view vote).2.OrphansKeyed kind := by
  unfold OrphansKeyed
  rw [orphanVotes_update]
  split
  · exact Table.forall_lookup_insert rfl keyed
  · exact keyed

theorem checkOrphanVote_spec (hash : Uint256) (keyed : kind.objectHash vote = hash)
    (other : Uint256) :
    (book.checkOrphanVote kind view ⟨hash, vote⟩).objects.lookup other =
        (if other = hash then (book.objects.lookup other).map fun object =>
          (voted kind view vote object).getD object
        else book.objects.lookup other) ∧
        (book.checkOrphanVote kind view ⟨hash, vote⟩).orphanVotes.lookup other = if other = hash ∧
        book.takes kind view vote = true then none else book.orphanVotes.lookup other := by
  have orphans : (book.update kind false view vote).2.orphanVotes = book.orphanVotes := by
    rw [orphanVotes_update, Bool.and_false, Bool.false_and]
    rfl
  have objects := @objects_update _ _ kind book view vote false other
  rw [keyed] at objects
  unfold checkOrphanVote
  dsimp only
  rw [update_fst]
  cases taken : book.takes kind view vote with
  | true =>
    rw [if_pos rfl]
    refine ⟨objects, ?_⟩
    rw [orphans, Table.lookup_erase_eq]
    simp
  | false =>
    rw [if_neg Bool.false_ne_true, orphans]
    refine ⟨objects, ?_⟩
    simp

theorem seenVotes_checkOrphanVotes :
    (book.checkOrphanVotes kind view).seenVotes = book.seenVotes := by
  unfold checkOrphanVotes
  induction book.orphanVotes.entries generalizing book with
  | nil => rfl
  | cons orphan orphans ih =>
    rw [foldl_cons, ih]
    unfold checkOrphanVote
    dsimp only
    split <;> exact seenVotes_update

theorem takes_of_lookup {after : VoteBook O V} (same : after.objects.lookup (kind.objectHash vote) =
    book.objects.lookup (kind.objectHash vote)) :
    after.takes kind view vote = book.takes kind view vote := by
  unfold takes
  rw [same]

private theorem foldl_checkOrphanVote (kind : ObjectKind O V) (view : BudgetView)
    (orphans : List (Sigma fun _ : Uint256 => V)) (distinct : orphans.NodupKeys)
    (keyed : ∀ orphan ∈ orphans, kind.objectHash orphan.2 = orphan.1) (book : VoteBook O V)
    (hash : Uint256) :
    (orphans.foldl (checkOrphanVote kind view) book).objects.lookup hash =
      (match orphans.dlookup hash with
        | none => book.objects.lookup hash
        | some vote => (book.objects.lookup hash).map fun object =>
          (voted kind view vote object).getD object) ∧
      (orphans.foldl (checkOrphanVote kind view) book).orphanVotes.lookup hash =
        match orphans.dlookup hash with
        | none => book.orphanVotes.lookup hash
        | some vote => if book.takes kind view vote then none else book.orphanVotes.lookup hash := by
  induction orphans generalizing book with
  | nil => exact ⟨rfl, rfl⟩
  | cons orphan orphans ih =>
    obtain ⟨head, vote⟩ := orphan
    obtain ⟨unused, rest⟩ := nodupKeys_cons.mp distinct
    have headKeyed : kind.objectHash vote = head := keyed ⟨head, vote⟩ mem_cons_self
    obtain ⟨objects, orphanVotes⟩ :=
      @checkOrphanVote_spec _ _ kind book view vote head headKeyed hash
    obtain ⟨restObjects, restOrphans⟩ := ih rest (forall_mem_cons.mp keyed).2
      (book.checkOrphanVote kind view ⟨head, vote⟩)
    rw [foldl_cons, restObjects, restOrphans]
    by_cases same : hash = head
    · have missing : orphans.dlookup hash = none := dlookup_eq_none.mpr (same ▸ unused)
      rw [if_pos same] at objects
      simp only [same, true_and] at orphanVotes
      subst same
      rw [missing, dlookup_cons_eq]
      exact ⟨objects, orphanVotes⟩
    · have later := dlookup_cons_ne orphans (⟨head, vote⟩ : Sigma fun _ : Uint256 => V) same
      rw [if_neg same] at objects
      rw [if_neg fun both => same both.1] at orphanVotes
      rw [later, objects, orphanVotes]
      refine ⟨rfl, ?_⟩
      cases found : orphans.dlookup hash with
      | none => rfl
      | some other =>
        have otherKeyed : kind.objectHash other = hash :=
          keyed ⟨hash, other⟩ (mem_cons_of_mem _ (of_mem_dlookup found))
        dsimp only
        rw [takes_of_lookup (otherKeyed.symm ▸ objects)]

theorem checkOrphanVotes_spec (keyed : book.OrphansKeyed kind) (hash : Uint256) :
    (book.checkOrphanVotes kind view).objects.lookup hash = (match book.orphanVotes.lookup hash with
        | none => book.objects.lookup hash
        | some vote => (book.objects.lookup hash).map fun object =>
          (voted kind view vote object).getD object) ∧
      (book.checkOrphanVotes kind view).orphanVotes.lookup hash =
        match book.orphanVotes.lookup hash with
        | none => none
        | some vote => if book.takes kind view vote then none else some vote := by
  have spec := foldl_checkOrphanVote kind view book.orphanVotes.entries book.orphanVotes.nodupKeys
    (fun orphan member => keyed orphan.1 orphan.2 (AList.mem_lookup_iff.mpr member)) book hash
  refine ⟨spec.1, ?_⟩
  rw [checkOrphanVotes, spec.2,
    show book.orphanVotes.entries.dlookup hash = book.orphanVotes.lookup hash from rfl]
  cases book.orphanVotes.lookup hash with
  | none => rfl
  | some vote => rfl

theorem OrphansKeyed.checkOrphanVotes (keyed : book.OrphansKeyed kind) :
    (book.checkOrphanVotes kind view).OrphansKeyed kind := by
  intro hash vote found
  rw [(checkOrphanVotes_spec keyed hash).2] at found
  cases orphan : book.orphanVotes.lookup hash with
  | none =>
    rw [orphan] at found
    cases found
  | some kept =>
    rw [orphan] at found
    dsimp only at found
    split at found
    · cases found
    · rw [Option.some.injEq] at found
      exact found ▸ keyed hash kept orphan

def Admitted (kind : ObjectKind O V) (mustBeEnabled : Bool) (view : BudgetView)
    (book : VoteBook O V) (vote : V) : Prop :=
  book.seenVotes.lookup (kind.getHash vote) = none ∧
    ∃ pmn, view.masternodes.find (kind.mnId vote) = some pmn ∧
      kind.checkSignature vote pmn.pubKeyMasternode = true ∧
      (mustBeEnabled = true → pmn.enabled = true)

theorem processVote_refused (refused : ¬ book.Admitted kind mustBeEnabled view vote) :
    (book.processVote kind mustBeEnabled view vote).added = false ∧
      ((book.processVote kind mustBeEnabled view vote).state = book ∨
        (book.processVote kind mustBeEnabled view vote).state = book.addSeenVote kind vote) := by
  unfold processVote
  cases seen : book.seenVotes.lookup (kind.getHash vote) with
  | some _ => exact ⟨rfl, .inl rfl⟩
  | none =>
    cases known : view.masternodes.find (kind.mnId vote) with
    | none => exact ⟨rfl, .inl rfl⟩
    | some pmn =>
      cases signed : kind.checkSignature vote pmn.pubKeyMasternode with
      | false =>
        dsimp only
        rw [signed]
        exact ⟨rfl, .inr rfl⟩
      | true =>
        have disabled : (mustBeEnabled && !pmn.enabled) = true := by
          by_contra enabled
          refine refused ⟨seen, pmn, known, signed, fun must => ?_⟩
          rw [must, Bool.true_and, Bool.not_eq_true', Bool.not_eq_false] at enabled
          exact enabled
        dsimp only
        rw [signed, disabled]
        exact ⟨rfl, .inr rfl⟩

theorem processVote_admitted (admitted : book.Admitted kind mustBeEnabled view vote) :
    (book.processVote kind mustBeEnabled view vote).added = book.takes kind view vote ∧
      (book.processVote kind mustBeEnabled view vote).state =
      ((book.addSeenVote kind vote).update kind true view vote).2 := by
  obtain ⟨seen, pmn, known, signed, enabled⟩ := admitted
  have allowed : (mustBeEnabled && !pmn.enabled) = false := by
    cases mustBeEnabled with
    | false => rfl
    | true => rw [enabled rfl]; rfl
  unfold processVote
  simp only [seen, known, signed, allowed, isSome_none, Bool.not_true, Bool.false_eq_true, if_false,
    update_fst, and_true]
  rfl

theorem processVote_induction {motive : VoteBook O V → Prop} (same : motive book)
    (seen : motive (book.addSeenVote kind vote))
    (updated : motive ((book.addSeenVote kind vote).update kind true view vote).2) :
    motive (book.processVote kind mustBeEnabled view vote).state := by
  by_cases admitted : book.Admitted kind mustBeEnabled view vote
  · rwa [(processVote_admitted admitted).2]
  · rcases (processVote_refused admitted).2 with refused | refused <;> rwa [refused]

theorem OrphansKeyed.processVote (keyed : book.OrphansKeyed kind) (mustBeEnabled : Bool)
    (view : BudgetView) (vote : V) :
    (book.processVote kind mustBeEnabled view vote).state.OrphansKeyed kind := by
  have seen : (book.addSeenVote kind vote).OrphansKeyed kind := keyed
  exact processVote_induction keyed seen (seen.update true view vote)

end VoteBook

section

variable {V : Type} (kind : VoteKind V)

def offer (mapVotes : Table COutPoint V) (offered : Int × V) : Table COutPoint V :=
  (addOrUpdateVote kind offered.1 mapVotes offered.2).getD mapVotes

/-- The votes on an object after votes were offered, each at the time that the clock showed. -/
def offerAll (offers : List (Int × V)) : Table COutPoint V := offers.foldl (offer kind) ∅

/-- A later vote of the same masternode: the vote itself, or one that could replace it. -/
def Succeeds (old new : V) :
    Prop := new = old ∨ kind.getTime old + budgetVoteUpdateMin ≤ kind.getTime new

variable {kind} {mapVotes after : Table COutPoint V} {offers : List (Int × V)}

theorem addOrUpdateVote_eq_some (added : addOrUpdateVote kind now mapVotes vote = some after) :
    after = mapVotes.insert (kind.mnId vote) vote ∧ kind.getTime vote ≤ now + 60 * 60 ∧
      ∀ old, mapVotes.lookup (kind.mnId vote) = some old → Succeeds kind old vote := by
  unfold addOrUpdateVote at added
  split at added
  case isTrue => cases added
  case isFalse old =>
    split at added
    case isTrue => cases added
    case isFalse early =>
      refine ⟨(some.inj added).symm, by omega, fun earlier found => .inr ?_⟩
      -- The difference is not negative, so that wrapping can only make it smaller.
      simp only [votedTooRecently, found, Bool.or_eq_true, decide_eq_true_eq, not_or] at old
      unfold budgetVoteUpdateMin at old ⊢
      by_contra tooSoon
      rw [wrap64_eq (by omega) (by omega)] at old
      omega

theorem offer_lookup (mapVotes : Table COutPoint V) :
    (offer kind mapVotes offered).lookup mnId = mapVotes.lookup mnId ∨
      mnId = kind.mnId offered.2 ∧ (offer kind mapVotes offered).lookup mnId = some offered.2 ∧
        kind.getTime offered.2 ≤ offered.1 + 60 * 60 ∧
        ∀ old, mapVotes.lookup mnId = some old → Succeeds kind old offered.2 := by
  unfold offer
  cases added : addOrUpdateVote kind offered.1 mapVotes offered.2 with
  | none => exact .inl rfl
  | some after =>
    obtain ⟨rfl, timely, succeeds⟩ := addOrUpdateVote_eq_some added
    by_cases same : mnId = kind.mnId offered.2
    · subst same
      exact .inr ⟨rfl, AList.lookup_insert _, timely, succeeds⟩
    · exact .inl (AList.lookup_insert_ne same)

theorem Succeeds.trans (first : Succeeds kind old middle) (second : Succeeds kind middle new) :
    Succeeds kind old new := by
  rcases first with rfl | first
  · exact second
  · rcases second with rfl | second
    · exact .inr first
    · unfold budgetVoteUpdateMin at first second
      exact .inr (by unfold budgetVoteUpdateMin; omega)

theorem succeeds_foldl (later : List (Int × V)) (found : mapVotes.lookup mnId = some old) :
    ∃ new, (later.foldl (offer kind) mapVotes).lookup mnId = some new ∧ Succeeds kind old new := by
  induction later generalizing mapVotes old with
  | nil => exact ⟨old, found, .inl rfl⟩
  | cons offered later ih =>
    rcases offer_lookup mapVotes with same | ⟨_, stored, _, succeeds⟩
    · exact ih (same.trans found)
    · obtain ⟨new, present, next⟩ := ih stored
      exact ⟨new, present, (succeeds old found).trans next⟩

theorem offerAll_concat :
    offerAll kind (passed ++ [offered]) = offer kind (offerAll kind passed) offered := by
  rw [offerAll, foldl_append, foldl_cons, foldl_nil]
  rfl

theorem mnId_of_offerAll (found : (offerAll kind offers).lookup mnId = some vote) :
    kind.mnId vote = mnId := by
  induction offers using List.reverseRecOn generalizing vote with
  | nil => cases found
  | append_singleton passed offered ih =>
    rw [offerAll_concat] at found
    rcases offer_lookup (offerAll kind passed) with same | ⟨own, stored, _, _⟩
    · exact ih (same.symm.trans found)
    · obtain rfl := some.inj (stored.symm.trans found)
      exact own.symm

/-- A masternode has one vote at every moment, under its outpoint.  What replaces it later is newer
by the least time between votes.  A vote that is stored is not from more than an hour ahead, and one
that is refused changes nothing. -/
theorem offered_votes_disciplined (kind : VoteKind V) (offers : List (Int × V)) :
    (∀ passed mnId vote, passed <+: offers → (offerAll kind passed).lookup mnId = some vote →
      kind.mnId vote = mnId ∧ ∀ later, passed <+: later → later <+: offers →
        ∃ new, (offerAll kind later).lookup mnId = some new ∧ Succeeds kind vote new) ∧
    ∀ passed now vote, passed ++ [(now, vote)] <+: offers →
      (addOrUpdateVote kind now (offerAll kind passed) vote = none →
        offerAll kind (passed ++ [(now, vote)]) = offerAll kind passed) ∧
      ∀ mnId new, (offerAll kind (passed ++ [(now, vote)])).lookup mnId = some new →
        (offerAll kind passed).lookup mnId = some new ∨ new = vote ∧
        kind.getTime new ≤ now + 60 * 60 := by
  refine ⟨fun passed mnId vote _ found => ⟨mnId_of_offerAll found, fun later within _ => ?_⟩,
    fun passed now vote _ => ?_⟩
  · obtain ⟨rest, rfl⟩ := within
    rw [offerAll, foldl_append]
    exact succeeds_foldl rest found
  · rw [offerAll_concat]
    refine ⟨fun refused => by rw [offer, refused]; rfl, fun mnId new found => ?_⟩
    rcases offer_lookup (offerAll kind passed) with same | ⟨_, stored, timely, _⟩
    · exact .inl (same.symm.trans found)
    · obtain rfl := some.inj (stored.symm.trans found)
      exact .inr ⟨rfl, timely⟩

end

end Deviant.Budget
