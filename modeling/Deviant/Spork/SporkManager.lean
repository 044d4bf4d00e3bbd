import Deviant.Masternode.Winners
import Mathlib

namespace Deviant.Spork

open Data List Masternode Primitives

/-! Spork messages, which change settings of the running network.  A node keeps the message with the
latest signature time for each setting. -/

structure CSporkMessage where
  nSporkID : Int
  nValue : Int
  nTimeSigned : Int
  vchSig : List UInt8
  nMessVersion : MessageVersion := .messVerHash
deriving DecidableEq

/-- The ids of `sporkDefs`. -/
def sporkIds : List Int := [10004, 10007, 10008, 10012, 10013, 10014, 10015, 10018, 10019, 10020]

/-- The parameters of the chain, the hash of a message, and whether its signature is of the key of
`GetPublicKey` or of the one of `GetPublicKeyOld`. -/
structure SporkRules where
  nTimeEnforceNewSporkKey : Int
  nTimeRejectOldSporkKey : Int
  getHash : CSporkMessage → Uint256
  signed : CSporkMessage → Bool
  signedOld : CSporkMessage → Bool

structure CSporkManager where
  mapSporks : Table Uint256 CSporkMessage := ∅
  mapSporksActive : Table Int CSporkMessage := ∅
  sporkDB : Table Int CSporkMessage := ∅

/-- A message, and the two readings of the clock that processing it takes. -/
structure Arrival where
  spork : CSporkMessage
  now : Int
  nowAtSignature : Int

section

variable (rules : SporkRules)

/-- `ProcessSporkMsg`: the ban score, and the manager afterwards. -/
def processSporkMsg (man : CSporkManager) (arrival : Arrival) : Int × CSporkManager :=
  let spork := arrival.spork
  if spork.nSporkID ∉ sporkIds then (0, man)
  -- signed way too far into the future
  else if spork.nTimeSigned > arrival.now + 2 * 60 * 60 then (100, man)
  else if spork.nMessVersion ≠ .messVerHash then (0, man)
  -- the spork in memory has been signed more recently
  else if (man.mapSporksActive.lookup spork.nSporkID).any fun active =>
    active.nTimeSigned ≥ spork.nTimeSigned then (0, man)
  else
    let fRequireNew := decide (spork.nTimeSigned ≥ rules.nTimeEnforceNewSporkKey)
    let windowOpen := decide (arrival.nowAtSignature < rules.nTimeRejectOldSporkKey)
    let fValidSig := rules.signed spork || (!fRequireNew && windowOpen && rules.signedOld spork)
    if !fValidSig then (100, man)
    else (0, {
      mapSporks := man.mapSporks.insert (rules.getHash spork) spork
      mapSporksActive := man.mapSporksActive.insert spork.nSporkID spork
      sporkDB := man.sporkDB.insert spork.nSporkID spork })

def receive (man : CSporkManager) (arrival : Arrival) :
    CSporkManager := (processSporkMsg rules man arrival).2

/-- A message with a signature of the current key passes the other checks, and no other message has
a signature of the old key. -/
def Sound (arrival : Arrival) : Prop :=
  if rules.signed arrival.spork then
    arrival.spork.nSporkID ∈ sporkIds ∧ arrival.spork.nTimeSigned ≤ arrival.now + 2 * 60 * 60 ∧
      arrival.spork.nMessVersion = .messVerHash
  else rules.signedOld arrival.spork = false

instance (arrival : Arrival) : Decidable (Sound rules arrival) := by
  unfold Sound
  infer_instance

def signedFor (id : Int) (arrivals : List Arrival) : List CSporkMessage :=
  (arrivals.map Arrival.spork).filter fun spork => rules.signed spork && spork.nSporkID == id

/-- The signed message with the latest time among those for a setting. -/
def Newest (arrivals : List Arrival) (id : Int) (spork : CSporkMessage) : Prop :=
  spork ∈ signedFor rules id arrivals ∧ ∀ other ∈ signedFor rules id arrivals,
    other.nTimeSigned ≤ spork.nTimeSigned

variable {rules} {man : CSporkManager} {arrival : Arrival} {arrivals : List Arrival}

/-- A message changes the setting it is for, if it is signed and later than the active one. -/
theorem lookup_receive (sound : Sound rules arrival) (id : Int) :
    (receive rules man arrival).mapSporksActive.lookup id =
      if (rules.signed arrival.spork && arrival.spork.nSporkID == id) = true then
        argAux (fun spork active => active.nTimeSigned < spork.nTimeSigned)
          (man.mapSporksActive.lookup id) arrival.spork
      else man.mapSporksActive.lookup id := by
  unfold Sound at sound
  unfold receive processSporkMsg
  cases signed : rules.signed arrival.spork with
  | false =>
    rw [signed, if_neg Bool.false_ne_true] at sound
    simp only [signed, sound, Bool.and_false, Bool.or_self, Bool.not_false, if_true, Bool.false_and,
      Bool.false_eq_true, if_false]
    split_ifs <;> rfl
  | true =>
    rw [signed, if_pos rfl] at sound
    obtain ⟨known, early, version⟩ := sound
    simp only [known, not_true_eq_false, if_false, version, ne_eq, if_neg (Int.not_lt.mpr early),
      signed]
    by_cases same : arrival.spork.nSporkID = id
    · subst same
      cases found : man.mapSporksActive.lookup arrival.spork.nSporkID with
      | none => simp [argAux]
      | some active =>
        by_cases newer : active.nTimeSigned < arrival.spork.nTimeSigned
        · simp [argAux, Int.not_le.mpr newer]
        · simp [argAux, Int.not_lt.mp newer, found]
    · simp only [Bool.true_or, Bool.not_true, Bool.false_eq_true, if_false, same,
        beq_false_of_ne, ne_eq, not_false_eq_true, Bool.and_false]
      split_ifs
      · rfl
      · exact AList.lookup_insert_ne (Ne.symm same)

theorem lookup_foldl (empty : man.mapSporksActive = ∅)
    (sound : ∀ arrival ∈ arrivals, Sound rules arrival) (id : Int) :
    (arrivals.foldl (receive rules) man).mapSporksActive.lookup id =
      argmax CSporkMessage.nTimeSigned (signedFor rules id arrivals) := by
  induction arrivals using List.reverseRecOn with
  | nil => simp [empty, signedFor]
  | append_singleton arrivals arrival ih =>
    simp only [forall_mem_append, forall_mem_singleton] at sound
    have split : signedFor rules id (arrivals ++ [arrival]) = signedFor rules id arrivals ++
        if (rules.signed arrival.spork && arrival.spork.nSporkID == id) = true then [arrival.spork]
        else [] := by
      simp [signedFor, filter_singleton]
    rw [foldl_concat, lookup_receive sound.2, ih sound.1, split]
    split_ifs
    · exact (foldl_concat ..).symm
    · rw [append_nil]

theorem receive_mono {id : Int} {active : CSporkMessage} (sound : Sound rules arrival)
    (found : man.mapSporksActive.lookup id = some active) :
    ∃ after, (receive rules man arrival).mapSporksActive.lookup id = some after ∧
      active.nTimeSigned ≤ after.nTimeSigned := by
  rw [lookup_receive sound, found]
  split
  · dsimp only [argAux]
    split
    next newer => exact ⟨_, rfl, Int.le_of_lt newer⟩
    · exact ⟨_, rfl, le_refl _⟩
  · exact ⟨_, rfl, le_refl _⟩

end

/-- In whatever order the messages arrive, the active message of a setting is in the end the signed
one with the latest time, and on the way its time never goes back. -/
theorem sporks_converge (rules : SporkRules) (start : CSporkManager)
    (empty : start.mapSporksActive = ∅) (arrivals : List Arrival)
    (sound : ∀ arrival ∈ arrivals, Sound rules arrival)
    (distinct : ∀ id, ∀ first ∈ signedFor rules id arrivals, ∀ second ∈ signedFor rules id arrivals,
      first.nTimeSigned = second.nTimeSigned → first = second) :
    (∀ id spork, (arrivals.foldl (receive rules) start).mapSporksActive.lookup id = some spork ↔
        Newest rules arrivals id spork) ∧ ∀ passed arrival, passed ++ [arrival] <+: arrivals →
      ∀ id active,
        (passed.foldl (receive rules) start).mapSporksActive.lookup id = some active →
        ∃ after, ((passed ++ [arrival]).foldl (receive rules) start).mapSporksActive.lookup id =
        some after ∧
          active.nTimeSigned ≤ after.nTimeSigned := by
  constructor
  · intro id spork
    rw [lookup_foldl empty sound, argmax_eq_some_iff, Newest]
    refine and_congr_right fun member => and_iff_left_of_imp fun latest other isOther later => ?_
    rw [distinct id spork member other isOther (Int.le_antisymm later (latest other isOther))]
  · intro passed arrival within id active found
    rw [foldl_concat]
    exact receive_mono (sound arrival (within.subset (by simp))) found

namespace SampleSporks

/-- Messages without a signature stand for those of the current key. -/
def rules : SporkRules := ⟨0, 0, fun _ => 0, fun spork => spork.vchSig == [], fun _ => false⟩

def arrival (nTimeSigned : Int) (vchSig : List UInt8) :
    Arrival := ⟨⟨10004, 7, nTimeSigned, vchSig, .messVerHash⟩, 100, 100⟩

/-- Two signed messages, the later one first, and a forged one that is later than both. -/
def arrivals : List Arrival := [arrival 20 [], arrival 30 [1], arrival 10 [], arrival 20 []]

theorem distinct (id : Int) :
    ∀ first ∈ signedFor rules id arrivals, ∀ second ∈ signedFor rules id arrivals,
      first.nTimeSigned = second.nTimeSigned → first = second := by
  have all : ∀ first ∈ arrivals, ∀ second ∈ arrivals, rules.signed first.spork = true →
      rules.signed second.spork = true → first.spork.nTimeSigned = second.spork.nTimeSigned →
      first.spork = second.spork := by decide
  simp only [signedFor, mem_filter, mem_map, Bool.and_eq_true, and_imp, forall_exists_index]
  rintro _ first member rfl signed - _ second alsoMember rfl alsoSigned -
  exact all first member second alsoMember signed alsoSigned

end SampleSporks

open SampleSporks in
theorem sporks_converge_latest : Newest rules arrivals 10004 (arrival 20 []).spork :=
  ((sporks_converge rules {} rfl arrivals (by decide) distinct).1 10004 (arrival 20 []).spork).mp rfl

end Deviant.Spork
