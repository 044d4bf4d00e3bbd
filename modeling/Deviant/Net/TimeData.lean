import Mathlib.Algebra.Order.Group.Abs
import Mathlib.Algebra.Order.Group.Int
import Mathlib.Data.List.GetD
import Mathlib.Data.List.Sort
import Deviant.Primitives.Transaction

namespace Deviant.Net

open List Primitives

/-! The offset of the network time, kept from the times that peers send in their version
messages.  Regtest's exception to the test for a known address is left out. -/

def abs64 (n : Int) : Int := if n ≥ 0 then n else wrap64 (-n)

def timeSlotLength : Int := 15

structure VersionMessage (κ : Type) where
  addr : κ
  nTime : Int
  /-- The local time at which it is processed. -/
  now : Int

def VersionMessage.offset (message : VersionMessage κ) : Int :=
  wrap64 (message.nTime - message.now)

/-- `CMedianFilter` of two hundred values, and what `AddTimeData` keeps beside it. -/
structure TimeData (κ : Type) where
  setKnown : List κ := []
  vValues : List Int := [0]
  nTimeOffset : Int := 0

namespace TimeData

variable [DecidableEq κ] (data : TimeData κ)

def input (value : Int) : List Int :=
  (if data.vValues.length = 200 then data.vValues.tail else data.vValues) ++ [value]

def median (vValues : List Int) : Int :=
  let vSorted := vValues.insertionSort (· ≤ ·)
  let size := vSorted.length
  if size % 2 = 1 then vSorted.getD (size / 2) 0
  else (wrap64 (vSorted.getD (size / 2 - 1) 0 + vSorted.getD (size / 2) 0)).tdiv 2

def clamped (nMedian nOffsetLimit : Int) : Int :=
  if abs64 nMedian < nOffsetLimit then nMedian
  else (if nMedian > 0 then 1 else -1) * nOffsetLimit

def addTimeData (ip : κ) (nOffsetSample nOffsetLimit : Int) : TimeData κ :=
  if data.setKnown.length = 200 then data
  else if ip ∈ data.setKnown then data
  else
    let vValues := data.input nOffsetSample
    { setKnown := data.setKnown ++ [ip]
      vValues := vValues
      nTimeOffset :=
        if 5 ≤ vValues.length ∧ vValues.length % 2 = 1 then clamped (median vValues) nOffsetLimit
        else data.nTimeOffset }

/-- What `ProcessMessage` does with the time of a version message.  A peer that is too far off is
disconnected. -/
def receive (message : VersionMessage κ) : TimeData κ :=
  if abs64 message.offset < 2 * timeSlotLength then
    data.addTimeData message.addr message.offset timeSlotLength
  else data

/-! What the filter is for: the offsets that are close enough, one for each address. -/

def accepted (samples : List (κ × Int)) (message : VersionMessage κ) : List (κ × Int) :=
  if |message.offset| < 2 * timeSlotLength ∧ samples.length < 200 ∧
      message.addr ∉ samples.map Prod.fst then
    samples ++ [(message.addr, message.offset)]
  else samples

def IsMedian (middle : Int) (values : List Int) : Prop :=
  middle ∈ values ∧ values.countP (· < middle) ≤ values.length / 2 ∧
    values.countP (middle < ·) ≤ values.length / 2

theorem countP_sorted {values : List Int} (sorted : values.Pairwise (· ≤ ·))
    (inside : k < values.length) :
    values.countP (· < values[k]) ≤ k ∧
      values.countP (values[k] < ·) ≤ values.length - 1 - k := by
  induction values generalizing k with
  | nil => simp at inside
  | cons first rest ih =>
    obtain ⟨least, sorted⟩ := pairwise_cons.mp sorted
    cases k with
    | zero =>
      have none : rest.countP (· < first) = 0 :=
        countP_eq_zero.mpr fun value member => by simpa using least value member
      simpa [none] using countP_le_length
    | succ k =>
      have inside : k < rest.length := by simpa using inside
      have below := least _ (getElem_mem inside)
      obtain ⟨less, greater⟩ := ih sorted inside
      simp only [getElem_cons_succ, countP_cons, length_cons, decide_eq_true_eq,
        not_lt.mpr below, if_false]
      split <;> omega

theorem isMedian_median {values : List Int} (odd : values.length % 2 = 1) :
    IsMedian (median values) values := by
  have sorted := values.pairwise_insertionSort (· ≤ ·)
  have same := values.perm_insertionSort (· ≤ ·)
  have inside : values.length / 2 < (values.insertionSort (· ≤ ·)).length := by
    rw [same.length_eq]
    omega
  obtain ⟨less, greater⟩ := countP_sorted sorted inside
  rw [median, same.length_eq, if_pos odd, getD_eq_getElem _ _ inside]
  rw [same.countP_eq] at less greater
  rw [same.length_eq] at greater
  exact ⟨same.mem_iff.mp (getElem_mem inside), less, by omega⟩

/-- Where the smallest number is excluded, `abs64` is the absolute value. -/
theorem abs64_eq (low : -2 ^ 63 < n) (high : n < 2 ^ 63) : abs64 n = |n| := by
  unfold abs64
  split
  next positive => exact (abs_of_nonneg positive).symm
  next negative => rw [wrap64_eq (by omega) (by omega), abs_of_neg (by omega)]

theorem clamped_eq (small : |n| < 2 ^ 63) :
    clamped n timeSlotLength = max (-timeSlotLength) (min timeSlotLength n) := by
  obtain ⟨low, high⟩ := abs_lt.mp small
  rw [clamped, abs64_eq low high]
  unfold timeSlotLength
  split
  next close =>
    obtain ⟨low, high⟩ := abs_lt.mp close
    omega
  next far =>
    rw [abs_lt] at far
    split <;> omega

/-- An offset that changes is the median of nought and the samples, within the limit. -/
def Follows (samples : List (κ × Int)) (old new : Int) : Prop :=
  new ≠ old → ∃ middle, IsMedian middle (0 :: samples.map Prod.snd) ∧
    new = max (-timeSlotLength) (min timeSlotLength middle)

omit [DecidableEq κ] in
theorem Follows.bound {samples : List (κ × Int)} (follows : Follows samples old new)
    (bound : |old| ≤ timeSlotLength) : |new| ≤ timeSlotLength := by
  by_cases same : new = old
  · rwa [same]
  · obtain ⟨middle, -, same⟩ := follows same
    rw [same, abs_le]
    unfold timeSlotLength
    omega

/-- The filter holds nought and the samples until it is full.  From then on its size is even, and
the offset no longer moves. -/
structure Holds (data : TimeData κ) (samples : List (κ × Int)) : Prop where
  known : data.setKnown = samples.map Prod.fst
  distinct : (samples.map Prod.fst).Nodup
  count : samples.length ≤ 200
  values : samples.length < 200 → data.vValues = 0 :: samples.map Prod.snd
  close : ∀ sample ∈ samples, |sample.2| < 2 * timeSlotLength
  bound : |data.nTimeOffset| ≤ timeSlotLength

variable {data : TimeData κ} (holds : data.Holds samples)
include holds

omit [DecidableEq κ] in
theorem Holds.input_eq (room : samples.length < 200)
    (short : samples.length + 1 < 200 ∨ (data.input value).length % 2 = 1) :
    data.input value = 0 :: (samples ++ [(ip, value)]).map Prod.snd := by
  unfold input at short ⊢
  rw [holds.values room] at short ⊢
  split at short
  next full =>
    simp only [length_cons, length_map, tail_cons, length_append, length_nil] at full short
    omega
  next free =>
    rw [if_neg free]
    simp

omit [DecidableEq κ] in
theorem Holds.follows (room : samples.length < 200)
    (all : ∀ sample ∈ samples ++ [(ip, value)], |sample.2| < 2 * timeSlotLength) :
    Follows (samples ++ [(ip, value)]) data.nTimeOffset
      (if 5 ≤ (data.input value).length ∧ (data.input value).length % 2 = 1 then
        clamped (median (data.input value)) timeSlotLength else data.nTimeOffset) := by
  intro changed
  split at changed
  next odd =>
    rw [if_pos odd]
    have same : data.input value = 0 :: (samples ++ [(ip, value)]).map Prod.snd :=
      holds.input_eq room (.inr odd.2)
    have median := isMedian_median odd.2
    generalize data.input value = values at *
    subst same
    refine ⟨_, median, clamped_eq ?_⟩
    -- The median is one of the values, and all of them are close.
    obtain zero | ⟨sample, member, same⟩ := (mem_cons.mp median.1).imp_right mem_map.mp
    · rw [zero]
      decide
    · rw [← same]
      exact (all sample member).trans (by decide)
  next => exact absurd rfl changed

theorem Holds.taken (close : |value| < 2 * timeSlotLength) (room : samples.length < 200)
    (new : ip ∉ samples.map Prod.fst) :
    (data.addTimeData ip value timeSlotLength).Holds (samples ++ [(ip, value)]) ∧
      Follows (samples ++ [(ip, value)]) data.nTimeOffset
        (data.addTimeData ip value timeSlotLength).nTimeOffset := by
  have notFull : data.setKnown.length ≠ 200 := by
    rw [holds.known, length_map]
    omega
  have all : ∀ sample ∈ samples ++ [(ip, value)], |sample.2| < 2 * timeSlotLength :=
    forall_mem_append.mpr ⟨holds.close, forall_mem_singleton.mpr close⟩
  rw [addTimeData, if_neg notFull, if_neg (holds.known ▸ new)]
  have follows := holds.follows room all
  refine ⟨{
    known := by simp [holds.known]
    distinct := by
      rw [map_append]
      exact holds.distinct.append (nodup_singleton _) (by simpa using new)
    count := by
      rw [length_append]
      exact room
    values := fun more => holds.input_eq room (.inl (by simpa using more))
    close := all
    bound := follows.bound holds.bound }, follows⟩

theorem Holds.receive (message : VersionMessage κ) (ordinary : message.offset ≠ -2 ^ 63) :
    (data.receive message).Holds (accepted samples message) ∧
      Follows (accepted samples message) data.nTimeOffset
        (data.receive message).nTimeOffset := by
  obtain ⟨low, high⟩ : -2 ^ 63 ≤ message.offset ∧ message.offset < 2 ^ 63 := wrap64_bounds _
  unfold TimeData.receive accepted
  rw [abs64_eq (lt_of_le_of_ne low ordinary.symm) high]
  by_cases taken : |message.offset| < 2 * timeSlotLength ∧ samples.length < 200 ∧
      message.addr ∉ samples.map Prod.fst
  · rw [if_pos taken, if_pos taken.1]
    exact holds.taken taken.1 taken.2.1 taken.2.2
  · have kept : (if |message.offset| < 2 * timeSlotLength then
        data.addTimeData message.addr message.offset timeSlotLength else data) = data := by
      unfold addTimeData
      rw [holds.known, length_map]
      have count := holds.count
      split
      next close =>
        split
        next => rfl
        next free => exact if_pos (by_contra fun new => taken ⟨close, by omega, new⟩)
      next => rfl
    rw [if_neg taken, kept]
    exact ⟨holds, fun changed => absurd rfl changed⟩

theorem Holds.run (messages : List (VersionMessage κ))
    (ordinary : ∀ message ∈ messages, message.offset ≠ -2 ^ 63) :
    (messages.foldl TimeData.receive data).Holds (messages.foldl accepted samples) := by
  induction messages generalizing data samples with
  | nil => exact holds
  | cons message messages ih =>
    obtain ⟨first, others⟩ := forall_mem_cons.mp ordinary
    exact ih (holds.receive message first).1 others

omit holds

/-- While no offset is the smallest number of all, the offset of the network time stays within the
limit, and the last message changes it only to the median, within the limit, of nought and the
offsets accepted so far. -/
theorem timeOffset_bounded (messages : List (VersionMessage κ))
    (ordinary : ∀ message ∈ messages, message.offset ≠ -2 ^ 63) :
    |(messages.foldl receive ({} : TimeData κ)).nTimeOffset| ≤ timeSlotLength ∧
      ((messages.foldl accepted []).map Prod.fst).Nodup ∧
      ∀ earlier last, messages = earlier ++ [last] → Follows (messages.foldl accepted [])
        (earlier.foldl receive ({} : TimeData κ)).nTimeOffset
        (messages.foldl receive ({} : TimeData κ)).nTimeOffset := by
  have new : ({} : TimeData κ).Holds [] :=
    ⟨rfl, nodup_nil, by simp, fun _ => rfl, by simp, by simp [timeSlotLength]⟩
  have holds := new.run messages ordinary
  refine ⟨holds.bound, holds.distinct, fun earlier last split => ?_⟩
  subst split
  obtain ⟨before, here⟩ := forall_mem_append.mp ordinary
  rw [foldl_append, foldl_append]
  exact ((new.run earlier before).receive last (here last (mem_singleton_self last))).2

/-- Four peers whose clocks are behind by the same number of seconds. -/
def behind (seconds : Int) : List (VersionMessage Nat) :=
  [1, 2, 3, 4].map fun addr => ⟨addr, 1600000000 - seconds, 1600000000⟩

theorem timeOffset_bounded_early :
    |((behind 20).foldl receive {}).nTimeOffset| ≤ timeSlotLength ∧
      ((behind 20).foldl receive {}).nTimeOffset = -15 :=
  ⟨(timeOffset_bounded (behind 20) (by decide)).1, by decide⟩

/-- The opposite of the smallest number is that number again, which is below every limit. -/
theorem timeOffset_unbounded :
    ((behind (2 ^ 63)).foldl receive {}).nTimeOffset = -2 ^ 63 ∧
      ¬ |((behind (2 ^ 63)).foldl receive {}).nTimeOffset| ≤ timeSlotLength := by
  decide

end TimeData

end Deviant.Net
