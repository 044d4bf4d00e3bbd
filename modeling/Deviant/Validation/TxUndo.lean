import Deviant.Validation.CoinEffects

namespace Deviant.Validation

open Coins Data List Option Primitives

/-! Disconnecting a transaction takes back what connecting it did. -/

theorem outputWrite_key (member : write ∈ outputWrite env tx nHeight fSkipInvalid i out) :
    write.1 = ⟨tx.hash, i⟩ := by
  by_contra elsewhere
  exact outputWrite_elsewhere elsewhere (mem_map_of_mem member)

theorem mem_outputWrites : write ∈ outputWrites env tx nHeight fSkipInvalid i outs ↔
      ∃ out n, (out, n) ∈ outs.zipIdx i ∧ write ∈ outputWrite env tx nHeight fSkipInvalid n out := by
  simp [outputWrites]

variable {hash : Uint256} {o : Nat} {outs : List CTxOut}

theorem mem_spentOutputWrites {write : CoinWrite} : write ∈ spentOutputWrites hash o outs ↔
      ∃ out n, (out, n) ∈ outs.zipIdx o ∧ isIgnoredOutput out = false ∧
        (⟨hash, n⟩, none) = write := by
  simp [spentOutputWrites]

theorem outputWrites_hash
    (member : key ∈ (outputWrites env tx nHeight fSkipInvalid i outs).map Prod.fst) :
    key.hash = tx.hash := by
  obtain ⟨write, inWrites, rfl⟩ := mem_map.mp member
  obtain ⟨out, n, -, written⟩ := mem_outputWrites.mp inWrites
  rw [outputWrite_key written]

theorem spentOutputWrites_hash {key : COutPoint}
    (member : key ∈ (spentOutputWrites hash o outs).map Prod.fst) : key.hash = hash := by
  obtain ⟨write, inWrites, rfl⟩ := mem_map.mp member
  obtain ⟨out, n, -, -, rfl⟩ := mem_spentOutputWrites.mp inWrites
  rfl

theorem spentOutputWrites_none {write : CoinWrite}
    (member : write ∈ spentOutputWrites hash o outs) : write.2 = none := by
  obtain ⟨out, n, -, -, rfl⟩ := mem_spentOutputWrites.mp member
  rfl

theorem outputWrites_spent (member : (key, some coin) ∈ outputWrites env tx nHeight fSkipInvalid i outs) :
    (key, none) ∈ spentOutputWrites tx.hash i outs := by
  obtain ⟨out, n, found, written⟩ := mem_outputWrites.mp member
  have same : key = ⟨tx.hash, n⟩ := outputWrite_key written
  refine mem_spentOutputWrites.mpr ⟨out, n, found, ?_, by rw [same]⟩
  unfold outputWrite at written
  split at written
  · simp at written
  · split at written
    · simp at written
    next kept => exact Bool.eq_false_iff.mpr kept

/-- What connecting a transaction needs of the plain chain state. -/
structure Applies (plain : PlainView) (tx : CTransaction) : Prop where
  absent : ∀ n, plain.coins ⟨tx.hash, n⟩ = none
  present : hasNoCoinInputs tx = false → ∀ input ∈ tx.vin, (plain.coins input.prevout).isSome = true
  distinct : hasNoCoinInputs tx = false → (tx.vin.map CTxIn.prevout).Nodup
  fresh : ∀ spend ∈ tx.shieldedSpends, plain.nullifiers spend.nullifier = false
  unshielded : hasNoCoinInputs tx = true → tx.shieldedSpends = []

theorem zip_undoRecord (kind : hasNoCoinInputs tx = false) :
      tx.vin.zip (undoRecord tx plain).vprevout = tx.vin.map fun input =>
        (input, (plain.coins input.prevout).getD Coin.empty) := by
  rw [undoRecord, kind]
  simpa [coinsSpent] using
    @zip_map' _ _ _ id (fun input : CTxIn => (plain.coins input.prevout).getD Coin.empty) tx.vin

theorem markNullifiers_back
    (fresh : ∀ spend ∈ tx.shieldedSpends, nullifiers spend.nullifier = false) :
    PlainView.markNullifiers (PlainView.markNullifiers nullifiers tx true) tx false =
      nullifiers := by
  funext nullifier
  unfold PlainView.markNullifiers
  split
  next member =>
    obtain ⟨spend, inTx, rfl⟩ := mem_map.mp member
    exact (fresh spend inTx).symm
  · rfl

/-- Coins that `AddCoin` would store. -/
def Storable (plain : PlainView) :
    Prop := ∀ outpoint coin, plain.coins outpoint = some coin → coin.isIgnored = false

section

variable (applies : Applies plain tx)

include applies

theorem Applies.inputElsewhere (kind : hasNoCoinInputs tx = false)
    (member : input ∈ tx.vin) : input.prevout.hash ≠ tx.hash := by
  intro own
  have present := applies.present kind input member
  have absent := applies.absent input.prevout.n
  rw [← own] at absent
  rw [absent] at present
  cases present

theorem connected_spent (kind : hasNoCoinInputs tx = false) (member : input ∈ tx.vin) :
    (connected env nHeight tx plain).coins input.prevout = none := by
  have elsewhere := applies.inputElsewhere kind member
  have spent : applyWrites plain.coins (txInputWrites tx) input.prevout = none := by
    refine applyWrites_written ?_ fun other written => txInputWrites_none written
    rw [txInputWrites, kind]
    exact mem_map_of_mem member
  calc applyWrites plain.coins (connectWrites env nHeight tx) input.prevout
      = applyWrites plain.coins (txInputWrites tx) input.prevout := by
        rw [connectWrites, applyWrites_append]
        exact applyWrites_untouched fun written => elsewhere (outputWrites_hash written)
    _ = none := spent

theorem connected_justConnected
    (allowed : ∀ n, n < tx.vout.length → ⟨tx.hash, n⟩ ∉ env.invalidOutPoints) :
    JustConnected (connected env nHeight tx plain).coins tx := by
  refine ⟨fun out n found spendable => ?_, fun kind input member => ?_, applies.distinct⟩
  · have inRange : n < tx.vout.length := by
      have bound := snd_lt_of_mem_zipIdx found
      omega
    have only : ∀ out', (out', n) ∈ tx.vout.zipIdx → out' = out := by
      intro out' found'
      have first := mem_zipIdx_iff_getElem?.mp found
      have second := mem_zipIdx_iff_getElem?.mp found'
      rw [first] at second
      exact (some.inj second).symm
    have unbanned : decide ((⟨tx.hash, n⟩ : COutPoint) ∈ env.invalidOutPoints) = false :=
      decide_eq_false (allowed n inRange)
    have kept : (outputCoin tx nHeight out).isIgnored = false := spendable
    have writes : outputWrite env tx nHeight (skipInvalidUTXOS env.params nHeight) n out =
        [(⟨tx.hash, n⟩, some (outputCoin tx nHeight out))] := by
      simp [outputWrite, unbanned, kept]
    have added :
        (connected env nHeight tx plain).coins ⟨tx.hash, n⟩ = some (outputCoin tx nHeight out) := by
      refine (congrFun (applyWrites_append _ _ _) _).trans (applyWrites_written ?_
        fun other member => ?_)
      · exact mem_outputWrites.mpr ⟨out, n, found, by rw [writes]; exact mem_singleton_self _⟩
      · obtain ⟨out', n', found', written⟩ := mem_outputWrites.mp member
        have sameIndex : n = n' := congrArg COutPoint.n (outputWrite_key written)
        subst sameIndex
        rw [only out' found', writes, mem_singleton] at written
        exact congrArg Prod.snd written
    rw [added]
    rfl
  · have elsewhere := applies.inputElsewhere kind member
    rw [applyWrites_untouched fun written => elsewhere (spentOutputWrites_hash written)]
    exact connected_spent applies kind member

theorem mem_undone (kind : hasNoCoinInputs tx = false)
    (member : entry ∈ tx.vin.zip (undoRecord tx plain).vprevout) :
    entry.1 ∈ tx.vin ∧ plain.coins (restoredAt entry) = some entry.2 := by
  rw [zip_undoRecord kind] at member
  obtain ⟨input, inVin, rfl⟩ := mem_map.mp member
  obtain ⟨coin, found⟩ := isSome_iff_exists.mp (applies.present kind input inVin)
  refine ⟨inVin, ?_⟩
  change plain.coins input.prevout = some ((plain.coins input.prevout).getD Coin.empty)
  rw [found]
  rfl

theorem restored_input (storable : Storable plain) (kind : hasNoCoinInputs tx = false)
    (member : input ∈ tx.vin) :
    applyWrites coins (restoreWrites (tx.vin.zip (undoRecord tx plain).vprevout).reverse)
      input.prevout =
      plain.coins input.prevout := by
  obtain ⟨coin, found⟩ := isSome_iff_exists.mp (applies.present kind input member)
  rw [found]
  refine applyWrites_written (mem_restoreWrites.mpr ⟨(input, coin), ?_, storable _ _ found, rfl⟩) ?_
  · rw [mem_reverse, zip_undoRecord kind]
    exact mem_map.mpr ⟨input, member, by rw [found]; rfl⟩
  · intro other written
    obtain ⟨entry, inUndone, -, same⟩ := mem_restoreWrites.mp written
    obtain ⟨-, spent⟩ := mem_undone applies kind (mem_reverse.mp inUndone)
    injection same with sameKey sameValue
    rw [sameKey, found] at spent
    rw [← sameValue]
    exact spent.symm

theorem spent_outputs {key : COutPoint} (noInput : key ∉ (txInputWrites tx).map Prod.fst) :
    applyWrites (applyWrites plain.coins (connectWrites env nHeight tx))
      (spentOutputWrites tx.hash 0 tx.vout) key = plain.coins key := by
  have inputsUntouched : applyWrites plain.coins (txInputWrites tx) key = plain.coins key :=
    applyWrites_untouched noInput
  rw [connectWrites, applyWrites_append]
  by_cases own : key.hash = tx.hash
  · have absent : plain.coins key = none := by
      have none := applies.absent key.n
      rwa [← own] at none
    rw [absent]
    by_cases touched : key ∈ (spentOutputWrites tx.hash 0 tx.vout).map Prod.fst
    · obtain ⟨⟨_, value⟩, member, rfl⟩ := mem_map.mp touched
      obtain rfl : value = none := spentOutputWrites_none member
      exact applyWrites_written member fun other written => spentOutputWrites_none written
    · rw [applyWrites_untouched touched]
      refine applyWrites_induction (· = none) (inputsUntouched.trans absent) fun value written => ?_
      -- A coin written here would have been spent again.
      cases value with
      | none => rfl
      | some coin => exact absurd (mem_map_of_mem (outputWrites_spent written)) touched
  · rw [applyWrites_untouched fun touched => own (spentOutputWrites_hash touched),
      applyWrites_untouched fun touched => own (outputWrites_hash touched), inputsUntouched]

theorem disconnected_connected_coins (storable : Storable plain) :
    (disconnected tx (undoRecord tx plain) (connected env nHeight tx plain)).coins = plain.coins := by
  funext key
  change applyWrites (applyWrites plain.coins (connectWrites env nHeight tx))
    (disconnectWrites tx (undoRecord tx plain)) key = plain.coins key
  rw [disconnectWrites, applyWrites_append]
  cases kind : hasNoCoinInputs tx with
  | true =>
    have noInput : key ∉ (txInputWrites tx).map Prod.fst := by simp [txInputWrites, kind]
    exact spent_outputs applies noInput
  | false =>
    simp only [Bool.false_eq_true, if_false]
    by_cases isInput : key ∈ tx.vin.map CTxIn.prevout
    · obtain ⟨input, member, rfl⟩ := mem_map.mp isInput
      exact restored_input applies storable kind member
    · have unrestored :
          key ∉ (restoreWrites (tx.vin.zip (undoRecord tx plain).vprevout).reverse).map
          Prod.fst := by
        intro written
        obtain ⟨entry, inUndone, same⟩ := mem_map.mp (restoreWrites_keys written)
        have inVin := (mem_undone applies kind (mem_reverse.mp inUndone)).1
        exact isInput (same ▸ mem_map_of_mem inVin)
      have noInput : key ∉ (txInputWrites tx).map Prod.fst := by
        rw [txInputWrites, kind]
        simpa [inputWrites] using isInput
      rw [applyWrites_untouched unrestored]
      exact spent_outputs applies noInput

theorem disconnected_connected (storable : Storable plain) :
    disconnected tx (undoRecord tx plain) (connected env nHeight tx plain) = plain := by
  refine PlainView.ext (disconnected_connected_coins applies storable) ?_ rfl rfl rfl
  change (if hasNoCoinInputs tx then PlainView.markNullifiers plain.nullifiers tx true
    else PlainView.markNullifiers (PlainView.markNullifiers plain.nullifiers tx true) tx false) =
    plain.nullifiers
  split
  next kind =>
    funext nullifier
    simp [PlainView.markNullifiers, applies.unshielded kind]
  · exact markNullifiers_back applies.fresh

theorem mem_undoRecord (member : undo ∈ (undoRecord tx plain).vprevout) :
    ∃ input ∈ tx.vin, plain.coins input.prevout = some undo := by
  cases kind : hasNoCoinInputs tx with
  | true => simp [undoRecord, kind] at member
  | false =>
    simp only [undoRecord, kind, Bool.false_eq_true, if_false, coinsSpent] at member
    obtain ⟨input, inVin, rfl⟩ := mem_map.mp member
    obtain ⟨coin, found⟩ := isSome_iff_exists.mp (applies.present kind input inVin)
    exact ⟨input, inVin, by rw [found, getD_some]⟩

end

structure Restorable (plain : PlainView) : Prop where
  storable : Storable plain
  unspent : ∀ outpoint coin, plain.coins outpoint = some coin → coin.isSpent = false

def Dated (plain : PlainView) (tx : CTransaction) : Prop :=
  ∀ input ∈ tx.vin, ∀ coin, plain.coins input.prevout = some coin → coin.nHeight ≠ 0

theorem connected_coin (found : (connected env nHeight tx plain).coins key = some coin) :
    plain.coins key = some coin ∨ ∃ out, (out, key.n) ∈ tx.vout.zipIdx ∧ key.hash = tx.hash ∧
      isIgnoredOutput out = false ∧ coin = outputCoin tx nHeight out := by
  refine (applyWrites_induction (fun value => value = some coin → plain.coins key = some coin ∨
    (key, some coin) ∈ connectWrites env nHeight tx) .inl (fun value written same =>
    .inr (same ▸ written))
    found).imp_right fun written => ?_
  rcases mem_append.mp written with input | output
  · cases txInputWrites_none input
  · obtain ⟨out, n, indexed, here⟩ := mem_outputWrites.mp output
    have isKey : key = ⟨tx.hash, n⟩ := outputWrite_key here
    subst isKey
    refine ⟨out, indexed, rfl, ?_⟩
    unfold outputWrite at here
    split at here
    · simp at here
    · split at here
      · simp at here
      next kept =>
        rw [mem_singleton] at here
        exact ⟨Bool.eq_false_iff.mpr kept, some.inj (congrArg Prod.snd here)⟩

theorem Restorable.connected (restorable : Restorable plain)
    (valid : ∀ out ∈ tx.vout, out.isNull = false) :
    Restorable (connected env nHeight tx plain) := by
  refine ⟨fun key coin found => ?_, fun key coin found => ?_⟩
  · rcases connected_coin found with before | ⟨out, -, -, kept, rfl⟩
    · exact restorable.storable key coin before
    · exact kept
  · rcases connected_coin found with before | ⟨out, member, -, -, rfl⟩
    · exact restorable.unspent key coin before
    · exact valid out (fst_mem_of_mem_zipIdx member)

theorem Dated.connected (dated : Dated plain other) (notGenesis : nHeight ≠ 0) :
    Dated (connected env nHeight tx plain) other := by
  intro input member coin found
  rcases connected_coin found with before | ⟨out, -, -, -, rfl⟩
  · exact dated input member coin before
  · exact notGenesis

theorem undoRecord_usable (applies : Applies plain tx) (restorable : Restorable plain)
    (dated : Dated plain tx) :
    Usable (undoRecord tx plain).vprevout := by
  intro undo member
  obtain ⟨input, inVin, found⟩ := mem_undoRecord applies member
  exact ⟨restorable.unspent _ undo found, dated input inVin undo found⟩

end Deviant.Validation
