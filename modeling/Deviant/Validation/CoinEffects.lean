import Deviant.Data.ProgramLogic
import Deviant.Validation.DisconnectBlock

namespace Deviant.Coins.PlainView

open Data Primitives

def writeCoins (plain : PlainView) (writes : List (COutPoint × Option Coin)) : PlainView :=
  { plain with coins := applyWrites plain.coins writes }

@[simp] theorem writeCoins_nil (plain : PlainView) : plain.writeCoins [] = plain := rfl

theorem writeCoins_append (plain : PlainView) :
    plain.writeCoins (first ++ second) = (plain.writeCoins first).writeCoins second := by
  unfold writeCoins
  rw [applyWrites_append]

end Deviant.Coins.PlainView

namespace Deviant.Validation

open Coins Consensus Data List Primitives Program PlainView

/-! What connecting and disconnecting a transaction does to the plain chain
state.  On the coins both are lists of keyed writes that do not depend on the
coins they are applied to. -/

abbrev CoinWrite := COutPoint × Option Coin

def inputWrites (inputs : List CTxIn) :
    List CoinWrite := inputs.map fun input => (input.prevout, none)

def outputWrite (env : Env) (tx : CTransaction) (nHeight : Nat) (fSkipInvalid : Bool) (i : Nat)
    (out : CTxOut) :
    List CoinWrite :=
  if fSkipInvalid && decide (⟨tx.hash, i⟩ ∈ env.invalidOutPoints) then [(⟨tx.hash, i⟩, none)]
  else if (outputCoin tx nHeight out).isIgnored then []
  else [(⟨tx.hash, i⟩, some (outputCoin tx nHeight out))]

def outputWrites (env : Env) (tx : CTransaction) (nHeight : Nat) (fSkipInvalid : Bool) (i : Nat)
    (outs : List CTxOut) : List CoinWrite :=
  (outs.zipIdx i).flatMap fun (out, n) => outputWrite env tx nHeight fSkipInvalid n out

def txInputWrites (tx : CTransaction) : List CoinWrite :=
  if hasNoCoinInputs tx then [] else inputWrites tx.vin

def connectWrites (env : Env) (nHeight : Nat) (tx : CTransaction) : List CoinWrite :=
  txInputWrites tx ++ outputWrites env tx nHeight (skipInvalidUTXOS env.params nHeight) 0 tx.vout

theorem txInputWrites_none (member : write ∈ txInputWrites tx) : write.2 = none := by
  unfold txInputWrites at member
  split at member
  · cases member
  · obtain ⟨input, -, rfl⟩ := mem_map.mp member
    rfl

/-- An output `AddCoin` keeps no coin for. -/
def isIgnoredOutput (out : CTxOut) :
    Bool := CScript.isUnspendable out.scriptPubKey || out.isZerocoinMint

def spentOutputWrites (hash : Uint256) (o : Nat) (outs : List CTxOut) : List CoinWrite :=
  (outs.zipIdx o).filterMap fun (out, n) => if isIgnoredOutput out then none
    else some (⟨hash, n⟩, none)

def restoredAt (entry : CTxIn × Coin) : COutPoint := entry.1.prevout

def restoreWrites (undone : List (CTxIn × Coin)) : List CoinWrite :=
  undone.filterMap fun entry => if entry.2.isIgnored then none
    else some (restoredAt entry, some entry.2)

theorem mem_restoreWrites : write ∈ restoreWrites undone ↔
      ∃ entry ∈ undone, entry.2.isIgnored = false ∧ (restoredAt entry, some entry.2) = write := by
  simp [restoreWrites]

theorem writeCoins_restore_cons (plain : PlainView) :
    (plain.writeCoins (restoreWrites [entry])).writeCoins (restoreWrites earlier) =
      plain.writeCoins (restoreWrites (entry :: earlier)) := by
  rw [← writeCoins_append]
  unfold restoreWrites
  rw [← filterMap_append]
  rfl

theorem restoreWrites_keys (member : key ∈ (restoreWrites undone).map Prod.fst) :
    key ∈ undone.map restoredAt := by
  obtain ⟨write, inWrites, rfl⟩ := mem_map.mp member
  obtain ⟨entry, inUndone, -, rfl⟩ := mem_restoreWrites.mp inWrites
  exact mem_map_of_mem inUndone

def disconnectWrites (tx : CTransaction) (txundo : CTxUndo) : List CoinWrite :=
  spentOutputWrites tx.hash 0 tx.vout ++
    if hasNoCoinInputs tx then [] else restoreWrites (tx.vin.zip txundo.vprevout).reverse

theorem outputWrite_elsewhere (elsewhere : key ≠ ⟨tx.hash, i⟩) :
    key ∉ (outputWrite env tx nHeight fSkipInvalid i out).map Prod.fst := by
  unfold outputWrite
  split
  · simpa using elsewhere
  · split
    · simp
    · simpa using elsewhere

def OutputsThere (coins : COutPoint → Option Coin) (hash : Uint256) (o : Nat) (outs : List CTxOut) :
    Prop :=
  ∀ out n, (out, n) ∈ outs.zipIdx o → isIgnoredOutput out = false →
    ((coins ⟨hash, n⟩).getD Coin.empty).out = out

theorem OutputsThere.tail {coins : COutPoint → Option Coin} {hash : Uint256} {o : Nat}
    {out : CTxOut} {rest : List CTxOut} (there : OutputsThere coins hash o (out :: rest)) :
    OutputsThere coins hash (o + 1) rest :=
  fun other n member => there other n (by rw [zipIdx_cons]; exact mem_cons_of_mem _ member)

theorem OutputsThere.update {coins : COutPoint → Option Coin} {hash : Uint256} {o : Nat}
    {outs : List CTxOut} (there : OutputsThere coins hash (o + 1) outs) :
    OutputsThere (Function.update coins ⟨hash, o⟩ value) hash (o + 1) outs := by
  intro out n member spendable
  have other : (⟨hash, n⟩ : COutPoint) ≠ ⟨hash, o⟩ := by
    intro same
    injection same with _ index
    have later := le_snd_of_mem_zipIdx member
    omega
  rw [Function.update_of_ne other]
  exact there out n member spendable

section

variable [PedersenHash] (Known : SaplingMerkleTree → Prop) [DecidablePred Known]

theorem addOutput_run (env : Env) (nHeight : Nat) (fSkipInvalid : Bool) (valid : out.isNull = false)
    (fits : check = true ∨ plain.coins ⟨tx.hash, i⟩ = none) :
    run (step Known) (addOutput env tx nHeight check fSkipInvalid i out) plain =
      .ok ((), plain.writeCoins (outputWrite env tx nHeight fSkipInvalid i out)) := by
  have written : plain.writeCoins (if (outputCoin tx nHeight out).isIgnored then []
        else [(⟨tx.hash, i⟩, some (outputCoin tx nHeight out))]) =
      { plain with coins := if (outputCoin tx nHeight out).isIgnored then plain.coins
        else Function.update plain.coins ⟨tx.hash, i⟩ (some (outputCoin tx nHeight out)) } := by
    split <;> rfl
  have unspent : (outputCoin tx nHeight out).isSpent = false := valid
  unfold addOutput outputWrite
  split
  · rfl
  · rw [written]
    split
    · rw [run_bind_ok (run_haveCoin plain), run_addCoin plain unspent]
      cases plain.coins ⟨tx.hash, i⟩ with
      | none => exact .inr rfl
      | some coin => exact .inl rfl
    next unchecked => exact run_addCoin plain unspent (.inr (fits.resolve_left unchecked))

theorem addCoinsFrom_run (env : Env) (tx : CTransaction) (nHeight : Nat) (check fSkipInvalid : Bool)
    (i : Nat) (plain : PlainView) (valid : ∀ out ∈ outs, out.isNull = false)
    (fits : check = true ∨ ∀ n, i ≤ n → plain.coins ⟨tx.hash, n⟩ = none) :
    run (step Known) (addCoinsFrom env tx nHeight check fSkipInvalid i outs) plain =
      .ok ((), plain.writeCoins (outputWrites env tx nHeight fSkipInvalid i outs)) := by
  induction outs generalizing i plain with
  | nil => rfl
  | cons out rest ih =>
    have first :=
      addOutput_run Known env nHeight fSkipInvalid (valid out mem_cons_self)
        (fits.imp_right fun absent => absent i (le_refl i))
    rw [addCoinsFrom, run_bind_ok first, outputWrites, zipIdx_cons, flatMap_cons, writeCoins_append]
    apply ih
    · exact (forall_mem_cons.mp valid).2
    · refine fits.imp_right fun absent n later => ?_
      -- The write at index `i` leaves the later indices as they are.
      have other : (⟨tx.hash, n⟩ : COutPoint) ≠ ⟨tx.hash, i⟩ := by
        intro same
        injection same with _ index
        omega
      exact (applyWrites_untouched (outputWrite_elsewhere other)).trans (absent n (by omega))

def coinsSpent (coins : COutPoint → Option Coin) (inputs : List CTxIn) : List Coin :=
  inputs.map fun input => (coins input.prevout).getD Coin.empty

theorem spendInputs_run (inputs : List CTxIn) (plain : PlainView) :
    ∃ coins, run (step Known) (spendInputs inputs) plain =
        .ok (coins, plain.writeCoins (inputWrites inputs)) ∧
      ((inputs.map CTxIn.prevout).Nodup → coins = coinsSpent plain.coins inputs) := by
  induction inputs generalizing plain with
  | nil => exact ⟨[], rfl, fun _ => rfl⟩
  | cons input rest ih =>
    obtain ⟨coins, ran, exact⟩ :=
      ih { plain with coins := Function.update plain.coins input.prevout none }
    refine ⟨(plain.coins input.prevout).getD Coin.empty :: coins, ?_, fun distinct => ?_⟩
    · rw [spendInputs, run_bind_ok (run_spendCoin plain), run_bind_ok ran, run_pure]
      rfl
    · obtain ⟨firstAbsent, restDistinct⟩ := nodup_cons.mp distinct
      rw [exact restDistinct]
      refine congrArg _ (map_congr_left fun other member => ?_)
      have differs : other.prevout ≠ input.prevout :=
        fun same => firstAbsent (same ▸ mem_map_of_mem member)
      dsimp only
      rw [Function.update_of_ne differs]

def connected (env : Env) (nHeight : Nat) (tx : CTransaction) (plain : PlainView) : PlainView :=
  { plain.writeCoins (connectWrites env nHeight tx) with
    nullifiers := markNullifiers plain.nullifiers tx true }

def undoRecord (tx : CTransaction) (plain : PlainView) : CTxUndo where
  vprevout := if hasNoCoinInputs tx then [] else coinsSpent plain.coins tx.vin

theorem updateCoins_run (env : Env) (nHeight : Nat) (plain : PlainView)
    (distinct : tx.hasZerocoinSpendInputs = false → (tx.vin.map CTxIn.prevout).Nodup)
    (valid : ∀ out ∈ tx.vout, out.isNull = false) (absent : ∀ n, plain.coins ⟨tx.hash, n⟩ = none) :
    run (step Known) (updateCoins env tx nHeight (skipInvalidUTXOS env.params nHeight)) plain =
      .ok (undoRecord tx plain, connected env nHeight tx plain) := by
  have spent : run (step Known) (spendTxInputs tx) plain =
      .ok ((undoRecord tx plain).vprevout, plain.writeCoins (txInputWrites tx)) := by
    unfold undoRecord spendTxInputs txInputWrites
    cases kind : hasNoCoinInputs tx with
    | true => rfl
    | false =>
      simp only [hasNoCoinInputs, Bool.or_eq_false_iff] at kind
      obtain ⟨coins, ran, exact⟩ := spendInputs_run Known tx.vin plain
      rwa [exact (distinct kind.2)] at ran
  have stillAbsent (n : Nat) : applyWrites plain.coins (txInputWrites tx) ⟨tx.hash, n⟩ = none :=
    applyWrites_induction (· = none) (absent n) fun _ member => txInputWrites_none member
  have added : run (step Known) (addCoins env tx nHeight false (skipInvalidUTXOS env.params nHeight))
      { plain.writeCoins (txInputWrites tx) with
        nullifiers := markNullifiers plain.nullifiers tx true } =
      .ok ((), connected env nHeight tx plain) := by
    refine (addCoinsFrom_run Known env tx nHeight false _ 0 _ valid (.inr fun n _ =>
      stillAbsent n)).trans ?_
    rw [connected, connectWrites, writeCoins_append]
    rfl
  rw [updateCoins, run_bind_ok spent, run_bind_ok (run_setNullifiers _ _)]
  exact run_bind_ok added

theorem spendOutputsFrom_run (hash : Uint256) (o : Nat) (plain : PlainView) :
    ∃ fClean, run (step Known) (spendOutputsFrom hash o outs) plain =
        .ok (fClean, plain.writeCoins (spentOutputWrites hash o outs)) ∧
      (OutputsThere plain.coins hash o outs → fClean = true) := by
  induction outs generalizing o plain with
  | nil => exact ⟨true, rfl, fun _ => rfl⟩
  | cons out rest ih =>
    have unfolded : spentOutputWrites hash o (out :: rest) =
        if isIgnoredOutput out then spentOutputWrites hash (o + 1) rest
        else (⟨hash, o⟩, none) :: spentOutputWrites hash (o + 1) rest := by
      cases ignored : isIgnoredOutput out with
      | false => simp [spentOutputWrites, ignored]
      | true => simp [spentOutputWrites, ignored]
    rw [spendOutputsFrom, unfolded]
    change ∃ fClean, run (step Known) (if isIgnoredOutput out then _ else _) plain = _ ∧ _
    split
    · obtain ⟨fClean, ran, clean⟩ := ih (o + 1) plain
      exact ⟨fClean, ran, fun there => clean there.tail⟩
    next spendable =>
      simp only [Bool.not_eq_true] at spendable
      obtain ⟨fClean, ran, clean⟩ :=
        ih (o + 1) { plain with coins := Function.update plain.coins ⟨hash, o⟩ none }
      refine ⟨decide (out = ((plain.coins ⟨hash, o⟩).getD Coin.empty).out) && fClean, ?_,
        fun there => ?_⟩
      · exact (run_bind_ok (run_spendCoin plain)).trans (run_bind_ok ran)
      · have first := there out o (by rw [zipIdx_cons]; exact mem_cons_self) spendable
        have later : fClean = true := clean there.tail.update
        simp [first, later]

theorem applyTxInUndo_run (out : COutPoint) (plain : PlainView) (unspent : undo.isSpent = false)
    (dated : undo.nHeight ≠ 0) (input : CTxIn) (same : input.prevout = out) :
    run (step Known) (applyTxInUndo undo out) plain =
      .ok (if (plain.coins out).isSome then .unclean else .ok,
        plain.writeCoins (restoreWrites [(input, undo)])) := by
  have dated' : (undo.nHeight == 0) = false := by simpa using dated
  have added : run (step Known) (ViewProgram.addCoin out undo (plain.coins out).isSome) plain =
      .ok ((), plain.writeCoins (restoreWrites [(input, undo)])) := by
    rw [run_addCoin plain unspent]
    · subst same
      unfold restoreWrites writeCoins
      cases ignored : undo.isIgnored with
      | false => simp [ignored, applyWrites, restoredAt]
      | true => simp [ignored]
    · cases plain.coins out with
      | none => exact .inr rfl
      | some coin => exact .inl rfl
  rw [applyTxInUndo, run_bind_ok (run_haveCoin plain)]
  simp only [dated', Bool.false_eq_true, if_false]
  rw [run_bind_ok added, run_pure]

/-- An undo record that restores coins: none is spent, and none lacks its height. -/
def Usable (undone : List Coin) : Prop := ∀ undo ∈ undone, undo.isSpent = false ∧ undo.nHeight ≠ 0

theorem restoreInputs_run (plain : PlainView) (usable : Usable (undone.map Prod.snd)) :
    ∃ result, run (step Known) (restoreInputs undone) plain =
        .ok (result, plain.writeCoins (restoreWrites undone)) ∧ result ≠ .failed ∧
      ((undone.map restoredAt).Nodup → (∀ entry ∈ undone, plain.coins (restoredAt entry) = none) →
        result = .ok) := by
  induction undone generalizing plain with
  | nil => exact ⟨.ok, rfl, by simp, fun _ _ => rfl⟩
  | cons entry earlier ih =>
    obtain ⟨input, undo⟩ := entry
    obtain ⟨unspent, dated⟩ := usable undo mem_cons_self
    have first :=
      applyTxInUndo_run Known input.prevout plain unspent dated input rfl
    obtain ⟨result, ran, notFailed, clean⟩ := ih (plain.writeCoins (restoreWrites [(input, undo)]))
      (forall_mem_cons.mp usable).2
    rw [writeCoins_restore_cons] at ran
    refine ⟨combine (plain.coins input.prevout).isNone result, ?_, combine_ne_failed notFailed,
      fun distinct absent => ?_⟩
    · rw [restoreInputs, run_bind_ok first]
      cases plain.coins input.prevout with
      | none => exact run_bind_ok ran
      | some coin => exact run_bind_ok ran
    · have here : plain.coins input.prevout = none := absent _ mem_cons_self
      obtain ⟨firstAbsent, restDistinct⟩ := nodup_cons.mp distinct
      rw [here, Option.isNone_none, combine_true]
      refine clean restDistinct fun other member => ?_
      have elsewhere : restoredAt other ∉ (restoreWrites [(input, undo)]).map Prod.fst := by
        intro written
        have same := restoreWrites_keys written
        rw [map_singleton, mem_singleton] at same
        exact firstAbsent (same ▸ mem_map_of_mem member)
      exact (applyWrites_untouched elsewhere).trans (absent other (mem_cons_of_mem _ member))

def disconnected (tx : CTransaction) (txundo : CTxUndo) (plain : PlainView) : PlainView :=
  { plain.writeCoins (disconnectWrites tx txundo) with
    nullifiers := if hasNoCoinInputs tx then plain.nullifiers
      else markNullifiers plain.nullifiers tx false }

/-- The state a transaction has just been connected to: its outputs are there, its inputs are
not. -/
structure JustConnected (coins : COutPoint → Option Coin) (tx : CTransaction) : Prop where
  outputs : OutputsThere coins tx.hash 0 tx.vout
  inputs : hasNoCoinInputs tx = false → ∀ input ∈ tx.vin,
    applyWrites coins (spentOutputWrites tx.hash 0 tx.vout) input.prevout = none
  distinct : hasNoCoinInputs tx = false → (tx.vin.map CTxIn.prevout).Nodup

structure UndoFits (env : Env) (tx : CTransaction) (txundo : CTxUndo) : Prop where
  erased : disconnectZerocoinTx env.zerocoin tx = .ok true
  usable : Usable txundo.vprevout
  length : hasNoCoinInputs tx = false → txundo.vprevout.length = tx.vin.length

theorem UndoFits.erased_run (fits : UndoFits env tx txundo) (plain : PlainView) :
    run (step Known) (ViewProgram.lift (disconnectZerocoinTx env.zerocoin tx)) plain =
      .ok (true, plain) :=
  (run_lift_eq_ok plain).mpr ⟨fits.erased, rfl⟩

theorem disconnectTx_run (fits : UndoFits env tx txundo) (plain : PlainView) :
    ∃ result, run (step Known) (disconnectTx env tx txundo) plain =
        .ok (result, disconnected tx txundo plain) ∧ result ≠ .failed ∧
      (JustConnected plain.coins tx → result = .ok) := by
  obtain ⟨fClean, spent, outputsClean⟩ := spendOutputsFrom_run Known tx.hash 0 plain
  rw [disconnectTx, run_bind_ok (fits.erased_run Known plain)]
  simp only [Bool.not_true, Bool.false_eq_true, if_false]
  rw [run_bind_ok spent]
  cases kind : hasNoCoinInputs tx with
  | true =>
    refine ⟨combine fClean .ok, ?_, combine_ne_failed (by simp),
      fun just => by rw [outputsClean just.outputs]; rfl⟩
    simp only [disconnected, disconnectWrites, kind, if_true, append_nil, run_pure]
    rfl
  | false =>
    have sameLength := fits.length kind
    have undone : (tx.vin.zip txundo.vprevout).map Prod.snd = txundo.vprevout :=
      map_snd_zip sameLength.le
    have prevouts : (tx.vin.zip txundo.vprevout).map restoredAt = tx.vin.map CTxIn.prevout := by
      have inputs : (tx.vin.zip txundo.vprevout).map Prod.fst = tx.vin := map_fst_zip sameLength.ge
      conv_rhs => rw [← inputs, map_map]
      rfl
    have usable : Usable ((tx.vin.zip txundo.vprevout).reverse.map Prod.snd) := by
      rw [map_reverse, undone]
      exact fun undo member => fits.usable undo (mem_reverse.mp member)
    obtain ⟨result, restored, notFailed, clean⟩ :=
      restoreInputs_run Known
        { plain.writeCoins (spentOutputWrites tx.hash 0 tx.vout) with
          nullifiers := markNullifiers plain.nullifiers tx false } usable
    refine ⟨combine fClean result, ?_, combine_ne_failed notFailed, fun just => ?_⟩
    · simp only [Bool.false_eq_true, if_false]
      simp only [sameLength, ne_eq, not_true_eq_false, if_false]
      refine (run_bind_ok restored).trans ?_
      simp only [run_pure, disconnected, disconnectWrites, kind, Bool.false_eq_true, if_false,
        writeCoins_append]
      rfl
    · rw [outputsClean just.outputs, combine_true]
      apply clean
      · rw [map_reverse, prevouts]
        exact nodup_reverse.mpr (just.distinct kind)
      · intro entry member
        have inputMember : restoredAt entry ∈ tx.vin.map CTxIn.prevout :=
          prevouts ▸ mem_map_of_mem (mem_reverse.mp member)
        obtain ⟨input, inVin, same⟩ := mem_map.mp inputMember
        rw [← same]
        exact just.inputs kind input inVin

end

end Deviant.Validation
