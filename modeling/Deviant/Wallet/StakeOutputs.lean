import Mathlib.Algebra.BigOperators.Group.List.Basic
import Deviant.Wallet.CoinStake

namespace Deviant.Wallet

open Consensus Int Masternode Primitives Script Validation PaymentState CScript
open List hiding count

/-! The outputs of a coinstake: an empty one, those of the stake, and the payment that
`FillBlockPayee` adds. -/

def total (outs : List CTxOut) : Int := (outs.map fun out => out.nValue).sum

@[simp] theorem total_nil : total [] = 0 := rfl

@[simp] theorem total_cons : total (out :: outs) = out.nValue + total outs := by
  simp [total]

@[simp] theorem total_append : total (left ++ right) = total left + total right := by
  simp [total]

theorem sumValues_eq : sumValues outs = wrap64 (total outs) := by
  induction outs using List.reverseRecOn with
  | nil => rfl
  | append_singleton outs last ih =>
    rw [sumValues_concat, ih, wrap64_wrap64_add, total_append, total_cons, total_nil, add_zero]

/-- Two amounts that an `int64_t` does not tell apart. -/
def Wraps (first second : Int) : Prop := wrap64 first = wrap64 second

theorem wraps_wrap64 (value : Int) : Wraps (wrap64 value) value := bmod_bmod

theorem Wraps.add (first : Wraps a b) (second : Wraps c d) : Wraps (a + c) (b + d) := by
  unfold Wraps at *
  rw [← wrap64_wrap64_add, first, wrap64_wrap64_add, ← wrap64_add_wrap64, second, wrap64_add_wrap64]

theorem Wraps.sub_right (same : Wraps a b) (c : Int) : Wraps (a - c) (b - c) :=
  same.add rfl

theorem wraps_takeFrom (amount : Int) (out : CTxOut) :
    Wraps (takeFrom amount out).nValue (out.nValue - amount) :=
  wraps_wrap64 _

/-- The outputs of the stake: how many there are, where they go and what they come to. -/
structure Stakes (stakes : List CTxOut) (count : Nat) (script : CScript) (amount : Int) : Prop where
  length : stakes.length = count
  scripts : ∀ out ∈ stakes, out.scriptPubKey = script
  sum : Wraps (total stakes) amount

theorem stakes_setAmounts (nRemaining : Int) :
    Stakes
      (setAmounts nShare nRemaining
        (List.replicate (count + 1) { nValue := 0, scriptPubKey := script }))
      (count + 1) script nRemaining := by
  induction count generalizing nRemaining with
  | zero =>
    refine ⟨rfl, ?_, ?_⟩
    · intro out member
      cases mem_singleton.mp member
      rfl
    · change Wraps (wrap64 (0 + nRemaining) + 0) nRemaining
      rw [add_zero, zero_add]
      exact wraps_wrap64 nRemaining
  | succ count ih =>
    obtain ⟨length, scripts, sum⟩ := ih (wrap64 (nRemaining - nShare))
    rw [replicate_succ, replicate_succ, setAmounts, ← replicate_succ]
    refine ⟨by rw [length_cons, length], ?_, ?_⟩
    · intro out member
      rcases mem_cons.mp member with rfl | later
      · rfl
      · exact scripts out later
    · rw [total_cons]
      have rest : Wraps (nShare + total _) (nShare + (nRemaining - nShare)) :=
        Wraps.add rfl (sum.trans (wraps_wrap64 _))
      rwa [show nShare + (nRemaining - nShare) = nRemaining by omega] at rest

theorem modify_length_append (init : List CTxOut) (last : CTxOut) (rest : List CTxOut)
    (f : CTxOut → CTxOut) :
    (init ++ last :: rest).modify init.length f = init ++ f last :: rest := by
  rw [modify_eq_take_drop, take_left, drop_left]
  rfl

theorem total_map_takeFrom (amount : Int) (outs : List CTxOut) :
    Wraps (total (outs.map (takeFrom amount))) (total outs - amount * outs.length) := by
  induction outs with
  | nil =>
    rw [map_nil, length_nil, Int.natCast_zero, Int.mul_zero, Int.sub_zero]
    rfl
  | cons out outs ih =>
    have step := (wraps_takeFrom amount out).add ih
    have same : out.nValue - amount + (total outs - amount * outs.length) =
        total (out :: outs) - amount * (out :: outs).length := by
      rw [total_cons, length_cons, natCast_succ, mul_add, mul_one]
      omega
    rw [same] at step
    rwa [map_cons, total_cons]

@[simp] theorem takeFrom_takeFrom :
    takeFrom second (takeFrom first out) = takeFrom (first + second) out := by
  unfold takeFrom
  rw [sub_eq_add_neg, wrap64_wrap64_add, ← sub_eq_add_neg, sub_sub]

def drawn (each rest : Int) (init : List CTxOut) (last : CTxOut) : List CTxOut :=
  init.map (takeFrom each) ++ [takeFrom rest last]

theorem wraps_drawn (each rest : Int) (init : List CTxOut) (last : CTxOut) :
    Wraps (total (drawn each rest init last))
      (total (init ++ [last]) - (each * init.length + rest)) := by
  have parts := (total_map_takeFrom each init).add (wraps_takeFrom rest last)
  rw [drawn, total_append, total_append, total_cons, total_nil, total_cons, total_nil,
    add_zero, add_zero]
  refine parts.trans ?_
  congr 1
  omega

theorem Stakes.drawn (stakes_ok : Stakes (init ++ [last]) count script credit) (each : Int) :
    Stakes (drawn each rest init last) count script (credit - (each * init.length + rest)) where
  length := by simpa [Wallet.drawn] using stakes_ok.length
  scripts := by simpa [Wallet.drawn, takeFrom, or_imp, forall_and] using stakes_ok.scripts
  sum := (wraps_drawn each rest init last).trans (stakes_ok.sum.sub_right _)

/-- What is taken from the last of `count` outputs, when the others give equal parts. -/
def lastPart (amount : Int) (count : Nat) : Int := amount - amount.tdiv count * (count - 1 : Nat)

theorem parts_sum (amount : Int) (count : Nat) :
    amount.tdiv (count + 1 : Nat) * count + lastPart amount (count + 1) = amount := by
  unfold lastPart
  rw [Nat.add_sub_cancel]
  omega

def devShare (env : Env) (nHeight : Nat) :
    Int := if nHeight ≥ devRewardHeight then getDevReward env nHeight else 0

section Draw

variable {init : List CTxOut} {last first payment : CTxOut} {count : Nat}

theorem takeSplit_drawn (length : init.length = count) :
    takeSplit amount (count + 1) (first :: (init ++ [last] ++ [payment])) =
      first :: (drawn (amount.tdiv (count + 1 : Nat)) (lastPart amount (count + 1)) init last ++
        [payment]) := by
  have parts :
      amount.tdiv (count + 1 : Nat) + (amount - amount.tdiv (count + 1 : Nat) * (count + 1 : Nat)) =
      lastPart amount (count + 1) := by
    unfold lastPart
    rw [Nat.add_sub_cancel, natCast_succ, mul_add, mul_one]
    omega
  have stakes :
    (init ++ [last]).length = count + 1 := by rw [length_append, length, length_singleton]
  have dust := modify_length_append (init.map (takeFrom (amount.tdiv (count + 1 : Nat))))
    (takeFrom (amount.tdiv (count + 1 : Nat)) last) [payment]
    (takeFrom (amount - amount.tdiv (count + 1 : Nat) * (count + 1 : Nat)))
  rw [length_map, length, takeFrom_takeFrom, parts] at dust
  unfold takeSplit drawn
  dsimp only
  rw [take_succ_cons, take_zero, drop_succ_cons, drop_zero, Nat.add_comm 1, drop_succ_cons,
    ← stakes, take_left, drop_left, stakes, singleton_append, modify_succ_cons, map_append,
    map_singleton, append_assoc, singleton_append, dust, append_assoc, singleton_append]

theorem drawn_drawn (each rest each' rest' : Int) :
    ∃ init' last', drawn each rest init last = init' ++ [last'] ∧ init'.length = init.length ∧
      drawn each' rest' init' last' = drawn (each + each') (rest + rest') init last := by
  refine ⟨init.map (takeFrom each), takeFrom rest last, rfl, length_map _, ?_⟩
  simp [drawn]

theorem subtractFromStake_drawn (env : Env) (length : init.length = count) (nHeight : Nat)
    (masternodePayment : Int)
    (notMint : ((first :: (init ++ [last] ++ [payment]))[1]?).any CTxOut.isZerocoinMint = false) :
    subtractFromStake nHeight (count + 2) masternodePayment (getDevReward env nHeight)
        (first :: (init ++ [last] ++ [payment])) =
      first :: (drawn (masternodePayment.tdiv (count + 1 : Nat) + (devShare env nHeight).tdiv
        (count + 1 : Nat))
        (lastPart masternodePayment (count + 1) + lastPart (devShare env nHeight) (count + 1))
        init last ++ [payment]) := by
  unfold subtractFromStake devShare
  rw [notMint, if_neg Bool.false_ne_true]
  cases count with
  | zero =>
    obtain rfl := length_eq_zero_iff.mp length
    rw [if_pos rfl]
    split <;> simp [drawn, lastPart]
  | succ count =>
    obtain ⟨init', last', once, sameLength, twice⟩ :=
      drawn_drawn (masternodePayment.tdiv (count + 1 + 1 : Nat))
      (lastPart masternodePayment (count + 1 + 1))
      ((getDevReward env nHeight).tdiv (count + 1 + 1 : Nat))
      (lastPart (getDevReward env nHeight) (count + 1 + 1))
    rw [if_neg (by omega), if_pos (by omega), show count + 1 + 2 - 1 = count + 1 + 1 from rfl]
    rw [takeSplit_drawn length, once]
    split
    · rw [takeSplit_drawn (sameLength.trans length), twice]
    · simp [← once, lastPart]

end Draw

theorem subtractFromStake_stakes (env : Env) (stakes_ok : Stakes stakes (count + 1) script credit)
    (notMint : isZerocoinMint script = false) :
    ∃ taken, subtractFromStake nHeight (count + 2) masternodePayment (getDevReward env nHeight)
        (first :: (stakes ++ [payment])) = first :: (taken ++ [payment]) ∧
      Stakes taken (count + 1) script (credit - masternodePayment - devShare env nHeight) := by
  rcases eq_nil_or_concat' stakes with rfl | ⟨init, last, rfl⟩
  · cases stakes_ok.length
  · have length : init.length = count := by simpa using stakes_ok.length
    have second :
        ((first :: (init ++ [last] ++ [payment]))[1]?).any CTxOut.isZerocoinMint = false := by
      cases init <;> simp [CTxOut.isZerocoinMint, stakes_ok.scripts, notMint]
    refine ⟨_, subtractFromStake_drawn env length nHeight masternodePayment second, ?_⟩
    have paid := parts_sum masternodePayment count
    have share := parts_sum (devShare env nHeight) count
    convert stakes_ok.drawn _ using 1
    rw [length, add_mul]
    omega

section

variable (state : PaymentState)

def masternodePayee (nHeight : Nat) : Option CScript :=
  (state.getBlockPayee nHeight).or state.currentMasterNode

def paymentFor (nHeight : Nat) : CTxOut × Int :=
  match if state.superblocks then state.budgets.getPayeeAndAmount nHeight else none with
  | some (payee, nAmount) => ({ nValue := nAmount, scriptPubKey := payee }, 0)
  | none =>
    match masternodePayee state nHeight with
    | some payee =>
      ({ nValue := getMasternodePayment state.env nHeight, scriptPubKey := payee },
        getMasternodePayment state.env nHeight + devShare state.env nHeight)
    | none => ({ nValue := 0, scriptPubKey := state.devScript }, 0)

variable {state} in
theorem fillMasternodePayee_unpaid (later : nHeight ≠ 0)
    (found : masternodePayee state nHeight = none) :
    state.fillMasternodePayee vout nHeight fProofOfStake = vout ++
      [{ nValue := 0, scriptPubKey := state.devScript }] := by
  rw [masternodePayee] at found
  unfold fillMasternodePayee
  rw [if_neg later, found]
  dsimp only
  rw [pushDevFee, modify_length_append]
  simp only [takeFrom, sub_self]
  rfl

variable {stakes : List CTxOut} {count : Nat} {credit : Int}
  (stakes_ok : Stakes stakes (count + 1) script credit) (notMint : isZerocoinMint script = false)
  (first : CTxOut) {nHeight : Nat} (later : nHeight ≠ 0)

include stakes_ok notMint later

theorem fillMasternodePayee_stakes
    (noBudget : (if state.superblocks then state.budgets.getPayeeAndAmount nHeight else none) = none) :
    ∃ taken, state.fillMasternodePayee (first :: stakes) nHeight true =
        first :: (taken ++ [(paymentFor state nHeight).1]) ∧
      Stakes taken (count + 1) script (credit - (paymentFor state nHeight).2) := by
  have length : (first :: stakes).length = count + 2 := by
    rw [length_cons, stakes_ok.length]
  unfold paymentFor
  rw [noBudget]
  cases found : masternodePayee state nHeight with
  | some payee =>
    rw [masternodePayee] at found
    unfold fillMasternodePayee
    rw [if_neg later, found]
    dsimp only
    rw [if_pos rfl, length, cons_append, ← sub_sub]
    exact subtractFromStake_stakes state.env stakes_ok notMint
  | none => exact ⟨stakes, fillMasternodePayee_unpaid later found, by rw [sub_zero]; exact stakes_ok⟩

theorem fillBlockPayee_stakes :
    ∃ taken, state.fillBlockPayee (first :: stakes) nHeight true = first ::
      (taken ++ [(paymentFor state nHeight).1]) ∧
      Stakes taken (count + 1) script (credit - (paymentFor state nHeight).2) := by
  have filled :
      (if state.superblocks then state.fillBudgetPayee (first :: stakes) nHeight true else none) =
      (if state.superblocks then state.budgets.getPayeeAndAmount nHeight else none).map fun found =>
        first :: (stakes ++ [{ nValue := found.2, scriptPubKey := found.1 }]) := by
    cases state.superblocks with
    | false => rfl
    | true =>
      unfold fillBudgetPayee
      rw [if_pos rfl, if_pos rfl, if_neg (by omega)]
      cases state.budgets.getPayeeAndAmount nHeight with
      | none => rfl
      | some found => rfl
  unfold fillBlockPayee
  rw [if_neg later, filled]
  cases budget : (if state.superblocks then state.budgets.getPayeeAndAmount nHeight else none) with
  | none => exact fillMasternodePayee_stakes state stakes_ok notMint first later budget
  | some found =>
    unfold paymentFor
    rw [budget]
    exact ⟨stakes, rfl, by rw [sub_zero]; exact stakes_ok⟩

end

theorem pushData_not_mint : isZerocoinMint (pushData pubkey ++ rest) = false := by
  unfold pushData
  split
  next small =>
    have below : pubkey.length % 256 = pubkey.length := Nat.mod_eq_of_lt (by omega)
    have different : UInt8.ofNat pubkey.length ≠ opZerocoinMint := by
      intro same
      have values := congrArg UInt8.toNat same
      rw [UInt8.toNat_ofNat', below] at values
      rw [values] at small
      exact absurd small (by decide)
    simp [isZerocoinMint, startsWithOpcode, different]
  · split
    · rfl
    · split
      · rfl
      · rfl

theorem stakeScript_not_mint (stakes : stakeScript isV6Active wallet kernel onlyP2PK = some script)
    (notMint : isZerocoinMint kernel = false) : isZerocoinMint script = false := by
  unfold stakeScript at stakes
  split at stakes
  · cases stakes
    exact notMint
  · split at stakes
    · cases stakes
    · split at stakes
      · cases stakes
        exact pushData_not_mint
      · cases stakes
        exact notMint
  · split at stakes
    · cases stakes
    · cases stakes
      exact notMint
  · cases stakes

theorem stakeOutputs_pos (wallet : StakingWallet) (nTotal : Int) :
    ∃ count, stakeOutputs wallet nTotal = count + 1 := by
  apply Nat.exists_eq_add_one.mpr
  unfold stakeOutputs
  split
  · dsimp only
    split
    · have most : (maxStandardTxSize >>> 11 : Nat) = 488 := by decide
      omega
    · omega
  · omega

theorem fillBlockPayee_created (state : PaymentState) {nCredit : Int}
    (created : createTxOuts isV6Active wallet coin nCredit onlyP2PK = some outs) (nHeight : Nat)
    (later : nHeight ≠ 0) :
    ∃ taken script,
      state.fillBlockPayee (emptyOut :: setAmounts (nCredit.tdiv outs.length) nCredit outs)
      nHeight true =
        emptyOut :: (taken ++ [(paymentFor state nHeight).1]) ∧
      Stakes taken (stakeOutputs wallet nCredit) script
      (nCredit - (paymentFor state nHeight).2) := by
  obtain ⟨script, scriptOk, rfl⟩ := Option.map_eq_some_iff.mp created
  obtain ⟨count, counted⟩ := stakeOutputs_pos wallet nCredit
  rw [counted]
  obtain ⟨taken, filled, takenOk⟩ := fillBlockPayee_stakes state (stakes_setAmounts nCredit)
    (stakeScript_not_mint scriptOk coin.notMint) emptyOut later
  exact ⟨taken, script, filled, takenOk⟩

theorem kernelSearch_found
    (found : kernelSearch wallet nHeight createOuts fKernelFound coins = some (true, some (coin, outs))) :
    createOuts coin = some outs := by
  induction coins generalizing fKernelFound with
  | nil => cases found
  | cons first coins ih =>
    unfold kernelSearch at found
    split at found
    · cases found
    · split at found
      · cases found
      · split at found
        · exact ih found
        · split at found
          · exact ih found
          · split at found
            · exact ih found
            next vout created =>
              cases found
              exact created

theorem createCoinStake_vout (built : createCoinStake state wallet nHeight coins = some stake)
    (kernel : stake.kernel = some coin) :
    ∃ stakes script, stake.vout = emptyOut :: (stakes ++ [(paymentFor state (nHeight + 2)).1]) ∧
      Stakes stakes (stakeOutputs wallet (stakeCredit state.env nHeight coin)) script
      (coin.out.nValue + Env.getBlockValue state.env (nHeight + 1) -
        (paymentFor state (nHeight + 2)).2) := by
  unfold createCoinStake at built
  dsimp only at built
  split at built
  · cases built
  · cases built
  · cases built
    cases kernel
  next coin' outs found =>
    split at built
    · cases built
    · split at built
      · cases built
        cases kernel
        obtain ⟨taken, script, filled, takenOk⟩ :=
          fillBlockPayee_created state (kernelSearch_found found) (nHeight + 2) (by omega)
        exact ⟨taken, script, filled, takenOk.length, takenOk.scripts,
          takenOk.sum.trans ((wraps_wrap64 _).sub_right _)⟩
      · cases built

end Deviant.Wallet
