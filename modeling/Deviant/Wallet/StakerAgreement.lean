import Mathlib.Data.Finset.Card
import Deviant.Wallet.PaymentConservation

namespace Deviant.Wallet

open Budget Consensus Masternode Primitives Validation
open List hiding count

/-! The coinstake of a staker against the checks of a validator with the same data.  The staker is
paid for the next block but asks for the payee of the block after it. -/

variable {state : PaymentState} {nHeight : Nat}

/-- The height that `IsBlockValueValid` starts to check amounts after. -/
def lastUncheckedHeight : Nat := 1780000

/-- What a coinstake mints: the fees of other transactions do not enter. -/
def mintOf (stake : CoinStake) (coin : CStakeableOutput) :
    Int := wrap64 (sumValues stake.vout - coin.out.nValue)

def Accepted (state : PaymentState) (nBlockHeight : Nat) (stake : CoinStake)
    (coin : CStakeableOutput) (block : CBlock) : Prop :=
  (state.isBlockPayeeValid block nBlockHeight).1 = true ∧
    isBlockValueValid state.env nBlockHeight (Env.getBlockValue state.env nBlockHeight)
    (mintOf stake coin) = true

def StakersAccepted (state : PaymentState) (nHeight : Nat) : Prop :=
  ∀ wallet coins stake coin block txNew,
    createCoinStake state wallet nHeight coins = some stake → stake.kernel = some coin →
    block.vtx[1]? = some txNew → txNew.vout = stake.vout → state.chainContains block.hash = false →
    Accepted state (nHeight + 1) stake coin block

/-- What is added for the height after the next has to do for the next. -/
structure PaymentsAgree (state : PaymentState) (nHeight : Nat) : Prop where
  payee : state.Unenforced (nHeight + 1) ∨
    state.Satisfies (nHeight + 1) (paymentFor state (nHeight + 2)).1 ∨
    state.Satisfies (nHeight + 1) emptyOut
  value : nHeight + 1 ≤ lastUncheckedHeight ∨
    wrap64 (Env.getBlockValue state.env (nHeight + 1) +
        ((paymentFor state (nHeight + 2)).1.nValue - (paymentFor state (nHeight + 2)).2)) ≤
      wrap64 (Env.getBlockValue state.env (nHeight + 1) + budgetAllowance state.env (nHeight + 1))

theorem isBlockValueValid_synced :
    isBlockValueValid state.env nBlockHeight nExpectedValue nMinted = true ↔
        nBlockHeight ≤ lastUncheckedHeight ∨
        nMinted ≤ wrap64 (nExpectedValue + budgetAllowance state.env nBlockHeight) := by
  unfold isBlockValueValid lastUncheckedHeight
  rw [state.synced]
  simp only [Bool.not_true, Bool.false_and, Bool.false_eq_true, if_false]
  split
  next early =>
    rw [Bool.or_eq_true, beq_iff_eq, decide_eq_true_eq] at early
    exact iff_of_true rfl (.inl (by omega))
  next late =>
    rw [Bool.or_eq_true, beq_iff_eq, decide_eq_true_eq] at late
    rw [decide_eq_true_eq]
    exact ⟨.inr, fun either => either.resolve_left (by omega)⟩

section

variable {stake : CoinStake} {coin : CStakeableOutput}
  (shape : stake.vout = emptyOut :: (stakes ++ [(paymentFor state (nHeight + 2)).1]))
  (stakes_ok : Stakes stakes count script
    (coin.out.nValue + Env.getBlockValue state.env (nHeight + 1) - (paymentFor state (nHeight + 2)).2))

include shape stakes_ok

theorem mintOf_eq : mintOf stake coin = wrap64 (Env.getBlockValue state.env (nHeight + 1) +
      ((paymentFor state (nHeight + 2)).1.nValue - (paymentFor state (nHeight + 2)).2)) := by
  have outs : total stake.vout = total stakes + (paymentFor state (nHeight + 2)).1.nValue := by
    rw [shape, total_cons, total_append, total_cons, total_nil, emptyOut, Int.zero_add, Int.add_zero]
  have sum := (stakes_ok.sum.add
    (rfl : Wraps (paymentFor state (nHeight + 2)).1.nValue _)).sub_right coin.out.nValue
  rw [mintOf, sumValues_eq, outs]
  refine ((wraps_wrap64 _).sub_right coin.out.nValue).trans (sum.trans ?_)
  congr 1
  omega

theorem accepted_iff
    (active : state.env.params.networkUpgradeActive (nHeight + 1) .upgradePOS = true)
    (coinstake : block.vtx[1]? = some txNew) (same : txNew.vout = stake.vout)
    (fresh : state.chainContains block.hash = false) :
    Accepted state (nHeight + 1) stake coin block ↔
      (PaymentsAgree state nHeight ∨ (∃ out ∈ stakes, state.Satisfies (nHeight + 1) out) ∧
        (nHeight + 1 ≤ lastUncheckedHeight ∨ wrap64 (Env.getBlockValue state.env (nHeight + 1) +
          ((paymentFor state (nHeight + 2)).1.nValue - (paymentFor state (nHeight + 2)).2)) ≤
            wrap64 (Env.getBlockValue state.env (nHeight + 1) + budgetAllowance state.env
              (nHeight + 1)))) := by
  unfold Accepted
  rw [state.isBlockPayeeValid_iff active coinstake fresh, isBlockValueValid_synced,
    mintOf_eq shape stakes_ok, same, shape]
  simp only [mem_cons, mem_append, not_mem_nil, or_false]
  constructor
  · rintro ⟨free | ⟨out, rfl | member | rfl, satisfied⟩, value⟩
    · exact .inl ⟨.inl free, value⟩
    · exact .inl ⟨.inr (.inr satisfied), value⟩
    · exact .inr ⟨⟨out, member, satisfied⟩, value⟩
    · exact .inl ⟨.inr (.inl satisfied), value⟩
  · rintro (⟨free | paid | empty, value⟩ | ⟨⟨out, member, satisfied⟩, value⟩)
    · exact ⟨.inl free, value⟩
    · exact ⟨.inr ⟨_, .inr (.inr rfl), paid⟩, value⟩
    · exact ⟨.inr ⟨_, .inl rfl, empty⟩, value⟩
    · exact ⟨.inr ⟨out, .inr (.inl member), satisfied⟩, value⟩

end

def acceptedAmounts (state : PaymentState) (nBlockHeight : Nat) : List Int :=
  getMasternodePayment state.env nBlockHeight :: state.budgets.mapFinalizedBudgets.filterMap
    fun budget =>
      (budget.getBudgetPaymentByBlock nBlockHeight).map fun payment => payment.nAmount

theorem mem_acceptedAmounts (satisfied : state.Satisfies nBlockHeight out) :
    out.nValue ∈ acceptedAmounts state nBlockHeight := by
  rcases satisfied with ⟨-, before, budget, after, payment, split, offers, -,
    amount⟩ | ⟨-, -, amount⟩
  · have considered : budget ∈ CBudgetManager.considered (state.budgets.countThreshold nBlockHeight)
        state.budgets.mapFinalizedBudgets := by
      rw [split]
      exact mem_append_right before mem_cons_self
    refine mem_cons_of_mem _ (mem_filterMap.mpr ⟨budget, (mem_filter.mp considered).1, ?_⟩)
    rw [offers.1, Option.map_some, amount]
  · rw [amount]
    exact mem_cons_self

theorem eq_of_wrap64_add (low : 0 ≤ a) (high : a < 2 ^ 63) (low' : 0 ≤ b) (high' : b < 2 ^ 63)
    (same : wrap64 (a + c) = wrap64 (b + c)) : a = b := by
  have difference : wrap64 (a + c - c) = wrap64 (b + c - c) := Wraps.sub_right same c
  rwa [Int.add_sub_cancel, Int.add_sub_cancel, wrap64_eq (by omega) high,
    wrap64_eq (by omega) high'] at difference

theorem exists_value (amounts : List Int) (few : amounts.length < 2 ^ 62 + 1) (c : Int) :
    ∃ value : Int, 0 < value ∧ ∀ amount ∈ amounts, wrap64 (value + c) ≠ wrap64 amount := by
  have image :
      ((Finset.range (amounts.length + 1)).image fun i : Nat => wrap64 ((i + 1 : Int) + c)).card =
      amounts.length + 1 := by
    rw [Finset.card_image_of_injOn, Finset.card_range]
    intro i iSmall j jSmall same
    rw [Finset.mem_coe, Finset.mem_range] at iSmall jSmall
    have equal := eq_of_wrap64_add (by omega) (by omega) (by omega) (by omega) same
    omega
  have size : (amounts.map wrap64).toFinset.card ≤ amounts.length := by
    have bound := toFinset_card_le (amounts.map wrap64)
    rwa [length_map] at bound
  obtain ⟨wrapped, inside, outside⟩ := Finset.exists_mem_notMem_of_card_lt_card (lt_of_le_of_lt size
    (lt_of_lt_of_eq (Nat.lt_succ_self _) image.symm))
  obtain ⟨i, -, rfl⟩ := Finset.mem_image.mp inside
  refine ⟨i + 1, by omega, fun amount member same => outside ?_⟩
  rw [mem_toFinset, mem_map]
  exact ⟨amount, member, same.symm⟩

def eagerWallet (nHeight : Nat) : StakingWallet where
  lastBlockProcessedHeight := nHeight
  isLocked := false
  shutdownRequested := false
  isSpent _ := false
  stake _ := true
  getKey _ := some (2 :: List.replicate 32 0)
  nStakeSplitThreshold := 0
  signSignature _ _ := true

def keyHashScript :
    CScript := [opDup, opHash160, 20] ++ List.replicate 20 0 ++ [opEqualverify, opChecksig]

def keyHashCoin (value : Int) (positive : 0 < value) : CStakeableOutput where
  outpoint := ⟨1, 0⟩
  out := { nValue := value, scriptPubKey := keyHashScript }
  positive := positive
  notMint := rfl

theorem stakeScript_keyHash (isV6Active onlyP2PK : Bool) (nHeight : Nat) :
    ∃ script, stakeScript isV6Active (eagerWallet nHeight) keyHashScript onlyP2PK = some script ∧
      script.length ≤ 35 := by
  cases onlyP2PK with
  | true => exact ⟨_, rfl, by decide⟩
  | false => exact ⟨_, rfl, by decide⟩

theorem kernelSearch_eager (nHeight : Nat) (createOuts : CStakeableOutput → Option (List CTxOut))
    (created : createOuts coin = some outs) :
    kernelSearch (eagerWallet nHeight) nHeight createOuts false [coin] =
      some (true, some (coin, outs)) := by
  simp [kernelSearch, eagerWallet, created]

theorem createCoinStake_keyHash (state : PaymentState) (nHeight : Nat) (value : Int)
    (positive : 0 < value) :
    ∃ stake, createCoinStake state (eagerWallet nHeight) nHeight [keyHashCoin value positive] =
      some stake ∧
      stake.kernel = some (keyHashCoin value positive) := by
  obtain ⟨script, scriptOk, short⟩ := stakeScript_keyHash state.env.node.isV6Active
    (!state.env.params.networkUpgradeActive (nHeight + 1) .upgradeV5_0) nHeight
  have outs : createTxOuts state.env.node.isV6Active (eagerWallet nHeight)
      (keyHashCoin value positive) (stakeCredit state.env nHeight (keyHashCoin value positive))
      (!state.env.params.networkUpgradeActive (nHeight + 1) .upgradeV5_0) =
        some [{ nValue := 0, scriptPubKey := script }] := by
    unfold createTxOuts
    rw [show (keyHashCoin value positive).out.scriptPubKey = keyHashScript from rfl, scriptOk]
    rfl
  have small (amount : Int) :
      ¬ coinStakeSize [emptyOut, { nValue := amount, scriptPubKey := script }] ≥
      defaultBlockMaxSize / 5 := by
    have one : compactSize script.length = 1 := if_pos (by omega)
    have size : coinStakeSize [emptyOut, { nValue := amount, scriptPubKey := script }] = 28 +
        script.length := by
      simp only [coinStakeSize, map_cons, map_nil, sum_cons, sum_nil, one]
      have first : compactSize 0 = 1 ∧ compactSize emptyOut.scriptPubKey.length = 1 ∧
          emptyOut.scriptPubKey.length = 0 := by
        decide
      rw [first.1, first.2.1, first.2.2, show compactSize [emptyOut, (_ : CTxOut)].length = 1 from rfl]
      omega
    rw [size, defaultBlockMaxSize]
    omega
  have search :=
    kernelSearch_eager nHeight (fun coin =>
    createTxOuts state.env.node.isV6Active (eagerWallet nHeight) coin
    (stakeCredit state.env nHeight coin)
    (!state.env.params.networkUpgradeActive (nHeight + 1) .upgradeV5_0)) outs
  unfold createCoinStake
  dsimp only
  rw [search]
  dsimp only
  rw [setAmounts, if_neg (small _)]
  exact ⟨_, rfl, rfl⟩

/-- A coinstake is accepted on a tip, whatever coin is staked, exactly when the payment for the
height after the next does for the next. -/
theorem staker_validator_agree_iff (state : PaymentState) (nHeight : Nat)
    (active : state.env.params.networkUpgradeActive (nHeight + 1) .upgradePOS = true) :
    StakersAccepted state nHeight ↔ PaymentsAgree state nHeight := by
  constructor
  · intro accepted
    -- a coin whose stake has none of the amounts that are taken for a payment
    have few : (acceptedAmounts state (nHeight + 1)).length < 2 ^ 62 + 1 := by
      have bounded := state.budgets.bounded
      have fewer := length_filterMap_le (fun budget : CFinalizedBudget =>
        (budget.getBudgetPaymentByBlock (nHeight + 1 : Nat)).map fun payment => payment.nAmount)
        state.budgets.mapFinalizedBudgets
      rw [acceptedAmounts, length_cons]
      omega
    obtain ⟨value, positive, avoids⟩ := exists_value (acceptedAmounts state (nHeight + 1)) few
      (Env.getBlockValue state.env (nHeight + 1) - (paymentFor state (nHeight + 2)).2)
    obtain ⟨stake, built, kernel⟩ := createCoinStake_keyHash state nHeight value positive
    obtain ⟨stakes, script, shape, stakes_ok⟩ := createCoinStake_vout built kernel
    obtain ⟨hash, fresh⟩ := state.unused
    let txNew : CTransaction := { hash := 2, nVersion := 1, vin := [], vout := stake.vout }
    let block : CBlock := ⟨hash, 0, 0, 0, 0, [txNew, txNew]⟩
    have both := accepted _ _ stake _ block txNew built kernel rfl rfl fresh
    rcases (accepted_iff shape stakes_ok active rfl rfl fresh).mp both
      with agree | ⟨⟨out, member, satisfied⟩, -⟩
    · exact agree
    · obtain ⟨only, rfl⟩ := length_eq_one_iff.mp stakes_ok.length
      cases mem_singleton.mp member
      have sum := stakes_ok.sum
      rw [total_cons, total_nil, Int.add_zero, Int.add_sub_assoc] at sum
      exact absurd sum.symm (avoids out.nValue (mem_acceptedAmounts satisfied))
  · intro agree wallet coins stake coin block txNew built kernel coinstake same fresh
    obtain ⟨stakes, script, shape, stakes_ok⟩ := createCoinStake_vout built kernel
    exact (accepted_iff shape stakes_ok active coinstake same fresh).mpr (.inl agree)

/-! A tip of the main network with votes for the payees of the next two heights. -/

namespace SampleVotes

def votes (nBlockHeight : Nat) (scriptPubKey : CScript) :
    CMasternodeBlockPayees := ⟨nBlockHeight, [⟨scriptPubKey, 6⟩]⟩

def voted (next afterNext : CScript) : PaymentState where
  __ := SampleStake.paying
  mapMasternodeBlocks :=
    ((∅ : Data.Table Nat CMasternodeBlockPayees).insert 1900001 (votes 1900001 next)).insert 1900002
      (votes 1900002 afterNext)
  currentMasterNode := none
  devScript := []
  keyed nHeight payees found := by
    rw [Data.Table.lookup_insert_eq, Data.Table.lookup_insert_eq, AList.lookup_empty] at found
    split at found
    next same =>
      cases found
      exact same.symm
    · split at found
      next same =>
        cases found
        exact same.symm
      · cases found

def coin : CStakeableOutput := keyHashCoin 1000000000 (by decide)

def blockWith (stake : CoinStake) : CBlock :=
  ⟨9, 0, 0, 0, 0, [{ hash := 1, nVersion := 1, vin := [], vout := [emptyOut] },
    { hash := 2, nVersion := 1, vin := [⟨⟨1, 0⟩, [], 0⟩], vout := stake.vout }]⟩

theorem paymentsAgree_voted : PaymentsAgree (voted [1] [1]) 1900000 where
  payee := by
    refine .inr (.inl
      (.inr ⟨.inl ?_, ⟨votes 1900001 [1], rfl, ⟨[1], 6⟩, mem_cons_self, rfl, by decide⟩, rfl⟩))
    rintro ⟨off, -⟩
    cases off
  value := .inr (by decide)

end SampleVotes

open SampleVotes in
theorem staker_validator_agree_iff_voted : StakersAccepted (voted [1] [1]) 1900000 :=
  (staker_validator_agree_iff (voted [1] [1]) 1900000 (by decide)).mpr paymentsAgree_voted

open SampleVotes in
/-- With another payee after the next block, the coinstake for the next one pays the wrong one. -/
theorem payee_of_wrong_height_rejected :
    ∃ stake, createCoinStake (voted [1] [2]) (eagerWallet 1900000) 1900000 [coin] = some stake ∧
      stake.kernel = some coin ∧
      ((voted [1] [2]).isBlockPayeeValid (blockWith stake) 1900001).1 = false ∧
      ¬ Accepted (voted [1] [2]) 1900001 stake coin (blockWith stake) := by
  have rejected (stake : CoinStake)
      (none : ((voted [1] [2]).isBlockPayeeValid (blockWith stake) 1900001).1 = false) :
      ¬ Accepted (voted [1] [2]) 1900001 stake coin (blockWith stake) := by
    rintro ⟨payee, -⟩
    rw [none] at payee
    cases payee
  obtain ⟨stake, built, kernel, wrong⟩ : ∃ stake,
      createCoinStake (voted [1] [2]) (eagerWallet 1900000) 1900000 [coin] = some stake ∧
      stake.kernel = some coin ∧ ((voted [1] [2]).isBlockPayeeValid (blockWith stake) 1900001).1 =
      false := ⟨_, rfl, rfl, rfl⟩
  exact ⟨stake, built, kernel, wrong, rejected stake wrong⟩

end Deviant.Wallet
