import Deviant.Wallet.StakerAgreement

namespace Deviant.Wallet

open Consensus Int List Masternode Primitives Validation

/-! `CreateCoinStake` turn by turn: the wallet may change between two coins of the list, and `Stake`
moves the time of the new transaction. -/

/-- One turn of the search: the coin, the wallet as this turn finds it, and the time that `Stake`
leaves behind.  Whether `Stake` accepts the kernel is `wallet.stake`. -/
structure StakeTurn where
  coin : CStakeableOutput
  wallet : StakingWallet
  nTime : Int

structure StakeCall where
  state : PaymentState
  /-- The height of the parent block. -/
  nHeight : Nat
  nTxNewTime : Int
  turns : List StakeTurn
  signSignature : COutPoint → List CTxOut → Bool

/-- The transaction under construction, with the outpoints that its inputs spend. -/
structure CMutableStake where
  vin : List COutPoint
  vout : List CTxOut
deriving DecidableEq

namespace StakeTurn

def accepted (turn : StakeTurn) : Bool := turn.wallet.stake turn.coin.outpoint

def isSpent (turn : StakeTurn) : Bool := turn.wallet.isSpent turn.coin.outpoint

/-- The search goes on: no new block, no lock, no shutdown. -/
def goesOn (nHeight : Nat) (turn : StakeTurn) : Bool :=
  turn.wallet.lastBlockProcessedHeight == nHeight &&
    !(turn.wallet.isLocked || turn.wallet.shutdownRequested)

end StakeTurn

variable {turns : List StakeTurn} {fKernelFound flag : Bool}

namespace StakeCall

variable (call : StakeCall)

/-- The outputs that `CreateTxOuts` makes for the coin of a turn. -/
def createTxOuts (turn : StakeTurn) : Option (List CTxOut) :=
  Wallet.createTxOuts call.state.env.node.isV6Active turn.wallet turn.coin
    (stakeCredit call.state.env call.nHeight turn.coin)
    (!call.state.env.params.networkUpgradeActive (call.nHeight + 1) .upgradeV5_0)

/-- The loop: `none` when it gives up, otherwise whether a kernel was found, the time, and the turn
and the outputs at which it stopped. -/
def search : (fKernelFound : Bool) → (nTxNewTime : Int) → List StakeTurn →
    Option (Bool × Int × Option (StakeTurn × List CTxOut))
  | fKernelFound, nTxNewTime, [] => some (fKernelFound, nTxNewTime, none)
  | fKernelFound, nTxNewTime, turn :: turns =>
    if !turn.goesOn call.nHeight then none
    else if turn.isSpent then search fKernelFound nTxNewTime turns
    else if !turn.accepted then search false turn.nTime turns
    else
      match call.createTxOuts turn with
      | none => search true turn.nTime turns
      | some outs => some (true, turn.nTime, some (turn, outs))

/-- The amounts on the outputs of a kernel, behind the empty output that marks a coinstake. -/
def stakeVout (turn : StakeTurn) (outs : List CTxOut) : List CTxOut :=
  emptyOut :: setAmounts ((stakeCredit call.state.env call.nHeight turn.coin).tdiv outs.length)
    (stakeCredit call.state.env call.nHeight turn.coin) outs

/-- `CreateCoinStake`: the transaction and its time where it returns true. -/
def createCoinStake : Option (CMutableStake × Int) :=
  match call.search false call.nTxNewTime call.turns with
  | none => none
  | some (false, _, _) => none
  -- no input is left to sign
  | some (true, nTxNewTime, none) => some (⟨[], [emptyOut]⟩, nTxNewTime)
  | some (true, nTxNewTime, some (turn, outs)) =>
    let vout := call.stakeVout turn outs
    if coinStakeSize vout ≥ defaultBlockMaxSize / 5 then none
    else
      let vout := call.state.fillBlockPayee vout (call.nHeight + 2) true
      if call.signSignature turn.coin.outpoint vout then
        some (⟨[turn.coin.outpoint], vout⟩, nTxNewTime)
      else none

structure Real (txNew : CMutableStake) (nTxNewTime : Int) : Prop where
  kernel : ∃ turn ∈ call.turns, turn.accepted = true ∧ turn.nTime = nTxNewTime ∧
    txNew.vin = [turn.coin.outpoint] ∧ ∃ stakes,
      txNew.vout = call.state.fillBlockPayee (emptyOut :: stakes) (call.nHeight + 2) true ∧
      total (emptyOut :: stakes) = turn.coin.out.nValue + Env.getBlockValue call.state.env
      (call.nHeight + 1)
  marked : txNew.vout.head? = some emptyOut
  paying : 2 ≤ txNew.vout.length

def unspent (turns : List StakeTurn) : List StakeTurn := turns.filter fun turn => !turn.isSpent

/-- The answer of the last call of `Stake`. -/
def lastAnswer (fKernelFound : Bool) (turns : List StakeTurn) : Bool :=
  ((unspent turns).getLast?.map StakeTurn.accepted).getD fKernelFound

theorem lastAnswer_of_spent (spent : turn.isSpent = true) :
    lastAnswer fKernelFound (turn :: turns) = lastAnswer fKernelFound turns := by
  simp [lastAnswer, unspent, spent]

theorem lastAnswer_of_unspent (fresh : turn.isSpent = false) :
    lastAnswer fKernelFound (turn :: turns) = lastAnswer turn.accepted turns := by
  simp only [lastAnswer, unspent, filter_cons, fresh, Bool.not_false, if_true, List.getLast?_cons]
  cases (List.filter (fun turn => !turn.isSpent) turns).getLast? <;> rfl

/-- Every coin gets its turn, and no outputs can be created for any of them. -/
structure Exhausted (turns : List StakeTurn) : Prop where
  goesOn : ∀ turn ∈ turns, turn.goesOn call.nHeight = true
  barren : ∀ turn ∈ turns, turn.isSpent = false → turn.accepted = true →
    call.createTxOuts turn = none

variable {call}

theorem search_exhausted (exhausted : call.Exhausted turns) (fKernelFound : Bool)
    (nTxNewTime : Int) :
    ∃ time, call.search fKernelFound nTxNewTime turns =
      some (lastAnswer fKernelFound turns, time, none) := by
  induction turns generalizing fKernelFound nTxNewTime with
  | nil => exact ⟨nTxNewTime, rfl⟩
  | cons turn turns ih =>
    obtain ⟨goesOn, goOn⟩ := forall_mem_cons.mp exhausted.goesOn
    obtain ⟨barren, allBarren⟩ := forall_mem_cons.mp exhausted.barren
    rw [search, goesOn, Bool.not_true, if_neg Bool.false_ne_true]
    cases spent : turn.isSpent with
    | true =>
      rw [if_pos rfl, lastAnswer_of_spent spent]
      exact ih ⟨goOn, allBarren⟩ _ _
    | false =>
      rw [if_neg Bool.false_ne_true, lastAnswer_of_unspent spent]
      cases accepted : turn.accepted with
      | false =>
        exact ih ⟨goOn, allBarren⟩ _ _
      | true =>
        rw [Bool.not_true, if_neg Bool.false_ne_true, barren spent accepted]
        exact ih ⟨goOn, allBarren⟩ _ _

theorem Exhausted.cons {turn : StakeTurn} (all : call.Exhausted turns)
    (goesOn : turn.goesOn call.nHeight = true)
    (barren : turn.isSpent = false → turn.accepted = true → call.createTxOuts turn = none) :
    call.Exhausted (turn :: turns) :=
  ⟨forall_mem_cons.mpr ⟨goesOn, all.goesOn⟩, forall_mem_cons.mpr ⟨barren, all.barren⟩⟩

theorem exhausted_of_search {nTxNewTime time : Int}
    (searched : call.search fKernelFound nTxNewTime turns = some (flag, time, none)) :
    call.Exhausted turns ∧ lastAnswer fKernelFound turns = flag := by
  fun_induction call.search fKernelFound nTxNewTime turns with
  | case1 =>
    cases searched
    exact ⟨⟨by simp, by simp⟩, rfl⟩
  | case2 => cases searched
  | case3 fKernelFound nTxNewTime turn turns goesOn spent ih =>
    obtain ⟨all, answer⟩ := ih searched
    exact ⟨all.cons (by simpa using goesOn)
      (by simp [spent]), by rw [lastAnswer_of_spent spent, answer]⟩
  | case4 fKernelFound nTxNewTime turn turns goesOn fresh refused ih =>
    obtain ⟨all, answer⟩ := ih searched
    rw [Bool.not_eq_true] at fresh
    rw [Bool.not_eq_true'] at refused
    exact ⟨all.cons (by simpa using goesOn)
      (by simp [refused]), by rw [lastAnswer_of_unspent fresh, refused, answer]⟩
  | case5 fKernelFound nTxNewTime turn turns goesOn fresh accepted created ih =>
    obtain ⟨all, answer⟩ := ih searched
    rw [Bool.not_eq_true] at fresh
    exact ⟨all.cons (by simpa using goesOn) fun _ _ => created, by
      rw [lastAnswer_of_unspent fresh, show turn.accepted = true by simpa using accepted, answer]⟩
  | case6 => cases searched

theorem found_of_search {nTxNewTime time : Int} {turn : StakeTurn} {outs : List CTxOut}
    (searched : call.search fKernelFound nTxNewTime turns = some (flag, time, some (turn, outs))) :
    turn ∈ turns ∧ turn.accepted = true ∧ call.createTxOuts turn = some outs ∧ time = turn.nTime := by
  fun_induction call.search fKernelFound nTxNewTime turns with
  | case1 => cases searched
  | case2 => cases searched
  | case3 fKernelFound nTxNewTime first turns goesOn spent ih =>
    exact (ih searched).imp_left (mem_cons_of_mem _)
  | case4 fKernelFound nTxNewTime first turns goesOn fresh refused ih =>
    exact (ih searched).imp_left (mem_cons_of_mem _)
  | case5 fKernelFound nTxNewTime first turns goesOn fresh accepted created ih =>
    exact (ih searched).imp_left (mem_cons_of_mem _)
  | case6 fKernelFound nTxNewTime first turns goesOn fresh accepted outs created =>
    cases searched
    exact ⟨mem_cons_self, by simpa using accepted, created, rfl⟩

theorem total_setAmounts {count : Nat} {script : CScript} {nShare nRemaining : Int} (share : 0 ≤ nShare)
    (enough : nShare * count ≤ nRemaining) (small : nRemaining < 2 ^ 63) :
    total (setAmounts nShare nRemaining (List.replicate (count + 1) { nValue := 0, scriptPubKey := script })) =
      nRemaining := by
  induction count generalizing nRemaining with
  | zero =>
    simp only [setAmounts, List.replicate, total_cons, total_nil, zero_add, add_zero]
    exact wrap64_eq (by omega) small
  | succ count ih =>
    have product : nShare * ((count + 1 : Nat) : Int) = nShare * count + nShare := by
      rw [Nat.cast_succ, mul_add, mul_one]
    have others : 0 ≤ nShare * (count : Int) := Int.mul_nonneg share (Int.natCast_nonneg count)
    have exact : wrap64 (nRemaining - nShare) = nRemaining - nShare :=
      wrap64_eq (by omega) (by omega)
    rw [replicate_succ, replicate_succ, setAmounts, ← replicate_succ, total_cons, exact,
      ih (by omega) (by omega)]
    dsimp only
    omega

theorem total_shares {count : Nat} {script : CScript} {nCredit : Int} (low : 0 ≤ nCredit)
    (high : nCredit < 2 ^ 63) :
    total (setAmounts
      (nCredit.tdiv (List.replicate (count + 1)
        ({ nValue := 0, scriptPubKey := script } : CTxOut)).length) nCredit
      (List.replicate (count + 1) { nValue := 0, scriptPubKey := script })) = nCredit := by
  rw [length_replicate, tdiv_eq_ediv_of_nonneg low]
  have share : 0 ≤ nCredit / ((count + 1 : Nat) : Int) := ediv_nonneg low (natCast_nonneg _)
  have whole : nCredit / ((count + 1 : Nat) : Int) * ((count + 1 : Nat) : Int) ≤ nCredit :=
    Int.ediv_mul_le _ (by omega)
  refine total_setAmounts share ?_ high
  rw [Nat.cast_succ, mul_add, mul_one] at whole
  exact (le_add_of_nonneg_right share).trans whole

def InMoneyRange (call : StakeCall) : Prop :=
  call.state.env.params.nMaxMoneyOut < 2 ^ 62 ∧
    ∀ turn ∈ call.turns, turn.coin.out.nValue ≤ call.state.env.params.nMaxMoneyOut

theorem stakeCredit_eq (range : call.InMoneyRange) (member : turn ∈ call.turns) :
    stakeCredit call.state.env call.nHeight turn.coin =
        turn.coin.out.nValue + Env.getBlockValue call.state.env (call.nHeight + 1) ∧
      0 ≤ stakeCredit call.state.env call.nHeight turn.coin ∧
      stakeCredit call.state.env call.nHeight turn.coin < 2 ^ 63 := by
  have positive := turn.coin.positive
  have value := getBlockValue_bounds call.state.env (call.nHeight + 1)
  have subsidy := blockSubsidy_bounds (call.nHeight + 1)
  have most := range.2 turn member
  have limit := range.1
  have sum : stakeCredit call.state.env call.nHeight turn.coin = _ :=
    wrap64_eq (by omega) (by omega)
  rw [sum]
  exact ⟨rfl, by omega, by omega⟩

theorem real_of_found (range : call.InMoneyRange) (member : turn ∈ call.turns)
    (accepted : turn.accepted = true) (created : call.createTxOuts turn = some outs) :
    call.Real ⟨[turn.coin.outpoint], call.state.fillBlockPayee (call.stakeVout turn outs)
      (call.nHeight + 2) true⟩
      turn.nTime := by
  obtain ⟨credit, low, high⟩ := stakeCredit_eq range member
  obtain ⟨taken, -, filled, -⟩ :=
    fillBlockPayee_created call.state created (call.nHeight + 2) (by omega)
  obtain ⟨script, -, rfl⟩ := Option.map_eq_some_iff.mp created
  obtain ⟨count, counted⟩ :=
    stakeOutputs_pos turn.wallet (stakeCredit call.state.env call.nHeight turn.coin)
  refine ⟨⟨turn, member, accepted, rfl, rfl, _, rfl, ?_⟩, ?_, ?_⟩
  · rw [counted, total_cons, total_shares low high, credit]
    exact zero_add _
  · dsimp only
    rw [stakeVout, filled]
    rfl
  · dsimp only
    rw [stakeVout, filled, length_cons, length_append, length_singleton]
    omega

/-- Every coin gets its turn, none of them can be staked, and the kernel of the last one that is not
spent was accepted. -/
def Stranded (call : StakeCall) :
    Prop := call.Exhausted call.turns ∧ lastAnswer false call.turns = true

/-- What `CreateCoinStake` returns is a real coinstake, unless the search ran through all coins
right after an accepted kernel. -/
theorem createCoinStake_real_iff (call : StakeCall) (range : call.InMoneyRange) :
    (∀ txNew nTxNewTime, call.createCoinStake = some (txNew, nTxNewTime) →
      call.Real txNew nTxNewTime) ↔
      ¬ call.Stranded := by
  constructor
  · rintro real ⟨exhausted, answer⟩
    obtain ⟨time, searched⟩ := search_exhausted exhausted false call.nTxNewTime
    have returned : call.createCoinStake = some (⟨[], [emptyOut]⟩, time) := by
      rw [createCoinStake, searched, answer]
    obtain ⟨turn, -, -, -, input, -⟩ := (real _ _ returned).kernel
    cases input
  · intro anchored txNew nTxNewTime returned
    unfold createCoinStake at returned
    split at returned
    case h_1 => cases returned
    case h_2 => cases returned
    case h_3 time searched => exact absurd (exhausted_of_search searched) anchored
    case h_4 time turn outs searched =>
      obtain ⟨member, accepted, created, rfl⟩ := found_of_search searched
      dsimp only at returned
      split at returned
      case isTrue => cases returned
      case isFalse =>
        split at returned
        case isFalse => cases returned
        case isTrue =>
          cases returned
          exact real_of_found range member accepted created

end StakeCall

/-! Coins of ten, with their private keys in the wallet or without. -/

namespace SampleSearch

def turn (known : Bool) : StakeTurn where
  coin := SampleVotes.coin
  wallet := { eagerWallet 1770000 with
    getKey := fun _ => if known then some (2 :: List.replicate 32 0) else none }
  nTime := 1700000000

def call (known : List Bool) : StakeCall where
  state := SampleStake.paying
  nHeight := 1770000
  nTxNewTime := 0
  turns := known.map turn
  signSignature _ _ := true

theorem range : (call known).InMoneyRange := by
  have limit : mainParams.nMaxMoneyOut < 2 ^ 62 := by decide
  refine ⟨limit, fun other member => ?_⟩
  obtain ⟨_, -, rfl⟩ := mem_map.mp member
  exact (by decide : (1000000000 : Int) ≤ mainParams.nMaxMoneyOut)

end SampleSearch

open SampleSearch in
/-- The search goes on from a coin without a key to the next one. -/
theorem createCoinStake_real_second :
    ∃ txNew time, (call [false, true]).createCoinStake = some (txNew, time) ∧
      (call [false, true]).Real txNew time := by
  obtain ⟨txNew, time, returned⟩ : ∃ txNew time,
    (call [false, true]).createCoinStake = some (txNew, time) :=
    ⟨_, _, rfl⟩
  refine ⟨txNew, time, returned,
    (StakeCall.createCoinStake_real_iff (call [false, true]) range).mpr ?_ _ _ returned⟩
  rintro ⟨exhausted, -⟩
  have none := exhausted.barren (turn true) (mem_map.mpr ⟨true, by decide, rfl⟩) rfl rfl
  cases none

open SampleSearch in
/-- Without the key of its only coin the wallet returns a transaction without inputs. -/
theorem createCoinStake_without_input :
    (call [false]).createCoinStake = some (⟨[], [emptyOut]⟩, 1700000000) ∧
        ¬ (call [false]).Real ⟨[], [emptyOut]⟩ 1700000000 := by
  refine ⟨rfl, fun real => ?_⟩
  obtain ⟨turn, -, -, -, input, -⟩ := real.kernel
  cases input

end Deviant.Wallet
