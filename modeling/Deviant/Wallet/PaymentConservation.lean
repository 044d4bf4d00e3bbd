import Deviant.Wallet.StakeOutputs

namespace Deviant.Wallet

open Consensus Int List Masternode Primitives Validation PaymentState

/-! What `CMasternodePayments::FillBlockPayee` does to the total of a coinstake.  The payment to the
masternode is taken from the outputs of the stake.  So is, late in the chain, the reward of the
developers, which no output pays. -/

theorem blockSubsidy_bounds (nHeight : Nat) :
    0 ≤ blockSubsidy nHeight ∧ blockSubsidy nHeight ≤ 2140000000000 := by
  unfold blockSubsidy coinUnit
  omega

theorem blockSubsidy_late (late : nHeight ≥ devRewardHeight) :
    blockSubsidy nHeight ≤ 1102800000 := by
  unfold devRewardHeight at late
  unfold blockSubsidy coinUnit
  omega

theorem getBlockValue_bounds (env : Env) (nHeight : Nat) :
    0 ≤ Env.getBlockValue env nHeight ∧ Env.getBlockValue env nHeight ≤ blockSubsidy nHeight := by
  have subsidy := blockSubsidy_bounds nHeight
  unfold Env.getBlockValue getBlockValue
  split
  · exact ⟨le_refl 0, subsidy.1⟩
  · exact ⟨subsidy.1, le_refl _⟩

theorem roundDouble_le (value : Nat) : roundDouble value ≤ value + value / 2 ^ 52 := by
  unfold roundDouble
  dsimp only
  have quotient := Nat.div_mul_le_self value (2 ^ (value.log2 + 1 - 53))
  split
  next up =>
    -- Rounding up adds one unit of the last place, and there are 2 ^ 52 of them in the number.
    have remains : 0 < value % 2 ^ (value.log2 + 1 - 53) := by omega
    have nonzero : value ≠ 0 := by
      rintro rfl
      exact absurd remains (Nat.lt_irrefl 0)
    have long : 53 ≤ value.log2 := by
      by_contra short
      rw [show value.log2 + 1 - 53 = 0 by omega, Nat.pow_zero, Nat.mod_one] at remains
      exact absurd remains (Nat.lt_irrefl 0)
    have unit : 2 ^ (value.log2 + 1 - 53) ≤ value / 2 ^ 52 := by
      rw [Nat.le_div_iff_mul_le (by decide), ← Nat.pow_add,
        show value.log2 + 1 - 53 + 52 = value.log2 by omega]
      exact Nat.log2_self_le nonzero
    rw [Nat.add_one_mul]
    omega
  · omega

theorem truncatedProduct_le (value : Nat) (below : mantissa ≤ 2 ^ 53 - 2) :
    truncatedProduct value mantissa ≤ value := by
  change roundDouble (value * mantissa) / 2 ^ 53 ≤ value
  have rounded := roundDouble_le (value * mantissa)
  have product := Nat.mul_le_mul_left value below
  omega

theorem getMasternodePayment_bounds (env : Env) (nHeight : Nat) :
    0 ≤ getMasternodePayment env nHeight ∧
      getMasternodePayment env nHeight ≤ Env.getBlockValue env nHeight := by
  have value := getBlockValue_bounds env nHeight
  have seven :=
    truncatedProduct_le (Env.getBlockValue env nHeight).toNat
    (show sevenTenths ≤ 2 ^ 53 - 2 by decide)
  have eight :=
    truncatedProduct_le (Env.getBlockValue env nHeight).toNat
    (show eightTenths ≤ 2 ^ 53 - 2 by decide)
  unfold getMasternodePayment
  dsimp only
  split
  · omega
  · split
    · omega
    · split
      · omega
      · split <;> omega

theorem getDevReward_bounds (env : Env) (late : nHeight ≥ devRewardHeight) :
    0 ≤ getDevReward env nHeight ∧ getDevReward env nHeight < 2 ^ 61 := by
  have value := getBlockValue_bounds env nHeight
  have subsidy := blockSubsidy_late late
  have inner := roundDouble_le ((Env.getBlockValue env nHeight).toNat * oneTenth)
  have outer :=
    roundDouble_le (roundDouble ((Env.getBlockValue env nHeight).toNat * oneTenth) * 100000000)
  unfold getDevReward
  dsimp only
  unfold oneTenth at *
  omega

theorem devShare_bounds (env : Env) (nHeight : Nat) :
    0 ≤ devShare env nHeight ∧ devShare env nHeight < 2 ^ 61 := by
  unfold devShare
  split
  next late => exact getDevReward_bounds env late
  · omega

theorem le_takeFrom (low : 0 ≤ amount) (fits : out.nValue < 2 ^ 63) :
    out.nValue - amount ≤ (takeFrom amount out).nValue := by
  change _ ≤ wrap64 (out.nValue - amount)
  have range := wrap64_bounds (out.nValue - amount)
  have residue := wrap64_emod (out.nValue - amount)
  omega

theorem takeFrom_exact (low : 0 ≤ amount) (fits : out.nValue < 2 ^ 63)
    (enough : amount ≤ out.nValue) : (takeFrom amount out).nValue = out.nValue - amount := by
  exact wrap64_eq (by omega) (by omega)

/-- The amounts that are taken from outputs, each from its own. -/
def takeEach (draws : List (Int × CTxOut)) :
    List CTxOut := draws.map fun draw => takeFrom draw.1 draw.2

theorem le_total_takeEach (low : ∀ draw ∈ draws, 0 ≤ draw.1)
    (fits : ∀ draw ∈ draws, draw.2.nValue < 2 ^ 63) :
    total (draws.map Prod.snd) - (draws.map Prod.fst).sum ≤ total (takeEach draws) := by
  induction draws with
  | nil => simp [takeEach]
  | cons draw draws ih =>
    rw [forall_mem_cons] at low fits
    have step := le_takeFrom low.1 fits.1
    have rest := ih low.2 fits.2
    rw [takeEach] at rest ⊢
    rw [map_cons, map_cons, map_cons, total_cons, total_cons, sum_cons]
    omega

theorem takeEach_exact_iff (low : ∀ draw ∈ draws, 0 ≤ draw.1)
    (fits : ∀ draw ∈ draws, draw.2.nValue < 2 ^ 63) :
    ((∀ out ∈ takeEach draws, 0 ≤ out.nValue) ∧
        total (takeEach draws) = total (draws.map Prod.snd) - (draws.map Prod.fst).sum) ↔
      ∀ draw ∈ draws, draw.1 ≤ draw.2.nValue := by
  induction draws with
  | nil => simp [takeEach]
  | cons draw draws ih =>
    rw [forall_mem_cons] at low fits ⊢
    have step := le_takeFrom low.1 fits.1
    have rest := le_total_takeEach low.2 fits.2
    rw [← ih low.2 fits.2]
    rw [takeEach] at rest ⊢
    simp only [map_cons, forall_mem_cons, total_cons, sum_cons]
    constructor
    · rintro ⟨⟨here, later⟩, exact⟩
      exact ⟨by omega, later, by rw [takeEach]; omega⟩
    · rintro ⟨enough, later, exact⟩
      have here := takeFrom_exact low.1 fits.1 enough
      rw [takeEach] at exact
      exact ⟨⟨by omega, later⟩, by omega⟩

theorem drawn_exact_iff (lowEach : 0 ≤ each) (lowRest : 0 ≤ rest)
    (fits : ∀ out ∈ init ++ [last], out.nValue < 2 ^ 63) :
    ((∀ out ∈ drawn each rest init last, 0 ≤ out.nValue) ∧
        total (drawn each rest init last) = total (init ++ [last]) - (each * init.length + rest)) ↔
      (∀ out ∈ init, each ≤ out.nValue) ∧ rest ≤ last.nValue := by
  have exactIff := @takeEach_exact_iff (init.map (each, ·) ++ [(rest, last)])
  simp only [forall_mem_append, forall_mem_map, forall_mem_singleton] at exactIff fits
  simpa [takeEach, drawn, Function.comp_def, mul_comm, or_imp, forall_and] using
    exactIff ⟨fun _ _ => lowEach, lowRest⟩ fits

theorem parts_bounds (low : 0 ≤ amount) (count : Nat) :
    0 ≤ amount.tdiv (count + 1 : Nat) ∧ 0 ≤ lastPart amount (count + 1) := by
  unfold lastPart
  rw [Nat.add_sub_cancel, tdiv_eq_ediv_of_nonneg low]
  have whole := mul_ediv_self_le (x := amount) (k := (count + 1 : Nat)) (by omega)
  have quotient : 0 ≤ amount / (count + 1 : Nat) := ediv_nonneg low (by omega)
  have spread : ((count + 1 : Nat) : Int) * (amount / (count + 1 : Nat)) =
      amount / (count + 1 : Nat) * count + amount / (count + 1 : Nat) := by
    rw [natCast_succ, mul_comm, mul_add, mul_one]
  exact ⟨quotient, by omega⟩

def Covers (stakes : List CTxOut) (amount : Int) : Prop :=
  (∀ out ∈ stakes.dropLast, amount.tdiv stakes.length ≤ out.nValue) ∧
    ∀ out ∈ stakes.getLast?, lastPart amount stakes.length ≤ out.nValue

section Conservation

variable (state : PaymentState) (vout : List CTxOut) (nHeight : Nat)

/-- The outputs that `FillBlockPayee` adds to a coinstake. -/
def added : List CTxOut := (state.fillMasternodePayee vout nHeight true).drop vout.length

def deducted :
    Int := total vout - total ((state.fillMasternodePayee vout nHeight true).take vout.length)

def masternodeShare : Int :=
  match masternodePayee state nHeight with
  | some _ => getMasternodePayment state.env nHeight
  | none => 0

/-- The payment is made out of the stake: no output is negative, the total is as before, the payee
gets the masternode payment, and whatever else is taken goes to the developers. -/
structure PaidFromStake : Prop where
  nonnegative : ∀ out ∈ state.fillMasternodePayee vout nHeight true, 0 ≤ out.nValue
  conserved : total (state.fillMasternodePayee vout nHeight true) = total vout
  payee : ∀ payee, masternodePayee state nHeight = some payee →
    total ((added state vout nHeight).filter fun out => out.scriptPubKey = payee) =
    getMasternodePayment state.env nHeight
  developers : deducted state vout nHeight ≠ masternodeShare state nHeight →
    { nValue := getDevReward state.env nHeight, scriptPubKey := state.devScript } ∈
    added state vout nHeight

/-- No output is negative before, and where a masternode is paid, the stake is not a zerocoin mint,
its outputs have the parts that are taken, and nothing is due to the developers. -/
def Payable : Prop :=
  (∀ out ∈ vout, 0 ≤ out.nValue) ∧ (nHeight ≠ 0 → (masternodePayee state nHeight).isSome = true →
      if (vout[1]?).any CTxOut.isZerocoinMint then getMasternodePayment state.env nHeight = 0
      else devShare state.env nHeight = 0 ∧ Covers vout.tail (getMasternodePayment state.env nHeight))

variable {state vout nHeight}

theorem paidFromStake_append
    (filled : state.fillMasternodePayee vout nHeight true = vout ++ extra) :
    PaidFromStake state vout nHeight ↔
      (∀ out ∈ vout, 0 ≤ out.nValue) ∧ (∀ out ∈ extra, 0 ≤ out.nValue) ∧ total extra = 0 ∧
        (∀ payee, masternodePayee state nHeight = some payee →
          total (extra.filter fun out => out.scriptPubKey = payee) =
          getMasternodePayment state.env nHeight) ∧
        (0 ≠ masternodeShare state nHeight →
          { nValue := getDevReward state.env nHeight,
            scriptPubKey := state.devScript } ∈ extra) := by
  have isAdded : added state vout nHeight = extra := by rw [added, filled, drop_left]
  have isDeducted : deducted state vout nHeight = 0 := by rw [deducted, filled, take_left, sub_self]
  constructor
  · rintro ⟨nonnegative, conserved, payee, developers⟩
    rw [filled, forall_mem_append] at nonnegative
    rw [filled, total_append] at conserved
    rw [isAdded] at payee developers
    rw [isDeducted] at developers
    exact ⟨nonnegative.1, nonnegative.2, by omega, payee, developers⟩
  · rintro ⟨before, after, nothing, payee, developers⟩
    constructor
    · rw [filled, forall_mem_append]
      exact ⟨before, after⟩
    · rw [filled, total_append, nothing, add_zero]
    · rw [isAdded]
      exact payee
    · rw [isAdded, isDeducted]
      exact developers

theorem eq_zero_of_wraps (low : 0 ≤ amount) (high : amount < 2 ^ 61)
    (same : Wraps value (value - amount)) : amount = 0 := by
  have first := wrap64_emod value
  have second := wrap64_emod (value - amount)
  rw [same] at first
  omega

def leftOver (paid share : Int) (init : List CTxOut) (last : CTxOut) : List CTxOut :=
  drawn (paid.tdiv (init.length + 1 : Nat) + share.tdiv (init.length + 1 : Nat))
    (lastPart paid (init.length + 1) + lastPart share (init.length + 1)) init last

/-- Only the payment is missing from the stake exactly if there is no share and the outputs have
their parts of the payment. -/
theorem leftOver_iff (lowPaid : 0 ≤ paid) (lowShare : 0 ≤ share) (highShare : share < 2 ^ 61)
    (fits : ∀ out ∈ init ++ [last], out.nValue < 2 ^ 63) :
    ((∀ out ∈ leftOver paid share init last, 0 ≤ out.nValue) ∧
        total (leftOver paid share init last) = total (init ++ [last]) - paid) ↔
      share = 0 ∧ Covers (init ++ [last]) paid := by
  have paidParts := parts_bounds lowPaid init.length
  have paidSum := parts_sum paid init.length
  have shareSum := parts_sum share init.length
  have noShare : share = 0 → leftOver paid share init last =
      drawn (paid.tdiv (init.length + 1 : Nat)) (lastPart paid (init.length + 1)) init last := by
    rintro rfl
    simp [leftOver, lastPart]
  have covers : Covers (init ++ [last]) paid ↔
        (∀ out ∈ init, paid.tdiv (init.length + 1 : Nat) ≤ out.nValue) ∧
        lastPart paid (init.length + 1) ≤ last.nValue := by
    simp [Covers]
  have exactIff := drawn_exact_iff paidParts.1 paidParts.2 fits
  rw [paidSum] at exactIff
  rw [covers, ← exactIff]
  constructor
  · rintro ⟨nonnegative, exact⟩
    have wraps := wraps_drawn (paid.tdiv (init.length + 1 : Nat) + share.tdiv (init.length + 1 : Nat))
      (lastPart paid (init.length + 1) + lastPart share (init.length + 1)) init last
    rw [← leftOver, exact, add_mul] at wraps
    have nothing : share = 0 := by
      apply eq_zero_of_wraps lowShare highShare (wraps.trans _)
      congr 1
      omega
    rw [noShare nothing] at nonnegative exact
    exact ⟨nothing, nonnegative, exact⟩
  · rintro ⟨nothing, left⟩
    rw [noShare nothing]
    exact left

theorem paidFromStake_drawn (found : masternodePayee state nHeight = some payee)
    (fits : ∀ out ∈ init ++ [last], out.nValue < 2 ^ 63)
    (filled : state.fillMasternodePayee (first :: (init ++ [last])) nHeight true =
      first :: (leftOver (getMasternodePayment state.env nHeight)
        (devShare state.env nHeight) init last ++
        [{ nValue := getMasternodePayment state.env nHeight, scriptPubKey := payee }])) :
    PaidFromStake state (first :: (init ++ [last])) nHeight ↔ 0 ≤ first.nValue ∧
      devShare state.env nHeight = 0 ∧
        Covers (init ++ [last]) (getMasternodePayment state.env nHeight) := by
  have pay := (getMasternodePayment_bounds state.env nHeight).1
  have dev := devShare_bounds state.env nHeight
  rw [← leftOver_iff pay dev.1 dev.2 fits]
  have share : masternodeShare state nHeight = getMasternodePayment state.env nHeight := by
    rw [masternodeShare, found]
  generalize leftover :
    leftOver (getMasternodePayment state.env nHeight) (devShare state.env nHeight) init last = left
    at filled
  have length : left.length = (init ++ [last]).length := by simp [← leftover, leftOver, drawn]
  have isAdded : added state (first :: (init ++ [last])) nHeight =
      [{ nValue := getMasternodePayment state.env nHeight, scriptPubKey := payee }] := by
    rw [added, filled, length_cons, drop_succ_cons, ← length, drop_left]
  have isDeducted : deducted state (first :: (init ++ [last])) nHeight = total (init ++ [last]) -
      total left := by
    rw [deducted, filled, length_cons, take_succ_cons, ← length, take_left, total_cons, total_cons]
    omega
  constructor
  · rintro ⟨nonnegative, conserved, -, -⟩
    rw [filled] at nonnegative conserved
    simp only [forall_mem_cons, forall_mem_append] at nonnegative
    rw [total_cons, total_cons, total_append, total_cons, total_nil] at conserved
    dsimp only at conserved
    exact ⟨nonnegative.1, nonnegative.2.1, by omega⟩
  · rintro ⟨firstLeft, nonnegative, exact⟩
    constructor
    case nonnegative =>
      rw [filled]
      simp only [forall_mem_cons, forall_mem_append]
      exact ⟨firstLeft, nonnegative, pay, by simp⟩
    case conserved =>
      rw [filled, total_cons, total_cons, total_append, total_cons, total_nil]
      dsimp only
      omega
    case payee =>
      intro other alsoFound
      obtain rfl : payee = other := Option.some.inj (found.symm.trans alsoFound)
      simp [isAdded]
    case developers =>
      intro more
      omega

theorem Covers.nonnegative (low : 0 ≤ amount) (covers : Covers stakes amount) :
    ∀ out ∈ stakes, 0 ≤ out.nValue := by
  rcases eq_nil_or_concat stakes with rfl | ⟨init, last, rfl⟩
  · simp
  · have parts := parts_bounds low init.length
    simp only [Covers, concat_eq_append, dropLast_concat, List.getLast?_concat, length_append,
      length_singleton, Option.mem_def, Option.some.injEq, forall_eq'] at covers
    intro out member
    rw [concat_eq_append] at member
    rcases mem_append.mp member with before | atEnd
    · exact parts.1.trans (covers.1 out before)
    · rw [mem_singleton.mp atEnd]
      exact parts.2.trans covers.2

theorem getMasternodePayment_zero (env : Env) : getMasternodePayment env 0 = 0 := by
  unfold getMasternodePayment
  dsimp only
  split
  · rfl
  · exact if_pos (by decide)

section Filled

variable {first second : CTxOut} {others : List CTxOut} {payee : CScript}

theorem fillMasternodePayee_mint (later : nHeight ≠ 0)
    (found : masternodePayee state nHeight = some payee) (mint : second.isZerocoinMint = true) :
    state.fillMasternodePayee (first :: second :: others) nHeight true =
      (first :: second :: others) ++
      [{ nValue := getMasternodePayment state.env nHeight, scriptPubKey := payee }] := by
  rw [masternodePayee] at found
  unfold fillMasternodePayee subtractFromStake
  rw [if_neg later, found]
  exact if_pos mint

theorem fillMasternodePayee_leftOver {init : List CTxOut} {last : CTxOut} (later : nHeight ≠ 0)
    (found : masternodePayee state nHeight = some payee) (notMint : second.isZerocoinMint = false)
    (stakes : second :: others = init ++ [last]) :
    state.fillMasternodePayee (first :: (init ++ [last])) nHeight true =
      first :: (leftOver (getMasternodePayment state.env nHeight)
        (devShare state.env nHeight) init last ++
        [{ nValue := getMasternodePayment state.env nHeight, scriptPubKey := payee }]) := by
  have stillNotMint : ((first :: (init ++ [last] ++
      [{ nValue := getMasternodePayment state.env nHeight, scriptPubKey := payee }]))[1]?).any
        CTxOut.isZerocoinMint = false := by
    rw [← stakes]
    exact notMint
  have drawnFrom :=
    subtractFromStake_drawn state.env rfl nHeight (getMasternodePayment state.env nHeight)
    stillNotMint
  rw [masternodePayee] at found
  unfold fillMasternodePayee
  rw [if_neg later, found]
  dsimp only
  rw [if_pos rfl, length_cons, length_append, length_singleton, cons_append]
  exact drawnFrom

end Filled

/-- The payment is made out of the stake exactly where the coinstake can bear it and nothing is due
to the developers. -/
theorem paidFromStake_iff (state : PaymentState) (coinstake : CTransaction) (nHeight : Nat)
    (isStake : coinstake.isCoinStake = true)
    (amounts : ∀ out ∈ coinstake.vout, wrap64 out.nValue = out.nValue) :
    PaidFromStake state coinstake.vout nHeight ↔ Payable state coinstake.vout nHeight := by
  obtain ⟨first, second, others, shape, -⟩ := Script.CTransaction.vout_of_isCoinStake isStake
  rw [shape] at amounts ⊢
  have fits : ∀ out ∈ second :: others, out.nValue < 2 ^ 63 := by
    intro out member
    rw [← amounts out (mem_cons_of_mem first member)]
    exact (wrap64_bounds out.nValue).2
  have mint : ((first :: second :: others)[1]?).any CTxOut.isZerocoinMint = second.isZerocoinMint :=
    rfl
  unfold Payable
  rw [mint, tail_cons]
  by_cases atGenesis : nHeight = 0
  · subst atGenesis
    have filled :
        state.fillMasternodePayee (first :: second :: others) 0 true =
        (first :: second :: others) ++ [] := by
      rw [fillMasternodePayee, if_pos rfl, append_nil]
    have share : masternodeShare state 0 = 0 := by
      unfold masternodeShare
      rw [getMasternodePayment_zero]
      split <;> rfl
    rw [paidFromStake_append filled, share, getMasternodePayment_zero]
    simp
  · cases found : masternodePayee state nHeight with
    | none =>
      rw [paidFromStake_append (fillMasternodePayee_unpaid atGenesis found), masternodeShare, found]
      simp
    | some payee =>
      rw [imp_iff_right atGenesis, imp_iff_right (show (some payee).isSome = true from rfl)]
      cases kind : second.isZerocoinMint with
      | true =>
        rw [paidFromStake_append (fillMasternodePayee_mint atGenesis found kind), masternodeShare,
          found, if_pos rfl]
        constructor
        · rintro ⟨before, -, nothing, -, -⟩
          exact ⟨before, by simpa using nothing⟩
        · rintro ⟨before, nothing⟩
          refine ⟨before, ?_⟩
          simp [nothing]
      | false =>
        obtain ⟨init, last, stakes⟩ : ∃ init last, second :: others = init ++ [last] := by
          rcases eq_nil_or_concat (second :: others) with nil | ⟨init, last, stakes⟩
          · cases nil
          · exact ⟨init, last, by rw [stakes, concat_eq_append]⟩
        have filled := @fillMasternodePayee_leftOver _ _ first _ _ _ _ _ atGenesis found kind stakes
        rw [stakes] at fits ⊢
        rw [paidFromStake_drawn found fits filled, if_neg Bool.false_ne_true, forall_mem_cons]
        constructor
        · rintro ⟨firstLeft, nothing, covers⟩
          exact ⟨⟨firstLeft, covers.nonnegative (getMasternodePayment_bounds state.env nHeight).1⟩,
            nothing, covers⟩
        · rintro ⟨⟨firstLeft, -⟩, nothing, covers⟩
          exact ⟨firstLeft, nothing, covers⟩

end Conservation

/-! A node that knows one masternode, and a stake of ten coins. -/

namespace SampleStake

def paying : PaymentState where
  env := Env.trusting mainParams
  budgets := ⟨[], 0, by decide⟩
  mapMasternodeBlocks := ∅
  currentMasterNode := some [1]
  devScript := [2]
  history := ∅
  chainContains _ := false
  spork8MasternodePaymentEnforcement := true
  spork9MasternodeBudgetEnforcement := true
  unused := ⟨0, rfl⟩
  synced := rfl
  keyed _ _ found := by cases found
  amounts _ := rfl

def coinstake : CTransaction where
  hash := 2
  nVersion := 1
  vin := [⟨⟨1, 0⟩, [], 0⟩]
  vout := [emptyOut, { nValue := 1000000000, scriptPubKey := [3] },
    { nValue := 1000000001, scriptPubKey := [3] }]

theorem payable_early : Payable paying coinstake.vout 1770000 := by
  refine ⟨by decide, fun _ _ => ?_⟩
  exact ⟨by decide, by decide, by simp; decide⟩

end SampleStake

open SampleStake in
theorem paidFromStake_iff_early : PaidFromStake paying coinstake.vout 1770000 :=
  (paidFromStake_iff paying coinstake 1770000 (by decide) (by decide)).mpr payable_early

open SampleStake in
/-- At a late height the reward of the developers is taken from the stake, which it exceeds, and
goes nowhere. -/
theorem developers_reward_lost :
        coinstake.isCoinStake = true ∧ paying.fillMasternodePayee coinstake.vout 1900000 true =
          [emptyOut, { nValue := -4521999316540000, scriptPubKey := [3] },
            { nValue := -4521999316539999, scriptPubKey := [3] },
          { nValue := 633080000, scriptPubKey := [1] }] ∧
      ¬ PaidFromStake paying coinstake.vout 1900000 := by
  have filled : paying.fillMasternodePayee coinstake.vout 1900000 true =
        [emptyOut, { nValue := -4521999316540000, scriptPubKey := [3] },
          { nValue := -4521999316539999, scriptPubKey := [3] },
          { nValue := 633080000, scriptPubKey := [1] }] := by
    decide
  refine ⟨by decide, filled, ?_⟩
  intro paid
  have conserved := paid.conserved
  exact absurd conserved (by decide)

end Deviant.Wallet
