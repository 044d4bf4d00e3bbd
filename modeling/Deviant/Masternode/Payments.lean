import Deviant.Budget.BudgetManager
import Deviant.Validation.FreeOutput

namespace Deviant.Masternode

open Budget Consensus Data Primitives Validation

/-! Who is paid by a block besides its staker: the outputs that `FillBlockPayee` adds to a
coinstake, and what `IsBlockPayeeValid` asks of it. -/

/-- A natural number rounded to the 53 bits of a `double`, halves to even. -/
def roundDouble (value : Nat) : Nat :=
  let excess := value.log2 + 1 - 53
  let quotient := value / 2 ^ excess
  let remainder := value % 2 ^ excess
  let roundsUp := 2 ^ excess < 2 * remainder ∨ (2 ^ excess = 2 * remainder ∧ quotient % 2 = 1)
  (if roundsUp then quotient + 1 else quotient) * 2 ^ excess

/-- The literal `.1`, times `2 ^ 56`. -/
def oneTenth : Nat := 7205759403792794

/-- At heights below 501 the product does not fit an `int64_t` and the source's conversion is
undefined; the value here is the product. -/
def getDevReward (env : Env) (nHeight : Nat) : Int :=
  let nSubsidy := (Env.getBlockValue env nHeight).toNat
  (roundDouble (roundDouble (nSubsidy * oneTenth) * 100000000) / 2 ^ 56 : Nat)

example : roundDouble (roundDouble (904400000 * oneTenth) * 100000000) / 2 ^ 56 =
      9044000000000000 := by decide

structure CMasternodePayee where
  scriptPubKey : CScript
  nVotes : Int
deriving DecidableEq

structure CMasternodeBlockPayees where
  nBlockHeight : Nat
  vecPayments : List CMasternodePayee
deriving DecidableEq

def mnpaymentsSignaturesRequired : Int := 6

namespace CMasternodeBlockPayees

/-- One step of `GetPayee`, which holds the payee so far and its votes. -/
def higherVoted (best : Option CScript × Int) (payee : CMasternodePayee) : Option CScript × Int :=
  if payee.nVotes > best.2 then (some payee.scriptPubKey, payee.nVotes) else best

def getPayee (payees : CMasternodeBlockPayees) : Option CScript :=
  let best := payees.vecPayments.foldl higherVoted (none, -1)
  if best.2 > -1 then best.1 else none

def moreSignatures (nMaxSignatures : Int) (payee : CMasternodePayee) : Int :=
  if payee.nVotes ≥ nMaxSignatures ∧ payee.nVotes ≥ mnpaymentsSignaturesRequired then payee.nVotes
    else nMaxSignatures

def isTransactionValid (env : Env) (payees : CMasternodeBlockPayees) (txNew : CTransaction) :
    Bool :=
  let nMaxSignatures := payees.vecPayments.foldl moreSignatures 0
  if nMaxSignatures < mnpaymentsSignaturesRequired then true
  else
    let requiredMasternodePayment := getMasternodePayment env payees.nBlockHeight
    payees.vecPayments.any fun payee =>
      let found := txNew.vout.any fun out =>
        payee.scriptPubKey == out.scriptPubKey && out.nValue == requiredMasternodePayment
      decide (payee.nVotes ≥ mnpaymentsSignaturesRequired) && found

end CMasternodeBlockPayees

/-- What a synced node knows about payments.  The votes for a height are kept under that height, the
amounts that block values are checked with are those of the budgets, and the chain leaves hashes for
new blocks. -/
structure PaymentState where
  env : Env
  budgets : CBudgetManager
  mapMasternodeBlocks : Table Nat CMasternodeBlockPayees
  /-- The script of the collateral address of `GetCurrentMasterNode(1)`. -/
  currentMasterNode : Option CScript
  /-- The script of `DevAddress`. -/
  devScript : CScript
  history : PaymentHistory
  chainContains : Uint256 → Bool
  spork8MasternodePaymentEnforcement : Bool
  spork9MasternodeBudgetEnforcement : Bool
  unused : ∃ hash, chainContains hash = false
  synced : env.node.masternodeSynced = true
  keyed : ∀ nHeight payees, mapMasternodeBlocks.lookup nHeight = some payees →
    payees.nBlockHeight = nHeight
  amounts : ∀ nHeight :
    Nat, env.node.expectedPayeeAmount nHeight = budgets.getExpectedPayeeAmount nHeight

namespace PaymentState

variable (state : PaymentState)

/-- `SPORK_13_ENABLE_SUPERBLOCKS`. -/
def superblocks : Bool := state.env.node.spork13Superblocks

def getBlockPayee (nBlockHeight : Nat) : Option CScript :=
  (state.mapMasternodeBlocks.lookup nBlockHeight).bind CMasternodeBlockPayees.getPayee

end PaymentState

/-- What `vout.resize` fills up with. -/
def nullOut : CTxOut := { nValue := -1, scriptPubKey := [] }

/-- `out.nValue -= amount`. -/
def takeFrom (amount : Int) (out : CTxOut) :
    CTxOut := { out with nValue := wrap64 (out.nValue - amount) }

/-- Take an amount from the outputs at `1..outputs` in equal parts, and the last bit of dust from
the last one. -/
def takeSplit (amount : Int) (outputs : Nat) (vout : List CTxOut) : List CTxOut :=
  let split := amount.tdiv outputs
  let remainder := amount - split * outputs
  let vout := vout.take 1 ++ (((vout.drop 1).take outputs).map (takeFrom split) ++
    vout.drop (1 + outputs))
  vout.modify outputs (takeFrom remainder)

def devRewardHeight : Nat := 1774000

namespace PaymentState

variable (state : PaymentState)

/-- Subtract the masternode payment from the stake reward, which has `i - 1` outputs. -/
def subtractFromStake (nHeight : Nat) (i : Nat) (masternodePayment nDevFee : Int)
    (vout : List CTxOut) : List CTxOut :=
  if (vout[1]?).any CTxOut.isZerocoinMint then vout
  else if i = 2 then
    let vout := vout.modify (i - 1) (takeFrom masternodePayment)
    if nHeight ≥ devRewardHeight then vout.modify (i - 1) (takeFrom nDevFee) else vout
  else if i ≥ 3 then
    let vout := takeSplit masternodePayment (i - 1) vout
    if nHeight ≥ devRewardHeight then takeSplit nDevFee (i - 1) vout else vout
  else vout

def pushDevFee (nHeight : Nat) (vout : List CTxOut) : List CTxOut :=
  vout ++ [{ nValue := getDevReward state.env nHeight, scriptPubKey := state.devScript }]

section

variable (vout : List CTxOut) (nHeight : Nat) (fProofOfStake : Bool)

def fillMasternodePayee : List CTxOut :=
  if nHeight = 0 then vout
  else
    let nDevFee := getDevReward state.env nHeight
    match (state.getBlockPayee nHeight).or state.currentMasterNode with
    | some payee =>
      let masternodePayment := getMasternodePayment state.env nHeight
      let payment : CTxOut := { nValue := masternodePayment, scriptPubKey := payee }
      if fProofOfStake then
        subtractFromStake nHeight vout.length masternodePayment nDevFee (vout ++ [payment])
      else
        let reward := wrap64 (Env.getBlockValue state.env nHeight - masternodePayment)
        [{ vout.headD nullOut with nValue := reward }, payment]
    | none => (state.pushDevFee nHeight vout).modify vout.length (takeFrom nDevFee)

/-- `CBudgetManager::FillBlockPayee`; `none` when it fills nothing. -/
def fillBudgetPayee : Option (List CTxOut) :=
  if nHeight ≤ 0 then none
  else
    match state.budgets.getPayeeAndAmount nHeight with
    | none => none
    | some (payee, nAmount) =>
      let payment : CTxOut := { nValue := nAmount, scriptPubKey := payee }
      if fProofOfStake then some (vout ++ [payment])
      else
        let blockValue := Env.getBlockValue state.env nHeight
        some [{ vout.headD nullOut with nValue := blockValue }, payment]

def fillBlockPayee : List CTxOut :=
  if nHeight = 0 then vout
  else
    match if state.superblocks then state.fillBudgetPayee vout nHeight fProofOfStake else none with
    | some filled => filled
    | none => state.fillMasternodePayee vout nHeight fProofOfStake

end

def isMasternodePaymentValid (txNew : CTransaction) (nBlockHeight : Nat) : Bool :=
  match state.mapMasternodeBlocks.lookup nBlockHeight with
  | some payees => payees.isTransactionValid state.env txNew
  | none => true

def masternodePayeeValid (txNew : CTransaction) (nBlockHeight : Nat) : Bool :=
  if state.isMasternodePaymentValid txNew nBlockHeight then true
  else !state.spork8MasternodePaymentEnforcement

def isBlockPayeeValid (block : CBlock) (nBlockHeight : Nat) : Bool × PaymentHistory :=
  if !state.env.node.masternodeSynced then (true, state.history)
  else
    let isPoSActive := state.env.params.networkUpgradeActive nBlockHeight .upgradePOS
    match block.vtx[if isPoSActive then 1 else 0]? with
    | none => (false, state.history)
    | some txNew =>
      if state.superblocks && state.budgets.isBudgetPaymentBlock nBlockHeight then
        let checked :=
          state.budgets.isTransactionValid state.chainContains state.history txNew block.hash nBlockHeight
        match checked.1 with
        | .valid => (true, checked.2)
        | .inValid =>
          if state.spork9MasternodeBudgetEnforcement then (false, checked.2)
          else (state.masternodePayeeValid txNew nBlockHeight, checked.2)
        | _ => (state.masternodePayeeValid txNew nBlockHeight, checked.2)
      else (state.masternodePayeeValid txNew nBlockHeight, state.history)

end PaymentState

namespace CMasternodeBlockPayees

theorem foldl_moreSignatures_lt (payments : List CMasternodePayee) (start : Int) :
    payments.foldl moreSignatures start < mnpaymentsSignaturesRequired ↔
      start < mnpaymentsSignaturesRequired ∧ ∀ payee ∈ payments,
      payee.nVotes < mnpaymentsSignaturesRequired := by
  induction payments generalizing start with
  | nil => simp
  | cons first payments ih =>
    rw [List.foldl_cons, ih, List.forall_mem_cons, ← and_assoc]
    refine and_congr_left fun _ => ?_
    unfold moreSignatures
    split <;> omega

def Signed (payees : CMasternodeBlockPayees) (scriptPubKey : CScript) : Prop :=
  ∃ payee ∈ payees.vecPayments, payee.scriptPubKey = scriptPubKey ∧
    mnpaymentsSignaturesRequired ≤ payee.nVotes

theorem isTransactionValid_iff (payees : CMasternodeBlockPayees) :
    payees.isTransactionValid env txNew = true ↔ (∀ scriptPubKey, ¬ payees.Signed scriptPubKey) ∨
        ∃ out ∈ txNew.vout, payees.Signed out.scriptPubKey ∧
          out.nValue = getMasternodePayment env payees.nBlockHeight := by
  have few := foldl_moreSignatures_lt payees.vecPayments 0
  have unsigned : (∀ scriptPubKey, ¬ payees.Signed scriptPubKey) ↔
      ∀ payee ∈ payees.vecPayments, payee.nVotes < mnpaymentsSignaturesRequired := by
    constructor
    · intro none payee member
      by_contra many
      exact none payee.scriptPubKey ⟨payee, member, rfl, Int.not_lt.mp many⟩
    · rintro none scriptPubKey ⟨payee, member, -, many⟩
      have votes := none payee member
      omega
  unfold isTransactionValid
  dsimp only
  split
  next low => exact iff_of_true rfl (.inl (unsigned.mpr (few.mp low).2))
  next high =>
    have some : ¬ ∀ scriptPubKey, ¬ payees.Signed scriptPubKey := by
      rw [unsigned]
      exact fun low => high (few.mpr ⟨by decide, low⟩)
    simp only [some, false_or, List.any_eq_true, Bool.and_eq_true, decide_eq_true_eq, beq_iff_eq]
    constructor
    · rintro ⟨payee, member, votes, out, outMember, script, value⟩
      exact ⟨out, outMember, ⟨payee, member, script, votes⟩, value⟩
    · rintro ⟨out, outMember, ⟨payee, member, script, votes⟩, value⟩
      exact ⟨payee, member, votes, out, outMember, script, value⟩

end CMasternodeBlockPayees

namespace PaymentState

variable (state : PaymentState)

def SignedAt (nBlockHeight : Nat) (scriptPubKey : CScript) : Prop :=
  ∃ payees, state.mapMasternodeBlocks.lookup nBlockHeight = some payees ∧ payees.Signed scriptPubKey

def BudgetDue (nBlockHeight : Nat) : Prop :=
  state.superblocks = true ∧ state.budgets.isBudgetPaymentBlock nBlockHeight = true

instance (nBlockHeight : Nat) :
    Decidable (state.BudgetDue nBlockHeight) := inferInstanceAs (Decidable (_ ∧ _))

def BudgetWaived (nBlockHeight : Nat) : Prop :=
  ¬ state.BudgetDue nBlockHeight ∨ state.spork9MasternodeBudgetEnforcement = false

def Unenforced (nBlockHeight : Nat) : Prop :=
  state.BudgetWaived nBlockHeight ∧
    (state.spork8MasternodePaymentEnforcement = false ∨ ∀ scriptPubKey,
      ¬ state.SignedAt nBlockHeight scriptPubKey)

def Satisfies (nBlockHeight : Nat) (out : CTxOut) : Prop :=
  (state.BudgetDue nBlockHeight ∧
    state.budgets.Takes state.chainContains state.history nBlockHeight out) ∨
    (state.BudgetWaived nBlockHeight ∧ state.SignedAt nBlockHeight out.scriptPubKey ∧
      out.nValue = getMasternodePayment state.env nBlockHeight)

theorem masternodePayeeValid_iff (txNew : CTransaction) (nBlockHeight : Nat) :
    state.masternodePayeeValid txNew nBlockHeight = true ↔
      (state.spork8MasternodePaymentEnforcement = false ∨ ∀ scriptPubKey,
        ¬ state.SignedAt nBlockHeight scriptPubKey) ∨
        ∃ out ∈ txNew.vout, state.SignedAt nBlockHeight out.scriptPubKey ∧
          out.nValue = getMasternodePayment state.env nBlockHeight := by
  have valid : state.isMasternodePaymentValid txNew nBlockHeight = true ↔
      (∀ scriptPubKey, ¬ state.SignedAt nBlockHeight scriptPubKey) ∨
        ∃ out ∈ txNew.vout, state.SignedAt nBlockHeight out.scriptPubKey ∧
          out.nValue = getMasternodePayment state.env nBlockHeight := by
    unfold isMasternodePaymentValid SignedAt
    cases found : state.mapMasternodeBlocks.lookup nBlockHeight with
    | none => simp
    | some payees =>
      have height := state.keyed nBlockHeight payees found
      simp [CMasternodeBlockPayees.isTransactionValid_iff, height]
  unfold masternodePayeeValid
  split
  next paid => exact iff_of_true rfl ((valid.mp paid).imp_left .inr)
  next unpaid =>
    rw [Bool.not_eq_true']
    constructor
    · exact fun off => .inl (.inl off)
    · rintro ((off | none) | found)
      · exact off
      · exact absurd (valid.mpr (.inl none)) unpaid
      · exact absurd (valid.mpr (.inr found)) unpaid

/-- A block that is not on the chain yet is acceptable when nothing is asked of it, or when one of
the outputs of its coinstake is what is asked. -/
theorem isBlockPayeeValid_iff
    (active : state.env.params.networkUpgradeActive nBlockHeight .upgradePOS = true)
    (coinstake : block.vtx[1]? = some txNew) (fresh : state.chainContains block.hash = false) :
    (state.isBlockPayeeValid block nBlockHeight).1 = true ↔
      state.Unenforced nBlockHeight ∨ ∃ out ∈ txNew.vout, state.Satisfies nBlockHeight out := by
  have masternode := state.masternodePayeeValid_iff txNew nBlockHeight
  have waived : state.BudgetWaived nBlockHeight →
      (state.masternodePayeeValid txNew nBlockHeight = true ↔
      state.Unenforced nBlockHeight ∨ ∃ out ∈ txNew.vout,
        state.SignedAt nBlockHeight out.scriptPubKey ∧
        out.nValue = getMasternodePayment state.env nBlockHeight) := by
    intro waived
    simp [Unenforced, waived, masternode]
  unfold isBlockPayeeValid
  rw [state.synced, active, if_neg (by decide)]
  dsimp only
  rw [if_pos rfl, coinstake]
  dsimp only
  by_cases due : state.BudgetDue nBlockHeight
  · rw [if_pos (Bool.and_eq_true_iff.mpr due)]
    have valid :
        (state.budgets.isTransactionValid state.chainContains state.history txNew block.hash
          nBlockHeight).1 = .valid ↔ ∃ out ∈ txNew.vout,
        state.budgets.Takes state.chainContains state.history nBlockHeight out :=
      CBudgetManager.manager_isTransactionValid_eq_valid fresh due.2
    rcases CBudgetManager.isTransactionValid_valid_or_inValid due.2 with answer | answer
    · obtain ⟨out, member, takes⟩ := valid.mp answer
      rw [answer]
      exact iff_of_true rfl (.inr ⟨out, member, .inl ⟨due, takes⟩⟩)
    · have untaken : ∀ out ∈ txNew.vout,
          ¬ state.budgets.Takes state.chainContains state.history nBlockHeight out := by
        intro out member takes
        have other := valid.mpr ⟨out, member, takes⟩
        rw [answer] at other
        cases other
      rw [answer]
      cases enforced : state.spork9MasternodeBudgetEnforcement with
      | true =>
        have notWaived : ¬ state.BudgetWaived nBlockHeight := by
          rintro (undue | off)
          · exact undue due
          · rw [enforced] at off
            cases off
        refine iff_of_false Bool.false_ne_true ?_
        rintro (free | ⟨out, member, ⟨-, takes⟩ | ⟨may, -⟩⟩)
        · exact notWaived free.1
        · exact untaken out member takes
        · exact notWaived may
      | false =>
        have may : state.BudgetWaived nBlockHeight := .inr enforced
        refine (waived may).trans
          (or_congr_right (exists_congr fun out => and_congr_right fun member => ?_))
        simp [Satisfies, untaken out member, may]
  · rw [if_neg (mt Bool.and_eq_true_iff.mp due), waived (.inl due)]
    simp [Satisfies, due, BudgetWaived]

end PaymentState

end Deviant.Masternode
