import Deviant.Budget.FinalizedBudget

namespace Deviant.Budget

open List Option Primitives CFinalizedBudget

/-! What the payment history knows while checks and changes of the active chain go on.

The history is one map for all budgets.  It notes the first block that is checked for a proposal,
whatever becomes of that block, and drops what is not in the window of the budget at hand. -/

/-- What the hash of a block stands for: its height and the transaction with the payments. -/
structure CheckedBlock where
  nHeight : Int
  txNew : CTransaction

/-- The hashes of the active chain, and the history. -/
structure PaymentNode where
  chain : List Uint256
  history : PaymentHistory := ∅
  /-- The blocks of the chain that the history cannot name any more: those that were there at the
  start, and those that a check found outside its window. -/
  forgotten : List Uint256 := chain

inductive PaymentEvent where
  | check (budget : CFinalizedBudget) (hash : Uint256)
  | activate (chain : List Uint256)

section

variable (blocks : Uint256 → CheckedBlock)

abbrev Contains (payment : CTxBudgetPayment) (hash : Uint256) : Prop :=
  findPayment payment (blocks hash).txNew.vout = true

namespace PaymentNode

variable (node : PaymentNode) (budget : CFinalizedBudget) (hash : Uint256)

def due : Option CTxBudgetPayment := budget.getBudgetPaymentByBlock (blocks hash).nHeight

def isTransactionValid : TrxValidationStatus × PaymentHistory :=
  budget.isTransactionValid (fun other => decide (other ∈ node.chain)) node.history
    (blocks hash).txNew hash (blocks hash).nHeight

def step : PaymentEvent → PaymentNode
  | .check budget hash =>
    { node with
      history := (node.isTransactionValid blocks budget hash).2
      forgotten := if (due blocks budget hash).isNone then node.forgotten else
        node.forgotten ++ node.chain.filter fun other =>
          !decide (budget.InWindow (blocks other).nHeight) }
  | .activate chain => { node with chain, forgotten := node.forgotten.filter (· ∈ chain) }

/-- The other blocks of the active chain in the window that contain a payment. -/
abbrev PaidElsewhere (payment : CTxBudgetPayment) (other : Uint256) : Prop :=
  other ∈ node.chain ∧ other ≠ hash ∧ budget.InWindow (blocks other).nHeight ∧
    Contains blocks payment other

variable (terms : Uint256 → CTxBudgetPayment)

/-- What a check of a block for a payment needs: the terms of a proposal are the same in all
budgets, the block has the payment if the check is about to note it, and no block of the chain in
the window with the payment is one that the history cannot name. -/
structure Checkable (payment : CTxBudgetPayment) : Prop where
  agreed : payment = terms payment.nProposalHash
  noted : budget.recordedPayment node.history payment.nProposalHash = none →
    Contains blocks payment hash
  known : ∀ other ∈ node.forgotten, other ∈ node.chain → budget.InWindow (blocks other).nHeight →
    ¬ Contains blocks payment other

/-- A block with a payment joins the chain only while it is the one that is noted. -/
def Allows : PaymentEvent → Prop
  | .check budget hash => ∀ payment ∈ due blocks budget hash,
    node.Checkable blocks budget hash terms payment
  | .activate chain => ∀ hash ∈ chain, hash ∉ node.chain → ∀ nProposalHash,
      Contains blocks (terms nProposalHash) hash →
        node.history.lookup nProposalHash = some (hash, (blocks hash).nHeight)

inductive Reachable : PaymentNode → Prop
  | start (chain : List Uint256) : Reachable { chain }
  | step {node : PaymentNode} {event : PaymentEvent} (before : Reachable node)
      (allowed : node.Allows blocks terms event) :
      Reachable (node.step blocks event)

/-- The noted blocks have paid, and those of the chain that have are noted, as far as they are not
forgotten. -/
structure Noted : Prop where
  sound : ∀ nProposalHash paid, node.history.lookup nProposalHash = some paid →
    Contains blocks (terms nProposalHash) paid.1 ∧ paid.2 = (blocks paid.1).nHeight
  complete : ∀ hash ∈ node.chain, ∀ nProposalHash, Contains blocks (terms nProposalHash) hash →
    hash ∈ node.forgotten ∨ node.history.lookup nProposalHash = some (hash, (blocks hash).nHeight)

variable {blocks node budget hash terms}

theorem recordedPayment_eq_some {payments : PaymentHistory} :
    budget.recordedPayment payments nProposalHash = some paid ↔
      payments.lookup nProposalHash = some paid ∧ budget.InWindow paid.2 := by
  rw [recordedPayment, Option.filter_eq_some_iff, decide_eq_true_eq]

theorem isTransactionValid_of_due (found : due blocks budget hash = some payment) :
    node.isTransactionValid blocks budget hash =
      let paidAlready :=
      budget.isPaidAlready (fun other => decide (other ∈ node.chain)) node.history
        payment.nProposalHash hash (blocks hash).nHeight
      (if paidAlready.1 then .doublePayment
        else if findPayment payment (blocks hash).txNew.vout then .valid else .inValid,
        paidAlready.2) := by
  unfold due at found
  rw [isTransactionValid, isTransactionValid_eq, found]

theorem Noted.check (noted : node.Noted blocks terms)
    (allowed : node.Allows blocks terms (.check budget hash)) :
    (node.step blocks (.check budget hash)).Noted blocks terms := by
  cases found : due blocks budget hash with
  | none =>
    have same : node.step blocks (.check budget hash) = node := by
      rw [step, isTransactionValid, isTransactionValid_eq, ← due, found]
      rfl
    rwa [same]
  | some payment =>
    obtain ⟨agreed, pays, -⟩ := allowed payment found
    have history : (node.step blocks (.check budget hash)).history = _ :=
      congrArg Prod.snd (isTransactionValid_of_due found)
    have forgotten : (node.step blocks (.check budget hash)).forgotten = node.forgotten ++
        node.chain.filter fun other => !decide (budget.InWindow (blocks other).nHeight) := by
      rw [step, found]
      rfl
    constructor
    · intro nProposalHash paid recorded
      rw [history, lookup_isPaidAlready, Option.or_eq_some_iff] at recorded
      rcases recorded with old | ⟨unrecorded, new⟩
      · exact noted.sound nProposalHash paid (recordedPayment_eq_some.mp old).1
      · split at new
        next same =>
          cases new
          rw [same] at unrecorded ⊢
          exact ⟨agreed ▸ pays unrecorded, rfl⟩
        · cases new
    · intro other onChain nProposalHash contains
      rw [forgotten, mem_append, history, lookup_isPaidAlready]
      rcases noted.complete other onChain nProposalHash contains with gone | recorded
      · exact .inl (.inl gone)
      · by_cases inside : budget.InWindow (blocks other).nHeight
        · have kept := recordedPayment_eq_some.mpr ⟨recorded, inside⟩
          exact .inr (by rw [kept, Option.some_or])
        · exact .inl (.inr (mem_filter.mpr ⟨onChain, by rw [decide_eq_false inside]; rfl⟩))

theorem Noted.activate {hashes : List Uint256} (noted : node.Noted blocks terms)
    (allowed : node.Allows blocks terms (.activate hashes)) :
    (node.step blocks (.activate hashes)).Noted blocks terms := by
  refine ⟨noted.sound, fun other onChain nProposalHash contains => ?_⟩
  by_cases before : other ∈ node.chain
  · refine (noted.complete other before nProposalHash contains).imp_left fun gone => ?_
    exact mem_filter.mpr ⟨gone, decide_eq_true onChain⟩
  · exact .inr (allowed other onChain before nProposalHash contains)

theorem noted_of_reachable (reachable : Reachable blocks terms node) : node.Noted blocks terms := by
  induction reachable with
  | start chain =>
    constructor
    · exact fun _ _ found => nomatch found
    · exact fun _ onChain _ _ => .inl onChain
  | @step _ event _ allowed noted =>
    cases event with
    | check budget hash => exact noted.check allowed
    | activate chain => exact noted.activate allowed

/-- In every run whose steps are allowed, a check reports a double payment exactly when there is
one. -/
theorem doublePayment_exact (blocks : Uint256 → CheckedBlock) (terms : Uint256 → CTxBudgetPayment)
    (node : PaymentNode) (reachable : Reachable blocks terms node) (budget : CFinalizedBudget)
    (hash : Uint256) (payment : CTxBudgetPayment) (found : due blocks budget hash = some payment)
    (allowed : node.Allows blocks terms (.check budget hash)) :
    (node.isTransactionValid blocks budget hash).1 = .doublePayment ↔
      ∃ other, node.PaidElsewhere blocks budget hash payment other := by
  have noted := noted_of_reachable reachable
  obtain ⟨agreed, -, known⟩ := allowed payment found
  have answer : (node.isTransactionValid blocks budget hash).1 = .doublePayment ↔ _ :=
    Iff.trans (by rw [isTransactionValid_of_due found]; dsimp only; split <;> grind)
      (isPaidAlready_eq budget (fun other => decide (other ∈ node.chain))
        node.history payment.nProposalHash hash (blocks hash).nHeight)
  rw [answer]
  constructor
  · rintro ⟨paid, recorded, different, onChain⟩
    obtain ⟨listed, inside⟩ := recordedPayment_eq_some.mp recorded
    obtain ⟨contains, height⟩ := noted.sound _ paid listed
    exact ⟨paid.1, of_decide_eq_true onChain, different.symm, height ▸ inside, agreed ▸ contains⟩
  · rintro ⟨other, onChain, different, inside, contains⟩
    rcases noted.complete other onChain payment.nProposalHash (agreed ▸ contains) with gone | recorded
    · exact absurd contains (known other gone onChain inside)
    · exact ⟨(other, _), recordedPayment_eq_some.mpr ⟨recorded, inside⟩, different.symm,
        decide_eq_true onChain⟩

end PaymentNode

end

/-! Budgets with the same proposals in another order, one of them with a longer window. -/

namespace SamplePayments

open PaymentNode

def proposal : CTxBudgetPayment := ⟨1, [1], 5⟩

def otherProposal : CTxBudgetPayment := ⟨2, [2], 6⟩

def first : CFinalizedBudget :=
      { nBlockStart := 100, vecBudgetPayments := [proposal, otherProposal] }

def second :
    CFinalizedBudget :=
      { nBlockStart := 100, vecBudgetPayments := [otherProposal, proposal, ⟨3, [3], 7⟩] }

/-- Blocks 11 and 12 stand at height 100 and block 14 above them, all with the payment; block 13 has
none. -/
def blocks (hash : Uint256) : CheckedBlock where
  nHeight := if hash = 14 then 101 else 100
  txNew :=
    { hash := 50, nVersion := 1, vin := [],
      vout := if hash = 13 then [] else [{ nValue := 5, scriptPubKey := [1] }] }

def terms (nProposalHash : Uint256) : CTxBudgetPayment :=
  if nProposalHash = 1 then proposal else if nProposalHash = 2 then otherProposal
    else ⟨nProposalHash, [3], 7⟩

def run (events : List PaymentEvent) : PaymentNode := events.foldl (step blocks) { chain := [] }

end SamplePayments

open PaymentNode SamplePayments in
/-- The payment is noted with one budget and found again with the other. -/
theorem doublePayment_exact_reordered :
    Reachable blocks terms (run [.check first 11, .activate [11]]) ∧
      ((run [.check first 11, .activate [11]]).isTransactionValid blocks second 14).1 =
      .doublePayment := by
  have reachable : Reachable blocks terms (run [.check first 11, .activate [11]]) := by
    refine @Reachable.step _ _ _ (.activate [11])
      (@Reachable.step _ _ _ (.check first 11) (.start []) ?_) ?_
    · rintro payment ⟨⟩
      exact ⟨rfl, fun _ => by decide, nofun⟩
    · intro hash joined _ nProposalHash contains
      cases mem_singleton.mp joined
      have noted : nProposalHash = 1 := by
        by_contra other
        unfold Contains terms at contains
        rw [if_neg other] at contains
        split at contains <;> exact Bool.false_ne_true contains
      rw [noted]
      rfl
  refine ⟨reachable, (doublePayment_exact blocks terms _ reachable second 14 proposal rfl ?_).mpr
    ⟨11, by decide⟩⟩
  rintro payment ⟨⟩
  exact ⟨rfl, nofun, nofun⟩

open PaymentNode SamplePayments in
/-- A block of a fork hides a payment that is on the chain, and a block without a payment stands for
one. -/
theorem doublePayment_missed_and_invented :
    (((run [.check first 12, .check first 11, .activate [11]]).isTransactionValid blocks second
      14).1 = .valid ∧
      PaidElsewhere blocks (run [.check first 12, .check first 11, .activate [11]])
      second 14 proposal 11) ∧
    ((run [.check first 13, .activate [13]]).isTransactionValid blocks second 14).1 =
      .doublePayment ∧
      ∀ other, ¬ PaidElsewhere blocks (run [.check first 13, .activate [13]])
      second 14 proposal other := by
  refine ⟨⟨by decide, by decide⟩, by decide, ?_⟩
  rintro other ⟨onChain, elsewhere⟩
  cases mem_singleton.mp onChain
  exact absurd elsewhere.2.2 (by decide)

end Deviant.Budget
