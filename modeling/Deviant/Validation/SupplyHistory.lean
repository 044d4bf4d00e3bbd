import Deviant.Validation.ConnectBlock

namespace Deviant.Validation

open Consensus Primitives

/-! The money supply that rewards are computed with is a counter in memory, which some flushes and
every start of the program refresh. Two nodes with one chain may have different counters. -/

inductive FlushMode where
  | none
  | ifNeeded
  | periodic
  | always
deriving DecidableEq

/-- A call of `FlushStateToDisk` that succeeds: what it finds of the cache, the clock and the
node. -/
structure FlushCall where
  mode : FlushMode
  cacheLarge : Bool := false
  cacheCritical : Bool := false
  longAgo : Bool := false
  shutdownRequested : Bool := false
  /-- What `IsInitialBlockDownload` finds if its latch is open. -/
  behind : Bool := false
deriving DecidableEq

def FlushCall.fDoFullFlush (call : FlushCall) : Bool :=
  call.mode == .always || (call.mode == .periodic && call.cacheLarge) ||
    (call.mode == .ifNeeded && call.cacheCritical) || (call.mode == .periodic && call.longAgo)

/-- A node with its active chain, the chain whose coins are on disk, and the counter. -/
structure SupplyNode (Chain : Type) where
  chain : Chain
  disk : Chain
  moneySupply : Int := 0
  latchToFalse : Bool := false
deriving DecidableEq

inductive SupplyEvent (Chain : Type) where
  | activate (chain : Chain)
  | flush (call : FlushCall)
  | askDownload (behind : Bool)
  | restart (chain : Chain)
deriving DecidableEq

section History

variable {Chain : Type} (totalAmount : Chain → Int)

namespace SupplyNode

/-- A program that starts counts the coins on disk, after it has activated a chain. -/
def start (disk chain : Chain) : SupplyNode Chain :=
  { chain := chain, disk := disk, moneySupply := totalAmount disk }

variable (node : SupplyNode Chain)

def isInitialBlockDownload (behind : Bool) : Bool := !node.latchToFalse && behind

def asked (behind : Bool) : SupplyNode Chain :=
  { node with latchToFalse := node.latchToFalse || !behind }

def flushStateToDisk (call : FlushCall) : SupplyNode Chain :=
  if !call.fDoFullFlush then node
  else if call.shutdownRequested then { node with disk := node.chain }
  else if node.isInitialBlockDownload call.behind
    then { node.asked call.behind with disk := node.chain }
  else { node.asked call.behind with disk := node.chain, moneySupply := totalAmount node.chain }

/-- The chain that was counted last. -/
def counted (last : Chain) : SupplyEvent Chain → Chain
  | .flush call =>
    if call.fDoFullFlush && !call.shutdownRequested && !node.isInitialBlockDownload call.behind
      then node.chain else last
  | .restart _ => node.disk
  | _ => last

def step (node : SupplyNode Chain) : SupplyEvent Chain → SupplyNode Chain
  | .activate chain => { node with chain := chain }
  | .flush call => node.flushStateToDisk totalAmount call
  | .askDownload behind => node.asked behind
  | .restart chain => start totalAmount node.disk chain

end SupplyNode

/-- The node after a history that began with an empty database. -/
def supplyAfter (empty : Chain) (history : List (SupplyEvent Chain)) : SupplyNode Chain :=
  history.foldl (SupplyNode.step totalAmount) (.start totalAmount empty empty)

def countedAfter (empty : Chain) (history : List (SupplyEvent Chain)) : Chain :=
  (history.foldl (fun state event => (state.1.step totalAmount event, state.1.counted state.2 event))
    (SupplyNode.start totalAmount empty empty, empty)).2

theorem moneySupply_step {node : SupplyNode Chain} (counter : node.moneySupply = totalAmount last)
    (event : SupplyEvent Chain) :
    (node.step totalAmount event).moneySupply = totalAmount (node.counted last event) := by
  cases event with
  | flush call =>
    unfold SupplyNode.step SupplyNode.flushStateToDisk SupplyNode.counted SupplyNode.asked
    grind
  | restart chain => rfl
  | activate chain => exact counter
  | askDownload behind => exact counter

/-- The counter is the total of the chain that was counted last. -/
theorem moneySupply_supplyAfter (empty : Chain) (history : List (SupplyEvent Chain)) :
    (supplyAfter totalAmount empty history).moneySupply =
      totalAmount (countedAfter totalAmount empty history) := by
  suffices counter : ∀ (node : SupplyNode Chain) last, node.moneySupply = totalAmount last →
      (history.foldl (SupplyNode.step totalAmount) node).moneySupply =
      totalAmount (history.foldl _ (node, last)).2 from
    counter _ empty rfl
  induction history with
  | nil => exact fun _ _ counter => counter
  | cons event rest ih => exact fun node last counter => ih _ _ (moneySupply_step totalAmount counter event)

end History

/-- The surroundings of a node: what its chain, its sporks and its masternode data give, with its
own counter. -/
def withSupply (env : Env) (supply : Int) :
    Env := { env with node := { env.node with moneySupply := supply } }

/-! Only `GetBlockValue` reads the counter. -/

section Supply

variable (env : Env) (supply : Int)

-- Neither recursion reads the counter, so that both sides unfold to the same one.
theorem connectTx_withSupply : connectTx (withSupply env supply) = connectTx env := by
  have sigOps : p2shSigOps (withSupply env supply) = p2shSigOps env := by
    delta p2shSigOps
    rfl
  have scripts : checkScripts (withSupply env supply) = checkScripts env := by
    delta checkScripts
    rfl
  have zerocoins : connectZerocoinInputs (withSupply env supply) = connectZerocoinInputs env := by
    delta connectZerocoinInputs
    rfl
  have coins : addCoinsFrom (withSupply env supply) = addCoinsFrom env := by
    delta addCoinsFrom
    rfl
  funext block pindex pprev isFirst tx totals
  simp only [connectTx, connectZerocoinSpends, zerocoins, connectSpends, sigOps, connectValues,
    checkInputs, scripts, updateCoins, addCoins, coins]
  rfl

theorem connectTxs_withSupply : connectTxs (withSupply env supply) block pindex pprev isFirst txs totals =
      connectTxs env block pindex pprev isFirst txs totals := by
  induction txs generalizing isFirst totals with
  | nil => rfl
  | cons tx rest ih => simp [connectTxs, connectTx_withSupply, ih]

variable {env supply} (same : Env.getBlockValue (withSupply env supply) = Env.getBlockValue env)

include same

theorem checkBlock_withSupply : checkBlock (withSupply env supply) = checkBlock env := by
  have transactions :
      checkBlockTransactions (withSupply env supply) = checkBlockTransactions env := by
    delta checkBlockTransactions
    rfl
  funext block fCheckPOW fCheckMerkleRoot fCheckSig
  simp only [checkBlock, same, transactions]
  rfl

theorem connectBlock_withSupply [PedersenHash] :
    connectBlock (withSupply env supply) block pindex pprev fJustCheck =
      connectBlock env block pindex pprev fJustCheck := by
  have totals (totals : BlockTotals) :
      checkTotals (withSupply env supply) block pindex totals = checkTotals env block pindex totals := by
    simp only [checkTotals, isBlockValueValid, budgetAllowance, nExpectedMint, same]
    rfl
  simp only [connectBlock, checkBlock_withSupply same, connectBlockBody, connectTxs_withSupply,
    totals]
  rfl

end Supply

theorem blockSubsidy_pos (nHeight : Nat) : 0 < blockSubsidy nHeight := by
  unfold blockSubsidy coinUnit
  omega

/-- No subsidy takes one supply to the maximum and not the other. -/
def SameHeadroom (params : Params) (supply₁ supply₂ : Int) : Prop :=
  ∀ nHeight, params.nMaxMoneyOut ≤ wrap64 (supply₁ + blockSubsidy nHeight) ↔
    params.nMaxMoneyOut ≤ wrap64 (supply₂ + blockSubsidy nHeight)

theorem getBlockValue_same_iff :
    getBlockValue params supply₁ = getBlockValue params supply₂ ↔
      SameHeadroom params supply₁ supply₂ := by
  rw [funext_iff]
  refine forall_congr' fun nHeight => ?_
  have positive := blockSubsidy_pos nHeight
  unfold getBlockValue
  split <;> split <;> rename_i first second <;> simp only [first, second] <;> simp <;> omega

/-- The surroundings of a node with the chain and what comes with it, its own counter and its own
latch. -/
def nodeEnv {Chain : Type} (env : Chain → Env) (behind : Bool) (node : SupplyNode Chain) : Env :=
  withSupply { env node.chain with
    node := { (env node.chain).node
      with isInitialBlockDownload := node.isInitialBlockDownload behind } } node.moneySupply

/-- The same rewards, and the same outcome of `ConnectBlock` on every view. -/
def NodesAgree [PedersenHash] (env₁ env₂ : Env) : Prop :=
  (∀ nHeight, Env.getBlockValue env₁ nHeight = Env.getBlockValue env₂ nHeight) ∧
      ∀ block pindex pprev fJustCheck,
      connectBlock env₁ block pindex pprev fJustCheck =
      connectBlock env₂ block pindex pprev fJustCheck

/-- Nodes with one chain follow the same rules if no subsidy tells the totals apart that they
counted last and both or none of them are still downloading; and only if no subsidy does. -/
theorem nodesAgree_of_sameHeadroom [PedersenHash] {Chain : Type} (totalAmount : Chain → Int)
    (empty : Chain) (env : Chain → Env) (behind : Bool)
    (history₁ history₂ : List (SupplyEvent Chain))
    (same : (supplyAfter totalAmount empty history₁).chain =
      (supplyAfter totalAmount empty history₂).chain) :
    let node₁ := supplyAfter totalAmount empty history₁
    let node₂ := supplyAfter totalAmount empty history₂
    let headroom :=
      SameHeadroom (env node₁.chain).params (totalAmount (countedAfter totalAmount empty history₁))
      (totalAmount (countedAfter totalAmount empty history₂))
    (headroom ∧ node₁.isInitialBlockDownload behind = node₂.isInitialBlockDownload behind →
      NodesAgree (nodeEnv env behind node₁) (nodeEnv env behind node₂)) ∧
      (NodesAgree (nodeEnv env behind node₁) (nodeEnv env behind node₂) → headroom) := by
  intro node₁ node₂ headroom
  have counters :
      headroom = SameHeadroom (env node₁.chain).params node₁.moneySupply node₂.moneySupply := by
    rw [moneySupply_supplyAfter, moneySupply_supplyAfter]
  rw [counters]
  refine ⟨fun ⟨side, download⟩ => ?_, fun rules => ?_⟩
  · have values := getBlockValue_same_iff.mpr side
    have other :
        nodeEnv env behind node₂ = withSupply (nodeEnv env behind node₁) node₂.moneySupply := by
      rw [nodeEnv, nodeEnv, ← download, ← same]
      rfl
    have rewards : Env.getBlockValue (withSupply (nodeEnv env behind node₁) node₂.moneySupply) =
        Env.getBlockValue (nodeEnv env behind node₁) := funext fun nHeight =>
        (congrFun values nHeight).symm
    rw [other]
    exact ⟨fun nHeight => (congrFun rewards nHeight).symm, fun block pindex pprev fJustCheck =>
      (connectBlock_withSupply rewards).symm⟩
  · rw [← getBlockValue_same_iff]
    funext nHeight
    have reward := rules.1 nHeight
    rw [Env.getBlockValue, Env.getBlockValue, nodeEnv, nodeEnv, ← same] at reward
    exact reward

/-! A chain with all the coins there can be, flushed once by a node that has caught up, and once
during the download. -/

def fullFlush (behind : Bool) : SupplyEvent Int := .flush { mode := .always, behind := behind }

def sampleNodeEnv (history : List (SupplyEvent Int)) : Env :=
  nodeEnv (fun _ => Env.trusting mainParams) false (supplyAfter id 0 history)

local instance treeLengthHash : PedersenHash := ⟨fun tree => BitVec.ofNat 256 (tree.length + 1)⟩

theorem nodesAgree_two_flushes : NodesAgree (sampleNodeEnv [.activate 5, fullFlush false])
      (sampleNodeEnv [.activate 5, .flush { mode := .periodic, longAgo := true }]) :=
  (nodesAgree_of_sameHeadroom id 0 (fun _ => Env.trusting mainParams) false [.activate 5,
    fullFlush false]
    [.activate 5, .flush { mode := .periodic, longAgo := true }] rfl).1 ⟨fun _ => Iff.rfl, rfl⟩

theorem reward_differs_after_download :
        (supplyAfter id 0 [.activate mainParams.nMaxMoneyOut, fullFlush false]).chain =
          (supplyAfter id 0 [.activate mainParams.nMaxMoneyOut, fullFlush true,
            .askDownload false]).chain ∧
      Env.getBlockValue (sampleNodeEnv [.activate mainParams.nMaxMoneyOut, fullFlush false])
      2000000 = 0 ∧
      Env.getBlockValue (sampleNodeEnv [.activate mainParams.nMaxMoneyOut, fullFlush true,
        .askDownload false]) 2000000 =
        904400000 := by
  decide

end Deviant.Validation
