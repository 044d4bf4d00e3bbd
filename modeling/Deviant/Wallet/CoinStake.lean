import Deviant.Masternode.Payments

namespace Deviant.Wallet

open Consensus Masternode Primitives Script Validation

/-! `CreateCoinStake`: the search for a kernel among the coins of a wallet, and the outputs of the
coinstake that spends it. -/

/-- The types of scripts, as far as they can be told apart from multisig and nonstandard ones. -/
inductive TxnOutType where
  | scripthash
  | nullData
  | pubkey
  | pubkeyhash
  | coldstake
deriving DecidableEq

def validSize (vch : ValType) : Bool :=
  match vch with
  | [] => false
  | header :: _ =>
    if header = 2 ∨ header = 3 then vch.length == 33
    else if header = 4 ∨ header = 6 ∨ header = 7 then vch.length == 65
    else false

def matchPayToPubkey (script : CScript) : Option ValType :=
  if script.length = 65 + 2 ∧ script[0]? = some 65 ∧ script.getLast? = some opChecksig then
    let pubkey := (script.drop 1).take 65
    if validSize pubkey then some pubkey else none
  else if script.length = 33 + 2 ∧ script[0]? = some 33 ∧ script.getLast? = some opChecksig then
    let pubkey := (script.drop 1).take 33
    if validSize pubkey then some pubkey else none
  else none

def matchPayToPubkeyHash (script : CScript) : Option ValType :=
  if script.length = 25 ∧ script[0]? = some opDup ∧ script[1]? = some opHash160 ∧
      script[2]? = some 20 ∧ script[23]? = some opEqualverify ∧ script[24]? = some opChecksig then
    some ((script.drop 3).take 20)
  else none

/-- `Solver`: the type of a script and the first of the solutions. -/
def solver (isV6Active : Bool) (scriptPubKey : CScript) : Option (TxnOutType × ValType) :=
  if scriptPubKey.isEmpty then none
  else if CScript.isPayToScriptHash scriptPubKey then
    some (.scripthash, (scriptPubKey.drop 2).take 20)
  else if scriptPubKey.head? = some opReturn ∧ isPushOnly scriptPubKey.tail then some (.nullData, [])
  else
    match matchPayToPubkey scriptPubKey with
    | some pubkey => some (.pubkey, pubkey)
    | none =>
      match matchPayToPubkeyHash scriptPubKey with
      | some pubkeyhash => some (.pubkeyhash, pubkeyhash)
      | none =>
        if CScript.isPayToColdStaking isV6Active scriptPubKey then
          some (.coldstake, (scriptPubKey.drop 6).take 20)
        else none

/-- A coin that `StakeableCoins` found: it has a value and is not a zerocoin mint. -/
structure CStakeableOutput where
  outpoint : COutPoint
  out : CTxOut
  positive : 0 < out.nValue
  notMint : out.isZerocoinMint = false

/-- What `CreateCoinStake` asks of the wallet.  `stake` is the search for a kernel hash. -/
structure StakingWallet where
  lastBlockProcessedHeight : Nat
  isLocked : Bool
  shutdownRequested : Bool
  isSpent : COutPoint → Bool
  stake : COutPoint → Bool
  /-- The public key of the private key for a hash. -/
  getKey : ValType → Option ValType
  nStakeSplitThreshold : Int
  signSignature : COutPoint → List CTxOut → Bool

def maxStandardTxSize : Nat := 1000000

def stakeOutputs (wallet : StakingWallet) (nTotal : Int) : Nat :=
  if wallet.nStakeSplitThreshold > 0 then
    let nSplit := Int.bmod (nTotal.tdiv wallet.nStakeSplitThreshold) (2 ^ 32)
    if nSplit > 1 then (min nSplit (maxStandardTxSize >>> 11 : Nat)).toNat else 1
  else 1

def stakeScript (isV6Active : Bool) (wallet : StakingWallet) (scriptPubKeyKernel : CScript)
    (onlyP2PK : Bool) :
    Option CScript :=
  match solver isV6Active scriptPubKeyKernel with
  | some (.pubkey, _) => some scriptPubKeyKernel
  | some (.pubkeyhash, hash) =>
    match wallet.getKey hash with
    | none => none
    | some pubkey => if onlyP2PK then some (pushData pubkey ++ [opChecksig])
      else some scriptPubKeyKernel
  | some (.coldstake, hash) =>
    match wallet.getKey hash with
    | none => none
    | some _ => some scriptPubKeyKernel
  | _ => none

def createTxOuts (isV6Active : Bool) (wallet : StakingWallet) (coin : CStakeableOutput)
    (nTotal : Int) (onlyP2PK : Bool) : Option (List CTxOut) :=
  (stakeScript isV6Active wallet coin.out.scriptPubKey onlyP2PK).map fun scriptPubKey =>
    List.replicate (stakeOutputs wallet nTotal) { nValue := 0, scriptPubKey }

def emptyOut : CTxOut := { nValue := 0, scriptPubKey := [] }

def setAmounts (nShare : Int) : (nRemaining : Int) → List CTxOut → List CTxOut
  | _, [] => []
  | nRemaining, [last] => [{ last with nValue := wrap64 (last.nValue + nRemaining) }]
  | nRemaining, out :: next :: rest =>
    { out with nValue := nShare } :: setAmounts nShare (wrap64 (nRemaining - nShare)) (next :: rest)

def compactSize (n : Nat) :
    Nat := if n < 253 then 1 else if n ≤ 0xffff then 3 else if n ≤ 0xffffffff then 5 else 9

/-- The serialized size of a transaction of the current version with these outputs and no input
yet. -/
def coinStakeSize (vout : List CTxOut) : Nat :=
  2 + 2 + compactSize 0 + (compactSize vout.length + (vout.map fun out =>
      8 + compactSize out.scriptPubKey.length + out.scriptPubKey.length).sum) + 4

def defaultBlockMaxSize : Nat := 750000

/-- A coinstake with the coin that its input spends.  There is none when the loop ran through all
coins with a kernel that could not be staked. -/
structure CoinStake where
  kernel : Option CStakeableOutput
  vout : List CTxOut

/-- The loop over the coins: `none` when it gives up, otherwise whether a kernel was found, and the
coin and the outputs at which it stopped. -/
def kernelSearch (wallet : StakingWallet) (nHeight : Nat)
    (createOuts : CStakeableOutput → Option (List CTxOut)) :
    (fKernelFound : Bool) → List CStakeableOutput →
      Option (Bool × Option (CStakeableOutput × List CTxOut))
  | fKernelFound, [] => some (fKernelFound, none)
  | fKernelFound, coin :: coins =>
    if wallet.lastBlockProcessedHeight ≠ nHeight then none
    else if wallet.isLocked || wallet.shutdownRequested then none
    else if wallet.isSpent coin.outpoint then kernelSearch wallet nHeight createOuts fKernelFound coins
    else if !wallet.stake coin.outpoint then kernelSearch wallet nHeight createOuts false coins
    else
      match createOuts coin with
      | none => kernelSearch wallet nHeight createOuts true coins
      | some vout => some (true, some (coin, vout))

/-- What a kernel is credited with: its value and the block reward. -/
def stakeCredit (env : Env) (nHeight : Nat) (coin : CStakeableOutput) : Int :=
  wrap64 (coin.out.nValue + Env.getBlockValue env (nHeight + 1))

def createCoinStake (state : PaymentState) (wallet : StakingWallet) (nHeight : Nat)
    (availableCoins : List CStakeableOutput) : Option CoinStake :=
  -- P2PKH block signatures were not accepted before the v5 update
  let onlyP2PK := !state.env.params.networkUpgradeActive (nHeight + 1) .upgradeV5_0
  let createOuts := fun coin =>
    createTxOuts state.env.node.isV6Active wallet coin (stakeCredit state.env nHeight coin) onlyP2PK
  match kernelSearch wallet nHeight createOuts false availableCoins with
  | none => none
  | some (false, _) => none
  | some (true, none) => some { kernel := none, vout := [emptyOut] }
  | some (true, some (coin, outs)) =>
    let nCredit := stakeCredit state.env nHeight coin
    let vout := emptyOut :: setAmounts (nCredit.tdiv outs.length) nCredit outs
    if coinStakeSize vout ≥ defaultBlockMaxSize / 5 then none
    else
      let vout := state.fillBlockPayee vout (nHeight + 2) true
      if wallet.signSignature coin.outpoint vout then some { kernel := some coin, vout } else none

end Deviant.Wallet
