import Mathlib.Data.BitVec

theorem Deviant.bind_eq_ok {ε α β : Type} {first : Except ε α} {rest : α → Except ε β} {value : β} :
    (first >>= rest) = .ok value ↔ ∃ middle, first = .ok middle ∧ rest middle = .ok value := by
  cases first with
  | error reason => simp [bind, Except.bind]
  | ok middle => simp [bind, Except.bind]

namespace Deviant.Primitives

/-! Transactions, their inputs and outputs, and the predicates the coins views
and block validation read off them. -/

abbrev Uint256 := BitVec 256

instance : LawfulBEq Uint256 := inferInstance

/-- One coin in base units.  An amount (`CAmount`) is an integer number of base units; the
program stores it in an `int64_t`, and where a sum can leave that range the modelled function
says so itself. -/
def coinUnit : Int := 100000000

/-- What an `int64_t` holds after an operation whose exact result is `value`. -/
def wrap64 (value : Int) : Int := Int.bmod value (2 ^ 64)

theorem wrap64_eq (low : -2 ^ 63 ≤ value) (high : value < 2 ^ 63) : wrap64 value = value := by
  unfold wrap64
  rw [Int.bmod_eq_of_le_mul_two] <;> omega

theorem wrap64_bounds (value : Int) : -2 ^ 63 ≤ wrap64 value ∧ wrap64 value < 2 ^ 63 := by
  have low : -(((2 ^ 64 : Nat) : Int) / 2) ≤ wrap64 value := Int.le_bmod (by decide)
  have high : wrap64 value < (((2 ^ 64 : Nat) : Int) + 1) / 2 := Int.bmod_lt (by decide)
  omega

theorem wrap64_emod (value : Int) : wrap64 value % 2 ^ 64 = value % 2 ^ 64 := Int.bmod_emod

@[simp] theorem wrap64_add_wrap64 (left right : Int) :
    wrap64 (left + wrap64 right) = wrap64 (left + right) := by
  simp [wrap64]

@[simp] theorem wrap64_wrap64_add (left right : Int) :
    wrap64 (wrap64 left + right) = wrap64 (left + right) := by
  simp [wrap64]

abbrev CScript := List UInt8

def opIf : UInt8 := 0x63
def opElse : UInt8 := 0x67
def opEndif : UInt8 := 0x68
def opReturn : UInt8 := 0x6a
def opDup : UInt8 := 0x76
def opRot : UInt8 := 0x7b
def opEqual : UInt8 := 0x87
def opEqualverify : UInt8 := 0x88
def opHash160 : UInt8 := 0xa9
def opChecksig : UInt8 := 0xac
def opZerocoinMint : UInt8 := 0xc1
def opZerocoinSpend : UInt8 := 0xc2
def opZerocoinPublicSpend : UInt8 := 0xc3
def opCheckcoldstakeverify : UInt8 := 0xd1
def maxScriptSize : Nat := 10000

namespace CScript

variable (script : CScript)

def startsWithOpcode (opcode : UInt8) : Bool := script.head? == some opcode

def isUnspendable : Bool :=
  startsWithOpcode script opReturn || decide (maxScriptSize < script.length)

def isZerocoinMint : Bool := startsWithOpcode script opZerocoinMint
def isZerocoinSpend : Bool := startsWithOpcode script opZerocoinSpend
def isZerocoinPublicSpend : Bool := startsWithOpcode script opZerocoinPublicSpend

def isPayToScriptHash : Bool :=
  script.length == 23 && script[0]? == some opHash160 && script[1]? == some 0x14 &&
    script[22]? == some opEqual

/-- The strict form is required once the `g_IsV6Active` switch is on. -/
def isPayToColdStaking (isV6Active : Bool) (script : CScript) : Bool :=
  script.length == 51 && (!isV6Active || script[0]? == some opDup) &&
    (!isV6Active || script[1]? == some opHash160) && script[2]? == some opRot &&
    (!isV6Active || script[3]? == some opIf) && script[4]? == some opCheckcoldstakeverify &&
    script[5]? == some 0x14 &&
    (!isV6Active || script[26]? == some opElse) &&
    script[27]? == some 0x14 &&
    (!isV6Active || script[48]? == some opEndif) &&
    script[49]? == some opEqualverify &&
    script[50]? == some opChecksig

end CScript

structure COutPoint where
  hash : Uint256
  n : Nat
deriving DecidableEq

def COutPoint.isNull (outpoint : COutPoint) : Bool :=
  outpoint.hash == 0 && outpoint.n == 2 ^ 32 - 1

structure CTxIn where
  prevout : COutPoint
  scriptSig : CScript
  nSequence : Nat
deriving DecidableEq

namespace CTxIn

def isZerocoinSpend (input : CTxIn) : Bool :=
  input.prevout.hash == 0 && CScript.isZerocoinSpend input.scriptSig

def isZerocoinPublicSpend (input : CTxIn) : Bool := CScript.isZerocoinPublicSpend input.scriptSig

end CTxIn

/-- The value `-10` of `nRounds` is the one every constructor of the source sets. -/
structure CTxOut where
  nValue : Int
  scriptPubKey : CScript
  nRounds : Int := -10
deriving DecidableEq

namespace CTxOut

def null : CTxOut := { nValue := -1, scriptPubKey := [] }

def isNull (out : CTxOut) : Bool := out.nValue == -1

def isEmpty (out : CTxOut) : Bool := out.nValue == 0 && out.scriptPubKey.isEmpty

def isZerocoinMint (out : CTxOut) : Bool := CScript.isZerocoinMint out.scriptPubKey

end CTxOut

structure SpendDescription where
  anchor : Uint256
  nullifier : Uint256
deriving DecidableEq

structure OutputDescription where
  cmu : Uint256
deriving DecidableEq

structure SaplingTxData where
  valueBalance : Int
  vShieldedSpend : List SpendDescription
  vShieldedOutput : List OutputDescription
  bindingSig : List UInt8
deriving DecidableEq

def SaplingTxData.hasBindingSig (data : SaplingTxData) : Bool := data.bindingSig.any (· != 0)

structure CTransaction where
  hash : Uint256
  nVersion : Int
  nType : Int := 0
  vin : List CTxIn
  vout : List CTxOut
  sapData : Option SaplingTxData := none
  extraPayload : Option (List UInt8) := none
deriving DecidableEq

namespace CTransaction

variable (tx : CTransaction)

def hasSaplingData : Bool :=
  match tx.sapData with
  | none => false
  | some data =>
    !data.vShieldedOutput.isEmpty || !data.vShieldedSpend.isEmpty || data.valueBalance != 0 ||
      data.hasBindingSig

def isSaplingVersion : Bool := decide (3 ≤ tx.nVersion)

def isShieldedTx : Bool := tx.isSaplingVersion && tx.hasSaplingData

def hasExtraPayload : Bool :=
  match tx.extraPayload with
  | none => false
  | some payload => !payload.isEmpty

def hasZerocoinSpendInputs : Bool :=
  tx.vin.any fun input => input.isZerocoinSpend || input.isZerocoinPublicSpend

def hasZerocoinPublicSpendInputs : Bool := tx.vin.any CTxIn.isZerocoinPublicSpend

def hasZerocoinMintOutputs : Bool := tx.vout.any CTxOut.isZerocoinMint

def containsZerocoins : Bool :=
  tx.hasZerocoinSpendInputs || tx.hasZerocoinMintOutputs

def isCoinBase : Bool :=
  match tx.vin with
  | [input] => input.prevout.isNull && !tx.containsZerocoins
  | _ => false

def isCoinStake : Bool :=
  match tx.vin, tx.vout with
  | input :: _, first :: _ :: _ =>
    !(input.prevout.isNull && !input.isZerocoinSpend) && first.isEmpty
  | _, _ => false

/-- The net value the transaction moves out of the Sapling pool, zero without Sapling data. -/
def valueBalance : Int :=
  match tx.sapData with
  | none => 0
  | some data => data.valueBalance

def shieldedSpends : List SpendDescription :=
  match tx.sapData with
  | none => []
  | some data => data.vShieldedSpend

def shieldedOutputs : List OutputDescription :=
  match tx.sapData with
  | none => []
  | some data => data.vShieldedOutput

end CTransaction

abbrev SaplingMerkleTree := List Uint256

/-- The Merkle hash of the Sapling library, taken as a whole: the root of a tree. -/
class PedersenHash where
  merkleRoot : SaplingMerkleTree → Uint256

namespace SaplingMerkleTree

def root [PedersenHash] (tree : SaplingMerkleTree) : Uint256 := PedersenHash.merkleRoot tree

def emptyRoot [PedersenHash] : Uint256 := root []

end SaplingMerkleTree

end Deviant.Primitives
