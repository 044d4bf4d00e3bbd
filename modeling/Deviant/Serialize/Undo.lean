import Deviant.Serialize.Compressor

namespace Deviant.Serialize

open Coins Consensus Data Primitives

/-! The records of coins on disk: `Coin` in the coins database, `CTxUndo` and `CBlockUndo` in the
undo files. -/

/-- `nHeight * 4`, two for a coinbase and one for a coinstake, in a `uint32_t`. -/
def coinCode (coin : Coin) : Nat :=
  (coin.nHeight * 4 + (if coin.fCoinBase then 2 else 0) + (if coin.fCoinStake then 1 else 0)) % 2 ^ 32

def codedCoin (code : Nat) (out : CTxOut) : Coin where
  nHeight := code / 4
  fCoinBase := decide (code / 2 % 2 = 1)
  fCoinStake := decide (code % 2 = 1)
  out := out

section

variable (curve : PubKeyCurve)

/-- `Serialize` starts with the assertion that the coin is not spent. -/
def writeCoin (coin : Coin) : Option Bytes :=
  if coin.isSpent then none else some (writeVarInt 32 (coinCode coin) ++ writeTxOut curve coin.out)

def readCoin : StreamReader Coin := do
  let code ← readVarInt 32
  let out ← readTxOut curve Coin.empty.out
  pure (codedCoin code out)

/-- Above height zero the record holds a zero byte, where older versions kept a transaction
version. -/
def writeTxInUndo (coin : Coin) : Bytes :=
  writeVarInt 32 (coinCode coin) ++
    ((if 0 < coin.nHeight then [0] else []) ++ writeTxOut curve coin.out)

def readVersionDummy (nHeight : Nat) : StreamReader Unit :=
  if 0 < nHeight then do
    let _ ← readVarInt 32
    pure ()
  else pure ()

def readTxInUndo : StreamReader Coin := do
  let nCode ← readVarInt 32
  readVersionDummy (nCode / 4)
  let out ← readTxOut curve Coin.empty.out
  pure (codedCoin nCode out)

/-- A default input takes 41 bytes: the outpoint, the empty script's size and the sequence
number. -/
def maxInputsPerBlock : Nat := 2500000 / 41

def writeTxUndo (txundo : CTxUndo) : Bytes :=
  writeCompactSize txundo.vprevout.length ++ txundo.vprevout.flatMap (writeTxInUndo curve)

def readTxUndo : StreamReader CTxUndo := do
  let count ← readCompactSize
  if maxInputsPerBlock < count then throw .tooManyInputUndoRecords
  else do
    let vprevout ← takeMany (readTxInUndo curve) count
    pure { vprevout := vprevout }

def writeBlockUndo (blockundo : CBlockUndo) : Bytes :=
  writeVector (writeTxUndo curve) blockundo.vtxundo

def readBlockUndo : StreamReader CBlockUndo := do
  let vtxundo ← readVector (readTxUndo curve)
  pure { vtxundo := vtxundo }

end

/-! A coin at a legal height is determined by its code and its output. -/

structure LegalCoin (coin : Coin) : Prop where
  height : coin.nHeight < 2 ^ 30
  out : LegalOut coin.out

theorem coinCode_lt : coinCode coin < 2 ^ 32 := Nat.mod_lt _ (by decide)

theorem codedCoin_coinCode (height : coin.nHeight < 2 ^ 30) :
    codedCoin (coinCode coin) coin.out = coin := by
  obtain ⟨fCoinBase, fCoinStake, out, nHeight⟩ := coin
  have bound : nHeight < 1073741824 := height
  cases fCoinBase <;> cases fCoinStake <;> simp [codedCoin, coinCode] <;> omega

theorem coinCode_height (height : coin.nHeight < 2 ^ 30) : coinCode coin / 4 = coin.nHeight :=
  congrArg Coin.nHeight (codedCoin_coinCode height)

theorem LegalCoin.unspent (legal : LegalCoin coin) : coin.isSpent = false := by
  have amount := legal.out.amount.1
  simp only [Coin.isSpent, CTxOut.isNull, beq_eq_false_iff_ne, ne_eq]
  omega

theorem reads_coin (inverts : curve.Inverts) (legal : LegalCoin coin) :
    Reads (readCoin curve) (writeVarInt 32 (coinCode coin) ++ writeTxOut curve coin.out) coin := by
  refine (reads_readVarInt (by decide) coinCode_lt).bind ((reads_readTxOut inverts legal.out).last ?_)
  rw [codedCoin_coinCode legal.height]
  exact Reads.pure

theorem reads_versionDummy :
    Reads (readVersionDummy nHeight) (if 0 < nHeight then [0] else []) () := by
  unfold readVersionDummy
  split
  · exact Reads.last (reads_readVarInt (show 0 < 32 by decide) (show 0 < 2 ^ 32 by decide)) Reads.pure
  · exact Reads.pure

theorem reads_txInUndo (inverts : curve.Inverts) (legal : LegalCoin coin) :
    Reads (readTxInUndo curve) (writeTxInUndo curve coin) coin := by
  refine (reads_readVarInt (by decide) coinCode_lt).bind ?_
  rw [coinCode_height legal.height]
  refine reads_versionDummy.bind ((reads_readTxOut inverts legal.out).last ?_)
  rw [codedCoin_coinCode legal.height]
  exact Reads.pure

/-- Undo data as `ConnectBlock` may write it. -/
structure LegalTxUndo (txundo : CTxUndo) : Prop where
  count : txundo.vprevout.length ≤ maxInputsPerBlock
  coins : ∀ coin ∈ txundo.vprevout, LegalCoin coin

theorem reads_txUndo (inverts : curve.Inverts) (legal : LegalTxUndo txundo) :
    Reads (readTxUndo curve) (writeTxUndo curve txundo) txundo := by
  have allowed : txundo.vprevout.length ≤ maxSize := le_trans legal.count (by decide)
  refine (reads_readCompactSize allowed).bind ?_
  rw [if_neg (Nat.not_lt.mpr legal.count)]
  have coins := reads_takeMany fun coin member => reads_txInUndo inverts (legal.coins coin member)
  exact coins.last Reads.pure

theorem reads_blockUndo (inverts : curve.Inverts) (count : blockundo.vtxundo.length ≤ maxSize)
    (legal : ∀ txundo ∈ blockundo.vtxundo, LegalTxUndo txundo) :
    Reads (readBlockUndo curve) (writeBlockUndo curve blockundo) blockundo := by
  have vector := reads_readVector count fun txundo member =>
    reads_txUndo inverts (legal txundo member)
  exact vector.last Reads.pure

/-- The codecs of coins and undo data lose nothing and read exactly what was written, whatever
follows it in the stream. -/
theorem coin_and_undo_codecs_lossless (curve : PubKeyCurve) (inverts : curve.Inverts) :
    (∀ coin : Coin, LegalCoin coin → ∃ bytes, writeCoin curve coin = some bytes ∧
      Reads (readCoin curve) bytes coin) ∧
    (∀ txundo : CTxUndo, LegalTxUndo txundo →
      Reads (readTxUndo curve) (writeTxUndo curve txundo) txundo) ∧
    (∀ blockundo : CBlockUndo, blockundo.vtxundo.length ≤ maxSize →
      (∀ txundo ∈ blockundo.vtxundo, LegalTxUndo txundo) →
      Reads (readBlockUndo curve) (writeBlockUndo curve blockundo) blockundo) := by
  refine ⟨fun coin legal => ?_, fun txundo legal => reads_txUndo inverts legal,
    fun blockundo count legal => reads_blockUndo inverts count legal⟩
  have written : writeCoin curve coin = some _ := if_neg (by simp [legal.unspent])
  exact ⟨_, written, reads_coin inverts legal⟩

/-- A curve on which the long form of a key is its first coordinate, zeros and the parity. -/
def sampleCurve : PubKeyCurve where
  isFullyValid pubkey :=
    (4 : UInt8) :: (pubkey.drop 1).take 32 ++
      (List.replicate 31 0 ++ [(pubkey[64]?.getD 0) &&& 0x01]) == pubkey
  decompress pubkey :=
    some ((4 : UInt8) :: pubkey.drop 1 ++ (List.replicate 31 0 ++ [(pubkey.head?.getD 0) &&& 0x01]))

theorem sampleCurve_inverts : sampleCurve.Inverts := by
  intro x y last sizeX sizeY valid
  have shape := beq_iff_eq.mp valid
  rw [longKey_last last sizeX sizeY, longKey_front _ sizeX] at shape
  rw [← shape]
  cases low_bit last with
  | inl even =>
    have parity : (0x02 : UInt8) &&& 0x01 = 0 := by decide
    simp [sampleCurve, even, parity]
  | inr odd =>
    have parity : (0x02 ||| 1 : UInt8) &&& 0x01 = 1 := by decide
    simp [sampleCurve, odd, parity]

def sampleCoin : Coin where
  fCoinStake := true
  nHeight := 7
  out :=
    { nValue := 5 * coinUnit
      scriptPubKey := [65] ++
      ((4 : UInt8) :: List.replicate 32 9 ++ (List.replicate 31 0 ++ [1])) ++ [opChecksig] }

theorem sampleCoin_legal : LegalCoin sampleCoin :=
  ⟨by decide, ⟨by decide, by decide, by decide⟩⟩

theorem coin_and_undo_codecs_sample :
    compress sampleCurve sampleCoin.out.scriptPubKey = some (5 :: List.replicate 32 9) ∧
    Reads (readTxUndo sampleCurve) (writeTxUndo sampleCurve ⟨[sampleCoin]⟩) ⟨[sampleCoin]⟩ := by
  have legal : LegalTxUndo ⟨[sampleCoin]⟩ := ⟨by decide, by simpa using sampleCoin_legal⟩
  exact ⟨by decide, (coin_and_undo_codecs_lossless sampleCurve sampleCurve_inverts).2.1 _ legal⟩

end Deviant.Serialize
