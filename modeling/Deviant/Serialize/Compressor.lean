import Deviant.Consensus.Params
import Deviant.Serialize.Serialize

namespace Deviant.Serialize

open Consensus Data List Option Primitives UInt8

/-! The compact form of a transaction output (`compressor.cpp`): amounts in a mixed radix, and six
special forms for the standard scripts. -/

/-- The two curve operations the compressor asks of a public key. -/
structure PubKeyCurve where
  isFullyValid : (pubkey : Bytes) → Bool
  decompress : (pubkey : Bytes) → Option Bytes

section

variable (curve : PubKeyCurve)

def PubKeyCurve.Inverts : Prop :=
  ∀ (x y : Bytes) (last : UInt8), x.length = 32 → y.length = 31 →
    curve.isFullyValid ((4 : UInt8) :: x ++ (y ++ [last])) = true →
    curve.decompress ((0x02 ||| (last &&& 0x01)) :: x) = some ((4 : UInt8) :: x ++ (y ++ [last]))

/-! Scripts. -/

def nSpecialScripts : Nat := 6

variable (script : CScript)

def isToKeyID : Option Bytes :=
  if script.length = 25 ∧ script[0]? = some opDup ∧ script[1]? = some opHash160 ∧
      script[2]? = some 20 ∧ script[23]? = some opEqualverify ∧ script[24]? = some opChecksig then
    some ((script.drop 3).take 20)
  else none

def isToScriptID : Option Bytes :=
  if script.length = 23 ∧ script[0]? = some opHash160 ∧ script[1]? = some 20 ∧
    script[22]? = some opEqual then
    some ((script.drop 2).take 20)
  else none

def isToPubKey : Option Bytes :=
  if script.length = 35 ∧ script[0]? = some 33 ∧ script[34]? = some opChecksig ∧
      (script[1]? = some 2 ∨ script[1]? = some 3) then
    some ((script.drop 1).take 33)
  else if script.length = 67 ∧ script[0]? = some 65 ∧ script[66]? = some opChecksig ∧
    script[1]? = some 4 then
    if curve.isFullyValid ((script.drop 1).take 65) then some ((script.drop 1).take 65) else none
  else none

def compressPubKey (pubkey : Bytes) : Option Bytes :=
  if pubkey[0]? = some 2 ∨ pubkey[0]? = some 3 then some (pubkey.take 33)
  else if pubkey[0]? = some 4
    then some ((0x04 ||| ((pubkey[64]?.getD 0) &&& 0x01)) :: (pubkey.drop 1).take 32)
  else none

def compress : Option Bytes :=
  match isToKeyID script with
  | some hash => some (0 :: hash)
  | none =>
    match isToScriptID script with
    | some hash => some (1 :: hash)
    | none => (isToPubKey curve script).bind compressPubKey

def getSpecialSize (nSize : Nat) : Nat :=
  if nSize = 0 ∨ nSize = 1 then 20
  else if nSize = 2 ∨ nSize = 3 ∨ nSize = 4 ∨ nSize = 5 then 32
  else 0

/-- The script after `Decompress`; it stays as it was when the key does not decompress. -/
def decompress (nSize : Nat) (input : Bytes) : CScript :=
  if nSize = 0 then [opDup, opHash160, 20] ++ input ++ [opEqualverify, opChecksig]
  else if nSize = 1 then [opHash160, 20] ++ input ++ [opEqual]
  else if nSize = 2 ∨ nSize = 3 then [33, ofNat nSize] ++ input ++ [opChecksig]
  else if nSize = 4 ∨ nSize = 5 then
    match curve.decompress (ofNat (nSize - 2) :: input) with
    | none => script
    | some pubkey => [65] ++ pubkey ++ [opChecksig]
  else script

def writeScript : Bytes :=
  match compress curve script with
  | some compr => compr
  | none => writeVarInt 32 (script.length + nSpecialScripts) ++ script

/-- Reads into `script`, as the source does. -/
def readScript : StreamReader CScript := do
  let nSize ← readVarInt 32
  if nSize < nSpecialScripts then
    let vch ← takeBytes .endOfData (getSpecialSize nSize)
    pure (decompress curve script nSize vch)
  else if maxScriptSize < nSize - nSpecialScripts then
    -- Overly long script, replaced with a short invalid one
    let _ ← takeBytes .endOfData (nSize - nSpecialScripts)
    pure (script ++ [opReturn])
  else takeBytes .endOfData (nSize - nSpecialScripts)

end

/-! Each special form determines its script. -/

variable {script : CScript}

theorem eq_framed :
    script = script.take before ++ (script.drop before).take middle ++
      script.drop (before + middle) := by
  rw [append_assoc, ← drop_drop, take_append_drop, take_append_drop]

theorem drop_last_two (size : script.length = n + 2) (first : script[n]? = some a)
    (second : script[n + 1]? = some b) : script.drop n = [a, b] := by
  rw [drop_eq_getElem?_toList_append, drop_eq_getElem?_toList_append, first, second,
    drop_eq_nil_of_le (by omega)]
  rfl

theorem drop_last_one (size : script.length = n + 1) (first : script[n]? = some a) :
    script.drop n = [a] := by
  rw [drop_eq_getElem?_toList_append, first, drop_eq_nil_of_le (by omega)]
  rfl

theorem isToKeyID_eq_some {hash : Bytes} (found : isToKeyID script = some hash) :
    hash.length = 20 ∧ script = [opDup, opHash160, 20] ++ hash ++ [opEqualverify, opChecksig] := by
  unfold isToKeyID at found
  split at found
  case isFalse => cases found
  case isTrue shape =>
    obtain ⟨size, dup, hash160, push, equalverify, checksig⟩ := shape
    obtain rfl := some.inj found
    have front : script.take 3 = [opDup, opHash160, 20] := by
      simp [take_add_one, dup, hash160, push]
    refine ⟨by simp [size], ?_⟩
    rw [← front, ← drop_last_two size equalverify checksig]
    exact eq_framed

theorem isToScriptID_eq_some {hash : Bytes} (found : isToScriptID script = some hash) :
    hash.length = 20 ∧ script = [opHash160, 20] ++ hash ++ [opEqual] := by
  unfold isToScriptID at found
  split at found
  case isFalse => cases found
  case isTrue shape =>
    obtain ⟨size, hash160, push, equal⟩ := shape
    obtain rfl := some.inj found
    have front : script.take 2 = [opHash160, 20] := by
      simp [take_add_one, hash160, push]
    refine ⟨by simp [size], ?_⟩
    rw [← front, ← drop_last_one size equal]
    exact eq_framed

/-- What `IsToPubKey` accepts: a short key behind its length, or a valid long one. -/
inductive PaysToPubKey (curve : PubKeyCurve) : (script : CScript) → (pubkey : Bytes) → Prop
  | short {parity : UInt8} {x : Bytes} (known : parity = 2 ∨ parity = 3) (size : x.length = 32) :
      PaysToPubKey curve ([33, parity] ++ x ++ [opChecksig]) (parity :: x)
  | long {x y : Bytes} {last : UInt8} (sizeX : x.length = 32) (sizeY : y.length = 31)
      (valid : curve.isFullyValid ((4 : UInt8) :: x ++ (y ++ [last])) = true) :
      PaysToPubKey curve ([65] ++ ((4 : UInt8) :: x ++ (y ++ [last])) ++ [opChecksig])
        ((4 : UInt8) :: x ++ (y ++ [last]))

theorem longKey_parts (size : pubkey.length = 65) (header : pubkey[0]? = some 4) :
    ∃ (x y : Bytes) (last : UInt8), x.length = 32 ∧ y.length = 31 ∧
      pubkey = (4 : UInt8) :: x ++ (y ++ [last]) := by
  cases pubkey with
  | nil => cases size
  | cons first tail =>
    obtain rfl : first = 4 := by simpa using header
    have tailSize : tail.length = 64 := by simpa using size
    have nonempty : tail.drop 32 ≠ [] := ne_nil_of_length_pos (by simp [tailSize])
    refine ⟨tail.take 32, (tail.drop 32).dropLast,
      (tail.drop 32).getLast nonempty, by simp [tailSize], by simp [tailSize], ?_⟩
    rw [dropLast_append_getLast nonempty, cons_append, take_append_drop]

theorem longKey_last (last : UInt8) (sizeX : x.length = 32) (sizeY : y.length = 31) :
    ((4 : UInt8) :: x ++ (y ++ [last]))[64]? = some last := by
  simp [sizeX, sizeY]

theorem longKey_front (rest : Bytes) (sizeX : x.length = 32) :
    (((4 : UInt8) :: x ++ rest).drop 1).take 32 = x := by
  simp [← sizeX]

theorem isToPubKey_eq_some {curve : PubKeyCurve} {pubkey : Bytes}
    (found : isToPubKey curve script = some pubkey) : PaysToPubKey curve script pubkey := by
  unfold isToPubKey at found
  split at found
  case isTrue shape =>
    obtain ⟨size, push, checksig, parity⟩ := shape
    obtain rfl := some.inj found
    obtain ⟨byte, known, second⟩ : ∃ byte : UInt8, (byte = 2 ∨ byte = 3) ∧
      script[1]? = some byte := by
      cases parity with
      | inl two => exact ⟨2, .inl rfl, two⟩
      | inr three => exact ⟨3, .inr rfl, three⟩
    have front : script.take 2 = [33, byte] := by
      simp [take_add_one, push, second]
    have whole : script = [33, byte] ++ (script.drop 2).take 32 ++ [opChecksig] := by
      rw [← front, ← drop_last_one size checksig]
      exact eq_framed
    have key : (script.drop 1).take 33 = byte :: (script.drop 2).take 32 := by
      rw [drop_eq_getElem?_toList_append, second]
      rfl
    rw [key]
    nth_rewrite 1 [whole]
    exact .short known (by simp [size])
  case isFalse =>
    split at found
    case isFalse => cases found
    case isTrue shape =>
      obtain ⟨size, push, checksig, header⟩ := shape
      split at found
      case isFalse => cases found
      case isTrue valid =>
        obtain rfl := some.inj found
        have front : script.take 1 = [65] := by
          simp [take_add_one, push]
        have whole : script = [65] ++ (script.drop 1).take 65 ++ [opChecksig] := by
          rw [← front, ← drop_last_one size checksig]
          exact eq_framed
        have keySize : ((script.drop 1).take 65).length = 65 := by simp [size]
        have keyHeader : ((script.drop 1).take 65)[0]? = some 4 := by simpa using header
        obtain ⟨x, y, last, sizeX, sizeY, parts⟩ := longKey_parts keySize keyHeader
        rw [parts] at whole valid ⊢
        rw [whole]
        exact .long sizeX sizeY valid

theorem low_bit (byte : UInt8) : byte &&& 0x01 = 0 ∨ byte &&& 0x01 = 1 := by
  have value : (byte &&& 0x01).toNat = byte.toNat % 2 := by simp
  cases Nat.mod_two_eq_zero_or_one byte.toNat with
  | inl even => exact .inl (UInt8.toNat_inj.mp (value.trans even))
  | inr odd => exact .inr (UInt8.toNat_inj.mp (value.trans odd))

/-- A special form is one byte below `nSpecialScripts` and the bytes `Decompress` rebuilds the
script from. -/
structure SpecialForm (curve : PubKeyCurve) (script : CScript) (nSize : Nat) (vch : Bytes) :
    Prop where
  special : nSize < nSpecialScripts
  size : vch.length = getSpecialSize nSize
  rebuilt : ∀ start, decompress curve start nSize vch = script

theorem PaysToPubKey.specialForm (inverts : curve.Inverts) (pays : PaysToPubKey curve script pubkey)
    (compressed : compressPubKey pubkey = some compr) :
    ∃ nSize vch, compr = ofNat nSize :: vch ∧ SpecialForm curve script nSize vch := by
  cases pays with
  | @short parity x known size =>
    have kept : compr = parity :: x := by
      have whole : (parity :: x).take 33 = parity :: x := take_of_length_le (by simp [size])
      have header : (parity :: x)[0]? = some 2 ∨ (parity :: x)[0]? = some 3 := by simpa using known
      rw [compressPubKey, if_pos header, whole] at compressed
      exact (some.inj compressed).symm
    cases known with
    | inl two => exact ⟨2, x, by rw [kept, two]; rfl, by decide, size, fun start => by rw [two]; rfl⟩
    | inr three =>
      exact ⟨3, x, by rw [kept, three]; rfl, by decide, size, fun start => by rw [three]; rfl⟩
  | @long x y last sizeX sizeY valid =>
    have kept : compr = (0x04 ||| (last &&& 0x01)) :: x := by
      rw [compressPubKey, if_neg (by simp), if_pos (by simp), longKey_last last sizeX sizeY,
        longKey_front _ sizeX] at compressed
      exact (some.inj compressed).symm
    have inverse := inverts x y last sizeX sizeY valid
    cases low_bit last with
    | inl even =>
      rw [even] at kept inverse
      have key : curve.decompress (2 :: x) = some _ := inverse
      exact ⟨4, x, kept, by decide, sizeX, fun start => by simp [decompress, key]⟩
    | inr odd =>
      rw [odd] at kept inverse
      have key : curve.decompress (3 :: x) = some _ := inverse
      exact ⟨5, x, kept, by decide, sizeX, fun start => by simp [decompress, key]⟩

theorem compress_eq_some {curve : PubKeyCurve} {compr : Bytes} (inverts : curve.Inverts)
    (compressed : compress curve script = some compr) :
    ∃ nSize vch, compr = ofNat nSize :: vch ∧ SpecialForm curve script nSize vch := by
  unfold compress at compressed
  cases keyID : isToKeyID script with
  | some hash =>
    simp only [keyID, some.injEq] at compressed
    obtain ⟨size, shape⟩ := isToKeyID_eq_some keyID
    exact ⟨0, hash, compressed.symm, by decide, size, fun start => shape.symm⟩
  | none =>
    cases scriptID : isToScriptID script with
    | some hash =>
      simp only [keyID, scriptID, some.injEq] at compressed
      obtain ⟨size, shape⟩ := isToScriptID_eq_some scriptID
      exact ⟨1, hash, compressed.symm, by decide, size, fun start => shape.symm⟩
    | none =>
      simp only [keyID, scriptID] at compressed
      obtain ⟨pubkey, found, kept⟩ := bind_eq_some_iff.mp compressed
      exact (isToPubKey_eq_some found).specialForm inverts kept

theorem reads_specialForm (form : SpecialForm curve script nSize vch) :
    Reads (readScript curve start) (ofNat nSize :: vch) script := by
  have small : nSize < 6 := form.special
  have byte : writeVarInt 32 nSize = [ofNat nSize] := by
    simp [writeVarInt, varIntDigits,
      show nSize ≤ 127 by omega, Nat.mod_eq_of_lt (show nSize < 128 by omega)]
  have first : Reads (readVarInt 32) [ofNat nSize] nSize := by
    rw [← byte]
    exact reads_readVarInt (by decide) (by omega)
  refine first.bind ?_
  rw [if_pos form.special, ← form.rebuilt start]
  exact (reads_takeBytes form.size).last Reads.pure

theorem reads_readScript (inverts : curve.Inverts) (legal : script.length ≤ maxScriptSize) :
    Reads (readScript curve start) (writeScript curve script) script := by
  unfold writeScript
  cases compressed : compress curve script with
  | some compr =>
    obtain ⟨nSize, vch, parts, form⟩ := compress_eq_some inverts compressed
    simp only [parts]
    exact reads_specialForm form
  | none =>
    have limit : script.length ≤ 10000 := legal
    have general : ¬ script.length + nSpecialScripts < nSpecialScripts := by omega
    refine (reads_readVarInt (by decide) (by unfold nSpecialScripts; omega)).bind ?_
    rw [if_neg general, Nat.add_sub_cancel, if_neg (by omega)]
    exact reads_takeBytes rfl

/-! Amounts. -/

/-- The loop that divides by ten at most `room` times: the quotient and the number of divisions. -/
def dropZeros : (room : Nat) → (n : Nat) → Nat × Nat
  | 0, n => (n, 0)
  | room + 1, n => if n % 10 = 0 then ((dropZeros room (n / 10)).1, (dropZeros room (n / 10)).2 + 1)
    else (n, 0)

def compressAmount (nAmount : Nat) : Nat :=
  if nAmount = 0 then 0
  else
    let n := (dropZeros 9 nAmount).1
    let e := (dropZeros 9 nAmount).2
    if e < 9 then (1 + (n / 10 * 9 + n % 10 - 1) * 10 + e) % 2 ^ 64
    else (1 + (n - 1) * 10 + 9) % 2 ^ 64

def timesTen : (e : Nat) → (n : Nat) → Nat
  | 0, n => n
  | e + 1, n => timesTen e (n * 10 % 2 ^ 64)

def decompressAmount (x : Nat) : Nat :=
  if x = 0 then 0
  else
    let e := (x - 1) % 10
    let digits := (x - 1) / 10
    if e < 9 then timesTen e ((digits / 9 * 10 + (digits % 9 + 1)) % 2 ^ 64)
    else timesTen e ((digits + 1) % 2 ^ 64)

theorem dropZeros_spec (room : Nat) (positive : 0 < n) :
      0 < (dropZeros room n).1 ∧ (dropZeros room n).2 ≤ room ∧
        (dropZeros room n).1 * 10 ^ (dropZeros room n).2 = n ∧
      ((dropZeros room n).2 < room → (dropZeros room n).1 % 10 ≠ 0) := by
  induction room generalizing n with
  | zero => simp [dropZeros, positive]
  | succ room ih =>
    rw [dropZeros]
    split
    case isTrue divisible =>
      obtain ⟨quotient, count, product, stopped⟩ := ih (show 0 < n / 10 by omega)
      refine ⟨quotient, by simpa using count, ?_, fun early => stopped (by simpa using early)⟩
      rw [pow_succ, ← Nat.mul_assoc, product]
      omega
    case isFalse indivisible =>
      exact ⟨positive, by simp, by simp, fun _ => indivisible⟩

theorem timesTen_eq (small : n * 10 ^ e < 2 ^ 64) : timesTen e n = n * 10 ^ e := by
  induction e generalizing n with
  | zero => simp [timesTen]
  | succ e ih =>
    have scaled : n * 10 * 10 ^ e < 2 ^ 64 := by
      rw [Nat.mul_assoc, ← pow_succ']
      exact small
    have step : n * 10 < 2 ^ 64 :=
      lt_of_le_of_lt (Nat.le_mul_of_pos_right _ (Nat.pow_pos (by decide))) scaled
    rw [timesTen, Nat.mod_eq_of_lt step, ih scaled, pow_succ', Nat.mul_assoc]

theorem compressAmount_lt : compressAmount nAmount < 2 ^ 64 := by
  unfold compressAmount
  split
  · decide
  · dsimp only
    split <;> exact Nat.mod_lt _ (by decide)

theorem decompressAmount_compressAmount (bounded : nAmount ≤ 10 ^ 18) :
    decompressAmount (compressAmount nAmount) = nAmount := by
  unfold compressAmount
  split
  case isTrue zero => simp [zero, decompressAmount]
  case isFalse nonzero =>
    obtain ⟨positive, count, product, stopped⟩ := dropZeros_spec 9 (Nat.pos_of_ne_zero nonzero)
    dsimp only
    generalize (dropZeros 9 nAmount).1 = n at *
    generalize (dropZeros 9 nAmount).2 = e at *
    have below : n ≤ nAmount := by
      rw [← product]
      exact Nat.le_mul_of_pos_right _ (Nat.pow_pos (by decide))
    have scaled : n * 10 ^ e < 2 ^ 64 := by omega
    split
    case isTrue early =>
      rw [Nat.mod_eq_of_lt (by omega), decompressAmount, if_neg (by omega)]
      have exponent : (1 + (n / 10 * 9 + n % 10 - 1) * 10 + e - 1) % 10 = e := by omega
      have digits : (1 + (n / 10 * 9 + n % 10 - 1) * 10 + e - 1) / 10 = n / 10 * 9 + n % 10 -
        1 := by omega
      have back : (n / 10 * 9 + n % 10 - 1) / 9 * 10 + ((n / 10 * 9 + n % 10 - 1) % 9 + 1) = n := by omega
      simp only [exponent, digits, back]
      rw [if_pos early, Nat.mod_eq_of_lt (by omega), timesTen_eq scaled, product]
    case isFalse full =>
      obtain rfl : e = 9 := by omega
      rw [Nat.mod_eq_of_lt (by omega), decompressAmount, if_neg (by omega)]
      have exponent : (1 + (n - 1) * 10 + 9 - 1) % 10 = 9 := by omega
      have digits : (1 + (n - 1) * 10 + 9 - 1) / 10 = n - 1 := by omega
      simp only [exponent, digits, Nat.sub_add_cancel positive]
      rw [if_neg (by decide), Nat.mod_eq_of_lt (by omega), timesTen_eq scaled, product]

/-! Outputs. -/

def writeTxOut (curve : PubKeyCurve) (out : CTxOut) : Bytes :=
  writeVarInt 64 (compressAmount (out.nValue % 2 ^ 64).toNat) ++ writeScript curve out.scriptPubKey

/-- Reads into `out`, as the source does. -/
def readTxOut (curve : PubKeyCurve) (out : CTxOut) : StreamReader CTxOut := do
  let nVal ← readVarInt 64
  let scriptPubKey ← readScript curve out.scriptPubKey
  pure { out with nValue := wrap64 (decompressAmount nVal), scriptPubKey := scriptPubKey }

/-- The amounts and scripts that outputs of accepted transactions have.  No constructor or method
of the source gives `nRounds` another value. -/
structure LegalOut (out : CTxOut) : Prop where
  amount : 0 ≤ out.nValue ∧ out.nValue ≤ mainParams.nMaxMoneyOut
  script : out.scriptPubKey.length ≤ maxScriptSize
  rounds : out.nRounds = -10

theorem reads_readTxOut (inverts : curve.Inverts) (legal : LegalOut out) :
    Reads (readTxOut curve CTxOut.null) (writeTxOut curve out) out := by
  obtain ⟨⟨low, high⟩, script, rounds⟩ := legal
  have limit : out.nValue ≤ 10000000000000000 := high
  have amount : (decompressAmount (compressAmount (out.nValue % 2 ^ 64).toNat) : Int) = out.nValue := by
    rw [decompressAmount_compressAmount (by omega)]
    omega
  have value : wrap64 (decompressAmount (compressAmount (out.nValue % 2 ^ 64).toNat)) = out.nValue := by
    rw [amount, wrap64_eq (by omega) (by omega)]
  refine (reads_readVarInt (by decide) compressAmount_lt).bind ((reads_readScript inverts script).last ?_)
  rw [value]
  cases out with
  | mk nValue scriptPubKey nRounds =>
    obtain rfl : nRounds = -10 := rounds
    exact Reads.pure

end Deviant.Serialize
