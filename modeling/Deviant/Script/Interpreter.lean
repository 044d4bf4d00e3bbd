import Deviant.Script.Script

namespace Deviant.Script

open Primitives

/-! The script interpreter.  A stack is a list with its top first, and the conditions of open
`OP_IF` blocks are a list with the innermost first. -/

inductive ScriptError where
  | unknownError | evalFalse | opReturn
  | scriptSize | pushSize | opCount | stackSize | sigCount | pubkeyCount
  | verify | equalverify | checkcoldstakeverify | checkmultisigverify | checksigverify | numequalverify
  | badOpcode | disabledOpcode | invalidStackOperation | invalidAltstackOperation | unbalancedConditional
  | negativeLocktime | unsatisfiedLocktime
  | sigHashtype | sigDer | minimaldata | sigPushonly | sigHighS | sigNulldummy | pubkeytype
  | discourageUpgradableNops
deriving DecidableEq

/-- Go on if the condition holds, otherwise `return set_error(serror, error)`. -/
def ensure (condition : Bool) (error : ScriptError) : Except ScriptError Unit :=
  if condition then .ok () else .error error

@[simp] theorem ensure_bind_eq_ok :
    (ensure condition error >>= rest) = .ok value ↔ condition = true ∧ rest () = .ok value := by
  cases condition with
  | false => simp [ensure, bind, Except.bind]
  | true => simp [ensure, bind, Except.bind]

/-- The script verification flags; `SCRIPT_VERIFY_CLEANSTACK` is read nowhere. -/
structure Flags where
  p2sh : Bool
  strictenc : Bool
  dersig : Bool
  lowS : Bool
  nulldummy : Bool
  sigpushonly : Bool
  minimaldata : Bool
  discourageUpgradableNops : Bool
  checklocktimeverify : Bool
deriving DecidableEq

inductive SigVersion where
  | base | sapling
deriving DecidableEq

/-- The hash functions, and the test of a DER signature for a low `S`. -/
structure Crypto where
  ripemd160 : ValType → ValType
  sha1 : ValType → ValType
  sha256 : ValType → ValType
  checkLowS : ValType → Bool

def Crypto.hash160 (crypto : Crypto) (vch : ValType) :
    ValType := crypto.ripemd160 (crypto.sha256 vch)

def Crypto.hash256 (crypto : Crypto) (vch : ValType) : ValType := crypto.sha256 (crypto.sha256 vch)

structure BaseSignatureChecker where
  checkSig : (vchSig vchPubKey : ValType) → (scriptCode : CScript) → SigVersion → Bool
  checkLockTime : Int → Bool
  checkColdStake : CScript → Bool

structure Context where
  crypto : Crypto
  flags : Flags
  checker : BaseSignatureChecker
  sigversion : SigVersion
  /-- The `g_IsV6Active` switch. -/
  isV6Active : Bool

def isCompressedOrUncompressedPubKey (vchPubKey : ValType) : Bool :=
  match vchPubKey.head? with
  | none => false
  | some head =>
    if vchPubKey.length < 33 then false
    else if head = 0x04 then vchPubKey.length == 65
    else if head = 0x02 ∨ head = 0x03 then vchPubKey.length == 33
    else false

def byteAt (vch : ValType) (index : Nat) : Nat := (vch.getD index 0).toNat

def isValidSignatureEncoding (sig : ValType) : Bool :=
  let lenR := byteAt sig 3
  let lenS := byteAt sig (5 + lenR)
  decide (9 ≤ sig.length) && decide (sig.length ≤ 73) && byteAt sig 0 == 0x30 &&
    byteAt sig 1 == sig.length - 3 && decide (5 + lenR < sig.length) &&
    lenR + lenS + 7 == sig.length && byteAt sig 2 == 0x02 && lenR != 0 &&
    decide (byteAt sig 4 < 0x80) &&
    !(decide (1 < lenR) && byteAt sig 4 == 0x00 && decide (byteAt sig 5 < 0x80)) &&
    byteAt sig (lenR + 4) == 0x02 && lenS != 0 && decide (byteAt sig (lenR + 6) < 0x80) &&
    !(decide (1 < lenS) && byteAt sig (lenR + 6) == 0x00 && decide (byteAt sig (lenR + 7) < 0x80))

def isDefinedHashtypeSignature (vchSig : ValType) : Bool :=
  match vchSig.getLast? with
  | none => false
  | some last => decide (1 ≤ last.toNat % 128) && decide (last.toNat % 128 ≤ 3)

def checkSignatureEncoding (crypto : Crypto) (flags : Flags) (vchSig : ValType) :
    Except ScriptError Unit :=
  if vchSig.isEmpty then .ok ()
  else do
    ensure (!(flags.dersig || flags.lowS || flags.strictenc) || isValidSignatureEncoding vchSig) .sigDer
    ensure (!flags.lowS || crypto.checkLowS vchSig.dropLast) .sigHighS
    ensure (!flags.strictenc || isDefinedHashtypeSignature vchSig) .sigHashtype

def checkPubKeyEncoding (flags : Flags) (vchPubKey : ValType) : Except ScriptError Unit :=
  ensure (!flags.strictenc || isCompressedOrUncompressedPubKey vchPubKey) .pubkeytype

def checkMinimalPush (data : ValType) (opcode : UInt8) : Bool :=
  match data with
  | [] => opcode == 0
  | [byte] =>
    if 1 ≤ byte ∧ byte ≤ 16 then opcode == 0x50 + byte
    else if byte = 0x81 then opcode == 0x4f
    else opcode == 1
  | _ =>
    if data.length ≤ 75 then opcode.toNat == data.length
    else if data.length ≤ 255 then opcode == opPushdata1
    else if data.length ≤ 65535 then opcode == opPushdata2
    else true

structure Machine where
  stack : List ValType
  altstack : List ValType := []
  vfExec : List Bool := []
  nOpCount : Nat := 0
  /-- The script from the last `OP_CODESEPARATOR` on. -/
  codehash : CScript
deriving DecidableEq

section

variable (ctx : Context)

/-- Numbers that do not parse throw, which `EvalScript` catches. -/
def number (vch : ValType) (nMaxNumSize : Nat) : Except ScriptError Int :=
  match scriptNum vch ctx.flags.minimaldata nMaxNumSize with
  | none => .error .unknownError
  | some value => .ok value

def getint (value : Int) : Int := max (-2 ^ 31) (min value (2 ^ 31 - 1))

def boolNum (fValue : Bool) : Int := if fValue then 1 else 0

def UnaryOp.apply : UnaryOp → Int → Int
  | .add1, bn => bn + 1
  | .sub1, bn => bn - 1
  | .negate, bn => -bn
  | .abs, bn => if bn < 0 then -bn else bn
  | .not, bn => boolNum (bn == 0)
  | .notEqual0, bn => boolNum (bn != 0)

def BinaryOp.apply : BinaryOp → Int → Int → Int
  | .add, bn1, bn2 => bn1 + bn2
  | .sub, bn1, bn2 => bn1 - bn2
  | .booland, bn1, bn2 => boolNum (bn1 != 0 && bn2 != 0)
  | .boolor, bn1, bn2 => boolNum (bn1 != 0 || bn2 != 0)
  | .numequal, bn1, bn2 => boolNum (bn1 == bn2)
  | .numequalverify, bn1, bn2 => boolNum (bn1 == bn2)
  | .numnotequal, bn1, bn2 => boolNum (bn1 != bn2)
  | .lessthan, bn1, bn2 => boolNum (decide (bn1 < bn2))
  | .greaterthan, bn1, bn2 => boolNum (decide (bn1 > bn2))
  | .lessthanorequal, bn1, bn2 => boolNum (decide (bn1 ≤ bn2))
  | .greaterthanorequal, bn1, bn2 => boolNum (decide (bn1 ≥ bn2))
  | .min, bn1, bn2 => if bn1 < bn2 then bn1 else bn2
  | .max, bn1, bn2 => if bn1 > bn2 then bn1 else bn2

def HashOp.apply (crypto : Crypto) : HashOp → ValType → ValType
  | .ripemd160 => crypto.ripemd160
  | .sha1 => crypto.sha1
  | .sha256 => crypto.sha256
  | .hash160 => crypto.hash160
  | .hash256 => crypto.hash256

/-- `OP_PICK` and `OP_ROLL`. -/
def pickOrRoll (fRoll : Bool) : List ValType → Except ScriptError (List ValType)
  | top :: next :: rest => do
      let n := getint (← number ctx top 4)
      let stack := next :: rest
      ensure (decide (0 ≤ n) && decide (n < stack.length)) .invalidStackOperation
      let vch := stack.getD n.toNat []
      pure (vch :: if fRoll then stack.eraseIdx n.toNat else stack)
  | _ => .error .invalidStackOperation

def stackOp : OpCode → List ValType → Except ScriptError (List ValType)
  | .number value, stack => .ok (getVch value :: stack)
  | .drop2, _ :: _ :: rest => .ok rest
  | .dup2, x2 :: x1 :: rest => .ok (x2 :: x1 :: x2 :: x1 :: rest)
  | .dup3, x3 :: x2 :: x1 :: rest => .ok (x3 :: x2 :: x1 :: x3 :: x2 :: x1 :: rest)
  | .over2, x4 :: x3 :: x2 :: x1 :: rest => .ok (x2 :: x1 :: x4 :: x3 :: x2 :: x1 :: rest)
  | .rot2, x6 :: x5 :: x4 :: x3 :: x2 :: x1 :: rest => .ok (x2 :: x1 :: x6 :: x5 :: x4 :: x3 :: rest)
  | .swap2, x4 :: x3 :: x2 :: x1 :: rest => .ok (x2 :: x1 :: x4 :: x3 :: rest)
  | .ifdup, x :: rest => .ok (if castToBool x then x :: x :: rest else x :: rest)
  | .depth, stack => .ok (getVch stack.length :: stack)
  | .drop, _ :: rest => .ok rest
  | .dup, x :: rest => .ok (x :: x :: rest)
  | .nip, x2 :: _ :: rest => .ok (x2 :: rest)
  | .over, x2 :: x1 :: rest => .ok (x1 :: x2 :: x1 :: rest)
  | .pick, stack => pickOrRoll ctx false stack
  | .roll, stack => pickOrRoll ctx true stack
  | .rot, x3 :: x2 :: x1 :: rest => .ok (x1 :: x3 :: x2 :: rest)
  | .swap, x2 :: x1 :: rest => .ok (x1 :: x2 :: rest)
  | .tuck, x2 :: x1 :: rest => .ok (x2 :: x1 :: x2 :: rest)
  | .size, x :: rest => .ok (getVch x.length :: x :: rest)
  | .verify, x :: rest => if castToBool x then .ok rest else .error .verify
  | .equal, x2 :: x1 :: rest => .ok (vchOf (x1 == x2) :: rest)
  | .equalverify, x2 :: x1 :: rest => if x1 = x2 then .ok rest else .error .equalverify
  | .unary op, x :: rest => do
      let bn ← number ctx x 4
      pure (getVch (op.apply bn) :: rest)
  | .binary op, x2 :: x1 :: rest => do
      let bn1 ← number ctx x1 4
      let bn2 ← number ctx x2 4
      let result := getVch (op.apply bn1 bn2)
      if op = .numequalverify then
        ensure (castToBool result) .numequalverify
        pure rest
      else pure (result :: rest)
  | .within, x3 :: x2 :: x1 :: rest => do
      let bn1 ← number ctx x1 4
      let bn2 ← number ctx x2 4
      let bn3 ← number ctx x3 4
      pure (vchOf (decide (bn2 ≤ bn1) && decide (bn1 < bn3)) :: rest)
  | .hash op, x :: rest => .ok (op.apply ctx.crypto x :: rest)
  | _, _ => .error .invalidStackOperation

def checkSignature (scriptCode : CScript) (vchSig vchPubKey : ValType) :
    Except ScriptError Bool := do
  checkSignatureEncoding ctx.crypto ctx.flags vchSig
  checkPubKeyEncoding ctx.flags vchPubKey
  pure (ctx.checker.checkSig vchSig vchPubKey scriptCode ctx.sigversion)

/-- `OP_CHECKSIG` and `OP_CHECKSIGVERIFY`. -/
def checkSigOp (fVerify : Bool) (m : Machine) : Except ScriptError Machine :=
  match m.stack with
  | vchPubKey :: vchSig :: rest => do
      let scriptCode := findAndDelete m.codehash (pushData vchSig)
      let fSuccess ← checkSignature ctx scriptCode vchSig vchPubKey
      ensure (!fVerify || fSuccess) .checksigverify
      pure { m with stack := if fVerify then rest else vchOf fSuccess :: rest }
  | _ => .error .invalidStackOperation

/-- The signatures are matched with the keys in order; a key that fails is not tried again. -/
def multisigLoop (ctx : Context) (scriptCode : CScript) :
    (sigs keys : List ValType) → Except ScriptError Bool
  | [], _ => .ok true
  | _ :: _, [] => .ok false
  | vchSig :: sigs, vchPubKey :: keys => do
      let fOk ← checkSignature ctx scriptCode vchSig vchPubKey
      let left := if fOk then sigs else vchSig :: sigs
      if keys.length < left.length then pure false else multisigLoop ctx scriptCode left keys

/-- `OP_CHECKMULTISIG` and `OP_CHECKMULTISIGVERIFY`. -/
def checkMultisigOp (fVerify : Bool) (m : Machine) : Except ScriptError Machine := do
  ensure (decide (1 ≤ m.stack.length)) .invalidStackOperation
  let nKeysCount := getint (← number ctx (m.stack.getD 0 []) 4)
  ensure (decide (0 ≤ nKeysCount) && decide (nKeysCount ≤ 20)) .pubkeyCount
  let nKeys := nKeysCount.toNat
  ensure (decide (m.nOpCount + nKeys ≤ 201)) .opCount
  ensure (decide (nKeys + 2 ≤ m.stack.length)) .invalidStackOperation
  let nSigsCount := getint (← number ctx (m.stack.getD (nKeys + 1) []) 4)
  ensure (decide (0 ≤ nSigsCount) && decide (nSigsCount ≤ nKeysCount)) .sigCount
  let nSigs := nSigsCount.toNat
  ensure (decide (nKeys + nSigs + 3 ≤ m.stack.length)) .invalidStackOperation
  let keys := (m.stack.drop 1).take nKeys
  let sigs := (m.stack.drop (nKeys + 2)).take nSigs
  let scriptCode := sigs.foldl (fun code vchSig => findAndDelete code (pushData vchSig)) m.codehash
  let fSuccess ← multisigLoop ctx scriptCode sigs keys
  -- One element more than the arguments is taken off the stack.
  let dummy := m.stack.getD (nKeys + nSigs + 2) []
  ensure (!(ctx.flags.nulldummy && !dummy.isEmpty)) .sigNulldummy
  let rest := m.stack.drop (nKeys + nSigs + 3)
  ensure (!fVerify || fSuccess) .checkmultisigverify
  pure { m with
    nOpCount := m.nOpCount + nKeys
    stack := if fVerify then rest else vchOf fSuccess :: rest }

def checkLockTimeOp (stack : List ValType) : Except ScriptError Unit :=
  if !ctx.flags.checklocktimeverify then
    ensure (!ctx.flags.discourageUpgradableNops) .discourageUpgradableNops
  else
    match stack with
    | top :: _ => do
        let nLockTime ← number ctx top 5
        ensure (decide (0 ≤ nLockTime)) .negativeLocktime
        ensure (ctx.checker.checkLockTime nLockTime) .unsatisfiedLocktime
    | [] => .error .invalidStackOperation

/-- Once the switch is on, the stack holds exactly a signature, a key and the hash of the key. -/
def coldStakeStack : List ValType → Except ScriptError Unit
  | [vchPubKeyHash, vchPubKey, vchSig] => do
      checkSignatureEncoding ctx.crypto ctx.flags vchSig
      checkPubKeyEncoding ctx.flags vchPubKey
      ensure (vchPubKeyHash.length == 20) .scriptSize
  | _ => .error .invalidStackOperation

def checkColdStakeOp (script : CScript) (stack : List ValType) : Except ScriptError Unit := do
  if ctx.isV6Active then coldStakeStack ctx stack
  ensure (ctx.checker.checkColdStake script) .checkcoldstakeverify

def conditionOp (negated fExec : Bool) (m : Machine) : Except ScriptError Machine :=
  if fExec then
    match m.stack with
    | vch :: rest => .ok { m with stack := rest, vfExec := (castToBool vch != negated) :: m.vfExec }
    | [] => .error .unbalancedConditional
  else .ok { m with vfExec := false :: m.vfExec }

/-- The `switch` over the opcode.  `next` is the script after the instruction. -/
def execute (script next : CScript) (fExec : Bool) (opcode : OpCode) (m : Machine) :
    Except ScriptError Machine :=
  match opcode with
  | .nop => .ok m
  | .checklocktimeverify => do
      checkLockTimeOp ctx m.stack
      pure m
  | .upgradableNop => do
      ensure (!ctx.flags.discourageUpgradableNops) .discourageUpgradableNops
      pure m
  | .opIf => conditionOp false fExec m
  | .opNotif => conditionOp true fExec m
  | .opElse =>
    match m.vfExec with
    | condition :: outer => .ok { m with vfExec := (!condition) :: outer }
    | [] => .error .unbalancedConditional
  | .opEndif =>
    match m.vfExec with
    | _ :: outer => .ok { m with vfExec := outer }
    | [] => .error .unbalancedConditional
  | .opReturn => .error .opReturn
  | .toaltstack =>
    match m.stack with
    | x :: rest => .ok { m with stack := rest, altstack := x :: m.altstack }
    | [] => .error .invalidStackOperation
  | .fromaltstack =>
    match m.altstack with
    | x :: rest => .ok { m with stack := x :: m.stack, altstack := rest }
    | [] => .error .invalidAltstackOperation
  | .codeseparator => .ok { m with codehash := next }
  | .checksig => checkSigOp ctx false m
  | .checksigverify => checkSigOp ctx true m
  | .checkmultisig => checkMultisigOp ctx false m
  | .checkmultisigverify => checkMultisigOp ctx true m
  | .checkcoldstakeverify => do
      checkColdStakeOp ctx script m.stack
      pure m
  | .push => .error .badOpcode
  | .invalid => .error .badOpcode
  | operation => do
      let stack ← stackOp ctx operation m.stack
      pure { m with stack := stack }

def maxScriptElementSize : Nat := 520

def countOp (opcode : UInt8) (m : Machine) : Machine :=
  if op16 < opcode then { m with nOpCount := m.nOpCount + 1 } else m

section

variable (script next : CScript) (opcode : UInt8) (vchPushValue : ValType)

/-- What an instruction does once it has been counted: push, run, or be skipped.  Conditionals are
run in skipped blocks too. -/
def dispatch (m : Machine) :
    Except ScriptError Machine :=
  let fExec := m.vfExec.all id
  if fExec && decide (opcode ≤ opPushdata4) then do
    ensure (!ctx.flags.minimaldata || checkMinimalPush vchPushValue opcode) .minimaldata
    pure { m with stack := vchPushValue :: m.stack }
  else if fExec || (decide (opIf ≤ opcode) && decide (opcode ≤ opEndif)) then
    execute ctx script next fExec (OpCode.decode opcode) m
  else .ok m

def evalInstruction (m : Machine) : Except ScriptError Machine := do
  ensure (decide (vchPushValue.length ≤ maxScriptElementSize)) .pushSize
  ensure (decide ((countOp opcode m).nOpCount ≤ 201) || decide (opcode ≤ op16)) .opCount
  ensure (!isDisabled opcode) .disabledOpcode
  let m ← dispatch ctx script next opcode vchPushValue (countOp opcode m)
  ensure (decide (m.stack.length + m.altstack.length ≤ 1000)) .stackSize
  pure m

end

/-- The loop of `EvalScript` over the part of the script still to be read. -/
def evalLoop (ctx : Context) (script : CScript) :
    (fuel : Nat) → (pc : CScript) → Machine → Except ScriptError Machine
  | 0, pc, m => if pc.isEmpty then .ok m else .error .unknownError
  | fuel + 1, pc, m =>
    if pc.isEmpty then .ok m
    else
      match getOp pc with
      | none => .error .badOpcode
      | some (opcode, vchPushValue, next) => do
          let m ← evalInstruction ctx script next opcode vchPushValue m
          evalLoop ctx script fuel next m

def evalScript (stack : List ValType) (script : CScript) : Except ScriptError (List ValType) := do
  ensure (decide (script.length ≤ maxScriptSize)) .scriptSize
  let m ← evalLoop ctx script script.length script { stack := stack, codehash := script }
  ensure m.vfExec.isEmpty .unbalancedConditional
  pure m.stack

def topIsTrue : List ValType → Bool
  | [] => false
  | top :: _ => castToBool top

def verifyScript (scriptSig scriptPubKey : CScript) : Except ScriptError Unit := do
  ensure (!ctx.flags.sigpushonly || isPushOnly scriptSig) .sigPushonly
  let stackCopy ← evalScript ctx [] scriptSig
  let stack ← evalScript ctx stackCopy scriptPubKey
  ensure (topIsTrue stack) .evalFalse
  if ctx.flags.p2sh && CScript.isPayToScriptHash scriptPubKey then
    ensure (isPushOnly scriptSig) .sigPushonly
    let stack ← evalScript ctx stackCopy.tail (stackCopy.headD [])
    ensure (topIsTrue stack) .evalFalse

end

theorem evalLoop_step (m : Machine) (read : getOp pc = some (opcode, vchPushValue, next)) :
    evalLoop ctx script (fuel + 1) pc m =
      evalInstruction ctx script next opcode vchPushValue m >>= evalLoop ctx script fuel next := by
  have nonempty : pc.isEmpty = false := by
    cases pc with
    | nil => cases read
    | cons _ _ => rfl
  simp [evalLoop, nonempty, read]

theorem evalLoop_fuel (m : Machine) (enough : pc.length ≤ fuel) (larger : fuel ≤ more) :
    evalLoop ctx script more pc m = evalLoop ctx script fuel pc m := by
  induction fuel generalizing pc more m with
  | zero =>
    have ended : pc = [] := List.length_eq_zero_iff.mp (by omega)
    subst ended
    cases more <;> rfl
  | succ fuel ih =>
    obtain ⟨more, rfl⟩ : ∃ fewer, more = fewer + 1 := ⟨more - 1, by omega⟩
    cases read : getOp pc with
    | none => simp [evalLoop, read]
    | some found =>
      obtain ⟨opcode, vchPushValue, next⟩ := found
      rw [evalLoop_step m read, evalLoop_step m read]
      have shorter := getOp_length read
      cases ran : evalInstruction ctx script next opcode vchPushValue m with
      | error reason => rfl
      | ok after => exact ih after (by omega) (by omega)

end Deviant.Script
