import Deviant.Primitives.Transaction

namespace Deviant.Script

open Primitives UInt8

/-! Scripts: opcodes, how a script is read, and the numbers and pushes a script is made of. -/

abbrev ValType := List UInt8

inductive UnaryOp where
  | add1 | sub1 | negate | abs | not | notEqual0
deriving DecidableEq

inductive BinaryOp where
  | add | sub | booland | boolor | numequal | numequalverify | numnotequal | lessthan | greaterthan
  | lessthanorequal | greaterthanorequal | min | max
deriving DecidableEq

inductive HashOp where
  | ripemd160 | sha1 | sha256 | hash160 | hash256
deriving DecidableEq

/-- The opcodes as the interpreter tells them apart.  Members of one family of the source's `switch`
share a constructor, and `invalid` is everything that ends in its `default` branch. -/
inductive OpCode where
  | push
  | number (value : Int)
  | nop | checklocktimeverify | upgradableNop
  | opIf | opNotif | opElse | opEndif | verify | opReturn
  | toaltstack | fromaltstack | drop2 | dup2 | dup3 | over2 | rot2 | swap2 | ifdup | depth | drop | dup
  | nip | over | pick | roll | rot | swap | tuck | size
  | equal | equalverify
  | unary (op : UnaryOp) | binary (op : BinaryOp) | within
  | hash (op : HashOp)
  | codeseparator | checksig | checksigverify | checkmultisig | checkmultisigverify
  | checkcoldstakeverify
  | invalid
deriving DecidableEq

def opPushdata1 : UInt8 := 0x4c
def opPushdata2 : UInt8 := 0x4d
def opPushdata4 : UInt8 := 0x4e
def op16 : UInt8 := 0x60

def OpCode.decode (opcode : UInt8) : OpCode :=
  if opcode ≤ opPushdata4 then .push
  else if opcode = 0x4f ∨ (0x51 ≤ opcode ∧ opcode ≤ op16) then .number ((opcode.toNat : Int) - 0x50)
  else if 0xb2 ≤ opcode ∧ opcode ≤ 0xb9 then .upgradableNop
  else
    match opcode.toNat with
    | 0x61 => .nop
    | 0x63 => .opIf
    | 0x64 => .opNotif
    | 0x67 => .opElse
    | 0x68 => .opEndif
    | 0x69 => .verify
    | 0x6a => .opReturn
    | 0x6b => .toaltstack
    | 0x6c => .fromaltstack
    | 0x6d => .drop2
    | 0x6e => .dup2
    | 0x6f => .dup3
    | 0x70 => .over2
    | 0x71 => .rot2
    | 0x72 => .swap2
    | 0x73 => .ifdup
    | 0x74 => .depth
    | 0x75 => .drop
    | 0x76 => .dup
    | 0x77 => .nip
    | 0x78 => .over
    | 0x79 => .pick
    | 0x7a => .roll
    | 0x7b => .rot
    | 0x7c => .swap
    | 0x7d => .tuck
    | 0x82 => .size
    | 0x87 => .equal
    | 0x88 => .equalverify
    | 0x8b => .unary .add1
    | 0x8c => .unary .sub1
    | 0x8f => .unary .negate
    | 0x90 => .unary .abs
    | 0x91 => .unary .not
    | 0x92 => .unary .notEqual0
    | 0x93 => .binary .add
    | 0x94 => .binary .sub
    | 0x9a => .binary .booland
    | 0x9b => .binary .boolor
    | 0x9c => .binary .numequal
    | 0x9d => .binary .numequalverify
    | 0x9e => .binary .numnotequal
    | 0x9f => .binary .lessthan
    | 0xa0 => .binary .greaterthan
    | 0xa1 => .binary .lessthanorequal
    | 0xa2 => .binary .greaterthanorequal
    | 0xa3 => .binary .min
    | 0xa4 => .binary .max
    | 0xa5 => .within
    | 0xa6 => .hash .ripemd160
    | 0xa7 => .hash .sha1
    | 0xa8 => .hash .sha256
    | 0xa9 => .hash .hash160
    | 0xaa => .hash .hash256
    | 0xab => .codeseparator
    | 0xac => .checksig
    | 0xad => .checksigverify
    | 0xae => .checkmultisig
    | 0xaf => .checkmultisigverify
    | 0xb0 => .upgradableNop
    | 0xb1 => .checklocktimeverify
    | 0xd1 => .checkcoldstakeverify
    | _ => .invalid

/-- `OP_CAT` to `OP_RIGHT`, `OP_INVERT` to `OP_XOR`, `OP_2MUL`, `OP_2DIV` and `OP_MUL` to
`OP_RSHIFT`. -/
def isDisabled (opcode : UInt8) : Bool :=
  [0x7e, 0x7f, 0x80, 0x81, 0x83, 0x84, 0x85, 0x86, 0x8d, 0x8e, 0x95, 0x96, 0x97, 0x98,
    0x99].contains opcode

def pushSize (opcode : UInt8) (rest : CScript) : Option (Nat × CScript) :=
  if opcode < opPushdata1 then some (opcode.toNat, rest)
  else if opcode = opPushdata1 then
    match rest with
    | size :: rest => some (size.toNat, rest)
    | _ => none
  else if opcode = opPushdata2 then
    match rest with
    | low :: high :: rest => some (low.toNat + 256 * high.toNat, rest)
    | _ => none
  else
    match rest with
    | b0 :: b1 :: b2 :: b3 :: rest =>
      some (b0.toNat + 256 * b1.toNat + 65536 * b2.toNat + 16777216 * b3.toNat, rest)
    | _ => none

def getOp (script : CScript) : Option (UInt8 × ValType × CScript) :=
  match script with
  | [] => none
  | opcode :: rest =>
    if opcode ≤ opPushdata4 then
      match pushSize opcode rest with
      | none => none
      | some (nSize, rest) =>
        if rest.length < nSize then none else some (opcode, rest.take nSize, rest.drop nSize)
    else some (opcode, [], rest)

theorem pushSize_length (read : pushSize opcode rest = some (nSize, after)) :
    after.length ≤ rest.length := by
  unfold pushSize at read
  split at read
  · cases read
    omega
  · split at read
    · split at read <;> cases read
      simp
    · split at read
      · split at read <;> cases read
        simp only [List.length_cons]
        omega
      · split at read <;> cases read
        simp only [List.length_cons]
        omega

theorem getOp_length (read : getOp script = some (opcode, vchPushValue, next)) :
    next.length < script.length := by
  cases script with
  | nil => cases read
  | cons head rest =>
    simp only [getOp] at read
    split at read
    · cases sized : pushSize head rest with
      | none => simp [sized] at read
      | some found =>
        have shorter := pushSize_length sized
        simp only [sized] at read
        split at read
        · cases read
        · cases read
          simp only [List.length_drop, List.length_cons]
          omega
    · cases read
      simp

theorem getOp_push (small : opcode < opPushdata1) (size : data.length = opcode.toNat) :
    getOp (opcode :: (data ++ rest)) = some (opcode, data, rest) := by
  have isPush : opcode ≤ opPushdata4 := by
    rw [le_iff_toNat_le]
    rw [lt_iff_toNat_lt] at small
    have bound : opPushdata1.toNat ≤ opPushdata4.toNat := by decide
    omega
  have enough : ¬(data ++ rest).length < opcode.toNat := by
    rw [List.length_append]
    omega
  simp only [getOp, isPush, if_true, pushSize, small, if_neg enough]
  rw [← size, List.take_left, List.drop_left]

theorem getOp_opcode (large : ¬opcode ≤ opPushdata4) :
    getOp (opcode :: rest) = some (opcode, [], rest) := by
  simp [getOp, large]

def isPushOnlyFrom : (fuel : Nat) → CScript → Bool
  | 0, script => script.isEmpty
  | fuel + 1, script =>
    if script.isEmpty then true
    else
      match getOp script with
      | none => false
      | some (opcode, _, next) => decide (opcode ≤ op16) && isPushOnlyFrom fuel next

/-- Every instruction takes at least a byte, so the length of the script is fuel enough. -/
def isPushOnly (script : CScript) : Bool := isPushOnlyFrom script.length script

/-- `CScript() << vch`. -/
def pushData (vch : ValType) : CScript :=
  if vch.length < 0x4c then ofNat vch.length :: vch
  else if vch.length ≤ 0xff then opPushdata1 :: ofNat vch.length :: vch
  else if vch.length ≤ 0xffff then
    opPushdata2 :: ofNat vch.length :: ofNat (vch.length / 256) :: vch
  else opPushdata4 :: ofNat vch.length :: ofNat (vch.length / 256) ::
    ofNat (vch.length / 65536) :: ofNat (vch.length / 16777216) :: vch

/-- The scan of `FindAndDelete`: at every instruction boundary the pattern is dropped as often as it
matches. -/
def findAndDeleteFrom (pattern : CScript) : (fuel : Nat) → CScript → CScript
  | 0, script => script
  | fuel + 1, script =>
    if pattern.isPrefixOf script then findAndDeleteFrom pattern fuel (script.drop pattern.length)
    else
      match getOp script with
      | none => script
      | some (_, _, next) =>
        script.take (script.length - next.length) ++ findAndDeleteFrom pattern fuel next

def findAndDelete (script pattern : CScript) : CScript :=
  if pattern.isEmpty then script else findAndDeleteFrom pattern script.length script

def castToBool : ValType → Bool
  | [] => false
  | [last] => last != 0 && last != 0x80
  | byte :: rest => byte != 0 || castToBool rest

def littleEndian : ValType → Nat
  | [] => 0
  | byte :: rest => byte.toNat + 256 * littleEndian rest

def setVch (vch : ValType) : Int :=
  match vch.getLast? with
  | none => 0
  | some last =>
    if 0x80 ≤ last then -((littleEndian vch - 0x80 * 256 ^ (vch.length - 1) : Nat) : Int)
    else littleEndian vch

def isMinimalNum (vch : ValType) : Bool :=
  match vch.reverse with
  | [] => true
  | [last] => decide (last.toNat % 128 ≠ 0)
  | last :: second :: _ => decide (last.toNat % 128 ≠ 0) || decide (0x80 ≤ second)

/-- `CScriptNum(vch, fRequireMinimal, nMaxNumSize)`, `none` where it throws. -/
def scriptNum (vch : ValType) (fRequireMinimal : Bool) (nMaxNumSize : Nat) : Option Int :=
  if nMaxNumSize < vch.length then none
  else if fRequireMinimal && !isMinimalNum vch then none
  else some (setVch vch)

def absBytes : (fuel : Nat) → Nat → ValType
  | 0, _ => []
  | fuel + 1, absvalue => if absvalue = 0 then []
    else ofNat absvalue :: absBytes fuel (absvalue / 256)

/-- `CScriptNum::serialize`.  The value is an `int64_t`, of at most eight bytes. -/
def getVch (value : Int) : ValType :=
  let result := absBytes 8 value.natAbs
  match result.getLast? with
  | none => []
  | some last =>
    if 0x80 ≤ last then result ++ [if value < 0 then 0x80 else 0]
    else if value < 0 then result.dropLast ++ [last + 0x80]
    else result

def vchFalse : ValType := []
def vchTrue : ValType := [1]

def vchOf (fValue : Bool) : ValType := if fValue then vchTrue else vchFalse

@[simp] theorem castToBool_vchOf : castToBool (vchOf fValue) = fValue := by
  cases fValue <;> rfl

end Deviant.Script
