import Dobbscoin.Script.Encoding
import Dobbscoin.Script.ScriptNum

/-!
# The script interpreter

`EvalScript` and `VerifyScript` of `script/interpreter.cpp`.  A stack is a list with its top first; every
access to a stack element goes through an operation that can fail.
-/

namespace Dobbscoin

open Guard

/-! ## Opcodes -/

inductive UnaryOp where
  | add1
  | sub1
  | negate
  | abs
  | not
  | notEqual0
  deriving DecidableEq

inductive BinaryOp where
  | add
  | sub
  | boolAnd
  | boolOr
  | numEqual
  | numEqualVerify
  | numNotEqual
  | lessThan
  | greaterThan
  | lessThanOrEqual
  | greaterThanOrEqual
  | min
  | max
  deriving DecidableEq

inductive HashOp where
  | ripemd160
  | sha1
  | sha256
  | hash160
  | hash256
  deriving DecidableEq

/-- The operations that only move stack elements. -/
inductive StackOp where
  | toAltStack
  | fromAltStack
  | drop2
  | dup2
  | dup3
  | over2
  | rot2
  | swap2
  | ifDup
  | depth
  | drop
  | dup
  | nip
  | over
  | rot
  | swap
  | tuck
  | size
  deriving DecidableEq

/-- The cases of the `switch` in `EvalScript`. -/
inductive Op where
  | pushNumber (n : Int)
  | nop
  | checkLockTimeVerify
  | upgradableNop
  | opIf (negated : Bool)
  | opElse
  | opEndIf
  | verify
  | opReturn
  | stack (op : StackOp)
  | pick (roll : Bool)
  | equal (verify : Bool)
  | unary (op : UnaryOp)
  | binary (op : BinaryOp)
  | within
  | hash (op : HashOp)
  | codeSeparator
  | checkSig (verify : Bool)
  | checkMultiSig (verify : Bool)
  | bad
  deriving DecidableEq

/-- The case that an opcode above `OP_PUSHDATA4` comes to. -/
def opOf (opcode : Nat) : Op :=
  if op1 ≤ opcode ∧ opcode ≤ op16 then .pushNumber ((opcode : Int) - (op1 - 1))
  else
    match opcode with
    | 0x4f => .pushNumber (-1)
    | 0x61 => .nop
    | 0xb1 => .checkLockTimeVerify
    | 0xb0 | 0xb2 | 0xb3 | 0xb4 | 0xb5 | 0xb6 | 0xb7 | 0xb8 | 0xb9 => .upgradableNop
    | 0x63 => .opIf false
    | 0x64 => .opIf true
    | 0x67 => .opElse
    | 0x68 => .opEndIf
    | 0x69 => .verify
    | 0x6a => .opReturn
    | 0x6b => .stack .toAltStack
    | 0x6c => .stack .fromAltStack
    | 0x6d => .stack .drop2
    | 0x6e => .stack .dup2
    | 0x6f => .stack .dup3
    | 0x70 => .stack .over2
    | 0x71 => .stack .rot2
    | 0x72 => .stack .swap2
    | 0x73 => .stack .ifDup
    | 0x74 => .stack .depth
    | 0x75 => .stack .drop
    | 0x76 => .stack .dup
    | 0x77 => .stack .nip
    | 0x78 => .stack .over
    | 0x79 => .pick false
    | 0x7a => .pick true
    | 0x7b => .stack .rot
    | 0x7c => .stack .swap
    | 0x7d => .stack .tuck
    | 0x82 => .stack .size
    | 0x87 => .equal false
    | 0x88 => .equal true
    | 0x8b => .unary .add1
    | 0x8c => .unary .sub1
    | 0x8f => .unary .negate
    | 0x90 => .unary .abs
    | 0x91 => .unary .not
    | 0x92 => .unary .notEqual0
    | 0x93 => .binary .add
    | 0x94 => .binary .sub
    | 0x9a => .binary .boolAnd
    | 0x9b => .binary .boolOr
    | 0x9c => .binary .numEqual
    | 0x9d => .binary .numEqualVerify
    | 0x9e => .binary .numNotEqual
    | 0x9f => .binary .lessThan
    | 0xa0 => .binary .greaterThan
    | 0xa1 => .binary .lessThanOrEqual
    | 0xa2 => .binary .greaterThanOrEqual
    | 0xa3 => .binary .min
    | 0xa4 => .binary .max
    | 0xa5 => .within
    | 0xa6 => .hash .ripemd160
    | 0xa7 => .hash .sha1
    | 0xa8 => .hash .sha256
    | 0xa9 => .hash .hash160
    | 0xaa => .hash .hash256
    | 0xab => .codeSeparator
    | 0xac => .checkSig false
    | 0xad => .checkSig true
    | 0xae => .checkMultiSig false
    | 0xaf => .checkMultiSig true
    | _ => .bad

/-- The opcodes that fail wherever they stand: `OP_CAT` to `OP_RIGHT`, `OP_INVERT` to `OP_XOR`, `OP_2MUL`,
`OP_2DIV`, and `OP_MUL` to `OP_RSHIFT`. -/
def isDisabledOpcode (opcode : Nat) : Bool :=
  [0x7e, 0x7f, 0x80, 0x81, 0x83, 0x84, 0x85, 0x86, 0x8d, 0x8e, 0x95, 0x96, 0x97, 0x98, 0x99].contains opcode

/-- `OP_IF` to `OP_ENDIF`, which are looked at in branches that are not taken, too. -/
def isConditionalOpcode (opcode : Nat) : Bool :=
  decide (0x63 ≤ opcode) && decide (opcode ≤ 0x68)

/-! ## Stacks -/

abbrev ScriptStack := List Bytes

abbrev fail {α : Type} (e : ScriptError) : Except ScriptFault α :=
  .error (.error e)

/-- `stacktop(-i)`. -/
def stacktop (stack : ScriptStack) : Nat → Except ScriptFault Bytes
  | 0 => .error .outOfRange
  | i + 1 =>
    match stack[i]? with
    | none => .error .outOfRange
    | some vch => .ok vch

def popstack : ScriptStack → Except ScriptFault ScriptStack
  | [] => .error (.threw "popstack() : stack empty")
  | _ :: stack => .ok stack

def popTimes : Nat → ScriptStack → Except ScriptFault ScriptStack
  | 0, stack => .ok stack
  | n + 1, stack => do
    let stack ← popstack stack
    popTimes n stack

/-- `stack.erase(stack.end()-i)`. -/
def eraseTop (stack : ScriptStack) (i : Nat) : Except ScriptFault ScriptStack :=
  if 1 ≤ i ∧ i ≤ stack.length then .ok (stack.eraseIdx (i - 1)) else .error .outOfRange

/-- `stack.insert(stack.end()-i, vch)`. -/
def insertTop (stack : ScriptStack) (i : Nat) (vch : Bytes) : Except ScriptFault ScriptStack :=
  if i ≤ stack.length then .ok (stack.take i ++ vch :: stack.drop i) else .error .outOfRange

/-- `swap(stacktop(-i), stacktop(-j))`. -/
def swapTop (stack : ScriptStack) (i j : Nat) : Except ScriptFault ScriptStack := do
  let vch1 ← stacktop stack i
  let vch2 ← stacktop stack j
  .ok ((stack.set (i - 1) vch2).set (j - 1) vch1)

/-- `return set_error(..)` on a stack with fewer elements. -/
def needStack (stack : ScriptStack) (n : Nat) (e : ScriptError) : Except ScriptFault Unit :=
  rejectIf (stack.length < n) (.error e)

def vchFalse : Bytes := []
def vchTrue : Bytes := [1]

/-- Push the outcome; the `VERIFY` form takes it off again, or fails. -/
def pushOutcome (stack : ScriptStack) (fSuccess verify : Bool) (e : ScriptError) :
    Except ScriptFault ScriptStack :=
  let stack := (if fSuccess then vchTrue else vchFalse) :: stack
  if verify then
    if fSuccess then popstack stack else fail e
  else .ok stack

/-! ## What a script runs in -/

/-- `BaseSignatureChecker`. -/
structure BaseSignatureChecker where
  checkSig : Bytes → Bytes → CScript → Bool
  checkLockTime : Int → Bool

/-- The hash functions that scripts can call. -/
structure ScriptHashes where
  ripemd160 : Bytes → Bytes
  sha1 : Bytes → Bytes
  sha256 : Bytes → Bytes
  hash160 : Bytes → Bytes
  hash256 : Bytes → Bytes

structure ScriptEnv where
  hashes : ScriptHashes
  checker : BaseSignatureChecker
  flags : UInt32

namespace ScriptEnv

def has (E : ScriptEnv) (flag : UInt32) : Bool :=
  hasFlag E.flags flag

/-- A stack element as a number. -/
def number (E : ScriptEnv) (stack : ScriptStack) (i : Nat) : Except ScriptFault Int := do
  let vch ← stacktop stack i
  CScriptNum.ofBytes vch (E.has scriptVerifyMinimalData) CScriptNum.nMaxNumSize

end ScriptEnv

/-- The variables of `EvalScript`: the rest of the script and the part since the last code separator are
the two iterators, and `vfExec` has the innermost branch first. -/
structure EvalState where
  pc : Bytes
  pbegincodehash : Bytes
  stack : ScriptStack
  altstack : ScriptStack
  vfExec : List Bool
  nOpCount : Nat
  deriving DecidableEq

namespace EvalState

/-- No branch that the script is in is skipped. -/
def fExec (s : EvalState) : Bool :=
  s.vfExec.all id

def withStack (s : EvalState) (stack : ScriptStack) : EvalState :=
  { s with stack }

end EvalState

/-! ## Operations -/

def ScriptHashes.apply (H : ScriptHashes) : HashOp → Bytes → Bytes
  | .ripemd160 => H.ripemd160
  | .sha1 => H.sha1
  | .sha256 => H.sha256
  | .hash160 => H.hash160
  | .hash256 => H.hash256

def boolNumber (b : Bool) : Int :=
  if b then 1 else 0

def UnaryOp.apply : UnaryOp → Int → Int
  | .add1, bn => bn + 1
  | .sub1, bn => bn - 1
  | .negate, bn => -bn
  | .abs, bn => if bn < 0 then -bn else bn
  | .not, bn => boolNumber (bn == 0)
  | .notEqual0, bn => boolNumber (bn != 0)

def BinaryOp.apply : BinaryOp → Int → Int → Int
  | .add, bn1, bn2 => bn1 + bn2
  | .sub, bn1, bn2 => bn1 - bn2
  | .boolAnd, bn1, bn2 => boolNumber (bn1 != 0 && bn2 != 0)
  | .boolOr, bn1, bn2 => boolNumber (bn1 != 0 || bn2 != 0)
  | .numEqual, bn1, bn2 => boolNumber (bn1 == bn2)
  | .numEqualVerify, bn1, bn2 => boolNumber (bn1 == bn2)
  | .numNotEqual, bn1, bn2 => boolNumber (bn1 != bn2)
  | .lessThan, bn1, bn2 => boolNumber (bn1 < bn2)
  | .greaterThan, bn1, bn2 => boolNumber (bn1 > bn2)
  | .lessThanOrEqual, bn1, bn2 => boolNumber (bn1 ≤ bn2)
  | .greaterThanOrEqual, bn1, bn2 => boolNumber (bn1 ≥ bn2)
  | .min, bn1, bn2 => if bn1 < bn2 then bn1 else bn2
  | .max, bn1, bn2 => if bn1 > bn2 then bn1 else bn2

def StackOp.run (s : EvalState) : StackOp → Except ScriptFault EvalState
  | .toAltStack => do
    needStack s.stack 1 .invalidStackOperation
    let vch ← stacktop s.stack 1
    let stack ← popstack s.stack
    .ok { s with stack := stack, altstack := vch :: s.altstack }
  | .fromAltStack => do
    needStack s.altstack 1 .invalidAltStackOperation
    let vch ← stacktop s.altstack 1
    let altstack ← popstack s.altstack
    .ok { s with stack := vch :: s.stack, altstack := altstack }
  | .drop2 => do
    needStack s.stack 2 .invalidStackOperation
    let stack ← popstack s.stack
    let stack ← popstack stack
    .ok (s.withStack stack)
  | .dup2 => do
    needStack s.stack 2 .invalidStackOperation
    let vch1 ← stacktop s.stack 2
    let vch2 ← stacktop s.stack 1
    .ok (s.withStack (vch2 :: vch1 :: s.stack))
  | .dup3 => do
    needStack s.stack 3 .invalidStackOperation
    let vch1 ← stacktop s.stack 3
    let vch2 ← stacktop s.stack 2
    let vch3 ← stacktop s.stack 1
    .ok (s.withStack (vch3 :: vch2 :: vch1 :: s.stack))
  | .over2 => do
    needStack s.stack 4 .invalidStackOperation
    let vch1 ← stacktop s.stack 4
    let vch2 ← stacktop s.stack 3
    .ok (s.withStack (vch2 :: vch1 :: s.stack))
  | .rot2 => do
    needStack s.stack 6 .invalidStackOperation
    let vch1 ← stacktop s.stack 6
    let vch2 ← stacktop s.stack 5
    -- The range of two elements, one after the other.
    let stack ← eraseTop s.stack 6
    let stack ← eraseTop stack 5
    .ok (s.withStack (vch2 :: vch1 :: stack))
  | .swap2 => do
    needStack s.stack 4 .invalidStackOperation
    let stack ← swapTop s.stack 4 2
    let stack ← swapTop stack 3 1
    .ok (s.withStack stack)
  | .ifDup => do
    needStack s.stack 1 .invalidStackOperation
    let vch ← stacktop s.stack 1
    .ok (if castToBool vch then s.withStack (vch :: s.stack) else s)
  | .depth => .ok (s.withStack (CScriptNum.serialize s.stack.length :: s.stack))
  | .drop => do
    needStack s.stack 1 .invalidStackOperation
    let stack ← popstack s.stack
    .ok (s.withStack stack)
  | .dup => do
    needStack s.stack 1 .invalidStackOperation
    let vch ← stacktop s.stack 1
    .ok (s.withStack (vch :: s.stack))
  | .nip => do
    needStack s.stack 2 .invalidStackOperation
    let stack ← eraseTop s.stack 2
    .ok (s.withStack stack)
  | .over => do
    needStack s.stack 2 .invalidStackOperation
    let vch ← stacktop s.stack 2
    .ok (s.withStack (vch :: s.stack))
  | .rot => do
    needStack s.stack 3 .invalidStackOperation
    let stack ← swapTop s.stack 3 2
    let stack ← swapTop stack 2 1
    .ok (s.withStack stack)
  | .swap => do
    needStack s.stack 2 .invalidStackOperation
    let stack ← swapTop s.stack 2 1
    .ok (s.withStack stack)
  | .tuck => do
    needStack s.stack 2 .invalidStackOperation
    let vch ← stacktop s.stack 1
    let stack ← insertTop s.stack 2 vch
    .ok (s.withStack stack)
  | .size => do
    needStack s.stack 1 .invalidStackOperation
    let vch ← stacktop s.stack 1
    .ok (s.withStack (CScriptNum.serialize vch.length :: s.stack))

/-- `OP_PICK` and `OP_ROLL`. -/
def runPick (E : ScriptEnv) (s : EvalState) (roll : Bool) : Except ScriptFault EvalState := do
  needStack s.stack 2 .invalidStackOperation
  let bn ← E.number s.stack 1
  let n := CScriptNum.getInt bn
  let stack ← popstack s.stack
  rejectIf (n < 0 ∨ n ≥ stack.length) (.error .invalidStackOperation)
  let vch ← stacktop stack (n.toNat + 1)
  let stack ← (if roll then eraseTop stack (n.toNat + 1) else .ok stack)
  .ok (s.withStack (vch :: stack))

def runEqual (s : EvalState) (verify : Bool) : Except ScriptFault EvalState := do
  needStack s.stack 2 .invalidStackOperation
  let vch1 ← stacktop s.stack 2
  let vch2 ← stacktop s.stack 1
  let stack ← popTimes 2 s.stack
  let stack ← pushOutcome stack (vch1 == vch2) verify .equalVerify
  .ok (s.withStack stack)

def UnaryOp.run (E : ScriptEnv) (s : EvalState) (op : UnaryOp) : Except ScriptFault EvalState := do
  needStack s.stack 1 .invalidStackOperation
  let bn ← E.number s.stack 1
  let stack ← popstack s.stack
  .ok (s.withStack (CScriptNum.serialize (op.apply bn) :: stack))

def BinaryOp.run (E : ScriptEnv) (s : EvalState) (op : BinaryOp) : Except ScriptFault EvalState := do
  needStack s.stack 2 .invalidStackOperation
  let bn1 ← E.number s.stack 2
  let bn2 ← E.number s.stack 1
  let stack ← popTimes 2 s.stack
  let stack := CScriptNum.serialize (op.apply bn1 bn2) :: stack
  if op = .numEqualVerify then do
    let vch ← stacktop stack 1
    rejectIf (castToBool vch = false) (.error .numEqualVerify)
    let stack ← popstack stack
    .ok (s.withStack stack)
  else .ok (s.withStack stack)

def runWithin (E : ScriptEnv) (s : EvalState) : Except ScriptFault EvalState := do
  needStack s.stack 3 .invalidStackOperation
  let bn1 ← E.number s.stack 3
  let bn2 ← E.number s.stack 2
  let bn3 ← E.number s.stack 1
  let stack ← popTimes 3 s.stack
  .ok (s.withStack ((if bn2 ≤ bn1 ∧ bn1 < bn3 then vchTrue else vchFalse) :: stack))

def runHash (E : ScriptEnv) (s : EvalState) (op : HashOp) : Except ScriptFault EvalState := do
  needStack s.stack 1 .invalidStackOperation
  let vch ← stacktop s.stack 1
  let stack ← popstack s.stack
  .ok (s.withStack (E.hashes.apply op vch :: stack))

/-- `OP_IF` and `OP_NOTIF`. -/
def runIf (s : EvalState) (negated : Bool) : Except ScriptFault EvalState :=
  if s.fExec then do
    needStack s.stack 1 .unbalancedConditional
    let vch ← stacktop s.stack 1
    let stack ← popstack s.stack
    .ok { s with stack := stack, vfExec := xor negated (castToBool vch) :: s.vfExec }
  else .ok { s with vfExec := false :: s.vfExec }

def runElse (s : EvalState) : Except ScriptFault EvalState :=
  match s.vfExec with
  | [] => fail .unbalancedConditional
  | back :: vfExec => .ok { s with vfExec := (!back) :: vfExec }

def runEndIf (s : EvalState) : Except ScriptFault EvalState :=
  match s.vfExec with
  | [] => fail .unbalancedConditional
  | _ :: vfExec => .ok { s with vfExec }

def runVerify (s : EvalState) : Except ScriptFault EvalState := do
  needStack s.stack 1 .invalidStackOperation
  let vch ← stacktop s.stack 1
  rejectIf (castToBool vch = false) (.error .verify)
  let stack ← popstack s.stack
  .ok (s.withStack stack)

def runUpgradableNop (E : ScriptEnv) (s : EvalState) : Except ScriptFault EvalState :=
  if E.has scriptVerifyDiscourageUpgradableNops then fail .discourageUpgradableNops else .ok s

/-- The operand of `OP_CHECKLOCKTIMEVERIFY`, of up to five bytes. -/
def lockTimeOperand (E : ScriptEnv) (s : EvalState) : Except ScriptFault Int := do
  let vch ← stacktop s.stack 1
  CScriptNum.ofBytes vch (E.has scriptVerifyMinimalData) 5

def runCheckLockTimeVerify (E : ScriptEnv) (s : EvalState) : Except ScriptFault EvalState :=
  -- Not enabled: what `OP_NOP2` did.
  if E.has scriptVerifyCheckLockTimeVerify = false then runUpgradableNop E s
  else do
    needStack s.stack 1 .invalidStackOperation
    let nLockTime ← lockTimeOperand E s
    rejectIf (nLockTime < 0) (.error .negativeLockTime)
    rejectIf (E.checker.checkLockTime nLockTime = false) (.error .unsatisfiedLockTime)
    .ok s

/-! ## Signature checks -/

/-- What both signature operations ask of a signature and a key before they are checked. -/
def checkEncodings (E : ScriptEnv) (vchSig vchPubKey : Bytes) : Except ScriptFault Unit :=
  match checkSignatureEncoding vchSig E.flags, checkPubKeyEncoding vchPubKey E.flags with
  | .error e, _ => fail e
  | .ok (), .error e => fail e
  | .ok (), .ok () => .ok ()

def runCheckSig (E : ScriptEnv) (s : EvalState) (verify : Bool) : Except ScriptFault EvalState := do
  needStack s.stack 2 .invalidStackOperation
  let vchSig ← stacktop s.stack 2
  let vchPubKey ← stacktop s.stack 1
  let scriptCode := CScript.findAndDelete s.pbegincodehash (CScript.pushBytes vchSig)
  checkEncodings E vchSig vchPubKey
  let fSuccess := E.checker.checkSig vchSig vchPubKey scriptCode
  let stack ← popTimes 2 s.stack
  let stack ← pushOutcome stack fSuccess verify .checkSigVerify
  .ok (s.withStack stack)

/-- Take `n` signatures, from `isig` on, out of the script code. -/
def deleteSigs (stack : ScriptStack) : Nat → Nat → CScript → Except ScriptFault CScript
  | 0, _, scriptCode => .ok scriptCode
  | n + 1, isig, scriptCode => do
    let vchSig ← stacktop stack isig
    deleteSigs stack n (isig + 1) (CScript.findAndDelete scriptCode (CScript.pushBytes vchSig))

/-- The loop over keys and signatures: the number of keys left, the two positions and the number of
signatures left, of which there are never more than keys. -/
def multiSigLoop (E : ScriptEnv) (scriptCode : CScript) (stack : ScriptStack) :
    Nat → Nat → Nat → Nat → Except ScriptFault Bool
  | _, _, _, 0 => .ok true
  | 0, _, _, _ + 1 => .ok false
  | nKeysCount + 1, ikey, isig, nSigsCount + 1 => do
    let vchSig ← stacktop stack isig
    let vchPubKey ← stacktop stack ikey
    checkEncodings E vchSig vchPubKey
    let fOk := E.checker.checkSig vchSig vchPubKey scriptCode
    let isig := if fOk then isig + 1 else isig
    let nSigsCount := if fOk then nSigsCount else nSigsCount + 1
    if nSigsCount > nKeysCount then .ok false
    else multiSigLoop E scriptCode stack nKeysCount (ikey + 1) isig nSigsCount

def runCheckMultiSig (E : ScriptEnv) (s : EvalState) (verify : Bool) : Except ScriptFault EvalState := do
  needStack s.stack 1 .invalidStackOperation
  let bnKeys ← E.number s.stack 1
  let nKeys := CScriptNum.getInt bnKeys
  rejectIf (nKeys < 0 ∨ nKeys > 20) (.error .pubKeyCount)
  let nKeysCount := nKeys.toNat
  let nOpCount := s.nOpCount + nKeysCount
  rejectIf (nOpCount > 201) (.error .opCount)
  needStack s.stack (2 + nKeysCount) .invalidStackOperation
  let bnSigs ← E.number s.stack (2 + nKeysCount)
  let nSigs := CScriptNum.getInt bnSigs
  rejectIf (nSigs < 0 ∨ nSigs > nKeys) (.error .sigCount)
  let nSigsCount := nSigs.toNat
  let isig := 3 + nKeysCount
  needStack s.stack (isig + nSigsCount) .invalidStackOperation
  let scriptCode ← deleteSigs s.stack nSigsCount isig s.pbegincodehash
  let fSuccess ← multiSigLoop E scriptCode s.stack nKeysCount 2 isig nSigsCount
  let stack ← popTimes (2 + nKeysCount + nSigsCount) s.stack
  -- One more element is taken off than there are arguments.
  needStack stack 1 .invalidStackOperation
  let dummy ← stacktop stack 1
  rejectIf (E.has scriptVerifyNullDummy = true ∧ dummy ≠ []) (.error .sigNullDummy)
  let stack ← popstack stack
  let stack ← pushOutcome stack fSuccess verify .checkMultiSigVerify
  .ok { s with stack := stack, nOpCount := nOpCount }

/-! ## EvalScript -/

/-- The body of the `switch`, with `pc` behind the opcode. -/
def runOp (E : ScriptEnv) (s : EvalState) : Op → Except ScriptFault EvalState
  | .pushNumber n => .ok (s.withStack (CScriptNum.serialize n :: s.stack))
  | .nop => .ok s
  | .checkLockTimeVerify => runCheckLockTimeVerify E s
  | .upgradableNop => runUpgradableNop E s
  | .opIf negated => runIf s negated
  | .opElse => runElse s
  | .opEndIf => runEndIf s
  | .verify => runVerify s
  | .opReturn => fail .opReturn
  | .stack op => op.run s
  | .pick roll => runPick E s roll
  | .equal verify => runEqual s verify
  | .unary op => op.run E s
  | .binary op => op.run E s
  | .within => runWithin E s
  | .hash op => runHash E s op
  | .codeSeparator => .ok { s with pbegincodehash := s.pc }
  | .checkSig verify => runCheckSig E s verify
  | .checkMultiSig verify => runCheckMultiSig E s verify
  | .bad => fail .badOpcode

def maxScriptElementSize : Nat := 520

/-- Push the data of a push, or run the operation; nothing of either in a branch that is skipped. -/
def execute (E : ScriptEnv) (s : EvalState) (opcode : Nat) (vchPushValue : Bytes) :
    Except ScriptFault EvalState :=
  if s.fExec = true ∧ opcode ≤ opPushData4 then do
    rejectIf (E.has scriptVerifyMinimalData = true ∧ checkMinimalPush vchPushValue opcode = false)
      (.error .minimalData)
    .ok (s.withStack (vchPushValue :: s.stack))
  else if s.fExec = true ∨ isConditionalOpcode opcode = true then runOp E s (opOf opcode)
  else .ok s

/-- One round of the loop. -/
def EvalState.step (E : ScriptEnv) (s : EvalState) : Except ScriptFault EvalState :=
  match CScript.getOp s.pc with
  | none => fail .badOpcode
  | some (opcode, vchPushValue, pc) => do
    rejectIf (vchPushValue.length > maxScriptElementSize) (.error .pushSize)
    let nOpCount := if opcode > op16 then s.nOpCount + 1 else s.nOpCount
    rejectIf (opcode > op16 ∧ nOpCount > 201) (.error .opCount)
    rejectIf (isDisabledOpcode opcode = true) (.error .disabledOpcode)
    let s ← execute E { s with pc := pc, nOpCount := nOpCount } opcode vchPushValue
    rejectIf (s.stack.length + s.altstack.length > 1000) (.error .stackSize)
    .ok s

/-- The loop; every round reads at least one byte. -/
def evalLoop (E : ScriptEnv) : Nat → EvalState → Except ScriptFault EvalState
  | 0, s => .ok s
  | fuel + 1, s =>
    if s.pc = [] then .ok s
    else do
      let s ← s.step E
      evalLoop E fuel s

/-- Where `EvalScript` starts. -/
def EvalState.start (stack : ScriptStack) (script : CScript) : EvalState :=
  ⟨script, script, stack, [], [], 0⟩

def evalScript (E : ScriptEnv) (stack : ScriptStack) (script : CScript) : Except ScriptError ScriptStack :=
  if script.length > 10000 then .error .scriptSize
  else
    match evalLoop E script.length (.start stack script) with
    | .error fault => .error fault.toError
    | .ok s => if s.vfExec ≠ [] then .error .unbalancedConditional else .ok s.stack

/-! ## VerifyScript -/

/-- The script must leave true on top. -/
def checkTop (stack : ScriptStack) : Except ScriptError Unit :=
  match stack with
  | [] => .error .evalFalse
  | back :: _ => rejectIf (castToBool back = false) .evalFalse

/-- The redeem script is the last element that `scriptSig` left.  That there is one is an assertion. -/
def verifyRedeemScript (E : ScriptEnv) (scriptSig : CScript) (stackCopy : ScriptStack) :
    Except ScriptError Unit := do
  rejectIf (CScript.isPushOnly scriptSig = false) .sigPushOnly
  match stackCopy with
  | [] => .error .unknownError
  | pubKey2 :: stackCopy => do
    let stack ← evalScript E stackCopy pubKey2
    checkTop stack

def verifyScript (E : ScriptEnv) (scriptSig scriptPubKey : CScript) : Except ScriptError Unit := do
  rejectIf (E.has scriptVerifySigPushOnly = true ∧ CScript.isPushOnly scriptSig = false) .sigPushOnly
  let stackCopy ← evalScript E [] scriptSig
  let stack ← evalScript E stackCopy scriptPubKey
  checkTop stack
  if E.has scriptVerifyP2SH = true ∧ CScript.isPayToScriptHash scriptPubKey = true then
    verifyRedeemScript E scriptSig stackCopy
  else .ok ()

end Dobbscoin
