import Dobbscoin.Script.Bounds
import Dobbscoin.Script.NumCodec
import Mathlib.Data.Nat.Bitwise

/-!
# Script numbers in 64 bits

`CScriptNum` computes with `int64_t`, and asserts before some of its operations that the result fits.  Here
the interpreter is run with that arithmetic, in which an operation can break.
-/

namespace Dobbscoin

open ByteCodec Guard Guard.Checked

/-! ## CScriptNum -/

def int64Max : Int := 2 ^ 63 - 1
def int64Min : Int := -2 ^ 63

/-- A signed operation with this exact result. -/
def int64 (n : Int) : Checked ScriptFault Int :=
  if int64Min ≤ n ∧ n ≤ int64Max then .ok n else .error none

namespace CScriptNum

/-- `operator+=`. -/
def plusAssign (value rhs : Int) : Checked ScriptFault Int := do
  assertThat (rhs = 0 ∨ (rhs > 0 ∧ value ≤ int64Max - rhs) ∨ (rhs < 0 ∧ value ≥ int64Min - rhs))
  int64 (value + rhs)

/-- `operator-=`. -/
def minusAssign (value rhs : Int) : Checked ScriptFault Int := do
  assertThat (rhs = 0 ∨ (rhs > 0 ∧ value ≥ int64Min + rhs) ∨ (rhs < 0 ∧ value ≤ int64Max + rhs))
  int64 (value - rhs)

/-- The unary `operator-`. -/
def negated (value : Int) : Checked ScriptFault Int := do
  assertThat (value ≠ int64Min)
  int64 (-value)

/-- The loop of `set_vch`, from byte `i` on. -/
def setVchLoop : Nat → Nat → Bytes → Checked ScriptFault Nat
  | _, result, [] => .ok result
  | i, result, b :: rest => do
    -- `static_cast<int64_t>(vch[i]) << 8*i`.
    assertThat (8 * i < 64 ∧ b.toNat <<< (8 * i) < 2 ^ 63)
    setVchLoop (i + 1) (result ||| b.toNat <<< (8 * i)) rest

/-- `set_vch`. -/
def setVch64 (vch : Bytes) : Checked ScriptFault Int :=
  match vch.getLast? with
  | none => .ok 0
  | some back => do
    let result ← setVchLoop 0 0 vch
    if back &&& 0x80 ≠ 0 then int64 (-(Nat.ldiff result (0x80 <<< (8 * (vch.length - 1))) : Nat))
    else .ok result

def ofBytes64 (vch : Bytes) (fRequireMinimal : Bool) (nMaxNumSizeIn : Nat) : Checked ScriptFault Int := do
  lift (rejectIf (vch.length > nMaxNumSizeIn) (.threw "script number overflow"))
  lift (rejectIf (fRequireMinimal = true ∧ isMinimal vch = false)
    (.threw "non-minimally encoded script number"))
  setVch64 vch

/-- `serialize`, in which the magnitude of a negative value is taken by a signed operation. -/
def serialize64 (value : Int) : Checked ScriptFault Bytes := do
  let absvalue ← (if value < 0 then int64 (-value) else .ok value)
  let result := absBytes 8 absvalue.toNat
  match result.getLast? with
  | none => .ok []
  | some back =>
    .ok (if back &&& 0x80 ≠ 0 then result ++ [if value < 0 then 0x80 else 0]
      else if value < 0 then result.dropLast ++ [back ||| 0x80]
      else result)

end CScriptNum

/-! ## Operations -/

def UnaryOp.apply64 : UnaryOp → Int → Checked ScriptFault Int
  | .add1, bn => CScriptNum.plusAssign bn 1
  | .sub1, bn => CScriptNum.minusAssign bn 1
  | .negate, bn => CScriptNum.negated bn
  | .abs, bn => if bn < 0 then CScriptNum.negated bn else .ok bn
  | .not, bn => .ok (boolNumber (bn == 0))
  | .notEqual0, bn => .ok (boolNumber (bn != 0))

/-- `OP_ADD` and `OP_SUB` compute; the other operations compare and choose. -/
def BinaryOp.apply64 : BinaryOp → Int → Int → Checked ScriptFault Int
  | .add, bn1, bn2 => int64 (bn1 + bn2)
  | .sub, bn1, bn2 => int64 (bn1 - bn2)
  | op, bn1, bn2 => .ok (op.apply bn1 bn2)

def ScriptEnv.number64 (E : ScriptEnv) (stack : ScriptStack) (i : Nat) : Checked ScriptFault Int := do
  let vch ← lift (stacktop stack i)
  CScriptNum.ofBytes64 vch (E.has scriptVerifyMinimalData) CScriptNum.nMaxNumSize

/-- A number is made and its bytes are pushed. -/
def pushNumber64 (s : EvalState) (stack : ScriptStack) (n : Int) : Checked ScriptFault EvalState := do
  let bn ← int64 n
  let vch ← CScriptNum.serialize64 bn
  .ok (s.withStack (vch :: stack))

def runSize64 (s : EvalState) : Checked ScriptFault EvalState := do
  lift (needStack s.stack 1 .invalidStackOperation)
  let vch ← lift (stacktop s.stack 1)
  pushNumber64 s s.stack vch.length

def runPick64 (E : ScriptEnv) (s : EvalState) (roll : Bool) : Checked ScriptFault EvalState := do
  lift (needStack s.stack 2 .invalidStackOperation)
  let bn ← E.number64 s.stack 1
  let n := CScriptNum.getInt bn
  let stack ← lift (popstack s.stack)
  lift (rejectIf (n < 0 ∨ n ≥ stack.length) (.error .invalidStackOperation))
  let vch ← lift (stacktop stack (n.toNat + 1))
  let stack ← lift (if roll then eraseTop stack (n.toNat + 1) else .ok stack)
  .ok (s.withStack (vch :: stack))

def UnaryOp.run64 (E : ScriptEnv) (s : EvalState) (op : UnaryOp) : Checked ScriptFault EvalState := do
  lift (needStack s.stack 1 .invalidStackOperation)
  let bn ← E.number64 s.stack 1
  let bn ← op.apply64 bn
  let stack ← lift (popstack s.stack)
  let vch ← CScriptNum.serialize64 bn
  .ok (s.withStack (vch :: stack))

def BinaryOp.run64 (E : ScriptEnv) (s : EvalState) (op : BinaryOp) : Checked ScriptFault EvalState := do
  lift (needStack s.stack 2 .invalidStackOperation)
  let bn1 ← E.number64 s.stack 2
  let bn2 ← E.number64 s.stack 1
  let bn ← op.apply64 bn1 bn2
  let stack ← lift (popTimes 2 s.stack)
  let vch ← CScriptNum.serialize64 bn
  let stack := vch :: stack
  if op = .numEqualVerify then do
    let vch ← lift (stacktop stack 1)
    lift (rejectIf (castToBool vch = false) (.error .numEqualVerify))
    let stack ← lift (popstack stack)
    .ok (s.withStack stack)
  else .ok (s.withStack stack)

def runWithin64 (E : ScriptEnv) (s : EvalState) : Checked ScriptFault EvalState := do
  lift (needStack s.stack 3 .invalidStackOperation)
  let bn1 ← E.number64 s.stack 3
  let bn2 ← E.number64 s.stack 2
  let bn3 ← E.number64 s.stack 1
  let stack ← lift (popTimes 3 s.stack)
  .ok (s.withStack ((if bn2 ≤ bn1 ∧ bn1 < bn3 then vchTrue else vchFalse) :: stack))

def lockTimeOperand64 (E : ScriptEnv) (s : EvalState) : Checked ScriptFault Int := do
  let vch ← lift (stacktop s.stack 1)
  CScriptNum.ofBytes64 vch (E.has scriptVerifyMinimalData) 5

def runCheckLockTimeVerify64 (E : ScriptEnv) (s : EvalState) : Checked ScriptFault EvalState :=
  if E.has scriptVerifyCheckLockTimeVerify = false then lift (runUpgradableNop E s)
  else do
    lift (needStack s.stack 1 .invalidStackOperation)
    let nLockTime ← lockTimeOperand64 E s
    lift (rejectIf (nLockTime < 0) (.error .negativeLockTime))
    lift (rejectIf (E.checker.checkLockTime nLockTime = false) (.error .unsatisfiedLockTime))
    .ok s

def runCheckMultiSig64 (E : ScriptEnv) (s : EvalState) (verify : Bool) : Checked ScriptFault EvalState := do
  lift (needStack s.stack 1 .invalidStackOperation)
  let bnKeys ← E.number64 s.stack 1
  let nKeys := CScriptNum.getInt bnKeys
  lift (rejectIf (nKeys < 0 ∨ nKeys > 20) (.error .pubKeyCount))
  let nKeysCount := nKeys.toNat
  let nOpCount := s.nOpCount + nKeysCount
  lift (rejectIf (nOpCount > 201) (.error .opCount))
  lift (needStack s.stack (2 + nKeysCount) .invalidStackOperation)
  let bnSigs ← E.number64 s.stack (2 + nKeysCount)
  let nSigs := CScriptNum.getInt bnSigs
  lift (rejectIf (nSigs < 0 ∨ nSigs > nKeys) (.error .sigCount))
  let nSigsCount := nSigs.toNat
  let isig := 3 + nKeysCount
  lift (needStack s.stack (isig + nSigsCount) .invalidStackOperation)
  let scriptCode ← lift (deleteSigs s.stack nSigsCount isig s.pbegincodehash)
  let fSuccess ← lift (multiSigLoop E scriptCode s.stack nKeysCount 2 isig nSigsCount)
  let stack ← lift (popTimes (2 + nKeysCount + nSigsCount) s.stack)
  lift (needStack stack 1 .invalidStackOperation)
  let dummy ← lift (stacktop stack 1)
  lift (rejectIf (E.has scriptVerifyNullDummy = true ∧ dummy ≠ []) (.error .sigNullDummy))
  let stack ← lift (popstack stack)
  let stack ← lift (pushOutcome stack fSuccess verify .checkMultiSigVerify)
  .ok { s with stack := stack, nOpCount := nOpCount }

/-- `runOp` in 64 bits; the operations that use no numbers are the same. -/
def runOp64 (E : ScriptEnv) (s : EvalState) : Op → Checked ScriptFault EvalState
  | .pushNumber n => pushNumber64 s s.stack n
  | .checkLockTimeVerify => runCheckLockTimeVerify64 E s
  | .stack .depth => pushNumber64 s s.stack s.stack.length
  | .stack .size => runSize64 s
  | .pick roll => runPick64 E s roll
  | .unary op => op.run64 E s
  | .binary op => op.run64 E s
  | .within => runWithin64 E s
  | .checkMultiSig verify => runCheckMultiSig64 E s verify
  | op => lift (runOp E s op)

/-! ## EvalScript -/

def execute64 (E : ScriptEnv) (s : EvalState) (opcode : Nat) (vchPushValue : Bytes) :
    Checked ScriptFault EvalState :=
  if s.fExec = true ∧ opcode ≤ opPushData4 then lift (execute E s opcode vchPushValue)
  else if s.fExec = true ∨ isConditionalOpcode opcode = true then runOp64 E s (opOf opcode)
  else .ok s

def EvalState.step64 (E : ScriptEnv) (s : EvalState) : Checked ScriptFault EvalState :=
  match CScript.getOp s.pc with
  | none => .error (some (.error .badOpcode))
  | some (opcode, vchPushValue, pc) => do
    lift (rejectIf (vchPushValue.length > maxScriptElementSize) (.error .pushSize))
    let nOpCount := if opcode > op16 then s.nOpCount + 1 else s.nOpCount
    lift (rejectIf (opcode > op16 ∧ nOpCount > 201) (.error .opCount))
    lift (rejectIf (isDisabledOpcode opcode = true) (.error .disabledOpcode))
    let s ← execute64 E { s with pc := pc, nOpCount := nOpCount } opcode vchPushValue
    lift (rejectIf (s.stack.length + s.altstack.length > 1000) (.error .stackSize))
    .ok s

def evalLoop64 (E : ScriptEnv) : Nat → EvalState → Checked ScriptFault EvalState
  | 0, s => .ok s
  | fuel + 1, s =>
    if s.pc = [] then .ok s
    else do
      let s ← s.step64 E
      evalLoop64 E fuel s

/-! ## Numbers agree -/

theorem int64_eq {n : Int} (h : n.natAbs < 2 ^ 63) : int64 n = .ok n := by
  unfold int64 int64Min int64Max
  rw [if_pos ⟨by omega, by omega⟩]

namespace CScriptNum

theorem ldiff_two_pow {j r : Nat} (h : r < 2 ^ j) : Nat.ldiff (2 ^ j + r) (2 ^ j) = r := by
  apply Nat.eq_of_testBit_eq
  intro i
  rw [Nat.testBit_ldiff, Nat.testBit_two_pow]
  rcases Nat.lt_trichotomy i j with hlt | rfl | hgt
  · rw [Nat.testBit_two_pow_add_gt hlt, decide_eq_false (by omega), Bool.not_false, Bool.and_true]
  · rw [Nat.testBit_lt_two_pow h, decide_eq_true rfl, Bool.not_true, Bool.and_false]
  · have hsum : 2 ^ j + r < 2 ^ i := by
      have hdouble : 2 ^ (j + 1) ≤ 2 ^ i := Nat.pow_le_pow_right (by decide) hgt
      omega
    rw [Nat.testBit_lt_two_pow hsum, Bool.false_and]
    exact (Nat.testBit_lt_two_pow (by omega)).symm

/-- The bytes of up to 56 bits are put together without overflow. -/
theorem setVchLoop_eq {i result : Nat} {rest : Bytes} (hresult : result < 2 ^ (8 * i)) (hlen : i + rest.length ≤ 7) :
    setVchLoop i result rest = .ok (result + 2 ^ (8 * i) * leNat rest) := by
  induction rest generalizing i result with
  | nil => rw [setVchLoop, leNat, Nat.mul_zero, Nat.add_zero]
  | cons b rest ih =>
    rw [List.length_cons] at hlen
    have hb := b.toNat_lt
    have hpow : 2 ^ (8 * (i + 1)) = 256 * 2 ^ (8 * i) := by
      rw [Nat.mul_add, pow_add, Nat.mul_comm]
      norm_num
    have htop : 2 ^ (8 * (i + 1)) ≤ 2 ^ 56 := Nat.pow_le_pow_right (by decide) (by omega)
    have hshift : b.toNat <<< (8 * i) + 2 ^ (8 * i) ≤ 2 ^ (8 * (i + 1)) := by
      rw [Nat.shiftLeft_eq, hpow, ← Nat.succ_mul]
      exact Nat.mul_le_mul_right _ hb
    have hfits : 8 * i < 64 ∧ b.toNat <<< (8 * i) < 2 ^ 63 := ⟨by omega, by omega⟩
    have hor : result ||| b.toNat <<< (8 * i) = result + b.toNat <<< (8 * i) := by
      rw [Nat.or_comm, ← Nat.shiftLeft_add_eq_or_of_lt hresult, Nat.add_comm]
    have hnext : result + b.toNat <<< (8 * i) < 2 ^ (8 * (i + 1)) := by omega
    rw [setVchLoop, assertThat, if_pos hfits, hor]
    calc
      setVchLoop (i + 1) (result + b.toNat <<< (8 * i)) rest
          = .ok (result + b.toNat <<< (8 * i) + 2 ^ (8 * (i + 1)) * leNat rest) := ih hnext (by omega)
      _ = .ok (result + 2 ^ (8 * i) * leNat (b :: rest)) := by
        rw [Nat.shiftLeft_eq, hpow, leNat]
        ring_nf

/-- What `setVch` can be of a number of bytes. -/
theorem natAbs_setVch_lt {vch : Bytes} {size : Nat} (h : vch.length ≤ size) (hpos : 0 < size) :
    (setVch vch).natAbs < 128 * 256 ^ (size - 1) := by
  rcases List.eq_nil_or_concat vch with rfl | ⟨init, last, rfl⟩
  · exact Nat.mul_pos (by decide) (Nat.pow_pos (by decide))
  · rw [List.concat_eq_append] at h ⊢
    rw [List.length_append, List.length_singleton] at h
    have hinit := leNat_lt init
    have hlast := last.toNat_lt
    have hsize : 256 ^ init.length ≤ 256 ^ (size - 1) := Nat.pow_le_pow_right (by decide) (by omega)
    have hmag : ∀ top, top < 128 → leNat init + 256 ^ init.length * top < 128 * 256 ^ (size - 1) := by
      intro top htop
      calc
        leNat init + 256 ^ init.length * top < 256 ^ init.length * (top + 1) := by
          rw [Nat.mul_succ, Nat.add_comm]
          exact Nat.add_lt_add_left hinit _
        _ ≤ 256 ^ (size - 1) * 128 := Nat.mul_le_mul hsize htop
        _ = 128 * 256 ^ (size - 1) := Nat.mul_comm _ _
    rw [setVch_append_singleton]
    split_ifs with hlow
    · rw [Int.natAbs_natCast]
      exact hmag _ hlow
    · rw [Int.natAbs_neg, Int.natAbs_natCast]
      exact hmag _ (by omega)

theorem setVch64_eq {vch : Bytes} (h : vch.length ≤ 7) : setVch64 vch = .ok (setVch vch) := by
  rcases List.eq_nil_or_concat vch with rfl | ⟨init, last, rfl⟩
  · rfl
  · rw [List.concat_eq_append] at h ⊢
    have hloop : setVchLoop 0 0 (init ++ [last]) = .ok (leNat (init ++ [last])) := by
      rw [setVchLoop_eq (by decide) (by omega), Nat.zero_add, Nat.mul_zero, pow_zero, Nat.one_mul]
    have hlen : (init ++ [last]).length - 1 = init.length := by simp
    have hpow : 256 ^ init.length = 2 ^ (8 * init.length) := by
      rw [pow_mul]
      norm_num
    have hbound := natAbs_setVch_lt h (by decide)
    unfold setVch64
    rw [List.getLast?_concat]
    dsimp only
    rw [hloop, setVch_append_singleton] at *
    by_cases hlow : last.toNat < 128
    · rw [if_pos hlow, ← leNat_append_singleton]
      simp only [bind, Except.bind]
      rw [if_neg (not_not.2 (topBit_eq_zero.2 hlow))]
    · -- The top bit of the last byte is taken out of the number.
      have hlast := last.toNat_lt
      have hinit := leNat_lt init
      have hrest : leNat init + 256 ^ init.length * (last.toNat - 128) < 2 ^ (8 * init.length + 7) := by
        calc
          leNat init + 256 ^ init.length * (last.toNat - 128)
              < 256 ^ init.length * (last.toNat - 128 + 1) := by
            rw [Nat.mul_succ, Nat.add_comm]
            exact Nat.add_lt_add_left hinit _
          _ ≤ 256 ^ init.length * 128 := Nat.mul_le_mul_left _ (by omega)
          _ = 2 ^ (8 * init.length + 7) := by
            rw [hpow, pow_add]
            norm_num
      have hsplit : leNat (init ++ [last]) =
          2 ^ (8 * init.length + 7) + (leNat init + 256 ^ init.length * (last.toNat - 128)) := by
        have hbyte : last.toNat = 128 + (last.toNat - 128) := by omega
        rw [leNat_append_singleton, pow_add, ← hpow]
        conv_lhs => rw [hbyte]
        ring
      have hmask : 0x80 <<< (8 * init.length) = 2 ^ (8 * init.length + 7) := by
        rw [Nat.shiftLeft_eq, pow_add, Nat.mul_comm]
        norm_num
      rw [if_neg hlow] at hbound ⊢
      simp only [bind, Except.bind]
      rw [if_pos fun hzero => hlow (topBit_eq_zero.1 hzero), hlen, hmask, hsplit, ldiff_two_pow hrest]
      exact int64_eq (Nat.lt_of_lt_of_le hbound (by decide))

theorem ofBytes64_agrees {vch : Bytes} {fRequireMinimal : Bool} {size : Nat} (h : size ≤ 7) :
    Agrees (ofBytes64 vch fRequireMinimal size) (ofBytes vch fRequireMinimal size) := by
  refine (Agrees.lift _).bind fun _ hsize => (Agrees.lift _).bind fun _ _ => ?_
  have hlen : vch.length ≤ size := Nat.not_lt.1 (rejectIf_eq_ok.1 hsize)
  rw [setVch64_eq (hlen.trans h)]
  exact .ok _

theorem serialize64_eq {n : Int} (h : n.natAbs < 2 ^ 63) : serialize64 n = .ok (serialize n) := by
  have habs : (if n < 0 then int64 (-n) else .ok n) = .ok (n.natAbs : Int) := by
    split_ifs with hneg
    · rw [int64_eq (by rwa [Int.natAbs_neg])]
      exact congrArg _ (by omega)
    · exact congrArg _ (by omega)
  unfold serialize64 serialize
  rw [habs]
  simp only [bind, Except.bind, Int.toNat_natCast]
  cases (absBytes 8 n.natAbs).getLast? <;> rfl

end CScriptNum

/-! ## Operations agree -/

section

variable (E : ScriptEnv) {s : EvalState}

theorem number64_agrees (stack : ScriptStack) (i : Nat) : Agrees (E.number64 stack i) (E.number stack i) :=
  (Agrees.lift _).bind fun _ _ => CScriptNum.ofBytes64_agrees (by decide)

/-- An operand has at most 31 bits and a sign. -/
theorem number_lt {stack : ScriptStack} {i : Nat} {bn : Int} (h : E.number stack i = .ok bn) : bn.natAbs < 2 ^ 31 := by
  simp only [ScriptEnv.number, CScriptNum.ofBytes, bind_eq_ok, rejectIf_eq_ok, exists_unit, Except.ok.injEq] at h
  rcases h with ⟨vch, -, hsize, -, rfl⟩
  have hlt := CScriptNum.natAbs_setVch_lt (Nat.not_lt.1 hsize) (by decide)
  exact hlt

theorem pushNumber64_agrees {stack : ScriptStack} {n : Int} (h : n.natAbs < 2 ^ 63) :
    Agrees (pushNumber64 s stack n) (.ok (s.withStack (CScriptNum.serialize n :: stack))) :=
  .bind_ok (int64_eq h) (.bind_ok (CScriptNum.serialize64_eq h) (.ok _))

theorem runSize64_agrees (hs : AllOf (fun vch => vch.length < 2 ^ 63) s.stack) :
    Agrees (runSize64 s) (StackOp.run s .size) := by
  refine (Agrees.lift _).bind fun _ hlen => (Agrees.lift _).bind fun vch hvch => ?_
  have hpos : 1 ≤ s.stack.length := Nat.not_lt.1 (rejectIf_eq_ok.1 hlen)
  have hsize : vch.length < 2 ^ 63 := (stacktop_outcome hs (by decide) hpos).of_ok hvch
  exact pushNumber64_agrees (by rwa [Int.natAbs_natCast])

theorem runPick64_agrees (roll : Bool) : Agrees (runPick64 E s roll) (runPick E s roll) := by
  refine (Agrees.lift _).bind fun _ _ => (number64_agrees E _ _).bind fun bn _ => ?_
  refine (Agrees.lift _).bind fun stack _ => (Agrees.lift _).bind fun _ _ => ?_
  exact (Agrees.lift _).bind fun vch _ => (Agrees.lift _).bind fun stack' _ => .ok _

theorem UnaryOp.apply64_eq (op : UnaryOp) {bn : Int} (h : bn.natAbs < 2 ^ 31) :
    op.apply64 bn = .ok (op.apply bn) ∧ (op.apply bn).natAbs < 2 ^ 63 := by
  have hneg : CScriptNum.negated bn = .ok (-bn) := by
    have hassert : bn ≠ int64Min := by
      unfold int64Min
      omega
    unfold CScriptNum.negated assertThat
    rw [if_pos hassert]
    exact int64_eq (by omega)
  have hbool : ∀ b, (boolNumber b).natAbs < 2 ^ 63 := fun b => by cases b <;> decide
  cases op with
  | add1 =>
    have hassert : (1 : Int) = 0 ∨ ((1 : Int) > 0 ∧ bn ≤ int64Max - 1) ∨ ((1 : Int) < 0 ∧ bn ≥ int64Min - 1) := by
      unfold int64Max
      omega
    refine ⟨?_, show (bn + 1).natAbs < 2 ^ 63 by omega⟩
    simp only [UnaryOp.apply64, CScriptNum.plusAssign, assertThat]
    rw [if_pos hassert]
    exact int64_eq (by omega)
  | sub1 =>
    have hassert : (1 : Int) = 0 ∨ ((1 : Int) > 0 ∧ bn ≥ int64Min + 1) ∨ ((1 : Int) < 0 ∧ bn ≤ int64Max + 1) := by
      unfold int64Min
      omega
    refine ⟨?_, show (bn - 1).natAbs < 2 ^ 63 by omega⟩
    simp only [UnaryOp.apply64, CScriptNum.minusAssign, assertThat]
    rw [if_pos hassert]
    exact int64_eq (by omega)
  | negate => exact ⟨hneg, show (-bn).natAbs < 2 ^ 63 by omega⟩
  | abs =>
    by_cases hlt : bn < 0
    · simp only [UnaryOp.apply64, UnaryOp.apply, if_pos hlt]
      exact ⟨hneg, by omega⟩
    · simp only [UnaryOp.apply64, UnaryOp.apply, if_neg hlt]
      exact ⟨trivial, by omega⟩
  | not => exact ⟨rfl, hbool _⟩
  | notEqual0 => exact ⟨rfl, hbool _⟩

theorem UnaryOp.run64_agrees (op : UnaryOp) : Agrees (op.run64 E s) (op.run E s) := by
  refine (Agrees.lift _).bind fun _ _ => (number64_agrees E _ _).bind fun bn hbn => ?_
  have happly := op.apply64_eq (number_lt E hbn)
  refine .bind_ok happly.1 ((Agrees.lift _).bind fun stack _ => ?_)
  exact .bind_ok (CScriptNum.serialize64_eq happly.2) (.ok _)

theorem BinaryOp.apply64_eq (op : BinaryOp) {bn1 bn2 : Int} (h1 : bn1.natAbs < 2 ^ 31) (h2 : bn2.natAbs < 2 ^ 31) :
    op.apply64 bn1 bn2 = .ok (op.apply bn1 bn2) ∧ (op.apply bn1 bn2).natAbs < 2 ^ 63 := by
  have hbool : ∀ b, (boolNumber b).natAbs < 2 ^ 63 := fun b => by cases b <;> decide
  have hchoice : ∀ (c : Prop) [Decidable c], (if c then bn1 else bn2).natAbs < 2 ^ 63 := by
    intro c _
    split_ifs <;> omega
  cases op with
  | add => exact ⟨int64_eq (by omega), show (bn1 + bn2).natAbs < 2 ^ 63 by omega⟩
  | sub => exact ⟨int64_eq (by omega), show (bn1 - bn2).natAbs < 2 ^ 63 by omega⟩
  | min => exact ⟨rfl, hchoice _⟩
  | max => exact ⟨rfl, hchoice _⟩
  | boolAnd | boolOr | numEqual | numEqualVerify | numNotEqual | lessThan | greaterThan | lessThanOrEqual
  | greaterThanOrEqual => exact ⟨rfl, hbool _⟩

theorem BinaryOp.run64_agrees (op : BinaryOp) : Agrees (op.run64 E s) (op.run E s) := by
  refine (Agrees.lift _).bind fun _ _ => (number64_agrees E _ _).bind fun bn1 hbn1 => ?_
  refine (number64_agrees E _ _).bind fun bn2 hbn2 => ?_
  have happly := op.apply64_eq (number_lt E hbn1) (number_lt E hbn2)
  refine .bind_ok happly.1 ((Agrees.lift _).bind fun stack _ => ?_)
  refine .bind_ok (CScriptNum.serialize64_eq happly.2) (.ite (fun _ => ?_) fun _ => .ok _)
  refine (Agrees.lift _).bind fun vch _ => (Agrees.lift _).bind fun _ _ => ?_
  exact (Agrees.lift _).bind fun stack' _ => .ok _

theorem runWithin64_agrees : Agrees (runWithin64 E s) (runWithin E s) := by
  refine (Agrees.lift _).bind fun _ _ => (number64_agrees E _ _).bind fun bn1 _ => ?_
  refine (number64_agrees E _ _).bind fun bn2 _ => (number64_agrees E _ _).bind fun bn3 _ => ?_
  exact (Agrees.lift _).bind fun stack _ => .ok _

theorem runCheckLockTimeVerify64_agrees :
    Agrees (runCheckLockTimeVerify64 E s) (runCheckLockTimeVerify E s) := by
  refine .ite (fun _ => .lift _) fun _ => (Agrees.lift _).bind fun _ _ => ?_
  have hoperand : Agrees (lockTimeOperand64 E s) (lockTimeOperand E s) :=
    (Agrees.lift _).bind fun _ _ => CScriptNum.ofBytes64_agrees (by decide)
  refine hoperand.bind fun nLockTime _ => ?_
  exact (Agrees.lift _).bind fun _ _ => (Agrees.lift _).bind fun _ _ => .ok s

theorem runCheckMultiSig64_agrees (verify : Bool) :
    Agrees (runCheckMultiSig64 E s verify) (runCheckMultiSig E s verify) := by
  refine (Agrees.lift _).bind fun _ _ => (number64_agrees E _ _).bind fun bnKeys _ => ?_
  refine (Agrees.lift _).bind fun _ _ => (Agrees.lift _).bind fun _ _ => (Agrees.lift _).bind fun _ _ => ?_
  refine (number64_agrees E _ _).bind fun bnSigs _ => ?_
  refine (Agrees.lift _).bind fun _ _ => (Agrees.lift _).bind fun _ _ => ?_
  refine (Agrees.lift _).bind fun scriptCode _ => (Agrees.lift _).bind fun fSuccess _ => ?_
  refine (Agrees.lift _).bind fun stack _ => (Agrees.lift _).bind fun _ _ => ?_
  refine (Agrees.lift _).bind fun dummy _ => (Agrees.lift _).bind fun _ _ => ?_
  exact (Agrees.lift _).bind fun stack1 _ => (Agrees.lift _).bind fun stack2 _ => .ok _

/-- What the sizes of a stack are less than. -/
structure SizesFit (s : EvalState) : Prop where
  elements : AllOf (fun vch => vch.length < 2 ^ 63) s.stack
  depth : s.stack.length < 2 ^ 63

theorem runOp64_agrees (hs : SizesFit s) {op : Op} (hop : ∀ n, op = .pushNumber n → n.natAbs < 2 ^ 63) :
    Agrees (runOp64 E s op) (runOp E s op) := by
  cases op with
  | pushNumber n => exact pushNumber64_agrees (hop n rfl)
  | checkLockTimeVerify => exact runCheckLockTimeVerify64_agrees E
  | stack op =>
    cases op with
    | depth => exact pushNumber64_agrees (by rw [Int.natAbs_natCast]; exact hs.depth)
    | size => exact runSize64_agrees hs.elements
    | toAltStack | fromAltStack | drop2 | dup2 | dup3 | over2 | rot2 | swap2 | ifDup | drop | dup | nip
    | «over» | rot | swap | tuck => exact .lift _
  | pick roll => exact runPick64_agrees E roll
  | unary op => exact op.run64_agrees E
  | binary op => exact op.run64_agrees E
  | within => exact runWithin64_agrees E
  | checkMultiSig verify => exact runCheckMultiSig64_agrees E verify
  | nop | upgradableNop | opIf | opElse | opEndIf | verify | opReturn | equal | hash | codeSeparator | checkSig
  | bad => rfl

/-- The numbers that opcodes push are those from -1 to 16. -/
theorem opOf_pushNumber {opcode : Nat} {n : Int} (h : opOf opcode = .pushNumber n) : n.natAbs ≤ 16 := by
  unfold opOf at h
  split_ifs at h with hnum
  · rw [Op.pushNumber.injEq] at h
    unfold op1 op16 at *
    omega
  · split at h <;> cases h
    decide

/-! ## Runs agree -/

theorem execute64_agrees (hs : SizesFit s) (opcode : Nat) (vchPushValue : Bytes) :
    Agrees (execute64 E s opcode vchPushValue) (execute E s opcode vchPushValue) := by
  unfold execute64
  split_ifs with hpush hop
  · exact .lift _
  · have hnumber : ∀ n, opOf opcode = .pushNumber n → n.natAbs < 2 ^ 63 :=
      fun n hn => Nat.lt_of_le_of_lt (opOf_pushNumber hn) (by decide)
    rw [execute, if_neg hpush, if_pos hop]
    exact runOp64_agrees E hs hnumber
  · rw [execute, if_neg hpush, if_neg hop]
    exact .ok s

theorem step64_agrees (hs : SizesFit s) : Agrees (s.step64 E) (s.step E) := by
  unfold EvalState.step64 EvalState.step
  cases CScript.getOp s.pc with
  | none => exact .error _
  | some op =>
    rcases op with ⟨opcode, vchPushValue, pc⟩
    refine (Agrees.lift _).bind fun _ _ => (Agrees.lift _).bind fun _ _ => (Agrees.lift _).bind fun _ _ => ?_
    have hs' : ∀ n, SizesFit { s with pc := pc, nOpCount := n } := fun n => ⟨hs.elements, hs.depth⟩
    refine (execute64_agrees E (hs' _) opcode vchPushValue).bind fun t _ => ?_
    exact (Agrees.lift _).bind fun _ _ => .ok t

theorem evalLoop64_agrees (hH : E.hashes.Sized) (fuel : Nat) (hs : SoundStacks (fun vch => vch.length < 2 ^ 63) s)
    (hdepth : s.stack.length < 2 ^ 63) : Agrees (evalLoop64 E fuel s) (evalLoop E fuel s) := by
  have hQ : OfSmall fun vch => vch.length < 2 ^ 63 := fun vch h => Nat.lt_of_le_of_lt h (by decide)
  induction fuel generalizing s with
  | zero => exact .ok s
  | succ fuel ih =>
    refine .ite (fun _ => .ok s) fun _ => ?_
    refine (step64_agrees E ⟨hs.stack, hdepth⟩).bind fun t ht => ?_
    have hkept := (step_keeps E hH hQ hs).of_ok ht
    exact ih hkept.1 (by omega)

end

/-- **Script numbers have one minimal encoding and never overflow.**  What `serialize` writes is read back;
with `fRequireMinimal` exactly the bytes that `serialize` writes are accepted; and the interpreter with 64-bit
script numbers goes through the same rounds as the one with integers: no assertion fails, and no operation
overflows. -/
theorem scriptNum_sound :
    (∀ (n : Int) (fRequireMinimal : Bool) (size : Nat), n.natAbs < 2 ^ 63 →
      (CScriptNum.serialize n).length ≤ size →
      CScriptNum.ofBytes (CScriptNum.serialize n) fRequireMinimal size = .ok n) ∧
    (∀ (vch : Bytes) (size : Nat), size = CScriptNum.nMaxNumSize ∨ size = 5 → vch.length ≤ size →
      ∃ n, CScriptNum.ofBytes vch false size = .ok n ∧
        ∀ m, CScriptNum.ofBytes vch true size = .ok m ↔ m = n ∧ vch = CScriptNum.serialize n) ∧
    ∀ (E : ScriptEnv) (stack : ScriptStack) (script : CScript), E.hashes.Sized →
      AllOf (fun vch => vch.length < 2 ^ 63) stack → stack.length < 2 ^ 63 →
      evalLoop64 E script.length (.start stack script) = lift (evalLoop E script.length (.start stack script)) ∧
      evalLoop64 E script.length (.start stack script) ≠ .error none := by
  refine ⟨fun n fRequireMinimal size hn hsize => ?_, fun vch size hsize hlen => ?_,
    fun E stack script hH helements hdepth => ?_⟩
  · have hpow : n.natAbs < 256 ^ 8 := Nat.lt_trans hn (by decide)
    cases fRequireMinimal with
    | false => rw [CScriptNum.ofBytes_false hsize, CScriptNum.setVch_serialize hpow]
    | true =>
      rw [CScriptNum.ofBytes_true hsize]
      exact ⟨CScriptNum.isMinimal_serialize hpow, CScriptNum.setVch_serialize hpow⟩
  · have hsmall : size ≤ 5 := by
      rcases hsize with rfl | rfl
      · decide
      · exact Nat.le_refl 5
    refine ⟨CScriptNum.setVch vch, CScriptNum.ofBytes_false hlen, fun m => ?_⟩
    have hbound := CScriptNum.natAbs_setVch_lt (hlen.trans hsmall) (by decide)
    rw [CScriptNum.ofBytes_true hlen]
    constructor
    · rintro ⟨hmin, rfl⟩
      exact ⟨rfl, (CScriptNum.serialize_setVch (by omega) hmin).symm⟩
    · rintro ⟨rfl, hvch⟩
      refine ⟨?_, rfl⟩
      rw [hvch]
      exact CScriptNum.isMinimal_serialize (Nat.lt_trans hbound (by decide))
  · have hagrees := evalLoop64_agrees E hH script.length (SoundStacks.start helements script) hdepth
    refine ⟨hagrees, ?_⟩
    rw [hagrees]
    exact lift_ne_none _

/-- -255 takes two bytes, and `OP_1ADD` of the largest operand is a number of five bytes. -/
theorem scriptNum_sound_boundary :
    CScriptNum.ofBytes (CScriptNum.serialize (-255)) true 2 = .ok (-255) ∧
    (∃ n, CScriptNum.ofBytes [0xff, 0x80] false 4 = .ok n ∧
      ∀ m, CScriptNum.ofBytes [0xff, 0x80] true 4 = .ok m ↔ m = n ∧ [0xff, 0x80] = CScriptNum.serialize n) ∧
    evalLoop64 ⟨emptyHashes, ⟨fun _ _ _ => false, fun _ => false⟩, 0⟩ 1
      (.start [[0xff, 0xff, 0xff, 0x7f]] [0x8b]) ≠ .error none :=
  ⟨scriptNum_sound.1 (-255) true 2 (by decide) (by decide),
    scriptNum_sound.2.1 [0xff, 0x80] 4 (.inl rfl) (by decide),
    (scriptNum_sound.2.2 ⟨emptyHashes, ⟨fun _ _ _ => false, fun _ => false⟩, 0⟩ [[0xff, 0xff, 0xff, 0x7f]] [0x8b]
      emptyHashes_sized (by decide) (by decide)).2⟩

end Dobbscoin
