import Dobbscoin.Script.Interpreter

/-!
# The stack that a script leaves

`EvalScript` works on the stack of its caller.  Where it fails, the stack stays as the failing opcode has made
it.
-/

namespace Dobbscoin

open Guard

/-! ## OP_CHECKMULTISIG -/

/-- The part of `OP_CHECKMULTISIG` that leaves the stack alone: the operations counted, the number of arguments,
and whether the signatures are good. -/
def multiSigChecks (E : ScriptEnv) (s : EvalState) : Except ScriptFault (Nat × Nat × Bool) := do
  needStack s.stack 1 .invalidStackOperation
  let bnKeys ← E.number s.stack 1
  let nKeys := CScriptNum.getInt bnKeys
  rejectIf (nKeys < 0 ∨ nKeys > 20) (.error .pubKeyCount)
  let nKeysCount := nKeys.toNat
  let nOpCount := s.nOpCount + nKeysCount
  rejectIf (nOpCount > 201) (.error .opCount)
  needStack s.stack (2 + nKeysCount) .invalidStackOperation
  let bnSigs ← E.number s.stack (2 + nKeysCount)
  let nSigs := CScriptNum.getInt bnSigs
  rejectIf (nSigs < 0 ∨ nSigs > nKeys) (.error .sigCount)
  let nSigsCount := nSigs.toNat
  let isig := 3 + nKeysCount
  needStack s.stack (isig + nSigsCount) .invalidStackOperation
  let scriptCode ← deleteSigs s.stack nSigsCount isig s.pbegincodehash
  let fSuccess ← multiSigLoop E scriptCode s.stack nKeysCount 2 isig nSigsCount
  .ok (nOpCount, 2 + nKeysCount + nSigsCount, fSuccess)

/-- The part that takes the arguments off and pushes the outcome. -/
def multiSigOutcome (E : ScriptEnv) (s : EvalState) (verify : Bool) (checks : Nat × Nat × Bool) :
    Except ScriptFault EvalState := do
  let stack ← popTimes checks.2.1 s.stack
  needStack stack 1 .invalidStackOperation
  let dummy ← stacktop stack 1
  rejectIf (E.has scriptVerifyNullDummy = true ∧ dummy ≠ []) (.error .sigNullDummy)
  let stack ← popstack stack
  let stack ← pushOutcome stack checks.2.2 verify .checkMultiSigVerify
  .ok { s with stack := stack, nOpCount := checks.1 }

theorem ok_bind {ε α β : Type} (a : α) (f : α → Except ε β) : (Except.ok a >>= f) = f a :=
  rfl

theorem runCheckMultiSig_eq (E : ScriptEnv) (s : EvalState) (verify : Bool) :
    runCheckMultiSig E s verify = multiSigChecks E s >>= multiSigOutcome E s verify := by
  unfold runCheckMultiSig multiSigChecks multiSigOutcome
  simp only [bind_assoc, ok_bind]

/-! ## Failing opcodes -/

/-- The stack after an operation that fails.  Most of them look before they change anything. -/
def leftByOp (E : ScriptEnv) (s : EvalState) : Op → ScriptStack
  -- The index is taken off before it is compared with the size.
  | .pick _ =>
    match needStack s.stack 2 .invalidStackOperation, E.number s.stack 1 with
    | .ok (), .ok _ => s.stack.drop 1
    | _, _ => s.stack
  -- The `VERIFY` forms fail with the outcome on the stack.
  | .equal _ => if s.stack.length < 2 then s.stack else vchFalse :: s.stack.drop 2
  | .binary op =>
    match E.number s.stack 2, E.number s.stack 1 with
    | .ok bn1, .ok bn2 => CScriptNum.serialize (op.apply bn1 bn2) :: s.stack.drop 2
    | _, _ => s.stack
  | .checkSig _ =>
    match stacktop s.stack 2, stacktop s.stack 1 with
    | .ok vchSig, .ok vchPubKey =>
      match checkEncodings E vchSig vchPubKey with
      | .ok () => vchFalse :: s.stack.drop 2
      | .error _ => s.stack
    | _, _ => s.stack
  | .checkMultiSig _ =>
    match multiSigChecks E s with
    | .error _ => s.stack
    | .ok (_, i, _) =>
      match s.stack.drop i with
      | [] => []
      | dummy :: stack =>
        if E.has scriptVerifyNullDummy = true ∧ dummy ≠ [] then dummy :: stack else vchFalse :: stack
  | _ => s.stack

/-- The stack after a round of the loop that fails. -/
def EvalState.leftStack (E : ScriptEnv) (s : EvalState) : ScriptStack :=
  match CScript.getOp s.pc with
  | none => s.stack
  | some (opcode, vchPushValue, pc) =>
    let nOpCount := if opcode > op16 then s.nOpCount + 1 else s.nOpCount
    let s := { s with pc := pc, nOpCount := nOpCount }
    if vchPushValue.length > maxScriptElementSize ∨ (opcode > op16 ∧ nOpCount > 201) ∨
        isDisabledOpcode opcode = true then s.stack
    else
      match execute E s opcode vchPushValue with
      -- Both stacks together are too large.
      | .ok t => t.stack
      | .error _ => if s.fExec = true ∧ opcode ≤ opPushData4 then s.stack else leftByOp E s (opOf opcode)

/-! ## EvalScript -/

def evalLoopStack (E : ScriptEnv) : Nat → EvalState → ScriptStack
  | 0, s => s.stack
  | fuel + 1, s =>
    if s.pc = [] then s.stack
    else
      match s.step E with
      | .ok t => evalLoopStack E fuel t
      | .error _ => s.leftStack E

/-- The stack after `EvalScript`, whatever it returns. -/
def evalScriptStack (E : ScriptEnv) (stack : ScriptStack) (script : CScript) : ScriptStack :=
  if script.length > 10000 then stack else evalLoopStack E script.length (.start stack script)

theorem evalLoopStack_of_ok {E : ScriptEnv} {fuel : Nat} {s t : EvalState} (h : evalLoop E fuel s = .ok t) :
    evalLoopStack E fuel s = t.stack := by
  induction fuel generalizing s with
  | zero =>
    cases h
    rfl
  | succ fuel ih =>
    rw [evalLoop] at h
    rw [evalLoopStack]
    by_cases hpc : s.pc = []
    · rw [if_pos hpc] at h
      rw [if_pos hpc]
      cases h
      rfl
    · rw [if_neg hpc] at h
      rw [if_neg hpc]
      rcases bind_eq_ok.1 h with ⟨u, hstep, hrest⟩
      rw [hstep]
      exact ih hrest

/-- Where it succeeds, it is the stack that the script left. -/
theorem evalScriptStack_of_ok {E : ScriptEnv} {stack stack' : ScriptStack} {script : CScript}
    (h : evalScript E stack script = .ok stack') : evalScriptStack E stack script = stack' := by
  unfold evalScript at h
  unfold evalScriptStack
  split_ifs at h with hsize
  rw [if_neg hsize]
  cases hloop : evalLoop E script.length (.start stack script) with
  | error e =>
    rw [hloop] at h
    cases h
  | ok t =>
    rw [hloop] at h
    dsimp only at h
    split_ifs at h
    rw [evalLoopStack_of_ok hloop]
    exact Except.ok.inj h

end Dobbscoin
