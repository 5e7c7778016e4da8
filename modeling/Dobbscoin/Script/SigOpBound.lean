import Dobbscoin.Lib.Traced
import Dobbscoin.Script.GetOp
import Dobbscoin.Script.NumCodec
import Dobbscoin.Script.Runs

/-!
# The interpreter with its signature checks

The interpreter once more, with an event for each call of `checker.CheckSig`.  The operations that check no
signature are those of the interpreter.
-/

namespace Dobbscoin

open Guard

/-- The arguments of a call of `checker.CheckSig`. -/
structure CheckSigCall where
  vchSig : Bytes
  vchPubKey : Bytes
  scriptCode : CScript
  deriving DecidableEq

abbrev Calling (ε α : Type) := Traced CheckSigCall ε α

def callCheckSig (E : ScriptEnv) (vchSig vchPubKey : Bytes) (scriptCode : CScript) : Calling ScriptFault Bool := do
  Traced.emit ⟨vchSig, vchPubKey, scriptCode⟩
  Traced.ofExcept (.ok (E.checker.checkSig vchSig vchPubKey scriptCode))

def runCheckSigT (E : ScriptEnv) (s : EvalState) (verify : Bool) : Calling ScriptFault EvalState := do
  Traced.ofExcept (needStack s.stack 2 .invalidStackOperation)
  let vchSig ← Traced.ofExcept (stacktop s.stack 2)
  let vchPubKey ← Traced.ofExcept (stacktop s.stack 1)
  let scriptCode := CScript.findAndDelete s.pbegincodehash (CScript.pushBytes vchSig)
  Traced.ofExcept (checkEncodings E vchSig vchPubKey)
  let fSuccess ← callCheckSig E vchSig vchPubKey scriptCode
  let stack ← Traced.ofExcept (popTimes 2 s.stack)
  let stack ← Traced.ofExcept (pushOutcome stack fSuccess verify .checkSigVerify)
  Traced.ofExcept (.ok (s.withStack stack))

def multiSigLoopT (E : ScriptEnv) (scriptCode : CScript) (stack : ScriptStack) :
    Nat → Nat → Nat → Nat → Calling ScriptFault Bool
  | _, _, _, 0 => Traced.ofExcept (.ok true)
  | 0, _, _, _ + 1 => Traced.ofExcept (.ok false)
  | nKeysCount + 1, ikey, isig, nSigsCount + 1 => do
    let vchSig ← Traced.ofExcept (stacktop stack isig)
    let vchPubKey ← Traced.ofExcept (stacktop stack ikey)
    Traced.ofExcept (checkEncodings E vchSig vchPubKey)
    let fOk ← callCheckSig E vchSig vchPubKey scriptCode
    let isig := if fOk then isig + 1 else isig
    let nSigsCount := if fOk then nSigsCount else nSigsCount + 1
    if nSigsCount > nKeysCount then Traced.ofExcept (.ok false)
    else multiSigLoopT E scriptCode stack nKeysCount (ikey + 1) isig nSigsCount

def runCheckMultiSigT (E : ScriptEnv) (s : EvalState) (verify : Bool) : Calling ScriptFault EvalState := do
  Traced.ofExcept (needStack s.stack 1 .invalidStackOperation)
  let bnKeys ← Traced.ofExcept (E.number s.stack 1)
  let nKeys := CScriptNum.getInt bnKeys
  Traced.ofExcept (rejectIf (nKeys < 0 ∨ nKeys > 20) (.error .pubKeyCount))
  let nKeysCount := nKeys.toNat
  let nOpCount := s.nOpCount + nKeysCount
  Traced.ofExcept (rejectIf (nOpCount > 201) (.error .opCount))
  Traced.ofExcept (needStack s.stack (2 + nKeysCount) .invalidStackOperation)
  let bnSigs ← Traced.ofExcept (E.number s.stack (2 + nKeysCount))
  let nSigs := CScriptNum.getInt bnSigs
  Traced.ofExcept (rejectIf (nSigs < 0 ∨ nSigs > nKeys) (.error .sigCount))
  let nSigsCount := nSigs.toNat
  let isig := 3 + nKeysCount
  Traced.ofExcept (needStack s.stack (isig + nSigsCount) .invalidStackOperation)
  let scriptCode ← Traced.ofExcept (deleteSigs s.stack nSigsCount isig s.pbegincodehash)
  let fSuccess ← multiSigLoopT E scriptCode s.stack nKeysCount 2 isig nSigsCount
  let stack ← Traced.ofExcept (popTimes (2 + nKeysCount + nSigsCount) s.stack)
  Traced.ofExcept (needStack stack 1 .invalidStackOperation)
  let dummy ← Traced.ofExcept (stacktop stack 1)
  Traced.ofExcept (rejectIf (E.has scriptVerifyNullDummy = true ∧ dummy ≠ []) (.error .sigNullDummy))
  let stack ← Traced.ofExcept (popstack stack)
  let stack ← Traced.ofExcept (pushOutcome stack fSuccess verify .checkMultiSigVerify)
  Traced.ofExcept (.ok { s with stack := stack, nOpCount := nOpCount })

def runOpT (E : ScriptEnv) (s : EvalState) : Op → Calling ScriptFault EvalState
  | .checkSig verify => runCheckSigT E s verify
  | .checkMultiSig verify => runCheckMultiSigT E s verify
  | op => Traced.ofExcept (runOp E s op)

def executeT (E : ScriptEnv) (s : EvalState) (opcode : Nat) (vchPushValue : Bytes) : Calling ScriptFault EvalState :=
  if s.fExec = true ∧ opcode ≤ opPushData4 then Traced.ofExcept (execute E s opcode vchPushValue)
  else if s.fExec = true ∨ isConditionalOpcode opcode = true then runOpT E s (opOf opcode)
  else Traced.ofExcept (.ok s)

def EvalState.stepT (E : ScriptEnv) (s : EvalState) : Calling ScriptFault EvalState :=
  match CScript.getOp s.pc with
  | none => Traced.ofExcept (Dobbscoin.fail .badOpcode)
  | some (opcode, vchPushValue, pc) => do
    Traced.ofExcept (rejectIf (vchPushValue.length > maxScriptElementSize) (.error .pushSize))
    let nOpCount := if opcode > op16 then s.nOpCount + 1 else s.nOpCount
    Traced.ofExcept (rejectIf (opcode > op16 ∧ nOpCount > 201) (.error .opCount))
    Traced.ofExcept (rejectIf (isDisabledOpcode opcode = true) (.error .disabledOpcode))
    let s ← executeT E { s with pc := pc, nOpCount := nOpCount } opcode vchPushValue
    Traced.ofExcept (rejectIf (s.stack.length + s.altstack.length > 1000) (.error .stackSize))
    Traced.ofExcept (.ok s)

def evalLoopT (E : ScriptEnv) : Nat → EvalState → Calling ScriptFault EvalState
  | 0, s => Traced.ofExcept (.ok s)
  | fuel + 1, s =>
    if s.pc = [] then Traced.ofExcept (.ok s)
    else do
      let s ← s.stepT E
      evalLoopT E fuel s

def evalScriptT (E : ScriptEnv) (stack : ScriptStack) (script : CScript) : Calling ScriptError ScriptStack :=
  if script.length > 10000 then Traced.ofExcept (.error .scriptSize)
  else
    let run := evalLoopT E script.length (.start stack script)
    ⟨run.trace,
      match run.result with
      | .error fault => .error fault.toError
      | .ok s => if s.vfExec ≠ [] then .error .unbalancedConditional else .ok s.stack⟩

/-- The scripts that `VerifyScript` evaluates. -/
inductive Evaluation where
  | scriptSig
  | scriptPubKey
  | redeemScript
  deriving DecidableEq

def verifyRedeemScriptT (E : ScriptEnv) (scriptSig : CScript) (stackCopy : ScriptStack) :
    Traced (Evaluation × CheckSigCall) ScriptError Unit := do
  Traced.ofExcept (rejectIf (CScript.isPushOnly scriptSig = false) .sigPushOnly)
  match stackCopy with
  | [] => Traced.ofExcept (.error .unknownError)
  | pubKey2 :: stackCopy => do
    let stack ← (evalScriptT E stackCopy pubKey2).tag .redeemScript
    Traced.ofExcept (checkTop stack)

def verifyScriptT (E : ScriptEnv) (scriptSig scriptPubKey : CScript) :
    Traced (Evaluation × CheckSigCall) ScriptError Unit := do
  Traced.ofExcept (rejectIf (E.has scriptVerifySigPushOnly = true ∧ CScript.isPushOnly scriptSig = false) .sigPushOnly)
  let stackCopy ← (evalScriptT E [] scriptSig).tag .scriptSig
  let stack ← (evalScriptT E stackCopy scriptPubKey).tag .scriptPubKey
  Traced.ofExcept (checkTop stack)
  if E.has scriptVerifyP2SH = true ∧ CScript.isPayToScriptHash scriptPubKey = true then
    verifyRedeemScriptT E scriptSig stackCopy
  else Traced.ofExcept (.ok ())

/-- The calls made while the redeem script is executed. -/
def redeemScriptCalls (E : ScriptEnv) (scriptSig scriptPubKey : CScript) : List CheckSigCall :=
  (verifyScriptT E scriptSig scriptPubKey).pick fun event =>
    if event.1 = Evaluation.redeemScript then some event.2 else none

end Dobbscoin

/-!
# Signature operations bound signature checks

The accurate count of signature operations is a scan over the opcodes.  An evaluation reads the same opcodes
in the same order, and at each of them it calls the checker at most as often as the scan counts.
-/

namespace Dobbscoin

open Guard Traced

/-! ## Operations -/

section

variable (E : ScriptEnv) (s : EvalState)

/-- A call is one event. -/
theorem callCheckSig_follows {α : Type} {vchSig vchPubKey : Bytes} {scriptCode : CScript}
    {f : Bool → Calling ScriptFault α} {y : Except ScriptFault α} {n : Nat}
    (h : Follows (f (E.checker.checkSig vchSig vchPubKey scriptCode)) y n) :
    Follows (callCheckSig E vchSig vchPubKey scriptCode >>= f) y (n + 1) := by
  have hbind : callCheckSig E vchSig vchPubKey scriptCode >>= f =
      Traced.bind (callCheckSig E vchSig vchPubKey scriptCode) f := rfl
  rw [hbind]
  exact ⟨h.result, Nat.succ_le_succ h.events⟩

theorem runCheckSigT_follows (verify : Bool) : Follows (runCheckSigT E s verify) (runCheckSig E s verify) 1 := by
  refine Follows.after fun _ _ => Follows.after fun vchSig _ => Follows.after fun vchPubKey _ => ?_
  refine Follows.after fun _ _ => callCheckSig_follows E ?_
  exact Follows.after fun stack _ => Follows.after fun stack' _ => .ofExcept _ 0

/-- Every call uses up a key. -/
theorem multiSigLoopT_follows (scriptCode : CScript) (stack : ScriptStack) (nKeysCount ikey isig nSigsCount : Nat) :
    Follows (multiSigLoopT E scriptCode stack nKeysCount ikey isig nSigsCount)
      (multiSigLoop E scriptCode stack nKeysCount ikey isig nSigsCount) nKeysCount := by
  induction nKeysCount generalizing ikey isig nSigsCount with
  | zero => cases nSigsCount <;> exact .ofExcept _ 0
  | succ nKeysCount ih =>
    cases nSigsCount with
    | zero => exact .ofExcept _ _
    | succ nSigsCount =>
      refine Follows.after fun vchSig _ => Follows.after fun vchPubKey _ => Follows.after fun _ _ => ?_
      refine callCheckSig_follows E ?_
      exact .ite (fun _ => .ofExcept _ _) fun _ => ih _ _ _

theorem runCheckMultiSigT_follows (verify : Bool) {n : Nat}
    (hn : ∀ bn, E.number s.stack 1 = .ok bn → CScriptNum.getInt bn ≤ 20 → (CScriptNum.getInt bn).toNat ≤ n) :
    Follows (runCheckMultiSigT E s verify) (runCheckMultiSig E s verify) n := by
  refine Follows.after fun _ _ => Follows.after fun bnKeys hbnKeys => Follows.after fun _ hrange => ?_
  have hkeys : (CScriptNum.getInt bnKeys).toNat ≤ n := by
    refine hn bnKeys hbnKeys ?_
    have hnot := rejectIf_eq_ok.1 hrange
    omega
  refine Follows.after fun _ _ => Follows.after fun _ _ => Follows.after fun bnSigs _ => ?_
  refine Follows.after fun _ _ => Follows.after fun _ _ => Follows.after fun scriptCode _ => ?_
  refine ((multiSigLoopT_follows E _ _ _ _ _ _).mono hkeys).bind (n := 0) fun fSuccess _ => ?_
  refine Follows.after fun stack _ => Follows.after fun _ _ => Follows.after fun dummy _ => ?_
  refine Follows.after fun _ _ => Follows.after fun stack1 _ => Follows.after fun stack2 _ => ?_
  exact .ofExcept _ 0

theorem runOpT_follows {op : Op} {n : Nat} (hsig : ∀ verify, op = .checkSig verify → 1 ≤ n)
    (hmulti : ∀ verify, op = .checkMultiSig verify → ∀ bn, E.number s.stack 1 = .ok bn →
      CScriptNum.getInt bn ≤ 20 → (CScriptNum.getInt bn).toNat ≤ n) :
    Follows (runOpT E s op) (runOp E s op) n := by
  cases op with
  | checkSig verify => exact (runCheckSigT_follows E s verify).mono (hsig verify rfl)
  | checkMultiSig verify => exact runCheckMultiSigT_follows E s verify (hmulti verify rfl)
  | pushNumber | nop | checkLockTimeVerify | upgradableNop | opIf | opElse | opEndIf | verify | opReturn | stack
  | pick | equal | unary | binary | within | hash | codeSeparator | bad => exact .ofExcept _ n

end

/-! ## The scan -/

/-- What the accurate count adds for an opcode. -/
def sigOpsOf (lastOpcode opcode : Nat) : Nat :=
  if opcode = opCheckSig ∨ opcode = opCheckSigVerify then 1
  else if opcode = opCheckMultiSig ∨ opcode = opCheckMultiSigVerify then
    if op1 ≤ lastOpcode ∧ lastOpcode ≤ op16 then lastOpcode - (op1 - 1) else 20
  else 0

theorem sigOpLoop_succ {fuel lastOpcode opcode : Nat} {pc data pc' : Bytes}
    (h : CScript.getOp pc = some (opcode, data, pc')) :
    CScript.sigOpLoop true (fuel + 1) lastOpcode pc =
      sigOpsOf lastOpcode opcode + CScript.sigOpLoop true fuel opcode pc' := by
  rw [CScript.sigOpLoop, h]
  simp only [sigOpsOf, true_and]

theorem opOf_checkSig {opcode : Nat} {verify : Bool} (h : opOf opcode = .checkSig verify) :
    opcode = opCheckSig ∨ opcode = opCheckSigVerify := by
  unfold opOf at h
  split_ifs at h
  split at h <;> cases h
  · exact .inl rfl
  · exact .inr rfl

theorem opOf_checkMultiSig {opcode : Nat} {verify : Bool} (h : opOf opcode = .checkMultiSig verify) :
    opcode = opCheckMultiSig ∨ opcode = opCheckMultiSigVerify := by
  unfold opOf at h
  split_ifs at h
  split at h <;> cases h
  · exact .inl rfl
  · exact .inr rfl

/-- The number of keys, where the scan takes it from: the opcode before left it on top of the stack. -/
def Pushed (lastOpcode : Nat) (s : EvalState) : Prop :=
  op1 ≤ lastOpcode ∧ lastOpcode ≤ op16 → s.fExec = true →
    s.stack.head? = some (CScriptNum.serialize ((lastOpcode : Int) - (op1 - 1)))

theorem not_pushed_of_invalid (s : EvalState) : Pushed opInvalidOpcode s :=
  fun h => absurd h.2 (by decide)

theorem getInt_of_small {n : Int} (h : 0 ≤ n) (h' : n ≤ 16) : CScriptNum.getInt n = n := by
  unfold CScriptNum.getInt
  rw [if_neg (by omega), if_neg (by omega)]

theorem number_of_head {E : ScriptEnv} {stack : ScriptStack} {n bn : Int} (hn : n.natAbs < 2 ^ 63)
    (h : stack.head? = some (CScriptNum.serialize n)) (hbn : E.number stack 1 = .ok bn) : bn = n := by
  cases stack with
  | nil => cases h
  | cons vch stack =>
    obtain rfl : vch = CScriptNum.serialize n := Option.some.inj h
    simp only [ScriptEnv.number, stacktop, CScriptNum.ofBytes, bind_eq_ok, rejectIf_eq_ok, exists_unit,
      List.getElem?_cons_zero, Except.ok.injEq] at hbn
    rcases hbn with ⟨vch, rfl, -, -, rfl⟩
    exact CScriptNum.setVch_serialize (Nat.lt_trans hn (by decide))

section

variable {E : ScriptEnv} {s : EvalState} {lastOpcode opcode : Nat} {data pc : Bytes}

theorem executeT_follows (hlast : Pushed lastOpcode s) (vchPushValue : Bytes) :
    Follows (executeT E s opcode vchPushValue) (execute E s opcode vchPushValue) (sigOpsOf lastOpcode opcode) := by
  unfold executeT
  split_ifs with hpush hop
  · exact .ofExcept _ _
  · rw [execute, if_neg hpush, if_pos hop]
    refine runOpT_follows E s (fun verify hsig => ?_) fun verify hmulti bn hbn hle => ?_
    · rw [sigOpsOf, if_pos (opOf_checkSig hsig)]
    · have hcode := opOf_checkMultiSig hmulti
      have hnot : ¬ (opcode = opCheckSig ∨ opcode = opCheckSigVerify) := by
        rcases hcode with rfl | rfl <;> decide
      -- It is no conditional, so that the branch is taken, and was taken at the opcode before.
      have hexec : s.fExec = true := by
        rcases hop with hexec | hcond
        · exact hexec
        · rcases hcode with rfl | rfl <;> exact absurd hcond (by decide)
      rw [sigOpsOf, if_neg hnot, if_pos hcode]
      split_ifs with hsmall
      · have hn : ((lastOpcode : Int) - (op1 - 1)).natAbs < 2 ^ 63 := by
          unfold op1 op16 at *
          omega
        have heq := number_of_head hn (hlast hsmall hexec) hbn
        unfold op1 op16 at *
        rw [heq, getInt_of_small (by omega) (by omega)]
        omega
      · omega
  · rw [execute, if_neg hpush, if_neg hop]
    exact .ofExcept _ _

theorem stepT_follows (hlast : Pushed lastOpcode s) (hop : CScript.getOp s.pc = some (opcode, data, pc)) :
    Follows (s.stepT E) (s.step E) (sigOpsOf lastOpcode opcode) := by
  unfold EvalState.stepT EvalState.step
  rw [hop]
  refine Follows.after fun _ _ => Follows.after fun _ _ => Follows.after fun _ _ => ?_
  have hlast' : ∀ n, Pushed lastOpcode { s with pc := pc, nOpCount := n } := fun n => hlast
  refine Follows.bind (n := 0) (executeT_follows (hlast' _) data) fun t _ => ?_
  exact Follows.after fun _ _ => .ofExcept _ 0

theorem opOf_small (hlow : op1 ≤ opcode) (hhigh : opcode ≤ op16) :
    opOf opcode = .pushNumber ((opcode : Int) - (op1 - 1)) := by
  unfold opOf
  rw [if_pos ⟨hlow, hhigh⟩]

/-- A small number is on top of the stack after its opcode, in a branch that is taken. -/
theorem execute_pushed {t : EvalState} (h : execute E s opcode data = .ok t) : Pushed opcode t := by
  intro hsmall hexec
  have hpush : ¬ (s.fExec = true ∧ opcode ≤ opPushData4) := fun h => absurd (h.2.trans_lt (by decide)) (not_lt.2 hsmall.1)
  have hcond : ¬ isConditionalOpcode opcode = true := by
    unfold isConditionalOpcode op1 op16 at *
    rw [Bool.and_eq_true, decide_eq_true_iff, decide_eq_true_iff]
    omega
  rw [execute, if_neg hpush] at h
  by_cases hs : s.fExec = true
  · rw [if_pos (.inl hs), opOf_small hsmall.1 hsmall.2] at h
    cases h
    rfl
  · rw [if_neg fun h => h.elim hs hcond] at h
    cases h
    exact absurd hexec hs

end

/-! ## Runs -/

theorem evalLoopT_follows (E : ScriptEnv) (fuel : Nat) {s : EvalState} {lastOpcode : Nat} (hlast : Pushed lastOpcode s) :
    Follows (evalLoopT E fuel s) (evalLoop E fuel s) (CScript.sigOpLoop true fuel lastOpcode s.pc) := by
  induction fuel generalizing s lastOpcode with
  | zero => exact .ofExcept _ _
  | succ fuel ih =>
    refine .ite (fun _ => .ofExcept _ _) fun hmore => ?_
    cases hop : CScript.getOp s.pc with
    | none =>
      -- The scan stops here, and so does the evaluation.
      have hstep : Follows (s.stepT E) (s.step E) 0 := by
        unfold EvalState.stepT EvalState.step
        rw [hop]
        exact .ofExcept _ 0
      have hfail : s.step E = .error (.error .badOpcode) := by
        unfold EvalState.step
        rw [hop]
      have hrun := hstep.bind (f := evalLoopT E fuel) (g := evalLoop E fuel) (n := 0) fun t ht => by
        rw [hfail] at ht
        cases ht
      exact hrun.mono (Nat.zero_le _)
    | some op =>
      rcases op with ⟨opcode, data, pc⟩
      rw [sigOpLoop_succ hop]
      refine (stepT_follows hlast hop).bind fun t ht => ?_
      rcases step_ok ht with ⟨opcode', data', pc', nOpCount, hop', hexec⟩
      obtain ⟨rfl, rfl, rfl⟩ : opcode = opcode' ∧ data = data' ∧ pc = pc' := by
        rw [hop, Option.some.injEq, Prod.mk.injEq, Prod.mk.injEq] at hop'
        exact hop'
      have hpc : t.pc = pc := execute_pc E _ opcode data t hexec
      rw [← hpc]
      exact ih (execute_pushed hexec)

/-- **An evaluation calls the checker at most as often as the accurate count says.** -/
theorem evalScriptT_follows (E : ScriptEnv) (stack : ScriptStack) (script : CScript) :
    Follows (evalScriptT E stack script) (evalScript E stack script) (CScript.getSigOpCount script true) := by
  refine .ite (fun _ => .ofExcept _ _) fun _ => ?_
  have hrun := evalLoopT_follows E script.length (not_pushed_of_invalid (.start stack script))
  refine ⟨?_, hrun.events⟩
  cases hend : evalLoop E script.length (.start stack script) with
  | error fault => simp only [hrun.result, hend]
  | ok s => simp only [hrun.result, hend]

/-! ## The redeem script -/

/-- What the last opcode of a script of pushes leaves on top: its data, or the number it stands for. -/
def LastPush (data : Bytes) (stack : ScriptStack) : Prop :=
  stack.head?.getD [] = data ∨ data = [] ∧ ∃ n : Int, n ≠ 0 ∧ -1 ≤ n ∧ n ≤ 16 ∧ stack.head? = some (CScriptNum.serialize n)

/-- A small number taken as a script checks no signature. -/
theorem getSigOpCount_serialize {n : Int} (hn : n ≠ 0) (hlow : -1 ≤ n) (hhigh : n ≤ 16) :
    CScript.getSigOpCount (CScriptNum.serialize n) true = 0 := by
  have hall : ∀ k : Fin 18, k ≠ 1 → CScript.getSigOpCount (CScriptNum.serialize ((k : Int) - 1)) true = 0 := by
    decide
  have hk := hall ⟨(n + 1).toNat, by omega⟩ (by
    intro heq
    have hval := congrArg Fin.val heq
    simp only [Fin.val_one] at hval
    omega)
  have hcast : (((n + 1).toNat : Nat) : Int) - 1 = n := by omega
  simpa only [hcast] using hk

theorem fExec_of_vfExec {s : EvalState} (h : s.vfExec = []) : s.fExec = true := by
  rw [EvalState.fExec, h]
  rfl

/-- An opcode that only pushes, outside of any branch. -/
theorem execute_push {E : ScriptEnv} {s t : EvalState} {opcode : Nat} {data : Bytes} (hvf : s.vfExec = [])
    (hop : opcode ≤ op16) (hdata : opPushData4 < opcode → data = []) (h : execute E s opcode data = .ok t) :
    t.vfExec = [] ∧ LastPush data t.stack := by
  have hexec := fExec_of_vfExec hvf
  by_cases hpush : opcode ≤ opPushData4
  · rw [execute, if_pos ⟨hexec, hpush⟩] at h
    rcases bind_eq_ok.1 h with ⟨_, -, hok⟩
    cases hok
    exact ⟨hvf, .inl rfl⟩
  · have hnil := hdata (Nat.lt_of_not_le hpush)
    rw [execute, if_neg fun h => hpush h.2, if_pos (.inl hexec)] at h
    have hcases : opcode = 0x4f ∨ opcode = 0x50 ∨ op1 ≤ opcode := by
      unfold op1 opPushData4 at *
      omega
    rcases hcases with rfl | rfl | hlow
    · cases h
      exact ⟨hvf, .inr ⟨hnil, -1, by decide, by decide, by decide, rfl⟩⟩
    · cases h
    · rw [opOf_small hlow hop] at h
      cases h
      refine ⟨hvf, .inr ⟨hnil, (opcode : Int) - (op1 - 1), ?_, ?_, ?_, rfl⟩⟩ <;> unfold op1 op16 at * <;> omega

/-- The item that the count takes from a script of pushes is on top when the script was evaluated. -/
theorem evalLoop_lastPush {E : ScriptEnv} {fuel : Nat} {s r : EvalState} {data : Bytes} (hvf : s.vfExec = [])
    (hdata : LastPush data s.stack) (hpush : CScript.isPushOnlyLoop fuel s.pc = true)
    (h : evalLoop E fuel s = .ok r) :
    ∃ last, CScript.lastPush fuel s.pc data = some last ∧ LastPush last r.stack := by
  induction fuel generalizing s data with
  | zero =>
    cases h
    exact ⟨data, rfl, hdata⟩
  | succ fuel ih =>
    rw [evalLoop] at h
    cases hpc : s.pc with
    | nil =>
      rw [if_pos hpc] at h
      cases h
      exact ⟨data, rfl, hdata⟩
    | cons b rest =>
      rw [hpc, CScript.isPushOnlyLoop] at hpush
      rw [if_neg (by rw [hpc]; exact List.cons_ne_nil _ _)] at h
      rcases bind_eq_ok.1 h with ⟨t, hstep, hrest⟩
      rcases step_ok hstep with ⟨opcode, d, pc, nOpCount, hop, hexec⟩
      rw [hpc] at hop
      simp only [hop, Bool.and_eq_true, decide_eq_true_eq] at hpush
      have ht : t.pc = pc := execute_pc E _ opcode d t hexec
      have hvf' : ({ s with pc := pc, nOpCount := nOpCount } : EvalState).vfExec = [] := hvf
      have hkept := execute_push hvf' hpush.1 (CScript.getOp_data_nil hop) hexec
      rcases ih hkept.1 hkept.2 (by rw [ht]; exact hpush.2) hrest with ⟨last, hlast, htop⟩
      refine ⟨last, ?_, htop⟩
      rw [CScript.lastPush]
      simp only [hop]
      rw [if_neg (Nat.not_lt.2 hpush.1), ← ht, hlast]

/-- The calls of other evaluations are not picked. -/
theorem pick_tag_of_ne {ε α : Type} (x : Calling ε α) {k : Evaluation} (hk : k ≠ .redeemScript) :
    ((x.tag k).pick fun event => if event.1 = Evaluation.redeemScript then some event.2 else none) = [] := by
  rw [Traced.pick, Traced.tag, List.filterMap_map, List.filterMap_eq_nil_iff]
  intro call _
  exact if_neg hk

theorem pick_tag_redeem {ε α : Type} (x : Calling ε α) :
    ((x.tag .redeemScript).pick fun event => if event.1 = Evaluation.redeemScript then some event.2 else none) =
      x.trace := by
  rw [Traced.pick, Traced.tag, List.filterMap_map]
  exact List.filterMap_some

theorem verifyScriptT_result (E : ScriptEnv) (scriptSig scriptPubKey : CScript) :
    (verifyScriptT E scriptSig scriptPubKey).result = verifyScript E scriptSig scriptPubKey := by
  have heval : ∀ (k : Evaluation) stack script,
      ((evalScriptT E stack script).tag k).result = evalScript E stack script :=
    fun k stack script => (evalScriptT_follows E stack script).result
  refine result_bind rfl fun _ => result_bind (heval _ _ _) fun stackCopy => ?_
  refine result_bind (heval _ _ _) fun stack => result_bind rfl fun _ => ?_
  split_ifs
  · refine result_bind rfl fun _ => ?_
    cases stackCopy with
    | nil => rfl
    | cons pubKey2 stackCopy => exact result_bind (heval _ _ _) fun _ => rfl
  · rfl

/-- **The count of a P2SH output bounds the checks of its redeem script.** -/
theorem redeemScriptCalls_le (E : ScriptEnv) (scriptSig scriptPubKey : CScript) :
    (redeemScriptCalls E scriptSig scriptPubKey).length ≤
      if CScript.isPayToScriptHash scriptPubKey then CScript.getP2SHSigOpCount scriptPubKey scriptSig else 0 := by
  unfold redeemScriptCalls verifyScriptT
  have hsilent : ∀ {ε α : Type} (x : Except ε α), (Traced.ofExcept x : Traced (Evaluation × CheckSigCall) ε α).pick
      (fun event => if event.1 = Evaluation.redeemScript then some event.2 else none) = [] := fun _ => rfl
  refine pick_bind_of_nil (S := fun l => l.length ≤ _) (hsilent _) (Nat.zero_le _) fun _ _ => ?_
  refine pick_bind_of_nil (S := fun l => l.length ≤ _) (pick_tag_of_ne _ (by decide)) (Nat.zero_le _)
    fun stackCopy hsig => ?_
  refine pick_bind_of_nil (S := fun l => l.length ≤ _) (pick_tag_of_ne _ (by decide)) (Nat.zero_le _)
    fun stack _ => ?_
  refine pick_bind_of_nil (S := fun l => l.length ≤ _) (hsilent _) (Nat.zero_le _) fun _ _ => ?_
  split_ifs with hp2sh h h
  · refine pick_bind_of_nil (S := fun l => l.length ≤ _) (hsilent _) (Nat.zero_le _) fun _ hpush => ?_
    cases stackCopy with
    | nil => exact Nat.zero_le _
    | cons pubKey2 stackCopy =>
      -- The redeem script is what the last push of `scriptSig` left.
      have hpushOnly : CScript.isPushOnly scriptSig = true := by
        have hnot : rejectIf (CScript.isPushOnly scriptSig = false) ScriptError.sigPushOnly = .ok () := hpush
        simpa using hnot
      have hok : evalScript E [] scriptSig = .ok (pubKey2 :: stackCopy) := by
        rw [← (evalScriptT_follows E [] scriptSig).result]
        exact hsig
      rcases evalScript_ok hok with ⟨r, hloop, -, hr⟩
      have hstart : LastPush [] (EvalState.start [] scriptSig).stack := .inl rfl
      rcases evalLoop_lastPush (s := .start [] scriptSig) rfl hstart hpushOnly hloop with ⟨last, hlast, htop⟩
      have hcount : CScript.getP2SHSigOpCount scriptPubKey scriptSig = CScript.getSigOpCount last true := by
        have hlast' : CScript.lastPush scriptSig.length scriptSig [] = some last := hlast
        rw [CScript.getP2SHSigOpCount, h, hlast']
        rfl
      have hevents := (evalScriptT_follows E stackCopy pubKey2).events
      have hle : CScript.getSigOpCount pubKey2 true ≤ CScript.getSigOpCount last true := by
        rw [hr] at htop
        rcases htop with htop | ⟨-, n, hn, hlow, hhigh, htop⟩
        · rw [← htop]
          exact Nat.le_refl _
        · obtain rfl : pubKey2 = CScriptNum.serialize n := Option.some.inj htop
          rw [getSigOpCount_serialize hn hlow hhigh]
          exact Nat.zero_le _
      rw [hcount]
      refine pick_bind (S := fun l => l.length ≤ _) ?_ fun stack' _ => ?_
      · rw [pick_tag_redeem]
        exact hevents.trans hle
      · rw [pick_tag_redeem, hsilent, List.append_nil]
        exact hevents.trans hle
  · exact absurd hp2sh.2 h
  · exact Nat.zero_le _
  · exact Nat.zero_le _

end Dobbscoin
