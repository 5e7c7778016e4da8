import Dobbscoin.Lib.Outcome
import Dobbscoin.Script.LeftStack
import Dobbscoin.Script.Runs

/-!
# Scripts that run alike

Without the minimal-data rule an evaluation does not look at how data is pushed, and under a checker that does
not look at the script code the bytes of the script enter it nowhere else.
-/

namespace Dobbscoin

open Guard

/-! ## States -/

/-- The same state at another place, in another script. -/
def EvalState.movedTo (s : EvalState) (pc pbegincodehash : Bytes) : EvalState :=
  { s with pc := pc, pbegincodehash := pbegincodehash }

/-- The states differ in their places only. -/
def AlikeStates (s s' : EvalState) : Prop :=
  s' = s.movedTo s'.pc s'.pbegincodehash

/-- The script code does not matter for the check of a signature. -/
def BaseSignatureChecker.IgnoresCode (checker : BaseSignatureChecker) : Prop :=
  ∀ vchSig vchPubKey scriptCode scriptCode',
    checker.checkSig vchSig vchPubKey scriptCode = checker.checkSig vchSig vchPubKey scriptCode'

abbrev RunAlike (x y : Except ScriptFault EvalState) : Prop :=
  Related AlikeStates x y

/-! ## Operations -/

section

variable (s : EvalState) (pc code : Bytes)

theorem StackOp.run_alike (op : StackOp) : RunAlike (op.run s) (op.run (s.movedTo pc code)) := by
  cases op <;> simp only [StackOp.run]
  case depth => exact .ok rfl
  case ifDup =>
    iterate 2 (apply Related.step; intro _)
    apply Related.ok
    dsimp only [EvalState.movedTo]
    split_ifs <;> rfl
  case drop | dup | nip | «over» | swap | size =>
    iterate 2 (apply Related.step; intro _)
    exact .ok rfl
  case toAltStack | fromAltStack | drop2 | dup2 | over2 | swap2 | rot | tuck =>
    iterate 3 (apply Related.step; intro _)
    exact .ok rfl
  case dup3 =>
    iterate 4 (apply Related.step; intro _)
    exact .ok rfl
  case rot2 =>
    iterate 5 (apply Related.step; intro _)
    exact .ok rfl

theorem runIf_alike (negated : Bool) : RunAlike (runIf s negated) (runIf (s.movedTo pc code) negated) := by
  apply Related.ite
  · iterate 3 (apply Related.step; intro _)
    exact .ok rfl
  · exact .ok rfl

theorem runElse_alike : RunAlike (runElse s) (runElse (s.movedTo pc code)) := by
  unfold runElse EvalState.movedTo
  cases s.vfExec with
  | nil => exact .error _
  | cons back vfExec => exact .ok rfl

theorem runEndIf_alike : RunAlike (runEndIf s) (runEndIf (s.movedTo pc code)) := by
  unfold runEndIf EvalState.movedTo
  cases s.vfExec with
  | nil => exact .error _
  | cons back vfExec => exact .ok rfl

theorem runVerify_alike : RunAlike (runVerify s) (runVerify (s.movedTo pc code)) := by
  iterate 4 (apply Related.step; intro _)
  exact .ok rfl

theorem runEqual_alike (verify : Bool) : RunAlike (runEqual s verify) (runEqual (s.movedTo pc code) verify) := by
  iterate 5 (apply Related.step; intro _)
  exact .ok rfl

variable (E : ScriptEnv)

theorem runUpgradableNop_alike : RunAlike (runUpgradableNop E s) (runUpgradableNop E (s.movedTo pc code)) :=
  .ite (.error _) (.ok rfl)

theorem runCheckLockTimeVerify_alike :
    RunAlike (runCheckLockTimeVerify E s) (runCheckLockTimeVerify E (s.movedTo pc code)) := by
  apply Related.ite (runUpgradableNop_alike s pc code E)
  iterate 4 (apply Related.step; intro _)
  exact .ok rfl

theorem runPick_alike (roll : Bool) : RunAlike (runPick E s roll) (runPick E (s.movedTo pc code) roll) := by
  iterate 6 (apply Related.step; intro _)
  exact .ok rfl

theorem UnaryOp.run_alike (op : UnaryOp) : RunAlike (op.run E s) (op.run E (s.movedTo pc code)) := by
  iterate 3 (apply Related.step; intro _)
  exact .ok rfl

theorem BinaryOp.run_alike (op : BinaryOp) : RunAlike (op.run E s) (op.run E (s.movedTo pc code)) := by
  iterate 4 (apply Related.step; intro _)
  apply Related.ite
  · iterate 3 (apply Related.step; intro _)
    exact .ok rfl
  · exact .ok rfl

theorem runWithin_alike : RunAlike (runWithin E s) (runWithin E (s.movedTo pc code)) := by
  iterate 5 (apply Related.step; intro _)
  exact .ok rfl

theorem runHash_alike (op : HashOp) : RunAlike (runHash E s op) (runHash E (s.movedTo pc code) op) := by
  iterate 3 (apply Related.step; intro _)
  exact .ok rfl

variable {E} (h : E.checker.IgnoresCode)
include h

theorem runCheckSig_alike (verify : Bool) :
    RunAlike (runCheckSig E s verify) (runCheckSig E (s.movedTo pc code) verify) := by
  apply Related.step
  intro _
  apply Related.step
  intro vchSig
  apply Related.step
  intro vchPubKey
  dsimp only
  rw [h vchSig vchPubKey _ (CScript.findAndDelete (s.movedTo pc code).pbegincodehash (CScript.pushBytes vchSig))]
  iterate 3 (apply Related.step; intro _)
  exact .ok rfl

omit h in
theorem deleteSigs_alike (stack : ScriptStack) (n isig : Nat) (scriptCode scriptCode' : CScript) :
    Related (fun _ _ => True) (deleteSigs stack n isig scriptCode) (deleteSigs stack n isig scriptCode') := by
  induction n generalizing isig scriptCode scriptCode' with
  | zero => exact .ok trivial
  | succ n ih =>
    apply Related.step
    intro vchSig
    exact ih _ _ _

theorem multiSigLoop_alike (stack : ScriptStack) (nKeysCount ikey isig nSigsCount : Nat)
    (scriptCode scriptCode' : CScript) :
    multiSigLoop E scriptCode stack nKeysCount ikey isig nSigsCount =
      multiSigLoop E scriptCode' stack nKeysCount ikey isig nSigsCount := by
  induction nKeysCount generalizing ikey isig nSigsCount with
  | zero => cases nSigsCount <;> rfl
  | succ nKeysCount ih =>
    cases nSigsCount with
    | zero => rfl
    | succ nSigsCount =>
      unfold multiSigLoop
      apply bind_congr_ok
      intro vchSig _
      apply bind_congr_ok
      intro vchPubKey _
      simp only [h vchSig vchPubKey scriptCode scriptCode', ih]

theorem multiSigChecks_alike : multiSigChecks E s = multiSigChecks E (s.movedTo pc code) := by
  apply Related.eq
  unfold multiSigChecks
  iterate 8 (apply Related.step; intro _)
  apply Related.bind (deleteSigs_alike s.stack _ _ s.pbegincodehash code)
  intro scriptCode scriptCode' _
  rw [multiSigLoop_alike h _ _ _ _ _ scriptCode scriptCode']
  apply Related.step
  intro _
  exact .ok rfl

theorem runCheckMultiSig_alike (verify : Bool) :
    RunAlike (runCheckMultiSig E s verify) (runCheckMultiSig E (s.movedTo pc code) verify) := by
  rw [runCheckMultiSig_eq, runCheckMultiSig_eq, ← multiSigChecks_alike s pc code h]
  iterate 7 (apply Related.step; intro _)
  exact .ok rfl

theorem runOp_alike (op : Op) : RunAlike (runOp E s op) (runOp E (s.movedTo pc code) op) := by
  cases op with
  | pushNumber n => exact .ok rfl
  | nop => exact .ok rfl
  | checkLockTimeVerify => exact runCheckLockTimeVerify_alike s pc code E
  | upgradableNop => exact runUpgradableNop_alike s pc code E
  | opIf negated => exact runIf_alike s pc code negated
  | opElse => exact runElse_alike s pc code
  | opEndIf => exact runEndIf_alike s pc code
  | verify => exact runVerify_alike s pc code
  | opReturn => exact .error _
  | stack op => exact op.run_alike s pc code
  | pick roll => exact runPick_alike s pc code E roll
  | equal verify => exact runEqual_alike s pc code verify
  | unary op => exact op.run_alike s pc code E
  | binary op => exact op.run_alike s pc code E
  | within => exact runWithin_alike s pc code E
  | hash op => exact runHash_alike s pc code E op
  | codeSeparator => exact .ok rfl
  | checkSig verify => exact runCheckSig_alike s pc code h verify
  | checkMultiSig verify => exact runCheckMultiSig_alike s pc code h verify
  | bad => exact .error _

theorem leftByOp_alike (op : Op) : leftByOp E s op = leftByOp E (s.movedTo pc code) op := by
  cases op with
  | checkMultiSig verify =>
    unfold leftByOp
    rw [← multiSigChecks_alike s pc code h]
    rfl
  -- The other ones are left with their stack or fail by it alone.
  | _ => rfl

end

/-! ## Rounds -/

/-- The same opcode, or two that push. -/
def AlikeOpcodes (opcode opcode' : Nat) : Prop :=
  opcode = opcode' ∨ opcode ≤ opPushData4 ∧ opcode' ≤ opPushData4

theorem isDisabledOpcode_push {opcode : Nat} (h : opcode ≤ opPushData4) : isDisabledOpcode opcode = false := by
  unfold opPushData4 at h
  simp only [isDisabledOpcode, List.contains_cons, List.contains_nil, Bool.or_false, Bool.or_eq_false_iff,
    beq_eq_false_iff_ne]
  omega

theorem isConditionalOpcode_push {opcode : Nat} (h : opcode ≤ opPushData4) :
    isConditionalOpcode opcode = false := by
  unfold opPushData4 at h
  simp only [isConditionalOpcode, Bool.and_eq_false_iff, decide_eq_false_iff_not]
  omega

/-- Without the minimal-data rule a push does not fail. -/
theorem execute_push_ok {E : ScriptEnv} (hminimal : E.has scriptVerifyMinimalData = false) (s : EvalState)
    {opcode : Nat} (h : opcode ≤ opPushData4) (data : Bytes) :
    execute E s opcode data = .ok (if s.fExec = true then s.withStack (data :: s.stack) else s) := by
  unfold execute
  rw [hminimal, isConditionalOpcode_push h]
  by_cases hexec : s.fExec = true
  · rw [if_pos ⟨hexec, h⟩, if_pos hexec, rejectIf_of_not _ fun hc => Bool.false_ne_true hc.1]
    rfl
  · have hskip : ¬ (s.fExec = true ∨ false = true) := fun hc => hc.elim hexec Bool.false_ne_true
    rw [if_neg fun hc => hexec hc.1, if_neg hskip, if_neg hexec]

namespace AlikeOpcodes

variable {opcode opcode' : Nat} (h : AlikeOpcodes opcode opcode')
include h

theorem counted : (opcode > op16) = (opcode' > op16) := by
  rcases h with rfl | ⟨hle, hle'⟩
  · rfl
  · unfold opPushData4 at hle hle'
    unfold op16
    exact propext ⟨by omega, by omega⟩

theorem disabled : isDisabledOpcode opcode = isDisabledOpcode opcode' := by
  rcases h with rfl | ⟨hle, hle'⟩
  · rfl
  · rw [isDisabledOpcode_push hle, isDisabledOpcode_push hle']

theorem execute {E : ScriptEnv} (hcode : E.checker.IgnoresCode) (hminimal : E.has scriptVerifyMinimalData = false)
    (s : EvalState) (pc code data : Bytes) :
    RunAlike (Dobbscoin.execute E s opcode data) (Dobbscoin.execute E (s.movedTo pc code) opcode' data) := by
  rcases h with rfl | ⟨hle, hle'⟩
  · unfold Dobbscoin.execute
    apply Related.ite
    · apply Related.step
      intro _
      exact .ok rfl
    · exact .ite (runOp_alike s pc code hcode _) (.ok rfl)
  · rw [execute_push_ok hminimal _ hle, execute_push_ok hminimal _ hle']
    apply Related.ok
    have hexec : (s.movedTo pc code).fExec = s.fExec := rfl
    rw [hexec]
    split_ifs <;> rfl

/-- The round that reads them ends alike, and leaves the same stack where it fails. -/
theorem step {E : ScriptEnv} (hcode : E.checker.IgnoresCode) (hminimal : E.has scriptVerifyMinimalData = false)
    {s : EvalState} {pc code rest rest' data : Bytes} (hop : CScript.getOp s.pc = some (opcode, data, rest))
    (hop' : CScript.getOp pc = some (opcode', data, rest')) :
    Related (fun t t' => AlikeStates t t' ∧ t.pc = rest ∧ t'.pc = rest') (s.step E) ((s.movedTo pc code).step E) ∧
      s.leftStack E = (s.movedTo pc code).leftStack E := by
  have hpc : ∀ {u : EvalState} {op : Nat} {v q : Bytes}, CScript.getOp u.pc = some (op, v, q) →
      Ensures (u.step E) fun t => t.pc = q := by
    intro u op v q hu t ht
    rcases step_ok ht with ⟨op', v', q', n, hread, hexec⟩
    rw [hu, Option.some.injEq, Prod.mk.injEq, Prod.mk.injEq] at hread
    rw [hread.2.2]
    exact execute_pc E _ op' v' t hexec
  have hpc' : (s.movedTo pc code).pc = pc := rfl
  have hcount : (s.movedTo pc code).nOpCount = s.nOpCount := rfl
  -- The state in which the opcode runs.
  have hrun : ∀ n, RunAlike (Dobbscoin.execute E { s with pc := rest, nOpCount := n } opcode data)
      (Dobbscoin.execute E { s.movedTo pc code with pc := rest', nOpCount := n } opcode' data) :=
    fun n => h.execute hcode hminimal { s with pc := rest, nOpCount := n } rest' code data
  constructor
  · refine Related.ensures ?_ (hpc hop) (hpc (u := s.movedTo pc code) hop')
    unfold EvalState.step
    rw [hop, hpc', hop', hcount]
    dsimp only
    simp only [← h.counted, ← h.disabled]
    apply Related.step
    intro _
    apply Related.step
    intro _
    apply Related.step
    intro _
    apply Related.bind (hrun _)
    intro t t' ht
    rw [AlikeStates] at ht
    rw [ht]
    apply Related.step
    intro _
    exact .ok rfl
  · unfold EvalState.leftStack
    rw [hop, hpc', hop', hcount]
    dsimp only
    simp only [← h.counted, ← h.disabled]
    generalize (if opcode > op16 then s.nOpCount + 1 else s.nOpCount) = n
    by_cases hreject : data.length > maxScriptElementSize ∨ (opcode > op16 ∧ n > 201) ∨ isDisabledOpcode opcode = true
    · rw [if_pos hreject, if_pos hreject]
      rfl
    rw [if_neg hreject, if_neg hreject]
    rcases h with rfl | ⟨hle, hle'⟩
    · have hleft := leftByOp_alike { s with pc := rest, nOpCount := n } rest' code hcode (opOf opcode)
      rcases (hrun n).ends with ⟨e, hx, hy⟩ | ⟨t, t', hx, hy, ht⟩
      · rw [hx, hy]
        dsimp only
        rw [hleft]
        rfl
      · rw [hx, hy]
        exact (congrArg EvalState.stack ht).symm
    · have hexec : { s with pc := rest, nOpCount := n }.fExec = s.fExec := rfl
      have hexec' : { s.movedTo pc code with pc := rest', nOpCount := n }.fExec = s.fExec := rfl
      rw [execute_push_ok hminimal _ hle, execute_push_ok hminimal _ hle', hexec, hexec']
      dsimp only
      split_ifs <;> rfl

end AlikeOpcodes

/-! ## Runs -/

/-- Scripts whose opcodes are the same, up to the ways in which they push the same data. -/
inductive AlikeScripts : Bytes → Bytes → Prop
  | done : AlikeScripts [] []
  | next {pc pc' rest rest' data : Bytes} {opcode opcode' : Nat}
    (op : CScript.getOp pc = some (opcode, data, rest)) (op' : CScript.getOp pc' = some (opcode', data, rest'))
    (alike : AlikeOpcodes opcode opcode') (more : AlikeScripts rest rest') : AlikeScripts pc pc'

theorem evalLoop_next {E : ScriptEnv} {fuel : Nat} {s : EvalState} (hpc : s.pc ≠ []) (hfuel : s.pc.length ≤ fuel) :
    ∃ fuel', fuel = fuel' + 1 ∧
      evalLoop E fuel s = (s.step E >>= fun t => evalLoop E fuel' t) ∧
      evalLoopStack E fuel s =
        match s.step E with
        | .ok t => evalLoopStack E fuel' t
        | .error _ => s.leftStack E := by
  cases fuel with
  | zero => exact absurd (List.length_eq_zero_iff.1 (Nat.le_zero.1 hfuel)) hpc
  | succ fuel => exact ⟨fuel, rfl, if_neg hpc, if_neg hpc⟩

theorem evalLoop_done {E : ScriptEnv} {s : EvalState} (hpc : s.pc = []) (fuel : Nat) :
    evalLoop E fuel s = .ok s ∧ evalLoopStack E fuel s = s.stack := by
  cases fuel with
  | zero => exact ⟨rfl, rfl⟩
  | succ fuel => exact ⟨by rw [evalLoop, if_pos hpc], by rw [evalLoopStack, if_pos hpc]⟩

namespace AlikeScripts

variable {E : ScriptEnv} (hcode : E.checker.IgnoresCode) (hminimal : E.has scriptVerifyMinimalData = false)
include hcode hminimal

theorem evalLoop {p p' : Bytes} (h : AlikeScripts p p') {fuel fuel' : Nat} {s s' : EvalState} (hp : s.pc = p)
    (hp' : s'.pc = p') (hs : AlikeStates s s') (hfuel : p.length ≤ fuel) (hfuel' : p'.length ≤ fuel') :
    RunAlike (Dobbscoin.evalLoop E fuel s) (Dobbscoin.evalLoop E fuel' s') ∧
      evalLoopStack E fuel s = evalLoopStack E fuel' s' := by
  induction h generalizing s s' fuel fuel' with
  | done =>
    rcases evalLoop_done (E := E) hp fuel with ⟨hloop, hstack⟩
    rcases evalLoop_done (E := E) hp' fuel' with ⟨hloop', hstack'⟩
    rw [hloop, hloop', hstack, hstack']
    exact ⟨.ok hs, (congrArg EvalState.stack hs).symm⟩
  | @next pc pc' rest rest' data opcode opcode' op op' alike more ih =>
    subst hp hp'
    have hlt := CScript.getOp_length op
    have hlt' := CScript.getOp_length op'
    rcases evalLoop_next (E := E) (List.length_pos_iff.1 (Nat.zero_lt_of_lt hlt)) hfuel with
      ⟨fuel, rfl, hloop, hstack⟩
    rcases evalLoop_next (E := E) (List.length_pos_iff.1 (Nat.zero_lt_of_lt hlt')) hfuel' with
      ⟨fuel', rfl, hloop', hstack'⟩
    have hround := @AlikeOpcodes.step _ _ alike E hcode hminimal s _ s'.pbegincodehash _ _ _ op op'
    rw [← hs] at hround
    have hnext : ∀ t t', AlikeStates t t' ∧ t.pc = rest ∧ t'.pc = rest' → _ :=
      fun t t' ht => ih ht.2.1 ht.2.2 ht.1 (Nat.le_of_lt_succ (Nat.lt_of_lt_of_le hlt hfuel))
        (Nat.le_of_lt_succ (Nat.lt_of_lt_of_le hlt' hfuel'))
    rw [hloop, hloop', hstack, hstack']
    refine ⟨hround.1.bind fun t t' ht => (hnext t t' ht).1, ?_⟩
    rcases hround.1.ends with ⟨e, hx, hy⟩ | ⟨t, t', hx, hy, ht⟩
    · rw [hx, hy]
      exact hround.2
    · rw [hx, hy]
      exact (hnext t t' ht).2

/-- **Scripts that differ in how they push run alike**: they end with the same result and leave the same stack. -/
theorem evalScript {script script' : CScript} (h : AlikeScripts script script') (hsize : script.length ≤ 10000)
    (hsize' : script'.length ≤ 10000) (stack : ScriptStack) :
    Dobbscoin.evalScript E stack script = Dobbscoin.evalScript E stack script' ∧
      evalScriptStack E stack script = evalScriptStack E stack script' := by
  have hloop : RunAlike (Dobbscoin.evalLoop E script.length (.start stack script))
      (Dobbscoin.evalLoop E script'.length (.start stack script')) ∧ _ :=
    h.evalLoop hcode hminimal rfl rfl rfl (Nat.le_refl script.length) (Nat.le_refl script'.length)
  unfold Dobbscoin.evalScript evalScriptStack
  rw [if_neg (Nat.not_lt.2 hsize), if_neg (Nat.not_lt.2 hsize'), if_neg (Nat.not_lt.2 hsize),
    if_neg (Nat.not_lt.2 hsize')]
  refine ⟨?_, hloop.2⟩
  rcases hloop.1.ends with ⟨e, hx, hy⟩ | ⟨t, t', hx, hy, ht⟩
  · rw [hx, hy]
  · rw [hx, hy, show t' = t.movedTo t'.pc t'.pbegincodehash from ht]
    rfl

end AlikeScripts

end Dobbscoin
