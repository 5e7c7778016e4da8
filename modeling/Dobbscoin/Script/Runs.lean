import Dobbscoin.Script.Interpreter

/-!
# Runs of scripts

The states that an evaluation goes through, and what acceptance says about each of them.
-/

namespace Dobbscoin

open Guard

/-! ## Progress -/

/-- The operation leaves the iterator where it is. -/
abbrev StaysAt (s : EvalState) (x : Except ScriptFault EvalState) : Prop :=
  Ensures x fun t => t.pc = s.pc

/-- Moreover the code that signatures cover stays, or begins at the iterator. -/
abbrev KeepsCode (s : EvalState) (x : Except ScriptFault EvalState) : Prop :=
  Ensures x fun t => t.pc = s.pc ∧ (t.pbegincodehash = s.pbegincodehash ∨ t.pbegincodehash = s.pc)

theorem StackOp.run_code (s : EvalState) (op : StackOp) : KeepsCode s (op.run s) := by
  cases op <;> simp only [StackOp.run]
  case depth => exact .ok ⟨rfl, .inl rfl⟩
  case ifDup =>
    iterate 2 (apply Ensures.bind; intro _)
    apply Ensures.ok
    split_ifs <;> exact ⟨rfl, .inl rfl⟩
  case drop | dup | nip | «over» | swap | size =>
    iterate 2 (apply Ensures.bind; intro _)
    exact .ok ⟨rfl, .inl rfl⟩
  case toAltStack | fromAltStack | drop2 | dup2 | over2 | swap2 | rot | tuck =>
    iterate 3 (apply Ensures.bind; intro _)
    exact .ok ⟨rfl, .inl rfl⟩
  case dup3 =>
    iterate 4 (apply Ensures.bind; intro _)
    exact .ok ⟨rfl, .inl rfl⟩
  case rot2 =>
    iterate 5 (apply Ensures.bind; intro _)
    exact .ok ⟨rfl, .inl rfl⟩

theorem runIf_code (s : EvalState) (negated : Bool) : KeepsCode s (runIf s negated) := by
  apply Ensures.ite
  · iterate 3 (apply Ensures.bind; intro _)
    exact .ok ⟨rfl, .inl rfl⟩
  · exact .ok ⟨rfl, .inl rfl⟩

theorem runElse_code (s : EvalState) : KeepsCode s (runElse s) := by
  unfold runElse
  split
  · exact .of_error _ _
  · exact .ok ⟨rfl, .inl rfl⟩

theorem runEndIf_code (s : EvalState) : KeepsCode s (runEndIf s) := by
  unfold runEndIf
  split
  · exact .of_error _ _
  · exact .ok ⟨rfl, .inl rfl⟩

theorem runVerify_code (s : EvalState) : KeepsCode s (runVerify s) := by
  unfold runVerify
  iterate 4 (apply Ensures.bind; intro _)
  exact .ok ⟨rfl, .inl rfl⟩

theorem runEqual_code (s : EvalState) (verify : Bool) : KeepsCode s (runEqual s verify) := by
  unfold runEqual
  iterate 5 (apply Ensures.bind; intro _)
  exact .ok ⟨rfl, .inl rfl⟩

section

variable (E : ScriptEnv) (s : EvalState)

theorem runUpgradableNop_code : KeepsCode s (runUpgradableNop E s) :=
  .ite (.of_error _ _) (.ok ⟨rfl, .inl rfl⟩)

theorem runCheckLockTimeVerify_code : KeepsCode s (runCheckLockTimeVerify E s) := by
  unfold runCheckLockTimeVerify
  apply Ensures.ite (runUpgradableNop_code E s)
  iterate 4 (apply Ensures.bind; intro _)
  exact .ok ⟨rfl, .inl rfl⟩

theorem runPick_code (roll : Bool) : KeepsCode s (runPick E s roll) := by
  unfold runPick
  iterate 6 (apply Ensures.bind; intro _)
  exact .ok ⟨rfl, .inl rfl⟩

theorem UnaryOp.run_code (op : UnaryOp) : KeepsCode s (op.run E s) := by
  unfold UnaryOp.run
  iterate 3 (apply Ensures.bind; intro _)
  exact .ok ⟨rfl, .inl rfl⟩

theorem BinaryOp.run_code (op : BinaryOp) : KeepsCode s (op.run E s) := by
  unfold BinaryOp.run
  iterate 4 (apply Ensures.bind; intro _)
  apply Ensures.ite
  · iterate 3 (apply Ensures.bind; intro _)
    exact .ok ⟨rfl, .inl rfl⟩
  · exact .ok ⟨rfl, .inl rfl⟩

theorem runWithin_code : KeepsCode s (runWithin E s) := by
  unfold runWithin
  iterate 5 (apply Ensures.bind; intro _)
  exact .ok ⟨rfl, .inl rfl⟩

theorem runHash_code (op : HashOp) : KeepsCode s (runHash E s op) := by
  unfold runHash
  iterate 3 (apply Ensures.bind; intro _)
  exact .ok ⟨rfl, .inl rfl⟩

theorem runCheckSig_code (verify : Bool) : KeepsCode s (runCheckSig E s verify) := by
  unfold runCheckSig
  iterate 6 (apply Ensures.bind; intro _)
  exact .ok ⟨rfl, .inl rfl⟩

theorem runCheckMultiSig_code (verify : Bool) : KeepsCode s (runCheckMultiSig E s verify) := by
  unfold runCheckMultiSig
  iterate 16 (apply Ensures.bind; intro _)
  exact .ok ⟨rfl, .inl rfl⟩

theorem runOp_code (op : Op) : KeepsCode s (runOp E s op) := by
  cases op with
  | pushNumber n => exact .ok ⟨rfl, .inl rfl⟩
  | nop => exact .ok ⟨rfl, .inl rfl⟩
  | checkLockTimeVerify => exact runCheckLockTimeVerify_code E s
  | upgradableNop => exact runUpgradableNop_code E s
  | opIf negated => exact runIf_code s negated
  | opElse => exact runElse_code s
  | opEndIf => exact runEndIf_code s
  | verify => exact runVerify_code s
  | opReturn => exact .of_error _ _
  | stack op => exact op.run_code s
  | pick roll => exact runPick_code E s roll
  | equal verify => exact runEqual_code s verify
  | unary op => exact op.run_code E s
  | binary op => exact op.run_code E s
  | within => exact runWithin_code E s
  | hash op => exact runHash_code E s op
  | codeSeparator => exact .ok ⟨rfl, .inr rfl⟩
  | checkSig verify => exact runCheckSig_code E s verify
  | checkMultiSig verify => exact runCheckMultiSig_code E s verify
  | bad => exact .of_error _ _

end

theorem execute_code (E : ScriptEnv) (s : EvalState) (opcode : Nat) (vchPushValue : Bytes) :
    KeepsCode s (execute E s opcode vchPushValue) := by
  apply Ensures.ite
  · apply Ensures.bind
    intro _
    exact .ok ⟨rfl, .inl rfl⟩
  · exact .ite (runOp_code E s _) (.ok ⟨rfl, .inl rfl⟩)

theorem execute_pc (E : ScriptEnv) (s : EvalState) (opcode : Nat) (vchPushValue : Bytes) :
    StaysAt s (execute E s opcode vchPushValue) :=
  fun t ht => (execute_code E s opcode vchPushValue t ht).1

/-- What one round of the loop is made of. -/
theorem step_ok {E : ScriptEnv} {s t : EvalState} (h : s.step E = .ok t) :
    ∃ opcode vchPushValue pc nOpCount, CScript.getOp s.pc = some (opcode, vchPushValue, pc) ∧
      execute E { s with pc := pc, nOpCount := nOpCount } opcode vchPushValue = .ok t := by
  unfold EvalState.step at h
  cases hop : CScript.getOp s.pc with
  | none =>
    rw [hop] at h
    cases h
  | some op =>
    rcases op with ⟨opcode, vchPushValue, pc⟩
    simp only [hop, bind_eq_ok, rejectIf_eq_ok, exists_unit, Except.ok.injEq] at h
    rcases h with ⟨-, -, -, u, hexec, -, rfl⟩
    exact ⟨opcode, vchPushValue, pc, _, rfl, hexec⟩

/-- Every round reads something. -/
theorem step_shorter {E : ScriptEnv} {s t : EvalState} (h : s.step E = .ok t) : t.pc.length < s.pc.length := by
  rcases step_ok h with ⟨opcode, vchPushValue, pc, nOpCount, hop, hexec⟩
  have hpc := execute_pc E _ opcode vchPushValue t hexec
  rw [hpc]
  exact CScript.getOp_length hop

/-- The loop reads the whole script. -/
theorem evalLoop_pc {E : ScriptEnv} {fuel : Nat} {s t : EvalState} (hfuel : s.pc.length ≤ fuel)
    (h : evalLoop E fuel s = .ok t) : t.pc = [] := by
  induction fuel generalizing s with
  | zero =>
    cases h
    exact List.length_eq_zero_iff.1 (Nat.le_zero.1 hfuel)
  | succ fuel ih =>
    unfold evalLoop at h
    split_ifs at h with hpc
    · cases h
      exact hpc
    · rcases bind_eq_ok.1 h with ⟨u, hstep, hrest⟩
      have hlt := step_shorter hstep
      exact ih (by omega) hrest

/-! ## States of a run -/

/-- The loop comes from one state to the other. -/
inductive Visits (E : ScriptEnv) : EvalState → EvalState → Prop
  | here (s : EvalState) : Visits E s s
  | next {s t u : EvalState} (more : s.pc ≠ []) (step : s.step E = .ok t) (rest : Visits E t u) : Visits E s u

/-- What every round keeps holds of all states of a run. -/
theorem Visits.invariant {E : ScriptEnv} {P : EvalState → Prop} {s t : EvalState} (h : Visits E s t)
    (hstep : ∀ u v, P u → u.step E = .ok v → P v) (hs : P s) : P t := by
  induction h with
  | here s => exact hs
  | next more step rest ih => exact ih (hstep _ _ hs step)

/-- More rounds than there are bytes make no difference. -/
theorem evalLoop_fuel {E : ScriptEnv} {f g : Nat} {s : EvalState} (hf : s.pc.length ≤ f) (hg : s.pc.length ≤ g) :
    evalLoop E f s = evalLoop E g s := by
  induction f generalizing g s with
  | zero =>
    have hnil : s.pc = [] := List.length_eq_zero_iff.1 (Nat.le_zero.1 hf)
    cases g with
    | zero => rfl
    | succ g => rw [evalLoop, evalLoop, if_pos hnil]
  | succ f ih =>
    cases g with
    | zero =>
      have hnil : s.pc = [] := List.length_eq_zero_iff.1 (Nat.le_zero.1 hg)
      rw [evalLoop, evalLoop, if_pos hnil]
    | succ g =>
      rw [evalLoop, evalLoop]
      cases hstep : s.step E with
      | error e => rfl
      | ok t =>
        have hlt := step_shorter hstep
        have hrest : evalLoop E f t = evalLoop E g t := ih (by omega) (by omega)
        simp only [bind, Except.bind, hrest]

/-- In a loop that ends well, every round does. -/
theorem Visits.step_of_evalLoop {E : ScriptEnv} {s t r : EvalState} (h : Visits E s t) {fuel : Nat}
    (hfuel : s.pc.length ≤ fuel) (hloop : evalLoop E fuel s = .ok r) (hmore : t.pc ≠ []) :
    ∃ u, t.step E = .ok u := by
  have hround : ∀ {v : EvalState} {fuel : Nat}, v.pc ≠ [] → v.pc.length ≤ fuel → evalLoop E fuel v = .ok r →
      ∃ fuel' u, fuel = fuel' + 1 ∧ v.step E = .ok u ∧ evalLoop E fuel' u = .ok r := by
    intro v fuel hv hfuel hloop
    cases fuel with
    | zero => exact absurd (List.length_eq_zero_iff.1 (Nat.le_zero.1 hfuel)) hv
    | succ fuel =>
      rw [evalLoop, if_neg hv] at hloop
      rcases bind_eq_ok.1 hloop with ⟨u, hstep, hrest⟩
      exact ⟨fuel, u, rfl, hstep, hrest⟩
  induction h generalizing fuel with
  | here s =>
    rcases hround hmore hfuel hloop with ⟨_, u, -, hstep, -⟩
    exact ⟨u, hstep⟩
  | next more step rest ih =>
    rcases hround more hfuel hloop with ⟨fuel', u, rfl, hstep, hrest⟩
    obtain rfl := Except.ok.inj (step.symm.trans hstep)
    have hlt := step_shorter hstep
    exact ih (by omega) hrest hmore

/-- What `EvalScript` leaves when it succeeds. -/
theorem evalScript_ok {E : ScriptEnv} {stack stack' : ScriptStack} {script : CScript}
    (h : evalScript E stack script = .ok stack') :
    ∃ r, evalLoop E script.length (.start stack script) = .ok r ∧ r.vfExec = [] ∧ r.stack = stack' := by
  unfold evalScript at h
  split_ifs at h
  cases hloop : evalLoop E script.length (.start stack script) with
  | error e =>
    rw [hloop] at h
    cases h
  | ok r =>
    rw [hloop] at h
    dsimp only at h
    split_ifs at h with hvf
    exact ⟨r, rfl, not_not.1 hvf, Except.ok.inj h⟩

theorem evalLoop_of_evalScript {E : ScriptEnv} {stack stack' : ScriptStack} {script : CScript}
    (h : evalScript E stack script = .ok stack') :
    ∃ r, evalLoop E script.length (.start stack script) = .ok r :=
  (evalScript_ok h).imp fun _ hr => hr.1

/-- The evaluations that `VerifyScript` makes, each by the state it starts in. -/
inductive Evaluates (E : ScriptEnv) (scriptSig scriptPubKey : CScript) : EvalState → Prop
  | ofScriptSig : Evaluates E scriptSig scriptPubKey (.start [] scriptSig)
  | ofScriptPubKey {stack : ScriptStack} (h : evalScript E [] scriptSig = .ok stack) :
    Evaluates E scriptSig scriptPubKey (.start stack scriptPubKey)
  | ofRedeemScript {pubKey2 : Bytes} {stackCopy : ScriptStack} (flag : E.has scriptVerifyP2SH = true)
    (p2sh : CScript.isPayToScriptHash scriptPubKey = true)
    (h : evalScript E [] scriptSig = .ok (pubKey2 :: stackCopy)) :
    Evaluates E scriptSig scriptPubKey (.start stackCopy pubKey2)

/-- **In a script that is accepted every round of every evaluation succeeds.** -/
theorem Evaluates.step {E : ScriptEnv} {scriptSig scriptPubKey : CScript} {s t : EvalState}
    (h : Evaluates E scriptSig scriptPubKey s) (hok : verifyScript E scriptSig scriptPubKey = .ok ())
    (hvisits : Visits E s t) (hmore : t.pc ≠ []) : ∃ u, t.step E = .ok u := by
  have hloop : ∀ {stack stack' : ScriptStack} {script : CScript}, evalScript E stack script = .ok stack' →
      s = .start stack script → ∃ u, t.step E = .ok u := by
    rintro stack stack' script heval rfl
    rcases evalLoop_of_evalScript heval with ⟨r, hr⟩
    exact hvisits.step_of_evalLoop (Nat.le_refl script.length) hr hmore
  simp only [verifyScript, bind_eq_ok, rejectIf_eq_ok, exists_unit] at hok
  rcases hok with ⟨-, stackCopy, hsig, stack, hpubKey, -, hredeem⟩
  cases h with
  | ofScriptSig => exact hloop hsig rfl
  | ofScriptPubKey h =>
    obtain rfl := Except.ok.inj (h.symm.trans hsig)
    exact hloop hpubKey rfl
  | ofRedeemScript flag p2sh h =>
    obtain rfl := Except.ok.inj (h.symm.trans hsig)
    rw [if_pos ⟨flag, p2sh⟩] at hredeem
    simp only [verifyRedeemScript, bind_eq_ok, rejectIf_eq_ok, exists_unit] at hredeem
    rcases hredeem with ⟨-, stack, heval, -⟩
    exact hloop heval rfl

end Dobbscoin
