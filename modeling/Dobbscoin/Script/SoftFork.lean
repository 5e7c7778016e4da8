import Dobbscoin.Script.Interpreter
import Dobbscoin.Validation.ConnectBlock

/-!
# Script flags as soft forks

What a script passes under more flags, it passes under fewer.
-/

namespace Dobbscoin

open Guard

/-! ## Flags -/

/-- A flag of the smaller set is a flag of the larger set. -/
theorem hasFlag_of_subset {F F' flag : UInt32} (hsub : F &&& F' = F) (h : hasFlag F flag = true) :
    hasFlag F' flag = true := by
  unfold hasFlag at h ⊢
  rw [bne_iff_ne] at h ⊢
  intro hzero
  apply h
  calc
    F &&& flag = (F &&& F') &&& flag := by rw [hsub]
    _ = F &&& (F' &&& flag) := UInt32.and_assoc F F' flag
    _ = 0 := by rw [hzero, UInt32.and_zero]

/-- One flag set goes over into another by dropping flags; `OP_CHECKLOCKTIMEVERIFY` does not become a
discouraged no-op by it. -/
structure Dropped (F' F : UInt32) : Prop where
  subset : F &&& F' = F
  lockTime : hasFlag F' scriptVerifyCheckLockTimeVerify = true →
    hasFlag F scriptVerifyDiscourageUpgradableNops = true → hasFlag F scriptVerifyCheckLockTimeVerify = true

theorem Dropped.has {F' F flag : UInt32} (h : Dropped F' F) (hflag : hasFlag F flag = true) :
    hasFlag F' flag = true :=
  hasFlag_of_subset h.subset hflag

section

variable {F' F : UInt32} (h : Dropped F' F)
include h

/-! ## Encodings -/

theorem Dropped.signatureEncoding (vchSig : Bytes) :
    Laxer (checkSignatureEncoding vchSig F') (checkSignatureEncoding vchSig F) := by
  unfold checkSignatureEncoding
  by_cases hempty : vchSig = []
  · rw [if_pos hempty, if_pos hempty]
    exact .refl _
  rw [if_neg hempty, if_neg hempty]
  apply Laxer.bind (laxer_rejectIf fun hc => ⟨h.has hc.1, hc.2⟩)
  intro _ _
  apply Laxer.bind
  · cases hlow : hasFlag F scriptVerifyLowS with
    | true =>
      rw [if_pos (h.has hlow), if_pos rfl]
      exact .refl _
    | false =>
      intro u _
      exact if_neg Bool.false_ne_true
  · intro _ _
    exact laxer_rejectIf fun hc => ⟨h.has hc.1, hc.2⟩

theorem Dropped.pubKeyEncoding (vchPubKey : Bytes) :
    Laxer (checkPubKeyEncoding vchPubKey F') (checkPubKeyEncoding vchPubKey F) :=
  laxer_rejectIf fun hc => ⟨h.has hc.1, hc.2⟩

end

/-- The same scripts under other flags. -/
def ScriptEnv.withFlags (E : ScriptEnv) (flags : UInt32) : ScriptEnv :=
  { E with flags }

section

variable {F' F : UInt32} (h : Dropped F' F) (E : ScriptEnv)
include h

theorem Dropped.encodings (vchSig vchPubKey : Bytes) :
    Laxer (checkEncodings (E.withFlags F') vchSig vchPubKey) (checkEncodings (E.withFlags F) vchSig vchPubKey) := by
  intro u hu
  unfold checkEncodings at hu ⊢
  split at hu
  · cases hu
  · cases hu
  · next hsig hkey =>
    have hsig' : checkSignatureEncoding vchSig (E.withFlags F).flags = .ok () := h.signatureEncoding vchSig _ hsig
    have hkey' : checkPubKeyEncoding vchPubKey (E.withFlags F).flags = .ok () := h.pubKeyEncoding vchPubKey _ hkey
    rw [hsig', hkey']

theorem Dropped.ofBytes (vch : Bytes) (size : Nat) :
    Laxer (CScriptNum.ofBytes vch ((E.withFlags F').has scriptVerifyMinimalData) size)
      (CScriptNum.ofBytes vch ((E.withFlags F).has scriptVerifyMinimalData) size) := by
  unfold CScriptNum.ofBytes
  apply Laxer.bind_right
  intro _
  apply Laxer.bind_left
  exact laxer_rejectIf fun hc => ⟨h.has hc.1, hc.2⟩

theorem Dropped.number (stack : ScriptStack) (i : Nat) :
    Laxer ((E.withFlags F').number stack i) ((E.withFlags F).number stack i) :=
  Laxer.bind_right fun vch => h.ofBytes E vch _

/-! ## Operations -/

theorem Dropped.pick (s : EvalState) (roll : Bool) :
    Laxer (runPick (E.withFlags F') s roll) (runPick (E.withFlags F) s roll) :=
  Laxer.bind_right fun _ => (h.number E s.stack 1).bind_left

theorem Dropped.unary (s : EvalState) (op : UnaryOp) :
    Laxer (op.run (E.withFlags F') s) (op.run (E.withFlags F) s) :=
  Laxer.bind_right fun _ => (h.number E s.stack 1).bind_left

theorem Dropped.binary (s : EvalState) (op : BinaryOp) :
    Laxer (op.run (E.withFlags F') s) (op.run (E.withFlags F) s) := by
  apply Laxer.bind_right
  intro _
  apply Laxer.bind (h.number E s.stack 2)
  intro _ _
  exact (h.number E s.stack 1).bind_left

theorem Dropped.within (s : EvalState) : Laxer (runWithin (E.withFlags F') s) (runWithin (E.withFlags F) s) := by
  apply Laxer.bind_right
  intro _
  apply Laxer.bind (h.number E s.stack 3)
  intro _ _
  apply Laxer.bind (h.number E s.stack 2)
  intro _ _
  exact (h.number E s.stack 1).bind_left

theorem Dropped.upgradableNop (s : EvalState) :
    Laxer (runUpgradableNop (E.withFlags F') s) (runUpgradableNop (E.withFlags F) s) := by
  unfold runUpgradableNop
  cases hnops : (E.withFlags F).has scriptVerifyDiscourageUpgradableNops with
  | true =>
    have hnops' : (E.withFlags F').has scriptVerifyDiscourageUpgradableNops = true := h.has hnops
    rw [if_pos hnops']
    exact .of_error _
  | false =>
    rw [if_neg Bool.false_ne_true]
    split_ifs
    · exact .of_error _
    · exact .refl _

theorem Dropped.checkLockTimeVerify (s : EvalState) :
    Laxer (runCheckLockTimeVerify (E.withFlags F') s) (runCheckLockTimeVerify (E.withFlags F) s) := by
  unfold runCheckLockTimeVerify
  cases hlock : (E.withFlags F).has scriptVerifyCheckLockTimeVerify with
  | true =>
    have hlock' : (E.withFlags F').has scriptVerifyCheckLockTimeVerify = true := h.has hlock
    rw [hlock', if_neg (Bool.false_ne_true ∘ Eq.symm), if_neg (Bool.false_ne_true ∘ Eq.symm)]
    apply Laxer.bind_right
    intro _
    apply Laxer.bind_left
    exact Laxer.bind_right fun vch => h.ofBytes E vch 5
  | false =>
    rw [if_pos rfl]
    cases hlock' : (E.withFlags F').has scriptVerifyCheckLockTimeVerify with
    | true =>
      -- The lock time was checked and is a no-op now, which nothing discourages.
      rw [if_neg (Bool.false_ne_true ∘ Eq.symm)]
      have hnops : (E.withFlags F).has scriptVerifyDiscourageUpgradableNops = false := by
        by_contra hnops
        have hlock'' := h.lockTime hlock' (Bool.not_eq_false _ ▸ hnops)
        exact Bool.false_ne_true (hlock.symm.trans hlock'')
      intro t ht
      simp only [bind_eq_ok, rejectIf_eq_ok, exists_unit] at ht
      rcases ht with ⟨-, -, -, -, -, ht⟩
      rw [runUpgradableNop, hnops]
      exact ht
    | false =>
      rw [if_pos rfl]
      exact h.upgradableNop E s

theorem Dropped.checkSig (s : EvalState) (verify : Bool) :
    Laxer (runCheckSig (E.withFlags F') s verify) (runCheckSig (E.withFlags F) s verify) := by
  apply Laxer.bind_right
  intro _
  apply Laxer.bind_right
  intro vchSig
  apply Laxer.bind_right
  intro vchPubKey
  exact (h.encodings E vchSig vchPubKey).bind_left

theorem Dropped.multiSigLoop (scriptCode : CScript) (stack : ScriptStack) (nKeysCount ikey isig nSigsCount : Nat) :
    Laxer (Dobbscoin.multiSigLoop (E.withFlags F') scriptCode stack nKeysCount ikey isig nSigsCount)
      (Dobbscoin.multiSigLoop (E.withFlags F) scriptCode stack nKeysCount ikey isig nSigsCount) := by
  induction nKeysCount generalizing ikey isig nSigsCount with
  | zero =>
    cases nSigsCount with
    | zero => exact .refl _
    | succ nSigsCount => exact .refl _
  | succ nKeysCount ih =>
    cases nSigsCount with
    | zero => exact .refl _
    | succ nSigsCount =>
      apply Laxer.bind_right
      intro vchSig
      apply Laxer.bind_right
      intro vchPubKey
      apply Laxer.bind (h.encodings E vchSig vchPubKey)
      intro _ _
      exact Laxer.ite (.refl _) (ih _ _ _)

theorem Dropped.checkMultiSig (s : EvalState) (verify : Bool) :
    Laxer (runCheckMultiSig (E.withFlags F') s verify) (runCheckMultiSig (E.withFlags F) s verify) := by
  apply Laxer.bind_right
  intro _
  apply Laxer.bind (h.number E s.stack 1)
  intro bnKeys _
  apply Laxer.bind_right
  intro _
  apply Laxer.bind_right
  intro _
  apply Laxer.bind_right
  intro _
  apply Laxer.bind (h.number E s.stack _)
  intro bnSigs _
  apply Laxer.bind_right
  intro _
  apply Laxer.bind_right
  intro _
  apply Laxer.bind_right
  intro scriptCode
  apply Laxer.bind (h.multiSigLoop E scriptCode s.stack _ _ _ _)
  intro fSuccess _
  apply Laxer.bind_right
  intro stack
  apply Laxer.bind_right
  intro _
  apply Laxer.bind_right
  intro dummy
  apply Laxer.bind_left
  exact laxer_rejectIf fun hc => ⟨h.has hc.1, hc.2⟩

theorem Dropped.runOp (s : EvalState) (op : Op) :
    Laxer (Dobbscoin.runOp (E.withFlags F') s op) (Dobbscoin.runOp (E.withFlags F) s op) := by
  cases op with
  | checkLockTimeVerify => exact h.checkLockTimeVerify E s
  | upgradableNop => exact h.upgradableNop E s
  | pick roll => exact h.pick E s roll
  | unary op => exact h.unary E s op
  | binary op => exact h.binary E s op
  | within => exact h.within E s
  | checkSig verify => exact h.checkSig E s verify
  | checkMultiSig verify => exact h.checkMultiSig E s verify
  -- The other operations do not look at the flags.
  | _ => exact .refl _

/-! ## Runs -/

theorem Dropped.execute (s : EvalState) (opcode : Nat) (vchPushValue : Bytes) :
    Laxer (Dobbscoin.execute (E.withFlags F') s opcode vchPushValue)
      (Dobbscoin.execute (E.withFlags F) s opcode vchPushValue) := by
  unfold Dobbscoin.execute
  split_ifs
  · apply Laxer.bind_left
    exact laxer_rejectIf fun hc => ⟨h.has hc.1, hc.2⟩
  · exact h.runOp E s _
  · exact .refl _

theorem Dropped.step (s : EvalState) : Laxer (s.step (E.withFlags F')) (s.step (E.withFlags F)) := by
  unfold EvalState.step
  cases CScript.getOp s.pc with
  | none => exact .refl _
  | some op =>
    rcases op with ⟨opcode, vchPushValue, pc⟩
    apply Laxer.bind_right
    intro _
    apply Laxer.bind_right
    intro _
    apply Laxer.bind_right
    intro _
    exact (h.execute E _ opcode vchPushValue).bind_left

theorem Dropped.evalLoop (fuel : Nat) (s : EvalState) :
    Laxer (Dobbscoin.evalLoop (E.withFlags F') fuel s) (Dobbscoin.evalLoop (E.withFlags F) fuel s) := by
  induction fuel generalizing s with
  | zero => exact .refl _
  | succ fuel ih =>
    unfold Dobbscoin.evalLoop
    split_ifs
    · exact .refl _
    · exact (h.step E s).bind fun t _ => ih t

theorem Dropped.evalScript (stack : ScriptStack) (script : CScript) :
    Laxer (Dobbscoin.evalScript (E.withFlags F') stack script) (Dobbscoin.evalScript (E.withFlags F) stack script) := by
  unfold Dobbscoin.evalScript
  split_ifs
  · exact .refl _
  intro t ht
  split at ht
  · cases ht
  · next s hs =>
    have hs' := h.evalLoop E _ _ s hs
    rw [hs']
    exact ht

theorem Dropped.redeemScript (scriptSig : CScript) (stackCopy : ScriptStack) :
    Laxer (verifyRedeemScript (E.withFlags F') scriptSig stackCopy)
      (verifyRedeemScript (E.withFlags F) scriptSig stackCopy) := by
  apply Laxer.bind_right
  intro _
  cases stackCopy with
  | nil => exact .refl _
  | cons pubKey2 stackCopy => exact (h.evalScript E stackCopy pubKey2).bind_left

theorem Dropped.verifyScript (scriptSig scriptPubKey : CScript) :
    Laxer (Dobbscoin.verifyScript (E.withFlags F') scriptSig scriptPubKey)
      (Dobbscoin.verifyScript (E.withFlags F) scriptSig scriptPubKey) := by
  apply Laxer.bind (laxer_rejectIf fun hc => ⟨h.has hc.1, hc.2⟩)
  intro _ _
  apply Laxer.bind (h.evalScript E [] scriptSig)
  intro stackCopy _
  apply Laxer.bind (h.evalScript E stackCopy scriptPubKey)
  intro stack _
  apply Laxer.bind_right
  intro _
  by_cases hp2sh : (E.withFlags F).has scriptVerifyP2SH = true ∧ CScript.isPayToScriptHash scriptPubKey = true
  · rw [if_pos hp2sh, if_pos ⟨h.has hp2sh.1, hp2sh.2⟩]
    exact h.redeemScript E scriptSig stackCopy
  · rw [if_neg hp2sh]
    intro u _
    rfl

end

/-! ## The flags of a block -/

/-- `ConnectBlock` chooses among the flags that the mempool asks for, and discourages nothing. -/
theorem connectRules_dropped (V : ValidationEnv) (m : BlockMap) (pindexBestHeader : Option UInt256)
    (block : CBlock) (pindex : UInt256) :
    Dropped standardScriptVerifyFlags (connectRules V m pindexBestHeader block pindex).flags := by
  unfold connectRules
  dsimp only
  constructor
  · split_ifs <;> rfl
  · intro _ hnops
    split_ifs at hnops <;> exact absurd hnops (by decide)

/-- **Stricter script flags are soft forks**, except for a discouraged `OP_CHECKLOCKTIMEVERIFY`: a script that
passes under some flags passes when flags are dropped, and an input that the mempool takes is taken in every
block. -/
theorem script_flags_soft_fork (hashes : ScriptHashes) (checker : BaseSignatureChecker)
    (scriptSig scriptPubKey : CScript) :
    (∀ F F' : UInt32, F &&& F' = F →
      (hasFlag F' scriptVerifyCheckLockTimeVerify = true →
        hasFlag F scriptVerifyDiscourageUpgradableNops = true →
          hasFlag F scriptVerifyCheckLockTimeVerify = true) →
      verifyScript ⟨hashes, checker, F'⟩ scriptSig scriptPubKey = .ok () →
        verifyScript ⟨hashes, checker, F⟩ scriptSig scriptPubKey = .ok ()) ∧
    (verifyScript ⟨hashes, checker, standardScriptVerifyFlags⟩ scriptSig scriptPubKey = .ok () →
      ∀ (V : ValidationEnv) (m : BlockMap) (pindexBestHeader : Option UInt256) (block : CBlock)
        (pindex : UInt256),
        verifyScript ⟨hashes, checker, (connectRules V m pindexBestHeader block pindex).flags⟩ scriptSig
          scriptPubKey = .ok ()) := by
  constructor
  · intro F F' hsub hlock hok
    have hdrop : Dropped F' F := ⟨hsub, hlock⟩
    exact hdrop.verifyScript ⟨hashes, checker, F'⟩ scriptSig scriptPubKey () hok
  · intro hok V m pindexBestHeader block pindex
    have hdrop := connectRules_dropped V m pindexBestHeader block pindex
    exact hdrop.verifyScript ⟨hashes, checker, 0⟩ scriptSig scriptPubKey () hok

/-- Hash functions and a checker of lock times for scripts that call nothing else. -/
def plainHashes : ScriptHashes :=
  ⟨id, id, id, id, id⟩

def lockTimeChecker (nLockTime : Int) : BaseSignatureChecker :=
  ⟨fun _ _ _ => false, fun n => decide (n ≤ nLockTime)⟩

/-- `1 OP_CHECKLOCKTIMEVERIFY`. -/
def lockedScript : CScript :=
  [0x51, 0xb1]

theorem script_flags_soft_fork_lockedScript :
    verifyScript ⟨plainHashes, lockTimeChecker 10, scriptVerifyP2SH⟩ [] lockedScript = .ok () :=
  (script_flags_soft_fork plainHashes (lockTimeChecker 10) [] lockedScript).1 scriptVerifyP2SH
    standardScriptVerifyFlags (by decide) (by decide) (by decide)

/-- Without its own flag the opcode is one of the discouraged no-ops. -/
theorem lockedScript_discouraged :
    ¬ ∀ F F' : UInt32, F &&& F' = F →
      verifyScript ⟨plainHashes, lockTimeChecker 10, F'⟩ [] lockedScript = .ok () →
        verifyScript ⟨plainHashes, lockTimeChecker 10, F⟩ [] lockedScript = .ok () := by
  intro h
  have hdropped := h scriptVerifyDiscourageUpgradableNops
    (scriptVerifyDiscourageUpgradableNops ||| scriptVerifyCheckLockTimeVerify) (by decide) (by decide)
  exact absurd hdropped (by decide)

end Dobbscoin
