import Dobbscoin.Script.Runs
import Dobbscoin.Script.SigHashOld

/-!
# Scripts under the original signature hash

Two signature checks that agree on scripts that `GetOp` reads to their end accept the same scripts: an
evaluation that comes to its end has read its script to the end, so that each script code it hands to a check is
of that kind.
-/

namespace Dobbscoin

open Guard ByteCodec CScript

/-! ## What FindAndDelete leaves -/

theorem findAndDeleteLoop_length {b : Bytes} {fuel : Nat} {pc : Bytes} :
    (findAndDeleteLoop b fuel pc).length ≤ pc.length := by
  induction fuel generalizing pc with
  | zero => exact Nat.le_refl _
  | succ fuel ih =>
    rw [findAndDeleteLoop]
    split_ifs
    · calc
        (findAndDeleteLoop b fuel (pc.drop b.length)).length ≤ (pc.drop b.length).length := ih
        _ ≤ pc.length := by rw [List.length_drop]; exact Nat.sub_le _ _
    · cases hop : getOp pc with
      | none => exact Nat.le_refl _
      | some op =>
        rcases op with ⟨opcode, data, pc'⟩
        have htake := congrArg List.length (getOp_take hop)
        have hrest : (findAndDeleteLoop b fuel pc').length ≤ pc'.length := ih
        rw [List.length_append] at htake ⊢
        omega

/-- Taking a push out of a script that is read to its end leaves one. -/
theorem findAndDeleteLoop_reads {vchSig : Bytes} {fuel : Nat} {pc : Bytes} (h : Reads pc [])
    (hlen : pc.length < 2 ^ 32) : Reads (findAndDeleteLoop (pushBytes vchSig) fuel pc) [] := by
  induction fuel generalizing pc with
  | zero => exact h
  | succ fuel ih =>
    rw [findAndDeleteLoop]
    split_ifs with hprefix
    · -- The push is one opcode of the script.
      rcases List.isPrefixOf_iff_prefix.1 hprefix with ⟨rest, rfl⟩
      have hpush := length_pushBytes vchSig
      rw [List.length_append] at hlen
      rw [List.drop_left]
      apply ih
      · exact h.rest (getOp_pushBytes (by rw [List.length_append]; omega))
      · omega
    · cases hop : getOp pc with
      | none => exact h
      | some op =>
        rcases op with ⟨opcode, data, pc'⟩
        rcases getOp_split hop with ⟨op, -, rfl, hframe⟩
        have hshort : (findAndDeleteLoop (pushBytes vchSig) fuel pc').length ≤ pc'.length := findAndDeleteLoop_length
        dsimp only
        rw [List.length_append] at hlen
        rw [List.length_append, Nat.add_sub_cancel, List.take_left]
        apply Reads.next (hframe _ (by rw [List.length_append]; omega))
        exact ih (h.rest hop) (by omega)

/-- A script code that the checks of signatures agree on. -/
structure ReadCode (scriptCode : CScript) : Prop where
  reads : Reads scriptCode []
  short : scriptCode.length < 2 ^ 32

theorem ReadCode.findAndDelete {scriptCode : CScript} (h : ReadCode scriptCode) (vchSig : Bytes) :
    ReadCode (CScript.findAndDelete scriptCode (pushBytes vchSig)) := by
  have hne : pushBytes vchSig ≠ [] := List.length_pos_iff.1 (Nat.zero_lt_of_lt (length_pushBytes vchSig))
  rw [CScript.findAndDelete, if_neg hne]
  exact ⟨findAndDeleteLoop_reads h.reads h.short, Nat.lt_of_le_of_lt findAndDeleteLoop_length h.short⟩

theorem ReadCode.deleteSigs {scriptCode : CScript} (h : ReadCode scriptCode) (stack : ScriptStack) (n isig : Nat) :
    Ensures (Dobbscoin.deleteSigs stack n isig scriptCode) ReadCode := by
  induction n generalizing isig scriptCode with
  | zero => exact .ok h
  | succ n ih =>
    apply Ensures.bind
    intro vchSig
    exact ih (h.findAndDelete vchSig) (isig + 1)

/-! ## Operations -/

/-- The same scripts with another check of signatures. -/
def ScriptEnv.withCheckSig (E : ScriptEnv) (checkSig : Bytes → Bytes → CScript → Bool) : ScriptEnv :=
  { E with checker := { E.checker with checkSig } }

/-- The other check gives the same answers for scripts that are read to their end. -/
def AgreesOnRead (E : ScriptEnv) (check : Bytes → Bytes → CScript → Bool) : Prop :=
  ∀ vchSig vchPubKey scriptCode, Reads scriptCode [] →
    check vchSig vchPubKey scriptCode = E.checker.checkSig vchSig vchPubKey scriptCode

section

variable {E : ScriptEnv} {check : Bytes → Bytes → CScript → Bool} (h : AgreesOnRead E check)
include h

theorem AgreesOnRead.checkSig {s : EvalState} (hs : ReadCode s.pbegincodehash) (verify : Bool) :
    runCheckSig (E.withCheckSig check) s verify = runCheckSig E s verify := by
  unfold runCheckSig
  apply bind_congr_ok
  intro _ _
  apply bind_congr_ok
  intro vchSig _
  apply bind_congr_ok
  intro vchPubKey _
  have hcheck := h vchSig vchPubKey _ (hs.findAndDelete vchSig).reads
  dsimp only [ScriptEnv.withCheckSig]
  rw [hcheck]
  rfl

theorem AgreesOnRead.multiSigLoop {scriptCode : CScript} (hcode : ReadCode scriptCode) (stack : ScriptStack)
    (nKeysCount ikey isig nSigsCount : Nat) :
    Dobbscoin.multiSigLoop (E.withCheckSig check) scriptCode stack nKeysCount ikey isig nSigsCount =
      Dobbscoin.multiSigLoop E scriptCode stack nKeysCount ikey isig nSigsCount := by
  induction nKeysCount generalizing ikey isig nSigsCount with
  | zero => cases nSigsCount <;> rfl
  | succ nKeysCount ih =>
    cases nSigsCount with
    | zero => rfl
    | succ nSigsCount =>
      unfold Dobbscoin.multiSigLoop
      apply bind_congr_ok
      intro vchSig _
      apply bind_congr_ok
      intro vchPubKey _
      have hcheck : (E.withCheckSig check).checker.checkSig vchSig vchPubKey scriptCode =
          E.checker.checkSig vchSig vchPubKey scriptCode := h vchSig vchPubKey scriptCode hcode.reads
      simp only [hcheck, ih]
      rfl

theorem AgreesOnRead.checkMultiSig {s : EvalState} (hs : ReadCode s.pbegincodehash) (verify : Bool) :
    runCheckMultiSig (E.withCheckSig check) s verify = runCheckMultiSig E s verify := by
  unfold runCheckMultiSig
  apply bind_congr_ok
  intro _ _
  apply bind_congr_ok
  intro bnKeys _
  apply bind_congr_ok
  intro _ _
  apply bind_congr_ok
  intro _ _
  apply bind_congr_ok
  intro _ _
  apply bind_congr_ok
  intro bnSigs _
  apply bind_congr_ok
  intro _ _
  apply bind_congr_ok
  intro _ _
  apply bind_congr_ok
  intro scriptCode hcode
  rw [h.multiSigLoop (hs.deleteSigs _ _ _ scriptCode hcode)]
  rfl

theorem AgreesOnRead.runOp {s : EvalState} (hs : ReadCode s.pbegincodehash) (op : Op) :
    Dobbscoin.runOp (E.withCheckSig check) s op = Dobbscoin.runOp E s op := by
  cases op with
  | checkSig verify => exact h.checkSig hs verify
  | checkMultiSig verify => exact h.checkMultiSig hs verify
  -- The other operations check no signature.
  | _ => rfl

theorem AgreesOnRead.step {s : EvalState} (hs : ReadCode s.pbegincodehash) :
    s.step (E.withCheckSig check) = s.step E := by
  unfold EvalState.step
  cases getOp s.pc with
  | none => rfl
  | some op =>
    rcases op with ⟨opcode, vchPushValue, pc⟩
    have hexec : ∀ nOpCount, execute (E.withCheckSig check) { s with pc := pc, nOpCount := nOpCount } opcode
        vchPushValue = execute E { s with pc := pc, nOpCount := nOpCount } opcode vchPushValue := by
      intro nOpCount
      unfold execute
      rw [h.runOp (s := { s with pc := pc, nOpCount := nOpCount }) hs]
      rfl
    dsimp only
    simp only [hexec]

end

/-! ## Runs -/

/-- The rest of the script and the code that signatures cover are read to their ends. -/
structure ReadState (s : EvalState) : Prop where
  rest : ReadCode s.pc
  code : ReadCode s.pbegincodehash

theorem ReadState.step {E : ScriptEnv} {s t : EvalState} (hs : ReadState s) (h : s.step E = .ok t) : ReadState t := by
  rcases step_ok h with ⟨opcode, vchPushValue, pc, nOpCount, hop, hexec⟩
  rcases execute_code E _ opcode vchPushValue t hexec with ⟨hpc, hcode⟩
  have hlt := getOp_length hop
  have hrest : ReadCode pc := ⟨hs.rest.reads.rest hop, Nat.lt_trans hlt hs.rest.short⟩
  refine ⟨?_, ?_⟩
  · rw [hpc]
    exact hrest
  · rcases hcode with hcode | hcode
    · rw [hcode]
      exact hs.code
    · rw [hcode]
      exact hrest

theorem AgreesOnRead.evalLoop {E : ScriptEnv} {check : Bytes → Bytes → CScript → Bool}
    (h : AgreesOnRead E check) {fuel : Nat} {s : EvalState} (hs : ReadState s) :
    Dobbscoin.evalLoop (E.withCheckSig check) fuel s = Dobbscoin.evalLoop E fuel s := by
  induction fuel generalizing s with
  | zero => rfl
  | succ fuel ih =>
    rw [Dobbscoin.evalLoop, Dobbscoin.evalLoop, h.step hs.code]
    split_ifs
    · rfl
    · apply bind_congr_ok
      intro t ht
      exact ih (hs.step ht)

/-- A loop that comes to its end has read the script to its end. -/
theorem evalLoop_reads {E : ScriptEnv} {fuel : Nat} {s t : EvalState} (hfuel : s.pc.length ≤ fuel)
    (h : evalLoop E fuel s = .ok t) : Reads s.pc [] := by
  induction fuel generalizing s with
  | zero =>
    rw [List.length_eq_zero_iff.1 (Nat.le_zero.1 hfuel)]
    exact .here []
  | succ fuel ih =>
    unfold evalLoop at h
    split_ifs at h with hpc
    · rw [hpc]
      exact .here []
    · rcases bind_eq_ok.1 h with ⟨u, hstep, hrest⟩
      rcases step_ok hstep with ⟨opcode, vchPushValue, pc, nOpCount, hop, hexec⟩
      have hupc : u.pc = pc := execute_pc E _ opcode vchPushValue u hexec
      have hlt := getOp_length hop
      have hreads := ih (by rw [hupc]; omega) hrest
      rw [hupc] at hreads
      exact .next hop hreads

theorem AgreesOnRead.evalScript_iff {E : ScriptEnv} {check : Bytes → Bytes → CScript → Bool}
    (h : AgreesOnRead E check) (stack : ScriptStack) (script : CScript) (stack' : ScriptStack) :
    evalScript (E.withCheckSig check) stack script = .ok stack' ↔ evalScript E stack script = .ok stack' := by
  by_cases hsize : script.length > 10000
  · unfold evalScript
    rw [if_pos hsize, if_pos hsize]
  by_cases hreads : Reads script []
  · have hshort : ReadCode script := ⟨hreads, by omega⟩
    unfold evalScript
    rw [h.evalLoop (s := .start stack script) ⟨hshort, hshort⟩]
  · -- Under neither check does the loop come to its end.
    have hfails : ∀ F : ScriptEnv, ¬ evalScript F stack script = .ok stack' := by
      intro F hok
      rcases evalLoop_of_evalScript hok with ⟨r, hr⟩
      exact hreads (evalLoop_reads (s := .start stack script) (Nat.le_refl script.length) hr)
    exact iff_of_false (hfails _) (hfails E)

theorem AgreesOnRead.verifyScript_iff {E : ScriptEnv} {check : Bytes → Bytes → CScript → Bool}
    (h : AgreesOnRead E check) (scriptSig scriptPubKey : CScript) :
    verifyScript (E.withCheckSig check) scriptSig scriptPubKey = .ok () ↔
      verifyScript E scriptSig scriptPubKey = .ok () := by
  have hredeem : ∀ stackCopy, verifyRedeemScript (E.withCheckSig check) scriptSig stackCopy = .ok () ↔
      verifyRedeemScript E scriptSig stackCopy = .ok () := by
    intro stackCopy
    cases stackCopy with
    | nil => exact Iff.rfl
    | cons pubKey2 stackCopy => simp only [verifyRedeemScript, bind_eq_ok, h.evalScript_iff]
  have hhas : ∀ flag, (E.withCheckSig check).has flag = E.has flag := fun _ => rfl
  simp only [verifyScript, bind_eq_ok, h.evalScript_iff, hhas]
  by_cases hp2sh : E.has scriptVerifyP2SH = true ∧ CScript.isPayToScriptHash scriptPubKey = true
  · simp only [if_pos hp2sh, hredeem]
  · simp only [if_neg hp2sh]

/-! ## The original checker -/

/-- `CheckSig` with the original hash. -/
def TransactionSignatureChecker.checkSigOld (K : ScriptCrypto) (txTo : CTransaction) (nIn : Nat)
    (vchSigIn vchPubKey : Bytes) (scriptCode : CScript) : Bool :=
  match vchSigIn.getLast? with
  | none => false
  | some nHashType =>
    isValidPubKey vchPubKey &&
      K.verify vchPubKey (signatureHashOld K scriptCode txTo nIn (byteToInt nHashType)) vchSigIn.dropLast

def inputEnvOld (K : ScriptCrypto) (txTo : CTransaction) (nIn : Nat) (flags : UInt32) : ScriptEnv :=
  (inputEnv K txTo nIn flags).withCheckSig (TransactionSignatureChecker.checkSigOld K txTo nIn)

theorem inputEnvOld_agrees (K : ScriptCrypto) (txTo : CTransaction) (nIn : Nat) (flags : UInt32) :
    AgreesOnRead (inputEnv K txTo nIn flags) (TransactionSignatureChecker.checkSigOld K txTo nIn) := by
  intro vchSig vchPubKey scriptCode hreads
  have hhash : ∀ nHashType, signatureHashOld K scriptCode txTo nIn nHashType =
      signatureHash K scriptCode txTo nIn nHashType := by
    intro nHashType
    rw [signatureHashOld, signatureHash, signatureHashMessage_eq_old hreads]
  show TransactionSignatureChecker.checkSigOld K txTo nIn vchSig vchPubKey scriptCode =
    TransactionSignatureChecker.checkSig K txTo nIn vchSig vchPubKey scriptCode
  unfold TransactionSignatureChecker.checkSigOld TransactionSignatureChecker.checkSig
  cases vchSig.getLast? with
  | none => rfl
  | some nHashType =>
    dsimp only
    rw [hhash]

/-- **The in-place signature hash is the original one**: for a script that is read to its end both hash the same
bytes or return the same constant, and whatever the scripts are, they are accepted with the one if and only if
they are with the other. -/
theorem in_place_hash_original (K : ScriptCrypto) (txTo : CTransaction) (nIn : Nat) :
    (∀ scriptCode : CScript, Reads scriptCode [] → ∀ nHashType : Int32,
      signatureHashMessage scriptCode txTo nIn nHashType = signatureHashOldMessage scriptCode txTo nIn nHashType) ∧
    ∀ (scriptSig scriptPubKey : CScript) (flags : UInt32),
      verifyScript (inputEnv K txTo nIn flags) scriptSig scriptPubKey = .ok () ↔
        verifyScript (inputEnvOld K txTo nIn flags) scriptSig scriptPubKey = .ok () :=
  ⟨fun _ hreads nHashType => signatureHashMessage_eq_old hreads txTo nIn nHashType, fun scriptSig scriptPubKey flags =>
    ((inputEnvOld_agrees K txTo nIn flags).verifyScript_iff scriptSig scriptPubKey).symm⟩

/-- Two inputs and two outputs. -/
def hashedTx : CTransaction :=
  ⟨1, [⟨⟨7, 0⟩, [0x51], 5⟩, ⟨⟨8, 1⟩, [0x52], 6⟩], [⟨10, [0x51]⟩, ⟨20, [0x52]⟩], 9⟩

/-- A push between code separators, and a hash type that no byte stands for. -/
theorem in_place_hash_original_separators :
    signatureHashMessage [0xab, 0x01, 0xab, 0xab] hashedTx 1 (-0x7d) =
      signatureHashOldMessage [0xab, 0x01, 0xab, 0xab] hashedTx 1 (-0x7d) := by
  have hreads : Reads [0xab, 0x01, 0xab, 0xab] [] :=
    .next (show getOp [0xab, 0x01, 0xab, 0xab] = some (0xab, [], [0x01, 0xab, 0xab]) from by decide)
      (.next (show getOp [0x01, 0xab, 0xab] = some (1, [0xab], [0xab]) from by decide)
        (.next (show getOp [0xab] = some (0xab, [], []) from by decide) (.here [])))
  exact (in_place_hash_original ⟨⟨id, id, id, id, id⟩, fun _ => 0, fun _ _ _ => false⟩ hashedTx 1).1 _ hreads (-0x7d)

-- Of a truncated push the serializer writes less than its size says.
example : signatureHashMessage [0x02, 0xab] hashedTx 0 1 ≠ signatureHashOldMessage [0x02, 0xab] hashedTx 0 1 := by
  decide

end Dobbscoin
