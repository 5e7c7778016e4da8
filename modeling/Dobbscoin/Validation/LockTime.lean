import Dobbscoin.Script.Runs
import Dobbscoin.Script.SignatureHash
import Dobbscoin.Validation.AcceptBlock
import Dobbscoin.Validation.Undo

/-!
# Lock times

What `OP_CHECKLOCKTIMEVERIFY` guarantees about the blocks that spend an output.
-/

namespace Dobbscoin

open Guard

variable {tx : CTransaction} {rules : ConnectRules} {check : ScriptCheck} {block : CBlock}

/-! ## The script checks of a block -/

/-- Validation with the script interpreter. -/
def ValidationEnv.withScripts (V : ValidationEnv) (K : ScriptCrypto) : ValidationEnv :=
  { V with
    verifyScript := fun scriptSig scriptPubKey tx nIn flags =>
      (Dobbscoin.verifyScript (inputEnv K tx nIn flags) scriptSig scriptPubKey).mapError scriptErrorString }

section

variable {V : ValidationEnv} {m : BlockMap}

theorem ScriptCheck.run_of_runNow (h : check.runNow V = .ok ()) : check.run V = .ok () := by
  unfold ScriptCheck.runNow at h
  cases hrun : check.run V with
  | ok u => rfl
  | error reason =>
    simp only [hrun] at h
    split_ifs at h
    split at h <;> cases h

theorem mem_scriptChecks {inputs : CoinsView} {flags : UInt32} {nIn : Nat}
    {vin : List CTxIn} {checks : List ScriptCheck} (h : scriptChecks inputs tx flags nIn vin = .ok checks)
    {i : Nat} {txin : CTxIn} {out : CTxOut} (hin : vin[i]? = some txin)
    (hout : inputs.outputAt txin.prevout = some out) : ⟨out.scriptPubKey, tx, nIn + i, flags⟩ ∈ checks := by
  induction vin generalizing nIn checks i with
  | nil => cases hin
  | cons first rest ih =>
    simp only [scriptChecks, bind_eq_ok, Except.ok.injEq] at h
    rcases h with ⟨prevout, hprevout, checks', hrest, rfl⟩
    cases i with
    | zero =>
      obtain rfl := Option.some.inj hin
      rw [CoinsView.getOutputFor, hout] at hprevout
      obtain rfl := Except.ok.inj hprevout
      exact List.mem_cons_self
    | succ i =>
      have hmem := ih hrest hin
      rw [Nat.add_right_comm, Nat.add_assoc] at hmem
      exact List.mem_cons_of_mem _ hmem

/-- Every check of an input was made, or is handed on. -/
theorem checkInputs_checks {inputs : CoinsView} {flags : UInt32}
    {vChecks : List ScriptCheck} (hcb : tx.isCoinBase = false)
    (h : checkInputs V m tx inputs true flags = .ok vChecks) {nIn : Nat} {txin : CTxIn} {out : CTxOut}
    (hin : tx.vin[nIn]? = some txin) (hout : inputs.outputAt txin.prevout = some out) :
    ⟨out.scriptPubKey, tx, nIn, flags⟩ ∈ vChecks ∨
      (ScriptCheck.mk out.scriptPubKey tx nIn flags).run V = .ok () := by
  simp only [checkInputs, hcb, Bool.false_eq_true, if_false, if_true, bind_eq_ok, exists_unit] at h
  rcases h with ⟨-, _, -, _, -, -, _, -, -, _, -, -, checks, hchecks, h⟩
  have hmem := mem_scriptChecks hchecks hin hout
  rw [Nat.zero_add] at hmem
  split_ifs at h
  · obtain rfl := Except.ok.inj h
    exact .inl hmem
  · rcases bind_eq_ok.1 h with ⟨_, hall, -⟩
    exact .inr (ScriptCheck.run_of_runNow (checkEach_eq_ok.1 hall _ hmem))

theorem connectTx_checks {s s' : ConnectState} {undo : CTxUndo}
    (h : connectTx V m rules s tx = .ok (s', undo)) :
    ∃ vChecks, s'.checks = s.checks ++ vChecks ∧
      (tx.isCoinBase = false → checkInputs V m tx s.view rules.fScriptChecks rules.flags = .ok vChecks) := by
  unfold connectTx at h
  cases hcb : tx.isCoinBase with
  | true =>
    simp only [hcb, if_true, bind_eq_ok, exists_unit, Except.ok.injEq, Prod.mk.injEq, Prod.exists] at h
    rcases h with ⟨-, _, _, -, rfl, -⟩
    exact ⟨[], (List.append_nil _).symm, fun hne => absurd hne Bool.true_eq_false.mp⟩
  | false =>
    simp only [hcb, Bool.false_eq_true, if_false, bind_eq_ok, exists_unit, Except.ok.injEq, Prod.mk.injEq,
      Prod.exists] at h
    rcases h with ⟨-, -, _, -, -, _, -, _, -, _, -, _, -, vChecks, hchecks, _, _, -, rfl, -⟩
    exact ⟨vChecks, rfl, fun _ => hchecks⟩

theorem connectTxs_append {s : ConnectState} {before after : List CTransaction} :
    connectTxs V m rules s (before ++ after) =
      connectTxs V m rules s before >>= fun s' => connectTxs V m rules s' after := by
  induction before generalizing s with
  | nil => rfl
  | cons tx before ih =>
    simp only [List.cons_append, connectTxs, bind_assoc, ih]

theorem connectTxs_checks {s s' : ConnectState} {txs : List CTransaction}
    (h : connectTxs V m rules s txs = .ok s') (hcheck : check ∈ s.checks) :
    check ∈ s'.checks := by
  induction txs generalizing s with
  | nil =>
    obtain rfl := Except.ok.inj h
    exact hcheck
  | cons tx rest ih =>
    simp only [connectTxs, bind_eq_ok, Prod.exists] at h
    rcases h with ⟨s₁, undo, hstep, hrest⟩
    rcases connectTx_checks hstep with ⟨vChecks, hchecks, -⟩
    apply ih hrest
    rw [hchecks]
    exact List.mem_append_left _ hcheck

/-- `ConnectBlock` checks the scripts of an input: script checks are on, the genesis block is passed over, and
the output is the one that the transactions before have left. -/
structure ChecksInput (V : ValidationEnv) (m : BlockMap) (pindexBestHeader : Option UInt256) (block : CBlock)
    (pindex : UInt256) (view : CoinsView) (check : ScriptCheck) : Prop where
  notGenesis : block.getHash V.crypto ≠ V.params.hashGenesisBlock
  scriptChecks : needScriptChecks V m pindexBestHeader pindex = true
  notCoinBase : check.tx.isCoinBase = false
  input : ∃ before after s txin out, block.vtx = before ++ check.tx :: after ∧
    connectVtx V m (connectRules V m pindexBestHeader block pindex) view before = .ok s ∧
    check.tx.vin[check.nIn]? = some txin ∧ s.view.outputAt txin.prevout = some out ∧
    check.scriptPubKey = out.scriptPubKey
  nFlags : check.nFlags = (connectRules V m pindexBestHeader block pindex).flags

theorem connectVtx_split {view : CoinsView} {s' : ConnectState}
    {before after : List CTransaction}
    (h : connectVtx V m rules view (before ++ tx :: after) = .ok s') :
    ∃ s t undo u, connectVtx V m rules view before = .ok s ∧ connectTx V m rules s tx = .ok (t, undo) ∧
      u.checks = t.checks ∧ connectTxs V m rules u after = .ok s' := by
  cases before with
  | nil =>
    simp only [List.nil_append, connectVtx, bind_eq_ok, Prod.exists] at h
    rcases h with ⟨t, undo, hstep, hrest⟩
    exact ⟨_, t, undo, t, rfl, hstep, rfl, hrest⟩
  | cons coinbase before =>
    simp only [List.cons_append, connectVtx, connectTxs_append, bind_eq_ok, Prod.exists, connectTxs] at h ⊢
    rcases h with ⟨s₁, undo₁, hfirst, s, hbefore, t, undo, hstep, hrest⟩
    exact ⟨s, t, undo, { t with vtxundo := t.vtxundo ++ [undo] }, ⟨s₁, undo₁, hfirst, hbefore⟩, hstep, rfl, hrest⟩

theorem ChecksInput.mem {pindexBestHeader : Option UInt256} {pindex : UInt256}
    {view : CoinsView} (h : ChecksInput V m pindexBestHeader block pindex view check) :
    check.tx ∈ block.vtx := by
  rcases h.input with ⟨before, after, s, txin, out, hblock, -⟩
  rw [hblock]
  exact List.mem_append_right _ List.mem_cons_self

/-- In a block that is connected every check of an input succeeds. -/
theorem ChecksInput.run {pindexBestHeader : Option UInt256} {pindex : UInt256}
    {view : CoinsView} (h : ChecksInput V m pindexBestHeader block pindex view check)
    {fJustCheck : Bool} {r : CoinsView × Option CBlockUndo}
    (hok : connectBlock V m pindexBestHeader block pindex view fJustCheck = .ok r) :
    check.run V = .ok () := by
  have hconnect := (connectBlock_ok hok).2.2
  rw [if_neg h.notGenesis] at hconnect
  simp only [connectChecked, bind_eq_ok, exists_unit, rejectIf_eq_ok, not_exists, not_and, not_not] at hconnect
  rcases hconnect with ⟨-, s', hvtx, _, -, _, -, -, hwait, -⟩
  rcases h.input with ⟨before, after, s, txin, out, hblock, hbefore, hin, hout, hscript⟩
  rw [hblock] at hvtx
  rcases connectVtx_split hvtx with ⟨s₁, t, undo, u, hbefore', hstep, hchecks, hrest⟩
  obtain rfl := Except.ok.inj (hbefore'.symm.trans hbefore)
  rcases connectTx_checks hstep with ⟨vChecks, hpushed, hinputs⟩
  have hrules : (connectRules V m pindexBestHeader block pindex).fScriptChecks = true := h.scriptChecks
  have hinputs' := hinputs h.notCoinBase
  rw [hrules] at hinputs'
  have hcheck : check = ⟨out.scriptPubKey, check.tx, check.nIn,
      (connectRules V m pindexBestHeader block pindex).flags⟩ := by
    rw [← hscript, ← h.nFlags]
  rcases checkInputs_checks h.notCoinBase hinputs' hin hout with hmem | hrun
  · rw [← hcheck] at hmem
    apply hwait
    apply connectTxs_checks hrest
    rw [hchecks, hpushed]
    exact List.mem_append_right _ hmem
  · rw [hcheck]
    exact hrun

end

/-! ## The opcode -/

def opCheckLockTimeVerify : Nat := 0xb1

/-- The next opcode of the state is an `OP_CHECKLOCKTIMEVERIFY` that is not skipped. -/
def EvalState.AtLockTime (s : EvalState) : Prop :=
  s.fExec = true ∧ ∃ data pc, CScript.getOp s.pc = some (opCheckLockTimeVerify, data, pc)

theorem EvalState.AtLockTime.pc_ne_nil {s : EvalState} (h : s.AtLockTime) : s.pc ≠ [] := by
  rcases h with ⟨-, data, pc, hop⟩
  intro hnil
  rw [hnil] at hop
  cases hop

/-- Once the flag is set, the opcode reads its operand and asks the checker. -/
theorem EvalState.AtLockTime.step {E : ScriptEnv} {s t : EvalState} (h : s.AtLockTime)
    (hflag : E.has scriptVerifyCheckLockTimeVerify = true) (hstep : s.step E = .ok t) :
    ∃ nLockTime, lockTimeOperand E s = .ok nLockTime ∧ 0 ≤ nLockTime ∧
      E.checker.checkLockTime nLockTime = true := by
  rcases h with ⟨hexec, data, pc, hop⟩
  rcases step_ok hstep with ⟨opcode, vchPushValue, pc', nOpCount, hop', hrun⟩
  rw [hop] at hop'
  obtain ⟨rfl, rfl, rfl⟩ : opcode = opCheckLockTimeVerify ∧ vchPushValue = data ∧ pc' = pc := by
    simpa only [Option.some.injEq, Prod.mk.injEq, eq_comm] using hop'
  have hverify : runCheckLockTimeVerify E { s with pc := pc', nOpCount := nOpCount } = .ok t := by
    have hnoPush : ¬ (EvalState.fExec { s with pc := pc', nOpCount := nOpCount } = true ∧
        opCheckLockTimeVerify ≤ opPushData4) := fun hpush => absurd hpush.2 (by decide)
    have hnotSkipped : EvalState.fExec { s with pc := pc', nOpCount := nOpCount } = true := hexec
    have hcase : opOf opCheckLockTimeVerify = .checkLockTimeVerify := by decide
    rw [execute, if_neg hnoPush, if_pos (Or.inl hnotSkipped), hcase] at hrun
    exact hrun
  rw [runCheckLockTimeVerify, hflag, if_neg (Bool.false_ne_true ∘ Eq.symm)] at hverify
  simp only [bind_eq_ok, exists_unit, rejectIf_eq_ok, not_lt, Bool.not_eq_false] at hverify
  rcases hverify with ⟨-, nLockTime, hoperand, hneg, hcheck, -⟩
  exact ⟨nLockTime, hoperand, hneg, hcheck⟩

/-- What `CheckLockTime` compares. -/
theorem checkLockTime_ok {txTo : CTransaction} {nIn : Nat} {nLockTime : Int}
    (h : TransactionSignatureChecker.checkLockTime txTo nIn nLockTime = true) :
    nLockTime ≤ txTo.nLockTime.toNat ∧
      ((txTo.nLockTime.toNat : Int) < locktimeThreshold ↔ nLockTime < locktimeThreshold) ∧
      ∃ txin ∈ txTo.vin, txin.isFinal = false := by
  have hthreshold : TransactionSignatureChecker.scriptLockTimeThreshold = locktimeThreshold := rfl
  unfold TransactionSignatureChecker.checkLockTime at h
  rw [hthreshold] at h
  dsimp only at h
  split_ifs at h with hkind hlate hfinal
  refine ⟨not_lt.1 hlate, by omega, ?_⟩
  cases hin : txTo.vin[nIn]? with
  | none =>
    rw [hin] at hfinal
    exact absurd rfl hfinal
  | some txin =>
    rw [hin] at hfinal
    exact ⟨txin, List.mem_of_getElem? hin, beq_false_of_ne hfinal⟩

/-! ## Blocks -/

/-- What `IsFinalTx` compares lock times with that are times. -/
def lockTimeCutoff (E : Env) (block : CBlock) : Int :=
  if block.getBlockTime = 0 then E.adjustedTime else block.getBlockTime

/-- A transaction with an input that is not final waits for its lock time. -/
theorem lockTime_lt_of_isFinalTx {E : Env} {chainHeight nHeight : Int}
    (hheight : 0 < nHeight) (h : isFinalTx E chainHeight tx nHeight block.getBlockTime = true)
    (hinput : ∃ txin ∈ tx.vin, txin.isFinal = false) :
    ((tx.nLockTime.toNat : Int) < locktimeThreshold → (tx.nLockTime.toNat : Int) < nHeight) ∧
      (locktimeThreshold ≤ tx.nLockTime.toNat → (tx.nLockTime.toNat : Int) < lockTimeCutoff E block) := by
  -- The way out for transactions whose inputs are all final is closed.
  have hnotAll : tx.vin.all CTxIn.isFinal ≠ true := by
    rcases hinput with ⟨txin, hmem, hfinal⟩
    intro hall
    have htrue := List.all_eq_true.1 hall txin hmem
    rw [hfinal] at htrue
    cases htrue
  have hcutoff : (if block.getBlockTime = 0 then E.adjustedTime else block.getBlockTime) =
      lockTimeCutoff E block := rfl
  unfold isFinalTx at h
  dsimp only at h
  rw [if_neg hheight.ne', hcutoff] at h
  split_ifs at h with hzero hkind hlt hlt
  · rw [hzero]
    exact ⟨fun _ => hheight, fun hle => absurd hle (by decide)⟩
  · exact ⟨fun _ => hlt, fun hle => absurd hkind (not_lt.2 hle)⟩
  · exact absurd h hnotAll
  · exact ⟨fun hlt' => absurd hlt' hkind, fun _ => hlt⟩
  · exact absurd h hnotAll

theorem isFinalTx_of_contextualCheckBlock {E : Env} {m : BlockMap} {chainHeight : Int}
    {pindexPrev : Option UInt256} (h : contextualCheckBlock E m chainHeight block pindexPrev = .ok ())
    (hmem : tx ∈ block.vtx) :
    isFinalTx E chainHeight tx ((pindexPrev.map fun p => (m.entry p).nHeight + 1).getD 0 : Nat)
      block.getBlockTime = true := by
  simp only [contextualCheckBlock, bind_eq_ok, exists_unit, rejectIf_eq_ok] at h
  cases hfinal : isFinalTx E chainHeight tx ((pindexPrev.map fun p => (m.entry p).nHeight + 1).getD 0 : Nat)
      block.getBlockTime with
  | true => rfl
  | false => exact absurd (List.any_eq_true.2 ⟨tx, hmem, by rw [hfinal]; rfl⟩) h.1

theorem cltvForkHeight_pos (P : CChainParams) : 0 < cltvForkHeight P := by
  unfold cltvForkHeight
  split_ifs <;> decide

/-- From the fork height on the opcode is enabled. -/
theorem connectRules_has_lockTime {V : ValidationEnv} {m : BlockMap} {pindex : UInt256}
    (pindexBestHeader : Option UInt256) (block : CBlock) (hfork : cltvForkHeight V.params ≤ (m.entry pindex).nHeight) :
    hasFlag (connectRules V m pindexBestHeader block pindex).flags scriptVerifyCheckLockTimeVerify = true := by
  simp only [connectRules]
  rw [if_pos hfork]
  split_ifs <;> decide

/-- **`OP_CHECKLOCKTIMEVERIFY` holds an output until its lock time.**  In a block that `ContextualCheckBlock`
and `ConnectBlock` accept from the fork height on, every opcode that is executed has an operand, which is not
negative and, as a height or as a time, is before the block. -/
theorem lock_times_hold (K : ScriptCrypto) (E : Env) (m : BlockMap) (chainHeight : Int) (block : CBlock)
    (pindexPrev : Option UInt256) (hcontext : contextualCheckBlock E m chainHeight block pindexPrev = .ok ())
    (V : ValidationEnv) (m' : BlockMap) (pindexBestHeader : Option UInt256) (pindex : UInt256)
    (view : CoinsView) (fJustCheck : Bool) (r : CoinsView × Option CBlockUndo)
    (hconnect : connectBlock (V.withScripts K) m' pindexBestHeader block pindex view fJustCheck = .ok r)
    (hheight : (m'.entry pindex).nHeight = (pindexPrev.map fun p => (m.entry p).nHeight + 1).getD 0)
    (hfork : cltvForkHeight V.params ≤ (m'.entry pindex).nHeight) (check : ScriptCheck)
    (hcheck : ChecksInput (V.withScripts K) m' pindexBestHeader block pindex view check) (s t : EvalState)
    (hevaluates : Evaluates (inputEnv K check.tx check.nIn check.nFlags)
      ((check.tx.vin[check.nIn]?.map CTxIn.scriptSig).getD []) check.scriptPubKey s)
    (hvisits : Visits (inputEnv K check.tx check.nIn check.nFlags) s t) (hop : t.AtLockTime) :
    ∃ L, lockTimeOperand (inputEnv K check.tx check.nIn check.nFlags) t = .ok L ∧ 0 ≤ L ∧
      (L < 500000000 → L < (m'.entry pindex).nHeight) ∧
      (500000000 ≤ L → L < lockTimeCutoff E block) := by
  have hscript : verifyScript (inputEnv K check.tx check.nIn check.nFlags)
      ((check.tx.vin[check.nIn]?.map CTxIn.scriptSig).getD []) check.scriptPubKey = .ok () := by
    cases hresult : verifyScript (inputEnv K check.tx check.nIn check.nFlags)
        ((check.tx.vin[check.nIn]?.map CTxIn.scriptSig).getD []) check.scriptPubKey with
    | ok u => rfl
    | error e =>
      have hrun := hcheck.run hconnect
      simp only [ScriptCheck.run, ValidationEnv.withScripts, hresult] at hrun
      cases hrun
  rcases hevaluates.step hscript hvisits hop.pc_ne_nil with ⟨u, hstep⟩
  have hflag : (inputEnv K check.tx check.nIn check.nFlags).has scriptVerifyCheckLockTimeVerify = true := by
    rw [hcheck.nFlags]
    exact connectRules_has_lockTime (V := V.withScripts K) pindexBestHeader block hfork
  rcases hop.step hflag hstep with ⟨L, hoperand, hneg, hlock⟩
  simp only [inputEnv, transactionSignatureChecker] at hlock
  rcases checkLockTime_ok hlock with ⟨hle, hkind, hinput⟩
  have hfinal := isFinalTx_of_contextualCheckBlock hcontext hcheck.mem
  rw [← hheight] at hfinal
  have hpos : (0 : Int) < (m'.entry pindex).nHeight := by
    have hpos : 0 < cltvForkHeight V.params := cltvForkHeight_pos V.params
    exact Int.natCast_pos.2 (hpos.trans_le hfork)
  rcases lockTime_lt_of_isFinalTx hpos hfinal hinput with ⟨hheights, htimes⟩
  refine ⟨L, hoperand, hneg, ?_, ?_⟩
  · intro hlt
    exact lt_of_le_of_lt hle (hheights (hkind.2 hlt))
  · intro hge
    exact lt_of_le_of_lt hle (htimes (not_lt.1 fun hlt => absurd (hkind.1 hlt) (not_lt.2 hge)))

/-- Hash functions and signatures that say nothing. -/
def plainScriptCrypto : ScriptCrypto where
  hashes := ⟨id, id, id, id, id⟩
  hash _ := 0
  verify _ _ _ := true

/-- `OP_5 OP_CHECKLOCKTIMEVERIFY`. -/
def lockScript : CScript := [0x55, 0xb1]

/-- Spends the only output of the entry 7, with the lock time 5. -/
def lockSpend : CTransaction :=
  { undoSpend with nLockTime := 5 }

def lockBlock : CBlock :=
  undoBlock 2 1 [undoCoinbase, lockSpend]

/-- The block is the first one on the test network whose scripts can use the opcode. -/
def lockTree : BlockMap :=
  [{ CBlockIndex.ofHeader lockBlock.toCBlockHeader with
     phashBlock := undoIndex, pprev := some 1, nHeight := 150 },
   { CBlockIndex.ofHeader undoGenesis.toCBlockHeader with phashBlock := 1, nHeight := 149 }]

def lockView : CoinsView :=
  (CoinsView.empty.set 7 ⟨false, [⟨50, lockScript⟩], 1, 1⟩).setBestBlock 1

def lockCheck : ScriptCheck :=
  ⟨lockScript, lockSpend, 0, scriptVerifyCheckLockTimeVerify⟩

/-- The second opcode of the script is next. -/
def lockState : EvalState :=
  ⟨[0xb1], lockScript, [[5]], [], [], 0⟩

set_option maxRecDepth 20000 in
theorem lockBlock_connects :
    ∃ r, connectBlock (undoEnv.withScripts plainScriptCrypto) lockTree none lockBlock undoIndex lockView
      false = .ok r := by
  have hrun : (connectBlock (undoEnv.withScripts plainScriptCrypto) lockTree none lockBlock undoIndex
      lockView false).map (fun _ => ()) = .ok () := by decide
  rcases map_eq_ok.1 hrun with ⟨r, hr, -⟩
  exact ⟨r, hr⟩

theorem lockCheck_checksInput :
    ChecksInput (undoEnv.withScripts plainScriptCrypto) lockTree none lockBlock undoIndex lockView
      lockCheck where
  notGenesis := by decide
  scriptChecks := by decide
  notCoinBase := by decide
  input := by
    have hrun : (connectVtx (undoEnv.withScripts plainScriptCrypto) lockTree
        (connectRules (undoEnv.withScripts plainScriptCrypto) lockTree none lockBlock undoIndex) lockView
        [undoCoinbase]).map (fun s => s.view.outputAt ⟨7, 0⟩) = .ok (some ⟨50, lockScript⟩) := by decide
    rcases map_eq_ok.1 hrun with ⟨s, hs, hout⟩
    exact ⟨[undoCoinbase], [], s, ⟨⟨7, 0⟩, [], 0⟩, ⟨50, lockScript⟩, rfl, hs, rfl, hout, rfl⟩
  nFlags := by decide

theorem lockCheck_evaluates :
    Evaluates (inputEnv plainScriptCrypto lockSpend 0 scriptVerifyCheckLockTimeVerify) [] lockScript
      (.start [] lockScript) :=
  .ofScriptPubKey (by decide)

theorem lockCheck_visits :
    Visits (inputEnv plainScriptCrypto lockSpend 0 scriptVerifyCheckLockTimeVerify) (.start [] lockScript)
      lockState := by
  apply Visits.next (by decide) _ (.here _)
  decide

theorem lockState_atLockTime : lockState.AtLockTime :=
  ⟨by decide, [], [], by decide⟩

theorem lock_times_hold_lockBlock :
    ∃ L, lockTimeOperand (inputEnv plainScriptCrypto lockSpend 0 scriptVerifyCheckLockTimeVerify) lockState =
        .ok L ∧ 0 ≤ L ∧ (L < 500000000 → L < (lockTree.entry undoIndex).nHeight) ∧
      (500000000 ≤ L → L < lockTimeCutoff undoEnv.toEnv lockBlock) := by
  rcases lockBlock_connects with ⟨r, hconnect⟩
  exact lock_times_hold plainScriptCrypto undoEnv.toEnv lockTree 149 lockBlock (some 1) (by decide) undoEnv
    lockTree none undoIndex lockView false r hconnect (by decide) (by decide) lockCheck lockCheck_checksInput
    (.start [] lockScript) lockState lockCheck_evaluates lockCheck_visits lockState_atLockTime

end Dobbscoin
