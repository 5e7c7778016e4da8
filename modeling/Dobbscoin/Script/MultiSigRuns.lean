import Dobbscoin.Lib.Matching
import Dobbscoin.Script.Templates

/-!
# Scripts that push

What a script is read as, and the run through the pushes in it.
-/

namespace Dobbscoin

open Guard CScript

variable {ops : List (Nat × Bytes)} {script : CScript} {s : EvalState}

/-! ## Reading to the end -/

/-- The script is read to its end, as these opcodes with their data. -/
inductive ReadsAs : Bytes → List (Nat × Bytes) → Prop
  | done : ReadsAs [] []
  | next {pc rest data : Bytes} {opcode : Nat} {ops : List (Nat × Bytes)}
    (op : getOp pc = some (opcode, data, rest)) (more : ReadsAs rest ops) : ReadsAs pc ((opcode, data) :: ops)

/-- How `operator<<` pushes a vector. -/
def pushOf (vch : Bytes) : Nat × Bytes :=
  (pushOpcode vch.length, vch)

namespace ReadsAs

theorem ne_nil {pc : Bytes} {op : Nat × Bytes} (h : ReadsAs pc (op :: ops)) : pc ≠ [] := by
  cases h with
  | next op more =>
    have hlt := getOp_length op
    exact List.length_pos_iff.1 (Nat.zero_lt_of_lt hlt)

theorem next_inv {pc data : Bytes} {opcode : Nat} (h : ReadsAs pc ((opcode, data) :: ops)) :
    ∃ rest, getOp pc = some (opcode, data, rest) ∧ ReadsAs rest ops := by
  cases h with
  | next op more => exact ⟨_, op, more⟩

theorem pushes {tail : Bytes} (h : ReadsAs tail ops) (values : List Bytes)
    (hlen : (values.flatMap pushBytes ++ tail).length < 2 ^ 32) :
    ReadsAs (values.flatMap pushBytes ++ tail) (values.map pushOf ++ ops) := by
  induction values with
  | nil => exact h
  | cons value values ih =>
    have hlt := length_pushBytes value
    rw [List.flatMap_cons, List.append_assoc] at hlen ⊢
    rw [List.length_append] at hlen
    exact .next (getOp_pushBytes (by rw [List.length_append]; omega)) (ih (by omega))

theorem byte {tail : Bytes} (h : ReadsAs tail ops) {opcode : Nat} (hlow : opPushData4 < opcode)
    (hhigh : opcode ≤ 0xff) : ReadsAs (UInt8.ofNat opcode :: tail) ((opcode, []) :: ops) :=
  .next (getOp_byte hlow hhigh tail) h

theorem isPushOnly (h : ReadsAs script ops)
    (hops : ∀ op ∈ ops, op.1 ≤ op16) : CScript.isPushOnly script = true := by
  suffices hloop : ∀ fuel, script.length ≤ fuel → isPushOnlyLoop fuel script = true from hloop _ (Nat.le_refl _)
  induction h with
  | done => intro fuel _; cases fuel <;> rfl
  | @next pc rest data opcode ops op more ih =>
    intro fuel hfuel
    have hlt := getOp_length op
    cases fuel with
    | zero => omega
    | succ fuel =>
      cases pc with
      | nil => cases op
      | cons b pc =>
        have hrest := ih (fun o ho => hops o (List.mem_cons_of_mem _ ho)) fuel (by omega)
        rw [isPushOnlyLoop, op]
        dsimp only
        rw [hrest, decide_eq_true (hops (opcode, data) List.mem_cons_self)]
        rfl

/-- Where a vector is not pushed, `FindAndDelete` finds nothing. -/
theorem findAndDelete (h : ReadsAs script ops) {vch : Bytes}
    (hops : ∀ op ∈ ops, opPushData4 < op.1 ∨ op.2 ≠ vch) (hlen : script.length < 2 ^ 32) :
    CScript.findAndDelete script (pushBytes vch) = script := by
  have hlt := length_pushBytes vch
  have hne : pushBytes vch ≠ [] := List.length_pos_iff.1 (Nat.zero_lt_of_lt hlt)
  rw [CScript.findAndDelete, if_neg hne]
  suffices hloop : ∀ fuel, findAndDeleteLoop (pushBytes vch) fuel script = script from hloop _
  induction h with
  | done =>
    intro fuel
    cases fuel with
    | zero => rfl
    | succ fuel =>
      rw [findAndDeleteLoop, if_neg fun hprefix => hne (List.prefix_nil.1 (List.isPrefixOf_iff_prefix.1 hprefix))]
      rfl
  | @next pc rest data opcode ops op more ih =>
    intro fuel
    have hrest := getOp_length op
    cases fuel with
    | zero => rfl
    | succ fuel =>
      have hprefix : ¬ (pushBytes vch).isPrefixOf pc = true := by
        intro hprefix
        rcases List.isPrefixOf_iff_prefix.1 hprefix with ⟨x, rfl⟩
        rw [List.length_append] at hlen
        rw [getOp_pushBytes (by rw [List.length_append]; omega), Option.some.injEq, Prod.mk.injEq,
          Prod.mk.injEq] at op
        have hpush := pushOpcode_le vch.length
        rcases hops (opcode, data) List.mem_cons_self with hop | hdata
        · rw [op.1] at hpush
          exact absurd hop (Nat.not_lt.2 hpush)
        · exact hdata op.2.1.symm
      rw [findAndDeleteLoop, if_neg hprefix, op]
      dsimp only
      rw [ih (fun o ho => hops o (List.mem_cons_of_mem _ ho)) (hrest.trans hlen), getOp_take op]

end ReadsAs

theorem AlikeScripts.readsAs {pc pc' : Bytes} (h : AlikeScripts pc pc') {ops' : List (Nat × Bytes)}
    (h' : ReadsAs pc' ops') :
    ∃ ops, ReadsAs pc ops ∧ List.Forall₂ (fun op op' => op.2 = op'.2 ∧ AlikeOpcodes op.1 op'.1) ops ops' := by
  induction h generalizing ops' with
  | done =>
    cases h' with
    | done => exact ⟨[], .done, .nil⟩
    | next op more => cases op
  | @next pc pc' rest rest' data opcode opcode' op op' alike more ih =>
    cases h' with
    | done => cases op'
    | next hop hmore =>
      rw [op', Option.some.injEq, Prod.mk.injEq, Prod.mk.injEq] at hop
      rcases hop with ⟨rfl, rfl, rfl⟩
      rcases ih hmore with ⟨ops, hops, hall⟩
      exact ⟨(opcode, data) :: ops, .next op hops, .cons ⟨rfl, alike⟩ hall⟩

/-! ## Runs -/

theorem Visits.trans {E : ScriptEnv} {s t u : EvalState} (h : Visits E s t) (h' : Visits E t u) : Visits E s u := by
  induction h with
  | here s => exact h'
  | next more step rest ih => exact .next more step (ih h')

/-- A loop that comes to a state goes on from it. -/
theorem Visits.evalLoop_eq {E : ScriptEnv} {s t : EvalState} (h : Visits E s t) :
    evalLoop E s.pc.length s = evalLoop E t.pc.length t := by
  induction h with
  | here s => rfl
  | @next s t u more step rest ih =>
    have hlt := step_shorter step
    rcases evalLoop_next (E := E) more (Nat.le_refl s.pc.length) with ⟨fuel, hfuel, hloop, -⟩
    rw [hloop, step]
    show evalLoop E fuel t = _
    rw [← ih]
    exact evalLoop_fuel (by omega) (Nat.le_refl _)

theorem evalScript_of_visits {E : ScriptEnv} {stack : ScriptStack} {t : EvalState}
    (hsize : script.length ≤ 10000) (h : Visits E (.start stack script) t) (hpc : t.pc = []) (hexec : t.vfExec = []) :
    evalScript E stack script = .ok t.stack := by
  have hloop : evalLoop E script.length (.start stack script) = evalLoop E t.pc.length t := h.evalLoop_eq
  unfold evalScript
  rw [if_neg (Nat.not_lt.2 hsize), hloop, (evalLoop_done hpc _).1]
  dsimp only
  rw [if_neg (not_not.2 hexec)]

/-- An operation that is run and leaves the stacks small enough. -/
theorem step_operation {E : ScriptEnv} {s t : EvalState} {opcode : Nat} {data rest : Bytes}
    (hop : getOp s.pc = some (opcode, data, rest)) (hlow : op16 < opcode) (hdisabled : isDisabledOpcode opcode = false)
    (hcount : s.nOpCount < 201) (hexec : s.vfExec = [])
    (hrun : runOp E { s with pc := rest, nOpCount := s.nOpCount + 1 } (opOf opcode) = .ok t)
    (hsize : t.stack.length + t.altstack.length ≤ 1000) : s.step E = .ok t := by
  unfold op16 at hlow
  have hdata := getOp_data_nil hop (by unfold opPushData4; omega)
  subst hdata
  have hpush : ¬ opcode ≤ opPushData4 := by
    unfold opPushData4
    omega
  have hfExec : ({ s with pc := rest, nOpCount := s.nOpCount + 1 } : EvalState).fExec = true := by
    show s.vfExec.all id = true
    rw [hexec]
    rfl
  unfold EvalState.step
  rw [hop]
  dsimp only
  rw [if_pos (show opcode > op16 from hlow), rejectIf_of_not _ (by decide), rejectIf_of_not _ fun h => by omega,
    hdisabled, rejectIf_of_not _ Bool.false_ne_true, execute, if_neg fun h => hpush h.2, if_pos (.inl hfExec), hrun]
  show (rejectIf (t.stack.length + t.altstack.length > 1000) (ScriptFault.error .stackSize) >>= fun _ => _) = _
  rw [rejectIf_of_not _ (Nat.not_lt.2 hsize)]
  rfl

section

variable {E : ScriptEnv} (hminimal : E.has scriptVerifyMinimalData = false)
include hminimal

theorem step_push {opcode : Nat} {data rest : Bytes} (hop : getOp s.pc = some (opcode, data, rest))
    (hpush : opcode ≤ opPushData4) (hdata : data.length ≤ maxScriptElementSize) (hexec : s.vfExec = [])
    (hstack : s.stack.length + s.altstack.length < 1000) :
    s.step E = .ok { s with pc := rest, stack := data :: s.stack } := by
  have hcount : ¬ opcode > op16 := by
    unfold opPushData4 at hpush
    unfold op16
    omega
  have hfExec : ({ s with pc := rest, nOpCount := s.nOpCount } : EvalState).fExec = true := by
    show s.vfExec.all id = true
    rw [hexec]
    rfl
  unfold EvalState.step
  rw [hop]
  dsimp only
  rw [if_neg hcount, rejectIf_of_not _ (Nat.not_lt.2 hdata), rejectIf_of_not _ fun h => hcount h.1,
    isDisabledOpcode_push hpush, rejectIf_of_not _ Bool.false_ne_true, execute_push_ok hminimal _ hpush, if_pos hfExec]
  show (rejectIf ((data :: s.stack).length + s.altstack.length > 1000) (ScriptFault.error .stackSize) >>= fun _ => _) = _
  rw [List.length_cons, rejectIf_of_not _ (by omega)]
  rfl

omit hminimal in
/-- `OP_1` to `OP_16`. -/
theorem step_smallInteger {n : Nat} {data rest : Bytes} (hop : getOp s.pc = some (n + 0x50, data, rest))
    (hpos : 1 ≤ n) (hle : n ≤ 16) (hexec : s.vfExec = []) (hstack : s.stack.length + s.altstack.length < 1000) :
    s.step E = .ok { s with pc := rest, stack := CScriptNum.serialize n :: s.stack } := by
  have hdata := getOp_data_nil hop (by unfold opPushData4; omega)
  have hcount : ¬ n + 0x50 > op16 := by unfold op16; omega
  have hdisabled : isDisabledOpcode (n + 0x50) = false := by
    simp only [isDisabledOpcode, List.contains_cons, List.contains_nil, Bool.or_false, Bool.or_eq_false_iff,
      beq_eq_false_iff_ne]
    omega
  have hfExec : ({ s with pc := rest, nOpCount := s.nOpCount } : EvalState).fExec = true := by
    show s.vfExec.all id = true
    rw [hexec]
    rfl
  have hopOf : opOf (n + 0x50) = .pushNumber n := by
    unfold opOf op1 op16
    rw [if_pos (by omega)]
    congr 1
    omega
  have hexecute : execute E { s with pc := rest, nOpCount := s.nOpCount } (n + 0x50) data =
      .ok { s with pc := rest, stack := CScriptNum.serialize n :: s.stack } := by
    unfold execute
    rw [if_neg (by unfold opPushData4; omega), if_pos (.inl hfExec), hopOf]
    rfl
  unfold EvalState.step
  rw [hop]
  dsimp only
  rw [if_neg hcount, hdata, rejectIf_of_not _ (by decide), rejectIf_of_not _ fun h => hcount h.1, hdisabled,
    rejectIf_of_not _ Bool.false_ne_true, ← hdata, hexecute]
  show (rejectIf ((CScriptNum.serialize n :: s.stack).length + s.altstack.length > 1000)
    (ScriptFault.error .stackSize) >>= fun _ => _) = _
  rw [List.length_cons, rejectIf_of_not _ (by omega)]
  rfl

/-- The run through pushes, one after the other. -/
theorem visits_pushes {ps ops : List (Nat × Bytes)} (h : ReadsAs s.pc (ps ++ ops))
    (hpush : ∀ p ∈ ps, p.1 ≤ opPushData4 ∧ p.2.length ≤ maxScriptElementSize) (hexec : s.vfExec = [])
    (hstack : s.stack.length + s.altstack.length + ps.length ≤ 1000) :
    ∃ pc, ReadsAs pc ops ∧ Visits E s { s with pc := pc, stack := (ps.map Prod.snd).reverse ++ s.stack } := by
  induction ps generalizing s with
  | nil => exact ⟨s.pc, h, .here s⟩
  | cons p ps ih =>
    have hne := h.ne_nil
    rcases p with ⟨opcode, data⟩
    rw [List.length_cons] at hstack
    rcases h.next_inv with ⟨rest, op, more⟩
    have hp := hpush (opcode, data) List.mem_cons_self
    have hstep := step_push hminimal op hp.1 hp.2 hexec (by omega)
    have hrest := ih (s := { s with pc := rest, stack := data :: s.stack }) more
      (fun q hq => hpush q (List.mem_cons_of_mem _ hq)) hexec
      (by show (data :: s.stack).length + s.altstack.length + ps.length ≤ 1000; rw [List.length_cons]; omega)
    rcases hrest with ⟨pc, hpc, hvisits⟩
    refine ⟨pc, hpc, .next hne hstep ?_⟩
    have hlist : ((((opcode, data) :: ps).map Prod.snd).reverse ++ s.stack) =
        (ps.map Prod.snd).reverse ++ data :: s.stack := by
      rw [List.map_cons, List.reverse_cons, List.append_assoc, List.singleton_append]
    rw [hlist]
    exact hvisits

theorem evalScript_pushes (values : List Bytes) (hsmall : ∀ v ∈ values, v.length ≤ maxScriptElementSize)
    (hcount : values.length ≤ 1000) (hlen : (values.flatMap pushBytes).length ≤ 10000) :
    evalScript E [] (values.flatMap pushBytes) = .ok values.reverse := by
  have hreads : ReadsAs (values.flatMap pushBytes) (values.map pushOf ++ []) := by
    have h := ReadsAs.done.pushes values (by rw [List.append_nil]; omega)
    rw [List.append_nil] at h
    exact h
  have hpush : ∀ p ∈ values.map pushOf, p.1 ≤ opPushData4 ∧ p.2.length ≤ maxScriptElementSize := by
    intro p hp
    rcases List.mem_map.1 hp with ⟨v, hv, rfl⟩
    exact ⟨pushOpcode_le _, hsmall v hv⟩
  have hmap : (values.map pushOf).map Prod.snd = values := by
    rw [List.map_map]
    exact List.map_id values
  rcases visits_pushes hminimal (s := .start [] (values.flatMap pushBytes)) hreads hpush rfl
    (by rw [List.length_map]; show 0 + 0 + _ ≤ 1000; omega) with ⟨pc, hpc, hvisits⟩
  have hend : pc = [] := by
    cases hpc
    rfl
  rw [hmap] at hvisits
  rw [evalScript_of_visits hlen hvisits hend rfl]
  show Except.ok (values.reverse ++ []) = _
  rw [List.append_nil]

end

end Dobbscoin

/-!
# Runs of multisig scripts

`OP_CHECKMULTISIG` goes through signatures and keys from their last ones on.  Where every encoding passes and no
signature is in the script, it finds out whether the signatures are in the order of the keys.
-/

namespace Dobbscoin

open Guard CScript Matching

/-! ## The operation -/

section

variable {E : ScriptEnv} {stack x y : ScriptStack} {sigs keys : List Bytes}

theorem stacktop_of_drop {i : Nat} {vch : Bytes} (h : stack.drop i = vch :: x) : stacktop stack (i + 1) = .ok vch := by
  have hget : (stack.drop i)[0]? = stack[i]? := List.getElem?_drop
  rw [h] at hget
  rw [stacktop, ← hget]
  rfl

theorem drop_of_drop {i : Nat} {vch : Bytes} (h : stack.drop i = vch :: x) : stack.drop (i + 1) = x := by
  rw [← List.drop_drop, h]
  rfl

theorem deleteSigs_eq {i : Nat} (h : stack.drop i = sigs ++ x)
    (hsigs : ∀ sig ∈ sigs, findAndDelete script (pushBytes sig) = script) :
    deleteSigs stack sigs.length (i + 1) script = .ok script := by
  induction sigs generalizing i with
  | nil => rfl
  | cons sig sigs ih =>
    rw [List.length_cons, deleteSigs, stacktop_of_drop h, ok_bind, hsigs sig List.mem_cons_self]
    exact ih (drop_of_drop h) fun sig' h' => hsigs sig' (List.mem_cons_of_mem _ h')

/-- The loop puts the signatures, as the stack has them, against the keys. -/
theorem multiSigLoop_eq (henc : ∀ vchSig vchPubKey, checkEncodings E vchSig vchPubKey = .ok ()) {i j : Nat}
    (script : CScript) (hkeys : stack.drop j = keys ++ y) (hsigs : stack.drop i = sigs ++ x)
    (hle : sigs.length ≤ keys.length) :
    multiSigLoop E script stack keys.length (j + 1) (i + 1) sigs.length =
      .ok (inOrder (fun sig key => E.checker.checkSig sig key script) sigs keys) := by
  induction keys generalizing i j sigs with
  | nil =>
    obtain rfl := List.length_eq_zero_iff.1 (Nat.le_zero.1 hle)
    rfl
  | cons key keys ih =>
    cases sigs with
    | nil => rfl
    | cons sig sigs =>
      have hle' : sigs.length ≤ keys.length := Nat.le_of_succ_le_succ hle
      rw [List.length_cons, List.length_cons, multiSigLoop, stacktop_of_drop hsigs, ok_bind, stacktop_of_drop hkeys,
        ok_bind, henc, ok_bind]
      dsimp only
      rw [inOrder]
      by_cases hcheck : E.checker.checkSig sig key script = true
      · rw [if_pos hcheck, if_pos hcheck, if_pos hcheck, if_neg (Nat.not_lt.2 hle')]
        exact ih (drop_of_drop hkeys) (drop_of_drop hsigs) hle'
      · rw [if_neg hcheck, if_neg hcheck, if_neg hcheck]
        split_ifs with hmore
        · -- More signatures are left than keys.
          have hfew : inOrder (fun sig key => E.checker.checkSig sig key script) (sig :: sigs) keys = false := by
            rw [Bool.eq_false_iff]
            intro hin
            have hlen := inOrder_length hin
            rw [List.length_cons] at hlen
            omega
          rw [hfew]
        · exact ih (drop_of_drop hkeys) hsigs (Nat.not_lt.1 hmore)

/-- A small number on the stack is read as it was pushed. -/
theorem number_small (hminimal : E.has scriptVerifyMinimalData = false) {n : Nat} (hle : n ≤ 16) {i : Nat}
    (h : stack.drop i = CScriptNum.serialize n :: x) : E.number stack (i + 1) = .ok (n : Int) := by
  have hall : ∀ n : Nat, n ≤ 16 →
      CScriptNum.ofBytes (CScriptNum.serialize n) false CScriptNum.nMaxNumSize = .ok (n : Int) := by
    decide
  rw [ScriptEnv.number, stacktop_of_drop h, ok_bind, hminimal]
  exact hall n hle

theorem needStack_of_le {n : Nat} (h : n ≤ stack.length) (e : ScriptError) : needStack stack n e = .ok () :=
  rejectIf_of_not _ (Nat.not_lt.2 h)

theorem popTimes_append (z x : ScriptStack) : popTimes z.length (z ++ x) = .ok x := by
  induction z with
  | nil => rfl
  | cons vch z ih => exact ih

theorem multiSigChecks_eq (hminimal : E.has scriptVerifyMinimalData = false)
    (henc : ∀ vchSig vchPubKey, checkEncodings E vchSig vchPubKey = .ok ()) {dummy : Bytes}
    (hstack : s.stack = CScriptNum.serialize keys.length ::
      (keys ++ CScriptNum.serialize sigs.length :: (sigs ++ dummy :: x)))
    (hle : sigs.length ≤ keys.length) (hcount : keys.length ≤ 16) (hops : s.nOpCount + keys.length ≤ 201)
    (hsigs : ∀ sig ∈ sigs, findAndDelete s.pbegincodehash (pushBytes sig) = s.pbegincodehash) :
    multiSigChecks E s = .ok (s.nOpCount + keys.length, 2 + keys.length + sigs.length,
      inOrder (fun sig key => E.checker.checkSig sig key s.pbegincodehash) sigs keys) := by
  have hlen : s.stack.length = 3 + keys.length + sigs.length + x.length := by
    rw [hstack, List.length_cons, List.length_append, List.length_cons, List.length_append, List.length_cons]
    omega
  have hdropKeys : s.stack.drop 1 = keys ++ CScriptNum.serialize sigs.length :: (sigs ++ dummy :: x) := by
    rw [hstack]
    rfl
  have hdropCount : s.stack.drop (1 + keys.length) = CScriptNum.serialize sigs.length :: (sigs ++ dummy :: x) := by
    rw [← List.drop_drop, hdropKeys, List.drop_left]
  have hdropSigs : s.stack.drop (2 + keys.length) = sigs ++ dummy :: x := by
    rw [show 2 + keys.length = 1 + keys.length + 1 from by omega]
    exact drop_of_drop hdropCount
  have hnKeys : CScriptNum.getInt (keys.length : Int) = keys.length := by
    unfold CScriptNum.getInt
    rw [if_neg (by omega), if_neg (by omega)]
  have hnSigs : CScriptNum.getInt (sigs.length : Int) = sigs.length := by
    unfold CScriptNum.getInt
    rw [if_neg (by omega), if_neg (by omega)]
  unfold multiSigChecks
  rw [needStack_of_le (by omega), ok_bind, number_small (i := 0) hminimal hcount hstack, ok_bind]
  dsimp only
  rw [hnKeys, Int.toNat_natCast, rejectIf_of_not _ (by omega), ok_bind, rejectIf_of_not _ (Nat.not_lt.2 hops), ok_bind,
    needStack_of_le (by omega), ok_bind, show 2 + keys.length = 1 + keys.length + 1 from by omega,
    number_small hminimal (hle.trans hcount) hdropCount, ok_bind]
  rw [hnSigs, Int.toNat_natCast, rejectIf_of_not _ (by omega), ok_bind, needStack_of_le (by omega), ok_bind,
    show 3 + keys.length = 2 + keys.length + 1 from by omega, deleteSigs_eq hdropSigs hsigs, ok_bind,
    multiSigLoop_eq henc _ hdropKeys hdropSigs hle, ok_bind]

/-- The operation replaces its arguments, and one element more, by the outcome. -/
theorem runCheckMultiSig_ok (hminimal : E.has scriptVerifyMinimalData = false)
    (hdummy : E.has scriptVerifyNullDummy = false)
    (henc : ∀ vchSig vchPubKey, checkEncodings E vchSig vchPubKey = .ok ()) {dummy : Bytes}
    (hstack : s.stack = CScriptNum.serialize keys.length ::
      (keys ++ CScriptNum.serialize sigs.length :: (sigs ++ dummy :: x)))
    (hle : sigs.length ≤ keys.length) (hcount : keys.length ≤ 16) (hops : s.nOpCount + keys.length ≤ 201)
    (hsigs : ∀ sig ∈ sigs, findAndDelete s.pbegincodehash (pushBytes sig) = s.pbegincodehash) :
    runCheckMultiSig E s false = .ok { s with
      stack := (if inOrder (fun sig key => E.checker.checkSig sig key s.pbegincodehash) sigs keys then vchTrue
        else vchFalse) :: x
      nOpCount := s.nOpCount + keys.length } := by
  have hpop : popTimes (2 + keys.length + sigs.length) s.stack = .ok (dummy :: x) := by
    have happend := popTimes_append
      (CScriptNum.serialize keys.length :: (keys ++ CScriptNum.serialize sigs.length :: sigs)) (dummy :: x)
    rw [List.cons_append, List.append_assoc, List.cons_append, ← hstack, List.length_cons, List.length_append,
      List.length_cons] at happend
    rw [← happend]
    congr 1
    omega
  rw [runCheckMultiSig_eq, multiSigChecks_eq hminimal henc hstack hle hcount hops hsigs, ok_bind, multiSigOutcome]
  dsimp only
  rw [hpop, ok_bind, needStack_of_le (Nat.succ_le_succ (Nat.zero_le _)), ok_bind,
    stacktop_of_drop (show (dummy :: x).drop 0 = dummy :: x from rfl), ok_bind, hdummy,
    rejectIf_of_not _ fun h => Bool.false_ne_true h.1]
  rfl

end

/-! ## The script -/

/-- The script asks for `m` signatures of these keys, however it pushes them. -/
structure IsMultiSig (script : CScript) (m : Nat) (keys : List Bytes) : Prop where
  pos : 1 ≤ m
  le : m ≤ keys.length
  count : keys.length ≤ 16
  sizes : ∀ key ∈ keys, isKeySize key = true
  reads : ∃ ps, ps.map Prod.snd = keys ∧ (∀ p ∈ ps, p.1 ≤ opPushData4) ∧
    ReadsAs script ((m + 0x50, []) :: (ps ++ [(keys.length + 0x50, []), (0xae, [])]))
  length : script.length ≤ 10000

theorem AlikeOpcodes.eq_of_lt {opcode opcode' : Nat} (h : AlikeOpcodes opcode opcode') (hlow : opPushData4 < opcode') :
    opcode = opcode' :=
  h.resolve_right fun hpush => Nat.not_lt.2 hpush.2 hlow

/-- Ways to push the data that `operator<<` pushes. -/
theorem alike_pushes {ps : List (Nat × Bytes)} {values : List Bytes}
    (h : List.Forall₂ (fun op op' => op.2 = op'.2 ∧ AlikeOpcodes op.1 op'.1) ps (values.map pushOf)) :
    ps.map Prod.snd = values ∧ ∀ p ∈ ps, p.1 ≤ opPushData4 := by
  induction values generalizing ps with
  | nil =>
    cases h
    exact ⟨rfl, nofun⟩
  | cons value values ih =>
    cases h with
    | @cons p p' ps ps' hp hps =>
      rcases ih hps with ⟨hmap, hpush⟩
      have hle : p.1 ≤ opPushData4 := by
        rcases hp.2 with heq | halike
        · rw [heq]
          exact pushOpcode_le _
        · exact halike.1
      refine ⟨?_, List.forall_mem_cons.2 ⟨hle, hpush⟩⟩
      rw [List.map_cons, hmap, hp.1]
      rfl

theorem canonicalScript_reads {m n : UInt8} {keys : List Bytes} (hm : 1 ≤ m.toNat) (hmle : m.toNat ≤ 16)
    (hn : 1 ≤ n.toNat) (hnle : n.toNat ≤ 16)
    (hsize : (canonicalScript .multiSig ([[m]] ++ keys ++ [[n]])).length ≤ 2000) :
    ReadsAs (canonicalScript .multiSig ([[m]] ++ keys ++ [[n]]))
      ((m.toNat + 0x50, []) :: (keys.map pushOf ++ [(n.toNat + 0x50, []), (0xae, [])])) := by
  have hend : ReadsAs [UInt8.ofNat (n.toNat + 0x50), 0xae] [(n.toNat + 0x50, []), (0xae, [])] :=
    .byte (.byte .done (by decide) (by decide)) (by unfold opPushData4; omega) (by omega)
  rw [canonicalScript_multiSig, encodeOpN_eq hm, encodeOpN_eq hn] at hsize ⊢
  rw [List.length_cons] at hsize
  exact .byte (hend.pushes keys (by omega)) (by unfold opPushData4; omega) (by omega)

theorem solver_multiSig {carrier : DataCarrier} {v : List Bytes}
    (h : solver carrier script = ⟨true, .multiSig, v⟩) :
    ∃ (m : UInt8) (keys : List Bytes), v = [[m]] ++ keys ++ [[UInt8.ofNat keys.length]] ∧
      IsMultiSig script m.toNat keys := by
  unfold solver at h
  split_ifs at h with hp2sh
  · cases h
  rcases scanTemplates_found h with ⟨script2, hmem, hmatch, hvalid⟩
  rcases mem_templates hmem with ⟨ht, -⟩ | ⟨ht, -⟩ | ⟨-, rfl⟩ | ht
  case inr.inr.inl =>
    rcases multiSig_inv hmatch (hvalid rfl) with ⟨m, n, keys, rfl, hpos, hmn, hlen, hn, hsizes, halike, hsize⟩
    have hscript := halike.length_le
    have hnKeys : UInt8.ofNat keys.length = n := by rw [hlen, UInt8.ofNat_toNat]
    refine ⟨m, keys, by rw [hnKeys], hpos, by omega, by omega, hsizes, ?_, by omega⟩
    rcases halike.readsAs (canonicalScript_reads hpos (by omega) (by omega) hn hsize) with ⟨ops, hreads, hops⟩
    cases hops with
    | @cons op op' ops ops' hop hrest =>
      have hkeys := List.forall₂_take_append _ _ _ hrest
      have hend := List.forall₂_drop_append _ _ _ hrest
      have hsplit := List.take_append_drop (keys.map pushOf).length ops
      generalize ops.take (keys.map pushOf).length = ps at hkeys hsplit
      generalize ops.drop (keys.map pushOf).length = last at hend hsplit
      subst hsplit
      rcases alike_pushes hkeys with ⟨hmap, hpush⟩
      refine ⟨ps, hmap, hpush, ?_⟩
      cases hend with
      | @cons opn opn' last last' hopn hlast =>
        cases hlast with
        | @cons opc opc' last last' hopc hnil =>
          cases hnil
          have heq : ∀ {op op' : Nat × Bytes}, op.2 = op'.2 ∧ AlikeOpcodes op.1 op'.1 → opPushData4 < op'.1 → op = op' :=
            fun h hlow => Prod.ext (h.2.eq_of_lt hlow) h.1
          obtain rfl := heq hop (by unfold opPushData4; omega)
          obtain rfl := heq hopn (by unfold opPushData4; omega)
          obtain rfl := heq hopc (by decide)
          rw [hlen]
          exact hreads
  all_goals cases ht

/-- A vector that is no key of the script is not found in it. -/
theorem IsMultiSig.findAndDelete_eq {m : Nat} {keys : List Bytes} (h : IsMultiSig script m keys)
    {sig : Bytes} (hsig : sig ∉ keys) : CScript.findAndDelete script (pushBytes sig) = script := by
  rcases h.reads with ⟨ps, hmap, -, hreads⟩
  refine hreads.findAndDelete (fun op hop => ?_) (h.length.trans_lt (by decide))
  rcases List.mem_cons.1 hop with rfl | hop
  · exact .inl (by unfold opPushData4; have hpos := h.pos; omega)
  · rcases List.mem_append.1 hop with hop | hop
    · refine .inr fun heq => hsig ?_
      rw [← heq, ← hmap]
      exact List.mem_map_of_mem hop
    · rcases List.mem_cons.1 hop with rfl | hop
      · exact .inl (by unfold opPushData4; have hpos := h.pos; have hle := h.le; omega)
      · rw [List.mem_singleton.1 hop]
        exact .inl (by decide)

/-- **A run of a multisig script** takes the signatures and one element more off the stack, and leaves whether the
signatures are in the order of the keys. -/
theorem IsMultiSig.evalScript {m : Nat} {keys : List Bytes} (h : IsMultiSig script m keys)
    {E : ScriptEnv} (hminimal : E.has scriptVerifyMinimalData = false) (hdummy : E.has scriptVerifyNullDummy = false)
    (henc : ∀ vchSig vchPubKey, checkEncodings E vchSig vchPubKey = .ok ()) {sigs x : ScriptStack} {dummy : Bytes}
    (hm : sigs.length = m) (hx : x.length ≤ 900)
    (hsigs : ∀ sig ∈ sigs, findAndDelete script (pushBytes sig) = script) :
    Dobbscoin.evalScript E (sigs ++ dummy :: x) script =
      .ok ((if inOrder (fun sig key => E.checker.checkSig sig key script) sigs keys.reverse then vchTrue
        else vchFalse) :: x) := by
  have hcount := h.count
  have hle := h.le
  subst hm
  have hstackLen : (sigs ++ dummy :: x).length = sigs.length + 1 + x.length := by
    rw [List.length_append, List.length_cons]
    omega
  rcases h.reads with ⟨ps, hmap, hpush, hreads⟩
  have hpsLen : ps.length = keys.length := by rw [← hmap, List.length_map]
  have hpushes : ∀ p ∈ ps, p.1 ≤ opPushData4 ∧ p.2.length ≤ maxScriptElementSize := by
    intro p hp
    have hkey := isKeySize_le (h.sizes p.2 (hmap ▸ List.mem_map_of_mem hp))
    exact ⟨hpush p hp, hkey.trans (by decide)⟩
  have hrevLen : keys.reverse.length = keys.length := List.length_reverse
  -- The number of signatures, the keys, their number and the operation.
  rcases hreads.next_inv with ⟨pc1, hop1, hreads1⟩
  have hstep1 := step_smallInteger (E := E) (s := ⟨script, script, sigs ++ dummy :: x, [], [], 0⟩) hop1 h.pos
    (hle.trans hcount) rfl (by show (sigs ++ dummy :: x).length + 0 < 1000; omega)
  generalize hstack1 : CScriptNum.serialize sigs.length :: (sigs ++ dummy :: x) = stack1 at hstep1
  have hlen1 : stack1.length = sigs.length + 2 + x.length := by
    rw [← hstack1, List.length_cons]
    omega
  rcases visits_pushes hminimal (s := ⟨pc1, script, stack1, [], [], 0⟩) hreads1 hpushes rfl
    (by show stack1.length + 0 + ps.length ≤ 1000; omega) with ⟨pc2, hreads2, hvisits2⟩
  rw [hmap] at hvisits2
  rcases hreads2.next_inv with ⟨pc3, hop3, hreads3⟩
  have hlen2 : (keys.reverse ++ stack1).length = keys.length + stack1.length := by
    rw [List.length_append, hrevLen]
  have hstep3 := step_smallInteger (E := E) (s := ⟨pc2, script, keys.reverse ++ stack1, [], [], 0⟩) hop3
    (h.pos.trans hle) hcount rfl (by show (keys.reverse ++ stack1).length + 0 < 1000; omega)
  rcases hreads3.next_inv with ⟨pc4, hop4, hreads4⟩
  cases hreads4
  have hstack4 : CScriptNum.serialize keys.length :: (keys.reverse ++ stack1) =
      CScriptNum.serialize keys.reverse.length ::
        (keys.reverse ++ CScriptNum.serialize sigs.length :: (sigs ++ dummy :: x)) := by
    rw [hrevLen, ← hstack1]
  have hrun := runCheckMultiSig_ok (E := E) hminimal hdummy henc
    (s := ⟨[], script, CScriptNum.serialize keys.length :: (keys.reverse ++ stack1), [], [], 0 + 1⟩) hstack4 (by rw [hrevLen]; exact hle) (by rw [hrevLen]; exact hcount)
    (by rw [hrevLen]; show 0 + 1 + keys.length ≤ 201; omega) hsigs
  have hstep4 := step_operation (E := E)
    (s := ⟨pc3, script, CScriptNum.serialize keys.length :: (keys.reverse ++ stack1), [], [], 0⟩) hop4 (by decide)
    (by decide) (by show 0 < 201; decide) rfl hrun (by show x.length + 1 + 0 ≤ 1000; omega)
  have hvisits : Visits E (.start (sigs ++ dummy :: x) script) _ :=
    .next hreads.ne_nil hstep1 (hvisits2.trans (.next hreads2.ne_nil hstep3 (.next hreads3.ne_nil hstep4 (.here _))))
  exact evalScript_of_visits h.length hvisits rfl rfl

end Dobbscoin
