import Dobbscoin.Script.Standard
import Dobbscoin.Validation.CheckInputs

/-!
# Standard inputs

`AreInputsStandard` of `main.cpp` goes over the inputs of a transaction and judges each of them by the form
of the output it spends.
-/

namespace Dobbscoin

open Guard

def maxP2SHSigOps : Nat := 15

/-- What the check of an input depends on. -/
structure StandardEnv where
  carrier : DataCarrier
  hashes : ScriptHashes

namespace StandardEnv

variable (S : StandardEnv)

/-- `EvalScript` of a `scriptSig`, with no flags and the checker that accepts nothing. -/
def evalScriptSig (scriptSig : CScript) : Except ScriptError ScriptStack :=
  evalScript ⟨S.hashes, ⟨fun _ _ _ => false, fun _ => false⟩, 0⟩ [] scriptSig

/-- The body of the loop: what it returns, or `none` where it goes on to the next input. -/
def judgeInput (prevScript scriptSig : CScript) : Option Bool :=
  let solved := solver S.carrier prevScript
  let nArgsExpected := scriptSigArgsExpected solved.typeRet solved.vSolutionsRet
  if solved.ret = false then some false
  else if nArgsExpected < 0 then some false
  else
    match S.evalScriptSig scriptSig with
    | .error _ => some false
    | .ok stack =>
      if solved.typeRet = .scriptHash then
        match stack with
        | [] => some false
        | subscript :: _ =>
          let solved2 := solver S.carrier subscript
          let tmpExpected := scriptSigArgsExpected solved2.typeRet solved2.vSolutionsRet
          if solved2.ret = true then
            if tmpExpected < 0 then some false
            else if (stack.length : Int) ≠ nArgsExpected + tmpExpected then some false
            else none
          -- The whole check ends here.
          else some (decide (CScript.getSigOpCount subscript true ≤ maxP2SHSigOps))
      else if (stack.length : Int) ≠ nArgsExpected then some false
      else none

def inputsStandardLoop (view : CoinsView) : List CTxIn → Except ConnectStop Bool
  | [] => .ok true
  | txin :: rest => do
    let prev ← view.getOutputFor txin
    match S.judgeInput prev.scriptPubKey txin.scriptSig with
    | some ret => .ok ret
    | none => inputsStandardLoop view rest

def areInputsStandard (tx : CTransaction) (view : CoinsView) : Except ConnectStop Bool :=
  if tx.isCoinBase then .ok true else S.inputsStandardLoop view tx.vin

/-! ## One input -/

/-- The form of an input: what `scriptSig` leaves is what the output asks for, and with a redeem script what
that asks for; a redeem script of no known form may have a few signature operations. -/
def ScriptFits (prevScript scriptSig : CScript) : Prop :=
  ∃ stack, S.evalScriptSig scriptSig = .ok stack ∧ (solver S.carrier prevScript).ret = true ∧
    0 ≤ scriptSigArgsExpected (solver S.carrier prevScript).typeRet (solver S.carrier prevScript).vSolutionsRet ∧
    if (solver S.carrier prevScript).typeRet = .scriptHash then
      ∃ subscript rest, stack = subscript :: rest ∧
        if (solver S.carrier subscript).ret = true then
          0 ≤ scriptSigArgsExpected (solver S.carrier subscript).typeRet (solver S.carrier subscript).vSolutionsRet ∧
          (stack.length : Int) =
            scriptSigArgsExpected (solver S.carrier prevScript).typeRet (solver S.carrier prevScript).vSolutionsRet +
            scriptSigArgsExpected (solver S.carrier subscript).typeRet (solver S.carrier subscript).vSolutionsRet
        else CScript.getSigOpCount subscript true ≤ maxP2SHSigOps
    else (stack.length : Int) =
      scriptSigArgsExpected (solver S.carrier prevScript).typeRet (solver S.carrier prevScript).vSolutionsRet

/-- The output is P2SH, and `Solver` does not know the redeem script. -/
def UnknownRedeemScript (prevScript scriptSig : CScript) : Prop :=
  (solver S.carrier prevScript).ret = true ∧ (solver S.carrier prevScript).typeRet = .scriptHash ∧
    ∃ subscript rest, S.evalScriptSig scriptSig = .ok (subscript :: rest) ∧ (solver S.carrier subscript).ret = false

/-- An input goes through when it fits; and behind one whose redeem script is unknown nothing is looked at. -/
theorem judgeInput_spec (prevScript scriptSig : CScript) :
    (S.judgeInput prevScript scriptSig ≠ some false ↔ S.ScriptFits prevScript scriptSig) ∧
    (S.judgeInput prevScript scriptSig = some true ↔
      S.ScriptFits prevScript scriptSig ∧ S.UnknownRedeemScript prevScript scriptSig) := by
  unfold judgeInput ScriptFits UnknownRedeemScript
  generalize solver S.carrier prevScript = solved
  dsimp only
  generalize scriptSigArgsExpected solved.typeRet solved.vSolutionsRet = nArgsExpected
  by_cases hret : solved.ret = false
  · simp [hret]
  · have hknown : solved.ret = true := Bool.eq_true_of_not_eq_false hret
    rw [if_neg hret]
    by_cases hneg : nArgsExpected < 0
    · have hnot : ¬ 0 ≤ nArgsExpected := not_le.2 hneg
      simp [if_pos hneg, hnot]
    · have hpos : 0 ≤ nArgsExpected := not_lt.1 hneg
      rw [if_neg hneg]
      cases S.evalScriptSig scriptSig with
      | error e => simp
      | ok stack =>
        by_cases htype : solved.typeRet = .scriptHash
        · cases stack with
          | nil => simp [htype]
          | cons subscript rest =>
            generalize hsub : solver S.carrier subscript = solved2
            by_cases hret2 : solved2.ret = true
            · by_cases hneg2 : scriptSigArgsExpected solved2.typeRet solved2.vSolutionsRet < 0
              · simp [htype, hsub, hret2, hneg2, not_le.2 hneg2]
              · by_cases hlen : ((subscript :: rest).length : Int) =
                    nArgsExpected + scriptSigArgsExpected solved2.typeRet solved2.vSolutionsRet
                · simp_all
                · simp_all
            · simp_all
        · simp_all

/-! ## All inputs -/

/-- The input fits the output that it spends. -/
def InputFits (view : CoinsView) (txin : CTxIn) : Prop :=
  ∃ prev, view.outputAt txin.prevout = some prev ∧ S.ScriptFits prev.scriptPubKey txin.scriptSig

/-- The input spends a P2SH output with a redeem script of no known form. -/
def UnknownRedeem (view : CoinsView) (txin : CTxIn) : Prop :=
  ∃ prev, view.outputAt txin.prevout = some prev ∧ S.UnknownRedeemScript prev.scriptPubKey txin.scriptSig

variable {S}

/-- The loop ends well at the end of the list, or behind an input with an unknown redeem script. -/
theorem inputsStandardLoop_ok {view : CoinsView} {vin : List CTxIn}
    (hview : ∀ txin ∈ vin, (view.outputAt txin.prevout).isSome) :
    S.inputsStandardLoop view vin = .ok true ↔ (∀ txin ∈ vin, S.InputFits view txin) ∨
      ∃ pre txin post, vin = pre ++ txin :: post ∧ (∀ x ∈ pre, S.InputFits view x) ∧ S.InputFits view txin ∧
        S.UnknownRedeem view txin := by
  induction vin with
  | nil => exact iff_of_true rfl (.inl (List.forall_mem_nil _))
  | cons txin rest ih =>
    obtain ⟨prev, hprev⟩ := Option.isSome_iff_exists.1 (hview txin List.mem_cons_self)
    have hspec := S.judgeInput_spec prev.scriptPubKey txin.scriptSig
    have hfits : S.InputFits view txin ↔ S.ScriptFits prev.scriptPubKey txin.scriptSig := by
      constructor
      · rintro ⟨prev', hprev', h⟩
        obtain rfl := Option.some.inj (hprev.symm.trans hprev')
        exact h
      · exact fun h => ⟨prev, hprev, h⟩
    have hunknown : S.UnknownRedeem view txin ↔ S.UnknownRedeemScript prev.scriptPubKey txin.scriptSig := by
      constructor
      · rintro ⟨prev', hprev', h⟩
        obtain rfl := Option.some.inj (hprev.symm.trans hprev')
        exact h
      · exact fun h => ⟨prev, hprev, h⟩
    have hstep : S.inputsStandardLoop view (txin :: rest) =
        match S.judgeInput prev.scriptPubKey txin.scriptSig with
        | some ret => .ok ret
        | none => S.inputsStandardLoop view rest := by
      rw [inputsStandardLoop, getOutputFor_of_outputAt hprev]
      rfl
    rw [hstep]
    cases hjudge : S.judgeInput prev.scriptPubKey txin.scriptSig with
    | some ret =>
      cases ret with
      | false =>
        have hnot : ¬ S.InputFits view txin := fun h => hspec.1.2 (hfits.1 h) hjudge
        refine iff_of_false (fun h => Bool.false_ne_true (Except.ok.inj h)) ?_
        rintro (hall | ⟨pre, x, post, heq, hpre, hx, -⟩)
        · exact hnot (hall txin List.mem_cons_self)
        · cases pre with
          | nil => exact hnot ((List.cons.inj heq).1 ▸ hx)
          | cons y pre => exact hnot ((List.cons.inj heq).1 ▸ hpre y List.mem_cons_self)
      | true =>
        have hboth := hspec.2.1 hjudge
        refine iff_of_true rfl (.inr ⟨[], txin, rest, rfl, List.forall_mem_nil _, hfits.2 hboth.1, ?_⟩)
        exact hunknown.2 hboth.2
    | none =>
      have hfit : S.InputFits view txin := hfits.2 (hspec.1.1 (by rw [hjudge]; nofun))
      have hnot : ¬ S.UnknownRedeem view txin := by
        intro h
        have htrue := hspec.2.2 ⟨hfits.1 hfit, hunknown.1 h⟩
        rw [hjudge] at htrue
        cases htrue
      dsimp only
      rw [ih fun x hx => hview x (List.mem_cons_of_mem _ hx)]
      constructor
      · rintro (hall | ⟨pre, x, post, rfl, hpre, hx, hx'⟩)
        · exact .inl (List.forall_mem_cons.2 ⟨hfit, hall⟩)
        · exact .inr ⟨txin :: pre, x, post, rfl, List.forall_mem_cons.2 ⟨hfit, hpre⟩, hx, hx'⟩
      · rintro (hall | ⟨pre, x, post, heq, hpre, hx, hx'⟩)
        · exact .inl (List.forall_mem_cons.1 hall).2
        · cases pre with
          | nil =>
            obtain ⟨rfl, -⟩ := List.cons.inj heq
            exact absurd hx' hnot
          | cons y pre =>
            obtain ⟨-, rfl⟩ := List.cons.inj heq
            exact .inr ⟨pre, x, post, rfl, (List.forall_mem_cons.1 hpre).2, hx, hx'⟩

/-- A transaction with one input is judged by that input. -/
theorem areInputsStandard_alone {tx : CTransaction} {view : CoinsView} {txin : CTxIn}
    (hview : (view.outputAt txin.prevout).isSome) (hnull : txin.prevout.isNull = false) :
    S.areInputsStandard { tx with vin := [txin] } view = .ok true ↔ S.InputFits view txin := by
  have hcoinbase : ({ tx with vin := [txin] } : CTransaction).isCoinBase = false := hnull
  have hall : ∀ x ∈ [txin], (view.outputAt x.prevout).isSome := by
    intro x hx
    rwa [List.mem_singleton.1 hx]
  rw [areInputsStandard, if_neg (by rw [hcoinbase]; exact Bool.false_ne_true), inputsStandardLoop_ok hall]
  constructor
  · rintro (hall | ⟨pre, x, post, heq, hpre, hx, -⟩)
    · exact hall txin List.mem_cons_self
    · cases pre with
      | nil => exact (List.cons.inj heq).1 ▸ hx
      | cons y pre => exact (List.cons.inj heq).1 ▸ hpre y List.mem_cons_self
  · exact fun h => .inl (List.forall_mem_cons.2 ⟨h, List.forall_mem_nil _⟩)

/-- The first element without a property. -/
theorem exists_first_not {α : Type} {P : α → Prop} {l : List α} (h : ¬ ∀ a ∈ l, P a) :
    ∃ pre a post, l = pre ++ a :: post ∧ ¬ P a ∧ ∀ x ∈ pre, P x := by
  induction l with
  | nil => exact absurd (List.forall_mem_nil P) h
  | cons b l ih =>
    by_cases hb : P b
    · rcases ih fun hall => h (List.forall_mem_cons.2 ⟨hb, hall⟩) with ⟨pre, a, post, rfl, ha, hpre⟩
      exact ⟨b :: pre, a, post, rfl, ha, List.forall_mem_cons.2 ⟨hb, hpre⟩⟩
    · exact ⟨[], b, l, rfl, hb, List.forall_mem_nil _⟩

/-- **When the check of the inputs judges every input.**  A transaction passes if and only if each of its
inputs passes on its own, exactly when no input with an unknown redeem script stands before the first input
that does not fit. -/
theorem areInputsStandard_each_iff (S : StandardEnv) (tx : CTransaction) (view : CoinsView)
    (hcoinbase : tx.isCoinBase = false) (hview : ∀ txin ∈ tx.vin, (view.outputAt txin.prevout).isSome)
    (hnull : ∀ txin ∈ tx.vin, txin.prevout.isNull = false) :
    (S.areInputsStandard tx view = .ok true ↔
      ∀ txin ∈ tx.vin, S.areInputsStandard { tx with vin := [txin] } view = .ok true) ↔
    ∀ pre txin post, tx.vin = pre ++ txin :: post → ¬ S.InputFits view txin →
      (∀ x ∈ pre, S.InputFits view x) → ∀ x ∈ pre, ¬ S.UnknownRedeem view x := by
  have halone : (∀ txin ∈ tx.vin, S.areInputsStandard { tx with vin := [txin] } view = .ok true) ↔
      ∀ txin ∈ tx.vin, S.InputFits view txin :=
    forall₂_congr fun txin htxin => areInputsStandard_alone (hview txin htxin) (hnull txin htxin)
  have hloop : S.areInputsStandard tx view = S.inputsStandardLoop view tx.vin :=
    if_neg (by rw [hcoinbase]; exact Bool.false_ne_true)
  rw [halone, hloop, inputsStandardLoop_ok hview]
  constructor
  · intro hiff pre txin post heq hbad hpre x hx hunknown
    -- The check stops at the unknown redeem script, before it comes to the input that does not fit.
    obtain ⟨pre1, pre2, rfl⟩ := List.append_of_mem hx
    refine hbad (hiff.1 (.inr ⟨pre1, x, pre2 ++ txin :: post, ?_, fun y hy => hpre y ?_, hpre x hx, hunknown⟩) txin ?_)
    · rw [heq, List.append_assoc, List.cons_append]
    · exact List.mem_append_left _ hy
    · rw [heq]
      exact List.mem_append_right _ List.mem_cons_self
  · intro hcond
    refine ⟨fun hpass => ?_, Or.inl⟩
    rcases hpass with hall | ⟨pre, x, post, heq, hpre, hx, hunknown⟩
    · exact hall
    · by_contra hnot
      rw [heq] at hnot
      have hrest : ¬ ∀ y ∈ post, S.InputFits view y := by
        intro hpost
        refine hnot fun y hy => ?_
        rcases List.mem_append.1 hy with hy | hy
        · exact hpre y hy
        · exact (List.forall_mem_cons.2 ⟨hx, hpost⟩) y hy
      rcases exists_first_not hrest with ⟨mid, bad, post', rfl, hbad, hmid⟩
      refine hcond (pre ++ x :: mid) bad post' ?_ hbad ?_ x ?_ hunknown
      · rw [heq, List.append_assoc, List.cons_append]
      · intro y hy
        rcases List.mem_append.1 hy with hy | hy
        · exact hpre y hy
        · exact (List.forall_mem_cons.2 ⟨hx, hmid⟩) y hy
      · exact List.mem_append_right _ List.mem_cons_self

/-! ## An input behind an unknown redeem script -/

def plainEnv : StandardEnv :=
  ⟨.default, ⟨id, id, id, id, id⟩⟩

/-- A P2SH output of the redeem script `OP_1`, and an output with the script `OP_1`, which has no known form. -/
def twoOutputs : List CTxOut :=
  [⟨1, [0xa9, 0x14, 0xda, 0x17, 0x45, 0xe9, 0xb5, 0x49, 0xbd, 0x0b, 0xfa, 0x1a, 0x56, 0x99, 0x71, 0xc7, 0x7e, 0xba,
      0x30, 0xcd, 0x5a, 0x4b, 0x87]⟩,
    ⟨1, [0x51]⟩]

def twoOutputsView : CoinsView where
  coins txid := if txid = 7 then some ⟨false, twoOutputs, 1, 1⟩ else none
  hashBlock := 0
  unspent := by
    intro txid c hc
    split_ifs at hc
    rw [← Option.some.inj hc]
    exact ⟨⟨1, [0x51]⟩, rfl, by decide⟩

def redeemInput : CTxIn := ⟨⟨7, 0⟩, [0x01, 0x51], 0xffffffff⟩
def bareInput : CTxIn := ⟨⟨7, 1⟩, [], 0xffffffff⟩

def spendBoth : CTransaction :=
  ⟨1, [redeemInput, bareInput], twoOutputs.take 1, 0⟩

theorem areInputsStandard_each_iff_redeem :
    (plainEnv.areInputsStandard ⟨1, [redeemInput], [], 0⟩ twoOutputsView = .ok true ↔
      ∀ txin ∈ [redeemInput], plainEnv.areInputsStandard ⟨1, [txin], [], 0⟩ twoOutputsView = .ok true) ↔
    ∀ pre txin post, [redeemInput] = pre ++ txin :: post → ¬ plainEnv.InputFits twoOutputsView txin →
      (∀ x ∈ pre, plainEnv.InputFits twoOutputsView x) → ∀ x ∈ pre, ¬ plainEnv.UnknownRedeem twoOutputsView x :=
  areInputsStandard_each_iff plainEnv ⟨1, [redeemInput], [], 0⟩ twoOutputsView (by decide) (by decide) (by decide)

/-- The transaction passes, its second input does not pass on its own, and in the other order neither does the
transaction. -/
theorem spendBoth_standard :
    plainEnv.areInputsStandard spendBoth twoOutputsView = .ok true ∧
    plainEnv.areInputsStandard { spendBoth with vin := [bareInput] } twoOutputsView = .ok false ∧
    plainEnv.areInputsStandard { spendBoth with vin := [bareInput, redeemInput] } twoOutputsView = .ok false :=
  ⟨rfl, rfl, rfl⟩

end StandardEnv

end Dobbscoin
