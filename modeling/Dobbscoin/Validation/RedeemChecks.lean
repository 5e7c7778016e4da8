import Dobbscoin.Script.SigOpBound
import Dobbscoin.Validation.CheckInputs

/-!
# Redeem scripts of a transaction

`GetP2SHSigOpCount` counts the signature operations of the redeem scripts before any script is run.
-/

namespace Dobbscoin

open Guard

/-- The calls of the checker in all redeem scripts, where `env i` is what input `i` is verified in. -/
def redeemChecks (env : Nat → ScriptEnv) (view : CoinsView) : List (CTxIn × Nat) → Nat
  | [] => 0
  | (txin, i) :: rest =>
    (match view.outputAt txin.prevout with
      | none => 0
      | some prevout => (redeemScriptCalls (env i) txin.scriptSig prevout.scriptPubKey).length) +
      redeemChecks env view rest

theorem addP2SHSigOps_bounds (env : Nat → ScriptEnv) {view : CoinsView} {vin : List CTxIn} {n : Nat}
    (h : addP2SHSigOps view vin = .ok n) (i : Nat) : redeemChecks env view (vin.zipIdx i) ≤ n := by
  induction vin generalizing n i with
  | nil => exact Nat.zero_le _
  | cons txin rest ih =>
    simp only [addP2SHSigOps, bind_eq_ok, Except.ok.injEq] at h
    rcases h with ⟨prevout, hprevout, k, hrest, rfl⟩
    have hout : view.outputAt txin.prevout = some prevout := by
      unfold CoinsView.getOutputFor at hprevout
      cases hat : view.outputAt txin.prevout with
      | none =>
        rw [hat] at hprevout
        cases hprevout
      | some out =>
        rw [hat] at hprevout
        cases hprevout
        rfl
    rw [List.zipIdx_cons, redeemChecks, hout]
    exact Nat.add_le_add (redeemScriptCalls_le (env i) _ _) (ih hrest (i + 1))

/-- **Counting bounds the work in redeem scripts.**  Verifying an input calls the checker, while it executes
the redeem script, at most as often as `scriptPubKey.GetSigOpCount(scriptSig)` says, however the verification
ends; so that `GetP2SHSigOpCount` bounds the calls in all redeem scripts of a transaction. -/
theorem redeemChecks_bounded :
    (∀ (E : ScriptEnv) (scriptSig scriptPubKey : CScript),
      (verifyScriptT E scriptSig scriptPubKey).result = verifyScript E scriptSig scriptPubKey ∧
      (CScript.isPayToScriptHash scriptPubKey = true →
        (redeemScriptCalls E scriptSig scriptPubKey).length ≤ CScript.getP2SHSigOpCount scriptPubKey scriptSig)) ∧
    ∀ (env : Nat → ScriptEnv) (tx : CTransaction) (view : CoinsView) (nSigOps : Nat), tx.isCoinBase = false →
      getP2SHSigOpCount tx view = .ok nSigOps → redeemChecks env view (tx.vin.zipIdx 0) ≤ nSigOps := by
  refine ⟨fun E scriptSig scriptPubKey => ⟨verifyScriptT_result E scriptSig scriptPubKey, fun hp2sh => ?_⟩,
    fun env tx view nSigOps hcoinbase h => ?_⟩
  · have hle := redeemScriptCalls_le E scriptSig scriptPubKey
    rwa [if_pos hp2sh] at hle
  · rw [getP2SHSigOpCount, if_neg (by rw [hcoinbase]; exact Bool.false_ne_true)] at h
    exact addP2SHSigOps_bounds env h 0

/-! ## A redeem script of one signature check -/

/-- `Hash160` of the script `OP_CHECKSIG`. -/
def checkSigScriptHash : Bytes :=
  [0x17, 0xbe, 0x79, 0xcf, 0x51, 0xaa, 0x88, 0xfe, 0xeb, 0xb0, 0xa2, 0x5e, 0x9d, 0x6a, 0x15, 0x3e,
    0xad, 0x58, 0x5e, 0x59]

def checkSigOutput : CTxOut :=
  ⟨1, 0xa9 :: 0x14 :: (checkSigScriptHash ++ [0x87])⟩

def checkSigEnv : ScriptEnv :=
  ⟨⟨id, id, id, fun _ => checkSigScriptHash, id⟩, ⟨fun _ _ _ => false, fun _ => false⟩, scriptVerifyP2SH⟩

def checkSigView : CoinsView where
  coins txid := if txid = 7 then some ⟨false, [checkSigOutput], 1, 1⟩ else none
  hashBlock := 0
  unspent := by
    intro txid c hc
    split_ifs at hc
    rw [← Option.some.inj hc]
    exact ⟨checkSigOutput, rfl, by decide⟩

/-- An empty signature and an empty key, and the redeem script `OP_CHECKSIG`. -/
def checkSigSpend : CTransaction :=
  ⟨1, [⟨⟨7, 0⟩, [0x00, 0x00, 0x01, 0xac], 0xffffffff⟩], [], 0⟩

theorem redeemChecks_bounded_checkSig :
    (redeemScriptCalls checkSigEnv [0x00, 0x00, 0x01, 0xac] checkSigOutput.scriptPubKey).length = 1 ∧
    (redeemScriptCalls checkSigEnv [0x00, 0x00, 0x01, 0xac] checkSigOutput.scriptPubKey).length ≤
      CScript.getP2SHSigOpCount checkSigOutput.scriptPubKey [0x00, 0x00, 0x01, 0xac] ∧
    redeemChecks (fun _ => checkSigEnv) checkSigView (checkSigSpend.vin.zipIdx 0) ≤ 1 :=
  ⟨by decide, (redeemChecks_bounded.1 checkSigEnv [0x00, 0x00, 0x01, 0xac] checkSigOutput.scriptPubKey).2 (by decide),
    redeemChecks_bounded.2 (fun _ => checkSigEnv) checkSigSpend checkSigView 1 (by decide) (by decide)⟩

end Dobbscoin
