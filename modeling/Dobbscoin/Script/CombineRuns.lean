import Dobbscoin.Script.CombineSignatures

/-!
# Combined signatures

What `CombineSignatures` makes of the inputs that two co-signers have for a multisig script.
-/

namespace Dobbscoin

open CScript Matching Guard

/-! ## The set of all signatures -/

section

variable {allsigs sigs1 sigs2 : List Bytes} {v sig : Bytes}

instance : Std.Total vectorLe :=
  ⟨fun v w => le_total (v.map UInt8.toNat) (w.map UInt8.toNat)⟩

instance : IsTrans Bytes vectorLe :=
  ⟨fun _ _ _ h h' => le_trans h h'⟩

instance : Std.Antisymm vectorLe :=
  ⟨fun _ _ h h' => List.map_injective_iff.2 (fun _ _ => UInt8.toNat_inj.1) (le_antisymm h h')⟩

theorem mem_insertSig : sig ∈ insertSig allsigs v ↔ sig ∈ allsigs ∨ sig = v ∧ v ≠ [] := by
  unfold insertSig
  split_ifs with hskip
  · rcases hskip with rfl | hmem
    · exact ⟨.inl, fun h => h.resolve_right fun h => h.2 rfl⟩
    · exact ⟨.inl, fun h => h.elim id fun h => h.1 ▸ hmem⟩
  · rw [List.mem_orderedInsert, or_comm, and_iff_left fun hv => hskip (.inl hv)]

theorem mem_foldl_insertSig (sigs : List Bytes) :
    sig ∈ sigs.foldl insertSig allsigs ↔ sig ∈ allsigs ∨ sig ∈ sigs ∧ sig ≠ [] := by
  induction sigs generalizing allsigs with
  | nil => exact ⟨.inl, fun h => h.resolve_right fun h => List.not_mem_nil h.1⟩
  | cons v sigs ih =>
    rw [List.foldl_cons, ih, mem_insertSig, or_assoc, List.mem_cons, or_and_right]
    refine or_congr_right (or_congr_left ?_)
    exact and_congr_right fun h => by rw [h]

theorem mem_allSigs : sig ∈ allSigs sigs1 sigs2 ↔ (sig ∈ sigs1 ∨ sig ∈ sigs2) ∧ sig ≠ [] := by
  rw [allSigs, mem_foldl_insertSig, mem_foldl_insertSig, List.mem_reverse, List.mem_reverse, or_and_right,
    or_iff_right List.not_mem_nil]

theorem foldl_insertSig_sorted (sigs : List Bytes) (h : allsigs.Pairwise vectorLe ∧ allsigs.Nodup) :
    (sigs.foldl insertSig allsigs).Pairwise vectorLe ∧ (sigs.foldl insertSig allsigs).Nodup := by
  induction sigs generalizing allsigs with
  | nil => exact h
  | cons v sigs ih =>
    refine ih ?_
    unfold insertSig
    split_ifs with hskip
    · exact h
    · refine ⟨h.1.orderedInsert v _, ?_⟩
      rw [(List.perm_orderedInsert vectorLe v allsigs).nodup_iff, List.nodup_cons]
      exact ⟨fun hv => hskip (.inr hv), h.2⟩

/-- The set does not depend on the order of the inputs. -/
theorem allSigs_comm (sigs1 sigs2 : ScriptStack) : allSigs sigs1 sigs2 = allSigs sigs2 sigs1 := by
  have hsorted : ∀ s s' : ScriptStack, (allSigs s s').Pairwise vectorLe ∧ (allSigs s s').Nodup := fun s s' =>
    foldl_insertSig_sorted _ (foldl_insertSig_sorted _ ⟨.nil, .nil⟩)
  have hperm : (allSigs sigs1 sigs2).Perm (allSigs sigs2 sigs1) := by
    rw [List.perm_ext_iff_of_nodup (hsorted sigs1 sigs2).2 (hsorted sigs2 sigs1).2]
    intro sig
    rw [mem_allSigs, mem_allSigs, or_comm]
  exact hperm.eq_of_pairwise' (hsorted sigs1 sigs2).1 (hsorted sigs2 sigs1).1

end

/-! ## Merging -/

/-- What is on the stack for `OP_CHECKMULTISIG`: the signatures that there are, nothing for the missing ones, and
the element that is taken off too much. -/
def multiSigStack (m : Nat) (placed : List Bytes) : ScriptStack :=
  List.replicate (m - placed.length) [] ++ (placed.reverse ++ [[]])

theorem pushAll_multiSigStack (m : Nat) (placed : List Bytes) :
    pushAll (multiSigStack m placed) =
      [0x00] ++ placed.flatMap pushBytes ++ List.replicate (m - placed.length) 0x00 := by
  have hreplicate : ∀ n, (List.replicate n []).flatMap pushBytes = List.replicate n 0x00 := by
    intro n
    induction n with
    | zero => rfl
    | succ n ih =>
      rw [List.replicate_succ, List.flatMap_cons, ih]
      rfl
  rw [pushAll, multiSigStack, List.reverse_append, List.reverse_append, List.reverse_reverse, List.reverse_replicate,
    List.flatMap_append, List.flatMap_append, hreplicate]
  rfl

theorem mergedSigs_eq (sigs : List (Bytes × Bytes)) (pubKeys : List Bytes) (n : Nat) :
    mergedSigs sigs pubKeys n =
      ((pubKeys.filter fun key => (sigs.lookup key).isSome).take n).map fun key => (sigs.lookup key).getD default := by
  induction pubKeys generalizing n with
  | nil =>
    rw [List.filter_nil, List.take_nil]
    rfl
  | cons pubKey pubKeys ih =>
    cases n with
    | zero => rfl
    | succ n =>
      rw [mergedSigs]
      cases hlookup : sigs.lookup pubKey with
      | none =>
        rw [List.filter_cons_of_neg (by rw [hlookup]; exact Bool.false_ne_true)]
        exact ih (n + 1)
      | some sig =>
        rw [List.filter_cons_of_pos (by rw [hlookup]; rfl), List.take_succ_cons, List.map_cons, hlookup]
        exact congrArg (sig :: ·) (ih n)

section

variable (K : ScriptCrypto) (txTo : CTransaction) (nIn : Nat) (script : CScript)

/-- The check of signatures against keys that the script makes. -/
abbrev sigCheck (sig pubKey : Bytes) : Bool :=
  TransactionSignatureChecker.checkSig K txTo nIn sig pubKey script

variable {K txTo nIn script} {keys : List Bytes} {m n : UInt8}

theorem combineMultisig_placed (hunique : AcceptedOnce (sigCheck K txTo nIn script) keys) (sigs1 sigs2 : ScriptStack) :
    ∃ placed, Placed (sigCheck K txTo nIn script) keys (sigs1 ++ sigs2) m.toNat placed ∧
      combineMultisig K txTo nIn script ([[m]] ++ keys ++ [[n]]) sigs1 sigs2 = pushAll (multiSigStack m.toNat placed) := by
  have htail : ([[m]] ++ keys ++ [[n]]).tail.dropLast = keys := by
    rw [List.append_assoc, List.singleton_append, List.tail_cons, List.dropLast_concat]
  have hassigned := (assigned_foldl hunique (allSigs sigs1 sigs2)).placed m.toNat
  rw [← mergedSigs_eq] at hassigned
  have hcovered : covered (sigCheck K txTo nIn script) keys (allSigs sigs1 sigs2) =
      covered (sigCheck K txTo nIn script) keys (sigs1 ++ sigs2) := by
    refine covered_congr fun key _ => ?_
    constructor
    · rintro ⟨sig, hsig, hcheck⟩
      exact ⟨sig, List.mem_append.2 (mem_allSigs.1 hsig).1, hcheck⟩
    · rintro ⟨sig, hsig, hcheck⟩
      refine ⟨sig, mem_allSigs.2 ⟨List.mem_append.1 hsig, ?_⟩, hcheck⟩
      rintro rfl
      exact Bool.false_ne_true hcheck
  refine ⟨_, hassigned.congr (fun sig hsig => List.mem_append.2 (mem_allSigs.1 hsig).1) hcovered, ?_⟩
  rw [pushAll_multiSigStack, combineMultisig, htail]
  rfl

theorem combineMultisig_comm (vSolutions : List Bytes) (sigs1 sigs2 : ScriptStack) :
    combineMultisig K txTo nIn script vSolutions sigs1 sigs2 = combineMultisig K txTo nIn script vSolutions sigs2 sigs1 := by
  rw [combineMultisig, combineMultisig, allSigs_comm]

end

/-! ## The flag of the check -/

/-- With no other flag nothing is asked of encodings. -/
theorem checkEncodings_p2sh (K : ScriptCrypto) (txTo : CTransaction) (nIn : Nat) (vchSig vchPubKey : Bytes) :
    checkEncodings (inputEnv K txTo nIn scriptVerifyP2SH) vchSig vchPubKey = .ok () := by
  have hder : hasFlag scriptVerifyP2SH (scriptVerifyDerSig ||| scriptVerifyLowS ||| scriptVerifyStrictEnc) = false := by
    decide
  have hlow : hasFlag scriptVerifyP2SH scriptVerifyLowS = false := by decide
  have hstrict : hasFlag scriptVerifyP2SH scriptVerifyStrictEnc = false := by decide
  have hsig : checkSignatureEncoding vchSig scriptVerifyP2SH = .ok () := by
    unfold checkSignatureEncoding
    rw [hder, hlow, hstrict, rejectIf_of_not _ fun h => Bool.false_ne_true h.1,
      rejectIf_of_not _ fun h => Bool.false_ne_true h.1]
    exact ite_self _
  have hkey : checkPubKeyEncoding vchPubKey scriptVerifyP2SH = .ok () := by
    rw [checkPubKeyEncoding, hstrict, rejectIf_of_not _ fun h => Bool.false_ne_true h.1]
  have hflags : (inputEnv K txTo nIn scriptVerifyP2SH).flags = scriptVerifyP2SH := rfl
  rw [checkEncodings, hflags, hsig, hkey]

theorem has_p2sh (K : ScriptCrypto) (txTo : CTransaction) (nIn : Nat) {flag : UInt32} {b : Bool}
    (h : hasFlag scriptVerifyP2SH flag = b) : (inputEnv K txTo nIn scriptVerifyP2SH).has flag = b :=
  h

/-! ## Inputs -/

/-- The output that the script guards, itself or by its hash. -/
def guardedBy (K : ScriptCrypto) (p2sh : Bool) (script : CScript) : CScript :=
  if p2sh then scriptHashScript (K.hashes.hash160 script) else script

def withRedeemScript (p2sh : Bool) (script : CScript) (sigs : ScriptStack) : ScriptStack :=
  if p2sh then script :: sigs else sigs

/-- The last element of the input is the redeem script, where one is asked for. -/
def HoldsRedeemScript (K : ScriptCrypto) (p2sh : Bool) (script scriptSig : CScript) : Prop :=
  p2sh = true → (inputStack K scriptSig).head? = some script

/-- The signatures that an input has. -/
def inputSigs (K : ScriptCrypto) (p2sh : Bool) (scriptSig : CScript) : ScriptStack :=
  if p2sh then (inputStack K scriptSig).tail else inputStack K scriptSig

section

variable {K : ScriptCrypto} {carrier : DataCarrier} {txTo : CTransaction} {nIn : Nat} {script : CScript}
  {keys : List Bytes} {m n : UInt8} {p2sh : Bool}

theorem HoldsRedeemScript.inputStack_eq {scriptSig : CScript} (h : HoldsRedeemScript K p2sh script scriptSig) :
    inputStack K scriptSig = withRedeemScript p2sh script (inputSigs K p2sh scriptSig) := by
  unfold withRedeemScript inputSigs
  cases p2sh with
  | false => rfl
  | true =>
    have hhead := h rfl
    cases hstack : inputStack K scriptSig with
    | nil =>
      rw [hstack] at hhead
      cases hhead
    | cons vch stack =>
      rw [hstack] at hhead
      rw [Option.some.inj hhead]
      rfl

theorem HoldsRedeemScript.script_length {scriptSig : CScript} (h : HoldsRedeemScript K p2sh script scriptSig)
    (hH : K.hashes.Sized) (hp2sh : p2sh = true) : script.length ≤ maxScriptElementSize :=
  inputStack_small hH scriptSig script (List.mem_of_mem_head? (h hp2sh))

theorem inputSigs_small (hH : K.hashes.Sized) (scriptSig : CScript) :
    ∀ sig ∈ inputSigs K p2sh scriptSig, sig.length ≤ maxScriptElementSize := by
  intro sig hsig
  refine inputStack_small hH scriptSig sig ?_
  unfold inputSigs at hsig
  split_ifs at hsig
  · exact List.mem_of_mem_tail hsig
  · exact hsig

theorem pushAll_withRedeemScript (sigs : ScriptStack) :
    pushAll (withRedeemScript p2sh script sigs) = pushAll sigs ++ (if p2sh then pushBytes script else []) := by
  unfold withRedeemScript pushAll
  cases p2sh with
  | false => rw [if_neg Bool.false_ne_true, if_neg Bool.false_ne_true, List.append_nil]
  | true =>
    rw [if_pos rfl, if_pos rfl, List.reverse_cons, List.flatMap_append, List.flatMap_singleton]

variable (hsolver : solver carrier script = ⟨true, .multiSig, [[m]] ++ keys ++ [[n]]⟩)
include hsolver

theorem solver_keys : IsMultiSig script m.toNat keys := by
  rcases solver_multiSig hsolver with ⟨m', keys', heq, hmulti⟩
  rw [List.append_assoc, List.append_assoc, List.singleton_append, List.singleton_append, List.cons.injEq,
    List.cons.injEq] at heq
  rcases heq with ⟨⟨rfl, -⟩, heq⟩
  rcases List.append_inj' heq rfl with ⟨rfl, -⟩
  exact hmulti

theorem combineSignatures_inputs (hH : K.hashes.Sized) {scriptSig1 scriptSig2 : CScript}
    (h1 : HoldsRedeemScript K p2sh script scriptSig1) (h2 : HoldsRedeemScript K p2sh script scriptSig2) :
    combineSignatures K carrier txTo nIn (guardedBy K p2sh script) scriptSig1 scriptSig2 =
      combineMultisig K txTo nIn script ([[m]] ++ keys ++ [[n]]) (inputSigs K p2sh scriptSig1)
        (inputSigs K p2sh scriptSig2) ++ (if p2sh then pushBytes script else []) := by
  rw [combineSignatures, h1.inputStack_eq, h2.inputStack_eq]
  unfold guardedBy withRedeemScript
  cases p2sh with
  | false =>
    rw [if_neg Bool.false_ne_true, if_neg Bool.false_ne_true, if_neg Bool.false_ne_true, if_neg Bool.false_ne_true,
      hsolver, List.append_nil, combineStacks]
  | true =>
    have hp2sh : isPayToScriptHash (scriptHashScript (K.hashes.hash160 script)) = true :=
      isPayToScriptHash_scriptHashScript (hH .hash160 script)
    have hne : script ≠ [] := by
      rcases (solver_keys hsolver).reads with ⟨ps, -, -, hreads⟩
      exact hreads.ne_nil
    rw [if_pos rfl, if_pos rfl, if_pos rfl, if_pos rfl, solver, if_pos hp2sh]
    simp only [combineStacks]
    rw [if_neg hne, if_neg hne, hsolver, combineStacks]

theorem combineSignatures_comm (hH : K.hashes.Sized) {scriptSig1 scriptSig2 : CScript}
    (h1 : HoldsRedeemScript K p2sh script scriptSig1) (h2 : HoldsRedeemScript K p2sh script scriptSig2) :
    combineSignatures K carrier txTo nIn (guardedBy K p2sh script) scriptSig1 scriptSig2 =
      combineSignatures K carrier txTo nIn (guardedBy K p2sh script) scriptSig2 scriptSig1 := by
  rw [combineSignatures_inputs hsolver hH h1 h2, combineSignatures_inputs hsolver hH h2 h1, combineMultisig_comm]

/-! ## Merged inputs -/

/-- Signatures that are merged for the keys, small enough to be pushed with the script. -/
structure Merged (K : ScriptCrypto) (txTo : CTransaction) (nIn : Nat) (p2sh : Bool) (script : CScript) (m : Nat)
    (keys : List Bytes) (sigs : List Bytes) (placed : List Bytes) : Prop where
  placed : Placed (sigCheck K txTo nIn script) keys sigs m placed
  small : ∀ sig ∈ sigs, sig.length ≤ maxScriptElementSize
  script_small : p2sh = true → script.length ≤ maxScriptElementSize

namespace Merged

variable {sigs placed : List Bytes}

omit hsolver in
theorem stack_length (h : Merged K txTo nIn p2sh script m.toNat keys sigs placed) :
    (multiSigStack m.toNat placed).length = m.toNat + 1 := by
  have hlen := h.placed.length
  rw [multiSigStack, List.length_append, List.length_append, List.length_replicate, List.length_reverse,
    List.length_singleton]
  omega

theorem pushable (h : Merged K txTo nIn p2sh script m.toNat keys sigs placed) :
    Pushable (withRedeemScript p2sh script (multiSigStack m.toNat placed)) := by
  have hmulti := solver_keys hsolver
  have hm := hmulti.le.trans hmulti.count
  have hstack : ∀ vch ∈ multiSigStack m.toNat placed, vch.length ≤ maxScriptElementSize := by
    intro vch hvch
    rcases List.mem_append.1 hvch with hvch | hvch
    · rw [List.eq_of_mem_replicate hvch]
      exact Nat.zero_le _
    · rcases List.mem_append.1 hvch with hvch | hvch
      · exact h.small vch (h.placed.sound vch (List.mem_reverse.1 hvch)).1
      · rw [List.mem_singleton.1 hvch]
        exact Nat.zero_le _
  have hlen := h.stack_length
  unfold withRedeemScript
  split_ifs with hp2sh
  · exact ⟨List.forall_mem_cons.2 ⟨h.script_small hp2sh, hstack⟩, by rw [List.length_cons]; omega⟩
  · exact ⟨hstack, by omega⟩

/-- The merged input is pushed as it is taken apart. -/
theorem inputStack_eq (h : Merged K txTo nIn p2sh script m.toNat keys sigs placed) :
    inputStack K (pushAll (withRedeemScript p2sh script (multiSigStack m.toNat placed))) =
      withRedeemScript p2sh script (multiSigStack m.toNat placed) :=
  (h.pushable hsolver).inputStack

theorem holds (h : Merged K txTo nIn p2sh script m.toNat keys sigs placed) :
    HoldsRedeemScript K p2sh script (pushAll (withRedeemScript p2sh script (multiSigStack m.toNat placed))) := by
  intro hp2sh
  rw [h.inputStack_eq hsolver, withRedeemScript, if_pos hp2sh]
  rfl

theorem inputSigs_eq (h : Merged K txTo nIn p2sh script m.toNat keys sigs placed) :
    inputSigs K p2sh (pushAll (withRedeemScript p2sh script (multiSigStack m.toNat placed))) =
      multiSigStack m.toNat placed := by
  rw [inputSigs, h.inputStack_eq hsolver, withRedeemScript]
  cases p2sh <;> rfl

omit hsolver in
theorem mem_stack {sig : Bytes} :
    sig ∈ multiSigStack m.toNat placed → sig ∈ placed ∨ sig = [] := by
  intro hsig
  rcases List.mem_append.1 hsig with hsig | hsig
  · exact .inr (List.eq_of_mem_replicate hsig)
  · exact (List.mem_append.1 hsig).imp List.mem_reverse.1 List.mem_singleton.1

omit hsolver in
/-- The elements that stand for missing signatures cover nothing. -/
theorem covered_stack (more : List Bytes) :
    covered (sigCheck K txTo nIn script) keys (multiSigStack m.toNat placed ++ more) =
      covered (sigCheck K txTo nIn script) keys (placed ++ more) := by
  refine covered_congr fun key _ => ?_
  constructor
  · rintro ⟨sig, hsig, hcheck⟩
    rcases List.mem_append.1 hsig with hsig | hsig
    · rcases mem_stack hsig with hsig | rfl
      · exact ⟨sig, List.mem_append_left _ hsig, hcheck⟩
      · exact absurd hcheck Bool.false_ne_true
    · exact ⟨sig, List.mem_append_right _ hsig, hcheck⟩
  · rintro ⟨sig, hsig, hcheck⟩
    rcases List.mem_append.1 hsig with hsig | hsig
    · refine ⟨sig, List.mem_append_left _ (List.mem_append_right _ (List.mem_append_left _ ?_)), hcheck⟩
      exact List.mem_reverse.2 hsig
    · exact ⟨sig, List.mem_append_right _ hsig, hcheck⟩

omit hsolver in
theorem covered_stack_self :
    covered (sigCheck K txTo nIn script) keys (multiSigStack m.toNat placed) =
      covered (sigCheck K txTo nIn script) keys placed := by
  have hstack : covered (sigCheck K txTo nIn script) keys (multiSigStack m.toNat placed ++ []) = _ := covered_stack []
  rw [List.append_nil, List.append_nil] at hstack
  exact hstack

/-- The run of the script on the merged signatures. -/
theorem evalScript (h : Merged K txTo nIn p2sh script m.toNat keys sigs placed)
    (hnotKey : ∀ sig, ∀ key ∈ keys, sigCheck K txTo nIn script sig key = true → sig ∉ keys) :
    Dobbscoin.evalScript (inputEnv K txTo nIn scriptVerifyP2SH) (multiSigStack m.toNat placed) script =
      .ok [if m.toNat ≤ (covered (sigCheck K txTo nIn script) keys sigs).length then vchTrue else vchFalse] := by
  have hmulti := solver_keys hsolver
  have hlen := h.placed.length
  have hstack := h.stack_length
  generalize hmiss : List.replicate (m.toNat - placed.length) ([] : Bytes) = missing
  have hsplit : multiSigStack m.toNat placed = (missing ++ placed.reverse) ++ [] :: [] := by
    rw [multiSigStack, hmiss, List.append_assoc]
  have hin : inOrder (sigCheck K txTo nIn script) (missing ++ placed.reverse) keys.reverse =
      decide (m.toNat ≤ (covered (sigCheck K txTo nIn script) keys sigs).length) := by
    by_cases hall : m.toNat ≤ (covered (sigCheck K txTo nIn script) keys sigs).length
    · have hnone : missing = [] := by
        rw [← hmiss, hlen, Nat.min_eq_left hall, Nat.sub_self]
        rfl
      rw [hnone, List.nil_append, decide_eq_true hall]
      exact h.placed.inOrder_reverse
    · -- The signature on top is a missing one.
      obtain ⟨d, hd⟩ : ∃ d, m.toNat - placed.length = d + 1 := ⟨m.toNat - placed.length - 1, by omega⟩
      rw [← hmiss, hd, List.replicate_succ, List.cons_append, decide_eq_false hall]
      exact inOrder_eq_false fun key _ => rfl
  have hnil : ([] : Bytes) ∉ keys := fun hmem => isKeySize_ne_nil (hmulti.sizes [] hmem) rfl
  have hdelete : ∀ sig ∈ missing ++ placed.reverse, findAndDelete script (pushBytes sig) = script := by
    intro sig hsig
    refine hmulti.findAndDelete_eq ?_
    rcases List.mem_append.1 hsig with hsig | hsig
    · rw [← hmiss] at hsig
      rw [List.eq_of_mem_replicate hsig]
      exact hnil
    · rcases (h.placed.sound sig (List.mem_reverse.1 hsig)).2 with ⟨key, hkey, hcheck⟩
      exact hnotKey sig key hkey hcheck
  have hrun : Dobbscoin.evalScript (inputEnv K txTo nIn scriptVerifyP2SH) ((missing ++ placed.reverse) ++ [] :: [])
      script = _ := hmulti.evalScript (has_p2sh K txTo nIn (by decide)) (has_p2sh K txTo nIn (by decide))
    (checkEncodings_p2sh K txTo nIn)
    (by rw [hsplit, List.length_append, List.length_singleton] at hstack; omega) (Nat.zero_le _) hdelete
  rw [hsplit, hrun]
  show Except.ok [if inOrder (sigCheck K txTo nIn script) _ _ then vchTrue else vchFalse] = _
  rw [hin]
  simp only [decide_eq_true_eq]

/-- The merged input is accepted just when there are enough keys with a signature. -/
theorem verifyScript (hH : K.hashes.Sized) (h : Merged K txTo nIn p2sh script m.toNat keys sigs placed)
    (hnotKey : ∀ sig, ∀ key ∈ keys, sigCheck K txTo nIn script sig key = true → sig ∉ keys) :
    Dobbscoin.verifyScript (inputEnv K txTo nIn scriptVerifyP2SH)
        (pushAll (withRedeemScript p2sh script (multiSigStack m.toNat placed))) (guardedBy K p2sh script) = .ok () ↔
      m.toNat ≤ (covered (sigCheck K txTo nIn script) keys sigs).length := by
  have hpush := h.pushable hsolver
  have hsig := hpush.evalScript (has_p2sh K txTo nIn (by decide))
  have hrun := h.evalScript hsolver hnotKey
  have hlen := h.stack_length
  have hmulti := solver_keys hsolver
  have hm := hmulti.le.trans hmulti.count
  have htop : checkTop [if m.toNat ≤ (covered (sigCheck K txTo nIn script) keys sigs).length then vchTrue else vchFalse] =
      .ok () ↔ m.toNat ≤ (covered (sigCheck K txTo nIn script) keys sigs).length := by
    split_ifs with hall
    · exact ⟨fun _ => hall, fun _ => rfl⟩
    · exact ⟨nofun, fun h => absurd h hall⟩
  have hflag : (inputEnv K txTo nIn scriptVerifyP2SH).has scriptVerifyP2SH = true :=
    has_p2sh K txTo nIn (by decide)
  have hsigPush : (inputEnv K txTo nIn scriptVerifyP2SH).has scriptVerifySigPushOnly = false :=
    has_p2sh K txTo nIn (by decide)
  have hdone : ∀ c : Except ScriptError Unit, (c >>= fun _ => Except.ok ()) = .ok () ↔ c = .ok () := by
    intro c
    cases c <;> exact Iff.rfl
  rw [Dobbscoin.verifyScript, hsigPush, rejectIf_of_not _ fun h => Bool.false_ne_true h.1, hsig, ok_bind, ok_bind]
  cases hp2sh : p2sh with
  | false =>
    have hnot : isPayToScriptHash script = false := by
      rw [Bool.eq_false_iff]
      intro hscript
      rw [solver, if_pos hscript, Solved.mk.injEq] at hsolver
      cases hsolver.2.1
    rw [withRedeemScript, guardedBy, if_neg Bool.false_ne_true, if_neg Bool.false_ne_true, hrun, ok_bind, hnot,
      if_neg (c := _ ∧ false = true) fun h' => Bool.false_ne_true h'.2]
    exact (hdone _).trans htop
  | true =>
    have hhash : (inputEnv K txTo nIn scriptVerifyP2SH).hashes.hash160 script = K.hashes.hash160 script := rfl
    have hlock : Dobbscoin.evalScript (inputEnv K txTo nIn scriptVerifyP2SH)
        (script :: multiSigStack m.toNat placed) _ = _ :=
      evalScript_scriptHash (has_p2sh K txTo nIn (by decide)) (hH .hash160 script) (by omega)
    have hscript : isPayToScriptHash (scriptHashScript (K.hashes.hash160 script)) = true :=
      isPayToScriptHash_scriptHashScript (hH .hash160 script)
    rw [hp2sh] at hpush
    have hpushOnly := hpush.isPushOnly
    unfold withRedeemScript guardedBy at *
    rw [if_pos rfl] at hpushOnly ⊢
    rw [if_pos rfl]
    rw [hhash] at hlock
    rw [hlock, ok_bind, hflag, hscript, if_pos ⟨rfl, rfl⟩, verifyRedeemScript, hpushOnly,
      rejectIf_of_not _ (by decide)]
    show (Dobbscoin.evalScript _ _ _ >>= checkTop) = _ ↔ _
    rw [hrun, ok_bind]
    exact htop

/-- What is merged with more signatures covers the keys that both would cover. -/
theorem take_covered (hunique : AcceptedOnce (sigCheck K txTo nIn script) keys)
    (h : Merged K txTo nIn p2sh script m.toNat keys sigs placed) (more : List Bytes) :
    (covered (sigCheck K txTo nIn script) keys
        (inputSigs K p2sh (pushAll (withRedeemScript p2sh script (multiSigStack m.toNat placed))) ++ more)).take m.toNat =
      (covered (sigCheck K txTo nIn script) keys (sigs ++ more)).take m.toNat := by
  rw [h.inputSigs_eq hsolver, covered_stack]
  exact h.placed.take_covered_append hunique more

end Merged

variable (hH : K.hashes.Sized) (hunique : AcceptedOnce (sigCheck K txTo nIn script) keys)
include hH hunique

theorem combineSignatures_merged {scriptSig1 scriptSig2 : CScript}
    (h1 : HoldsRedeemScript K p2sh script scriptSig1) (h2 : HoldsRedeemScript K p2sh script scriptSig2) :
    ∃ placed, Merged K txTo nIn p2sh script m.toNat keys
        (inputSigs K p2sh scriptSig1 ++ inputSigs K p2sh scriptSig2) placed ∧
      combineSignatures K carrier txTo nIn (guardedBy K p2sh script) scriptSig1 scriptSig2 =
        pushAll (withRedeemScript p2sh script (multiSigStack m.toNat placed)) := by
  rcases combineMultisig_placed (m := m) (n := n) hunique (inputSigs K p2sh scriptSig1) (inputSigs K p2sh scriptSig2)
    with ⟨placed, hplaced, hmerged⟩
  refine ⟨placed, ⟨hplaced, fun sig hsig => ?_, h1.script_length hH⟩, ?_⟩
  · rcases List.mem_append.1 hsig with hsig | hsig
    · exact inputSigs_small hH scriptSig1 sig hsig
    · exact inputSigs_small hH scriptSig2 sig hsig
  · rw [combineSignatures_inputs hsolver hH h1 h2, hmerged, pushAll_withRedeemScript]

/-- A merged input is merged already. -/
theorem combineSignatures_again {sigs placed : List Bytes}
    (h : Merged K txTo nIn p2sh script m.toNat keys sigs placed) :
    combineSignatures K carrier txTo nIn (guardedBy K p2sh script)
        (pushAll (withRedeemScript p2sh script (multiSigStack m.toNat placed)))
        (pushAll (withRedeemScript p2sh script (multiSigStack m.toNat placed))) =
      pushAll (withRedeemScript p2sh script (multiSigStack m.toNat placed)) := by
  have hholds := h.holds hsolver
  rcases combineSignatures_merged hsolver hH hunique hholds hholds with
    ⟨placed', hmerged, hresult⟩
  rw [hresult]
  rw [h.inputSigs_eq hsolver] at hmerged
  have hcovered : covered (sigCheck K txTo nIn script) keys
      (multiSigStack m.toNat placed ++ multiSigStack m.toNat placed) =
        covered (sigCheck K txTo nIn script) keys placed := by
    refine (covered_of_mem_iff fun sig => ?_).trans (Merged.covered_stack_self (m := m))
    rw [List.mem_append, or_self]
  have hplaced : Placed (sigCheck K txTo nIn script) keys placed m.toNat placed' := by
    rcases hmerged.placed with ⟨f, rfl, hf⟩
    rw [hcovered] at hf ⊢
    refine ⟨f, rfl, fun key hkey => ⟨?_, (hf key hkey).2⟩⟩
    rcases Merged.mem_stack ((List.mem_append.1 (hf key hkey).1).elim id id) with hmem | hnil
    · exact hmem
    · have hcheck := (hf key hkey).2
      rw [hnil] at hcheck
      exact absurd hcheck Bool.false_ne_true
  rw [h.placed.again hunique hplaced]

theorem combineSignatures_assoc {scriptSig1 scriptSig2 scriptSig3 : CScript}
    (h1 : HoldsRedeemScript K p2sh script scriptSig1) (h2 : HoldsRedeemScript K p2sh script scriptSig2)
    (h3 : HoldsRedeemScript K p2sh script scriptSig3) :
    covered (sigCheck K txTo nIn script) keys (inputSigs K p2sh
        (combineSignatures K carrier txTo nIn (guardedBy K p2sh script)
          (combineSignatures K carrier txTo nIn (guardedBy K p2sh script) scriptSig1 scriptSig2) scriptSig3)) =
      covered (sigCheck K txTo nIn script) keys (inputSigs K p2sh
        (combineSignatures K carrier txTo nIn (guardedBy K p2sh script) scriptSig1
          (combineSignatures K carrier txTo nIn (guardedBy K p2sh script) scriptSig2 scriptSig3))) := by
  rcases combineSignatures_merged hsolver hH hunique h1 h2 with ⟨p12, h12, heq12⟩
  rcases combineSignatures_merged hsolver hH hunique h2 h3 with ⟨p23, h23, heq23⟩
  rw [heq12, heq23]
  rcases combineSignatures_merged hsolver hH hunique (h12.holds hsolver) h3 with
    ⟨left, hleft, heqLeft⟩
  rcases combineSignatures_merged hsolver hH hunique h1 (h23.holds hsolver) with
    ⟨right, hright, heqRight⟩
  rw [heqLeft, heqRight, hleft.inputSigs_eq hsolver, hright.inputSigs_eq hsolver]
  -- The first keys are those of all three inputs, on both sides.
  have hcomm : ∀ sigs sigs' : List Bytes, covered (sigCheck K txTo nIn script) keys (sigs ++ sigs') =
      covered (sigCheck K txTo nIn script) keys (sigs' ++ sigs) := fun sigs sigs' =>
    covered_of_mem_iff fun sig => by rw [List.mem_append, List.mem_append, or_comm]
  have hfirst := h12.take_covered hsolver hunique (inputSigs K p2sh scriptSig3)
  have hlast := h23.take_covered hsolver hunique (inputSigs K p2sh scriptSig1)
  rw [hcomm, hcomm _ (inputSigs K p2sh scriptSig1), ← List.append_assoc, ← hfirst] at hlast
  have hsame := hleft.placed.covered_eq hunique hright.placed hlast.symm
  rw [Merged.covered_stack_self, Merged.covered_stack_self, hsame]

/-- **Merging loses no signature that is on a stack.**  For the first keys that have a signature in either input one
is placed, in the order of the keys, and nothing for the rest; the order of the inputs does not matter; what is
merged already stays; and the result is accepted just when enough keys have a signature.  Which keys are covered
does not depend on the order in which three inputs are merged. -/
theorem combineSignatures_merges (hnotKey : ∀ sig, ∀ key ∈ keys, sigCheck K txTo nIn script sig key = true → sig ∉ keys)
    (p2sh : Bool) :
    (∀ scriptSig1 scriptSig2 : CScript, HoldsRedeemScript K p2sh script scriptSig1 →
      HoldsRedeemScript K p2sh script scriptSig2 →
      let merged := combineSignatures K carrier txTo nIn (guardedBy K p2sh script) scriptSig1 scriptSig2
      let signed := covered (sigCheck K txTo nIn script) keys
        (inputSigs K p2sh scriptSig1 ++ inputSigs K p2sh scriptSig2)
      (∃ placed, merged = pushAll (withRedeemScript p2sh script (multiSigStack m.toNat placed)) ∧
        List.Forall₂ (fun sig key => (sig ∈ inputSigs K p2sh scriptSig1 ∨ sig ∈ inputSigs K p2sh scriptSig2) ∧
          sigCheck K txTo nIn script sig key = true) placed (signed.take m.toNat)) ∧
      combineSignatures K carrier txTo nIn (guardedBy K p2sh script) scriptSig2 scriptSig1 = merged ∧
      HoldsRedeemScript K p2sh script merged ∧
      combineSignatures K carrier txTo nIn (guardedBy K p2sh script) merged merged = merged ∧
      (verifyScript (inputEnv K txTo nIn scriptVerifyP2SH) merged (guardedBy K p2sh script) = .ok () ↔
        m.toNat ≤ signed.length)) ∧
    ∀ scriptSig1 scriptSig2 scriptSig3 : CScript, HoldsRedeemScript K p2sh script scriptSig1 →
      HoldsRedeemScript K p2sh script scriptSig2 → HoldsRedeemScript K p2sh script scriptSig3 →
      covered (sigCheck K txTo nIn script) keys (inputSigs K p2sh
          (combineSignatures K carrier txTo nIn (guardedBy K p2sh script)
            (combineSignatures K carrier txTo nIn (guardedBy K p2sh script) scriptSig1 scriptSig2) scriptSig3)) =
        covered (sigCheck K txTo nIn script) keys (inputSigs K p2sh
          (combineSignatures K carrier txTo nIn (guardedBy K p2sh script) scriptSig1
            (combineSignatures K carrier txTo nIn (guardedBy K p2sh script) scriptSig2 scriptSig3))) := by
  refine ⟨fun scriptSig1 scriptSig2 h1 h2 => ?_, fun _ _ _ h1 h2 h3 =>
    combineSignatures_assoc hsolver hH hunique h1 h2 h3⟩
  rcases combineSignatures_merged hsolver hH hunique h1 h2 with ⟨placed, hmerged, hresult⟩
  dsimp only
  rw [combineSignatures_comm hsolver hH h2 h1, hresult]
  refine ⟨⟨placed, rfl, ?_⟩, rfl, hmerged.holds hsolver, combineSignatures_again hsolver hH hunique hmerged,
    hmerged.verifyScript hsolver hH hnotKey⟩
  exact hmerged.placed.forall₂.imp fun sig key h => ⟨List.mem_append.1 h.1, h.2⟩

end

/-- The key whose secret is 1. -/
def unitKey : Bytes :=
  [0x02, 0x79, 0xbe, 0x66, 0x7e, 0xf9, 0xdc, 0xbb, 0xac, 0x55, 0xa0, 0x62, 0x95, 0xce, 0x87, 0x0b, 0x07, 0x02, 0x9b,
   0xfc, 0xdb, 0x2d, 0xce, 0x28, 0xd9, 0x59, 0xf2, 0x81, 0x5b, 0x16, 0xf8, 0x17, 0x98]

/-- A signature of the hash 1 with it. -/
def unitSig : Bytes :=
  [0x30, 0x44, 0x02, 0x20, 0x2f, 0x8b, 0xde, 0x4d, 0x1a, 0x07, 0x20, 0x93, 0x55, 0xb4, 0xa7, 0x25, 0x0a, 0x5c, 0x51,
   0x28, 0xe8, 0x8b, 0x84, 0xbd, 0xdc, 0x61, 0x9a, 0xb7, 0xcb, 0xa8, 0xd5, 0x69, 0xb2, 0x40, 0xef, 0xe4, 0x02, 0x20,
   0x5c, 0xb0, 0xd3, 0x8a, 0x2d, 0xfe, 0x93, 0x15, 0xbb, 0xa8, 0xab, 0x5e, 0xfd, 0xed, 0x89, 0x5d, 0xb5, 0xc3, 0xa4,
   0x36, 0x4d, 0x3c, 0xba, 0xbf, 0xf0, 0xcb, 0xfb, 0x23, 0x2f, 0xa2, 0x50, 0x86]

def unitCrypto : ScriptCrypto where
  hashes := emptyHashes
  hash := fun _ => 0
  verify := fun key hash sig => key == unitKey && hash == 1 && sig == unitSig

/-- Its only output is missing, so that the hash of type `SIGHASH_SINGLE` is 1. -/
def unitTx : CTransaction where
  nVersion := 1
  vin := [⟨⟨0, 0⟩, [], 0⟩]
  vout := []
  nLockTime := 0

/-- `OP_1 <key> OP_1 OP_CHECKMULTISIG`. -/
def unitScript : CScript :=
  0x51 :: (pushBytes unitKey ++ [0x51, 0xae])

theorem unit_accepted : AcceptedOnce (sigCheck unitCrypto unitTx 0 unitScript) [unitKey] := by
  intro sig key hkey key' hkey' _ _
  rw [List.mem_singleton.1 hkey, List.mem_singleton.1 hkey']

theorem unit_notKey : ∀ sig, ∀ key ∈ [unitKey], sigCheck unitCrypto unitTx 0 unitScript sig key = true → sig ∉ [unitKey] := by
  intro sig key hkey hcheck hsig
  rw [List.mem_singleton.1 hkey, List.mem_singleton.1 hsig] at hcheck
  exact absurd hcheck (by decide)

theorem unit_solver : solver .default unitScript = ⟨true, .multiSig, [[1]] ++ [unitKey] ++ [[1]]⟩ := by
  decide

/-- An input with a placeholder, and one with a signature. -/
theorem combineSignatures_merges_unit :
    verifyScript (inputEnv unitCrypto unitTx 0 scriptVerifyP2SH)
      (combineSignatures unitCrypto .default unitTx 0 unitScript [0x00, 0x00]
        (0x00 :: pushBytes (unitSig ++ [sighashSingle]))) unitScript = .ok () := by
  have hmerges := (combineSignatures_merges (m := 1) (n := 1) unit_solver emptyHashes_sized unit_accepted unit_notKey
    false).1 [0x00, 0x00] (0x00 :: pushBytes (unitSig ++ [sighashSingle])) nofun nofun
  exact hmerges.2.2.2.2.2 (by decide)

set_option maxRecDepth 20000 in
/-- Behind a push that is too large for the stack a signature is not reached. -/
theorem combineSignatures_longPush :
    solver .default unitScript = ⟨true, .multiSig, [[1]] ++ [unitKey] ++ [[1]]⟩ ∧
      AcceptedOnce (sigCheck unitCrypto unitTx 0 unitScript) [unitKey] ∧
      (∀ sig, ∀ key ∈ [unitKey], sigCheck unitCrypto unitTx 0 unitScript sig key = true → sig ∉ [unitKey]) ∧
      sigCheck unitCrypto unitTx 0 unitScript (unitSig ++ [sighashSingle]) unitKey = true ∧
      combineSignatures unitCrypto .default unitTx 0 unitScript
        (pushBytes (List.replicate 521 0) ++ pushBytes (unitSig ++ [sighashSingle])) [] = [0x00, 0x00] ∧
      verifyScript (inputEnv unitCrypto unitTx 0 scriptVerifyP2SH) [0x00, 0x00] unitScript = .error .evalFalse :=
  ⟨unit_solver, unit_accepted, unit_notKey, by decide, by decide, by decide⟩

end Dobbscoin
