import Dobbscoin.Script.Bounds
import Dobbscoin.Script.MultiSigRuns
import Mathlib.Data.List.Lex
import Mathlib.Data.List.Sort

/-!
# Combining signatures

`CombineSignatures` of `script/sign.cpp`.  It takes two `scriptSig`s of one input by the stacks that they leave,
with the top of each first.
-/

namespace Dobbscoin

open CScript Matching

/-- `PushAll`, from the bottom of the stack on. -/
def pushAll (values : ScriptStack) : CScript :=
  values.reverse.flatMap pushBytes

/-- The order of vectors, which is that of the set of all signatures. -/
def vectorLe (v w : Bytes) : Prop :=
  v.map UInt8.toNat ≤ w.map UInt8.toNat

instance : DecidableRel vectorLe := fun v w =>
  inferInstanceAs (Decidable (v.map UInt8.toNat ≤ w.map UInt8.toNat))

/-- `allsigs.insert`, of what is not empty. -/
def insertSig (allsigs : List Bytes) (v : Bytes) : List Bytes :=
  if v = [] ∨ v ∈ allsigs then allsigs else allsigs.orderedInsert vectorLe v

def allSigs (sigs1 sigs2 : ScriptStack) : List Bytes :=
  sigs2.reverse.foldl insertSig (sigs1.reverse.foldl insertSig [])

/-- The loop that builds the merged script: the signatures of the first keys that have one. -/
def mergedSigs (sigs : List (Bytes × Bytes)) : List Bytes → Nat → List Bytes
  | [], _ => []
  | _ :: _, 0 => []
  | pubKey :: pubKeys, n + 1 =>
    match sigs.lookup pubKey with
    | some sig => sig :: mergedSigs sigs pubKeys n
    | none => mergedSigs sigs pubKeys (n + 1)

section

variable (K : ScriptCrypto) (carrier : DataCarrier) (txTo : CTransaction) (nIn : Nat)

/-- `CombineMultisig`.  The solutions hold both numbers of the script, and the keys between them. -/
def combineMultisig (scriptPubKey : CScript) (vSolutions : List Bytes) (sigs1 sigs2 : ScriptStack) : CScript :=
  let nSigsRequired := ((vSolutions.head?.getD []).getD 0 0).toNat
  let pubKeys := vSolutions.tail.dropLast
  let sigs := (allSigs sigs1 sigs2).foldl
    (assign (fun sig pubKey => TransactionSignatureChecker.checkSig K txTo nIn sig pubKey scriptPubKey) pubKeys) []
  let merged := mergedSigs sigs pubKeys nSigsRequired
  -- One element more is popped than there are signatures.
  [0x00] ++ merged.flatMap pushBytes ++ List.replicate (nSigsRequired - merged.length) 0x00

/-- `CombineSignatures` of two stacks; a redeem script is what both of them have on top. -/
def combineStacks (scriptPubKey : CScript) (txType : TxnOutType) (vSolutions : List Bytes) (sigs1 sigs2 : ScriptStack) :
    CScript :=
  match txType with
  | .nonstandard | .nullData => if sigs1.length ≥ sigs2.length then pushAll sigs1 else pushAll sigs2
  | .pubKey | .pubKeyHash => if sigs1.getLast?.getD [] = [] then pushAll sigs2 else pushAll sigs1
  | .scriptHash =>
    match sigs1 with
    | [] => pushAll sigs2
    | spk :: rest1 =>
      if spk = [] then pushAll sigs2
      else
        match sigs2 with
        | [] => pushAll (spk :: rest1)
        | back2 :: rest2 =>
          if back2 = [] then pushAll (spk :: rest1)
          else
            let solved := solver carrier spk
            combineStacks spk solved.typeRet solved.vSolutionsRet rest1 rest2 ++ pushBytes spk
  | .multiSig => combineMultisig K txTo nIn scriptPubKey vSolutions sigs1 sigs2

/-- What both `scriptSig`s are evaluated in: no signature is good. -/
def combineEnv : ScriptEnv :=
  ⟨K.hashes, ⟨fun _ _ _ => false, fun _ => false⟩, scriptVerifyStrictEnc⟩

/-- The stack that is taken for a `scriptSig`, also for one that fails. -/
def inputStack (scriptSig : CScript) : ScriptStack :=
  evalScriptStack (combineEnv K) [] scriptSig

/-- `CombineSignatures`. -/
def combineSignatures (scriptPubKey scriptSig1 scriptSig2 : CScript) : CScript :=
  let solved := solver carrier scriptPubKey
  combineStacks K carrier txTo nIn scriptPubKey solved.typeRet solved.vSolutionsRet (inputStack K scriptSig1)
    (inputStack K scriptSig2)

end

end Dobbscoin

/-!
# Stacks of inputs

What a `scriptSig` leaves for the signatures to be taken from, and the scripts that push it again.
-/

namespace Dobbscoin

open Guard CScript

/-! ## What is left is small -/

section

variable {Q : Bytes → Prop} {E : ScriptEnv} {s : EvalState}

theorem leftByOp_allOf (hQ : OfSmall Q) (hs : AllOf Q s.stack) (op : Op) : AllOf Q (leftByOp E s op) := by
  have hdrop : ∀ i, AllOf Q (s.stack.drop i) := fun i => hs.of_subset (List.drop_subset i _)
  cases op with
  | pick roll =>
    rw [leftByOp]
    split
    · exact hdrop 1
    · exact hs
  | equal verify =>
    rw [leftByOp]
    split_ifs
    · exact hs
    · exact (hdrop 2).cons hQ.vchFalse
  | binary op =>
    rw [leftByOp]
    split
    · exact (hdrop 2).cons (hQ.serialize _)
    · exact hs
  | checkSig verify =>
    rw [leftByOp]
    split
    · split
      · exact (hdrop 2).cons hQ.vchFalse
      · exact hs
    · exact hs
  | checkMultiSig verify =>
    rw [leftByOp]
    split
    · exact hs
    · rename_i i _ _
      cases hstack : s.stack.drop i with
      | nil => exact List.forall_mem_nil _
      | cons dummy stack =>
        have hall := hdrop i
        rw [hstack] at hall
        dsimp only
        split_ifs
        · exact hall
        · exact (hall.of_subset (List.subset_cons_self _ _)).cons hQ.vchFalse
  | _ => exact hs

theorem leftStack_allOf (hH : E.hashes.Sized) (hQ : OfSmall Q) (hs : SoundStacks Q s) : AllOf Q (s.leftStack E) := by
  unfold EvalState.leftStack
  cases CScript.getOp s.pc with
  | none => exact hs.stack
  | some op =>
    rcases op with ⟨opcode, vchPushValue, pc⟩
    dsimp only
    by_cases hreject : vchPushValue.length > maxScriptElementSize ∨
        (opcode > op16 ∧ (if opcode > op16 then s.nOpCount + 1 else s.nOpCount) > 201) ∨ isDisabledOpcode opcode = true
    · rw [if_pos hreject]
      exact hs.stack
    rw [if_neg hreject]
    rcases not_or.1 hreject with ⟨hsize, hmore⟩
    have hcount : (if opcode > op16 then s.nOpCount + 1 else s.nOpCount) ≤ 201 := by
      by_cases hbig : opcode > op16
      · exact Nat.not_lt.1 fun hlt => hmore (.inl ⟨hbig, hlt⟩)
      · rw [if_neg hbig]
        exact hs.opCount
    generalize (if opcode > op16 then s.nOpCount + 1 else s.nOpCount) = nOpCount at hcount
    have hs' : SoundStacks Q { s with pc := pc, nOpCount := nOpCount } := ⟨hs.stack, hs.altstack, hcount⟩
    have hexec := execute_keeps E hH hQ hs' opcode (hQ _ (Nat.not_lt.1 hsize))
    cases hrun : execute E { s with pc := pc, nOpCount := nOpCount } opcode vchPushValue with
    | ok t => exact (hexec.of_ok hrun).stack
    | error e =>
      dsimp only
      split_ifs
      · exact hs.stack
      · exact leftByOp_allOf hQ hs'.stack _

theorem evalLoopStack_allOf (hH : E.hashes.Sized) (hQ : OfSmall Q) (fuel : Nat) (hs : SoundStacks Q s) :
    AllOf Q (evalLoopStack E fuel s) := by
  induction fuel generalizing s with
  | zero => exact hs.stack
  | succ fuel ih =>
    rw [evalLoopStack]
    split_ifs
    · exact hs.stack
    · cases hstep : s.step E with
      | ok t => exact ih ((step_keeps E hH hQ hs).of_ok hstep).1
      | error e => exact leftStack_allOf hH hQ hs

end

variable {K : ScriptCrypto}

theorem inputStack_small (hH : K.hashes.Sized) (scriptSig : CScript) :
    ∀ vch ∈ inputStack K scriptSig, vch.length ≤ maxScriptElementSize := by
  unfold inputStack evalScriptStack
  split_ifs
  · exact List.forall_mem_nil _
  · exact evalLoopStack_allOf hH (fun _ h => h) _ (.start (List.forall_mem_nil _) scriptSig)

/-! ## Stacks that are pushed -/

/-- The stack can be pushed: its elements, and all of them together, are small enough. -/
structure Pushable (stack : ScriptStack) : Prop where
  small : ∀ vch ∈ stack, vch.length ≤ maxScriptElementSize
  count : stack.length ≤ 18

namespace Pushable

variable {stack : ScriptStack} (h : Pushable stack)
include h

theorem length_pushAll : (pushAll stack).length ≤ 10000 := by
  have hflat : ∀ values : List Bytes, (∀ vch ∈ values, vch.length ≤ maxScriptElementSize) →
      (values.flatMap pushBytes).length ≤ 525 * values.length := by
    intro values hvalues
    induction values with
    | nil => exact Nat.le_refl 0
    | cons value values ih =>
      have hvalue := hvalues value List.mem_cons_self
      have hpush := length_pushBytes_le value
      have hrest := ih fun v hv => hvalues v (List.mem_cons_of_mem _ hv)
      unfold maxScriptElementSize at hvalue
      rw [List.flatMap_cons, List.length_append, List.length_cons]
      omega
  have hlen := hflat stack.reverse fun vch hvch => h.small vch (List.mem_reverse.1 hvch)
  have hcount := h.count
  rw [List.length_reverse] at hlen
  unfold pushAll
  omega

theorem evalScript {E : ScriptEnv} (hminimal : E.has scriptVerifyMinimalData = false) :
    Dobbscoin.evalScript E [] (pushAll stack) = .ok stack := by
  have hcount := h.count
  have hrun := evalScript_pushes hminimal stack.reverse
    (fun vch hvch => h.small vch (List.mem_reverse.1 hvch)) (by rw [List.length_reverse]; omega) h.length_pushAll
  rw [List.reverse_reverse] at hrun
  exact hrun

theorem inputStack : inputStack K (pushAll stack) = stack := by
  have hminimal : (combineEnv K).has scriptVerifyMinimalData = false := by
    show hasFlag scriptVerifyStrictEnc scriptVerifyMinimalData = false
    decide
  exact evalScriptStack_of_ok (h.evalScript hminimal)

theorem isPushOnly : CScript.isPushOnly (pushAll stack) = true := by
  have hlen := h.length_pushAll
  have hreads := ReadsAs.done.pushes stack.reverse (by rw [List.append_nil]; exact hlen.trans_lt (by decide))
  rw [List.append_nil, List.append_nil] at hreads
  refine ReadsAs.isPushOnly hreads fun op hop => ?_
  rcases List.mem_map.1 hop with ⟨vch, -, rfl⟩
  have hpush := pushOpcode_le vch.length
  unfold opPushData4 at hpush
  unfold pushOf op16
  omega

end Pushable

/-! ## Script hashes -/

/-- `OP_HASH160 <hash> OP_EQUAL`. -/
def scriptHashScript (hash : Bytes) : CScript :=
  0xa9 :: (pushBytes hash ++ [0x87])

theorem isPayToScriptHash_scriptHashScript {hash : Bytes} (h : hash.length = 20) :
    isPayToScriptHash (scriptHashScript hash) = true := by
  have hlast : (hash ++ [0x87]).getD 20 0 = 0x87 := by
    rw [List.getD_eq_getElem?_getD, List.getElem?_append_right (by omega), h]
    rfl
  have hpush : pushBytes hash = 0x14 :: hash := by
    rw [pushBytes, h, if_pos (by decide)]
    rfl
  rw [scriptHashScript, hpush, List.cons_append]
  simp only [isPayToScriptHash, List.length_cons, List.length_append, h, List.length_nil, List.getD_cons_succ,
    List.getD_cons_zero, hlast]
  decide

/-- The redeem script on top has the hash. -/
theorem evalScript_scriptHash {E : ScriptEnv} (hminimal : E.has scriptVerifyMinimalData = false) {script : Bytes}
    (h : (E.hashes.hash160 script).length = 20) {stack : ScriptStack} (hcount : stack.length ≤ 900) :
    evalScript E (script :: stack) (scriptHashScript (E.hashes.hash160 script)) = .ok (vchTrue :: stack) := by
  generalize hhash : E.hashes.hash160 script = hash at h
  have hlen := length_pushBytes_le hash
  have hreads : ReadsAs (scriptHashScript hash) ((0xa9, []) :: ([hash].map pushOf ++ [(0x87, [])])) := by
    have hend : ReadsAs [0x87] [(0x87, [])] := ReadsAs.done.byte (show opPushData4 < 0x87 by decide) (by decide)
    have hpush := hend.pushes [hash] (by
      rw [List.flatMap_cons, List.flatMap_nil, List.append_nil, List.length_append]
      show _ + 1 < _
      omega)
    rw [List.flatMap_cons, List.flatMap_nil, List.append_nil] at hpush
    exact hpush.byte (show opPushData4 < 0xa9 by decide) (by decide)
  have hsize : (scriptHashScript hash).length ≤ 10000 := by
    rw [scriptHashScript, List.length_cons, List.length_append]
    show _ + 1 + 1 ≤ _
    omega
  rcases hreads.next_inv with ⟨pc1, hop1, hreads1⟩
  have hstep1 := step_operation (E := E) (s := .start (script :: stack) (scriptHashScript hash))
    (t := ⟨pc1, scriptHashScript hash, hash :: stack, [], [], 1⟩) hop1 (by decide) (by decide)
    (by show 0 < 201; decide) rfl (by rw [← hhash]; rfl) (by show stack.length + 1 + 0 ≤ 1000; omega)
  rcases visits_pushes hminimal (s := ⟨pc1, scriptHashScript hash, hash :: stack, [], [], 1⟩) hreads1
    (fun p hp => by
      rw [List.mem_map] at hp
      rcases hp with ⟨v, hv, rfl⟩
      obtain rfl := List.mem_singleton.1 hv
      exact ⟨pushOpcode_le _, h.le.trans (by decide)⟩)
    rfl (by show stack.length + 1 + 0 + 1 ≤ 1000; omega) with ⟨pc2, hreads2, hvisits2⟩
  rcases hreads2.next_inv with ⟨pc3, hop3, hreads3⟩
  cases hreads3
  have hequal : runEqual ⟨[], scriptHashScript hash, hash :: hash :: stack, [], [], 1 + 1⟩ false =
      .ok ⟨[], scriptHashScript hash, vchTrue :: stack, [], [], 1 + 1⟩ := by
    rw [runEqual, needStack_of_le (by show 2 ≤ stack.length + 1 + 1; omega), ok_bind,
      stacktop_of_drop (show (hash :: hash :: stack).drop 1 = hash :: stack from rfl), ok_bind,
      stacktop_of_drop (show (hash :: hash :: stack).drop 0 = hash :: hash :: stack from rfl), ok_bind, beq_self_eq_true]
    rfl
  have hstep3 := step_operation (E := E) (s := ⟨pc2, scriptHashScript hash, hash :: hash :: stack, [], [], 1⟩) hop3
    (by decide) (by decide) (by show 1 < 201; decide) rfl hequal (by show stack.length + 1 + 0 ≤ 1000; omega)
  have hvisits : Visits E (.start (script :: stack) (scriptHashScript hash)) _ :=
    .next hreads.ne_nil hstep1 (hvisits2.trans (.next hreads2.ne_nil hstep3 (.here _)))
  exact evalScript_of_visits hsize hvisits rfl rfl

end Dobbscoin
