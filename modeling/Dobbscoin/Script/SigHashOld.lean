import Mathlib.Data.List.GetD
import Dobbscoin.Script.Building

/-!
# The original signature hash

`SignatureHashOld` of `sighash_tests.cpp` edits a copy of the transaction and serializes it.
`CTransactionSignatureSerializer` writes the same bytes from the transaction itself.
-/

namespace Dobbscoin

open ByteCodec

/-! ## SignatureHashOld -/

namespace SignatureHashOld

/-- Blank out the scripts of the inputs; the one that is signed gets `scriptCode`. -/
def setScripts (vin : List CTxIn) (nIn : Nat) (scriptCode : CScript) : List CTxIn :=
  (vin.map fun txin => { txin with scriptSig := [] }).modify nIn fun txin => { txin with scriptSig := scriptCode }

/-- Let the others update at will. -/
def freeSequences (vin : List CTxIn) (nIn : Nat) : List CTxIn :=
  vin.mapIdx fun i txin => if i ≠ nIn then { txin with nSequence := 0 } else txin

/-- Only lock in the output at `nOut`. -/
def lockOutput (vout : List CTxOut) (nOut : Nat) : List CTxOut :=
  (vout.take (nOut + 1)).mapIdx fun i txout => if i < nOut then CTxOut.null else txout

/-- `vin[0] = vin[nIn]`, then `vin.resize(1)`. -/
def onlyInput (vin : List CTxIn) (nIn : Nat) : List CTxIn :=
  (vin.set 0 (vin.getD nIn ⟨⟨0, 0⟩, [], 0⟩)).take 1

end SignatureHashOld

open SignatureHashOld

/-- The copy of the transaction that `SignatureHashOld` serializes. -/
def signatureHashOldTx (scriptCode : CScript) (txTo : CTransaction) (nIn : Nat) (nHashType : Int32) :
    Option CTransaction :=
  if nIn ≥ txTo.vin.length then none
  else
    let scriptCode := CScript.findAndDelete scriptCode [UInt8.ofNat opCodeSeparator]
    let txTmp := { txTo with vin := setScripts txTo.vin nIn scriptCode }
    let txTmp :=
      if nHashType &&& 0x1f = byteToInt sighashNone then
        some { txTmp with vin := freeSequences txTmp.vin nIn, vout := [] }
      else if nHashType &&& 0x1f = byteToInt sighashSingle then
        if nIn ≥ txTmp.vout.length then none
        else some { txTmp with vin := freeSequences txTmp.vin nIn, vout := lockOutput txTmp.vout nIn }
      else some txTmp
    txTmp.map fun txTmp =>
      if nHashType &&& byteToInt sighashAnyoneCanPay ≠ 0 then { txTmp with vin := onlyInput txTmp.vin nIn }
      else txTmp

def signatureHashOldMessage (scriptCode : CScript) (txTo : CTransaction) (nIn : Nat) (nHashType : Int32) :
    Option Bytes :=
  (signatureHashOldTx scriptCode txTo nIn nHashType).map fun txTmp =>
    CTransaction.codec.put txTmp ++ int32Codec.put nHashType

def signatureHashOld (K : ScriptCrypto) (scriptCode : CScript) (txTo : CTransaction) (nIn : Nat)
    (nHashType : Int32) : UInt256 :=
  K.hashMessage (signatureHashOldMessage scriptCode txTo nIn nHashType)

/-! ## The script -/

namespace CScript

/-- A script that is read to its end can be read on from behind each opcode. -/
theorem Reads.rest {pc pc' data : Bytes} {opcode : Nat} (h : Reads pc [])
    (hop : getOp pc = some (opcode, data, pc')) : Reads pc' [] := by
  cases h with
  | here => cases hop
  | next op more =>
    rw [op, Option.some.injEq, Prod.mk.injEq, Prod.mk.injEq] at hop
    rw [← hop.2.2]
    exact more

theorem Reads.op {b : UInt8} {pc : Bytes} (h : Reads (b :: pc) []) :
    ∃ opcode data pc', getOp (b :: pc) = some (opcode, data, pc') := by
  cases h with
  | next op more => exact ⟨_, _, _, op⟩

/-- In a script that is read to its end, both passes find the code separators that `FindAndDelete` does. -/
theorem withoutSeparators_eq {fuel : Nat} {pc : Bytes} (h : Reads pc []) (hfuel : pc.length ≤ fuel) :
    (withoutSeparators fuel pc).2 = findAndDeleteLoop [UInt8.ofNat opCodeSeparator] fuel pc ∧
    (withoutSeparators fuel pc).1 + (withoutSeparators fuel pc).2.length = pc.length := by
  induction fuel generalizing pc with
  | zero =>
    rw [List.length_eq_zero_iff.1 (Nat.le_zero.1 hfuel)]
    exact ⟨rfl, rfl⟩
  | succ fuel ih =>
    cases pc with
    | nil => exact ⟨rfl, rfl⟩
    | cons b pc =>
      rcases h.op with ⟨opcode, data, pc', hop⟩
      have hlt := getOp_length hop
      have hhead := getOp_head hop
      have hle : pc'.length ≤ fuel := by omega
      rcases ih (h.rest hop) hle with ⟨hbytes, hcount⟩
      by_cases hsep : opcode = opCodeSeparator
      · -- The separator is the one byte that goes.
        obtain rfl : b = UInt8.ofNat opCodeSeparator := by
          rw [← hsep, ← hhead, UInt8.ofNat_toNat]
        have hread := getOp_byte (n := opCodeSeparator) (by decide) (by decide) pc
        rw [hop, Option.some.injEq, Prod.mk.injEq, Prod.mk.injEq] at hread
        obtain rfl := hread.2.2
        have hprefix : [UInt8.ofNat opCodeSeparator].isPrefixOf (UInt8.ofNat opCodeSeparator :: pc') = true := by
          rw [List.isPrefixOf_iff_prefix]
          exact List.prefix_append [_] pc'
        rw [withoutSeparators, hop, findAndDeleteLoop, if_pos hprefix]
        dsimp only
        rw [if_pos hsep]
        dsimp only
        refine ⟨hbytes, ?_⟩
        rw [List.length_cons]
        omega
      · have hprefix : ¬ [UInt8.ofNat opCodeSeparator].isPrefixOf (b :: pc) = true := by
          rw [List.isPrefixOf_iff_prefix]
          rintro ⟨rest, heq⟩
          rw [List.singleton_append, List.cons.injEq] at heq
          apply hsep
          rw [← hhead, ← heq.1]
          rfl
        have htake := congrArg List.length (getOp_take hop)
        rw [withoutSeparators, hop, findAndDeleteLoop, if_neg hprefix, hop]
        dsimp only
        rw [if_neg hsep]
        rw [List.length_append] at htake
        refine ⟨by rw [hbytes], ?_⟩
        rw [List.length_append]
        omega

end CScript

theorem putAll_byte (bs : Bytes) : putAll byte bs = bs := by
  induction bs with
  | nil => rfl
  | cons b bs ih =>
    rw [putAll, ih]
    rfl

namespace CTransactionSignatureSerializer

variable (t : CTransactionSignatureSerializer)

theorem serializeScriptCode_eq (h : CScript.Reads t.scriptCode []) :
    t.serializeScriptCode =
      scriptCodec.put (CScript.findAndDelete t.scriptCode [UInt8.ofNat opCodeSeparator]) := by
  rcases CScript.withoutSeparators_eq h (Nat.le_refl _) with ⟨hbytes, hcount⟩
  have hput : ∀ s : CScript, scriptCodec.put s = writeCompactSize s.length ++ s := by
    intro s
    calc
      scriptCodec.put s = writeCompactSize s.length ++ putAll byte s := rfl
      _ = writeCompactSize s.length ++ s := by rw [putAll_byte]
  have hsize : t.scriptCode.length - (CScript.withoutSeparators t.scriptCode.length t.scriptCode).1 =
      (CScript.withoutSeparators t.scriptCode.length t.scriptCode).2.length := by omega
  rw [CScript.findAndDelete, if_neg (List.cons_ne_nil _ _), hput, ← hbytes, serializeScriptCode]
  dsimp only
  rw [hsize]

/-! ## The transaction -/

/-- An input as the serializer writes it, with the script that it writes. -/
def input (scriptCode : CScript) (nInput : Nat) : CTxIn :=
  let nInput := if t.fAnyoneCanPay then t.nIn else nInput
  let txin := t.txTo.vin.getD nInput ⟨⟨0, 0⟩, [], 0⟩
  { prevout := txin.prevout
    scriptSig := if nInput ≠ t.nIn then [] else scriptCode
    nSequence := if nInput ≠ t.nIn ∧ (t.fHashSingle ∨ t.fHashNone) then 0 else txin.nSequence }

def output (nOutput : Nat) : CTxOut :=
  if t.fHashSingle = true ∧ nOutput ≠ t.nIn then CTxOut.null else t.txTo.vout.getD nOutput CTxOut.null

/-- The transaction that the serializer writes. -/
def written (scriptCode : CScript) : CTransaction :=
  let nInputs := if t.fAnyoneCanPay then 1 else t.txTo.vin.length
  let nOutputs := if t.fHashNone then 0 else if t.fHashSingle then t.nIn + 1 else t.txTo.vout.length
  { t.txTo with
    vin := (List.range nInputs).map (t.input scriptCode)
    vout := (List.range nOutputs).map t.output }

theorem serializeInput_eq {scriptCode : CScript} (h : t.serializeScriptCode = scriptCodec.put scriptCode)
    (nInput : Nat) : t.serializeInput nInput = CTxIn.codec.put (t.input scriptCode nInput) := by
  have hput : ∀ txin : CTxIn, CTxIn.codec.put txin =
      COutPoint.codec.put txin.prevout ++ (scriptCodec.put txin.scriptSig ++ uint32Codec.put txin.nSequence) :=
    fun _ => rfl
  have hzero : leBytes 4 0 = uint32Codec.put 0 := rfl
  unfold serializeInput input
  dsimp only
  rw [hput, h, hzero, List.append_assoc]
  congr 2
  · split_ifs <;> rfl
  · split_ifs <;> rfl

theorem putAll_map {α β : Type} (c : ByteCodec β) (f : α → β) (l : List α) :
    putAll c (l.map f) = l.flatMap fun a => c.put (f a) := by
  induction l with
  | nil => rfl
  | cons a l ih => rw [List.map_cons, putAll, ih, List.flatMap_cons]

theorem serialize_eq {scriptCode : CScript} (h : t.serializeScriptCode = scriptCodec.put scriptCode) :
    t.serialize = CTransaction.codec.put (t.written scriptCode) := by
  have hput : ∀ tx : CTransaction, CTransaction.codec.put tx = int32Codec.put tx.nVersion ++
      ((writeCompactSize tx.vin.length ++ putAll CTxIn.codec tx.vin) ++
        ((writeCompactSize tx.vout.length ++ putAll CTxOut.codec tx.vout) ++ uint32Codec.put tx.nLockTime)) :=
    fun _ => rfl
  have hinputs : t.serializeInput = fun i => CTxIn.codec.put (t.input scriptCode i) :=
    funext (t.serializeInput_eq h)
  have houtputs : t.serializeOutput = fun i => CTxOut.codec.put (t.output i) := rfl
  unfold serialize written
  dsimp only
  rw [hput]
  dsimp only
  rw [putAll_map, putAll_map, List.length_map, List.length_map, List.length_range, List.length_range, hinputs,
    houtputs, List.append_assoc, List.append_assoc]

end CTransactionSignatureSerializer

/-! ## The copy -/

/-- A list that is edited index by index. -/
theorem eq_map_range {α β : Type} {l : List α} {l' : List β} {f : Nat → α → β} (d : α)
    (h : ∀ i, l'[i]? = l[i]?.map (f i)) : l' = (List.range l.length).map fun i => f i (l.getD i d) := by
  apply List.ext_getElem?
  intro i
  rw [h, List.getElem?_map]
  by_cases hi : i < l.length
  · rw [List.getElem?_range hi, List.getElem?_eq_getElem hi, Option.map_some, Option.map_some,
      List.getD_eq_getElem _ _ hi]
  · rw [List.getElem?_eq_none (Nat.not_lt.1 hi), List.getElem?_eq_none (by rw [List.length_range]; omega)]
    rfl

namespace SignatureHashOld

/-- An input that is edited: its script, and with `free` the sequence number of one that is not signed. -/
def edit (nIn : Nat) (scriptCode : CScript) (free : Bool) (i : Nat) (txin : CTxIn) : CTxIn :=
  { prevout := txin.prevout
    scriptSig := if i ≠ nIn then [] else scriptCode
    nSequence := if i ≠ nIn ∧ free = true then 0 else txin.nSequence }

theorem setScripts_getElem? (vin : List CTxIn) (nIn : Nat) (scriptCode : CScript) (i : Nat) :
    (setScripts vin nIn scriptCode)[i]? = vin[i]?.map (edit nIn scriptCode false i) := by
  rw [setScripts, List.getElem?_modify, List.getElem?_map, Option.map_eq_map, Option.map_map]
  congr 1
  funext txin
  by_cases hi : nIn = i
  · simp only [Function.comp_apply, edit, hi, ne_eq, not_true_eq_false, if_false, if_true, false_and]
  · simp only [Function.comp_apply, edit, ne_eq, hi, Ne.symm hi, not_false_eq_true, if_true, and_false,
      Bool.false_eq_true, if_false]

theorem freeSequences_getElem? (vin : List CTxIn) (nIn : Nat) (scriptCode : CScript) (i : Nat) :
    (freeSequences (setScripts vin nIn scriptCode) nIn)[i]? = vin[i]?.map (edit nIn scriptCode true i) := by
  rw [freeSequences, List.getElem?_mapIdx, setScripts_getElem?, Option.map_map]
  congr 1
  funext txin
  by_cases hi : i = nIn
  · simp only [Function.comp_apply, edit, hi, ne_eq, not_true_eq_false, if_false, false_and]
  · simp only [Function.comp_apply, edit, hi, ne_eq, not_false_eq_true, if_true, and_true]

theorem lockOutput_eq {vout : List CTxOut} {nOut : Nat} (h : nOut < vout.length) :
    lockOutput vout nOut =
      (List.range (nOut + 1)).map fun i => if i ≠ nOut then CTxOut.null else vout.getD i CTxOut.null := by
  have hlen : (vout.take (nOut + 1)).length = nOut + 1 := by
    rw [List.length_take, Nat.min_eq_left h]
  have hlist : lockOutput vout nOut = (List.range (vout.take (nOut + 1)).length).map fun i =>
      if i < nOut then CTxOut.null else (vout.take (nOut + 1)).getD i CTxOut.null :=
    eq_map_range (f := fun i txout => if i < nOut then CTxOut.null else txout) CTxOut.null fun i => by
      rw [lockOutput, List.getElem?_mapIdx]
  rw [hlist, hlen]
  apply List.map_congr_left
  intro i hi
  rw [List.mem_range] at hi
  rcases Nat.lt_or_eq_of_le (Nat.lt_succ_iff.1 hi) with hlt | heq
  · rw [if_pos hlt, if_pos (Nat.ne_of_lt hlt)]
  · subst heq
    rw [if_neg (Nat.lt_irrefl i), if_neg (not_not_intro rfl), List.getD_eq_getElem _ _ (by omega),
      List.getD_eq_getElem _ _ h, List.getElem_take]

theorem onlyInput_eq {vin : List CTxIn} {nIn : Nat} (h : nIn < vin.length) :
    onlyInput vin nIn = [vin.getD nIn ⟨⟨0, 0⟩, [], 0⟩] := by
  cases vin with
  | nil => exact absurd h (Nat.not_lt_zero _)
  | cons txin vin => rfl

end SignatureHashOld

namespace CTransactionSignatureSerializer

/-- The inputs of the copy are the inputs that the serializer writes. -/
theorem written_vin (t : CTransactionSignatureSerializer) (scriptCode : CScript) {vin : List CTxIn}
    (hn : t.nIn < t.txTo.vin.length)
    (h : ∀ i, vin[i]? = t.txTo.vin[i]?.map (edit t.nIn scriptCode (t.fHashSingle || t.fHashNone) i)) :
    (t.written scriptCode).vin = if t.fAnyoneCanPay then onlyInput vin t.nIn else vin := by
  have hlist := eq_map_range ⟨⟨0, 0⟩, [], 0⟩ h
  have hinput : ∀ i, edit t.nIn scriptCode (t.fHashSingle || t.fHashNone) i
      (t.txTo.vin.getD i ⟨⟨0, 0⟩, [], 0⟩) = { t with fAnyoneCanPay := false }.input scriptCode i := by
    intro i
    simp only [edit, input, Bool.or_eq_true, Bool.false_eq_true, if_false]
  cases hany : t.fAnyoneCanPay with
  | false =>
    have hflag : { t with fAnyoneCanPay := false } = t := by rw [← hany]
    rw [if_neg Bool.false_ne_true, hlist, written, hany]
    dsimp only
    rw [if_neg Bool.false_ne_true]
    apply List.map_congr_left
    intro i _
    rw [hinput, hflag]
  | true =>
    have hlen : t.nIn < vin.length := by
      rw [hlist, List.length_map, List.length_range]
      exact hn
    rw [if_pos rfl, onlyInput_eq hlen, written, hany]
    dsimp only
    rw [if_pos rfl, List.range_one, List.map_singleton, hlist, List.getD_eq_getElem _ _ (by rw [← hlist]; exact hlen),
      List.getElem_map, List.getElem_range, hinput]
    simp only [input, hany, if_true, Bool.false_eq_true, if_false]

end CTransactionSignatureSerializer

/-- The copy is the transaction that the serializer writes. -/
theorem signatureHashOldTx_eq (scriptCode : CScript) (txTo : CTransaction) (nIn : Nat) (nHashType : Int32) :
    signatureHashOldTx scriptCode txTo nIn nHashType =
      if nIn ≥ txTo.vin.length then none
      else if nHashType &&& 0x1f = byteToInt sighashSingle ∧ nIn ≥ txTo.vout.length then none
      else some ((CTransactionSignatureSerializer.ofHashType txTo scriptCode nIn nHashType).written
        (CScript.findAndDelete scriptCode [UInt8.ofNat opCodeSeparator])) := by
  generalize ht : CTransactionSignatureSerializer.ofHashType txTo scriptCode nIn nHashType = t
  generalize hcode : CScript.findAndDelete scriptCode [UInt8.ofNat opCodeSeparator] = code
  have hne : byteToInt sighashNone ≠ byteToInt sighashSingle := by decide
  have htxTo : t.txTo = txTo := by rw [← ht]; rfl
  have hnIn : t.nIn = nIn := by rw [← ht]; rfl
  have hany : (nHashType &&& byteToInt sighashAnyoneCanPay ≠ 0) = (t.fAnyoneCanPay = true) := by
    rw [← ht, CTransactionSignatureSerializer.ofHashType, bne_iff_ne]
  have hsingle : t.fHashSingle = (nHashType &&& 0x1f == byteToInt sighashSingle) := by rw [← ht]; rfl
  have hnone : t.fHashNone = (nHashType &&& 0x1f == byteToInt sighashNone) := by rw [← ht]; rfl
  unfold signatureHashOldTx
  by_cases hin : nIn ≥ txTo.vin.length
  · rw [if_pos hin, if_pos hin]
  rw [if_neg hin, if_neg hin, hcode]
  dsimp only
  -- Inputs and outputs of the copy, one by one.
  have hcopy : ∀ (vin : List CTxIn) (vout : List CTxOut),
      (∀ i, vin[i]? = txTo.vin[i]?.map (edit nIn code (t.fHashSingle || t.fHashNone) i)) →
      (t.written code).vout = vout →
      (some { txTo with vin := vin, vout := vout }).map (fun txTmp =>
        if nHashType &&& byteToInt sighashAnyoneCanPay ≠ 0 then { txTmp with vin := onlyInput txTmp.vin nIn }
        else txTmp) = some (t.written code) := by
    intro vin vout hvin hvout
    have hwritten := t.written_vin code (by rw [htxTo, hnIn]; exact Nat.not_le.1 hin)
      (by rw [htxTo, hnIn]; exact hvin)
    have hrest : t.written code = { txTo with vin := (t.written code).vin, vout := (t.written code).vout } := by
      rw [← htxTo]
      rfl
    rw [hrest, hwritten, hvout, Option.map_some, hnIn]
    simp only [hany]
    by_cases hflag : t.fAnyoneCanPay = true
    · rw [if_pos hflag, if_pos hflag]
    · rw [if_neg hflag, if_neg hflag]
  by_cases h2 : nHashType &&& 0x1f = byteToInt sighashNone
  · have h3 : ¬ nHashType &&& 0x1f = byteToInt sighashSingle := fun h => hne (h2.symm.trans h)
    have hflag : t.fHashNone = true := by rw [hnone, h2, beq_self_eq_true]
    rw [if_pos h2, if_neg fun h => h3 h.1]
    apply hcopy
    · intro i
      rw [hflag, Bool.or_true]
      exact freeSequences_getElem? txTo.vin nIn code i
    · rw [CTransactionSignatureSerializer.written, hflag]
      rfl
  have hflag2 : t.fHashNone = false := by rw [hnone, beq_eq_false_iff_ne]; exact h2
  rw [if_neg h2]
  by_cases h3 : nHashType &&& 0x1f = byteToInt sighashSingle
  · have hflag : t.fHashSingle = true := by rw [hsingle, h3, beq_self_eq_true]
    rw [if_pos h3]
    by_cases hout : nIn ≥ txTo.vout.length
    · rw [if_pos hout, if_pos ⟨h3, hout⟩]
      rfl
    rw [if_neg hout, if_neg fun h => hout h.2]
    apply hcopy
    · intro i
      rw [hflag, Bool.true_or]
      exact freeSequences_getElem? txTo.vin nIn code i
    · rw [lockOutput_eq (Nat.not_le.1 hout), CTransactionSignatureSerializer.written, hflag, hflag2]
      dsimp only
      rw [if_neg Bool.false_ne_true, if_pos rfl, hnIn]
      apply List.map_congr_left
      intro i _
      rw [CTransactionSignatureSerializer.output, hflag, htxTo, hnIn]
      simp only [true_and]
  · have hflag : t.fHashSingle = false := by rw [hsingle, beq_eq_false_iff_ne]; exact h3
    rw [if_neg h3, if_neg fun h => h3 h.1]
    apply hcopy
    · intro i
      rw [hflag, hflag2, Bool.or_false]
      exact setScripts_getElem? txTo.vin nIn code i
    · rw [CTransactionSignatureSerializer.written, hflag, hflag2]
      dsimp only
      rw [if_neg Bool.false_ne_true, if_neg Bool.false_ne_true, htxTo]
      have hall : txTo.vout = (List.range txTo.vout.length).map fun i => txTo.vout.getD i CTxOut.null :=
        eq_map_range CTxOut.null fun i => by rw [Option.map_id']
      refine Eq.trans (List.map_congr_left fun i _ => ?_) hall.symm
      rw [CTransactionSignatureSerializer.output, hflag, htxTo]
      simp only [Bool.false_eq_true, false_and, if_false]

/-- **The in-place hash is the original one**: for a script that is read to its end both hash the same bytes,
or return the same constant. -/
theorem signatureHashMessage_eq_old {scriptCode : CScript} (h : CScript.Reads scriptCode []) (txTo : CTransaction)
    (nIn : Nat) (nHashType : Int32) :
    signatureHashMessage scriptCode txTo nIn nHashType = signatureHashOldMessage scriptCode txTo nIn nHashType := by
  rw [signatureHashOldMessage, signatureHashOldTx_eq, signatureHashMessage]
  split_ifs
  · rfl
  · rfl
  · have hscript := (CTransactionSignatureSerializer.ofHashType txTo scriptCode nIn nHashType).serializeScriptCode_eq h
    rw [Option.map_some, CTransactionSignatureSerializer.serialize_eq _ hscript]
    rfl

end Dobbscoin
