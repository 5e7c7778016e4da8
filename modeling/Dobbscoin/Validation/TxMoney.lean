import Dobbscoin.Coins.Supply

/-!
# The money a transaction moves

A transaction that `CheckInputs` accepts pays its outputs and its fee out of the coins it spends.  Its
inputs are different from each other, so they are worth no more than all there is, and none of the sums
over them leaves the 64-bit range.
-/

namespace Dobbscoin

open Guard

variable {v : CoinsView} {tx : CTransaction} {ins : List CTxIn} {n : Int}

variable {V : ValidationEnv} {H : Crypto} {m : BlockMap} {nHeight : Nat}

/-! ## Spending the inputs -/

/-- What the output an input refers to is worth. -/
def CoinsView.valueOf (v : CoinsView) (txin : CTxIn) : Int :=
  ((v.outputAt txin.prevout).map fun o => o.nValue.toInt).getD 0

def CoinsView.valueIn (v : CoinsView) (ins : List CTxIn) : Int :=
  (ins.map v.valueOf).sum

/-- Every input finds its output. -/
def CoinsView.Available (v : CoinsView) (ins : List CTxIn) : Prop :=
  ∀ txin ∈ ins, (v.outputAt txin.prevout).isSome = true

theorem CoinsView.Available.head {txin : CTxIn} {rest : List CTxIn}
    (h : v.Available (txin :: rest)) : ∃ o, v.outputAt txin.prevout = some o :=
  Option.isSome_iff_exists.1 (h txin List.mem_cons_self)

theorem CoinsView.Available.tail {txin : CTxIn} {rest : List CTxIn}
    (h : v.Available (txin :: rest)) : v.Available rest :=
  fun i hi => h i (List.mem_cons_of_mem _ hi)

theorem CoinsView.available_of_haveInputs
    (hcb : tx.isCoinBase = false) (h : v.haveInputs tx = true) : v.Available tx.vin := by
  simp only [haveInputs, hcb, Bool.false_or] at h
  exact fun txin hin => List.all_eq_true.1 h txin hin

/-- An unspent output of a view in range is in range. -/
theorem CoinsView.InRange.outputAt (h : v.InRange) {out : COutPoint} {o : CTxOut}
    (ho : v.outputAt out = some o) : moneyRange o.nValue.toInt := by
  rw [CoinsView.outputAt_eq] at ho
  rcases CCoins.output_eq_some.1 ho with ⟨hn, hnull⟩
  exact h.entry out.hash o (List.mem_of_getElem? hn) hnull

theorem CoinsView.InRange.valueOf_nonneg (h : v.InRange) (txin : CTxIn) :
    0 ≤ v.valueOf txin := by
  unfold CoinsView.valueOf
  cases ho : v.outputAt txin.prevout with
  | none => simp
  | some o => simpa using (h.outputAt ho).1

theorem CoinsView.InRange.valueIn_nonneg (h : v.InRange) (ins : List CTxIn) :
    0 ≤ v.valueIn ins := by
  apply List.sum_nonneg
  intro x hx
  rcases List.mem_map.1 hx with ⟨txin, -, rfl⟩
  exact h.valueOf_nonneg txin

/-- Spending one output does not touch another. -/
theorem CoinsView.outputAt_of_spend {spent out : COutPoint} {c' : CCoins}
    {undo : CTxInUndo} (h : (v.entry spent.hash).spend spent.n.toNat = some (c', undo))
    (hne : out ≠ spent) : (v.set spent.hash c').outputAt out = v.outputAt out := by
  rw [CoinsView.outputAt_set, output_of_spend h]
  by_cases hhash : out.hash = spent.hash
  · have hn : ¬ out.n.toNat = spent.n.toNat := by
      intro hc
      apply hne
      cases out
      cases spent
      simp_all [UInt32.toNat_inj]
    rw [if_pos hhash, if_neg hn, ← hhash, CoinsView.outputAt_eq]
  · rw [if_neg hhash]

theorem CoinsView.supply_spend {txin : CTxIn} {c' : CCoins} {undo : CTxInUndo}
    (h : (v.entry txin.prevout.hash).spend txin.prevout.n.toNat = some (c', undo)) :
    (v.set txin.prevout.hash c').supply = v.supply - v.valueOf txin := by
  rcases CCoins.spend_spec h with ⟨o, ho, -, -⟩
  have hvalue : v.valueOf txin = o.nValue.toInt := by
    simp [valueOf, CoinsView.outputAt_eq, ho]
  rw [supply_set, value_spend h ho, CoinsView.value_entry, hvalue]
  ring

theorem exists_spend_of_outputAt {out : COutPoint} {o : CTxOut}
    (h : v.outputAt out = some o) :
    ∃ c' undo, (v.entry out.hash).spend out.n.toNat = some (c', undo) := by
  rw [CoinsView.outputAt_eq] at h
  rcases CCoins.output_eq_some.1 h with ⟨hn, hnull⟩
  simp [CCoins.spend, hn, hnull]

/-- Inputs that are there and different from each other can be spent, and their value is gone. -/
theorem spendInputs_of_available (h : v.Available ins)
    (hnodup : (ins.map CTxIn.prevout).Nodup) :
    ∃ v' undos, spendInputs v ins = .ok (v', undos) ∧ v'.supply = v.supply - v.valueIn ins := by
  induction ins generalizing v with
  | nil => exact ⟨v, [], rfl, by simp [CoinsView.valueIn]⟩
  | cons txin rest ih =>
    rcases List.nodup_cons.1 hnodup with ⟨hnew, hrest⟩
    rcases h.head with ⟨o, ho⟩
    rcases exists_spend_of_outputAt ho with ⟨c', undo, hspend⟩
    -- The other inputs name other outputs, so they are still there.
    have hsame : ∀ i ∈ rest,
        (v.set txin.prevout.hash c').outputAt i.prevout = v.outputAt i.prevout := by
      intro i hi
      apply CoinsView.outputAt_of_spend hspend
      intro heq
      exact hnew (heq ▸ List.mem_map_of_mem hi)
    have havail : (v.set txin.prevout.hash c').Available rest := by
      intro i hi
      rw [hsame i hi]
      exact h.tail i hi
    have hvalue : (v.set txin.prevout.hash c').valueIn rest = v.valueIn rest := by
      unfold CoinsView.valueIn CoinsView.valueOf
      congr 1
      exact List.map_congr_left fun i hi => by rw [hsame i hi]
    rcases ih havail hrest with ⟨v', undos, hrun, hsupply⟩
    refine ⟨v', undo :: undos, ?_, ?_⟩
    · simp [spendInputs, hspend, hrun, bind, Except.bind]
    · rw [hsupply, CoinsView.supply_spend hspend, hvalue]
      simp only [CoinsView.valueIn, List.map_cons, List.sum_cons]
      ring

/-- The inputs of a transaction are worth no more than all there is. -/
theorem CoinsView.InRange.valueIn_le (hv : v.InRange)
    (h : v.Available ins) (hnodup : (ins.map CTxIn.prevout).Nodup) : v.valueIn ins ≤ v.supply := by
  rcases spendInputs_of_available h hnodup with ⟨v', undos, hrun, hsupply⟩
  have hv' : v'.InRange := spendInputs_keeps (fun _ _ _ _ _ hw hs => hw.spend hs) hrun hv
  have hnonneg := hv'.supply_nonneg
  omega

/-! ## The sums of one transaction -/

theorem valueIn_cons (v : CoinsView) (txin : CTxIn) (rest : List CTxIn) :
    v.valueIn (txin :: rest) = v.valueOf txin + v.valueIn rest := by
  simp [CoinsView.valueIn]

theorem fits64_of (hlow : 0 ≤ n) (hhigh : n < 2 ^ 63) : fits64 n = .ok n := by
  apply fits64_eq_ok.2
  exact ⟨⟨by omega, hhigh⟩, rfl⟩

/-- `GetValueIn` is the value of the inputs while that is no more than 64 bits hold. -/
theorem addValuesIn_eq (hv : v.InRange) (h : v.Available ins)
    (hn : 0 ≤ n) (hfit : n + v.valueIn ins < 2 ^ 63) :
    addValuesIn v n ins = .ok (n + v.valueIn ins) := by
  induction ins generalizing n with
  | nil => simp [addValuesIn, CoinsView.valueIn]
  | cons txin rest ih =>
    rcases h.head with ⟨o, ho⟩
    have hvalue : v.valueOf txin = o.nValue.toInt := by simp [CoinsView.valueOf, ho]
    have hnonneg := hv.valueOf_nonneg txin
    have hrest := hv.valueIn_nonneg rest
    rw [valueIn_cons, ← add_assoc] at hfit ⊢
    have hsum : 0 ≤ n + v.valueOf txin := add_nonneg hn hnonneg
    have hstep := ih h.tail hsum hfit
    rw [addValuesIn, getOutputFor_of_outputAt ho]
    simp only [bind, Except.bind, ← hvalue, fits64_of hsum (by omega)]
    exact hstep

theorem addValuesIn_ok {n k : Int}
    (hok : addValuesIn v n ins = .ok k) : k = n + v.valueIn ins := by
  induction ins generalizing n with
  | nil =>
    simp only [addValuesIn, Except.ok.injEq] at hok
    simp [CoinsView.valueIn, hok]
  | cons txin rest ih =>
    cases ho : v.outputAt txin.prevout with
    | none => simp [addValuesIn, CoinsView.getOutputFor, ho] at hok
    | some o =>
      simp only [addValuesIn, getOutputFor_of_outputAt ho, bind_eq_ok, fits64_eq_ok] at hok
      rcases hok with ⟨_, hout, s, ⟨-, rfl⟩, hrest⟩
      obtain rfl := Except.ok.inj hout
      have hvalue : v.valueOf txin = o.nValue.toInt := by simp [CoinsView.valueOf, ho]
      rw [ih hrest, valueIn_cons, hvalue, add_assoc]

theorem getValueIn_ok (hcb : tx.isCoinBase = false)
    (hok : v.getValueIn tx = .ok n) : n = v.valueIn tx.vin := by
  simp only [CoinsView.getValueIn, hcb, Bool.false_eq_true, if_false] at hok
  rw [addValuesIn_ok hok, zero_add]

/-- `GetValueOut` cannot overflow: each value is in range, and so is every sum it goes on from. -/
theorem addValuesOut_ne_overflow {outs : List CTxOut} (h : ∀ o ∈ outs, moneyRange o.nValue.toInt)
    (hn : moneyRange n) : addValuesOut n outs ≠ .error .overflow := by
  induction outs generalizing n with
  | nil => exact fun hc => by cases hc
  | cons o rest ih =>
    have hmax : maxMoney = 1000000000000000000 := rfl
    have ho := h o List.mem_cons_self
    have hfits : fits64 (n + o.nValue.toInt) = .ok (n + o.nValue.toInt) := by
      apply fits64_of
      · exact add_nonneg hn.1 ho.1
      · have := hn.2
        have := ho.2
        omega
    rw [addValuesOut, hfits]
    apply bind_ne_error (by simp)
    intro a ha
    obtain rfl := Except.ok.inj ha
    apply bind_ne_error (rejectIf_ne_error (by simp))
    intro _ hok
    rw [rejectIf_eq_ok, not_or, not_not, not_not] at hok
    exact ih (fun p hp => h p (List.mem_cons_of_mem _ hp)) hok.2

theorem addValuesOut_ok {outs : List CTxOut} {n k : Int} (h : addValuesOut n outs = .ok k) :
    k = n + (outs.map fun o => o.nValue.toInt).sum := by
  induction outs generalizing n with
  | nil =>
    simp only [addValuesOut, Except.ok.injEq] at h
    simp [h]
  | cons o rest ih =>
    simp only [addValuesOut, bind_eq_ok, fits64_eq_ok, exists_unit] at h
    rcases h with ⟨s, ⟨-, rfl⟩, -, hrest⟩
    rw [ih hrest, List.map_cons, List.sum_cons, add_assoc]

theorem CTransaction.Checked.getValueOut_ne_overflow (h : tx.Checked) :
    tx.getValueOut ≠ .error .overflow :=
  addValuesOut_ne_overflow h.values ⟨le_refl 0, by decide⟩

theorem getValueOut_ok (h : tx.getValueOut = .ok n) :
    n = tx.valueOut := by
  rw [addValuesOut_ok h, zero_add]
  rfl

/-- What the loop of `CheckInputs` reads is the output the input refers to. -/
theorem coins_of_outputAt {out : COutPoint} {o : CTxOut}
    (h : v.outputAt out = some o) :
    ∃ coins, v.coins out.hash = some coins ∧ coins.vout.getD out.n.toNat CTxOut.null = o := by
  unfold CoinsView.outputAt at h
  cases hc : v.coins out.hash with
  | none => simp [hc] at h
  | some coins =>
    simp only [hc] at h
    split_ifs at h
    exact ⟨coins, rfl, by simp [List.getD, h]⟩

/-- `CheckInputs` adds up the same values as `GetValueIn`. -/
theorem checkInputValues_ok {nSpendHeight : Int}
    (h : v.Available ins) {n k : Int} (hok : checkInputValues v nSpendHeight n ins = .ok k) :
    k = n + v.valueIn ins := by
  induction ins generalizing n with
  | nil =>
    simp only [checkInputValues, Except.ok.injEq] at hok
    simp [CoinsView.valueIn, hok]
  | cons txin rest ih =>
    rcases h.head with ⟨o, ho⟩
    rcases coins_of_outputAt ho with ⟨coins, hcoins, hget⟩
    simp only [checkInputValues, hcoins, hget, bind_eq_ok, fits64_eq_ok, exists_unit] at hok
    rcases hok with ⟨-, s, ⟨-, rfl⟩, -, hrest⟩
    have hvalue : v.valueOf txin = o.nValue.toInt := by simp [CoinsView.valueOf, ho]
    rw [ih h.tail hrest, valueIn_cons, hvalue, add_assoc]

theorem checkInputValues_ne_overflow (hv : v.InRange) {nSpendHeight : Int}
    (h : v.Available ins) (hn : 0 ≤ n)
    (hfit : n + v.valueIn ins < 2 ^ 63) :
    checkInputValues v nSpendHeight n ins ≠ .error .overflow := by
  induction ins generalizing n with
  | nil => exact fun hc => by cases hc
  | cons txin rest ih =>
    rcases h.head with ⟨o, ho⟩
    rcases coins_of_outputAt ho with ⟨coins, hcoins, hget⟩
    have hvalue : v.valueOf txin = o.nValue.toInt := by simp [CoinsView.valueOf, ho]
    have hnonneg := hv.valueOf_nonneg txin
    have hrest := hv.valueIn_nonneg rest
    rw [valueIn_cons, ← add_assoc] at hfit
    have hsum : 0 ≤ n + v.valueOf txin := add_nonneg hn hnonneg
    rw [checkInputValues]
    simp only [hcoins, hget, ← hvalue]
    apply bind_ne_error (rejectIf_ne_error (by simp))
    intro _ _
    rw [fits64_of hsum (by omega)]
    apply bind_ne_error (by simp)
    intro a ha
    obtain rfl := Except.ok.inj ha
    apply bind_ne_error (rejectIf_ne_error (by simp))
    intro _ _
    exact ih h.tail hsum hfit

/-! ## One transaction -/

/-- A transaction that passes pays its outputs out of its inputs. -/
theorem checkInputs_pays {view : CoinsView} {fScriptChecks : Bool} {flags : UInt32}
    {checks : List ScriptCheck} (hcb : tx.isCoinBase = false)
    (h : checkInputs V m tx view fScriptChecks flags = .ok checks) :
    tx.valueOut ≤ view.valueIn tx.vin := by
  simp only [checkInputs, hcb, Bool.false_eq_true, if_false, bind_eq_ok, exists_unit,
    rejectIf_eq_ok, Bool.not_eq_false, fits64_eq_ok, not_lt] at h
  rcases h with ⟨hinputs, nValueIn, hin, nValueOut, hout, hpays, -⟩
  rw [getValueOut_ok hout, checkInputValues_ok (view.available_of_haveInputs hcb hinputs) hin,
    zero_add] at hpays
  exact hpays

theorem scriptChecks_ne_overflow {view : CoinsView} {flags : UInt32} (nIn : Nat)
    (ins : List CTxIn) : scriptChecks view tx flags nIn ins ≠ .error .overflow := by
  induction ins generalizing nIn with
  | nil => exact fun hc => by cases hc
  | cons txin rest ih =>
    apply bind_ne_error
    · unfold CoinsView.getOutputFor
      cases view.outputAt txin.prevout <;> simp
    · intro o _
      exact bind_ne_error (ih _) fun _ _ hc => by cases hc

theorem addP2SHSigOps_ne_overflow (view : CoinsView) (ins : List CTxIn) :
    addP2SHSigOps view ins ≠ .error .overflow := by
  induction ins with
  | nil => exact fun hc => by cases hc
  | cons txin rest ih =>
    apply bind_ne_error
    · unfold CoinsView.getOutputFor
      cases view.outputAt txin.prevout <;> simp
    · intro o _
      exact bind_ne_error ih fun _ _ hc => by cases hc

theorem getP2SHSigOpCount_ne_overflow (tx : CTransaction) (view : CoinsView) :
    getP2SHSigOpCount tx view ≠ .error .overflow := by
  unfold getP2SHSigOpCount
  split_ifs
  · exact fun hc => by cases hc
  · exact addP2SHSigOps_ne_overflow view tx.vin

theorem ScriptCheck.runNow_ne_overflow (check : ScriptCheck) :
    check.runNow V ≠ .error .overflow := by
  unfold ScriptCheck.runNow
  cases check.run V with
  | ok u => exact fun hc => by cases hc
  | error reason =>
    simp only
    split_ifs
    · split <;> exact fun hc => by cases hc
    · exact fun hc => by cases hc

theorem spendInputs_ne_overflow (view : CoinsView) (ins : List CTxIn) :
    spendInputs view ins ≠ .error .overflow := by
  induction ins generalizing view with
  | nil => exact fun hc => by cases hc
  | cons txin rest ih =>
    unfold spendInputs
    split
    · exact fun hc => by cases hc
    · exact bind_ne_error (ih _) fun _ _ hc => by cases hc

theorem updateCoins_ne_overflow (tx : CTransaction) (view : CoinsView) :
    updateCoins H tx view nHeight ≠ .error .overflow := by
  apply bind_ne_error
  · split_ifs
    · exact fun hc => by cases hc
    · exact spendInputs_ne_overflow view tx.vin
  · exact fun _ _ hc => by cases hc

/-- The sums of `CheckInputs` stay between 0 and what there is. -/
theorem checkInputs_ne_overflow {view : CoinsView} {fScriptChecks : Bool}
    {flags : UInt32} (hview : view.InRange) (htx : tx.Checked) (hfit : view.supply < 2 ^ 63) :
    checkInputs V m tx view fScriptChecks flags ≠ .error .overflow := by
  unfold checkInputs
  by_cases hcb : tx.isCoinBase = true
  · rw [if_pos hcb]
    exact fun hc => by cases hc
  rw [if_neg hcb]
  apply bind_ne_error (rejectIf_ne_error (by simp))
  intro _ hinputs
  have havail : view.Available tx.vin := by
    apply view.available_of_haveInputs (by simpa using hcb)
    simpa using hinputs
  have hle := hview.valueIn_le havail htx.nodup
  apply bind_ne_error
  · exact checkInputValues_ne_overflow hview havail (le_refl 0) (by omega)
  intro nValueIn hin
  apply bind_ne_error htx.getValueOut_ne_overflow
  intro nValueOut hout
  have hvalueIn := checkInputValues_ok havail hin
  have hvalueOut := getValueOut_ok hout
  have hout0 := htx.valueOut.1
  apply bind_ne_error (rejectIf_ne_error (by simp))
  intro _ hpays
  rw [rejectIf_eq_ok, not_lt] at hpays
  have hfee : fits64 (nValueIn - nValueOut) = .ok (nValueIn - nValueOut) :=
    fits64_of (by omega) (by omega)
  rw [hfee]
  apply bind_ne_error (by simp)
  intro nTxFee hTxFee
  obtain rfl := Except.ok.inj hTxFee
  apply bind_ne_error (rejectIf_ne_error (by simp))
  intro _ _
  rw [zero_add, hfee]
  apply bind_ne_error (by simp)
  intro nFees _
  apply bind_ne_error (rejectIf_ne_error (by simp))
  intro _ _
  cases fScriptChecks with
  | false => exact fun hc => by cases hc
  | true =>
    simp only [if_true]
    apply bind_ne_error (scriptChecks_ne_overflow 0 tx.vin)
    intro checks _
    split_ifs
    · exact fun hc => by cases hc
    · apply bind_ne_error
      · exact checkEach_ne_error fun check _ => check.runNow_ne_overflow
      · exact fun _ _ hc => by cases hc

/-- What a transaction does to the money: its inputs go, and its outputs come at the most. -/
theorem updateCoins_supply {v v' : CoinsView} {undo : CTxUndo} (hv : v.InRange)
    (htx : tx.Checked) (hinputs : v.haveInputs tx = true)
    (h : updateCoins H tx v nHeight = .ok (v', undo)) :
    v'.InRange ∧
      v'.supply ≤ v.supply - (if tx.isCoinBase then 0 else v.valueIn tx.vin) + tx.valueOut := by
  have hspend : ∀ (w : CoinsView) txid n c' u, w.InRange →
      (w.entry txid).spend n = some (c', u) → (w.set txid c').InRange :=
    fun _ _ _ _ _ hw hs => hw.spend hs
  have hset : ∀ w : CoinsView, w.InRange →
      (w.set (tx.getHash H) (CCoins.fromTx tx nHeight)).InRange :=
    fun w hw => hw.set (inRange_fromTx htx)
  refine ⟨updateCoins_keeps hspend hset h hv, ?_⟩
  rcases updateCoins_ok h with ⟨v₁, hspent, rfl⟩
  -- An old entry under this id would be overwritten, which only takes money away.
  have hmade : v₁.InRange → (v₁.set (tx.getHash H) (CCoins.fromTx tx nHeight)).supply ≤
      v₁.supply + tx.valueOut := by
    intro hv₁
    have hle : (CCoins.fromTx tx nHeight).value ≤ tx.valueOut := value_fromTx_le htx
    have hold := hv₁.valueAt_nonneg (tx.getHash H)
    rw [CoinsView.supply_set]
    omega
  cases hcb : tx.isCoinBase with
  | true =>
    simp only [hcb, if_true, Except.ok.injEq, Prod.mk.injEq] at hspent
    obtain rfl : v = v₁ := hspent.1
    simpa using hmade hv
  | false =>
    have hv₁ : v₁.InRange := by
      simp only [hcb, Bool.false_eq_true, if_false] at hspent
      exact spendInputs_keeps hspend hspent hv
    have hmade := hmade hv₁
    simp only [hcb, Bool.false_eq_true, if_false] at hspent ⊢
    rcases spendInputs_of_available (v.available_of_haveInputs hcb hinputs) htx.nodup with
      ⟨w, undos, hrun, hsupply⟩
    rw [hspent] at hrun
    obtain ⟨rfl, -⟩ := Prod.mk.inj (Except.ok.inj hrun)
    omega

end Dobbscoin
