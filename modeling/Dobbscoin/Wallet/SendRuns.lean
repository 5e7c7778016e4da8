import Dobbscoin.Wallet.CreateTransaction

/-!
# The repetitions of CreateTransaction

Every repetition starts with a higher fee than the one before, up to `maxTxFee`, so there is a last one; the key for
the change is reserved or in the pool all the time; and the transaction pays what is asked for.
-/

namespace Dobbscoin

variable {nValue : CAmount} {keys : CWallet} {s : PassState}

/-! ## Fees -/

theorem toInt_toInt64_div (x : UInt64) : (x / 1000).toInt64.toInt = (x.toNat / 1000 : Nat) := by
  have hdiv : (x / 1000).toNat = x.toNat / 1000 := UInt64.toNat_div x 1000
  have hlt := UInt64.toNat_lt x
  have hconv : (x / 1000).toInt64.toInt = ((x / 1000).toNat : Int).bmod (2 ^ 64) := BitVec.toInt_eq_toNat_bmod _
  rw [hconv, hdiv]
  exact Int.bmod_eq_of_le (by omega) (by omega)

/-- A fee is not negative, and it is an amount when the rate is one. -/
theorem CFeeRate.getFee_range (rate : CFeeRate) (nSize : Nat) :
    0 ≤ (rate.getFee nSize).toInt ∧
      (moneyRange rate.nSatoshisPerK.toInt → (rate.getFee nSize).toInt ≤ maxMoney) := by
  rw [CFeeRate.getFee]
  by_cases hzero : (rate.nSatoshisPerK.toUInt64 * UInt64.ofNat nSize / 1000).toInt64 = 0 ∧ rate.nSatoshisPerK > 0
  · rw [if_pos hzero]
    exact ⟨(Int64.lt_iff_toInt_lt.1 hzero.2).le, fun hrange => hrange.2⟩
  · rw [if_neg hzero, toInt_toInt64_div]
    have hlt := UInt64.toNat_lt (rate.nSatoshisPerK.toUInt64 * UInt64.ofNat nSize)
    have hmoney : maxMoney = 1000000000000000000 := rfl
    exact ⟨Int.natCast_nonneg _, fun _ => by omega⟩

theorem FeeSettings.getMinimumFee_range (fees : FeeSettings) (estimate : CFeeRate) (nTxBytes : Nat) :
    0 ≤ (fees.getMinimumFee estimate nTxBytes).toInt ∧
      (fees.getMinimumFee estimate nTxBytes).toInt ≤ fees.maxTxFee.toInt := by
  -- Whatever the fee is before the last line, it is not below the one for the relay.
  have hlast : ∀ nFeeNeeded : CAmount, 0 ≤ nFeeNeeded.toInt →
      0 ≤ (if nFeeNeeded > fees.maxTxFee then fees.maxTxFee else nFeeNeeded).toInt ∧
        (if nFeeNeeded > fees.maxTxFee then fees.maxTxFee else nFeeNeeded).toInt ≤ fees.maxTxFee.toInt := by
    intro nFeeNeeded hnonneg
    by_cases hmax : nFeeNeeded > fees.maxTxFee
    · rw [if_pos hmax]
      exact ⟨fees.max_range.1, le_rfl⟩
    · rw [if_neg hmax]
      exact ⟨hnonneg, Int64.le_iff_toInt_le.1 (Int64.not_lt.1 hmax)⟩
  have hfloor : ∀ nFeeNeeded : CAmount, 0 ≤ (if nFeeNeeded < fees.minRelayTxFee.getFee nTxBytes then
      fees.minRelayTxFee.getFee nTxBytes else nFeeNeeded).toInt := by
    intro nFeeNeeded
    have hrelay := (fees.minRelayTxFee.getFee_range nTxBytes).1
    by_cases hless : nFeeNeeded < fees.minRelayTxFee.getFee nTxBytes
    · rw [if_pos hless]
      exact hrelay
    · rw [if_neg hless]
      exact hrelay.trans (Int64.le_iff_toInt_le.1 (Int64.not_lt.1 hless))
  exact hlast _ (hfloor _)

/-- Dust is worth less than three fees. -/
theorem CTxOut.isDust_iff (fees : FeeSettings) (txout : CTxOut) :
    txout.isDust fees.minRelayTxFee = true ↔
      txout.nValue.toInt < 3 * (fees.minRelayTxFee.getFee ((CTxOut.codec.put txout).length + 148)).toInt := by
  rcases fees.minRelayTxFee.getFee_range ((CTxOut.codec.put txout).length + 148) with ⟨hnonneg, hle⟩
  have hmoney : maxMoney = 1000000000000000000 := rfl
  have hmax := hle fees.relay_range
  have hthree : (3 : CAmount).toInt = 3 := rfl
  have hmul : (3 * fees.minRelayTxFee.getFee ((CTxOut.codec.put txout).length + 148)).toInt =
      3 * (fees.minRelayTxFee.getFee ((CTxOut.codec.put txout).length + 148)).toInt := by
    rw [Int64Bounds.toInt_mul, hthree] <;> rw [hthree] <;> omega
  rw [CTxOut.isDust, decide_eq_true_iff, Int64.lt_iff_toInt_lt, hmul]

theorem CTxOut.lt_of_isDust {fees : FeeSettings} {txout : CTxOut} (h : txout.isDust fees.minRelayTxFee = true) :
    txout.nValue.toInt < 3 * maxMoney := by
  have hle := (fees.minRelayTxFee.getFee_range ((CTxOut.codec.put txout).length + 148)).2 fees.relay_range
  have hlt := (CTxOut.isDust_iff fees txout).1 h
  omega

/-! ## The amount -/

/-- A sum that leaves the range is negative when it is looked at again. -/
theorem sumAmounts_eq {vecSend : List (CScript × CAmount)} (hrange : ∀ s ∈ vecSend, moneyRange s.2.toInt)
    {nValue n : CAmount} (hnonneg : 0 ≤ nValue.toInt) (h : sumAmounts nValue vecSend = some n) (hn : 0 ≤ n.toInt) :
    n.toInt = nValue.toInt + (vecSend.map fun s => s.2.toInt).sum := by
  induction vecSend generalizing nValue with
  | nil =>
    obtain rfl : nValue = n := Option.some.inj h
    exact (add_zero _).symm
  | cons s vecSend ih =>
    rcases hrange s List.mem_cons_self with ⟨hlow, hhigh⟩
    have hnext : sumAmounts (nValue + s.2) vecSend = some n := by
      rw [sumAmounts] at h
      split_ifs at h
      exact h
    have hmoney : maxMoney = 1000000000000000000 := rfl
    have hbound := Int64.toInt_lt nValue
    have hadd := Int64.toInt_add nValue s.2
    have hpos : 0 ≤ (nValue + s.2).toInt := by
      cases vecSend with
      | nil =>
        obtain rfl : nValue + s.2 = n := Option.some.inj hnext
        exact hn
      | cons s' vecSend =>
        rw [sumAmounts] at hnext
        split_ifs at hnext with hneg
        exact Int64.le_iff_toInt_le.1 (Int64.not_lt.1 hneg)
    have hexact : (nValue + s.2).toInt = nValue.toInt + s.2.toInt := by
      rw [hadd] at hpos ⊢
      rw [Int.bmod_def] at hpos ⊢
      split_ifs at hpos ⊢ <;> omega
    rw [ih (fun s' hs' => hrange s' (List.mem_cons_of_mem _ hs')) hpos hnext, hexact, List.map_cons, List.sum_cons,
      add_assoc]

/-- The recipients are to get this much, exactly. -/
theorem SendRequest.nValue_eq {R : SendRequest} (hrange : ∀ s ∈ R.vecSend, moneyRange s.2.toInt)
    (h : R.nValue = some nValue) :
    0 ≤ nValue.toInt ∧ nValue.toInt = (R.outputs.map fun txout => txout.nValue.toInt).sum := by
  rcases Option.bind_eq_some_iff.1 h with ⟨n, hsum, hn⟩
  split_ifs at hn with hneg
  obtain rfl : n = nValue := Option.some.inj hn
  have hpos : 0 ≤ n.toInt := Int64.le_iff_toInt_le.1 (Int64.not_lt.1 fun hlt => hneg (Or.inr hlt))
  have hvalue := sumAmounts_eq hrange (by decide) hsum hpos
  refine ⟨hpos, ?_⟩
  rw [hvalue, SendRequest.outputs, List.map_map]
  exact zero_add _

/-! ## The key for the change -/

section ReserveKey

variable {E : SendEnv}

/-- A key is in the pool, or it is the one that is reserved. -/
def HasKey (keys : CWallet) (reservekey : CReserveKey) (nIndex : Int) : Prop :=
  nIndex ∈ keys.setKeyPool ∨ reservekey.nIndex = nIndex

theorem returnKey_hasKey {reservekey : CReserveKey} {nIndex : Int} (hne : nIndex ≠ -1)
    (h : HasKey keys reservekey nIndex) :
    HasKey (returnKey keys reservekey).1 (returnKey keys reservekey).2 nIndex := by
  refine Or.inl ?_
  rw [returnKey]
  rcases h with hpool | rfl
  · by_cases hnone : reservekey.nIndex ≠ -1
    · rw [if_pos hnone]
      exact List.mem_insert_of_mem hpool
    · rw [if_neg hnone]
      exact hpool
  · rw [if_pos hne]
    exact List.mem_insert_self

theorem reserveKeyFromKeyPool_hasKey {nPass : Nat} {r : Int × CPubKey × CWallet}
    (h : reserveKeyFromKeyPool E nPass keys = some r) {nIndex : Int} (hpool : nIndex ∈ keys.setKeyPool) :
    nIndex ∈ r.2.2.setKeyPool ∨ r.1 = nIndex := by
  rcases Option.bind_eq_some_iff.1 h with ⟨keys', htop, hrest⟩
  have hkept : nIndex ∈ keys'.setKeyPool := by
    split_ifs at htop
    · rw [← Option.some.inj htop]
      exact hpool
    · exact E.topUpKeyPool_keeps nPass keys keys' htop nIndex hpool
  rcases hmin : keys'.setKeyPool.min? with _ | first
  · rw [hmin] at hrest
    rw [← Option.some.inj hrest]
    exact Or.inl hkept
  · rw [hmin] at hrest
    rcases Option.bind_eq_some_iff.1 hrest with ⟨keypool, -, hkey⟩
    split_ifs at hkey
    rw [← Option.some.inj hkey]
    by_cases hfirst : first = nIndex
    · exact Or.inr hfirst
    · exact Or.inl (List.mem_filter.2 ⟨hkept, decide_eq_true (Ne.symm hfirst)⟩)

theorem getReservedKey_hasKey {nPass : Nat} {reservekey : CReserveKey}
    {r : CPubKey × CWallet × CReserveKey} (h : getReservedKey E nPass keys reservekey = some r) {nIndex : Int}
    (hne : nIndex ≠ -1) (hkey : HasKey keys reservekey nIndex) : HasKey r.2.1 r.2.2 nIndex := by
  rw [getReservedKey] at h
  by_cases hnone : reservekey.nIndex = -1
  · rw [if_pos hnone] at h
    have hpool : nIndex ∈ keys.setKeyPool := by
      rcases hkey with hpool | rfl
      · exact hpool
      · exact absurd hnone hne
    rcases Option.bind_eq_some_iff.1 h with ⟨r', hreserve, hr'⟩
    split_ifs at hr'
    rw [← Option.some.inj hr']
    exact reserveKeyFromKeyPool_hasKey hreserve hpool
  · rw [if_neg hnone] at h
    split_ifs at h
    rw [← Option.some.inj h]
    exact hkey

end ReserveKey

namespace SendWallet

variable {E : SendEnv} {w : SendWallet} {R : SendRequest}

theorem scriptChange_hasKey {r : CScript × CWallet × CReserveKey} (h : scriptChange E R s = some r)
    {nIndex : Int} (hne : nIndex ≠ -1) (hkey : HasKey s.keys s.reservekey nIndex) : HasKey r.2.1 r.2.2 nIndex := by
  have hreserved : ∀ r, ((getReservedKey E s.nPass s.keys s.reservekey).map fun r =>
      (CTxDestination.script (.keyID (CPubKey.getID E.C r.1)), r.2)) = some r → HasKey r.2.1 r.2.2 nIndex := by
    intro r hr
    rcases Option.map_eq_some_iff.1 hr with ⟨key, hkey', rfl⟩
    exact getReservedKey_hasKey hkey' hne hkey
  rw [scriptChange] at h
  split at h
  · rw [← Option.some.inj h]
    exact hkey
  · rw [← Option.some.inj h]
    exact hkey
  · exact hreserved r h
  · exact hreserved r h

/-! ## The change -/

/-- What `addChange` can do with the change: there is none, it is added to the fee, or it gets an output. -/
inductive Changed (E : SendEnv) (R : SendRequest) (nChange : CAmount) (s : PassState) :
    List CTxOut → PassState → Prop where
  | none (s' : PassState) (hle : nChange.toInt ≤ 0) (hfee : s'.nFeeRet = s.nFeeRet)
      (hback : s'.reservekey.nIndex = -1) : Changed E R nChange s R.outputs s'
  | toFee (s' : PassState) (hpos : 0 < nChange.toInt) (hdust : nChange.toInt < 3 * maxMoney)
      (hfee : s'.nFeeRet = s.nFeeRet + nChange) (hback : s'.reservekey.nIndex = -1) :
      Changed E R nChange s R.outputs s'
  | output (s' : PassState) (scriptPubKey : CScript) (nPos : Nat) (hpos : 0 < nChange.toInt)
      (hdust : (⟨nChange, scriptPubKey⟩ : CTxOut).isDust E.fees.minRelayTxFee = false)
      (hfee : s'.nFeeRet = s.nFeeRet) (hle : nPos ≤ R.outputs.length) :
      Changed E R nChange s (R.outputs.insertIdx nPos ⟨nChange, scriptPubKey⟩) s'

theorem addChange_spec {nChange : CAmount} {s s' : PassState} {vout : List CTxOut}
    (h : addChange E R nChange s = some (vout, s')) :
    Changed E R nChange s vout s' ∧ s'.nPass = s.nPass ∧
      ∀ nIndex, nIndex ≠ -1 → HasKey s.keys s.reservekey nIndex → HasKey s'.keys s'.reservekey nIndex := by
  rw [addChange] at h
  by_cases hpos : nChange > 0
  · rw [if_pos hpos] at h
    have hpos' : 0 < nChange.toInt := Int64.lt_iff_toInt_lt.1 hpos
    rcases Option.map_eq_some_iff.1 h with ⟨r, hscript, heq⟩
    dsimp only at heq
    by_cases hdust : (⟨nChange, r.1⟩ : CTxOut).isDust E.fees.minRelayTxFee = true
    · rw [if_pos hdust] at heq
      rcases Prod.mk.inj heq with ⟨rfl, rfl⟩
      refine ⟨.toFee _ hpos' (CTxOut.lt_of_isDust hdust) rfl rfl, rfl, fun nIndex hne hkey => ?_⟩
      exact returnKey_hasKey hne (scriptChange_hasKey hscript hne hkey)
    · rw [if_neg hdust] at heq
      rcases Prod.mk.inj heq with ⟨rfl, rfl⟩
      have hlt := (E.draws s.nPass).getRandInt_lt (R.outputs.length + 1) (Nat.succ_pos _)
      refine ⟨.output _ r.1 _ hpos' (Bool.not_eq_true _ ▸ hdust) rfl (Nat.lt_succ_iff.1 hlt), rfl, ?_⟩
      exact fun nIndex hne hkey => scriptChange_hasKey hscript hne hkey
  · rw [if_neg hpos] at h
    rcases Prod.mk.inj (Option.some.inj h) with ⟨rfl, rfl⟩
    have hle : nChange.toInt ≤ 0 := Int64.le_iff_toInt_le.1 (Int64.not_lt.1 hpos)
    exact ⟨.none _ hle rfl rfl, rfl, fun nIndex hne hkey => returnKey_hasKey hne hkey⟩

/-- The fee after the change is not less than before. -/
theorem Changed.fee_le {nChange : CAmount} {s s' : PassState} {vout : List CTxOut} (h : Changed E R nChange s vout s')
    (hnonneg : 0 ≤ s.nFeeRet.toInt) (hmax : s.nFeeRet.toInt ≤ E.fees.maxTxFee.toInt) :
    s.nFeeRet.toInt ≤ s'.nFeeRet.toInt := by
  cases h with
  | none _ _ hfee _ => rw [hfee]
  | toFee _ hpos hdust hfee _ =>
    have hmoney : maxMoney = 1000000000000000000 := rfl
    have hrange := E.fees.max_range.2
    rw [hfee, Int64Bounds.toInt_add (by omega) (by omega)]
    omega
  | output _ _ _ _ _ hfee _ => rw [hfee]

/-! ## The signatures -/

/-- Signing changes nothing but the `scriptSig` of the inputs. -/
theorem signInputs_spec {nIn : Nat} {setCoins : List COutPoint} {txNew tx : CTransaction}
    (h : signInputs E keys nIn setCoins txNew = some tx) :
    tx.vout = txNew.vout ∧ tx.vin.map CTxIn.prevout = txNew.vin.map CTxIn.prevout := by
  induction setCoins generalizing nIn txNew with
  | nil =>
    rw [← Option.some.inj h]
    exact ⟨rfl, rfl⟩
  | cons coin setCoins ih =>
    rcases Option.bind_eq_some_iff.1 h with ⟨scriptSig, -, hrest⟩
    rcases ih hrest with ⟨hvout, hvin⟩
    refine ⟨hvout, hvin.trans ?_⟩
    apply List.ext_getElem?
    intro i
    rw [List.getElem?_map, List.getElem?_map, List.getElem?_modify]
    rcases txNew.vin[i]? with _ | txin
    · rfl
    · have hprevout : (if nIn = i then ({ txin with scriptSig := scriptSig } : CTxIn) else txin).prevout =
          txin.prevout := by split_ifs <;> rfl
      exact congrArg some hprevout

/-! ## One repetition -/

/-- A repetition that gets to the fee, with what it has done on the way. -/
structure Pass (E : SendEnv) (w : SendWallet) (R : SendRequest) (nValue : CAmount) (s : PassState) (ret : CoinSet)
    (tx : CTransaction) (s' : PassState) : Prop where
  outputs : ∀ txout ∈ R.outputs, txout.isDust E.fees.minRelayTxFee = false
  selected : selectCoins E (w.withKeys s.keys) (E.draws s.nPass) (nValue + s.nFeeRet) R.coinControl = some (true, ret)
  changed : Changed E R (ret.nValueRet - nValue - s.nFeeRet) s tx.vout s'
  prevouts : tx.vin.map CTxIn.prevout = ((E.draws s.nPass).order ret.setCoinsRet).map fun coin =>
    ⟨coinHash E w coin, coin.n⟩
  keys : ∀ nIndex, nIndex ≠ -1 → HasKey s.keys s.reservekey nIndex → HasKey s'.keys s'.reservekey nIndex
  nPass : s'.nPass = s.nPass

/-- A repetition stops, or it gets to the fee. -/
theorem createPass_cases (nValue : CAmount) (s : PassState) :
    (∃ error, createPass E w R nValue s = .stops error) ∨
      ∃ ret tx s', Pass E w R nValue s ret tx s' ∧
        createPass E w R nValue s = checkFee E ((E.draws s.nPass).order ret.setCoinsRet) tx s' := by
  rw [createPass]
  by_cases hdust : R.outputs.any (CTxOut.isDust · E.fees.minRelayTxFee) = true
  · rw [if_pos hdust]
    exact Or.inl ⟨_, rfl⟩
  rw [if_neg hdust]
  rcases hselect : selectCoins E (w.withKeys s.keys) (E.draws s.nPass) (nValue + s.nFeeRet) R.coinControl with
    _ | ⟨found, ret⟩
  · exact Or.inl ⟨_, rfl⟩
  cases found with
  | false => exact Or.inl ⟨_, rfl⟩
  | true =>
    dsimp only
    rw [buildTx]
    rcases hchange : addChange E R (ret.nValueRet - nValue - s.nFeeRet) s with _ | ⟨vout, s'⟩
    · exact Or.inl ⟨_, rfl⟩
    dsimp only
    rcases hsign : signInputs E s'.keys 0 ((E.draws s.nPass).order ret.setCoinsRet)
      (unsigned E w ((E.draws s.nPass).order ret.setCoinsRet) vout) with _ | tx
    · exact Or.inl ⟨_, rfl⟩
    refine Or.inr ⟨ret, tx, s', ?_, rfl⟩
    rcases addChange_spec hchange with ⟨hchanged, hpass, hkeys⟩
    rcases signInputs_spec hsign with ⟨hvout, hvin⟩
    have hvout' : tx.vout = vout := hvout
    refine ⟨fun txout htxout => ?_, hselect, hvout' ▸ hchanged, ?_, hkeys, hpass⟩
    · rw [List.any_eq_true] at hdust
      exact Bool.not_eq_true _ ▸ fun htrue => hdust ⟨txout, htxout, htrue⟩
    · rw [hvin, unsigned, List.map_map]
      rfl

/-- What the last lines of a repetition decide. -/
theorem checkFee_cases (setCoins : List COutPoint) (tx : CTransaction) (s : PassState) :
    (∃ error, checkFee E setCoins tx s = .stops error) ∨
      (checkFee E setCoins tx s = .done ⟨tx, s.nFeeRet, s.keys, s.reservekey⟩ ∧
        tx.serializeSize < maxStandardTxSize ∧
        (sendsFree E setCoins tx = true ∨ E.fees.getMinimumFee E.estimateFee tx.serializeSize ≤ s.nFeeRet)) ∨
      (checkFee E setCoins tx s =
          .again { s with nFeeRet := E.fees.getMinimumFee E.estimateFee tx.serializeSize, nPass := s.nPass + 1 } ∧
        s.nFeeRet < E.fees.getMinimumFee E.estimateFee tx.serializeSize) := by
  simp only [checkFee]
  by_cases hsize : tx.serializeSize ≥ maxStandardTxSize
  · exact Or.inl ⟨_, if_pos hsize⟩
  rw [if_neg hsize]
  by_cases hfree : sendsFree E setCoins tx = true
  · exact Or.inr (Or.inl ⟨if_pos hfree, not_le.1 hsize, Or.inl hfree⟩)
  rw [if_neg hfree]
  by_cases hrelay : E.fees.getMinimumFee E.estimateFee tx.serializeSize < E.fees.minRelayTxFee.getFee tx.serializeSize
  · exact Or.inl ⟨_, if_pos hrelay⟩
  rw [if_neg hrelay]
  by_cases henough : s.nFeeRet ≥ E.fees.getMinimumFee E.estimateFee tx.serializeSize
  · exact Or.inr (Or.inl ⟨if_pos henough, not_le.1 hsize, Or.inr henough⟩)
  · exact Or.inr (Or.inr ⟨if_neg henough, Int64.not_le.1 henough⟩)

/-! ## The run -/

variable (E w R) in
/-- The states in which a repetition begins. -/
inductive Passes (nValue : CAmount) : PassState → Prop where
  | first : Passes nValue (firstPass w R)
  | again {s s' : PassState} : Passes nValue s → createPass E w R nValue s = .again s' → Passes nValue s'

/-- What holds when a repetition begins. -/
structure Ready (E : SendEnv) (w : SendWallet) (R : SendRequest) (s : PassState) : Prop where
  nonneg : 0 ≤ s.nFeeRet.toInt
  max : s.nFeeRet.toInt ≤ E.fees.maxTxFee.toInt
  keys : ∀ nIndex, nIndex ≠ -1 → HasKey w.keys R.reservekey nIndex → HasKey s.keys s.reservekey nIndex

/-- **Step.** The fee rises, and it does not get above the largest one. -/
theorem createPass_again {s s' : PassState} (hs : Ready E w R s)
    (h : createPass E w R nValue s = .again s') : Ready E w R s' ∧ s.nFeeRet.toInt < s'.nFeeRet.toInt := by
  rcases createPass_cases (E := E) (w := w) (R := R) nValue s with ⟨error, hstop⟩ | ⟨ret, tx, s₁, hpass, hcheck⟩
  · rw [hstop] at h
    cases h
  rcases checkFee_cases (E := E) ((E.draws s.nPass).order ret.setCoinsRet) tx s₁ with
    ⟨error, hstop⟩ | ⟨hdone, -⟩ | ⟨hagain, hless⟩
  · rw [hcheck, hstop] at h
    cases h
  · rw [hcheck, hdone] at h
    cases h
  · rw [hcheck, hagain] at h
    obtain rfl := PassOutcome.again.inj h
    have hrange := E.fees.getMinimumFee_range E.estimateFee tx.serializeSize
    have hle := hpass.changed.fee_le hs.nonneg hs.max
    exact ⟨⟨hrange.1, hrange.2, fun nIndex hne hkey => hpass.keys nIndex hne (hs.keys nIndex hne hkey)⟩,
      hle.trans_lt (Int64.lt_iff_toInt_lt.1 hless)⟩

/-- **Run.** -/
theorem Passes.ready (h : Passes E w R nValue s) : Ready E w R s := by
  induction h with
  | first => exact ⟨le_rfl, E.fees.max_range.1, fun _ _ hkey => hkey⟩
  | again _ hagain ih => exact (createPass_again ih hagain).1

/-- There are not more repetitions than the fee can rise. -/
theorem createLoop_returns {fuel : Nat} (hs : Ready E w R s)
    (hfuel : E.fees.maxTxFee.toInt < s.nFeeRet.toInt + fuel) : ∃ r, createLoop E w R nValue fuel s = some r := by
  induction fuel generalizing s with
  | zero =>
    have hmax := hs.max
    omega
  | succ fuel ih =>
    rw [createLoop]
    rcases hpass : createPass E w R nValue s with created | s' | error
    · exact ⟨_, rfl⟩
    · rcases createPass_again hs hpass with ⟨hs', hlt⟩
      exact ih hs' (by omega)
    · exact ⟨_, rfl⟩

theorem createLoop_ok {fuel : Nat} {created : Created}
    (hs : Passes E w R nValue s) (h : createLoop E w R nValue fuel s = some (.ok created)) :
    ∃ s', Passes E w R nValue s' ∧ createPass E w R nValue s' = .done created := by
  induction fuel generalizing s with
  | zero => cases h
  | succ fuel ih =>
    rw [createLoop] at h
    rcases hpass : createPass E w R nValue s with created' | s' | error
    · rw [hpass] at h
      obtain rfl : created' = created := by
        injection h with h
        injection h
      exact ⟨s, hs, hpass⟩
    · rw [hpass] at h
      exact ih (hs.again hpass) h
    · rw [hpass] at h
      injection h with h
      cases h

/-- `CreateTransaction` returns. -/
theorem createTransaction_returns (E : SendEnv) (w : SendWallet) (R : SendRequest) :
    ∃ r, createTransaction E w R = some r := by
  rw [createTransaction]
  rcases R.nValue with _ | nValue
  · exact ⟨_, rfl⟩
  · have hfirst : Passes E w R nValue (firstPass w R) := .first
    have hready := hfirst.ready
    have hmax := E.fees.max_range.1
    have hzero : (firstPass w R).nFeeRet.toInt = 0 := rfl
    exact createLoop_returns hready (by omega)

/-- It returns true from its last repetition. -/
theorem createTransaction_ok {created : Created} (h : createTransaction E w R = some (.ok created)) :
    ∃ nValue s, R.nValue = some nValue ∧ Passes E w R nValue s ∧ createPass E w R nValue s = .done created := by
  rw [createTransaction] at h
  rcases hvalue : R.nValue with _ | nValue
  · rw [hvalue] at h
    injection h with h
    cases h
  · rw [hvalue] at h
    rcases createLoop_ok .first h with ⟨s, hs, hdone⟩
    exact ⟨nValue, s, rfl, hs, hdone⟩

end SendWallet

end Dobbscoin
