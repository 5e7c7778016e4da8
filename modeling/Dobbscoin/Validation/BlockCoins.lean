import Dobbscoin.Validation.ConnectBlock

/-!
# What a block does to the coins

`Connects` is the run of `UpdateCoins` over the transactions of a block that `ConnectBlock` makes.
Outputs appear under the ids of the block's own transactions only, and the ids of a block that connects
are different from each other.
-/

namespace Dobbscoin

open Guard

variable {v v' : CoinsView} {txs : List CTransaction} {undos : List CTxUndo} {tx : CTransaction}
  {rules : ConnectRules} {P : CoinsView → Prop} {undo : CTxUndo}

variable {V : ValidationEnv} {H : Crypto} {m : BlockMap} {nHeight : Nat}

/-- The transactions are applied one after the other, each with its inputs there. -/
inductive Connects (H : Crypto) (nHeight : Nat) :
    CoinsView → List CTransaction → List CTxUndo → CoinsView → Prop
  | nil (v : CoinsView) : Connects H nHeight v [] [] v
  | cons {v v₁ v' : CoinsView} {tx : CTransaction} {rest : List CTransaction} {undo : CTxUndo}
      {undos : List CTxUndo} (inputs : v.haveInputs tx = true)
      (updated : updateCoins H tx v nHeight = .ok (v₁, undo))
      (run : Connects H nHeight v₁ rest undos v') :
      Connects H nHeight v (tx :: rest) (undo :: undos) v'

/-! ## From the loop of ConnectBlock -/

/-- One turn of the loop. -/
structure TxConnected (V : ValidationEnv) (rules : ConnectRules) (tx : CTransaction)
    (s s' : ConnectState) (undo : CTxUndo) : Prop where
  inputs : s.view.haveInputs tx = true
  updated : updateCoins V.crypto tx s.view rules.nHeight = .ok (s'.view, undo)
  vtxundo : s'.vtxundo = s.vtxundo
  fees : if tx.isCoinBase then s'.nFees = s.nFees else
    ∃ nValueIn nValueOut, s.view.getValueIn tx = .ok nValueIn ∧ tx.getValueOut = .ok nValueOut ∧
      s'.nFees = s.nFees + (nValueIn - nValueOut)

theorem fits64_eq_ok {n k : Int} : fits64 n = .ok k ↔ int64Range n ∧ n = k := by
  unfold fits64
  split_ifs with h <;> simp [h]

theorem connectTx_ok {s s' : ConnectState}
    (h : connectTx V m rules s tx = .ok (s', undo)) : TxConnected V rules tx s s' undo := by
  unfold connectTx at h
  cases hcb : tx.isCoinBase with
  | true =>
    simp only [hcb, if_true, bind_eq_ok, exists_unit, Except.ok.injEq, Prod.mk.injEq,
      Prod.exists] at h
    rcases h with ⟨-, view, txundo, hupdated, rfl, rfl⟩
    refine ⟨by simp [CoinsView.haveInputs, hcb], hupdated, rfl, ?_⟩
    simp [hcb]
  | false =>
    simp only [hcb, Bool.false_eq_true, if_false, bind_eq_ok, exists_unit, rejectIf_eq_ok,
      Bool.not_eq_false, Except.ok.injEq, Prod.mk.injEq, Prod.exists, fits64_eq_ok] at h
    rcases h with ⟨-, hinputs, nP2SH, -, -, nValueIn, hin, nValueOut, hout, nFee, ⟨-, rfl⟩, nFees,
      ⟨-, rfl⟩, checks, -, view, txundo, hupdated, rfl, rfl⟩
    refine ⟨hinputs, hupdated, rfl, ?_⟩
    simp only [hcb, Bool.false_eq_true, if_false]
    exact ⟨nValueIn, nValueOut, hin, hout, rfl⟩

theorem connectTxs_ok {s s' : ConnectState}
    (h : connectTxs V m rules s txs = .ok s') :
    ∃ undos, Connects V.crypto rules.nHeight s.view txs undos s'.view ∧
      s'.vtxundo = s.vtxundo ++ undos := by
  induction txs generalizing s with
  | nil =>
    simp only [connectTxs, Except.ok.injEq] at h
    subst h
    exact ⟨[], Connects.nil _, by simp⟩
  | cons tx rest ih =>
    simp only [connectTxs, bind_eq_ok, Prod.exists] at h
    rcases h with ⟨s₁, undo, hstep, hrest⟩
    have htx := connectTx_ok hstep
    rcases ih hrest with ⟨undos, hrun, hundos⟩
    refine ⟨undo :: undos, Connects.cons htx.inputs htx.updated hrun, ?_⟩
    rw [hundos, htx.vtxundo, List.append_assoc, List.singleton_append]

/-- The coinbase's record is the one that is dropped. -/
theorem connectVtx_ok {view : CoinsView} {s' : ConnectState}
    {coinbase : CTransaction} {rest : List CTransaction}
    (h : connectVtx V m rules view (coinbase :: rest) = .ok s') :
    ∃ undo, Connects V.crypto rules.nHeight view (coinbase :: rest) (undo :: s'.vtxundo) s'.view := by
  simp only [connectVtx, bind_eq_ok, Prod.exists] at h
  rcases h with ⟨s, undo, hstep, hrest⟩
  have htx := connectTx_ok hstep
  rcases connectTxs_ok hrest with ⟨undos, hrun, hundos⟩
  have hdropped : s'.vtxundo = undos := by
    rw [hundos, htx.vtxundo, List.nil_append]
  rw [hdropped]
  exact ⟨undo, Connects.cons htx.inputs htx.updated hrun⟩

theorem connectChecked_ok {pindexBestHeader : Option UInt256} {block : CBlock} {pindex : UInt256}
    {view view' : CoinsView} {fJustCheck : Bool} {undo : Option CBlockUndo}
    (h : connectChecked V m pindexBestHeader block pindex view fJustCheck = .ok (view', undo)) :
    ∃ s nValueOut,
      connectVtx V m (connectRules V m pindexBestHeader block pindex) view block.vtx = .ok s ∧
      (block.vtx.head?.map CTransaction.getValueOut).getD (.error .assertFailed) = .ok nValueOut ∧
      nValueOut ≤ getBlockValue V.params (m.entry pindex).nHeight s.nFees ∧
      view' = (if fJustCheck then s.view else s.view.setBestBlock pindex) ∧
      undo = (if fJustCheck then none else some ⟨s.vtxundo⟩) := by
  simp only [connectChecked, bind_eq_ok, exists_unit, rejectIf_eq_ok, fits64_eq_ok, not_lt,
    Except.ok.injEq] at h
  rcases h with ⟨-, s, hvtx, nValueOut, hout, nLimit, ⟨-, rfl⟩, hle, -, hres⟩
  refine ⟨s, nValueOut, hvtx, hout, hle, ?_⟩
  cases fJustCheck <;> simp at hres ⊢ <;> exact ⟨hres.1.symm, hres.2.symm⟩

theorem connectBlock_ok {pindexBestHeader : Option UInt256} {block : CBlock} {pindex : UInt256}
    {view view' : CoinsView} {fJustCheck : Bool} {undo : Option CBlockUndo}
    (h : connectBlock V m pindexBestHeader block pindex view fJustCheck = .ok (view', undo)) :
    block.Checked ∧ (m.entry pindex).pprev.getD 0 = view.hashBlock ∧
      if block.getHash V.crypto = V.params.hashGenesisBlock then
        view' = view.setBestBlock pindex ∧ undo = none
      else connectChecked V m pindexBestHeader block pindex view fJustCheck = .ok (view', undo) := by
  unfold connectBlock at h
  cases hcheck : checkBlock V.toEnv block (!fJustCheck) (!fJustCheck) with
  | error e =>
    rw [hcheck] at h
    cases h
  | ok u =>
    rw [hcheck] at h
    simp only [bind_eq_ok, exists_unit, rejectIf_eq_ok, not_not] at h
    rcases h with ⟨hbest, h⟩
    refine ⟨checkBlock_ok hcheck, hbest, ?_⟩
    split_ifs at h ⊢
    · simp only [Except.ok.injEq, Prod.mk.injEq] at h
      exact ⟨h.1.symm, h.2.symm⟩
    · exact h

/-! ## Outputs that appear and disappear -/

theorem CoinsView.outputAt_eq (v : CoinsView) (out : COutPoint) :
    v.outputAt out = (v.entry out.hash).output out.n.toNat := by
  unfold CoinsView.outputAt
  cases hc : v.coins out.hash with
  | none => simp [CoinsView.entry_of_none hc, CCoins.empty]
  | some c =>
    simp only [CoinsView.entry_of_some hc, CCoins.isAvailable_eq]
    cases ho : c.output out.n.toNat with
    | none => simp
    | some o => simpa using (CCoins.output_eq_some.1 ho).1

theorem CoinsView.outputAt_set (v : CoinsView) (txid : UInt256) (c : CCoins) (out : COutPoint) :
    (v.set txid c).outputAt out =
      if out.hash = txid then c.output out.n.toNat else v.outputAt out := by
  rw [CoinsView.outputAt_eq, CoinsView.outputAt_eq]
  by_cases ht : out.hash = txid
  · have hentry : ((v.set txid c).entry out.hash).output out.n.toNat = c.output out.n.toNat := by
      rw [CoinsView.entry, ht, CoinsView.set_coins_self]
      cases hp : c.isPruned with
      | true =>
        rw [CCoins.normal_eq_none.2 hp, (CCoins.isPruned_iff_output c).1 hp]
        simp [CCoins.empty]
      | false => simp [CCoins.normal_of_not_pruned hp]
    simp [ht] at hentry ⊢
    exact hentry
  · simp [CoinsView.entry, CoinsView.set_coins_of_ne v ht, ht]

theorem output_of_spend {c c' : CCoins} {n k : Nat} {undo : CTxInUndo}
    (h : c.spend n = some (c', undo)) : c'.output k = if k = n then none else c.output k := by
  rcases CCoins.spend_spec h with ⟨o, -, hcontent, -⟩
  have houtputs : c'.output = Function.update c.output n none :=
    congrArg CoinsContent.outputs hcontent
  rw [houtputs, Function.update_apply]

/-- Spending leaves an output as it was, or takes it away. -/
theorem outputAt_of_spendInputs {ins : List CTxIn} {undos : List CTxInUndo}
    (h : spendInputs v ins = .ok (v', undos)) (out : COutPoint) :
    v'.outputAt out = if out ∈ ins.map CTxIn.prevout then none else v.outputAt out := by
  induction ins generalizing v undos with
  | nil =>
    simp only [spendInputs, Except.ok.injEq, Prod.mk.injEq] at h
    rw [← h.1]
    simp
  | cons txin rest ih =>
    cases hs : (v.entry txin.prevout.hash).spend txin.prevout.n.toNat with
    | none => simp [spendInputs, hs] at h
    | some r =>
      rcases r with ⟨coins, undo⟩
      simp only [spendInputs, hs, bind_eq_ok, Prod.exists, Except.ok.injEq, Prod.mk.injEq] at h
      rcases h with ⟨v₁, undos', hrest, rfl, -⟩
      rw [ih hrest, CoinsView.outputAt_set, output_of_spend hs]
      by_cases hhash : out.hash = txin.prevout.hash
      · by_cases hn : out.n = txin.prevout.n
        · have heq : out = txin.prevout := by
            cases out
            simp_all
          simp [heq]
        · have hne : ¬ out.n.toNat = txin.prevout.n.toNat := fun hc => hn (UInt32.toNat_inj.1 hc)
          have hout : out ≠ txin.prevout := fun hc => hn (by rw [hc])
          simp [hhash, hne, hout, CoinsView.outputAt_eq]
      · have hout : out ≠ txin.prevout := fun hc => hhash (by rw [hc])
        simp [hhash, hout]

/-- What every single spend keeps, spending the inputs of a transaction keeps. -/
theorem spendInputs_keeps
    (hspend : ∀ v txid n c' undo, P v → (v.entry txid).spend n = some (c', undo) → P (v.set txid c'))
    {ins : List CTxIn} {undos : List CTxInUndo}
    (h : spendInputs v ins = .ok (v', undos)) (hv : P v) : P v' := by
  induction ins generalizing v undos with
  | nil =>
    simp only [spendInputs, Except.ok.injEq, Prod.mk.injEq] at h
    rwa [← h.1]
  | cons txin rest ih =>
    cases hs : (v.entry txin.prevout.hash).spend txin.prevout.n.toNat with
    | none => simp [spendInputs, hs] at h
    | some r =>
      rcases r with ⟨coins, undo⟩
      simp only [spendInputs, hs, bind_eq_ok, Prod.exists, Except.ok.injEq, Prod.mk.injEq] at h
      rcases h with ⟨v₁, undos', hrest, rfl, -⟩
      exact ih hrest (hspend v _ _ _ _ hv hs)

/-- The coins between the inputs and the outputs of a transaction. -/
theorem updateCoins_ok (h : updateCoins H tx v nHeight = .ok (v', undo)) :
    ∃ v₁, (if tx.isCoinBase then .ok (v, []) else spendInputs v tx.vin) = .ok (v₁, undo.vprevout) ∧
      v' = v₁.set (tx.getHash H) (CCoins.fromTx tx nHeight) := by
  simp only [updateCoins, bind_eq_ok, Prod.exists, Except.ok.injEq, Prod.mk.injEq] at h
  rcases h with ⟨v₁, undos, hspend, rfl, rfl⟩
  exact ⟨v₁, hspend, rfl⟩

theorem updateCoins_keeps
    (hspend : ∀ v txid n c' undo, P v → (v.entry txid).spend n = some (c', undo) → P (v.set txid c'))
        (hset : ∀ v, P v → P (v.set (tx.getHash H) (CCoins.fromTx tx nHeight)))
    (h : updateCoins H tx v nHeight = .ok (v', undo)) (hv : P v) : P v' := by
  rcases updateCoins_ok h with ⟨v₁, hspent, rfl⟩
  apply hset
  cases hcb : tx.isCoinBase with
  | true =>
    simp only [hcb, if_true, Except.ok.injEq, Prod.mk.injEq] at hspent
    rwa [← hspent.1]
  | false =>
    simp only [hcb, Bool.false_eq_true, if_false] at hspent
    exact spendInputs_keeps hspend hspent hv

/-- **The invariant rule of a block.** -/
theorem Connects.keeps
    (hspend : ∀ v txid n c' undo, P v → (v.entry txid).spend n = some (c', undo) → P (v.set txid c'))
        (h : Connects H nHeight v txs undos v')
    (hset : ∀ tx ∈ txs, ∀ v, P v → P (v.set (tx.getHash H) (CCoins.fromTx tx nHeight))) (hv : P v) :
    P v' := by
  induction h with
  | nil v => exact hv
  | @cons v v₁ v' tx rest undo undos inputs updated run ih =>
    apply ih (fun t ht => hset t (List.mem_cons_of_mem _ ht))
    exact updateCoins_keeps hspend (hset tx List.mem_cons_self) updated hv

/-- An absent entry has nothing to spend. -/
theorem coins_none_of_spend {v : CoinsView} {t txid : UInt256} {n : Nat} {c' : CCoins}
    {undo : CTxInUndo} (hnone : v.coins t = none)
    (h : (v.entry txid).spend n = some (c', undo)) : (v.set txid c').coins t = none := by
  rcases CCoins.spend_spec h with ⟨o, hout, -, -⟩
  have hne : t ≠ txid := by
    rintro rfl
    have hcoins := CoinsView.coins_of_output hout
    rw [hnone] at hcoins
    exact absurd hcoins (by simp)
  rw [CoinsView.set_coins_of_ne v hne, hnone]

/-- Away from its own id, a transaction only takes outputs away. -/
theorem outputAt_of_updateCoins (h : updateCoins H tx v nHeight = .ok (v', undo)) {out : COutPoint}
    (hout : out.hash ≠ tx.getHash H) :
    v'.outputAt out =
      if tx.isCoinBase = false ∧ out ∈ tx.vin.map CTxIn.prevout then none else v.outputAt out := by
  rcases updateCoins_ok h with ⟨v₁, hspend, rfl⟩
  rw [CoinsView.outputAt_set, if_neg hout]
  cases hcb : tx.isCoinBase with
  | true =>
    simp only [hcb, if_true, Except.ok.injEq, Prod.mk.injEq] at hspend
    simp [hspend.1]
  | false =>
    simp only [hcb, Bool.false_eq_true, if_false] at hspend
    simp [outputAt_of_spendInputs hspend]

/-- An unspent output was there before, or a transaction of the block made it. -/
theorem Connects.output_of (h : Connects H nHeight v txs undos v') {out : COutPoint}
    (hout : (v'.outputAt out).isSome = true) :
    (v.outputAt out).isSome = true ∨ out.hash ∈ txs.map (CTransaction.getHash H) := by
  induction h with
  | nil v => exact Or.inl hout
  | @cons v v₁ v' tx rest undo undos inputs updated run ih =>
    rcases ih hout with hsome | hrest
    · by_cases hid : out.hash = tx.getHash H
      · exact Or.inr (by simp [hid])
      · rw [outputAt_of_updateCoins updated hid] at hsome
        split_ifs at hsome
        · simp at hsome
        · exact Or.inl hsome
    · exact Or.inr (List.mem_cons_of_mem _ hrest)

theorem Connects.concat {v₁ : CoinsView} (h : Connects H nHeight v txs undos v₁) (inputs : v₁.haveInputs tx = true)
    (updated : updateCoins H tx v₁ nHeight = .ok (v', undo)) :
    Connects H nHeight v (txs ++ [tx]) (undos ++ [undo]) v' := by
  induction h with
  | nil v => exact .cons inputs updated (.nil v')
  | cons inputs' updated' run ih => exact .cons inputs' updated' (ih inputs updated)

theorem Connects.append {txs txs' : List CTransaction}
    (h : Connects H nHeight v (txs ++ txs') undos v') :
    ∃ v₁ u u', Connects H nHeight v txs u v₁ ∧ Connects H nHeight v₁ txs' u' v' := by
  induction txs generalizing v undos with
  | nil => exact ⟨v, [], undos, Connects.nil v, h⟩
  | cons tx rest ih =>
    cases h with
    | cons inputs updated run =>
      rcases ih run with ⟨v₁, u, u', hfirst, hsecond⟩
      exact ⟨v₁, _, u', Connects.cons inputs updated hfirst, hsecond⟩

/-- The ids of the transactions of a block that connects are all different: a second copy would find
its inputs spent. -/
theorem Connects.txids_nodup (h : Connects H nHeight v txs undos v')
    (hinj : ∀ s ∈ txs, ∀ t ∈ txs, s.getHash H = t.getHash H → s = t)
    (hfree : ∀ t ∈ txs, v.coins (t.getHash H) = none)
    (htail : ∀ t ∈ txs.tail, t.isCoinBase = false) (hvin : ∀ t ∈ txs, t.vin ≠ []) :
    (txs.map (CTransaction.getHash H)).Nodup := by
  induction txs using List.reverseRecOn generalizing v' undos with
  | nil => simp
  | append_singleton txs tx ih =>
    rcases h.append with ⟨vm, u, u', hfirst, hlast⟩
    have hsub : ∀ t ∈ txs, t ∈ txs ++ [tx] := fun t ht => List.mem_append_left _ ht
    have htail' : ∀ t ∈ txs.tail, t.isCoinBase = false := by
      intro t ht
      exact htail t (by
        cases txs with
        | nil => simp at ht
        | cons a as => exact List.mem_append_left _ ht)
    have hnodup := ih hfirst (fun s hs t ht => hinj s (hsub s hs) t (hsub t ht))
      (fun t ht => hfree t (hsub t ht)) htail' (fun t ht => hvin t (hsub t ht))
    rw [List.map_append, List.map_singleton, ← List.concat_eq_append, List.nodup_concat]
    refine ⟨?_, hnodup⟩
    intro hmem
    rcases List.mem_map.1 hmem with ⟨t, ht, hid⟩
    have htx : tx ∈ txs ++ [tx] := List.mem_append_right _ (List.mem_singleton_self tx)
    obtain rfl : t = tx := hinj t (hsub t ht) tx htx hid
    -- The copy is not the coinbase, so both find the first input unspent.
    have hcb : t.isCoinBase = false := by
      apply htail
      cases txs with
      | nil => simp at ht
      | cons a as => exact List.mem_append_right _ (List.mem_singleton_self t)
    rcases List.exists_cons_of_ne_nil (hvin t htx) with ⟨txin, ins, hins⟩
    rcases List.append_of_mem ht with ⟨l₁, l₂, hsplit⟩
    rw [hsplit] at hfirst hnodup
    rcases hfirst.append with ⟨va, ua, ub, hbefore, hrest⟩
    cases hrest with
    | @cons _ vb _ _ _ undo undos inputs updated run =>
    cases hlast with
    | cons inputs' updated' run' =>
    have hava : (va.outputAt txin.prevout).isSome = true := by
      simp only [CoinsView.haveInputs, hcb, Bool.false_or, hins] at inputs
      exact List.all_eq_true.1 inputs txin (by simp)
    have havm : (vm.outputAt txin.prevout).isSome = true := by
      simp only [CoinsView.haveInputs, hcb, Bool.false_or, hins] at inputs'
      exact List.all_eq_true.1 inputs' txin (by simp)
    -- The first copy spent it, so a transaction from there on made it again ...
    have hagain : txin.prevout.hash ∈ (t :: l₂).map (CTransaction.getHash H) := by
      by_cases hself : txin.prevout.hash = t.getHash H
      · rw [hself]
        simp
      · rcases run.output_of havm with hvb | hl₂
        · rw [outputAt_of_updateCoins updated hself] at hvb
          simp [hcb, hins] at hvb
        · exact List.mem_cons_of_mem _ hl₂
    -- ... and one before it made it first, under the same id.
    have hfirstly : txin.prevout.hash ∈ l₁.map (CTransaction.getHash H) := by
      rcases hbefore.output_of hava with hv | hl₁
      · rcases List.mem_map.1 hagain with ⟨r, hr, hrid⟩
        have hr' : r ∈ txs := by
          rw [hsplit]
          exact List.mem_append_right _ hr
        have hnone := hfree r (hsub r hr')
        rw [hrid] at hnone
        rw [CoinsView.outputAt_eq, CoinsView.entry_of_none hnone] at hv
        simp [CCoins.empty] at hv
      · exact hl₁
    rw [List.map_append] at hnodup
    exact (List.disjoint_of_nodup_append hnodup) hfirstly hagain

end Dobbscoin
