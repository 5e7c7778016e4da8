import Dobbscoin.Validation.BlockCoins

/-!
# Disconnecting undoes connecting

`connectBlock_undone`: `DisconnectBlock` with the undo record of `ConnectBlock` gives back the coins as
they were.  The record of an input keeps height, version and coinbase flag only for the last output of an
entry, and height 0 means that it does not; entries of height 0 are therefore excluded.
-/

namespace Dobbscoin

open Guard

variable {own : List UInt256} {tx : CTransaction} {v : CoinsView} {undo : CTxInUndo}
  {undos : List CTxUndo} {txid : UInt256} {o : CTxOut}

variable {V : ValidationEnv} {H : Crypto} {m : BlockMap} {nHeight : Nat}

namespace CCoins

/-! ## Entries that a block makes -/

/-- Spent outputs inside `vout` are the null output. -/
def Canonical (c : CCoins) : Prop :=
  ∀ o ∈ c.vout, o.isNull = true → o = CTxOut.null

theorem canonical_empty : empty.Canonical := by
  intro o ho
  simp [empty] at ho

theorem mem_rdropWhile {l : List CTxOut} (h : o ∈ l.rdropWhile CTxOut.isNull) : o ∈ l :=
  (List.rdropWhile_prefix CTxOut.isNull l).subset h

/-- The last output of a tidied entry tells how long it is. -/
theorem Unspent.length_le {c d : CCoins} (hd : d.Unspent) (h : c.output = d.output) :
    d.vout.length ≤ c.vout.length := by
  rcases hd with ⟨o, hlast, hnull⟩
  have hne : d.vout ≠ [] := by
    intro hnil
    simp [hnil] at hlast
  have hget : d.vout[d.vout.length - 1]? = some o := by
    rw [← List.getLast?_eq_getElem?]
    exact hlast
  have hc : c.output (d.vout.length - 1) = some o := by
    rw [h]
    exact output_eq_some.2 ⟨hget, hnull⟩
  have hlt : d.vout.length - 1 < c.vout.length :=
    (List.getElem?_eq_some_iff.1 (output_eq_some.1 hc).1).1
  have hpos : 0 < d.vout.length := List.length_pos_iff.2 hne
  omega

/-- A tidied, canonical entry is determined by what it says. -/
theorem eq_of_content {c d : CCoins} (hc : c.Unspent) (hd : d.Unspent) (hcc : c.Canonical)
    (hdc : d.Canonical) (h : c.content = d.content) : c = d := by
  have houtput : c.output = d.output := congrArg CoinsContent.outputs h
  have hlen : c.vout.length = d.vout.length :=
    le_antisymm (hc.length_le houtput.symm) (hd.length_le houtput)
  have hvout : c.vout = d.vout := by
    apply List.ext_getElem hlen
    intro n hn hn'
    have hat : c.output n = d.output n := congrFun houtput n
    cases hnull : (c.vout[n]).isNull with
    | false =>
      have hsome : c.output n = some c.vout[n] :=
        output_eq_some.2 ⟨List.getElem?_eq_getElem hn, hnull⟩
      rw [hat, output_eq_some, List.getElem?_eq_getElem hn'] at hsome
      exact (Option.some.inj hsome.1).symm
    | true =>
      have hnone : d.output n = none := by
        rw [← hat, output, List.getElem?_eq_getElem hn]
        simp [Option.filter_some, hnull]
      have hnull' : (d.vout[n]).isNull = true := by
        by_contra hne
        have hsome : d.output n = some d.vout[n] :=
          output_eq_some.2 ⟨List.getElem?_eq_getElem hn', by simpa using hne⟩
        rw [hnone] at hsome
        exact absurd hsome (by simp)
      rw [hcc _ (List.getElem_mem hn) hnull, hdc _ (List.getElem_mem hn') hnull']
  cases c
  cases d
  simp only [content, CoinsContent.mk.injEq] at h
  simp only [mk.injEq]
  exact ⟨h.1, hvout, h.2.1, h.2.2.1⟩

/-- An output that a transaction of a checked block leaves: unspendable ones are cleared. -/
theorem mem_fromTx (h : o ∈ (fromTx tx nHeight).vout) :
    o = CTxOut.null ∨ o ∈ tx.vout ∧ o.isUnspendable = false := by
  rcases List.mem_map.1 (mem_rdropWhile h) with ⟨o', ho', rfl⟩
  split_ifs with hu
  · exact Or.inl rfl
  · exact Or.inr ⟨ho', by simpa using hu⟩

theorem not_null_of_checked (htx : tx.Checked) (ho : o ∈ tx.vout) :
    o.isNull = false := by
  have hrange := (htx.values o ho).1
  by_contra hnull
  have hval : o.nValue = -1 := by simpa [CTxOut.isNull] using hnull
  rw [hval] at hrange
  exact absurd hrange (by decide)

theorem canonical_fromTx (htx : tx.Checked) : (fromTx tx nHeight).Canonical := by
  intro o ho hnull
  rcases mem_fromTx ho with heq | ⟨hmem, -⟩
  · exact heq
  · rw [not_null_of_checked htx hmem] at hnull
    exact absurd hnull (by simp)

/-- Clearing unspendable outputs twice is clearing them once. -/
theorem clearUnspendable_fromTx (tx : CTransaction) :
    (fromTx tx nHeight).clearUnspendable = fromTx tx nHeight := by
  have hmap : ((fromTx tx nHeight).vout.map fun o => if o.isUnspendable then CTxOut.null else o) =
      (fromTx tx nHeight).vout := by
    refine (List.map_congr_left ?_).trans (List.map_id _)
    intro o ho
    rcases mem_fromTx ho with rfl | ⟨-, hu⟩
    · simp
    · simp [hu]
  have htidy : (fromTx tx nHeight).cleanup = fromTx tx nHeight := cleanup_cleanup _
  unfold clearUnspendable
  simp only [hmap]
  exact htidy

theorem Canonical.spend {c c' : CCoins} {n : Nat} (hc : c.Canonical)
    (h : c.spend n = some (c', undo)) : c'.Canonical := by
  rcases spend_vout h with ⟨o, -, rfl, -⟩
  intro p hp
  rcases List.mem_or_eq_of_mem_set (mem_rdropWhile hp) with hmem | rfl
  · exact hc p hmem
  · exact fun _ => rfl

/-! ## Restoring one output -/

/-- `vout` after `resize` and the assignment. -/
theorem output_restore (c : CCoins) {n : Nat} (ho : o.isNull = false) :
    CCoins.output { c with vout :=
      (c.vout ++ List.replicate (n + 1 - c.vout.length) CTxOut.null).set n o } =
      Function.update c.output n (some o) := by
  have hlong : n < (c.vout ++ List.replicate (n + 1 - c.vout.length) CTxOut.null).length := by
    rw [List.length_append, List.length_replicate]
    omega
  funext k
  by_cases hk : k = n
  · subst hk
    rw [Function.update_self]
    exact output_eq_some.2 ⟨by rw [List.getElem?_set_self hlong], ho⟩
  · rw [Function.update_of_ne hk]
    simp only [output, List.getElem?_set_ne (Ne.symm hk)]
    by_cases hlt : k < c.vout.length
    · rw [List.getElem?_append_left hlt]
    · rw [List.getElem?_append_right (not_lt.1 hlt), List.getElem?_eq_none (not_lt.1 hlt)]
      cases hr : (List.replicate (n + 1 - c.vout.length) CTxOut.null)[k - c.vout.length]? with
      | none => rfl
      | some p =>
        obtain rfl := List.eq_of_mem_replicate (List.mem_of_getElem? hr)
        simp [Option.filter_some]

theorem canonical_restore {c : CCoins} (hc : c.Canonical) {n : Nat}
    (ho : o.isNull = false) :
    CCoins.Canonical { c with vout :=
      (c.vout ++ List.replicate (n + 1 - c.vout.length) CTxOut.null).set n o } := by
  intro p hp hnull
  rcases List.mem_or_eq_of_mem_set hp with hmem | rfl
  · rcases List.mem_append.1 hmem with hold | hpad
    · exact hc p hold hnull
    · exact List.eq_of_mem_replicate hpad
  · rw [ho] at hnull
    exact absurd hnull (by simp)

end CCoins

/-! ## Views under repair -/

/-- The entries for the block's own ids are canonical. -/
def CoinsView.CanonicalOn (own : List UInt256) (v : CoinsView) : Prop :=
  ∀ t ∈ own, ∀ c, v.coins t = some c → c.Canonical

/-- `w` says what `v` says. -/
structure Repaired (own : List UInt256) (w v : CoinsView) : Prop where
  content : w.content = v.content
  canonical : w.CanonicalOn own

/-- No entry has height 0, the height that stands for no metadata in an undo record. -/
def CoinsView.Heights (v : CoinsView) : Prop :=
  ∀ t c, v.coins t = some c → c.nHeight ≠ 0

theorem CoinsView.entry_of_set {t txid : UInt256} {c d : CCoins}
    (h : (v.set txid c).coins t = some d) :
    t = txid ∧ d = c.cleanup ∨ t ≠ txid ∧ v.coins t = some d := by
  by_cases ht : t = txid
  · subst ht
    rw [CoinsView.set_coins_self] at h
    cases hp : c.isPruned with
    | true => simp [CCoins.normal_eq_none.2 hp] at h
    | false =>
      rw [CCoins.normal_of_not_pruned hp] at h
      exact Or.inl ⟨rfl, (Option.some.inj h).symm⟩
  · rw [CoinsView.set_coins_of_ne v ht] at h
    exact Or.inr ⟨ht, h⟩

theorem CoinsView.Heights.set (h : v.Heights) {c : CCoins}
    (hc : c.nHeight ≠ 0) : (v.set txid c).Heights := by
  intro t d hd
  rcases CoinsView.entry_of_set hd with ⟨-, rfl⟩ | ⟨-, hold⟩
  · exact hc
  · exact h t d hold

theorem CoinsView.CanonicalOn.set (h : v.CanonicalOn own)
    {c : CCoins} (hc : txid ∈ own → c.Canonical) : (v.set txid c).CanonicalOn own := by
  intro t ht d hd
  rcases CoinsView.entry_of_set hd with ⟨rfl, rfl⟩ | ⟨-, hold⟩
  · intro o ho
    exact hc ht o (CCoins.mem_rdropWhile ho)
  · exact h t ht d hold

theorem CoinsView.CanonicalOn.entry (h : v.CanonicalOn own)
    {t : UInt256} (ht : t ∈ own) : (v.entry t).Canonical := by
  cases hc : v.coins t with
  | none =>
    rw [CoinsView.entry_of_none hc]
    exact CCoins.canonical_empty
  | some c =>
    rw [CoinsView.entry_of_some hc]
    exact h t ht c hc

theorem Repaired.set {w v : CoinsView} (h : Repaired own w v)
    {c : CCoins} {v' : CoinsView} (hcontent : (w.set txid c).content = v'.content)
    (hc : txid ∈ own → c.Canonical) : Repaired own (w.set txid c) v' where
  content := hcontent
  canonical := h.canonical.set hc

/-- Restoring a spent output gives the entry back, whether or not it was the last one. -/
theorem restoreInput_spec {v w : CoinsView} {out : COutPoint} {c' : CCoins}
    (hspend : (v.entry out.hash).spend out.n.toNat = some (c', undo))
    (hheights : v.Heights) (hw : Repaired own w (v.set out.hash c')) :
    ∃ w', restoreInput out undo ⟨w, true⟩ = ⟨w', true⟩ ∧ Repaired own w' v := by
  rcases CCoins.spend_spec hspend with ⟨o, hout, hcontent, hundo⟩
  have hnull : o.isNull = false := (CCoins.output_eq_some.1 hout).2
  have hcoins := CoinsView.coins_of_output hout
  have hheight := hheights _ _ hcoins
  have htx : undo.txout = o := by
    rw [hundo]
    split_ifs <;> rfl
  have hview : v.content out.hash = some (v.entry out.hash).content := by
    rw [CoinsView.content, hcoins]
    rfl
  have hat : w.content out.hash = if c'.isPruned then none else some c'.content := by
    rw [hw.content, CoinsView.content_set, if_pos rfl]
  have hother : ∀ t, t ≠ out.hash → w.content t = v.content t := by
    intro t ht
    rw [hw.content, CoinsView.content_set, if_neg ht]
  -- What is left is to see that the restored entry says what the old one said.
  have hfinish : ∀ (d : CCoins), (out.hash ∈ own → d.Canonical) →
      { d.content with outputs := Function.update d.output out.n.toNat (some o) } =
        (v.entry out.hash).content →
      Repaired own (w.set out.hash { d with vout :=
        (d.vout ++ List.replicate (out.n.toNat + 1 - d.vout.length) CTxOut.null).set out.n.toNat o }) v := by
    intro d hd hsays
    refine hw.set ?_ fun hmem => CCoins.canonical_restore (hd hmem) hnull
    have hnew := CCoins.output_restore d hnull (n := out.n.toNat)
    funext t
    rw [CoinsView.content_set]
    split_ifs with ht hp
    · rw [CCoins.isPruned_iff_output, hnew] at hp
      have hsome := hp out.n.toNat
      rw [Function.update_self] at hsome
      exact absurd hsome (by simp)
    · rw [ht, hview, ← hsays]
      simp only [CCoins.content, hnew]
    · exact hother t ht
  cases hp : c'.isPruned with
  | true =>
    -- The entry was spent: the record holds its metadata.
    have hnone : w.coins out.hash = none := by
      rw [← CoinsView.content_eq_none, hat, hp]
      rfl
    rw [hp, if_pos rfl] at hundo
    have hundoHeight : undo.nHeight ≠ 0 := by
      rw [hundo]
      exact hheight
    refine ⟨_, ?_, hfinish ⟨undo.fCoinBase, [], undo.nHeight, undo.nVersion⟩
      (fun _ => by intro p hp; simp at hp) ?_⟩
    · simp only [restoreInput, CoinsView.entry_of_none hnone, if_pos hundoHeight, htx]
      rfl
    · have houtputs : c'.output = Function.update (v.entry out.hash).output out.n.toNat none :=
        congrArg CoinsContent.outputs hcontent
      have hspent := (CCoins.isPruned_iff_output c').1 hp
      rw [hundo]
      simp only [CCoins.content, CoinsContent.mk.injEq, true_and]
      funext k
      by_cases hk : k = out.n.toNat
      · rw [hk, Function.update_self, hout]
      · have hkth := hspent k
        rw [houtputs, Function.update_of_ne hk] at hkth
        rw [Function.update_of_ne hk, hkth, CCoins.output_nil]
  | false =>
    rw [hp] at hat hundo
    simp only [Bool.false_eq_true, if_false] at hat hundo
    rcases Option.map_eq_some_iff.1 hat with ⟨d, hd, hdcontent⟩
    have hentry : w.entry out.hash = d := CoinsView.entry_of_some hd
    have hdoutput : d.output = Function.update (v.entry out.hash).output out.n.toNat none :=
      congrArg CoinsContent.outputs (hdcontent.trans hcontent)
    have hdpruned : d.isPruned = false := (w.unspent _ d hd).not_pruned
    have hdavail : d.isAvailable out.n.toNat = false := by
      rw [CCoins.isAvailable_eq, hdoutput, Function.update_self]
      rfl
    refine ⟨_, ?_, hfinish d (fun hmem => hw.canonical _ hmem d hd) ?_⟩
    · simp [restoreInput, hentry, hundo, hdpruned, hdavail]
    · rw [hdoutput, Function.update_idem, ← hout, Function.update_eq_self, hdcontent, hcontent]
      rfl

/-! ## A transaction -/

theorem spend_nHeight {c c' : CCoins} {n : Nat}
    (h : c.spend n = some (c', undo)) : c'.nHeight = c.nHeight := by
  rcases CCoins.spend_spec h with ⟨o, -, hcontent, -⟩
  exact congrArg CoinsContent.nHeight hcontent

theorem heights_of_spend {n : Nat} {c' : CCoins}
    (hv : v.Heights) (h : (v.entry txid).spend n = some (c', undo)) : (v.set txid c').Heights := by
  rcases CCoins.spend_spec h with ⟨o, hout, -, -⟩
  refine hv.set ?_
  rw [spend_nHeight h]
  exact hv _ _ (CoinsView.coins_of_output hout)

/-- The inputs are restored in the reverse order of their spending. -/
theorem restoreInputs_spec {v v' w : CoinsView} {ins : List CTxIn}
    {undos : List CTxInUndo} (h : spendInputs v ins = .ok (v', undos)) (hheights : v.Heights)
    (hw : Repaired own w v') :
    undos.length = ins.length ∧
      ∃ w', restoreInputs (ins.zip undos) ⟨w, true⟩ = ⟨w', true⟩ ∧ Repaired own w' v := by
  induction ins generalizing v undos with
  | nil =>
    simp only [spendInputs, Except.ok.injEq, Prod.mk.injEq] at h
    rcases h with ⟨rfl, rfl⟩
    exact ⟨rfl, w, rfl, hw⟩
  | cons txin rest ih =>
    cases hs : (v.entry txin.prevout.hash).spend txin.prevout.n.toNat with
    | none => simp [spendInputs, hs] at h
    | some r =>
      rcases r with ⟨coins, undo⟩
      simp only [spendInputs, hs, bind_eq_ok, Prod.exists, Except.ok.injEq, Prod.mk.injEq] at h
      rcases h with ⟨v₁, undos', hrest, rfl, rfl⟩
      rcases ih hrest (heights_of_spend hheights hs) with ⟨hlen, w₁, hrestored, hw₁⟩
      rcases restoreInput_spec hs hheights hw₁ with ⟨w', hlast, hw'⟩
      refine ⟨by rw [List.length_cons, List.length_cons, hlen], w', ?_, hw'⟩
      simp only [List.zip_cons_cons, restoreInputs, hrestored, hlast]

/-- The outputs of a transaction are found as it made them, and removed. -/
theorem removeOutputs_spec {v w : CoinsView}
    (htx : tx.Checked) (hown : tx.getHash H ∈ own) (hnone : v.coins (tx.getHash H) = none)
    (hw : Repaired own w (v.set (tx.getHash H) (CCoins.fromTx tx nHeight))) :
    ∃ w', removeOutputs H nHeight tx ⟨w, true⟩ = ⟨w', true⟩ ∧ Repaired own w' v := by
  have hat : w.content (tx.getHash H) =
      if (CCoins.fromTx tx nHeight).isPruned then none
      else some (CCoins.fromTx tx nHeight).content := by
    rw [hw.content, CoinsView.content_set, if_pos rfl]
  have hremoved : Repaired own (w.set (tx.getHash H) CCoins.empty) v := by
    refine hw.set ?_ fun _ => CCoins.canonical_empty
    funext t
    rw [CoinsView.content_set]
    split_ifs with ht hp
    · rw [ht, CoinsView.content_eq_none.2 hnone]
    · exact absurd rfl hp
    · rw [hw.content, CoinsView.content_set, if_neg ht]
  refine ⟨w.set (tx.getHash H) CCoins.empty, ?_, hremoved⟩
  cases hp : (CCoins.fromTx tx nHeight).isPruned with
  | true =>
    -- Nothing but unspendable outputs: nothing was there, and that is a match.
    have hentry : w.entry (tx.getHash H) = CCoins.empty := by
      apply CoinsView.entry_of_none
      rw [← CoinsView.content_eq_none, hat, hp]
      rfl
    have houts : (if (CCoins.fromTx tx nHeight).nVersion < 0 then
        { CCoins.empty.clearUnspendable with nVersion := (CCoins.fromTx tx nHeight).nVersion }
        else CCoins.empty.clearUnspendable).isPruned = true := by
      split_ifs <;> rfl
    simp only [removeOutputs, hentry, CCoins.same, hp, houts, Bool.and_self, if_true]
  | false =>
    rw [hp, if_neg (by simp)] at hat
    rcases Option.map_eq_some_iff.1 hat with ⟨d, hd, hdcontent⟩
    have hunspent : (CCoins.fromTx tx nHeight).Unspent := by
      have hnormal := CCoins.normal_of_not_pruned hp
      rw [show (CCoins.fromTx tx nHeight).cleanup = CCoins.fromTx tx nHeight from
        CCoins.cleanup_cleanup _] at hnormal
      exact CCoins.unspent_of_normal hnormal
    have hsame : d = CCoins.fromTx tx nHeight :=
      CCoins.eq_of_content (w.unspent _ d hd) hunspent (hw.canonical _ hown d hd)
        (CCoins.canonical_fromTx htx) hdcontent
    have hentry : w.entry (tx.getHash H) = CCoins.fromTx tx nHeight := by
      rw [CoinsView.entry_of_some hd, hsame]
    have hself : (if (CCoins.fromTx tx nHeight).nVersion < 0 then
        { CCoins.fromTx tx nHeight with nVersion := (CCoins.fromTx tx nHeight).nVersion }
        else CCoins.fromTx tx nHeight) = CCoins.fromTx tx nHeight := by
      split_ifs <;> rfl
    simp only [removeOutputs, hentry, CCoins.clearUnspendable_fromTx, hself, CCoins.same]
    simp

/-- Undoing one transaction that is not the coinbase. -/
theorem disconnectTx_spec {v v' w : CoinsView}
    {undo : CTxUndo} (hcb : tx.isCoinBase = false) (htx : tx.Checked)
    (hown : tx.getHash H ∈ own) (hnone : v.coins (tx.getHash H) = none)
    (hupdated : updateCoins H tx v nHeight = .ok (v', undo)) (hheights : v.Heights)
    (hw : Repaired own w v') :
    ∃ w', disconnectTx H nHeight tx (some undo) ⟨w, true⟩ = .ok ⟨w', true⟩ ∧ Repaired own w' v := by
  rcases updateCoins_ok hupdated with ⟨v₁, hspend, rfl⟩
  simp only [hcb, Bool.false_eq_true, if_false] at hspend
  have hnone₁ : v₁.coins (tx.getHash H) = none :=
    spendInputs_keeps (fun _ _ _ _ _ hv hs => coins_none_of_spend hv hs) hspend hnone
  rcases removeOutputs_spec htx hown hnone₁ hw with ⟨w₁, hremoved, hw₁⟩
  rcases restoreInputs_spec hspend hheights hw₁ with ⟨hlen, w', hrestored, hw'⟩
  refine ⟨w', ?_, hw'⟩
  simp only [disconnectTx, hremoved, hlen, ne_eq, not_true_eq_false, if_false, hrestored]

/-! ## A block -/

/-- A transaction makes no entry but its own. -/
theorem coins_of_updateCoins {v v' : CoinsView} {undo : CTxUndo}
    (h : updateCoins H tx v nHeight = .ok (v', undo)) {t : UInt256} (ht : t ≠ tx.getHash H)
    (hnone : v.coins t = none) : v'.coins t = none := by
  refine updateCoins_keeps (fun _ _ _ _ _ hv hs => coins_none_of_spend hv hs) ?_ h hnone
  intro w hw
  rw [CoinsView.set_coins_of_ne w ht, hw]

theorem heights_of_updateCoins {v v' : CoinsView} {undo : CTxUndo}
    (hpos : nHeight ≠ 0) (h : updateCoins H tx v nHeight = .ok (v', undo)) (hheights : v.Heights) :
    v'.Heights :=
  updateCoins_keeps (fun _ _ _ _ _ hv hs => heights_of_spend hv hs) (fun _ hw => hw.set hpos) h hheights

/-- A block leaves its own entries canonical. -/
theorem Connects.canonicalOn {v v' : CoinsView} {txs : List CTransaction}
    (h : Connects H nHeight v txs undos v') (htx : ∀ t ∈ txs, t.Checked)
    (hv : v.CanonicalOn own) : v'.CanonicalOn own := by
  refine h.keeps ?_ ?_ hv
  · intro w txid n c' undo hw hs
    exact hw.set fun hmem => (hw.entry hmem).spend hs
  · intro tx hmem w hw
    exact hw.set fun _ => CCoins.canonical_fromTx (htx tx hmem)

/-- The transactions after the coinbase are undone from the last one back. -/
theorem disconnectTxs_spec {v v' w : CoinsView} {txs : List CTransaction}
    (hpos : nHeight ≠ 0) (h : Connects H nHeight v txs undos v')
    (hcb : ∀ t ∈ txs, t.isCoinBase = false) (htx : ∀ t ∈ txs, t.Checked)
    (hown : ∀ t ∈ txs, t.getHash H ∈ own) (hnodup : (txs.map (CTransaction.getHash H)).Nodup)
    (hfree : ∀ t ∈ txs, v.coins (t.getHash H) = none) (hheights : v.Heights)
    (hw : Repaired own w v') :
    undos.length = txs.length ∧
      ∃ w', disconnectTxs H nHeight (txs.zip (undos.map some)) ⟨w, true⟩ = .ok ⟨w', true⟩ ∧
        Repaired own w' v := by
  induction h with
  | nil v => exact ⟨rfl, w, rfl, hw⟩
  | @cons v v₁ v' tx rest undo undos inputs updated run ih =>
    rcases List.nodup_cons.1 hnodup with ⟨hnew, hnodup'⟩
    have hsub : ∀ t ∈ rest, t ∈ tx :: rest := fun t ht => List.mem_cons_of_mem _ ht
    have hself : tx ∈ tx :: rest := List.mem_cons_self
    have hfree' : ∀ t ∈ rest, v₁.coins (t.getHash H) = none := by
      intro t ht
      have hne : t.getHash H ≠ tx.getHash H := by
        intro hid
        exact hnew (hid ▸ List.mem_map_of_mem ht)
      exact coins_of_updateCoins updated hne (hfree t (hsub t ht))
    rcases ih (fun t ht => hcb t (hsub t ht)) (fun t ht => htx t (hsub t ht))
      (fun t ht => hown t (hsub t ht)) hnodup' hfree' (heights_of_updateCoins hpos updated hheights) hw
      with ⟨hlen, w₁, hrun, hw₁⟩
    rcases disconnectTx_spec (hcb tx hself) (htx tx hself) (hown tx hself) (hfree tx hself) updated
      hheights hw₁ with ⟨w', hlast, hw'⟩
    refine ⟨by rw [List.length_cons, List.length_cons, hlen], w', ?_, hw'⟩
    simp only [List.map_cons, List.zip_cons_cons, disconnectTxs, hrun]
    exact hlast

/-- The transactions of a block, the coinbase included. -/
theorem disconnectVtx_spec {v v' : CoinsView} {coinbase : CTransaction}
    {rest : List CTransaction} {undo : CTxUndo} (hpos : nHeight ≠ 0)
    (h : Connects H nHeight v (coinbase :: rest) (undo :: undos) v')
    (hcoinbase : coinbase.isCoinBase = true) (hcb : ∀ t ∈ rest, t.isCoinBase = false)
    (htx : ∀ t ∈ coinbase :: rest, t.Checked)
    (hinj : ∀ s ∈ coinbase :: rest, ∀ t ∈ coinbase :: rest, s.getHash H = t.getHash H → s = t)
    (hfree : ∀ t ∈ coinbase :: rest, v.coins (t.getHash H) = none) (hheights : v.Heights)
    (hown : ∀ t ∈ coinbase :: rest, t.getHash H ∈ own) (hcanon : v.CanonicalOn own) (hash : UInt256) :
    undos.length = rest.length ∧ ∃ w : CoinsView,
      disconnectTxs H nHeight ((coinbase :: rest).zip (none :: undos.map some))
        ⟨v'.setBestBlock hash, true⟩ = .ok ⟨w, true⟩ ∧ Repaired own w v := by
  have hnodup := h.txids_nodup hinj hfree hcb fun t ht => (htx t ht).vin
  rcases List.nodup_cons.1 hnodup with ⟨hnew, hnodup'⟩
  cases h with
  | @cons _ v₁ _ _ _ _ _ inputs updated run =>
    have hrun : Connects H nHeight v (coinbase :: rest) (undo :: undos) v' :=
      Connects.cons inputs updated run
    have hself : coinbase ∈ coinbase :: rest := List.mem_cons_self
    have hsub : ∀ t ∈ rest, t ∈ coinbase :: rest := fun t ht => List.mem_cons_of_mem _ ht
    have hfree' : ∀ t ∈ rest, v₁.coins (t.getHash H) = none := by
      intro t ht
      have hne : t.getHash H ≠ coinbase.getHash H := by
        intro hid
        exact hnew (hid ▸ List.mem_map_of_mem ht)
      exact coins_of_updateCoins updated hne (hfree t (hsub t ht))
    -- The view after the block is its own repair: what it made is canonical.
    have hstart : Repaired own (v'.setBestBlock hash) v' := ⟨rfl, hrun.canonicalOn htx hcanon⟩
    rcases disconnectTxs_spec hpos run hcb (fun t ht => htx t (hsub t ht))
      (fun t ht => hown t (hsub t ht)) hnodup' hfree' (heights_of_updateCoins hpos updated hheights)
      hstart with ⟨hlen, w₁, hundone, hw₁⟩
    rcases updateCoins_ok updated with ⟨v₂, hspend, rfl⟩
    simp only [hcoinbase, if_true, Except.ok.injEq, Prod.mk.injEq] at hspend
    rw [← hspend.1] at hw₁
    rcases removeOutputs_spec (htx coinbase hself) (hown coinbase hself) (hfree coinbase hself)
      hw₁ with ⟨w, hremoved, hw⟩
    refine ⟨hlen, w, ?_, hw⟩
    simp only [List.zip_cons_cons, disconnectTxs, hundone]
    exact congrArg Except.ok hremoved

/-- The serialized transactions of a block. -/
def CBlock.txMessages (block : CBlock) : Set Bytes :=
  { bytes | ∃ tx ∈ block.vtx, bytes = CTransaction.codec.put tx }

/-- Disconnecting a block whose transactions were connected one after the other. -/
theorem disconnectBlock_spec {rules : ConnectRules} {block : CBlock}
    {pindex pprev : UInt256} {view : CoinsView} {s : ConnectState} (hm : m.WellFormed)
    (hprev : (m.entry pindex).pprev = some pprev) (hrules : rules.nHeight = (m.entry pindex).nHeight)
    (hchecked : block.Checked) (hH : CollisionFreeOn V.crypto block.txMessages)
    (hfree : ∀ tx ∈ block.vtx, view.coins (tx.getHash V.crypto) = none) (hheights : view.Heights)
    (hown : ∀ tx ∈ block.vtx, tx.getHash V.crypto ∈ own) (hcanon : view.CanonicalOn own)
    (h : connectVtx V m rules view block.vtx = .ok s) :
    ∃ w, disconnectBlock V.crypto m block (some ⟨s.vtxundo⟩) pindex (s.view.setBestBlock pindex) =
        .ok (w.setBestBlock pprev, true) ∧ Repaired own w view := by
  have hpos : (m.entry pindex).nHeight ≠ 0 := by
    rw [hm.height pindex pprev hprev]
    exact Nat.succ_ne_zero _
  rcases List.exists_cons_of_ne_nil hchecked.nonempty with ⟨coinbase, rest, hsplit⟩
  rw [hsplit] at h
  rcases connectVtx_ok h with ⟨undo, hrun⟩
  rw [hrules] at hrun
  have hinj : ∀ s ∈ coinbase :: rest, ∀ t ∈ coinbase :: rest,
      s.getHash V.crypto = t.getHash V.crypto → s = t := by
    rw [← hsplit]
    intro s hs t ht hst
    exact CTransaction.getHash_inj hH (hchecked.fits hs) (hchecked.fits ht) ⟨s, hs, rfl⟩
      ⟨t, ht, rfl⟩ hst
  have hcoinbase : coinbase.isCoinBase = true := hchecked.coinbase coinbase (by simp [hsplit])
  have hothers : ∀ t ∈ rest, t.isCoinBase = false := by
    intro t ht
    exact hchecked.others t (by simpa [hsplit] using ht)
  rcases disconnectVtx_spec hpos hrun hcoinbase hothers (hsplit ▸ hchecked.transactions) hinj
    (hsplit ▸ hfree) hheights (hsplit ▸ hown) hcanon pindex with ⟨hlen, w, hundone, hw⟩
  refine ⟨w, ?_, hw⟩
  have hsizes : s.vtxundo.length + 1 = block.vtx.length := by
    rw [hsplit, List.length_cons, hlen]
  have hself : pindex = (s.view.setBestBlock pindex).hashBlock := rfl
  rw [← hsplit] at hundone
  simp only [disconnectBlock, hprev, bind_eq_ok, exists_unit, rejectIf_eq_ok, ne_eq, hsizes,
    not_true_eq_false, not_false_eq_true, true_and]
  exact ⟨not_not_intro hself, ⟨w, true⟩, hundone, rfl⟩

theorem connectBlock_undone (V : ValidationEnv) (m : BlockMap) (hm : m.WellFormed)
    (pindexBestHeader : Option UInt256) (block : CBlock) (pindex : UInt256) (view view' : CoinsView)
    (undo : Option CBlockUndo) (hparent : (m.entry pindex).pprev ≠ none)
    (hgenesis : block.getHash V.crypto ≠ V.params.hashGenesisBlock)
    (hH : CollisionFreeOn V.crypto block.txMessages)
    (hfree : ∀ tx ∈ block.vtx, view.coins (tx.getHash V.crypto) = none) (hheights : view.Heights)
    (h : connectBlock V m pindexBestHeader block pindex view false = .ok (view', undo)) :
    ∃ w, disconnectBlock V.crypto m block undo pindex view' = .ok (w, true) ∧
      w.content = view.content ∧ w.hashBlock = view.hashBlock := by
  rcases Option.ne_none_iff_exists'.1 hparent with ⟨pprev, hprev⟩
  rcases connectBlock_ok h with ⟨hchecked, hbest, hrest⟩
  rw [if_neg hgenesis] at hrest
  rcases connectChecked_ok hrest with ⟨s, -, hvtx, -, -, rfl, rfl⟩
  -- The block's own ids are free, so nothing is known or needed about entries under them.
  have hcanon : view.CanonicalOn (block.vtx.map (CTransaction.getHash V.crypto)) := by
    intro t ht c hc
    rcases List.mem_map.1 ht with ⟨tx, htx, rfl⟩
    rw [hfree tx htx] at hc
    exact absurd hc (by simp)
  rcases disconnectBlock_spec hm hprev rfl hchecked hH hfree hheights
    (fun tx htx => List.mem_map_of_mem htx) hcanon hvtx with ⟨w, hundone, hw⟩
  refine ⟨w.setBestBlock pprev, hundone, hw.content, ?_⟩
  rw [hprev, Option.getD_some] at hbest
  exact hbest

/-! ## Sample blocks -/

/-- A hash is the first 32 bytes of the message. -/
def prefixCrypto : Crypto where
  hash m := BitVec.ofNat 256 (ByteCodec.leNat (m.take 32))
  hashScrypt _ := 0

/-- The genesis header is the one of version 1 without a parent. -/
def undoEnv : ValidationEnv where
  params := { testNetParams with hashGenesisBlock := 1 }
  crypto := prefixCrypto
  horizon := fun _ _ _ => false
  adjustedTime := 100000
  fCheckpointsEnabled := false
  newAddress := id
  verifyScript := fun _ _ _ _ _ => .ok ()
  nScriptCheckThreads := 0
  hashAssumeValid := 0

def undoCoinbase : CTransaction where
  nVersion := 1
  vin := [⟨⟨0, 0xffffffff⟩, [1, 2], 0⟩]
  vout := [⟨50, [0x51]⟩]
  nLockTime := 0

/-- Spends the only output of the entry 7. -/
def undoSpend : CTransaction where
  nVersion := 1
  vin := [⟨⟨7, 0⟩, [], 0⟩]
  vout := [⟨40, [0x51]⟩]
  nLockTime := 0

def undoBlock (nVersion : Int32) (hashPrevBlock : UInt256) (vtx : List CTransaction) : CBlock where
  nVersion := nVersion
  hashPrevBlock := hashPrevBlock
  hashMerkleRoot := undoCoinbase.getHash prefixCrypto
  nTime := 1000
  nBits := getCompact testNetParams.bnProofOfWorkLimit
  nNonce := 0
  auxpow := none
  vtx := vtx

def undoGenesis : CBlock :=
  undoBlock 1 0 [undoCoinbase]

def undoNext : CBlock :=
  undoBlock 2 1 [undoCoinbase, undoSpend]

/-- The hash of `undoNext`. -/
def undoIndex : UInt256 := 0x100000002

/-- The genesis block `1` and the block after it. -/
def undoTree : BlockMap :=
  [{ CBlockIndex.ofHeader undoNext.toCBlockHeader with
     phashBlock := undoIndex, pprev := some 1, nHeight := 1 },
   { CBlockIndex.ofHeader undoGenesis.toCBlockHeader with phashBlock := 1 }]

def undoView (nHeight : Nat) : CoinsView :=
  (CoinsView.empty.set 7 ⟨false, [⟨50, [0x51]⟩], nHeight, 1⟩).setBestBlock 1

/-- Connect a block and disconnect it again; what remains is `fClean`. -/
def roundTrip (block : CBlock) (pindex : UInt256) (view : CoinsView) :
    Except ConnectStop (Except ConnectStop Bool) :=
  match connectBlock undoEnv undoTree none block pindex view false with
  | .error e => .error e
  | .ok (view', undo) =>
    .ok ((disconnectBlock prefixCrypto undoTree block undo pindex view').map Prod.snd)

theorem exists_of_roundTrip {block : CBlock} {pindex : UInt256} {view : CoinsView}
    {r : Except ConnectStop Bool} (h : roundTrip block pindex view = .ok r) :
    ∃ view' undo, connectBlock undoEnv undoTree none block pindex view false = .ok (view', undo) ∧
      (disconnectBlock prefixCrypto undoTree block undo pindex view').map Prod.snd = r := by
  unfold roundTrip at h
  rcases hc : connectBlock undoEnv undoTree none block pindex view false with e | ⟨view', undo⟩
  · simp [hc] at h
  · exact ⟨view', undo, rfl, by simpa [hc] using h⟩

theorem undoTree_wellFormed : undoTree.WellFormed := by
  apply BlockMap.wellFormed_of_check (by decide)
  intro i hi q hq
  have hnone : undoTree.all (fun i => i.pskip.isNone) = true := by decide
  have hi' := List.all_eq_true.1 hnone i hi
  simp [hq] at hi'

set_option maxRecDepth 20000 in
theorem connectBlock_undone_undoNext :
    ∃ view' undo w, connectBlock undoEnv undoTree none undoNext undoIndex (undoView 1) false =
        .ok (view', undo) ∧
      disconnectBlock prefixCrypto undoTree undoNext undo undoIndex view' = .ok (w, true) ∧
      w.content = (undoView 1).content ∧ w.hashBlock = (undoView 1).hashBlock := by
  have hrun : roundTrip undoNext undoIndex (undoView 1) = .ok (.ok true) := by decide
  rcases exists_of_roundTrip hrun with ⟨view', undo, h, -⟩
  have hfree : ∀ tx ∈ undoNext.vtx, (undoView 1).coins (tx.getHash prefixCrypto) = none := by
    decide
  have hheights : (undoView 1).Heights := by
    intro t c hc
    rcases CoinsView.entry_of_set (v := CoinsView.empty) hc with ⟨-, rfl⟩ | ⟨-, hold⟩
    · decide
    · cases hold
  have hmessages : CollisionFreeOn prefixCrypto undoNext.txMessages := by
    have hall : ∀ s ∈ undoNext.vtx, ∀ t ∈ undoNext.vtx,
        s.getHash prefixCrypto = t.getHash prefixCrypto → s = t := by decide
    rintro _ ⟨s, hs, rfl⟩ _ ⟨t, ht, rfl⟩ hst
    rw [hall s hs t ht hst]
  rcases connectBlock_undone undoEnv undoTree undoTree_wellFormed none undoNext undoIndex (undoView 1)
    view' undo (by decide) (by decide) hmessages hfree hheights h with ⟨w, hw⟩
  exact ⟨view', undo, w, h, hw⟩

set_option maxRecDepth 20000 in
/-- An entry of height 0 does not come back clean, and the genesis block does not come back at all. -/
theorem connectBlock_not_undone :
    (∃ view' undo w, (∀ tx ∈ undoNext.vtx, (undoView 0).coins (tx.getHash prefixCrypto) = none) ∧
      connectBlock undoEnv undoTree none undoNext undoIndex (undoView 0) false = .ok (view', undo) ∧
      disconnectBlock prefixCrypto undoTree undoNext undo undoIndex view' = .ok (w, false)) ∧
    ∃ view' undo,
      connectBlock undoEnv undoTree none undoGenesis 1 CoinsView.empty false = .ok (view', undo) ∧
      disconnectBlock prefixCrypto undoTree undoGenesis undo 1 view' =
        .error (.failed "DisconnectBlock() : no undo data available") := by
  constructor
  · have hrun : roundTrip undoNext undoIndex (undoView 0) = .ok (.ok false) := by decide
    rcases exists_of_roundTrip hrun with ⟨view', undo, h, hclean⟩
    rcases hd : disconnectBlock prefixCrypto undoTree undoNext undo undoIndex view' with e | ⟨w, clean⟩
    · rw [hd] at hclean
      cases hclean
    · rw [hd] at hclean
      obtain rfl : clean = false := Except.ok.inj hclean
      exact ⟨view', undo, w, by decide, h, hd⟩
  · have hrun : roundTrip undoGenesis 1 CoinsView.empty =
        .ok (.error (.failed "DisconnectBlock() : no undo data available")) := by
      decide
    rcases exists_of_roundTrip hrun with ⟨view', undo, h, hfailed⟩
    refine ⟨view', undo, h, ?_⟩
    cases hd : disconnectBlock prefixCrypto undoTree undoGenesis undo 1 view' with
    | ok r =>
      rw [hd] at hfailed
      cases hfailed
    | error e =>
      rw [hd] at hfailed
      exact congrArg Except.error (Except.error.inj hfailed)

end Dobbscoin
