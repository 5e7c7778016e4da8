import Dobbscoin.Validation.BlockCoins

/-!
# The money in a view

`supply` is the sum of all unspent outputs.  Spending an output takes its value out, a transaction that
is checked puts at most its `valueOut` in.
-/

namespace Dobbscoin

open Guard

variable {nHeight : Nat}

instance : Finite UInt256 :=
  Finite.of_injective BitVec.toFin fun _ _ h => BitVec.eq_of_toNat_eq (congrArg Fin.val h)

noncomputable instance : Fintype UInt256 :=
  Fintype.ofFinite UInt256

/-! ## Values -/

/-- The value of an output that is not spent. -/
def CTxOut.unspentValue (o : CTxOut) : Int :=
  if o.isNull then 0 else o.nValue.toInt

def CCoins.value (c : CCoins) : Int :=
  (c.vout.map CTxOut.unspentValue).sum

def CoinsView.valueAt (v : CoinsView) (txid : UInt256) : Int :=
  ((v.coins txid).map CCoins.value).getD 0

noncomputable def CoinsView.supply (v : CoinsView) : Int :=
  ∑ txid : UInt256, v.valueAt txid

/-- Every unspent output of the entry is in `MoneyRange`. -/
def CCoins.InRange (c : CCoins) : Prop :=
  ∀ o ∈ c.vout, o.isNull = false → moneyRange o.nValue.toInt

def CoinsView.InRange (v : CoinsView) : Prop :=
  ∀ txid c, v.coins txid = some c → c.InRange

theorem value_of_null {l : List CTxOut} (h : ∀ o ∈ l, o.isNull = true) :
    (l.map CTxOut.unspentValue).sum = 0 := by
  apply List.sum_eq_zero
  intro x hx
  rcases List.mem_map.1 hx with ⟨o, ho, rfl⟩
  simp [CTxOut.unspentValue, h o ho]

@[simp] theorem CCoins.value_cleanup (c : CCoins) : c.cleanup.value = c.value := by
  have hsplit : c.vout.rdropWhile CTxOut.isNull ++ c.vout.rtakeWhile CTxOut.isNull = c.vout :=
    List.rdropWhile_append_rtakeWhile
  have hnull : ((c.vout.rtakeWhile CTxOut.isNull).map CTxOut.unspentValue).sum = 0 :=
    value_of_null fun o ho => List.mem_rtakeWhile_imp ho
  calc
    c.cleanup.value = ((c.vout.rdropWhile CTxOut.isNull).map CTxOut.unspentValue).sum +
        ((c.vout.rtakeWhile CTxOut.isNull).map CTxOut.unspentValue).sum := by
          rw [hnull, add_zero]
          rfl
    _ = c.value := by rw [← List.sum_append, ← List.map_append, hsplit]; rfl

theorem CCoins.value_of_pruned {c : CCoins} (h : c.isPruned = true) : c.value = 0 :=
  value_of_null fun o ho => List.all_eq_true.1 h o ho

theorem CoinsView.valueAt_set (v : CoinsView) (t txid : UInt256) (c : CCoins) :
    (v.set txid c).valueAt t = if t = txid then c.value else v.valueAt t := by
  by_cases ht : t = txid
  · subst ht
    simp only [valueAt, set_coins_self, if_true]
    cases hp : c.isPruned with
    | true => simp [CCoins.normal_eq_none.2 hp, CCoins.value_of_pruned hp]
    | false => simp [CCoins.normal_of_not_pruned hp]
  · simp [valueAt, set_coins_of_ne v ht, ht]

theorem CoinsView.supply_set (v : CoinsView) (txid : UInt256) (c : CCoins) :
    (v.set txid c).supply = v.supply - v.valueAt txid + c.value := by
  have hrest : ∑ t ∈ Finset.univ.erase txid, (v.set txid c).valueAt t =
      ∑ t ∈ Finset.univ.erase txid, v.valueAt t := by
    apply Finset.sum_congr rfl
    intro t ht
    rw [valueAt_set, if_neg (Finset.ne_of_mem_erase ht)]
  have hnew := Finset.add_sum_erase Finset.univ (v.set txid c).valueAt (Finset.mem_univ txid)
  have hold := Finset.add_sum_erase Finset.univ v.valueAt (Finset.mem_univ txid)
  rw [valueAt_set, if_pos rfl, hrest] at hnew
  unfold supply
  linarith

theorem CoinsView.supply_setBestBlock (v : CoinsView) (hash : UInt256) :
    (v.setBestBlock hash).supply = v.supply :=
  rfl

theorem CoinsView.supply_empty : CoinsView.empty.supply = 0 :=
  Finset.sum_eq_zero fun _ _ => rfl

/-- The entry to modify is worth what is there. -/
theorem CoinsView.value_entry (v : CoinsView) (txid : UInt256) :
    (v.entry txid).value = v.valueAt txid := by
  cases hc : v.coins txid with
  | none => simp [entry_of_none hc, valueAt, hc, CCoins.empty, CCoins.value]
  | some c => simp [entry_of_some hc, valueAt, hc]

theorem CTxOut.unspentValue_nonneg {c : CCoins} (h : c.InRange) {o : CTxOut} (ho : o ∈ c.vout) :
    0 ≤ o.unspentValue := by
  unfold unspentValue
  cases hn : o.isNull with
  | true => simp
  | false => simpa using (h o ho hn).1

theorem CoinsView.InRange.valueAt_nonneg {v : CoinsView} (h : v.InRange) (txid : UInt256) :
    0 ≤ v.valueAt txid := by
  unfold CoinsView.valueAt
  cases hc : v.coins txid with
  | none => simp
  | some c =>
    simp only [Option.map_some, Option.getD_some]
    apply List.sum_nonneg
    intro x hx
    rcases List.mem_map.1 hx with ⟨o, ho, rfl⟩
    exact CTxOut.unspentValue_nonneg (h txid c hc) ho

theorem CoinsView.InRange.supply_nonneg {v : CoinsView} (h : v.InRange) : 0 ≤ v.supply :=
  Finset.sum_nonneg fun txid _ => h.valueAt_nonneg txid

/-! ## Keeping outputs in range -/

theorem CoinsView.InRange.set {v : CoinsView} (h : v.InRange) {txid : UInt256} {c : CCoins}
    (hc : c.InRange) : (v.set txid c).InRange := by
  intro t d hd
  by_cases ht : t = txid
  · subst ht
    rw [CoinsView.set_coins_self] at hd
    cases hp : c.isPruned with
    | true => simp [CCoins.normal_eq_none.2 hp] at hd
    | false =>
      rw [CCoins.normal_of_not_pruned hp] at hd
      obtain rfl := Option.some.inj hd
      intro o ho
      exact hc o ((List.rdropWhile_prefix CTxOut.isNull c.vout).subset ho)
  · rw [CoinsView.set_coins_of_ne v ht] at hd
    exact h t d hd

theorem CoinsView.InRange.entry {v : CoinsView} (h : v.InRange) (txid : UInt256) :
    (v.entry txid).InRange := by
  cases hc : v.coins txid with
  | none =>
    rw [CoinsView.entry_of_none hc]
    intro o ho
    simp [CCoins.empty] at ho
  | some c =>
    rw [CoinsView.entry_of_some hc]
    exact h txid c hc

theorem CCoins.InRange.spend {c c' : CCoins} {n : Nat} {undo : CTxInUndo} (hc : c.InRange)
    (h : c.spend n = some (c', undo)) : c'.InRange := by
  rcases CCoins.spend_vout h with ⟨o, -, rfl, -⟩
  intro p hp hnull
  rcases List.mem_or_eq_of_mem_set ((List.rdropWhile_prefix CTxOut.isNull _).subset hp) with hmem | rfl
  · exact hc p hmem hnull
  · exact absurd hnull (by decide)

theorem CoinsView.InRange.spend {v : CoinsView} (hv : v.InRange) {txid : UInt256} {n : Nat}
    {c' : CCoins} {undo : CTxInUndo} (h : (v.entry txid).spend n = some (c', undo)) :
    (v.set txid c').InRange :=
  hv.set ((hv.entry txid).spend h)

theorem mem_clearUnspendable {c : CCoins} {o : CTxOut} (h : o ∈ c.clearUnspendable.vout) :
    o = CTxOut.null ∨ o ∈ c.vout := by
  rcases List.mem_map.1 ((List.rdropWhile_prefix CTxOut.isNull _).subset h) with ⟨o', ho', rfl⟩
  split_ifs
  · exact Or.inl rfl
  · exact Or.inr ho'

theorem inRange_fromTx {tx : CTransaction} (htx : tx.Checked) : (CCoins.fromTx tx nHeight).InRange := by
  intro o ho hnull
  rcases mem_clearUnspendable ho with rfl | hmem
  · exact absurd hnull (by decide)
  · exact htx.values o hmem

/-- Clearing unspendable outputs can only take value away. -/
theorem value_fromTx_le {tx : CTransaction} (htx : tx.Checked) :
    (CCoins.fromTx tx nHeight).value ≤ tx.valueOut := by
  have hle : ∀ o ∈ tx.vout,
      (if o.isUnspendable then CTxOut.null else o).unspentValue ≤ o.nValue.toInt := by
    intro o ho
    have hnonneg : 0 ≤ o.nValue.toInt := (htx.values o ho).1
    by_cases hunspendable : o.isUnspendable = true
    · rw [if_pos hunspendable]
      exact hnonneg
    · rw [if_neg hunspendable]
      unfold CTxOut.unspentValue
      split_ifs
      · exact hnonneg
      · exact Int.le_refl _
  calc
    (CCoins.fromTx tx nHeight).value
        = (tx.vout.map fun o => (if o.isUnspendable then CTxOut.null else o).unspentValue).sum := by
          unfold CCoins.fromTx CCoins.clearUnspendable
          rw [CCoins.value_cleanup, CCoins.value, List.map_map]
          rfl
    _ ≤ (tx.vout.map fun o => o.nValue.toInt).sum := List.sum_le_sum hle
    _ = tx.valueOut := rfl

/-- Spending takes the value of the output out of the entry. -/
theorem value_spend {c c' : CCoins} {n : Nat} {undo : CTxInUndo} {o : CTxOut}
    (h : c.spend n = some (c', undo)) (ho : c.output n = some o) :
    c'.value = c.value - o.nValue.toInt := by
  rcases CCoins.spend_vout h with ⟨-, -, rfl, -⟩
  rcases CCoins.output_eq_some.1 ho with ⟨hn, hnull⟩
  rcases List.getElem?_eq_some_iff.1 hn with ⟨hlt, hget⟩
  rw [CCoins.value_cleanup, CCoins.value, CCoins.value, List.map_set, List.sum_set']
  have hlt' : n < (c.vout.map CTxOut.unspentValue).length := by simpa using hlt
  simp [hlt, hget, CTxOut.unspentValue, hnull]
  rfl

end Dobbscoin
