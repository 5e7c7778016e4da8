import Dobbscoin.Coins.CCoins

/-!
# The plain coin map

A coin view as validation sees it: a map from transaction ids to entries with an unspent output, and
the block it stands for.
-/

namespace Dobbscoin

/-- Fully spent entries are absent, and entries are tidied. -/
structure CoinsView where
  coins : UInt256 → Option CCoins
  hashBlock : UInt256
  unspent : ∀ txid c, coins txid = some c → c.Unspent

namespace CoinsView

theorem ext {v w : CoinsView} (hcoins : ∀ txid, v.coins txid = w.coins txid)
    (hblock : v.hashBlock = w.hashBlock) : v = w := by
  cases v
  cases w
  simp only [CoinsView.mk.injEq]
  exact ⟨funext hcoins, hblock⟩

def empty : CoinsView :=
  ⟨fun _ => none, 0, by simp⟩

/-- The entry that is modified: an absent one starts out empty. -/
def entry (v : CoinsView) (txid : UInt256) : CCoins :=
  (v.coins txid).getD CCoins.empty

/-- `*view.ModifyCoins(txid) = c`, with the tidying that follows. -/
def set (v : CoinsView) (txid : UInt256) (c : CCoins) : CoinsView where
  coins := Function.update v.coins txid c.normal
  hashBlock := v.hashBlock
  unspent := by
    intro t d hd
    by_cases ht : t = txid
    · subst ht
      rw [Function.update_self] at hd
      exact CCoins.unspent_of_normal hd
    · rw [Function.update_of_ne ht] at hd
      exact v.unspent t d hd

/-- A modification of one entry. -/
def modify (v : CoinsView) (txid : UInt256) (f : CCoins → CCoins) : CoinsView :=
  v.set txid (f (v.entry txid))

def setBestBlock (v : CoinsView) (hashBlock : UInt256) : CoinsView :=
  { v with hashBlock := hashBlock }

@[simp] theorem set_coins_self (v : CoinsView) (txid : UInt256) (c : CCoins) :
    (v.set txid c).coins txid = c.normal := by
  simp [set]

theorem set_coins_of_ne (v : CoinsView) {t txid : UInt256} (h : t ≠ txid) (c : CCoins) :
    (v.set txid c).coins t = v.coins t := by
  simp [set, h]

end CoinsView

end Dobbscoin

/-!
# What an entry says

`content` is what matters of an entry: its unspent outputs by index, height, coinbase flag and version.
Spent outputs inside `vout`, and how long `vout` is, do not.
-/

namespace Dobbscoin

structure CoinsContent where
  fCoinBase : Bool
  nHeight : Nat
  nVersion : Int32
  outputs : Nat → Option CTxOut

namespace CCoins

/-- The output at an index, while it is unspent. -/
def output (c : CCoins) (n : Nat) : Option CTxOut :=
  c.vout[n]?.filter fun o => !o.isNull

def content (c : CCoins) : CoinsContent :=
  ⟨c.fCoinBase, c.nHeight, c.nVersion, c.output⟩

theorem output_eq_some {c : CCoins} {n : Nat} {o : CTxOut} :
    c.output n = some o ↔ c.vout[n]? = some o ∧ o.isNull = false := by
  simp [output, Option.filter_eq_some_iff]

@[simp] theorem output_nil (b : Bool) (h : Nat) (v : Int32) (n : Nat) :
    (CCoins.mk b [] h v).output n = none := by
  simp [output]

theorem isAvailable_eq (c : CCoins) (n : Nat) : c.isAvailable n = (c.output n).isSome := by
  unfold isAvailable output
  cases c.vout[n]? with
  | none => rfl
  | some o => cases ho : o.isNull <;> simp [ho]

theorem isPruned_iff_output (c : CCoins) : c.isPruned = true ↔ ∀ n, c.output n = none := by
  constructor
  · intro h n
    cases hn : c.vout[n]? with
    | none => simp [output, hn]
    | some o =>
      have hnull : o.isNull = true := List.all_eq_true.1 h o (List.mem_of_getElem? hn)
      simp [output, hn, hnull]
  · intro h
    refine List.all_eq_true.2 ?_
    intro o ho
    rcases List.mem_iff_getElem?.1 ho with ⟨n, hn⟩
    by_contra hnull
    have hsome := output_eq_some.2 ⟨hn, by simpa using hnull⟩
    rw [h n] at hsome
    exact absurd hsome (by simp)

/-- Dropping spent outputs at the end changes no unspent output. -/
theorem filter_rdropWhile (l : List CTxOut) (n : Nat) :
    (l.rdropWhile CTxOut.isNull)[n]?.filter (fun o => !o.isNull) =
      l[n]?.filter fun o => !o.isNull := by
  induction l using List.reverseRecOn with
  | nil => rfl
  | append_singleton l o ih =>
    by_cases ho : o.isNull = true
    · rw [List.rdropWhile_concat_pos _ _ _ ho, ih]
      rcases Nat.lt_trichotomy n l.length with hlt | rfl | hgt
      · rw [List.getElem?_append_left hlt]
      · simp [Option.filter_some, ho]
      · have hlong : (l ++ [o]).length ≤ n := by
          rw [List.length_append, List.length_singleton]
          exact hgt
        rw [List.getElem?_eq_none hlong, List.getElem?_eq_none (le_of_lt hgt)]
    · rw [List.rdropWhile_concat_neg _ _ _ ho]

@[simp] theorem output_cleanup (c : CCoins) (n : Nat) : c.cleanup.output n = c.output n :=
  filter_rdropWhile c.vout n

@[simp] theorem content_cleanup (c : CCoins) : c.cleanup.content = c.content := by
  simp only [content, cleanup_nHeight, CoinsContent.mk.injEq, true_and]
  exact ⟨rfl, rfl, funext c.output_cleanup⟩

theorem cleanup_vout_isEmpty (c : CCoins) : c.cleanup.vout.isEmpty = c.isPruned := by
  rw [Bool.eq_iff_iff, isPruned_iff, List.isEmpty_iff]

/-- What `Spend` does to the list of outputs, and what it records. -/
theorem spend_vout {c c' : CCoins} {n : Nat} {undo : CTxInUndo} (h : c.spend n = some (c', undo)) :
    ∃ o, c.output n = some o ∧ c' = cleanup { c with vout := c.vout.set n CTxOut.null } ∧
      undo = if c'.isPruned then ⟨o, c.fCoinBase, c.nHeight, c.nVersion⟩ else ⟨o, false, 0, 0⟩ := by
  unfold spend at h
  cases hn : c.vout[n]? with
  | none => simp [hn] at h
  | some o =>
    cases hnull : o.isNull with
    | true => simp [hn, hnull] at h
    | false =>
      simp only [hn, hnull, cleanup_vout_isEmpty, Bool.false_eq_true, if_false, Option.some.injEq,
        Prod.mk.injEq] at h
      rcases h with ⟨rfl, rfl⟩
      exact ⟨o, output_eq_some.2 ⟨hn, hnull⟩, rfl, by rw [cleanup_isPruned]⟩

/-- What `Spend` does to the unspent outputs, and what it records. -/
theorem spend_spec {c c' : CCoins} {n : Nat} {undo : CTxInUndo} (h : c.spend n = some (c', undo)) :
    ∃ o, c.output n = some o ∧
      c'.content = { c.content with outputs := Function.update c.output n none } ∧
      undo = if c'.isPruned then ⟨o, c.fCoinBase, c.nHeight, c.nVersion⟩ else ⟨o, false, 0, 0⟩ := by
  rcases spend_vout h with ⟨o, ho, rfl, hundo⟩
  refine ⟨o, ho, ?_, hundo⟩
  rw [content_cleanup]
  simp only [content, CoinsContent.mk.injEq, true_and]
  funext k
  by_cases hk : k = n
  · subst hk
    have hlt : k < c.vout.length := (List.getElem?_eq_some_iff.1 (output_eq_some.1 ho).1).1
    simp [output, hlt, Option.filter_some]
  · simp [output, hk, List.getElem?_set_ne (Ne.symm hk)]

end CCoins

namespace CoinsView

def content (v : CoinsView) (txid : UInt256) : Option CoinsContent :=
  (v.coins txid).map CCoins.content

theorem content_eq_none {v : CoinsView} {txid : UInt256} :
    v.content txid = none ↔ v.coins txid = none := by
  simp [content]

/-- A spent entry is not in the map. -/
theorem content_set (v : CoinsView) (t txid : UInt256) (c : CCoins) :
    (v.set txid c).content t =
      if t = txid then (if c.isPruned then none else some c.content) else v.content t := by
  by_cases ht : t = txid
  · subst ht
    simp only [content, set_coins_self, if_true]
    cases hp : c.isPruned with
    | true => simp [CCoins.normal_eq_none.2 hp]
    | false => simp [CCoins.normal_of_not_pruned hp]
  · simp [content, set_coins_of_ne v ht, ht]

theorem entry_of_none {v : CoinsView} {txid : UInt256} (h : v.coins txid = none) :
    v.entry txid = CCoins.empty := by
  simp [entry, h]

theorem entry_of_some {v : CoinsView} {txid : UInt256} {c : CCoins} (h : v.coins txid = some c) :
    v.entry txid = c := by
  simp [entry, h]

/-- An entry with an unspent output is in the map. -/
theorem coins_of_output {v : CoinsView} {txid : UInt256} {n : Nat} {o : CTxOut}
    (h : (v.entry txid).output n = some o) : v.coins txid = some (v.entry txid) := by
  cases hc : v.coins txid with
  | none => simp [entry_of_none hc, CCoins.empty] at h
  | some c => rw [entry_of_some hc]

end CoinsView

end Dobbscoin
