import Dobbscoin.Primitives.Transaction
import Mathlib.Data.List.DropRight
import Mathlib.Tactic

/-!
# Unspent outputs of a transaction

`CCoins` of `coins.h` and `CTxInUndo` of `undo.h`.  A spent output stays in `vout` as the null output;
`Cleanup` drops the null outputs at the end.  `CCoins.normal` is what is left of an entry for a map in
which fully spent entries are absent.
-/

namespace Dobbscoin

structure CCoins where
  fCoinBase : Bool
  vout : List CTxOut
  nHeight : Nat
  nVersion : Int32
  deriving DecidableEq

/-- `CTxInUndo`: a spent output, with the entry's own fields when it was the last one. -/
structure CTxInUndo where
  txout : CTxOut
  fCoinBase : Bool
  nHeight : Nat
  nVersion : Int32
  deriving DecidableEq

namespace CCoins

/-- `CCoins()`, and what `Clear` leaves. -/
def empty : CCoins :=
  ⟨false, [], 0, 0⟩

def isPruned (c : CCoins) : Bool :=
  c.vout.all CTxOut.isNull

def isAvailable (c : CCoins) (nPos : Nat) : Bool :=
  match c.vout[nPos]? with
  | none => false
  | some o => !o.isNull

/-- `Cleanup`: remove spent outputs at the end of `vout`. -/
def cleanup (c : CCoins) : CCoins :=
  { c with vout := c.vout.rdropWhile CTxOut.isNull }

def clearUnspendable (c : CCoins) : CCoins :=
  let tidied := c.vout.map fun o => if o.isUnspendable then CTxOut.null else o
  { c with vout := tidied }.cleanup

def fromTx (tx : CTransaction) (nHeight : Nat) : CCoins :=
  clearUnspendable ⟨tx.isCoinBase, tx.vout, nHeight, tx.nVersion⟩

/-- `operator==`: pruned entries are equal. -/
def same (a b : CCoins) : Bool :=
  if a.isPruned && b.isPruned then true else a == b

/-- `Spend`: the entry without the output, and the undo record. -/
def spend (c : CCoins) (n : Nat) : Option (CCoins × CTxInUndo) :=
  match c.vout[n]? with
  | none => none
  | some o =>
    if o.isNull then none
    else
      let c' := { c with vout := c.vout.set n CTxOut.null }.cleanup
      some (c',
        if c'.vout.isEmpty then ⟨o, c.fCoinBase, c.nHeight, c.nVersion⟩ else ⟨o, false, 0, 0⟩)

/-! ## Entries of a map without spent entries -/

/-- The last output of the entry is unspent. -/
def Unspent (c : CCoins) : Prop :=
  ∃ o, c.vout.getLast? = some o ∧ o.isNull = false

/-- The entry as it stands in such a map: tidied, or absent. -/
def normal (c : CCoins) : Option CCoins :=
  if c.cleanup.vout.isEmpty then none else some c.cleanup

@[simp] theorem cleanup_vout (c : CCoins) :
    c.cleanup.vout = c.vout.rdropWhile CTxOut.isNull :=
  rfl

@[simp] theorem cleanup_nHeight (c : CCoins) : c.cleanup.nHeight = c.nHeight :=
  rfl

@[simp] theorem cleanup_cleanup (c : CCoins) : c.cleanup.cleanup = c.cleanup := by
  simp [cleanup, List.rdropWhile_idempotent]

theorem isPruned_iff (c : CCoins) : c.isPruned = true ↔ c.cleanup.vout = [] := by
  simp [isPruned, List.rdropWhile_eq_nil_iff]

@[simp] theorem cleanup_isPruned (c : CCoins) : c.cleanup.isPruned = c.isPruned := by
  rw [Bool.eq_iff_iff, isPruned_iff, isPruned_iff, cleanup_cleanup]

theorem normal_eq_none {c : CCoins} : c.normal = none ↔ c.isPruned = true := by
  rw [isPruned_iff]
  simp [normal]

@[simp] theorem normal_empty : empty.normal = none :=
  rfl

theorem normal_of_not_pruned {c : CCoins} (h : c.isPruned = false) : c.normal = some c.cleanup := by
  have hne : ¬ c.cleanup.vout = [] := by
    rw [← isPruned_iff, h]
    exact Bool.false_ne_true
  simp only [normal, List.isEmpty_iff, hne, if_false]

theorem Unspent.cleanup_eq {c : CCoins} (h : c.Unspent) : c.cleanup = c := by
  rcases h with ⟨o, hlast, hnull⟩
  have hself : c.vout.rdropWhile CTxOut.isNull = c.vout := by
    rw [List.rdropWhile_eq_self_iff]
    intro hne
    have hget : c.vout.getLast hne = o := by
      rw [List.getLast?_eq_some_getLast hne] at hlast
      exact Option.some.inj hlast
    simp [hget, hnull]
  simp [cleanup, hself]

theorem Unspent.not_pruned {c : CCoins} (h : c.Unspent) : c.isPruned = false := by
  rw [← Bool.not_eq_true, isPruned_iff, h.cleanup_eq]
  rcases h with ⟨o, hlast, -⟩
  intro hnil
  simp [hnil] at hlast

theorem Unspent.normal_eq {c : CCoins} (h : c.Unspent) : c.normal = some c := by
  rw [normal_of_not_pruned h.not_pruned, h.cleanup_eq]

theorem unspent_of_normal {c d : CCoins} (h : c.normal = some d) : d.Unspent := by
  unfold normal at h
  split_ifs at h with hempty
  obtain rfl := Option.some.inj h
  have hne : c.vout.rdropWhile CTxOut.isNull ≠ [] := by simpa using hempty
  refine ⟨(c.vout.rdropWhile CTxOut.isNull).getLast hne, ?_, ?_⟩
  · exact List.getLast?_eq_some_getLast hne
  · simpa using List.rdropWhile_last_not CTxOut.isNull c.vout hne

theorem normal_cleanup (c : CCoins) : c.cleanup.normal = c.normal := by
  simp [normal]

end CCoins

end Dobbscoin
