import Dobbscoin.Validation.CheckInputs
import Mathlib.Data.List.AList

/-!
# The memory pool

`CTxMemPool` of `txmempool.cpp`: the transactions in the pool and the outpoints that they spend.
-/

namespace Dobbscoin

def mempoolHeight : Nat := 0x7fffffff

structure CTxMemPool where
  mapTx : AList fun _ : UInt256 => CTransaction
  /-- The transaction that spends an outpoint, and the input. -/
  mapNextTx : AList fun _ : COutPoint => UInt256 × Nat

namespace CTxMemPool

def empty : CTxMemPool :=
  ⟨∅, ∅⟩

/-- `exists`. -/
def has (pool : CTxMemPool) (hash : UInt256) : Bool :=
  (pool.mapTx.lookup hash).isSome

/-- The loop of `addUnchecked` over the inputs, from the `i`-th on. -/
def addInputs (hash : UInt256) : Nat → List CTxIn → (AList fun _ : COutPoint => UInt256 × Nat) →
    AList fun _ : COutPoint => UInt256 × Nat
  | _, [], mapNextTx => mapNextTx
  | i, txin :: rest, mapNextTx => addInputs hash (i + 1) rest (mapNextTx.insert txin.prevout (hash, i))

def addUnchecked (H : Crypto) (pool : CTxMemPool) (tx : CTransaction) : CTxMemPool where
  mapTx := pool.mapTx.insert (tx.getHash H) tx
  mapNextTx := addInputs (tx.getHash H) 0 tx.vin pool.mapNextTx

/-- `CCoinsViewMemPool` over the coins of the chain. -/
def view (pool : CTxMemPool) (chain : CoinsView) : CoinsView where
  coins txid :=
    match pool.mapTx.lookup txid with
    | some tx => (CCoins.fromTx tx mempoolHeight).normal
    | none => chain.coins txid
  hashBlock := chain.hashBlock
  unspent := by
    intro txid c hc
    cases htx : pool.mapTx.lookup txid with
    | some tx =>
      rw [htx] at hc
      exact CCoins.unspent_of_normal hc
    | none =>
      rw [htx] at hc
      exact chain.unspent txid c hc

theorem has_eq_false {pool : CTxMemPool} {hash : UInt256} :
    pool.has hash = false ↔ pool.mapTx.lookup hash = none := by
  rw [has, Option.isSome_eq_false_iff, Option.isNone_iff_eq_none]

theorem view_coins {pool : CTxMemPool} {hash : UInt256} (h : pool.has hash = false) (chain : CoinsView) :
    (pool.view chain).coins hash = chain.coins hash := by
  simp only [view, has_eq_false.1 h]

end CTxMemPool

end Dobbscoin
