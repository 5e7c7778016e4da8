import Dobbscoin.Wallet.WalletTx

/-!
# Amounts that are up to date

What an amount depends on, and which amounts are computed again after each change.
-/

namespace Dobbscoin

namespace WalletNode

variable {E : WalletEnv} {w : WalletNode} {wtx : CWalletTx}

/-! ## Transactions that are in the chain or in the pool -/

/-- The block that a transaction is said to be in is in a chain. -/
def Confirmed (E : WalletEnv) (chain : List UInt256) (wtx : CWalletTx) : Prop :=
  wtx.hashBlock ≠ 0 ∧ wtx.nIndex ≠ -1 ∧
    ∃ block, E.readBlock wtx.hashBlock = some block ∧ wtx.hashBlock ∈ chain ∧ merkleOk E wtx block = true

theorem getDepthInMainChainInternal_spec (E : WalletEnv) (w : WalletNode) (wtx : CWalletTx) :
    0 ≤ getDepthInMainChainInternal E w wtx ∧
      (getDepthInMainChainInternal E w wtx ≠ 0 ↔ Confirmed E w.chainActive wtx) := by
  unfold getDepthInMainChainInternal Confirmed
  by_cases hnone : wtx.hashBlock = 0 ∨ wtx.nIndex = -1
  · rw [if_pos hnone]
    refine ⟨le_refl 0, fun h => absurd rfl h, fun h => ?_⟩
    exact absurd hnone (not_or.2 ⟨h.1, h.2.1⟩)
  · rw [if_neg hnone]
    rw [not_or] at hnone
    cases hread : E.readBlock wtx.hashBlock with
    | none => simp
    | some block =>
      dsimp only
      by_cases hchain : wtx.hashBlock ∉ w.chainActive
      · rw [if_pos hchain]
        simp [hchain]
      · rw [if_neg hchain]
        rw [not_not] at hchain
        by_cases hmerkle : merkleOk E wtx block = false
        · rw [if_pos hmerkle]
          simp [hmerkle]
        · rw [if_neg hmerkle]
          rw [Bool.not_eq_false] at hmerkle
          refine ⟨by positivity, fun _ => ⟨hnone.1, hnone.2, block, rfl, hchain, hmerkle⟩, fun _ => ?_⟩
          exact (Int.lt_add_one_iff.2 (Int.natCast_nonneg _)).ne'

end WalletNode

end Dobbscoin
