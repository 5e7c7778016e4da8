import Dobbscoin.ChainParams
import Dobbscoin.Chain.Chain

/-!
# The node's chain state

The globals of `main.cpp` that hold the block tree, the active chain and the candidates for its
tip, and the outcome type `CValidationState`.  What lies outside (the coin database, the block files,
the clock) is the type `W` of the world.
-/

namespace Dobbscoin

/-- `CValidationState` of a failed check: a broken rule, or a system error. -/
inductive CValidationError where
  | invalid (nDoS : Nat) (chRejectCode : UInt8) (strRejectReason : String)
      (corruptionPossible : Bool)
  | error (strRejectReason : String)
  deriving DecidableEq

def rejectInvalid : UInt8 := 0x10
def rejectObsolete : UInt8 := 0x11
def rejectCheckpoint : UInt8 := 0x43

/-- `state.DoS(level, .., code, reason)` of a rule that no corruption of the block can break. -/
def CValidationError.doS (level : Nat) (code : UInt8) (reason : String) : CValidationError :=
  .invalid level code reason false

/-- What a run that does not return ends with. -/
inductive Fault where
  | assertFailed
  | outOfFuel
  deriving DecidableEq

structure NodeState (W : Type) where
  mapBlockIndex : BlockMap
  chainActive : CChain
  setBlockIndexCandidates : List UInt256
  pindexBestInvalid : Option UInt256
  pindexBestHeader : Option UInt256
  /-- All pairs A->B, where A or one of its ancestors misses transactions, but B has transactions. -/
  mapBlocksUnlinked : List (UInt256 × UInt256)
  nBlockSequenceId : UInt32
  world : W

/-- `CBlockIndexWorkComparator`: `pa` is a worse tip than `pb`. -/
def worse (pa pb : CBlockIndex) : Bool :=
  if pa.nChainWork > pb.nChainWork then false
  else if pa.nChainWork < pb.nChainWork then true
  else if pa.nSequenceId < pb.nSequenceId then false
  else if pa.nSequenceId > pb.nSequenceId then true
  else if pa.address < pb.address then false
  else if pa.address > pb.address then true
  else false

/-- The key `worse` compares: more work, then received earlier, then the lower address. -/
def CBlockIndex.rank (i : CBlockIndex) : Nat ×ₗ Natᵒᵈ ×ₗ Natᵒᵈ :=
  toLex (i.nChainWork.toNat, toLex (OrderDual.toDual i.nSequenceId.toNat,
    OrderDual.toDual i.address))

theorem worse_iff (pa pb : CBlockIndex) : worse pa pb = true ↔ pa.rank < pb.rank := by
  simp only [worse, CBlockIndex.rank, Prod.Lex.toLex_lt_toLex, OrderDual.toDual_lt_toDual,
    OrderDual.toDual_inj, gt_iff_lt, BitVec.lt_def, UInt32.lt_iff_toNat_lt]
  split_ifs <;> simp <;> omega

theorem worse_irrefl (i : CBlockIndex) : worse i i = false := by
  have h : ¬ worse i i = true := by
    rw [worse_iff]
    exact lt_irrefl _
  simpa using h

/-- Not being worse is a total preorder. -/
theorem not_worse_trans {a b c : CBlockIndex} (hab : worse a b = false) (hbc : worse b c = false) :
    worse a c = false := by
  have hab' : b.rank ≤ a.rank := not_lt.1 fun h => by simp [(worse_iff a b).2 h] at hab
  have hbc' : c.rank ≤ b.rank := not_lt.1 fun h => by simp [(worse_iff b c).2 h] at hbc
  have hac : ¬ worse a c = true := by
    rw [worse_iff]
    exact not_lt.2 (le_trans hbc' hab')
  simpa using hac

theorem not_worse_of_worse {a b : CBlockIndex} (hab : worse a b = true) : worse b a = false := by
  have hba : ¬ worse b a = true := by
    rw [worse_iff] at hab ⊢
    exact not_lt.2 hab.le
  simpa using hba

/-- More work is a better tip. -/
theorem worse_of_work {a b : CBlockIndex} (h : a.nChainWork < b.nChainWork) : worse a b = true := by
  have hnot : ¬ a.nChainWork > b.nChainWork := by
    simp only [gt_iff_lt, BitVec.lt_def] at h ⊢
    omega
  simp [worse, h, hnot]

/-- The greatest pointer of a set in the order of its entries. -/
def bestOf (idx : UInt256 → CBlockIndex) : List UInt256 → Option UInt256
  | [] => none
  | p :: ps =>
    match bestOf idx ps with
    | none => some p
    | some q => if worse (idx q) (idx p) then some p else some q

theorem bestOf_eq_none {idx : UInt256 → CBlockIndex} {ps : List UInt256}
    (h : bestOf idx ps = none) : ps = [] := by
  cases ps with
  | nil => rfl
  | cons p ps =>
    rw [bestOf] at h
    cases hb : bestOf idx ps with
    | none => simp [hb] at h
    | some q =>
      simp only [hb] at h
      split_ifs at h

theorem bestOf_spec {idx : UInt256 → CBlockIndex} {ps : List UInt256} {b : UInt256}
    (h : bestOf idx ps = some b) : b ∈ ps ∧ ∀ p ∈ ps, worse (idx b) (idx p) = false := by
  induction ps generalizing b with
  | nil => simp [bestOf] at h
  | cons p ps ih =>
    rw [bestOf] at h
    cases hb : bestOf idx ps with
    | none =>
      have hnil := bestOf_eq_none hb
      subst hnil
      obtain rfl : p = b := by simpa [hb] using h
      simp [worse_irrefl]
    | some q =>
      rcases ih hb with ⟨hq, hmax⟩
      simp only [hb] at h
      split_ifs at h with hworse
      · obtain rfl := Option.some.inj h
        refine ⟨List.mem_cons_self, ?_⟩
        intro r hr
        rcases List.mem_cons.1 hr with rfl | hr
        · exact worse_irrefl _
        · exact not_worse_trans (not_worse_of_worse hworse) (hmax r hr)
      · obtain rfl := Option.some.inj h
        refine ⟨List.mem_cons_of_mem _ hq, ?_⟩
        intro r hr
        rcases List.mem_cons.1 hr with rfl | hr
        · simpa using hworse
        · exact hmax r hr

namespace NodeState

variable {W : Type}

/-- The entry behind a pointer. -/
def idx (s : NodeState W) (p : UInt256) : CBlockIndex :=
  s.mapBlockIndex.entry p

def tip (s : NodeState W) : Option UInt256 :=
  s.chainActive.tip

/-- Assignment to the `nStatus` of an entry. -/
def setStatus (s : NodeState W) (p : UInt256) (f : BlockStatus → BlockStatus) : NodeState W :=
  { s with mapBlockIndex := s.mapBlockIndex.setStatus p f }

/-- `setBlockIndexCandidates.erase`. -/
def eraseCandidate (s : NodeState W) (p : UInt256) : NodeState W :=
  { s with setBlockIndexCandidates := s.setBlockIndexCandidates.filter (· ≠ p) }

/-- `*setBlockIndexCandidates.rbegin()`. -/
def bestCandidate (s : NodeState W) : Option UInt256 :=
  bestOf s.idx s.setBlockIndexCandidates

end NodeState

end Dobbscoin
