import Dobbscoin.Chain.TreeShape
import Dobbscoin.Pow.TargetLimbs
import Dobbscoin.Validation.AcceptHeader

/-!
# Chain work

`nChainWork` is added up modulo `2 ^ 256` when a header is indexed.  As long as the exact total fits,
it is the sum of the proofs along the branch, so the order of branches by `nChainWork` is the order
by exact work.
-/

namespace Dobbscoin

namespace BlockMap

variable {m : BlockMap} {i : CBlockIndex}

/-- The work of the branch that ends in `p`, as an integer. -/
def exactWork (m : BlockMap) (p : UInt256) : Nat :=
  ((m.chainOf p).map fun i => exactProof i.nBits).sum

/-- A stored block whose branch only has bits that `CheckProofOfWork` can accept, with a total that
256 bits hold. -/
structure Weighable (P : CChainParams) (m : BlockMap) (p : UInt256) : Prop where
  stored : (m.lookup p).isSome
  bits : ∀ i ∈ m.chainOf p, AcceptableBits P i.nBits
  fits : m.exactWork p < 2 ^ 256

/-- `nChainWork` as it is passed on from the parent. -/
def parentWork (m : BlockMap) (i : CBlockIndex) : UInt256 :=
  (i.pprev.map fun p => (m.entry p).nChainWork).getD 0

/-- The links and the sums that `AddToBlockIndex` makes. -/
structure Summed (m : BlockMap) : Prop where
  root : ∀ p, (m.entry p).pprev = none → (m.entry p).nHeight = 0
  stored : ∀ p q, (m.entry p).pprev = some q → (m.lookup q).isSome
  height : ∀ p q, (m.entry p).pprev = some q → (m.entry p).nHeight = (m.entry q).nHeight + 1
  work : ∀ p, (m.lookup p).isSome →
    (m.entry p).nChainWork = m.parentWork (m.entry p) + getBlockProof (m.entry p).nBits

theorem summed_nil : Summed [] where
  root _ _ := rfl
  stored _ _ h := nomatch h
  height _ _ h := nomatch h
  work _ h := nomatch h

theorem Summed.cons (hm : Summed m) (hnew : m.lookup i.phashBlock = none)
    (hroot : i.pprev = none → i.nHeight = 0)
    (hparent : ∀ q, i.pprev = some q → (m.lookup q).isSome ∧ i.nHeight = (m.entry q).nHeight + 1)
    (hwork : i.nChainWork = m.parentWork i + getBlockProof i.nBits) : Summed (i :: m) := by
  have hne : ∀ q, (m.lookup q).isSome → q ≠ i.phashBlock := by
    rintro q hq rfl
    simp [hnew] at hq
  have hold : ∀ j : CBlockIndex, (∀ q, j.pprev = some q → (m.lookup q).isSome) →
      parentWork (i :: m) j = m.parentWork j := by
    intro j hj
    cases hp : j.pprev with
    | none => simp [parentWork, hp]
    | some q => simp [parentWork, hp, entry_cons_of_ne (hne q (hj q hp))]
  refine ⟨fun p hp => ?_, fun p q hq => ?_, fun p q hq => ?_, fun p hp => ?_⟩
  all_goals by_cases heq : p = i.phashBlock
  · subst heq
    rw [entry_cons_self] at hp ⊢
    exact hroot hp
  · rw [entry_cons_of_ne heq] at hp ⊢
    exact hm.root p hp
  · subst heq
    rw [entry_cons_self] at hq
    exact isSome_lookup_cons (hparent q hq).1
  · rw [entry_cons_of_ne heq] at hq
    exact isSome_lookup_cons (hm.stored p q hq)
  · subst heq
    rw [entry_cons_self] at hq ⊢
    rw [entry_cons_of_ne (hne q (hparent q hq).1)]
    exact (hparent q hq).2
  · rw [entry_cons_of_ne heq] at hq ⊢
    rw [entry_cons_of_ne (hne q (hm.stored p q hq))]
    exact hm.height p q hq
  · subst heq
    rw [entry_cons_self, hold i fun q hq => (hparent q hq).1]
    exact hwork
  · rw [lookup_cons_of_ne heq] at hp
    rw [entry_cons_of_ne heq, hold _ (hm.stored p)]
    exact hm.work p hp

/-! ## Along a branch -/

theorem Summed.chainOf_root (hm : Summed m) {p : UInt256} (hp : (m.entry p).pprev = none) :
    m.chainOf p = [m.entry p] := by
  rw [chainOf, hm.root p hp, branch, hp]
  rfl

theorem Summed.chainOf_parent (hm : Summed m) {p q : UInt256} (hq : (m.entry p).pprev = some q) :
    m.chainOf p = m.entry p :: m.chainOf q := by
  rw [chainOf, hm.height p q hq, branch, hq, chainOf]

theorem Summed.exactWork_parent (hm : Summed m) {p q : UInt256} (hq : (m.entry p).pprev = some q) :
    m.exactWork p = exactProof (m.entry p).nBits + m.exactWork q := by
  rw [exactWork, hm.chainOf_parent hq, List.map_cons, List.sum_cons, exactWork]

/-- What a block's branch satisfies, its parent's does. -/
theorem Weighable.parent {P : CChainParams} (hm : Summed m) {p q : UInt256} (hp : Weighable P m p)
    (hq : (m.entry p).pprev = some q) : Weighable P m q where
  stored := hm.stored p q hq
  bits i hi := hp.bits i (by rw [hm.chainOf_parent hq]; exact List.mem_cons_of_mem _ hi)
  fits := lt_of_le_of_lt (by rw [hm.exactWork_parent hq]; exact Nat.le_add_left _ _) hp.fits

theorem Weighable.acceptable {P : CChainParams} {p : UInt256} (hp : Weighable P m p) :
    AcceptableBits P (m.entry p).nBits :=
  hp.bits _ (by rw [chainOf, branch]; exact List.mem_cons_self)

/-- Nothing is lost in the sums; the induction is on the height. -/
theorem Weighable.nChainWork_eq {P : CChainParams} (hm : Summed m) {p : UInt256} (hp : Weighable P m p) :
    (m.entry p).nChainWork.toNat = m.exactWork p := by
  generalize hn : (m.entry p).nHeight = n
  induction n generalizing p with
  | zero =>
    have hroot : (m.entry p).pprev = none := by
      cases hq : (m.entry p).pprev with
      | none => rfl
      | some q =>
        have hheight := hm.height p q hq
        omega
    have hwork : (m.entry p).nChainWork = getBlockProof (m.entry p).nBits := by
      rw [hm.work p hp.stored]
      simp [parentWork, hroot]
    rw [hwork, toNat_getBlockProof hp.acceptable, exactWork, hm.chainOf_root hroot]
    rfl
  | succ n ih =>
    cases hq : (m.entry p).pprev with
    | none =>
      have hheight := hm.root p hq
      omega
    | some q =>
      have hparent : m.parentWork (m.entry p) = (m.entry q).nChainWork := by simp [parentWork, hq]
      have hheight := hm.height p q hq
      have htotal := hm.exactWork_parent hq
      have hfits := hp.fits
      rw [hm.work p hp.stored, hparent, BitVec.toNat_add, ih (hp.parent hm hq) (by omega),
        toNat_getBlockProof hp.acceptable, Nat.add_comm, ← htotal]
      exact Nat.mod_eq_of_lt hfits

end BlockMap

namespace NodeState

variable {W : Type}

/-- `AddToBlockIndex`, for one header after the other. -/
def addAll (E : Env) (s : NodeState W) (blocks : List CBlockHeader) : NodeState W :=
  blocks.foldl (addToBlockIndex E) s

theorem summed_addToBlockIndex {E : Env} {s : NodeState W} (hs : BlockMap.Summed s.mapBlockIndex)
    (block : CBlockHeader) : BlockMap.Summed (s.addToBlockIndex E block).mapBlockIndex := by
  rw [addToBlockIndex_map]
  split_ifs with hknown
  · exact hs
  · have hnew : s.mapBlockIndex.lookup (block.getHash E.crypto) = none := by simpa using hknown
    refine hs.cons hnew (fun hnone => ?_) (fun q hq => ?_) rfl
    · show (((newEntry E s.mapBlockIndex block).pprev).map fun p => (s.mapBlockIndex.entry p).nHeight + 1).getD 0 = 0
      rw [hnone]
      rfl
    · have hheight : (newEntry E s.mapBlockIndex block).nHeight =
          (((newEntry E s.mapBlockIndex block).pprev).map fun p => (s.mapBlockIndex.entry p).nHeight + 1).getD 0 := rfl
      rw [hheight, hq]
      refine ⟨?_, rfl⟩
      have hprev : (s.mapBlockIndex.lookup block.hashPrevBlock).map (fun _ => block.hashPrevBlock) = some q := hq
      rcases Option.map_eq_some_iff.1 hprev with ⟨i, hi, rfl⟩
      rw [hi]
      rfl

theorem summed_addAll {E : Env} {s : NodeState W} (hs : BlockMap.Summed s.mapBlockIndex)
    (blocks : List CBlockHeader) : BlockMap.Summed (s.addAll E blocks).mapBlockIndex := by
  induction blocks generalizing s with
  | nil => exact hs
  | cons block blocks ih => exact ih (summed_addToBlockIndex hs block)

/-- **Chain work is exact.**  The proof of acceptable bits is the quotient of `2 ^ 256` it stands for,
loops and all; along a branch whose total fits, `nChainWork` is the sum of the proofs, it grows with
every block, and it orders branches by their exact work. -/
theorem chainWork_exact (E : Env) (s : NodeState W) (hempty : s.mapBlockIndex = []) (blocks : List CBlockHeader)
    (m : BlockMap) (hm : m = (s.addAll E blocks).mapBlockIndex) :
    (∀ nBits, AcceptableBits E.params nBits →
      ∃ proof, BaseUInt.getBlockProof nBits = .ok proof ∧ BaseUInt.toUInt256 proof = getBlockProof nBits ∧
        proof.value = 2 ^ 256 / ((setCompact nBits).toNat + 1) ∧ 1 ≤ proof.value) ∧
    (∀ p, m.Weighable E.params p →
      (m.entry p).nChainWork.toNat = m.exactWork p ∧
        ∀ q, (m.entry p).pprev = some q → (m.entry q).nChainWork < (m.entry p).nChainWork) ∧
    ∀ p q, m.Weighable E.params p → m.Weighable E.params q →
      ((m.entry p).nChainWork < (m.entry q).nChainWork ↔ m.exactWork p < m.exactWork q) := by
  have hsummed : m.Summed := by
    rw [hm]
    refine summed_addAll ?_ blocks
    rw [hempty]
    exact BlockMap.summed_nil
  refine ⟨fun nBits hbits => ?_, fun p hp => ⟨hp.nChainWork_eq hsummed, fun q hq => ?_⟩, fun p q hp hq => ?_⟩
  · rcases BaseUInt.getBlockProof_eq nBits with ⟨proof, hproof, hvec⟩
    have hvalue : proof.value = exactProof nBits := by
      rw [BaseUInt.toUInt256_eq_iff.1 hvec, toNat_getBlockProof hbits]
    exact ⟨proof, hproof, hvec, hvalue, hvalue ▸ exactProof_pos nBits⟩
  · -- The parent lacks the block's own proof.
    rw [BitVec.lt_def, hp.nChainWork_eq hsummed, (hp.parent hsummed hq).nChainWork_eq hsummed,
      hsummed.exactWork_parent hq]
    exact Nat.lt_add_of_pos_left (exactProof_pos _)
  · rw [BitVec.lt_def, hp.nChainWork_eq hsummed, hq.nChainWork_eq hsummed]

/-! ## A fork -/

/-- The hash is the first byte: the low byte of `nVersion`. -/
def versionCrypto : Crypto where
  hash m := BitVec.ofNat 256 (m.headD 0).toNat
  hashScrypt _ := 0

def workEnv : Env where
  params := testNetParams
  crypto := versionCrypto
  horizon := fun _ _ _ => false
  adjustedTime := 100000
  fCheckpointsEnabled := true
  newAddress := id

def workHeader (nVersion : Int32) (hashPrevBlock : UInt256) (nBits : UInt32) : CBlockHeader where
  nVersion := nVersion
  hashPrevBlock := hashPrevBlock
  hashMerkleRoot := 0
  nTime := 0
  nBits := nBits
  nNonce := 0
  auxpow := none

/-- On the block `1`, the block `2` at the limit and the block `3` at half of it. -/
def forkHeaders : List CBlockHeader :=
  [workHeader 1 0 0x1e0fffff, workHeader 2 1 0x1e0fffff, workHeader 3 1 0x1e07ffff]

def unindexedState : NodeState Unit where
  mapBlockIndex := []
  chainActive := []
  setBlockIndexCandidates := []
  pindexBestInvalid := none
  pindexBestHeader := none
  mapBlocksUnlinked := []
  nBlockSequenceId := 1
  world := ()

theorem acceptableBits_limit : AcceptableBits testNetParams 0x1e0fffff :=
  ⟨by decide, by decide, by decide, by decide⟩

theorem acceptableBits_half : AcceptableBits testNetParams 0x1e07ffff :=
  ⟨by decide, by decide, by decide, by decide⟩

def forkIndex : BlockMap :=
  (unindexedState.addAll workEnv forkHeaders).mapBlockIndex

theorem chainOf_forkIndex :
    (forkIndex.chainOf 2).map CBlockIndex.nBits = [0x1e0fffff, 0x1e0fffff] ∧
      (forkIndex.chainOf 3).map CBlockIndex.nBits = [0x1e07ffff, 0x1e0fffff] ∧
      (forkIndex.lookup 2).isSome ∧ (forkIndex.lookup 3).isSome ∧ (forkIndex.entry 3).pprev = some 1 := by
  decide

theorem weighable_of_bits {p : UInt256} {bits : List UInt32} (hbits : (forkIndex.chainOf p).map CBlockIndex.nBits = bits)
    (hstored : (forkIndex.lookup p).isSome) (hok : ∀ b ∈ bits, AcceptableBits testNetParams b)
    (hfits : (bits.map exactProof).sum < 2 ^ 256) : forkIndex.Weighable testNetParams p where
  stored := hstored
  bits i hi := hok _ (hbits ▸ List.mem_map_of_mem hi)
  fits := by
    have hwork : forkIndex.exactWork p = (bits.map exactProof).sum := by
      rw [← hbits, List.map_map]
      rfl
    rw [hwork]
    exact hfits

theorem chainWork_exact_fork :
    (∃ proof, BaseUInt.getBlockProof 0x1e07ffff = .ok proof ∧ 1 ≤ proof.value) ∧
      (forkIndex.entry 3).nChainWork.toNat = forkIndex.exactWork 3 ∧
      (forkIndex.entry 1).nChainWork < (forkIndex.entry 3).nChainWork ∧
      ((forkIndex.entry 2).nChainWork < (forkIndex.entry 3).nChainWork ↔
        forkIndex.exactWork 2 < forkIndex.exactWork 3) := by
  rcases chainOf_forkIndex with ⟨h2, h3, hs2, hs3, hprev⟩
  have hw2 : forkIndex.Weighable testNetParams 2 := by
    refine weighable_of_bits h2 hs2 (fun b hb => ?_) (by decide)
    simp only [List.mem_cons, List.not_mem_nil, or_false, or_self] at hb
    exact hb ▸ acceptableBits_limit
  have hw3 : forkIndex.Weighable testNetParams 3 := by
    refine weighable_of_bits h3 hs3 (fun b hb => ?_) (by decide)
    simp only [List.mem_cons, List.not_mem_nil, or_false] at hb
    rcases hb with rfl | rfl
    · exact acceptableBits_half
    · exact acceptableBits_limit
  rcases chainWork_exact workEnv unindexedState rfl forkHeaders forkIndex rfl with ⟨hproof, hwork, horder⟩
  rcases hproof 0x1e07ffff acceptableBits_half with ⟨proof, hok, -, -, hpos⟩
  exact ⟨⟨proof, hok, hpos⟩, (hwork 3 hw3).1, (hwork 3 hw3).2 1 hprev, horder 2 3 hw2 hw3⟩

end NodeState

end Dobbscoin
