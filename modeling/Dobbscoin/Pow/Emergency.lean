import Dobbscoin.ChainParams
import Dobbscoin.Chain.BlockIndex
import Dobbscoin.Pow.Compact

/-!
# The emergency-difficulty valve

`EmergencyDifficultyWindow` and `IsEmergencyDifficultyBlock`.  The window is measured from the
parent's timestamp alone, while a parent may carry any time above the median of its eleven
predecessors.  `opensOnlyWhenStuck_iff` says for which chains that is harmless.
-/

namespace Dobbscoin

/-- `EmergencyDifficultyWindow`: the fork is active, and strictly more than six hours passed since
the previous block. -/
def emergencyDifficultyWindow (P : CChainParams) (block : CBlockHeader)
    (pindexPrev : List CBlockIndex) : Bool :=
  match pindexPrev with
  | [] => false
  | prev :: _ =>
    if prev.nHeight + 1 < emergencyDiffForkHeight P then false
    else
      let gap : Int := block.nTime.toNat - prev.nTime.toNat
      gap > emergencyDifficultyGap

def isEmergencyDifficultyBlock (P : CChainParams) (block : CBlockHeader)
    (pindexPrev : List CBlockIndex) : Bool :=
  if !emergencyDifficultyWindow P block pindexPrev then false
  else if block.nBits ≠ getCompact P.bnProofOfWorkLimit then false
  else true

/-- Every block of the chain is later than the median time past of its parent, which is the lower
bound `ContextualCheckBlockHeader` imposes. -/
def TimesAboveMedian : List CBlockIndex → Prop
  | block :: parent :: ancestors =>
    getMedianTimePast (parent :: ancestors) < block.getBlockTime ∧
      TimesAboveMedian (parent :: ancestors)
  | _ => True

instance decidableTimesAboveMedian : (chain : List CBlockIndex) → Decidable (TimesAboveMedian chain)
  | [] => isTrue trivial
  | [_] => isTrue trivial
  | _ :: parent :: ancestors =>
    have := decidableTimesAboveMedian (parent :: ancestors)
    inferInstanceAs (Decidable (_ ∧ _))

/-- Every block that the valve lets through is more than six hours later than everything below it. -/
def OpensOnlyWhenStuck (P : CChainParams) (chain : List CBlockIndex) : Prop :=
  ∀ block : CBlockHeader, isEmergencyDifficultyBlock P block chain = true →
    ∀ a ∈ chain, a.getBlockTime + emergencyDifficultyGap < block.nTime.toNat

theorem isEmergencyDifficultyBlock_iff (P : CChainParams) (block : CBlockHeader)
    (prev : CBlockIndex) (ancestors : List CBlockIndex) :
    isEmergencyDifficultyBlock P block (prev :: ancestors) = true ↔
      emergencyDiffForkHeight P ≤ prev.nHeight + 1 ∧
        prev.getBlockTime + emergencyDifficultyGap < block.nTime.toNat ∧
        block.nBits = getCompact P.bnProofOfWorkLimit := by
  by_cases hfork : prev.nHeight + 1 < emergencyDiffForkHeight P
  · have hnot : ¬ emergencyDiffForkHeight P ≤ prev.nHeight + 1 := by omega
    simp [isEmergencyDifficultyBlock, emergencyDifficultyWindow, hfork, hnot]
  · have hle : emergencyDiffForkHeight P ≤ prev.nHeight + 1 := by omega
    have hgap : emergencyDifficultyGap < (block.nTime.toNat : Int) - prev.nTime.toNat ↔
        prev.getBlockTime + emergencyDifficultyGap < block.nTime.toNat := by
      constructor <;> intro h <;> simp only [CBlockIndex.getBlockTime] at * <;> omega
    simp [isEmergencyDifficultyBlock, emergencyDifficultyWindow, hfork, hle, hgap]

/-- The least block time that opens the valve, when it fits the header. -/
theorem exists_emergency_block {P : CChainParams} {prev : CBlockIndex}
    (ancestors : List CBlockIndex)
    (hfork : emergencyDiffForkHeight P ≤ prev.nHeight + 1)
    (hfits : prev.nTime.toNat + 21601 < 2 ^ 32) :
    ∃ block : CBlockHeader, isEmergencyDifficultyBlock P block (prev :: ancestors) = true ∧
      (block.nTime.toNat : Int) = prev.getBlockTime + emergencyDifficultyGap + 1 := by
  have htime : (UInt32.ofNat (prev.nTime.toNat + 21601)).toNat = prev.nTime.toNat + 21601 := by
    simpa using Nat.mod_eq_of_lt hfits
  let block : CBlockHeader :=
    { prev.getBlockHeader with
      nTime := UInt32.ofNat (prev.nTime.toNat + 21601)
      nBits := getCompact P.bnProofOfWorkLimit }
  have hblock : (block.nTime.toNat : Int) = prev.getBlockTime + emergencyDifficultyGap + 1 := by
    have hnat : block.nTime.toNat = prev.nTime.toNat + 21601 := htime
    simp only [hnat, CBlockIndex.getBlockTime, emergencyDifficultyGap]
    omega
  refine ⟨block, ?_, hblock⟩
  rw [isEmergencyDifficultyBlock_iff]
  exact ⟨hfork, by omega, rfl⟩

/-- **When the valve is safe.**  It opens only on a stuck chain exactly when no ancestor is later
than the parent, unless it cannot open at all: below the fork, or so close to the end of 32-bit
time that no block is six hours later. -/
theorem opensOnlyWhenStuck_iff (P : CChainParams) (prev : CBlockIndex)
    (ancestors : List CBlockIndex) :
    OpensOnlyWhenStuck P (prev :: ancestors) ↔
      (∀ a ∈ ancestors, a.getBlockTime ≤ prev.getBlockTime) ∨
        prev.nHeight + 1 < emergencyDiffForkHeight P ∨
        2 ^ 32 ≤ prev.nTime.toNat + 21601 := by
  constructor
  · intro hsafe
    by_contra hnot
    push Not at hnot
    rcases hnot with ⟨⟨a, ha, hlater⟩, hfork, hfits⟩
    -- The earliest block that opens the valve is at most six hours after the later ancestor.
    rcases exists_emergency_block ancestors hfork hfits with ⟨block, hopen, htime⟩
    have hgap := hsafe block hopen a (List.mem_cons_of_mem _ ha)
    omega
  · intro hcond block hopen a ha
    rcases (isEmergencyDifficultyBlock_iff P block prev ancestors).1 hopen with ⟨hfork, hgap, hbits⟩
    have hle : a.getBlockTime ≤ prev.getBlockTime := by
      rcases hcond with hmono | hbelow | hend
      · rcases List.mem_cons.1 ha with rfl | hanc
        · exact le_refl _
        · exact hmono a hanc
      · omega
      · have hlt : block.nTime.toNat < 2 ^ 32 := block.nTime.toNat_lt
        simp only [CBlockIndex.getBlockTime, emergencyDifficultyGap] at hgap
        omega
    omega

/-! ## A back-dated parent -/

/-- Two hours between blocks up to height 18; the block at 19 is one second above its median. -/
def backDatedChain : List CBlockIndex :=
  { CBlockIndex.null with nHeight := 19, nTime := 94601 } ::
    ((List.range 19).map fun h =>
      { CBlockIndex.null with nHeight := h, nTime := UInt32.ofNat (1000 + 7200 * h) }).reverse

/-- Accepted by the timestamp rule and let through by the valve, four hours before the time of an
ancestor. -/
def backDatedOpener : CBlockHeader :=
  { CBlockIndex.null.getBlockHeader with
    nTime := 116202, nBits := getCompact testNetParams.bnProofOfWorkLimit }

theorem backDatedChain_opens :
    TimesAboveMedian backDatedChain ∧
      getMedianTimePast backDatedChain < backDatedOpener.nTime.toNat ∧
      isEmergencyDifficultyBlock testNetParams backDatedOpener backDatedChain = true ∧
      (∃ a ∈ backDatedChain, (backDatedOpener.nTime.toNat : Int) < a.getBlockTime) ∧
      ¬ OpensOnlyWhenStuck testNetParams backDatedChain := by
  have hopen : isEmergencyDifficultyBlock testNetParams backDatedOpener backDatedChain = true := by
    decide
  have hlater : ∃ a ∈ backDatedChain, (backDatedOpener.nTime.toNat : Int) < a.getBlockTime := by
    decide
  refine ⟨by decide, by decide, hopen, hlater, ?_⟩
  intro hsafe
  rcases hlater with ⟨a, ha, htime⟩
  have hgap := hsafe backDatedOpener hopen a ha
  simp only [emergencyDifficultyGap] at hgap
  omega

end Dobbscoin
