import Dobbscoin.Pow.LWMA3
import Dobbscoin.AuxPow.Check

/-!
# Required work and proof of work

The retarget rules of `pow.cpp` by height (`GetNextWorkRequired`), and the proof-of-work checks.  A
chain is the list of its entries, newest first.

Kimoto's gravity well ends its walk where a ratio of two time spans, computed in `double`, leaves a
band of `double` width.  `Horizon` stands for that comparison; everything else in it is integers.
-/

namespace Dobbscoin

/-! ## The first rule and the two of fixed interval one -/

/-- The last block that is not a special minimum-difficulty block, or the first of the interval. -/
def lastRegularBits (powLimit : UInt32) (interval : Int) (fallback : UInt32) :
    List CBlockIndex → UInt32
  | [] => fallback
  | [first] => first.nBits
  | pindex :: pprev :: rest =>
    if (pindex.nHeight : Int) % interval ≠ 0 ∧ pindex.nBits = powLimit then
      lastRegularBits powLimit interval fallback (pprev :: rest)
    else pindex.nBits

/-- `bnNew.SetCompact(nBits); bnNew *= nActualTimespan; bnNew /= nTargetTimespan`, capped.  The
product takes a `uint32_t`. -/
def scaleTarget (powLimit : UInt256) (nBits : UInt32) (nActualTimespan nTargetTimespan : Int) :
    UInt32 :=
  let bnNew := setCompact nBits * BitVec.ofNat 256 (nActualTimespan % 2 ^ 32).toNat /
    BitVec.ofNat 256 nTargetTimespan.toNat
  getCompact (if bnNew > powLimit then powLimit else bnNew)

def getNextWorkRequiredV1 (P : CChainParams) (pindexLast : List CBlockIndex)
    (pblock : CBlockHeader) : UInt32 :=
  let nProofOfWorkLimit := getCompact P.bnProofOfWorkLimit
  match pindexLast with
  | [] => nProofOfWorkLimit
  | last :: ancestors =>
    if ((last.nHeight : Int) + 1) % P.interval ≠ 0 then
      if P.fAllowMinDifficultyBlocks then
        if (pblock.nTime.toNat : Int) > last.getBlockTime + P.nTargetSpacing * 2 then
          nProofOfWorkLimit
        else lastRegularBits nProofOfWorkLimit P.interval last.nBits (last :: ancestors)
      else last.nBits
    else
      -- The height guarantees the blocks of the interval.
      let first := (last :: ancestors).getD (P.interval - 1).toNat last
      let nActualTimespan := last.getBlockTime - first.getBlockTime
      let nActualTimespan :=
        if nActualTimespan < P.nTargetTimespan.tdiv 4 then P.nTargetTimespan.tdiv 4
        else nActualTimespan
      let nActualTimespan :=
        if nActualTimespan > P.nTargetTimespan * 4 then P.nTargetTimespan * 4 else nActualTimespan
      scaleTarget P.bnProofOfWorkLimit last.nBits nActualTimespan P.nTargetTimespan

/-- DigiShield with a time span of one block, so with an interval of one block. -/
def digiShield (P : CChainParams) (nTargetSpacing : Int) (pindexLast : List CBlockIndex) : UInt32 :=
  match pindexLast with
  | [] => getCompact P.bnProofOfWorkLimit
  | last :: ancestors =>
    let blockstogoback := if last.nHeight + 1 ≠ 1 then 1 else 0
    let first := (last :: ancestors).getD blockstogoback last
    let nActualTimespan := last.getBlockTime - first.getBlockTime
    -- The amplitude filter.
    let nActualTimespan := nTargetSpacing + (nActualTimespan - nTargetSpacing).tdiv 8
    let low := nTargetSpacing - nTargetSpacing.tdiv 4
    let high := nTargetSpacing + nTargetSpacing.tdiv 2
    let nActualTimespan := if nActualTimespan < low then low else nActualTimespan
    let nActualTimespan := if nActualTimespan > high then high else nActualTimespan
    scaleTarget P.bnProofOfWorkLimit last.nBits nActualTimespan nTargetSpacing

def getNextWorkRequiredV3 (P : CChainParams) (pindexLast : List CBlockIndex) : UInt32 :=
  digiShield P (10 * 60) pindexLast

def getNextWorkRequiredV4 (P : CChainParams) (pindexLast : List CBlockIndex) : UInt32 :=
  digiShield P (2 * 60) pindexLast

/-! ## Kimoto's gravity well -/

/-- `BignumFromCompact`. -/
def bignumFromCompact (nCompact : UInt32) : Int :=
  let nSize := nCompact.toNat >>> 24
  let nWord := nCompact.toNat &&& 0x007fffff
  let bn : Nat :=
    if nSize ≤ 3 then nWord >>> (8 * (3 - nSize)) else nWord <<< (8 * (nSize - 3))
  if nCompact.toNat &&& 0x00800000 ≠ 0 then -bn else bn

/-- `CompactFromBignum`. -/
def compactFromBignum (bn : Int) : UInt32 :=
  let nSize := (bn.natAbs.size + 7) / 8
  let nCompact :=
    if nSize ≤ 3 then bn.natAbs <<< (8 * (3 - nSize)) else bn.natAbs >>> (8 * (nSize - 3))
  let packed :=
    if nCompact &&& 0x00800000 ≠ 0 then (nCompact >>> 8) ||| (nSize + 1) <<< 24
    else nCompact ||| nSize <<< 24
  UInt32.ofNat (if bn < 0 then packed ||| 0x00800000 else packed)

/-- Whether `PastRateTargetSeconds / PastRateActualSeconds` is outside the band of the given number
of blocks. -/
abbrev Horizon := Nat → Int → Int → Bool

structure GravityState where
  pastBlocksMass : Nat
  pastDifficultyAverage : Int
  latestBlockTime : Int
  pastRateActualSeconds : Int
  pastRateTargetSeconds : Int

/-- The walk back; `i` counts the blocks read. -/
def gravityLoop (horizon : Horizon) (spacing : Int) (pastBlocksMin pastBlocksMax : Nat) (i : Nat)
    (st : GravityState) : List CBlockIndex → GravityState
  | [] => st
  | reading :: rest =>
    if reading.nHeight = 0 then st
    else if pastBlocksMax > 0 ∧ i > pastBlocksMax then st
    else
      let mass := st.pastBlocksMass + 1
      let difficulty := bignumFromCompact reading.nBits
      let average :=
        if i = 1 then difficulty
        else (difficulty - st.pastDifficultyAverage).tdiv i + st.pastDifficultyAverage
      let latest := max st.latestBlockTime reading.getBlockTime
      let actual := max (latest - reading.getBlockTime) 1
      let st' : GravityState := ⟨mass, average, latest, actual, spacing * mass⟩
      if mass ≥ pastBlocksMin ∧ horizon mass (spacing * mass) actual then st'
      else gravityLoop horizon spacing pastBlocksMin pastBlocksMax (i + 1) st' rest

def kimotoGravityWell (horizon : Horizon) (P : CChainParams) (pindexLast : List CBlockIndex)
    (spacing : Int) (pastBlocksMin pastBlocksMax : Nat) : UInt32 :=
  let limit : Int := P.bnProofOfWorkLimit.toNat
  match pindexLast with
  | [] => compactFromBignum limit
  | last :: _ =>
    if last.nHeight = 0 ∨ last.nHeight < pastBlocksMin then compactFromBignum limit
    else
      let st := gravityLoop horizon spacing pastBlocksMin pastBlocksMax 1
        ⟨0, 0, last.getBlockTime, 0, 0⟩ pindexLast
      let bnNew :=
        if st.pastRateActualSeconds ≠ 0 ∧ st.pastRateTargetSeconds ≠ 0 then
          (st.pastDifficultyAverage * st.pastRateActualSeconds).tdiv st.pastRateTargetSeconds
        else st.pastDifficultyAverage
      compactFromBignum (if bnNew > limit then limit else bnNew)

/-- From a sixteenth of a day to 1.75 days, in ten-minute blocks. -/
def getNextWorkRequiredV2 (horizon : Horizon) (P : CChainParams) (pindexLast : List CBlockIndex) :
    UInt32 :=
  kimotoGravityWell horizon P pindexLast (10 * 60) 9 252

/-! ## The rule in force -/

/-- `DiffMode` at the height of the next block. -/
def diffMode (P : CChainParams) (nHeight : Nat) : Nat :=
  if P.fAllowMinDifficultyBlocks then
    if nHeight ≥ 100 then 5 else if nHeight ≥ 50 then 3 else if nHeight ≥ 20 then 2 else 1
  else
    if nHeight ≥ 1888808 then 5 else if nHeight ≥ 68425 then 4 else if nHeight ≥ 31597 then 3
    else if nHeight ≥ 13579 then 2 else 1

def getNextWorkRequired (horizon : Horizon) (P : CChainParams) (pindexLast : List CBlockIndex)
    (pblock : CBlockHeader) : UInt32 :=
  match pindexLast with
  | [] => getNextWorkRequiredV1 P [] pblock
  | last :: ancestors =>
    if P.fPowNoRetargeting then last.nBits
    else
      match diffMode P (last.nHeight + 1) with
      | 1 => getNextWorkRequiredV1 P (last :: ancestors) pblock
      | 2 => getNextWorkRequiredV2 horizon P (last :: ancestors)
      | 3 => getNextWorkRequiredV3 P (last :: ancestors)
      | 4 => getNextWorkRequiredV4 P (last :: ancestors)
      | _ => getNextWorkRequiredLWMA3 P (last :: ancestors)

/-! ## Proof of work -/

def checkProofOfWork (P : CChainParams) (hash : UInt256) (nBits : UInt32) : Bool :=
  -- The genesis block is ignored.
  if hash = hashGenesisBlockPow then true
  else if P.fSkipProofOfWorkCheck then true
  else
    let bnTarget := setCompact nBits
    if compactNegative nBits || bnTarget = 0 || compactOverflow nBits ||
        bnTarget > P.bnProofOfWorkLimit then false
    else if hash > bnTarget then false
    else true

def checkAuxPowProofOfWork (H : Crypto) (P : CChainParams) (block : CBlockHeader) : Bool :=
  if block.isAuxpow then
    match block.auxpow with
    | none => false
    | some auxpow =>
      if (auxpow.check H (block.getHash H) auxpowChainId).isOk then
        checkProofOfWork P (auxpow.parentBlock.getPoWHash H) block.nBits
      else false
  else checkProofOfWork P (block.getPoWHash H) block.nBits

/-- `2 ^ 256 / (bnTarget + 1)`, in 256 bits. -/
def getBlockProof (nBits : UInt32) : UInt256 :=
  let bnTarget := setCompact nBits
  if compactNegative nBits || compactOverflow nBits || bnTarget = 0 then 0
  else ~~~bnTarget / (bnTarget + 1) + 1

/-- A header whose `nVersion` announces no trailer is judged by its 80 bytes alone. -/
theorem checkAuxPowProofOfWork_pure {H : Crypto} {P : CChainParams} {g h : CBlockHeader}
    (heq : g.toCPureBlockHeader = h.toCPureBlockHeader) (hg : g.isAuxpow = false) :
    checkAuxPowProofOfWork H P g = checkAuxPowProofOfWork H P h := by
  have hh : h.isAuxpow = false := by
    rw [← heq]
    exact hg
  simp [checkAuxPowProofOfWork, hh, heq]

end Dobbscoin
