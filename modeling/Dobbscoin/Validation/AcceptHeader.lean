import Dobbscoin.Validation.CheckBlock

/-!
# Accepting headers

`ContextualCheckBlockHeader`, `AddToBlockIndex` and `AcceptBlockHeader`.  `Indexed` is the invariant
they keep: every entry of `mapBlockIndex` represents a header that was accepted.  The AuxPoW trailer of
that header is not part of the entry.
-/

namespace Dobbscoin

open Guard

/-- The entries from a pointer back to its root, newest first. -/
def BlockMap.branch (m : BlockMap) : Nat → Option UInt256 → List CBlockIndex
  | 0, _ => []
  | _ + 1, none => []
  | fuel + 1, some p => m.entry p :: m.branch fuel (m.entry p).pprev

/-- What code that walks back from `pindex` sees. -/
def BlockMap.chainOf (m : BlockMap) (pindex : UInt256) : List CBlockIndex :=
  m.branch ((m.entry pindex).nHeight + 1) (some pindex)

/-! ## Contextual checks -/

/-- `IsSuperMajority`.  The loop stops once it has found enough; the count decides. -/
def isSuperMajority (P : CChainParams) (minVersion : Int32) (pstart : List CBlockIndex)
    (nRequired : Nat) : Bool :=
  nRequired ≤ (pstart.take P.nToCheckBlockUpgradeMajority).countP fun i =>
    minVersion ≤ i.getBaseVersion

/-- `Checkpoints::CheckBlock`. -/
def checkpointsCheckBlock (E : Env) (nHeight : Nat) (hash : UInt256) : Bool :=
  if !E.fCheckpointsEnabled then true
  else
    match E.params.mapCheckpoints.lookup nHeight with
    | none => true
    | some h => hash = h

/-- `Checkpoints::GetLastCheckpoint`: the highest checkpoint that is indexed. -/
def getLastCheckpoint (E : Env) (m : BlockMap) : Option CBlockIndex :=
  if !E.fCheckpointsEnabled then none
  else E.params.mapCheckpoints.reverse.findSome? fun c => m.lookup c.2

/-- `ContextualCheckBlockHeader`; the genesis block has no parent and passes. -/
def contextualCheckBlockHeader (E : Env) (m : BlockMap) (block : CBlockHeader)
    (pindexPrev : UInt256) : Except CValidationError Unit :=
  let hash := block.getHash E.crypto
  if hash = E.params.hashGenesisBlock then .ok ()
  else do
    let chain := m.chainOf pindexPrev
    let nHeight := (m.entry pindexPrev).nHeight + 1
    rejectIf (E.params.fSkipProofOfWorkCheck = false ∧
        block.nBits ≠ getNextWorkRequired E.horizon E.params chain block ∧
        isEmergencyDifficultyBlock E.params block chain = false)
      (.doS 100 rejectInvalid "bad-diffbits")
    rejectIf (nHeight < auxPowForkHeight E.params ∧ block.isAuxpow = true)
      (.doS 100 rejectInvalid "premature-auxpow")
    rejectIf (nHeight < auxPowForkHeight E.params ∧ block.getChainId ≠ 0)
      (.doS 100 rejectInvalid "premature-chainid")
    rejectIf (¬ nHeight < auxPowForkHeight E.params ∧ block.getChainId ≠ auxpowChainId)
      (.doS 100 rejectInvalid "bad-chainid")
    rejectIf (block.getBlockTime ≤ getMedianTimePast chain)
      (.invalid 0 rejectInvalid "time-too-old" false)
    rejectIf (checkpointsCheckBlock E nHeight hash = false)
      (.doS 100 rejectCheckpoint "checkpoint mismatch")
    rejectIf (∃ pcheckpoint ∈ getLastCheckpoint E m, nHeight < pcheckpoint.nHeight) (.doS 100 0 "")
    rejectIf (block.getBaseVersion < 2 ∧
        isSuperMajority E.params 2 chain E.params.nRejectBlockOutdatedMajority = true)
      (.invalid 0 rejectObsolete "bad-version" false)
    rejectIf (block.getBaseVersion < 3 ∧
        isSuperMajority E.params 3 chain E.params.nRejectBlockOutdatedMajority = true)
      (.invalid 0 rejectObsolete "bad-version" false)

/-- A header with the hash of the genesis block names no parent: it is the genesis header, unless
the hash function collides on the two. -/
def CBlockHeader.RootIfGenesis (E : Env) (block : CBlockHeader) : Prop :=
  block.getHash E.crypto = E.params.hashGenesisBlock → block.hashPrevBlock = 0

namespace NodeState

variable {W : Type}

/-! ## The block index -/

/-- The entry `AddToBlockIndex` makes for a new header. -/
def newEntry (E : Env) (m : BlockMap) (block : CBlockHeader) : CBlockIndex :=
  let pprev := (m.lookup block.hashPrevBlock).map fun _ => block.hashPrevBlock
  let nHeight := (pprev.map fun p => (m.entry p).nHeight + 1).getD 0
  { CBlockIndex.ofHeader block with
    phashBlock := block.getHash E.crypto
    pprev := pprev
    nHeight := nHeight
    -- `BuildSkip`
    pskip := pprev.bind fun p => m.getAncestor p (BlockMap.getSkipHeight nHeight)
    nChainWork := (pprev.map fun p => (m.entry p).nChainWork).getD 0 + getBlockProof block.nBits
    nStatus := BlockStatus.null.raiseValidity BlockStatus.validTree
    address := E.newAddress m.length }

def addToBlockIndex (E : Env) (s : NodeState W) (block : CBlockHeader) : NodeState W :=
  if (s.mapBlockIndex.lookup (block.getHash E.crypto)).isSome then s
  else
    let pindexNew := newEntry E s.mapBlockIndex block
    let best := match s.pindexBestHeader with
      | none => some pindexNew.phashBlock
      | some b =>
        if (s.idx b).nChainWork < pindexNew.nChainWork then some pindexNew.phashBlock else some b
    { s with mapBlockIndex := pindexNew :: s.mapBlockIndex, pindexBestHeader := best }

def acceptBlockHeader (E : Env) (s : NodeState W) (block : CBlockHeader) :
    Except CValidationError (UInt256 × NodeState W) :=
  let hash := block.getHash E.crypto
  match s.mapBlockIndex.lookup hash with
  | some pindex =>
    if pindex.nStatus.failed then .error (.invalid 0 0 "duplicate" false) else .ok (hash, s)
  | none => do
    checkBlockHeader E block true
    if hash = E.params.hashGenesisBlock then .ok (hash, s.addToBlockIndex E block)
    else
      match s.mapBlockIndex.lookup block.hashPrevBlock with
      | none => .error (.doS 10 0 "bad-prevblk")
      | some pindexPrev => do
        rejectIf (pindexPrev.nStatus.failed = true) (.doS 100 rejectInvalid "bad-prevblk")
        contextualCheckBlockHeader E s.mapBlockIndex block block.hashPrevBlock
        .ok (hash, s.addToBlockIndex E block)

/-! ## What the index represents -/

/-- The entry is that of an accepted header. -/
structure Represents (E : Env) (block : CBlockHeader) (i : CBlockIndex) : Prop where
  hash : i.phashBlock = block.getHash E.crypto
  header : i.getBlockHeader.toCPureBlockHeader = block.toCPureBlockHeader
  fits : CBlockHeader.codec.Fits block
  pow : checkAuxPowProofOfWork E.crypto E.params block = true

/-- Every entry represents a header that came in over the wire and was accepted. -/
def Indexed (E : Env) (m : BlockMap) : Prop :=
  ∀ i ∈ m, ∃ block, Represents E block i

theorem newEntry_represents {E : Env} {m : BlockMap} {block : CBlockHeader}
    (hprev : (m.lookup block.hashPrevBlock).isSome ∨ block.hashPrevBlock = 0)
    (hfits : CBlockHeader.codec.Fits block)
    (hpow : checkAuxPowProofOfWork E.crypto E.params block = true) :
    Represents E block (newEntry E m block) := by
  refine ⟨rfl, ?_, hfits, hpow⟩
  have hhash : (newEntry E m block).pprev.getD 0 = block.hashPrevBlock := by
    cases hl : m.lookup block.hashPrevBlock with
    | some i => simp [newEntry, hl]
    | none =>
      have hzero : block.hashPrevBlock = 0 := by simpa [hl] using hprev
      have hnone : (newEntry E m block).pprev = none := by simp only [newEntry, hl, Option.map_none]
      rw [hnone, hzero, Option.getD_none]
  simp only [CBlockIndex.getBlockHeader, hhash]
  rfl

/-- What `AddToBlockIndex` does to the map. -/
theorem addToBlockIndex_map (E : Env) (s : NodeState W) (block : CBlockHeader) :
    (s.addToBlockIndex E block).mapBlockIndex =
      if (s.mapBlockIndex.lookup (block.getHash E.crypto)).isSome then s.mapBlockIndex
      else newEntry E s.mapBlockIndex block :: s.mapBlockIndex := by
  unfold addToBlockIndex
  split_ifs <;> rfl

theorem checkBlockHeader_pow {E : Env} {block : CBlockHeader}
    (h : checkBlockHeader E block true = .ok ()) :
    checkAuxPowProofOfWork E.crypto E.params block = true := by
  simp only [checkBlockHeader, bind_eq_ok, exists_unit, rejectIf_eq_ok] at h
  simpa using h.1

/-- **The index invariant.**  A header from the wire that is accepted keeps `Indexed`. -/
theorem acceptBlockHeader_indexed {E : Env} {s s' : NodeState W} {block : CBlockHeader}
    {p : UInt256} (hroot : block.RootIfGenesis E) (hs : Indexed E s.mapBlockIndex)
    (hfits : CBlockHeader.codec.Fits block) (h : s.acceptBlockHeader E block = .ok (p, s')) :
    Indexed E s'.mapBlockIndex := by
  have hadd : (s.mapBlockIndex.lookup block.hashPrevBlock).isSome ∨ block.hashPrevBlock = 0 →
      checkAuxPowProofOfWork E.crypto E.params block = true →
      Indexed E (s.addToBlockIndex E block).mapBlockIndex := by
    intro hprev hpow
    rw [addToBlockIndex_map]
    split_ifs
    · exact hs
    · intro i hi
      rcases List.mem_cons.1 hi with rfl | hi
      · exact ⟨block, newEntry_represents hprev hfits hpow⟩
      · exact hs i hi
  unfold acceptBlockHeader at h
  cases hl : s.mapBlockIndex.lookup (block.getHash E.crypto) with
  | some pindex =>
    simp only [hl] at h
    split_ifs at h
    obtain ⟨-, rfl⟩ := Prod.mk.inj (Except.ok.inj h)
    exact hs
  | none =>
    simp only [hl, bind_eq_ok, exists_unit] at h
    rcases h with ⟨hheader, h⟩
    have hpow := checkBlockHeader_pow hheader
    split_ifs at h with hgenesis
    · obtain ⟨-, rfl⟩ := Prod.mk.inj (Except.ok.inj h)
      exact hadd (Or.inr (hroot hgenesis)) hpow
    · cases hprev : s.mapBlockIndex.lookup block.hashPrevBlock with
      | none => simp [hprev] at h
      | some pindexPrev =>
        simp only [hprev, bind_eq_ok, exists_unit] at h
        obtain ⟨-, rfl⟩ := Prod.mk.inj (Except.ok.inj h.2.2)
        exact hadd (Or.inl (by simp [hprev])) hpow

end NodeState

end Dobbscoin
