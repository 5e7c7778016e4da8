import Dobbscoin.Validation.NodeState

/-!
# ActivateBestChain

`FindMostWorkChain`, `ConnectTip`, `DisconnectTip`, `ActivateBestChainStep` and the loop of
`ActivateBestChain`.  Reading, connecting and disconnecting a block and flushing are the operations
of `TipOps`; everything the functions do to the block tree, the active chain and the candidates is
here.  Fork warnings, notifications and the mempool are left out: no decision below reads them.
-/

namespace Dobbscoin

/-- The parts of `ConnectTip`, `DisconnectTip` and `FlushStateToDisk` that work on the world: block
files, undo data and coins. -/
structure TipOps (W : Type) where
  connect : NodeState W → UInt256 → Option CBlock → Except CValidationError Unit × W
  disconnect : NodeState W → UInt256 → Except CValidationError Unit × W
  flush : W → Except CValidationError Unit × W

namespace NodeState

variable {W : Type}

/-! ## FindMostWorkChain -/

/-- The walk from a candidate down to the active chain: the first failed block on it, if any. -/
def firstFailed (s : NodeState W) : Nat → Option UInt256 → Except Fault (Option UInt256)
  | _, none => .ok none
  | 0, some _ => .error .outOfFuel
  | fuel + 1, some pindexTest =>
    if s.chainActive.contains s.mapBlockIndex pindexTest then .ok none
    else if !(s.idx pindexTest).nStatus.haveData then .error .assertFailed
    else if (s.idx pindexTest).nChainTx = 0 ∧ (s.idx pindexTest).nHeight ≠ 0 then
      .error .assertFailed
    else if (s.idx pindexTest).nStatus.failed then .ok (some pindexTest)
    else s.firstFailed fuel (s.idx pindexTest).pprev

/-- The walk that takes a candidate's blocks above `pindexTest` out of the set. -/
def markFailedChild (pindexTest : UInt256) : Nat → Option UInt256 → NodeState W → NodeState W
  | 0, _, s => s
  | _ + 1, none, s => s
  | fuel + 1, some pindexFailed, s =>
    if pindexFailed = pindexTest then s
    else
      markFailedChild pindexTest fuel (s.idx pindexFailed).pprev
        ((s.setStatus pindexFailed fun n => { n with failedChild := true }).eraseCandidate
          pindexFailed)

/-- `pindexBestInvalid` keeps the invalid block of most work. -/
def noteInvalid (s : NodeState W) (p : UInt256) : NodeState W :=
  match s.pindexBestInvalid with
  | none => { s with pindexBestInvalid := some p }
  | some q =>
    if (s.idx p).nChainWork > (s.idx q).nChainWork then { s with pindexBestInvalid := some p }
    else s

def findMostWorkChainLoop :
    Nat → NodeState W → Except Fault (Option UInt256 × NodeState W)
  | 0, _ => .error .outOfFuel
  | fuel + 1, s =>
    match s.bestCandidate with
    | none => .ok (none, s)
    | some pindexNew =>
      match s.firstFailed ((s.idx pindexNew).nHeight + 1) (some pindexNew) with
      | .error e => .error e
      | .ok none => .ok (some pindexNew, s)
      | .ok (some pindexTest) =>
        -- Candidate has an invalid ancestor, remove entire chain from the set.
        findMostWorkChainLoop fuel
          ((markFailedChild pindexTest ((s.idx pindexNew).nHeight + 1) (some pindexNew)
            (s.noteInvalid pindexNew)).eraseCandidate pindexTest)

/-- Every pass but the last takes a candidate out of the set. -/
def findMostWorkChain (s : NodeState W) : Except Fault (Option UInt256 × NodeState W) :=
  findMostWorkChainLoop (s.setBlockIndexCandidates.length + 1) s

/-! ## Moving the tip -/

def invalidBlockFound (s : NodeState W) (pindex : UInt256) : NodeState W :=
  ((s.setStatus pindex fun n => { n with failedValid := true }).eraseCandidate pindex).noteInvalid
    pindex

/-- `UpdateTip`. -/
def updateTip (s : NodeState W) (pindexNew : Option UInt256) : NodeState W :=
  { s with chainActive := s.chainActive.setTip s.mapBlockIndex pindexNew }

def disconnectTip (ops : TipOps W) (s : NodeState W) (pindexDelete : UInt256) :
    Except CValidationError Unit × NodeState W :=
  match ops.disconnect s pindexDelete with
  | (.error e, w) => (.error e, { s with world := w })
  | (.ok _, w) =>
    (.ok (), ({ s with world := w } : NodeState W).updateTip (s.idx pindexDelete).pprev)

/-- What `ConnectBlock` writes into the entry of a block it has connected. -/
def markConnected (P : CChainParams) (s : NodeState W) (pindex : UInt256) : NodeState W :=
  if pindex = P.hashGenesisBlock then s
  else s.setStatus pindex fun n =>
    ({ n with haveUndo := true } : BlockStatus).raiseValidity BlockStatus.validScripts

/-- The state after `ConnectBlock` succeeded and the new coins were flushed. -/
def connected (P : CChainParams) (s : NodeState W) (w : W) (pindexNew : UInt256) : NodeState W :=
  (({ s with world := w } : NodeState W).markConnected P pindexNew).updateTip (some pindexNew)

def connectTip (ops : TipOps W) (P : CChainParams) (s : NodeState W) (pindexNew : UInt256)
    (pblock : Option CBlock) : Except Fault (Except CValidationError Unit × NodeState W) :=
  if (s.idx pindexNew).pprev ≠ s.tip then .error .assertFailed
  else
    match ops.connect s pindexNew pblock with
    | (.ok _, w) => .ok (.ok (), s.connected P w pindexNew)
    | (.error (.invalid nDoS code reason corruption), w) =>
      if corruption then .ok (.error (.invalid nDoS code reason corruption), { s with world := w })
      else
        .ok (.error (.invalid nDoS code reason corruption),
          ({ s with world := w } : NodeState W).invalidBlockFound pindexNew)
    | (.error (.error reason), w) => .ok (.error (.error reason), { s with world := w })

/-- Delete the candidates that are worse than the current tip.  The set is ordered, so the loop that
erases from its front is a filter. -/
def pruneBlockIndexCandidates (s : NodeState W) : Except Fault (NodeState W) :=
  match s.tip with
  | none => .error .assertFailed
  | some tip =>
    let kept := s.setBlockIndexCandidates.filter fun p => !worse (s.idx p) (s.idx tip)
    if kept.isEmpty then .error .assertFailed
    else .ok { s with setBlockIndexCandidates := kept }

/-! ## ActivateBestChainStep -/

/-- The LWMA-3 fork rule: the switch would reorganize more than `MAX_REORG_DEPTH` blocks of the
current tip. -/
def reorgTooDeep (P : CChainParams) (s : NodeState W) (pindexFork : Option UInt256) : Bool :=
  match pindexFork, s.tip with
  | some fork, some oldTip =>
    if lwma3ForkHeight P ≤ (s.idx oldTip).nHeight then
      let reorgDepth : Int := (s.idx oldTip).nHeight - (s.idx fork).nHeight
      reorgDepth > maxReorgDepth
    else false
  | _, _ => false

/-- `while (chainActive.Tip() && chainActive.Tip() != pindexFork)`. -/
def disconnectLoop (ops : TipOps W) (pindexFork : Option UInt256) :
    Nat → NodeState W → Except Fault (Except CValidationError Unit × NodeState W)
  | 0, _ => .error .outOfFuel
  | fuel + 1, s =>
    match s.tip with
    | none => .ok (.ok (), s)
    | some tip =>
      if some tip = pindexFork then .ok (.ok (), s)
      else
        match s.disconnectTip ops tip with
        | (.error e, s') => .ok (.error e, s')
        | (.ok _, s') => disconnectLoop ops pindexFork fuel s'

/-- How the connecting loops end: `fContinue` still set, cleared, or a system error. -/
inductive LoopExit where
  | goOn
  | stop
  | fail (e : CValidationError)

/-- `BOOST_REVERSE_FOREACH` over the blocks of one chunk, lowest first; `back` is the lowest. -/
def connectBlocks (ops : TipOps W) (P : CChainParams) (pindexMostWork : UInt256)
    (pblock : Option CBlock) (oldTip : Option UInt256) (back : UInt256) :
    List UInt256 → NodeState W → Except Fault (LoopExit × NodeState W)
  | [], s => .ok (.goOn, s)
  | p :: ps, s =>
    match s.connectTip ops P p (if p = pindexMostWork then pblock else none) with
    | .error e => .error e
    | .ok (.error (.invalid _ _ _ corruption), s') =>
      -- The block violates a consensus rule.
      .ok (.stop, if corruption then s' else s'.noteInvalid back)
    | .ok (.error (.error reason), s') => .ok (.fail (.error reason), s')
    | .ok (.ok _, s') =>
      match s'.pruneBlockIndexCandidates with
      | .error e => .error e
      | .ok s'' =>
        match oldTip, s''.tip with
        | some old, some tip =>
          if (s''.idx tip).nChainWork > (s''.idx old).nChainWork then .ok (.stop, s'')
          else connectBlocks ops P pindexMostWork pblock oldTip back ps s''
        | _, _ => .ok (.stop, s'')

/-- `vpindexToConnect`: from `pindexIter` down to height `nHeight`, highest first. -/
def branchDown (m : BlockMap) (nHeight : Int) : Nat → Option UInt256 → List UInt256
  | 0, _ => []
  | _ + 1, none => []
  | fuel + 1, some p =>
    if ((m.entry p).nHeight : Int) = nHeight then []
    else p :: branchDown m nHeight fuel (m.entry p).pprev

/-- The loop over chunks of 32 blocks. -/
def connectLoop (ops : TipOps W) (P : CChainParams) (pindexMostWork : UInt256)
    (pblock : Option CBlock) (oldTip : Option UInt256) :
    Nat → Int → NodeState W → Except Fault (LoopExit × NodeState W)
  | 0, _, _ => .error .outOfFuel
  | fuel + 1, nHeight, s =>
    let mostHeight : Int := (s.idx pindexMostWork).nHeight
    if nHeight = mostHeight then .ok (.goOn, s)
    else
      let nTargetHeight := min (nHeight + 32) mostHeight
      let vpindexToConnect := branchDown s.mapBlockIndex nHeight
        ((s.idx pindexMostWork).nHeight + 1)
        (s.mapBlockIndex.getAncestor pindexMostWork nTargetHeight)
      match connectBlocks ops P pindexMostWork pblock oldTip
          (vpindexToConnect.getLastD pindexMostWork) vpindexToConnect.reverse s with
      | .error e => .error e
      | .ok (.goOn, s') => connectLoop ops P pindexMostWork pblock oldTip fuel nTargetHeight s'
      | .ok (exit, s') => .ok (exit, s')

def badReorgDepth : CValidationError :=
  .invalid 0 rejectObsolete "bad-reorg-depth" false

def activateBestChainStep (ops : TipOps W) (P : CChainParams) (s : NodeState W)
    (pindexMostWork : UInt256) (pblock : Option CBlock) :
    Except Fault (Except CValidationError Unit × NodeState W) :=
  let pindexOldTip := s.tip
  let pindexFork := s.chainActive.findFork s.mapBlockIndex pindexMostWork
  if s.reorgTooDeep P pindexFork then .ok (.error badReorgDepth, s)
  else
    match disconnectLoop ops pindexFork (s.chainActive.length + 1) s with
    | .error e => .error e
    | .ok (.error e, s') => .ok (.error e, s')
    | .ok (.ok _, s') =>
      let nHeight : Int := match pindexFork with
        | some fork => (s'.idx fork).nHeight
        | none => -1
      match connectLoop ops P pindexMostWork pblock pindexOldTip
          ((s'.idx pindexMostWork).nHeight + 2) nHeight s' with
      | .error e => .error e
      | .ok (.fail e, s'') => .ok (.error e, s'')
      | .ok (_, s'') => .ok (.ok (), s'')

/-! ## The loop -/

/-- How one pass of the loop of `ActivateBestChain` ends. -/
inductive Pass (W : Type) where
  | finish (result : Except CValidationError Unit) (s : NodeState W)
  | again (s : NodeState W)

def activatePass (H : Crypto) (ops : TipOps W) (P : CChainParams) (pblock : Option CBlock)
    (s : NodeState W) : Except Fault (Pass W) :=
  match s.findMostWorkChain with
  | .error e => .error e
  | .ok (none, s') => .ok (.finish (.ok ()) s')
  | .ok (some pindexMostWork, s') =>
    -- Whether we have anything to do at all.
    if some pindexMostWork = s'.tip then .ok (.finish (.ok ()) s')
    else
      match activateBestChainStep ops P s' pindexMostWork
          (pblock.filter fun b => b.getHash H = pindexMostWork) with
      | .error e => .error e
      | .ok (.error e, s'') => .ok (.finish (.error e) s'')
      | .ok (.ok _, s'') =>
        if some pindexMostWork = s''.tip then
          let (flushed, w) := ops.flush s''.world
          .ok (.finish flushed { s'' with world := w })
        else .ok (.again s'')

def activateBestChain (H : Crypto) (ops : TipOps W) (P : CChainParams) (pblock : Option CBlock) :
    Nat → NodeState W → Except Fault (Except CValidationError Unit × NodeState W)
  | 0, _ => .error .outOfFuel
  | fuel + 1, s =>
    match activatePass H ops P pblock s with
    | .error e => .error e
    | .ok (.finish result s') => .ok (result, s')
    | .ok (.again s') => activateBestChain H ops P pblock fuel s'

end NodeState

end Dobbscoin
