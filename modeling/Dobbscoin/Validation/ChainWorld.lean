import Dobbscoin.Validation.AcceptBlock
import Dobbscoin.Validation.ConnectBlock
import Dobbscoin.Validation.Moves

/-!
# A node with files, coins and a clock

`ConnectTip` and `DisconnectTip` on block files, undo data and `pcoinsTip`, and the calls that
`ActivateBestChain` is made of.  What the node does not decide itself, the readings of the clock and the
outcomes of writing to disk, is a stream of answers to come.
-/

namespace Dobbscoin

open Guard

/-- What is outside of the block tree. -/
structure ChainWorld where
  blocks : UInt256 → Option CBlock
  undo : UInt256 → Option CBlockUndo
  coins : CoinsView
  /-- `GetAdjustedTime()`; the next reading is the first. -/
  clock : Nat → Int
  /-- How the next writes to disk end. -/
  disk : Nat → Except String Unit

namespace ChainWorld

def now (w : ChainWorld) : Int :=
  w.clock 0

/-- The clock was read. -/
def tick (w : ChainWorld) : ChainWorld :=
  { w with clock := fun n => w.clock (n + 1) }

def write (w : ChainWorld) : Except CValidationError Unit × ChainWorld :=
  ((w.disk 0).mapError .error, { w with disk := fun n => w.disk (n + 1) })

/-- `ReadBlockFromDisk`, which checks the header again. -/
def readBlockFromDisk (V : ValidationEnv) (w : ChainWorld) (pindex : UInt256) : Option CBlock :=
  (w.blocks pindex).filter fun block =>
    checkAuxPowProofOfWork V.crypto V.params block.toCBlockHeader &&
      decide (block.getHash V.crypto = pindex)

end ChainWorld

/-- The same rules at another reading of the clock. -/
def ValidationEnv.atTime (V : ValidationEnv) (now : Int) : ValidationEnv :=
  { V with adjustedTime := now }

/-- What `ConnectTip` makes of a failure; where the program would stop, the call ends. -/
def ConnectStop.toValidation : ConnectStop → CValidationError
  | .rejected e => e
  | .failed message => .error message
  | .assertFailed => .error "assertion failed"
  | .overflow => .error "signed overflow"
  | .threw what => .error what

namespace NodeState

/-- The block that `ConnectTip` connects: the one at hand, or the one on disk. -/
def blockToConnect (V : ValidationEnv) (s : NodeState ChainWorld) (pindex : UInt256)
    (pblock : Option CBlock) : Option CBlock :=
  pblock.orElse fun _ => s.world.readBlockFromDisk V pindex

/-- `ConnectBlock` as `ConnectTip` calls it, at a reading of the clock. -/
def tryConnect (V : ValidationEnv) (s : NodeState ChainWorld) (pindex : UInt256) (block : CBlock)
    (now : Int) : Except ConnectStop (CoinsView × Option CBlockUndo) :=
  connectBlock (V.atTime now) s.mapBlockIndex s.pindexBestHeader block pindex s.world.coins false

def connectWorld (V : ValidationEnv) (s : NodeState ChainWorld) (pindex : UInt256)
    (pblock : Option CBlock) : Except CValidationError Unit × ChainWorld :=
  match s.blockToConnect V pindex pblock with
  | none => (.error (.error "Failed to read block"), s.world)
  | some block =>
    match s.tryConnect V pindex block s.world.now with
    | .error stop => (.error stop.toValidation, s.world.tick)
    | .ok (view, blockundo) =>
      ChainWorld.write
        { s.world.tick with
          coins := view
          undo := fun p => if p = pindex then blockundo.orElse fun _ => s.world.undo p
            else s.world.undo p }

/-- `DisconnectTip`; a block that does not come apart cleanly is an error. -/
def disconnectWorld (V : ValidationEnv) (s : NodeState ChainWorld) (pindex : UInt256) :
    Except CValidationError Unit × ChainWorld :=
  match s.world.readBlockFromDisk V pindex with
  | none => (.error (.error "Failed to read block"), s.world)
  | some block =>
    match disconnectBlock V.crypto s.mapBlockIndex block (s.world.undo pindex) pindex
        s.world.coins with
    | .error stop => (.error stop.toValidation, s.world)
    | .ok (view, fClean) =>
      if fClean then ChainWorld.write { s.world with coins := view }
      else (.error (.error "DisconnectTip() : DisconnectBlock failed"), s.world)

def chainOps (V : ValidationEnv) : TipOps ChainWorld where
  connect := connectWorld V
  disconnect := disconnectWorld V
  flush := ChainWorld.write

/-- `FindBlockPos` and `WriteBlockToDisk`. -/
def chainStore : BlockStore ChainWorld where
  store w pindex block :=
    match w.write with
    | (.error e, w') => (.error e, w')
    | (.ok _, w') =>
      (.ok (), { w' with blocks := fun p => if p = pindex then some block else w'.blocks p })

/-! ## The calls of ActivateBestChain -/

/-- The calls that change the state. -/
inductive TipCall where
  | findMostWorkChain
  | disconnectTip (pindexDelete : UInt256)
  | connectTip (pindexNew : UInt256) (pblock : Option CBlock)
  | pruneBlockIndexCandidates
  | invalidChainFound (pindex : UInt256)
  | flushStateToDisk

variable {W : Type} {ops : TipOps W} {P : CChainParams} {s : NodeState W}

def TipCall.apply (ops : TipOps W) (P : CChainParams) :
    TipCall → NodeState W → Except Fault (NodeState W)
  | .findMostWorkChain, s => s.findMostWorkChain.map Prod.snd
  | .disconnectTip pindexDelete, s => .ok (s.disconnectTip ops pindexDelete).2
  | .connectTip pindexNew pblock, s => (s.connectTip ops P pindexNew pblock).map Prod.snd
  | .pruneBlockIndexCandidates, s => s.pruneBlockIndexCandidates
  | .invalidChainFound pindex, s => .ok (s.noteInvalid pindex)
  | .flushStateToDisk, s => .ok { s with world := (ops.flush s.world).2 }

end NodeState

end Dobbscoin
