import Dobbscoin.Validation.AcceptBlock

/-!
# Operations on the block tree

`InvalidateBlock` and `ReconsiderBlock`, and the operations a node runs on its chain state one after
the other.
-/

namespace Dobbscoin

/-- `nStatus &= ~BLOCK_FAILED_MASK`. -/
def BlockStatus.clearFailed (n : BlockStatus) : BlockStatus :=
  { n with failedValid := false, failedChild := false }

namespace NodeState

variable {W : Type}

/-- The block can be a tip as far as its own entry says. -/
def eligible (s : NodeState W) (p : UInt256) : Bool :=
  (s.idx p).nStatus.isValid BlockStatus.validTransactions && (s.idx p).nChainTx != 0

/-! ## InvalidateBlock -/

/-- `while (chainActive.Contains(pindex))`. -/
def invalidateLoop (ops : TipOps W) (pindex : UInt256) :
    Nat → NodeState W → Except Fault (Except CValidationError Unit × NodeState W)
  | 0, _ => .error .outOfFuel
  | fuel + 1, s =>
    if s.chainActive.contains s.mapBlockIndex pindex then
      match s.tip with
      | none => .error .assertFailed
      | some pindexWalk =>
        let s' := (s.setStatus pindexWalk fun n => { n with failedChild := true }).eraseCandidate
          pindexWalk
        -- Blocks in the active chain count as valid, so force disconnect away from it.
        match s'.disconnectTip ops pindexWalk with
        | (.error e, s'') => .ok (.error e, s'')
        | (.ok _, s'') => invalidateLoop ops pindex fuel s''
    else .ok (.ok (), s)

/-- The new tip may not be a candidate anymore, so add what belongs into the set again. -/
def addCandidatesAgain (s : NodeState W) : NodeState W :=
  let add := fun p candidates =>
    if s.eligible p && s.notWorseThanTip p then List.insert p candidates else candidates
  { s with
    setBlockIndexCandidates :=
      (s.mapBlockIndex.map CBlockIndex.phashBlock).foldr add s.setBlockIndexCandidates }

def invalidateBlock (ops : TipOps W) (s : NodeState W) (pindex : UInt256) :
    Except Fault (Except CValidationError Unit × NodeState W) :=
  let s := (s.setStatus pindex fun n => { n with failedValid := true }).eraseCandidate pindex
  match invalidateLoop ops pindex (s.chainActive.length + 1) s with
  | .error e => .error e
  | .ok (.error e, s') => .ok (.error e, s')
  | .ok (.ok _, s') =>
    -- Without a tip the next comparison and the log of `InvalidChainFound` read a null pointer.
    if s'.tip = none then .error .assertFailed
    else .ok (.ok (), s'.addCandidatesAgain.noteInvalid pindex)

/-! ## ReconsiderBlock -/

/-- The body of the loop over all entries. -/
def reconsiderEntry (s : NodeState W) (pindex p : UInt256) : Except Fault (NodeState W) :=
  if (s.idx p).nStatus.isValid BlockStatus.validTransactions = false ∧
      s.mapBlockIndex.getAncestor p (s.idx pindex).nHeight = some pindex then
    let s := s.setStatus p BlockStatus.clearFailed
    let reset := fun s : NodeState W =>
      if s.pindexBestInvalid = some p then { s with pindexBestInvalid := none } else s
    if s.eligible p then
      match s.tip with
      | none => .error .assertFailed
      | some tip => .ok (reset (if worse (s.idx tip) (s.idx p) then s.insertCandidate p else s))
    else .ok (reset s)
  else .ok s

def reconsiderEntries (pindex : UInt256) :
    List UInt256 → NodeState W → Except Fault (NodeState W)
  | [], s => .ok s
  | p :: ps, s =>
    match s.reconsiderEntry pindex p with
    | .error e => .error e
    | .ok s' => reconsiderEntries pindex ps s'

/-- Remove the invalidity flag from a block and its ancestors. -/
def reconsiderAncestors : Nat → Option UInt256 → NodeState W → NodeState W
  | 0, _, s => s
  | _ + 1, none, s => s
  | fuel + 1, some pindex, s =>
    reconsiderAncestors fuel (s.idx pindex).pprev (s.setStatus pindex BlockStatus.clearFailed)

def reconsiderBlock (s : NodeState W) (pindex : UInt256) : Except Fault (NodeState W) :=
  match reconsiderEntries pindex (s.mapBlockIndex.map CBlockIndex.phashBlock) s with
  | .error e => .error e
  | .ok s' => .ok (reconsiderAncestors ((s'.idx pindex).nHeight + 1) (some pindex) s')

/-! ## Runs -/

/-- The operations, each with what it finds outside of the chain state: clock, disk and coins may be
others at every call. -/
inductive NodeOp (W : Type) where
  | acceptBlockHeader (E : Env) (block : CBlockHeader)
  | acceptBlock (E : Env) (store : BlockStore W) (block : CBlock)
  | activateBestChain (H : Crypto) (ops : TipOps W) (P : CChainParams) (pblock : Option CBlock)
      (fuel : Nat)
  | invalidateBlock (ops : TipOps W) (pindex : UInt256)
  | reconsiderBlock (pindex : UInt256)

/-- The state an operation leaves, whatever it returns.  The last two are called with a block that was
found in the index. -/
def NodeOp.apply : NodeOp W → NodeState W → Except Fault (NodeState W)
  | .acceptBlockHeader E block, s =>
    match s.acceptBlockHeader E block with
    | .error _ => .ok s
    | .ok (_, s') => .ok s'
  | .acceptBlock E store block, s => .ok (s.acceptBlock E store block).2
  | .activateBestChain H ops P pblock fuel, s =>
    (NodeState.activateBestChain H ops P pblock fuel s).map Prod.snd
  | .invalidateBlock ops pindex, s =>
    if (s.mapBlockIndex.lookup pindex).isNone then .ok s
    else (s.invalidateBlock ops pindex).map Prod.snd
  | .reconsiderBlock pindex, s =>
    if (s.mapBlockIndex.lookup pindex).isNone then .ok s else s.reconsiderBlock pindex

/-- Operations one after the other. -/
def runOps : List (NodeOp W) → NodeState W → Except Fault (NodeState W)
  | [], s => .ok s
  | op :: ops, s =>
    match op.apply s with
    | .error e => .error e
    | .ok s' => runOps ops s'

/-- `s'` is the state after some of the operations, in a run whose operations all satisfy `C` in the
state they start in. -/
inductive RunsTo (C : NodeOp W → NodeState W → Prop) : NodeState W → NodeState W → Prop
  | refl (s : NodeState W) : RunsTo C s s
  | step {s t u : NodeState W} {op : NodeOp W} (run : RunsTo C s t) (meets : C op t)
      (apply : op.apply t = .ok u) : RunsTo C s u

/-- **The invariant rule of runs.** -/
theorem RunsTo.keeps {C : NodeOp W → NodeState W → Prop} {Q : NodeState W → Prop}
    (hstep : ∀ op s s', Q s → C op s → op.apply s = .ok s' → Q s') {s s' : NodeState W}
    (h : RunsTo C s s') (hs : Q s) : Q s' := by
  induction h with
  | refl => exact hs
  | step run meets apply ih => exact hstep _ _ _ ih meets apply

theorem RunsTo.head {C : NodeOp W → NodeState W → Prop} {s t u : NodeState W} {op : NodeOp W}
    (meets : C op s) (apply : op.apply s = .ok t) (h : RunsTo C t u) : RunsTo C s u := by
  induction h with
  | refl => exact .step (.refl s) meets apply
  | step run meets' apply' ih => exact .step ih meets' apply'

/-- A run of a list of operations, each of which satisfies `C` where it starts. -/
theorem runsTo_of_runOps {C : NodeOp W → NodeState W → Prop} {ops : List (NodeOp W)}
    {s s' : NodeState W} (h : runOps ops s = .ok s')
    (hmeets : ∀ pre op post t, ops = pre ++ op :: post → runOps pre s = .ok t → C op t) :
    RunsTo C s s' := by
  induction ops generalizing s with
  | nil =>
    rw [← Except.ok.inj h]
    exact .refl s
  | cons op ops ih =>
    rw [runOps] at h
    cases happly : op.apply s with
    | error e => simp [happly] at h
    | ok t =>
      simp only [happly] at h
      refine .head (hmeets [] op ops s rfl rfl) happly (ih h ?_)
      intro pre op' post u hops hpre
      refine hmeets (op :: pre) op' post u (by rw [hops, List.cons_append]) ?_
      rw [runOps, happly]
      exact hpre

/-- A run that ends in a checked state. -/
theorem exists_of_toOption_any {run : Except Fault (NodeState W)} {check : NodeState W → Bool}
    (h : run.toOption.any check = true) : ∃ s', run = .ok s' ∧ check s' = true := by
  cases run with
  | error e => simp [Except.toOption] at h
  | ok s => exact ⟨s, rfl, h⟩

end NodeState

end Dobbscoin
