import Dobbscoin.Coins.FeeEstimator
import Dobbscoin.Validation.BlockTemplate

/-!
# Filling a block

`CreateNewBlock` of `miner.cpp`: the transactions of the pool in the order of a heap, and the limits that
keep one out.  `Within` bounds the block that comes out of it, and `Connecting` says that it connects.
-/

namespace Dobbscoin

open Guard

/-! ## The heap -/

/-- An entry of `vecPriority`. -/
structure TxPriority where
  dPriority : Double
  feeRate : CFeeRate
  tx : CTransaction

/-- `a < b`, `a == b` and `a <= b` of two numbers that are not NaN. -/
def doubleTest (test : Priority → Priority → Bool) : Double → Double → Bool
  | some a, some b => test a b
  | _, _ => false

def txPriorityCompare (byFee : Bool) (a b : TxPriority) : Bool :=
  if byFee then
    if feeKey a.feeRate = feeKey b.feeRate then doubleTest (fun x y => decide (x < y)) a.dPriority b.dPriority
    else decide (feeKey a.feeRate < feeKey b.feeRate)
  else
    if doubleTest (fun x y => decide (x = y)) a.dPriority b.dPriority then
      decide (feeKey a.feeRate < feeKey b.feeRate)
    else doubleTest (fun x y => decide (x < y)) a.dPriority b.dPriority

/-- `pop_heap` after `make_heap`: a greatest entry, and the others.  Which of several greatest ones it is
depends on the layout of the heap. -/
structure PriorityHeap where
  pop : (TxPriority → TxPriority → Bool) → TxPriority → List TxPriority → TxPriority × List TxPriority
  perm : ∀ compare a l, ((pop compare a l).1 :: (pop compare a l).2).Perm (a :: l)

/-! ## What the miner reads -/

/-- The conversion of a setting to `unsigned int`. -/
def toUnsignedInt (n : Int) : Nat :=
  (n % 2 ^ 32).toNat

/-- A `-blockmaxsize` limited to between 1K and `MAX_BLOCK_SIZE` - 1K for sanity. -/
def limitBlockMaxSize (blockmaxsize : Int) : Nat :=
  max 1000 (min (maxBlockSize - 1000) (toUnsignedInt blockmaxsize))

structure MinerOptions where
  /-- `-blockmaxsize`. -/
  blockmaxsize : Int
  /-- `-blockprioritysize`. -/
  blockprioritysize : Int
  /-- `-blockminsize`. -/
  blockminsize : Int
  minRelayTxFee : CFeeRate
  args : MinerArgs

namespace MinerOptions

def nBlockMaxSize (o : MinerOptions) : Nat :=
  limitBlockMaxSize o.blockmaxsize

def nBlockPrioritySize (o : MinerOptions) : Nat :=
  min o.nBlockMaxSize (toUnsignedInt o.blockprioritysize)

def nBlockMinSize (o : MinerOptions) : Nat :=
  min o.nBlockMaxSize (toUnsignedInt o.blockminsize)

end MinerOptions

structure MinerCall where
  env : ValidationEnv
  options : MinerOptions
  mapBlockIndex : BlockMap
  /-- `chainActive.Tip()`. -/
  tip : UInt256
  pindexBestHeader : Option UInt256
  pcoinsTip : CoinsView
  /-- `mempool.mapTx`. -/
  mapTx : AList fun _ : UInt256 => CTransaction
  /-- The priority that the first loop arrives at for a transaction. -/
  dPriority : CTransaction → Double
  /-- What `ApplyDeltas` adds to a priority and to a fee. -/
  deltas : UInt256 → Double × CAmount
  heap : PriorityHeap

/-! ## The first loop -/

namespace MinerCall

/-- The height of the new block. -/
def nHeight (c : MinerCall) : Nat :=
  (c.mapBlockIndex.entry c.tip).nHeight + 1

/-- The loop over the inputs of a transaction: what it has to wait for, and the value of the inputs.
`none` is a missing input. -/
def gatherInputs (c : MinerCall) : List CTxIn → Option (List UInt256 × Int)
  | [] => some ([], 0)
  | txin :: rest => do
    let (setDependsOn, nTotalIn) ← c.gatherInputs rest
    match c.pcoinsTip.coins txin.prevout.hash with
    | some coins => some (setDependsOn, (coins.vout.getD txin.prevout.n.toNat CTxOut.null).nValue.toInt + nTotalIn)
    | none =>
      let tx ← c.mapTx.lookup txin.prevout.hash
      some (txin.prevout.hash :: setDependsOn,
        (tx.vout.getD txin.prevout.n.toNat CTxOut.null).nValue.toInt + nTotalIn)

/-- One transaction of the pool, with the set it depends on. -/
def candidate (c : MinerCall) (tx : CTransaction) : Except ConnectStop (Option (TxPriority × List UInt256)) :=
  let chainHeight : Int := (c.mapBlockIndex.entry c.tip).nHeight
  if tx.isCoinBase || !isFinalTx c.env.toEnv chainHeight tx c.nHeight 0 then .ok none
  else
    match c.gatherInputs tx.vin with
    | none => .ok none
    | some (setDependsOn, nTotalIn) => do
      let nTxSize := tx.serializeSize % 2 ^ 32
      let nTotalIn := nTotalIn + (c.deltas (tx.getHash c.env.crypto)).2.toInt
      let nValueOut ← tx.getValueOut
      .ok (some (⟨c.dPriority tx, CFeeRate.ofPaid (Int64.ofInt (nTotalIn - nValueOut)) nTxSize, tx⟩, setDependsOn))

def candidates (c : MinerCall) : List CTransaction → Except ConnectStop (List (TxPriority × List UInt256))
  | [] => .ok []
  | tx :: rest => do
    let item ← c.candidate tx
    let items ← c.candidates rest
    .ok (item.toList ++ items)

end MinerCall

/-! ## The second loop -/

/-- The state of the loop; `vtx` is without the coinbase. -/
structure Selection where
  view : CoinsView
  vtx : List CTransaction
  vTxFees : List Int
  vTxSigOps : List Nat
  nBlockSize : Nat
  nBlockSigOps : Nat
  nFees : Int
  fSortedByFee : Bool
  vecPriority : List TxPriority
  /-- The orphans that still depend on something. -/
  vOrphan : List (TxPriority × List UInt256)

namespace Selection

/-- "Added". -/
def add (s : Selection) (view : CoinsView) (tx : CTransaction) (nTxSize nTxSigOps : Nat) (nTxFees : Int) :
    Selection :=
  { s with
    view := view
    vtx := s.vtx ++ [tx]
    vTxFees := s.vTxFees ++ [nTxFees]
    vTxSigOps := s.vTxSigOps ++ [nTxSigOps]
    nBlockSize := s.nBlockSize + nTxSize
    nBlockSigOps := s.nBlockSigOps + nTxSigOps
    nFees := s.nFees + nTxFees }

/-- An orphan after the transaction `hash` was added. -/
def satisfy (hash : UInt256) (orphan : TxPriority × List UInt256) : TxPriority × List UInt256 :=
  (orphan.1, orphan.2.filter (· ≠ hash))

/-- Add transactions that depend on this one to the priority queue. -/
def release (s : Selection) (hash : UInt256) : Selection :=
  let orphans := s.vOrphan.map (satisfy hash)
  { s with
    vecPriority := s.vecPriority ++ (orphans.filter fun o => o.2.isEmpty).map Prod.fst
    vOrphan := orphans.filter fun o => !o.2.isEmpty }

/-- What is left to look at. -/
def work (s : Selection) : Nat :=
  s.vecPriority.length + s.vOrphan.length

end Selection

/-- `CheckInputs` without a queue for the script checks. -/
def ValidationEnv.inline (V : ValidationEnv) : ValidationEnv :=
  { V with nScriptCheckThreads := 0 }

namespace MinerCall

/-- Skip free transactions if we're past the minimum block size. -/
def skipsFree (c : MinerCall) (s : Selection) (item : TxPriority) (nTxSize : Nat) : Bool :=
  let delta := c.deltas (item.tx.getHash c.env.crypto)
  s.fSortedByFee && doubleTest (fun x y => decide (x ≤ y)) delta.1 (some 0) && decide (delta.2 ≤ 0) &&
    decide (feeKey item.feeRate < feeKey c.options.minRelayTxFee) &&
    decide (s.nBlockSize + nTxSize ≥ c.options.nBlockMinSize)

/-- Prioritise by fee once past the priority size or we run out of high-priority transactions. -/
def sortsByFee (c : MinerCall) (s : Selection) (item : TxPriority) (nTxSize : Nat) : Bool :=
  s.fSortedByFee || decide (s.nBlockSize + nTxSize ≥ c.options.nBlockPrioritySize) || !allowFree item.dPriority

/-- The part of a round that looks at the coins. -/
def addTx (c : MinerCall) (s : Selection) (tx : CTransaction) (nTxSize nTxSigOps : Nat) :
    Except ConnectStop Selection :=
  if s.view.haveInputs tx = false then .ok s
  else do
    let nValueIn ← s.view.getValueIn tx
    let nValueOut ← tx.getValueOut
    let nTxFees := nValueIn - nValueOut
    let nP2SH ← getP2SHSigOpCount tx s.view
    let nTxSigOps := nTxSigOps + nP2SH
    if s.nBlockSigOps + nTxSigOps ≥ maxBlockSigOps then .ok s
    else
      match checkInputs c.env.inline c.mapBlockIndex tx s.view true mandatoryScriptVerifyFlags with
      | .error (.rejected _) => .ok s
      | .error (.failed _) => .ok s
      | .error e => .error e
      | .ok _ => do
        let (view, _) ← updateCoins c.env.crypto tx s.view c.nHeight
        .ok ((s.add view tx nTxSize nTxSigOps nTxFees).release (tx.getHash c.env.crypto))

/-- One round, for the entry that was taken off the heap. -/
def collectTx (c : MinerCall) (item : TxPriority) (s : Selection) : Except ConnectStop Selection :=
  let nTxSize := item.tx.serializeSize % 2 ^ 32
  if s.nBlockSize + nTxSize ≥ c.options.nBlockMaxSize then .ok s
  else
    let nTxSigOps := getLegacySigOpCount item.tx
    if s.nBlockSigOps + nTxSigOps ≥ maxBlockSigOps then .ok s
    else if c.skipsFree s item nTxSize then .ok s
    else c.addTx { s with fSortedByFee := c.sortsByFee s item nTxSize } item.tx nTxSize nTxSigOps

/-- The loop; each round takes one entry. -/
def collect (c : MinerCall) : Nat → Selection → Except ConnectStop Selection
  | 0, s => .ok s
  | fuel + 1, s =>
    match s.vecPriority with
    | [] => .ok s
    | a :: rest => do
      let (item, rest) := c.heap.pop (txPriorityCompare s.fSortedByFee) a rest
      let s ← c.collectTx item { s with vecPriority := rest }
      c.collect fuel s

def start (c : MinerCall) (items : List (TxPriority × List UInt256)) : Selection where
  view := c.pcoinsTip
  vtx := []
  vTxFees := []
  vTxSigOps := []
  nBlockSize := 1000
  nBlockSigOps := 100
  nFees := 0
  fSortedByFee := decide (c.options.nBlockPrioritySize ≤ 0)
  vecPriority := (items.filter fun o => o.2.isEmpty).map Prod.fst
  vOrphan := items.filter fun o => !o.2.isEmpty

/-- The transactions for the block. -/
def select (c : MinerCall) : Except ConnectStop Selection := do
  let items ← c.candidates (c.mapTx.entries.map fun e => e.2)
  c.collect (c.start items).work (c.start items)

/-! ## The block -/

/-- The coinbase of a new block. -/
def coinbase (scriptSig scriptPubKey : CScript) (nValue : Int) : CTransaction where
  nVersion := 1
  vin := [⟨⟨0, 0xffffffff⟩, scriptSig, 0xffffffff⟩]
  vout := [⟨Int64.ofInt nValue, scriptPubKey⟩]
  nLockTime := 0

/-- `indexDummy` of `TestBlockValidity`. -/
def indexDummy (c : MinerCall) (block : CBlock) : CBlockIndex :=
  { CBlockIndex.ofHeader block.toCBlockHeader with
    phashBlock := block.getHash c.env.crypto
    pprev := some c.tip
    nHeight := c.nHeight }

/-- `TestBlockValidity` on the tip. -/
def testBlockValidity (c : MinerCall) (block : CBlock) (fCheckPOW fCheckMerkleRoot : Bool) :
    Except ConnectStop Unit := do
  (contextualCheckBlockHeader c.env.toEnv c.mapBlockIndex block.toCBlockHeader c.tip).mapError .rejected
  (checkBlock c.env.toEnv block fCheckPOW fCheckMerkleRoot).mapError .rejected
  (contextualCheckBlock c.env.toEnv c.mapBlockIndex (c.mapBlockIndex.entry c.tip).nHeight block
    (some c.tip)).mapError .rejected
  let _ ← connectBlock c.env (c.indexDummy block :: c.mapBlockIndex) c.pindexBestHeader block
    (block.getHash c.env.crypto) c.pcoinsTip true

/-- The block of the template, before it is tested. -/
def assemble (c : MinerCall) (scriptPubKeyIn : CScript) (s : Selection) : CBlock :=
  { createNewHeader c.env.toEnv c.options.args c.mapBlockIndex c.tip with
    vtx := coinbase (pushHeight c.nHeight ++ [0]) scriptPubKeyIn
      (getBlockValue c.env.params c.nHeight s.nFees) :: s.vtx }

end MinerCall

structure CBlockTemplate where
  block : CBlock
  vTxFees : List Int
  vTxSigOps : List Nat

/-- `CreateNewBlock`. -/
def createNewBlock (c : MinerCall) (scriptPubKeyIn : CScript) : Except ConnectStop CBlockTemplate := do
  let s ← c.select
  let block := c.assemble scriptPubKeyIn s
  match c.testBlockValidity block false false with
  | .error _ => .error (.threw "CreateNewBlock() : TestBlockValidity failed")
  | .ok () =>
    .ok ⟨block, -s.nFees :: s.vTxFees, ((block.vtx.head?.map getLegacySigOpCount).getD 0) :: s.vTxSigOps⟩

/-! ## What the limit bounds -/

namespace Selection

/-- The sum of the sizes, as the loop counts them. -/
def counted (vtx : List CTransaction) : Nat :=
  (vtx.map fun tx => tx.serializeSize % 2 ^ 32).sum

/-- The invariant of the loop: the size is that of the transactions, and is below the limit from the first
one on. -/
structure Within (limit : Nat) (s : Selection) : Prop where
  size : s.nBlockSize = 1000 + counted s.vtx
  limit : s.vtx ≠ [] → s.nBlockSize < limit

variable {limit : Nat} {s : Selection}

theorem Within.congr {s' : Selection} (h : s.Within limit) (hvtx : s'.vtx = s.vtx)
    (hsize : s'.nBlockSize = s.nBlockSize) : s'.Within limit := by
  constructor
  · rw [hvtx, hsize]
    exact h.size
  · rw [hvtx, hsize]
    exact h.limit

theorem Within.add (h : s.Within limit) (view : CoinsView) {tx : CTransaction} (nTxSigOps : Nat) (nTxFees : Int)
    (hroom : s.nBlockSize + tx.serializeSize % 2 ^ 32 < limit) :
    (s.add view tx (tx.serializeSize % 2 ^ 32) nTxSigOps nTxFees).Within limit := by
  constructor
  · show s.nBlockSize + tx.serializeSize % 2 ^ 32 = 1000 + counted (s.vtx ++ [tx])
    rw [h.size, counted, counted, List.map_append, List.sum_append, List.map_singleton, List.sum_singleton, add_assoc]
  · intro _
    exact hroom

end Selection

namespace MinerCall

variable {c : MinerCall} {s s' : Selection}

/-- What the part of a round that looks at the coins can do. -/
theorem addTx_cases {tx : CTransaction} {nTxSize nTxSigOps : Nat} (h : c.addTx s tx nTxSize nTxSigOps = .ok s') :
    s' = s ∨ ∃ view undo nSigOps nTxFees, s.view.haveInputs tx = true ∧
      updateCoins c.env.crypto tx s.view c.nHeight = .ok (view, undo) ∧ s.nBlockSigOps + nSigOps < maxBlockSigOps ∧
      s' = (s.add view tx nTxSize nSigOps nTxFees).release (tx.getHash c.env.crypto) := by
  unfold addTx at h
  split_ifs at h with hinputs
  · exact Or.inl (Except.ok.inj h).symm
  · simp only [bind_eq_ok] at h
    rcases h with ⟨nValueIn, -, nValueOut, -, nP2SH, -, h⟩
    split_ifs at h with hsigops
    · exact Or.inl (Except.ok.inj h).symm
    · split at h
      · exact Or.inl (Except.ok.inj h).symm
      · exact Or.inl (Except.ok.inj h).symm
      · cases h
      · simp only [bind_eq_ok] at h
        rcases h with ⟨⟨view, undo⟩, hview, h⟩
        exact Or.inr ⟨view, undo, _, _, by simpa using hinputs, hview, not_le.1 hsigops, (Except.ok.inj h).symm⟩

/-- **One round** leaves the block as it is, or adds a transaction that fits. -/
theorem collectTx_cases {item : TxPriority} (h : c.collectTx item s = .ok s') :
    (∃ fSortedByFee, s' = { s with fSortedByFee := fSortedByFee }) ∨
      s.nBlockSize + item.tx.serializeSize % 2 ^ 32 < c.options.nBlockMaxSize ∧
        ∃ view undo nSigOps nTxFees fSortedByFee, s.view.haveInputs item.tx = true ∧
          updateCoins c.env.crypto item.tx s.view c.nHeight = .ok (view, undo) ∧
          s.nBlockSigOps + nSigOps < maxBlockSigOps ∧ s' = (({ s with fSortedByFee := fSortedByFee } : Selection).add view item.tx
            (item.tx.serializeSize % 2 ^ 32) nSigOps nTxFees).release (item.tx.getHash c.env.crypto) := by
  unfold collectTx at h
  dsimp only at h
  split_ifs at h with hfull hsigops hfree
  · exact Or.inl ⟨s.fSortedByFee, (Except.ok.inj h).symm⟩
  · exact Or.inl ⟨s.fSortedByFee, (Except.ok.inj h).symm⟩
  · exact Or.inl ⟨s.fSortedByFee, (Except.ok.inj h).symm⟩
  · rcases addTx_cases h with rfl | ⟨view, undo, nSigOps, nTxFees, hinputs, hview, hfew, rfl⟩
    · exact Or.inl ⟨_, rfl⟩
    · exact Or.inr ⟨not_le.1 hfull, view, undo, nSigOps, nTxFees, _, hinputs, hview, hfew, rfl⟩

theorem collectTx_within {item : TxPriority} (hs : s.Within c.options.nBlockMaxSize)
    (h : c.collectTx item s = .ok s') : s'.Within c.options.nBlockMaxSize := by
  rcases collectTx_cases h with ⟨fSortedByFee, rfl⟩ | ⟨hroom, view, -, nSigOps, nTxFees, fSortedByFee, -, -, -, rfl⟩
  · exact hs.congr rfl rfl
  · have hsorted : ({ s with fSortedByFee := fSortedByFee } : Selection).Within c.options.nBlockMaxSize :=
      hs.congr rfl rfl
    exact (hsorted.add view nSigOps nTxFees hroom).congr rfl rfl

/-- The transactions connect to the coins of the tip in their order, and the totals are those of the lists. -/
structure Connecting (c : MinerCall) (s : Selection) : Prop where
  connects : ∃ undos, Connects c.env.crypto c.nHeight c.pcoinsTip s.vtx undos s.view
  fees : s.nFees = s.vTxFees.sum
  sigOps : s.nBlockSigOps = 100 + s.vTxSigOps.sum
  few : s.nBlockSigOps < maxBlockSigOps

theorem collectTx_connecting {item : TxPriority} (hs : c.Connecting s) (h : c.collectTx item s = .ok s') :
    c.Connecting s' := by
  rcases hs with ⟨⟨undos, hconnects⟩, hfees, hsigOps, hfew⟩
  rcases collectTx_cases h with ⟨fSortedByFee, rfl⟩ |
    ⟨-, view, undo, nSigOps, nTxFees, fSortedByFee, hinputs, hview, hroom, rfl⟩
  · exact ⟨⟨undos, hconnects⟩, hfees, hsigOps, hfew⟩
  · refine ⟨⟨undos ++ [undo], hconnects.concat hinputs hview⟩, ?_, ?_, hroom⟩
    · simp [Selection.add, Selection.release, hfees]
    · simp [Selection.add, Selection.release, hsigOps, Nat.add_assoc]

/-- **The loop** keeps what every round keeps. -/
theorem collect_keeps {P : Selection → Prop} (hpop : ∀ s vec, P s → P { s with vecPriority := vec })
    (hround : ∀ item s s', P s → c.collectTx item s = .ok s' → P s') {fuel : Nat} (hs : P s)
    (h : c.collect fuel s = .ok s') : P s' := by
  induction fuel generalizing s with
  | zero =>
    obtain rfl := Except.ok.inj h
    exact hs
  | succ fuel ih =>
    unfold collect at h
    split at h
    · obtain rfl := Except.ok.inj h
      exact hs
    · simp only [bind_eq_ok] at h
      rcases h with ⟨s₁, hstep, h⟩
      exact ih (hround _ _ _ (hpop _ _ hs) hstep) h

theorem select_within (h : c.select = .ok s) : s.Within c.options.nBlockMaxSize := by
  unfold select at h
  simp only [bind_eq_ok] at h
  rcases h with ⟨items, -, h⟩
  refine collect_keeps (fun _ _ hs => hs.congr rfl rfl) (fun _ _ _ => collectTx_within) ⟨rfl, ?_⟩ h
  intro hne
  exact absurd rfl hne

theorem select_connecting (h : c.select = .ok s) : c.Connecting s := by
  unfold select at h
  simp only [bind_eq_ok] at h
  rcases h with ⟨items, -, h⟩
  exact collect_keeps (fun _ _ hs => ⟨hs.connects, hs.fees, hs.sigOps, hs.few⟩) (fun _ _ _ => collectTx_connecting)
    ⟨⟨[], .nil _⟩, rfl, rfl, show 100 < maxBlockSigOps by decide⟩ h

/-! ## The loop ends with an empty heap -/

theorem work_release (s : Selection) (hash : UInt256) : (s.release hash).work = s.work := by
  have hsplit : ∀ l : List (TxPriority × List UInt256),
      (l.filter fun o => o.2.isEmpty).length + (l.filter fun o => !o.2.isEmpty).length = l.length := by
    intro l
    exact (List.length_eq_length_filter_add _).symm
  have horphans := hsplit (s.vOrphan.map (Selection.satisfy hash))
  simp only [Selection.work, Selection.release, List.length_append, List.length_map] at *
  omega

theorem collectTx_work {item : TxPriority} (h : c.collectTx item s = .ok s') : s'.work = s.work := by
  rcases collectTx_cases h with ⟨fSortedByFee, rfl⟩ | ⟨-, view, -, nSigOps, nTxFees, fSortedByFee, -, -, -, rfl⟩
  · rfl
  · rw [work_release]
    rfl

/-- With as many rounds as there are entries and orphans, the heap is empty at the end. -/
theorem collect_vecPriority {fuel : Nat} (hfuel : s.work ≤ fuel) (h : c.collect fuel s = .ok s') :
    s'.vecPriority = [] := by
  induction fuel generalizing s with
  | zero =>
    obtain rfl := Except.ok.inj h
    exact List.length_eq_zero_iff.1 (by simp only [Selection.work] at hfuel; omega)
  | succ fuel ih =>
    unfold collect at h
    split at h
    next hempty =>
      obtain rfl := Except.ok.inj h
      exact hempty
    next a rest hcons =>
      simp only [bind_eq_ok] at h
      rcases h with ⟨s₁, hround, h⟩
      refine ih ?_ h
      have hwork : s₁.work =
          (c.heap.pop (txPriorityCompare s.fSortedByFee) a rest).2.length + s.vOrphan.length := collectTx_work hround
      have hperm : (c.heap.pop (txPriorityCompare s.fSortedByFee) a rest).2.length + 1 = rest.length + 1 :=
        (c.heap.perm (txPriorityCompare s.fSortedByFee) a rest).length_eq
      have hs : s.work = rest.length + 1 + s.vOrphan.length := by
        rw [Selection.work, hcons, List.length_cons]
      omega

/-- `CreateNewBlock` looks at every transaction that does not wait for another one. -/
theorem select_vecPriority (h : c.select = .ok s) : s.vecPriority = [] := by
  unfold select at h
  simp only [bind_eq_ok] at h
  rcases h with ⟨items, -, h⟩
  exact collect_vecPriority (le_refl _) h

end MinerCall

/-- What a template that is returned looks like. -/
theorem createNewBlock_ok {c : MinerCall} {scriptPubKeyIn : CScript} {template : CBlockTemplate}
    (h : createNewBlock c scriptPubKeyIn = .ok template) :
    ∃ s, c.select = .ok s ∧ template.block = c.assemble scriptPubKeyIn s ∧
      c.testBlockValidity template.block false false = .ok () := by
  unfold createNewBlock at h
  simp only [bind_eq_ok] at h
  rcases h with ⟨s, hs, h⟩
  split at h
  · cases h
  next hvalid =>
    obtain rfl := Except.ok.inj h
    exact ⟨s, hs, rfl, hvalid⟩

theorem testBlockValidity_checked {c : MinerCall} {block : CBlock} {fCheckPOW fCheckMerkleRoot : Bool}
    (h : c.testBlockValidity block fCheckPOW fCheckMerkleRoot = .ok ()) : block.Checked := by
  unfold MinerCall.testBlockValidity at h
  cases hcheck : checkBlock c.env.toEnv block fCheckPOW fCheckMerkleRoot with
  | ok u => exact checkBlock_ok hcheck
  | error e =>
    rw [hcheck] at h
    simp only [bind_eq_ok] at h
    obtain ⟨_, _, _, herror, _⟩ := h
    cases herror

/-- **A template.**  The transactions connect to the coins of the tip in their order, none was left on the heap, the limits
hold, the block passes `CheckBlock`, and the fees in the list add up to nothing. -/
theorem createNewBlock_spec (c : MinerCall) (scriptPubKeyIn : CScript) (template : CBlockTemplate)
    (h : createNewBlock c scriptPubKeyIn = .ok template) :
    ∃ s, c.select = .ok s ∧ template.block = c.assemble scriptPubKeyIn s ∧ template.block.Checked ∧
      c.Connecting s ∧ s.Within c.options.nBlockMaxSize ∧ s.vecPriority = [] ∧ template.vTxFees.sum = 0 := by
  unfold createNewBlock at h
  simp only [bind_eq_ok] at h
  rcases h with ⟨s, hs, h⟩
  split at h
  · cases h
  next hvalid =>
    obtain rfl := Except.ok.inj h
    have hconnecting := MinerCall.select_connecting hs
    refine ⟨s, hs, rfl, testBlockValidity_checked hvalid, hconnecting, MinerCall.select_within hs,
      MinerCall.select_vecPriority hs, ?_⟩
    rw [List.sum_cons, ← hconnecting.fees, neg_add_cancel]

end Dobbscoin
