import Dobbscoin.Script.NumCodec
import Dobbscoin.Storage.BlockWire
import Dobbscoin.Validation.Miner

/-!
# Templates for merge mining

`createauxblock` and `submitauxblock` of `rpc_auxpow.cpp`.  A template is filled up to a limit that knows
nothing of the AuxPoW trailer, and `CheckBlock` measures the block with its trailer.
-/

namespace Dobbscoin

open ByteCodec Guard

/-! ## The extra nonce -/

/-- `COINBASE_FLAGS`: the push of `/P2SH/`. -/
def coinbaseFlags : CScript :=
  [6, 0x2f, 0x50, 0x32, 0x53, 0x48, 0x2f]

def extraNonceScript (nHeight : Nat) (nExtraNonce : UInt32) : CScript :=
  pushHeight nHeight ++ CScript.pushBytes (CScriptNum.serialize nExtraNonce.toNat) ++ coinbaseFlags

/-- The transaction with another script in its first input. -/
def CTransaction.withScriptSig (tx : CTransaction) (scriptSig : CScript) : CTransaction :=
  match tx.vin with
  | [] => tx
  | txin :: rest => { tx with vin := { txin with scriptSig := scriptSig } :: rest }

/-- The counter of the caller, and the static variable of `IncrementExtraNonce`. -/
structure ExtraNonce where
  hashPrevBlock : UInt256
  nExtraNonce : UInt32

def ExtraNonce.next (e : ExtraNonce) (hashPrevBlock : UInt256) : ExtraNonce :=
  ⟨hashPrevBlock, (if e.hashPrevBlock ≠ hashPrevBlock then 0 else e.nExtraNonce) + 1⟩

/-- `IncrementExtraNonce`, with the counter that is next. -/
def incrementExtraNonce (H : Crypto) (pblock : CBlock) (nHeight : Nat) (nExtraNonce : UInt32) : CBlock :=
  let vtx := match pblock.vtx with
    | [] => []
    | coinbase :: rest => coinbase.withScriptSig (extraNonceScript nHeight nExtraNonce) :: rest
  let pblock := { pblock with vtx := vtx }
  { pblock with hashMerkleRoot := (pblock.buildMerkleTree H).1 }

/-- `SetAuxpowFlag(true)`. -/
def CPureBlockHeader.setAuxpowFlag (h : CPureBlockHeader) : CPureBlockHeader :=
  { h with nVersion := h.nVersion ||| versionAuxpow }

/-- `SetAuxpow`. -/
def CBlock.setAuxpow (block : CBlock) (auxpow : CAuxPow) : CBlock :=
  { block with toCPureBlockHeader := block.toCPureBlockHeader.setAuxpowFlag, auxpow := some auxpow }

/-! ## The calls -/

structure AuxCall extends MinerCall where
  /-- `vNodes` is not empty. -/
  fConnected : Bool
  /-- `IsInitialBlockDownload()`. -/
  fInitialBlockDownload : Bool
  /-- `GetTime()`. -/
  getTime : Int
  /-- `mempool.GetTransactionsUpdated()`. -/
  transactionsUpdated : UInt32

/-- How a call ends that does not answer. -/
inductive AuxStop where
  | rpc (message : String)
  | stop (e : ConnectStop)
  deriving DecidableEq

/-- The static variables of `rpc_auxpow.cpp`; `vAuxTemplates` is only kept alive. -/
structure AuxState where
  mapAuxBlocks : List (UInt256 × CBlock)
  pindexPrevAux : Option UInt256
  nAuxStart : Int
  nAuxTransactionsUpdatedLast : UInt32
  extraNonce : ExtraNonce

def auxMiningCheck (call : AuxCall) : Except AuxStop Unit := do
  rejectIf (call.fConnected = false ∧ call.options.args.fMineBlocksOnDemand = false)
    (.rpc "Dobbscoin is not connected")
  rejectIf (call.fInitialBlockDownload = true ∧ call.options.args.fMineBlocksOnDemand = false)
    (.rpc "Dobbscoin is downloading blocks")
  rejectIf (call.nHeight < auxPowForkHeight call.env.params) (.rpc "AuxPoW activation height not yet reached")

/-- `fStale`: the templates are dropped. -/
def AuxState.refreshed (σ : AuxState) (call : AuxCall) : AuxState :=
  if σ.pindexPrevAux ≠ some call.tip ∨
      (call.transactionsUpdated ≠ σ.nAuxTransactionsUpdatedLast ∧ call.getTime - σ.nAuxStart > 60) then
    { σ with mapAuxBlocks := [] }
  else σ

/-- The block that is handed out: with the extra nonce and the AuxPoW bit, so that the hash is final. -/
def auxTemplate (call : AuxCall) (block : CBlock) (nExtraNonce : UInt32) : CBlock :=
  let pblock := incrementExtraNonce call.env.crypto block call.nHeight nExtraNonce
  { pblock with toCPureBlockHeader := pblock.toCPureBlockHeader.setAuxpowFlag }

/-- What `createauxblock` answers. -/
structure AuxBlock where
  hash : UInt256
  chainid : Int32
  previousblockhash : UInt256
  coinbasevalue : CAmount
  bits : UInt32
  height : Nat
  target : UInt256
  deriving DecidableEq

def auxBlock (call : AuxCall) (pblock : CBlock) : Except AuxStop AuxBlock := do
  let target := setCompact pblock.nBits
  rejectIf (compactNegative pblock.nBits = true ∨ compactOverflow pblock.nBits = true ∨ target = 0)
    (.rpc "invalid difficulty bits in block")
  .ok
    { hash := pblock.getHash call.env.crypto
      chainid := pblock.getChainId
      previousblockhash := pblock.hashPrevBlock
      coinbasevalue := ((pblock.vtx.head?.bind fun tx => tx.vout.head?).map CTxOut.nValue).getD 0
      bits := pblock.nBits
      height := call.nHeight
      target := target }

/-- `CreateAuxBlockHelper`. -/
def createAuxBlock (call : AuxCall) (address : CTxDestination) (σ : AuxState) : AuxState × Except AuxStop AuxBlock :=
  match auxMiningCheck call with
  | .error e => (σ, .error e)
  | .ok () =>
    let σ := σ.refreshed call
    match createNewBlock call.toMinerCall address.script with
    | .error e => (σ, .error (.stop e))
    | .ok newTemplate =>
      let extraNonce := σ.extraNonce.next newTemplate.block.hashPrevBlock
      let pblock := auxTemplate call newTemplate.block extraNonce.nExtraNonce
      (⟨(pblock.getHash call.env.crypto, pblock) :: σ.mapAuxBlocks, some call.tip, call.getTime,
        call.transactionsUpdated, extraNonce⟩, auxBlock call pblock)

/-- `SubmitAuxBlockHelper`: the block that goes to `ProcessNewBlock`. -/
def submitAuxBlock (call : AuxCall) (hash : UInt256) (auxpow : CAuxPow) (σ : AuxState) :
    AuxState × Except AuxStop CBlock :=
  match auxMiningCheck call with
  | .error e => (σ, .error e)
  | .ok () =>
    match σ.mapAuxBlocks.lookup hash with
    | none => (σ, .error (.rpc "block hash unknown"))
    | some pblock =>
      let block := pblock.setAuxpow auxpow
      -- The cached block is the one that is changed.
      let σ := { σ with mapAuxBlocks := (hash, block) :: σ.mapAuxBlocks }
      if block.getHash call.env.crypto ≠ hash then
        (σ, .error (.rpc "cached block hash drifted under attached auxpow"))
      else (σ, .ok block)

/-- The two calls. -/
inductive AuxOp where
  | create (call : AuxCall) (address : CTxDestination)
  | submit (call : AuxCall) (hash : UInt256) (auxpow : CAuxPow)

def AuxState.step (σ : AuxState) : AuxOp → AuxState
  | .create call address => (createAuxBlock call address σ).1
  | .submit call hash auxpow => (submitAuxBlock call hash auxpow σ).1

def AuxState.run (σ : AuxState) (ops : List AuxOp) : AuxState :=
  ops.foldl AuxState.step σ

/-! ## The size limit -/

/-- The first check of `checkVtx` lets the block pass. -/
def CBlock.WithinSize (block : CBlock) : Prop :=
  ¬ (block.vtx.isEmpty = true ∨ block.vtx.length > maxBlockSize ∨ block.serializeSize > maxBlockSize)

/-- A proof that a pool brings back for a block: not too long, and with the work in it. -/
structure AcceptableProof (E : Env) (block : CBlock) (hash : UInt256) (auxpow : CAuxPow) : Prop where
  size : auxpow.getSerializeSize ≤ 10000
  check : auxpow.check E.crypto hash auxpowChainId = .ok ()
  work : checkProofOfWork E.params (auxpow.parentBlock.getPoWHash E.crypto) block.nBits = true

/-- A call of a node with this `-blockmaxsize`; heights are of the type `int`. -/
def AuxOp.Admits (blockmaxsize : Int) : AuxOp → Prop
  | .create call _ => call.options.blockmaxsize = blockmaxsize ∧ call.nHeight < 2 ^ 31
  | .submit _ _ _ => True

/-- **A template leaves room for its proof**: with this setting, whatever is called, a block that is
submitted with an acceptable proof is within the size limit. -/
def RoomForProof (blockmaxsize : Int) : Prop :=
  ∀ σ : AuxState, σ.mapAuxBlocks = [] → ∀ ops : List AuxOp, (∀ op ∈ ops, op.Admits blockmaxsize) →
    ∀ call hash auxpow block, (submitAuxBlock call hash auxpow (σ.run ops)).2 = .ok block →
      AcceptableProof call.env.toEnv block hash auxpow → block.WithinSize

/-! ## Sizes -/

theorem CTransaction.serializeSize_eq (tx : CTransaction) : tx.serializeSize = tx.getSerializeSize :=
  tx.length_put

/-- The bytes of a block behind its header. -/
def vtxSize (vtx : List CTransaction) : Nat :=
  vecSize (vtx.map CTransaction.getSerializeSize)

theorem isAuxpow_setAuxpowFlag (h : CPureBlockHeader) : h.setAuxpowFlag.isAuxpow = true := by
  have hbit : (h.nVersion ||| versionAuxpow) &&& versionAuxpow = versionAuxpow := by
    apply Int32.toBitVec_inj.1
    simp only [Int32.toBitVec_and, Int32.toBitVec_or]
    ext i hi
    simp only [BitVec.getElem_and, BitVec.getElem_or]
    cases versionAuxpow.toBitVec[i] <;> simp
  show ((h.nVersion ||| versionAuxpow) &&& versionAuxpow != 0) = true
  rw [hbit]
  decide

theorem CBlock.length_put (block : CBlock) :
    block.serializeSize = (CBlockHeader.codec.put block.toCBlockHeader).length + vtxSize block.vtx := by
  have hput : CBlock.codec.put block =
      CBlockHeader.codec.put block.toCBlockHeader ++ (vec compactSizeCodec CTransaction.codec).put block.vtx := rfl
  rw [serializeSize, hput, List.length_append, length_vec _ CTransaction.length_put]
  rfl

/-- With its proof a block is its header, the proof and the transactions. -/
theorem CBlock.serializeSize_setAuxpow (block : CBlock) (auxpow : CAuxPow) :
    (block.setAuxpow auxpow).serializeSize = 80 + auxpow.getSerializeSize + vtxSize block.vtx := by
  have hflag : (block.setAuxpow auxpow).isAuxpow = true := isAuxpow_setAuxpowFlag _
  rw [CBlock.length_put, CBlockHeader.put_of_auxpow hflag rfl, List.length_append, CPureBlockHeader.length_put,
    CAuxPow.length_put]
  rfl

/-- A transaction with an input. -/
theorem CTransaction.getSerializeSize_ge {tx : CTransaction} (h : tx.vin ≠ []) : 51 ≤ tx.getSerializeSize := by
  have hcompact : ∀ n, 1 ≤ getSizeOfCompactSize n := by
    intro n
    unfold getSizeOfCompactSize
    split_ifs <;> decide
  cases hvin : tx.vin with
  | nil => exact absurd hvin h
  | cons txin rest =>
    have hin := hcompact (rest.length + 1)
    have hscript := hcompact txin.scriptSig.length
    have hout := hcompact tx.vout.length
    simp only [getSerializeSize, hvin, vecSize, List.length_map, List.map_cons, List.length_cons, List.sum_cons,
      CTxIn.getSerializeSize]
    omega

theorem length_absBytes (fuel n k : Nat) (h : n < 256 ^ k) : (CScriptNum.absBytes fuel n).length ≤ k := by
  induction fuel generalizing n k with
  | zero => exact Nat.zero_le _
  | succ fuel ih =>
    unfold CScriptNum.absBytes
    split_ifs with hzero
    · exact Nat.zero_le _
    · cases k with
      | zero => omega
      | succ k =>
        have hdiv : n / 256 < 256 ^ k := by
          rw [Nat.pow_succ] at h
          exact Nat.div_lt_of_lt_mul (by omega)
        have := ih (n / 256) k hdiv
        simpa using this

theorem length_scriptNumBytes (fuel n k : Nat) (h : n < 128 * 256 ^ k) : (scriptNumBytes fuel n).length ≤ k + 1 := by
  induction fuel generalizing n k with
  | zero => exact Nat.zero_le _
  | succ fuel ih =>
    unfold scriptNumBytes
    split_ifs with hzero hone htwo
    · exact Nat.zero_le _
    · exact Nat.le_add_left 1 k
    · cases k with
      | zero => omega
      | succ k => exact Nat.le_add_left 2 k
    · cases k with
      | zero => omega
      | succ k =>
        have hdiv : n / 256 < 128 * 256 ^ k := by
          rw [Nat.pow_succ] at h
          omega
        exact Nat.succ_le_succ (ih (n / 256) k hdiv)

theorem length_pushHeight {n : Nat} (h : n < 2 ^ 31) : (pushHeight n).length ≤ 5 := by
  have hbytes := length_scriptNumBytes 9 n 3 (by omega)
  unfold pushHeight
  split_ifs
  · exact Nat.le_add_left 1 4
  · exact Nat.le_add_left 1 4
  · exact Nat.succ_le_succ hbytes

theorem length_push_nonce (n : UInt32) : (CScript.pushBytes (CScriptNum.serialize n.toNat)).length ≤ 6 := by
  have hlt : n.toNat < 256 ^ 4 := n.toNat_lt
  have habs := length_absBytes 8 n.toNat 4 hlt
  have hserialize : (CScriptNum.serialize n.toNat).length ≤ 5 := by
    unfold CScriptNum.serialize
    dsimp only
    rw [Int.natAbs_natCast]
    split
    · exact Nat.zero_le _
    · split_ifs
      · rw [List.length_append]
        exact Nat.add_le_add_right habs 1
      · rw [List.length_append]
        exact Nat.add_le_add_right habs 1
      · rw [List.length_append, List.length_dropLast]
        exact Nat.add_le_add_right ((Nat.sub_le _ _).trans habs) 1
      · exact habs.trans (Nat.le_succ 4)
  unfold CScript.pushBytes
  rw [if_pos (show (CScriptNum.serialize n.toNat).length < opPushData1 by simp only [opPushData1]; omega)]
  exact Nat.succ_le_succ hserialize

/-- The assertion of `IncrementExtraNonce` holds by far. -/
theorem length_extraNonceScript {nHeight : Nat} (h : nHeight < 2 ^ 31) (nExtraNonce : UInt32) :
    (extraNonceScript nHeight nExtraNonce).length ≤ 18 := by
  have hheight := length_pushHeight h
  have hnonce := length_push_nonce nExtraNonce
  simp only [extraNonceScript, List.length_append, coinbaseFlags, List.length_cons, List.length_nil]
  omega

theorem length_script (address : CTxDestination) : address.script.length ≤ 25 := by
  cases address with
  | noDestination => exact Nat.zero_le _
  | keyID id => simp [CTxDestination.script, getScriptForDestination]
  | scriptID id => simp [CTxDestination.script]

theorem size_coinbase {scriptSig scriptPubKey : CScript} (hsig : scriptSig.length ≤ 100)
    (hkey : scriptPubKey.length ≤ 100) (nValue : Int) :
    (MinerCall.coinbase scriptSig scriptPubKey nValue).getSerializeSize =
      60 + scriptSig.length + scriptPubKey.length := by
  have hsmall : ∀ {n : Nat}, n ≤ 100 → getSizeOfCompactSize n = 1 := fun h => if_pos (by omega)
  simp only [CTransaction.getSerializeSize, MinerCall.coinbase, vecSize, List.map_cons, List.map_nil, List.length_cons,
    List.length_nil, List.sum_cons, List.sum_nil, CTxIn.getSerializeSize, CTxOut.getSerializeSize, hsmall hsig,
    hsmall hkey, hsmall (show 0 + 1 ≤ 100 by decide)]
  omega

/-! ## The bound -/

/-- The transactions of a checked block, as the loop counts them. -/
theorem counted_eq {vtx : List CTransaction} (h : ∀ tx ∈ vtx, tx.getSerializeSize ≤ maxBlockSize) :
    Selection.counted vtx = (vtx.map CTransaction.getSerializeSize).sum := by
  unfold Selection.counted
  congr 1
  apply List.map_congr_left
  intro tx htx
  have hle := h tx htx
  rw [CTransaction.serializeSize_eq]
  exact Nat.mod_eq_of_lt (by simp only [maxBlockSize] at hle; omega)

theorem length_mul_le_sum {vtx : List CTransaction} (h : ∀ tx ∈ vtx, tx.vin ≠ []) :
    vtx.length * 51 ≤ (vtx.map CTransaction.getSerializeSize).sum := by
  rw [← List.length_map (f := CTransaction.getSerializeSize)]
  refine List.card_nsmul_le_sum _ 51 ?_
  rintro n hn
  rcases List.mem_map.1 hn with ⟨tx, htx, rfl⟩
  exact CTransaction.getSerializeSize_ge (h tx htx)

/-- **The selected transactions** of a template that passes its test take less than the limit, less the
thousand bytes that are reserved. -/
theorem selected_size {c : MinerCall} {scriptPubKeyIn : CScript} {s : Selection} (hs : c.select = .ok s)
    (hchecked : (c.assemble scriptPubKeyIn s).Checked) :
    (s.vtx ≠ [] → (s.vtx.map CTransaction.getSerializeSize).sum + 1001 ≤ c.options.nBlockMaxSize) ∧
      s.vtx.length < 65535 := by
  have hwithin := MinerCall.select_within hs
  have hvtx : (c.assemble scriptPubKeyIn s).vtx = (c.assemble scriptPubKeyIn s).vtx.head (fun h => nomatch h) :: s.vtx :=
    rfl
  have hsize : vtxSize (c.assemble scriptPubKeyIn s).vtx ≤ maxBlockSize := by
    have hblock := hchecked.size
    rw [CBlock.length_put] at hblock
    omega
  have hsum : (s.vtx.map CTransaction.getSerializeSize).sum ≤ maxBlockSize := by
    rw [hvtx] at hsize
    simp only [vtxSize, vecSize, List.map_cons, List.sum_cons] at hsize
    omega
  have heach : ∀ tx ∈ s.vtx, tx.getSerializeSize ≤ maxBlockSize := fun tx htx =>
    (List.single_le_sum (fun _ _ => Nat.zero_le _) _ (List.mem_map_of_mem htx)).trans hsum
  have hcounted := counted_eq heach
  have hlength := @length_mul_le_sum s.vtx fun tx htx =>
    (hchecked.transactions tx (by rw [hvtx]; exact List.mem_cons_of_mem _ htx)).vin
  constructor
  · intro hne
    have hlimit := hwithin.limit hne
    rw [hwithin.size, hcounted] at hlimit
    omega
  · simp only [maxBlockSize] at hsum
    omega

/-- What is known of a cached block: the reserve of the loop covers all of it but 895 bytes of the limit. -/
structure CBlock.Roomy (limit : Nat) (block : CBlock) : Prop where
  nonempty : block.vtx ≠ []
  length : block.vtx.length ≤ 65535
  size : vtxSize block.vtx + 895 ≤ limit

/-- **A template** that is handed out takes less than its limit. -/
theorem auxTemplate_roomy {call : AuxCall} {address : CTxDestination} {template : CBlockTemplate}
    (h : createNewBlock call.toMinerCall address.script = .ok template) (hheight : call.nHeight < 2 ^ 31)
    (nExtraNonce : UInt32) : (auxTemplate call template.block nExtraNonce).Roomy call.options.nBlockMaxSize := by
  rcases createNewBlock_ok h with ⟨s, hs, hblock, hvalid⟩
  have hchecked := testBlockValidity_checked hvalid
  rw [hblock] at hchecked
  rcases selected_size hs hchecked with ⟨hselected, hlength⟩
  have hvtx : (auxTemplate call template.block nExtraNonce).vtx =
      MinerCall.coinbase (extraNonceScript call.nHeight nExtraNonce) address.script
        (getBlockValue call.env.params call.nHeight s.nFees) :: s.vtx := by
    rw [hblock]
    rfl
  have hscript := length_extraNonceScript hheight nExtraNonce
  have haddress := length_script address
  have hcoinbase := size_coinbase (show (extraNonceScript call.nHeight nExtraNonce).length ≤ 100 by omega)
    (show address.script.length ≤ 100 by omega) (getBlockValue call.env.params call.nHeight s.nFees)
  have hlow : 1000 ≤ call.options.nBlockMaxSize := Nat.le_max_left _ _
  refine ⟨?_, ?_, ?_⟩
  · rw [hvtx]
    exact List.cons_ne_nil _ _
  · rw [hvtx, List.length_cons]
    omega
  · rw [hvtx, vtxSize, vecSize, List.map_cons, List.length_cons, List.length_map, List.sum_cons, hcoinbase]
    by_cases hnil : s.vtx = []
    · have hone : getSizeOfCompactSize (s.vtx.length + 1) = 1 := by
        rw [hnil]
        rfl
      rw [hone, hnil, List.map_nil, List.sum_nil]
      omega
    · -- Below 65536 transactions the count takes at most three bytes.
      have hcount : getSizeOfCompactSize (s.vtx.length + 1) ≤ 3 := by
        unfold getSizeOfCompactSize
        split_ifs <;> omega
      have hsum := hselected hnil
      omega

/-- What is known of the cache. -/
def AuxState.Roomy (limit : Nat) (σ : AuxState) : Prop :=
  ∀ e ∈ σ.mapAuxBlocks, e.2.Roomy limit

variable {limit : Nat} {σ : AuxState}

theorem AuxState.Roomy.refreshed (hσ : σ.Roomy limit) (call : AuxCall) : (σ.refreshed call).Roomy limit := by
  unfold AuxState.refreshed
  split_ifs
  · intro e he
    cases he
  · exact hσ

theorem AuxState.Roomy.lookup (hσ : σ.Roomy limit) {hash : UInt256} {pblock : CBlock}
    (h : σ.mapAuxBlocks.lookup hash = some pblock) : pblock.Roomy limit := by
  have hmem : (hash, pblock) ∈ σ.mapAuxBlocks := by
    rcases List.lookup_eq_some_iff.1 h with ⟨l₁, l₂, hsplit, -⟩
    rw [hsplit]
    exact List.mem_append_right _ List.mem_cons_self
  exact hσ _ hmem

/-- **One call** keeps the cache so. -/
theorem AuxState.Roomy.step (hσ : σ.Roomy limit) {blockmaxsize : Int} (hlimit : limit = limitBlockMaxSize blockmaxsize)
    {op : AuxOp} (hop : op.Admits blockmaxsize) : (σ.step op).Roomy limit := by
  cases op with
  | create call address =>
    rcases hop with ⟨hsetting, hheight⟩
    show (createAuxBlock call address σ).1.Roomy limit
    unfold createAuxBlock
    split
    · exact hσ
    · split
      · exact hσ.refreshed call
      next newTemplate hnew =>
        intro e he
        rcases List.mem_cons.1 he with rfl | he
        · have hroomy := auxTemplate_roomy hnew hheight
            ((σ.refreshed call).extraNonce.next newTemplate.block.hashPrevBlock).nExtraNonce
          rw [MinerOptions.nBlockMaxSize, hsetting, ← hlimit] at hroomy
          exact hroomy
        · exact hσ.refreshed call e he
  | submit call hash auxpow =>
    show (submitAuxBlock call hash auxpow σ).1.Roomy limit
    unfold submitAuxBlock
    split
    · exact hσ
    · split
      · exact hσ
      next pblock hfound =>
        have hpblock := hσ.lookup hfound
        have hkept : ∀ e ∈ (hash, pblock.setAuxpow auxpow) :: σ.mapAuxBlocks, e.2.Roomy limit := by
          intro e he
          rcases List.mem_cons.1 he with rfl | he
          · exact ⟨hpblock.nonempty, hpblock.length, hpblock.size⟩
          · exact hσ e he
        dsimp only
        split_ifs
        · exact hkept
        · exact hkept

theorem AuxState.Roomy.run (hσ : σ.Roomy limit) {blockmaxsize : Int} (hlimit : limit = limitBlockMaxSize blockmaxsize)
    {ops : List AuxOp} (hops : ∀ op ∈ ops, op.Admits blockmaxsize) : (σ.run ops).Roomy limit := by
  induction ops generalizing σ with
  | nil => exact hσ
  | cons op ops ih =>
    exact ih (hσ.step hlimit (hops op List.mem_cons_self)) fun op' hop' => hops op' (List.mem_cons_of_mem _ hop')

/-- What goes to `ProcessNewBlock` is a cached block with the proof. -/
theorem submitAuxBlock_ok {call : AuxCall} {hash : UInt256} {auxpow : CAuxPow} {block : CBlock}
    (h : (submitAuxBlock call hash auxpow σ).2 = .ok block) :
    ∃ pblock, σ.mapAuxBlocks.lookup hash = some pblock ∧ block = pblock.setAuxpow auxpow := by
  unfold submitAuxBlock at h
  split at h
  · cases h
  · split at h
    · cases h
    next pblock hfound =>
      dsimp only at h
      split_ifs at h
      exact ⟨pblock, hfound, (Except.ok.inj h).symm⟩

/-- **Enough room.**  Up to a limit of 990815 bytes every proof of up to 10000 bytes has its place. -/
theorem roomForProof_of_le {blockmaxsize : Int} (h : limitBlockMaxSize blockmaxsize ≤ 990815) :
    RoomForProof blockmaxsize := by
  intro σ hempty ops hops call hash auxpow block hsubmit hproof
  have hσ : σ.Roomy (limitBlockMaxSize blockmaxsize) := by
    intro e he
    rw [hempty] at he
    cases he
  rcases submitAuxBlock_ok hsubmit with ⟨pblock, hfound, rfl⟩
  have hroomy := (hσ.run rfl hops).lookup hfound
  have hsize := CBlock.serializeSize_setAuxpow pblock auxpow
  have hlength : (pblock.setAuxpow auxpow).vtx.length ≤ 65535 := hroomy.length
  have hnonempty : (pblock.setAuxpow auxpow).vtx ≠ [] := hroomy.nonempty
  have hroom := hroomy.size
  have hproofSize := hproof.size
  rintro (hnil | hmany | hbig)
  · exact hnonempty (List.isEmpty_iff.1 hnil)
  · simp only [maxBlockSize] at hmany
    omega
  · simp only [maxBlockSize] at hbig
    omega

end Dobbscoin
