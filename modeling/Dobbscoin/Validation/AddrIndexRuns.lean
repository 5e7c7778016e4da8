import Dobbscoin.Storage.AddrIndex
import Dobbscoin.Validation.Undo
import Dobbscoin.Wallet.AccountBalances

/-!
# What ConnectBlock writes to the address index

`BuildAddrIndex` of `main.cpp` takes the data pushes of a script for ids, or else the hash of the script; `ConnectBlock`
calls it for the outputs that a transaction spends and for those that it makes.
-/

namespace Dobbscoin

open ByteCodec Guard

variable {pindexBestHeader : Option UInt256} {view view' : CoinsView} {pindex : UInt256}
  {block : CBlock}

/-! ## BuildAddrIndex -/

namespace CScript

/-- Where a `GetOp` that fails leaves `pc`. -/
def failedPc : Bytes → Bytes
  | [] => []
  | b :: pc =>
    match pushSize b.toNat pc with
    | none => pc
    | some (_, pc') => pc'

/-- The id that a data element stands for; fewer than 20 bytes are filled up with zeros. -/
def dataId (hash160 : Bytes → UInt160) (data : Bytes) : UInt160 :=
  if data.length ≤ 20 then BitVec.ofNat 160 (leNat data) else hash160 data

/-- The loop of `BuildAddrIndex`; the fuel is the length of the script. -/
def addrIdLoop (hash160 : Bytes → UInt160) : Nat → Bytes → List UInt160
  | 0, _ => []
  | _ + 1, [] => []
  | fuel + 1, b :: pc =>
    match getOp (b :: pc) with
    -- `opcode` is `OP_INVALIDOPCODE` then, and the loop goes on.
    | none => addrIdLoop hash160 fuel (failedPc (b :: pc))
    | some (opcode, data, pc') =>
      (if opcode ≤ opPushData4 ∧ data.length ≥ 8 then [dataId hash160 data] else []) ++ addrIdLoop hash160 fuel pc'

/-- The ids under which `BuildAddrIndex` puts a position. -/
def addrIds (hash160 : Bytes → UInt160) (script : CScript) : List UInt160 :=
  let ids := addrIdLoop hash160 script.length script
  if ids = [] then [hash160 script] else ids

end CScript

def buildAddrIndex (hash160 : Bytes → UInt160) (script : CScript) (pos : CExtDiskTxPos) :
    List (UInt160 × CExtDiskTxPos) :=
  (CScript.addrIds hash160 script).map fun addrid => (addrid, pos)

/-! ## ConnectBlock -/

/-- What the index needs besides the rules. -/
structure AddrIndexEnv extends ValidationEnv where
  hash160 : Bytes → UInt160
  /-- It is made up when the database is. -/
  salt : UInt256

variable (E : AddrIndexEnv)

/-- The scripts that a transaction spends. -/
def spentScripts (view : CoinsView) (tx : CTransaction) : List CScript :=
  if tx.isCoinBase then []
  else tx.vin.map fun txin => ((view.entry txin.prevout.hash).vout.getD txin.prevout.n.toNat CTxOut.null).scriptPubKey

/-- `vPosAddrid` for one transaction. -/
def txAddrIndex (view : CoinsView) (pos : CExtDiskTxPos) (tx : CTransaction) : List (UInt160 × CExtDiskTxPos) :=
  (spentScripts view tx ++ tx.vout.map CTxOut.scriptPubKey).flatMap fun script => buildAddrIndex E.hash160 script pos

/-- `vPosAddrid`, with the coins as the loop of `ConnectBlock` finds them at each transaction. -/
def blockAddrIndex (nHeight : Nat) : CoinsView → CExtDiskTxPos → List CTransaction →
    Except ConnectStop (List (UInt160 × CExtDiskTxPos))
  | _, _, [] => .ok []
  | view, pos, tx :: rest => do
    let updated ← updateCoins E.crypto tx view nHeight
    let vPosAddrid ← blockAddrIndex nHeight updated.1
      { pos with nTxOffset := pos.nTxOffset + (CTransaction.codec.put tx).length } rest
    .ok (txAddrIndex E view pos tx ++ vPosAddrid)

/-- Where the first transaction of a block is. -/
def firstTxPos (blockPos : CDiskBlockPos) (nHeight : Nat) (block : CBlock) : CExtDiskTxPos :=
  ⟨blockPos, (writeCompactSize block.vtx.length).length, nHeight⟩

/-- `ConnectBlock` with what it writes to the address index. -/
def connectIndexed (m : BlockMap) (pindexBestHeader : Option UInt256) (block : CBlock) (pindex : UInt256)
    (blockPos : CDiskBlockPos) (view : CoinsView) :
    Except ConnectStop (CoinsView × Option CBlockUndo × List (UInt160 × CExtDiskTxPos)) := do
  let connected ← connectBlock E.toValidationEnv m pindexBestHeader block pindex view false
  if block.getHash E.crypto = E.params.hashGenesisBlock then .ok (connected.1, connected.2, [])
  else do
    let nHeight := (m.entry pindex).nHeight
    let vPosAddrid ← blockAddrIndex E nHeight view (firstTxPos blockPos nHeight block) block.vtx
    .ok (connected.1, connected.2, vPosAddrid)

/-! ## FindTransactionsByDestination -/

/-- The id of a key or script destination. -/
def CTxDestination.addrid : CTxDestination → UInt160
  | .noDestination => 0
  | .keyID id => id
  | .scriptID id => id

/-- `FindTransactionsByDestination`, when there is an index; it is `none` when it returns false. -/
def findTransactionsByDestination (db : CBlockTreeDB) (dest : CTxDestination) : Option (List CExtDiskTxPos) :=
  if dest.addrid = 0 then none else db.readAddrIndex E.crypto E.salt dest.addrid

/-! ## Scripts of a destination -/

/-- The scripts that pay a destination: to the hash of a key, to a key, or to the hash of a script. -/
def PaysTo (hash160 : Bytes → UInt160) (script : CScript) : CTxDestination → Prop
  | .noDestination => False
  | .keyID id => script = getScriptForDestination id ∨
    ∃ vchPubKey : CPubKey, (vchPubKey.length = 33 ∨ vchPubKey.length = 65) ∧ hash160 vchPubKey = id ∧
      script = UInt8.ofNat vchPubKey.length :: vchPubKey ++ [0xac]
  | .scriptID id => script = (CTxDestination.scriptID id).script

variable {hash160 : Bytes → UInt160}

theorem addrIdLoop_op {b : UInt8} {pc : Bytes} {fuel : Nat} (hb : opPushData4 < b.toNat) :
    CScript.addrIdLoop hash160 (fuel + 1) (b :: pc) = CScript.addrIdLoop hash160 fuel pc := by
  have hsize : CScript.pushSize b.toNat pc = some (0, pc) := by
    unfold CScript.pushSize opPushData1 opPushData2 opPushData4 at *
    rw [if_neg (by omega), if_neg (by omega), if_neg (by omega), if_neg (by omega)]
  rw [CScript.addrIdLoop, CScript.getOp, hsize]
  dsimp only
  rw [if_neg (Nat.not_lt_zero _)]
  dsimp only
  rw [if_neg fun h => absurd h.1 (not_le.2 hb), List.nil_append, List.drop_zero]

theorem addrIdLoop_push {b : UInt8} {data pc : Bytes} {fuel : Nat} (hb : b.toNat < opPushData1)
    (hlen : data.length = b.toNat) (hlong : 8 ≤ data.length) (hrest : pc.length < 2 ^ 31) :
    CScript.addrIdLoop hash160 (fuel + 1) (b :: (data ++ pc)) =
      CScript.dataId hash160 data :: CScript.addrIdLoop hash160 fuel pc := by
  have hsize : CScript.pushSize b.toNat (data ++ pc) = some (b.toNat, data ++ pc) := if_pos hb
  have hpush : b.toNat ≤ opPushData4 := (Nat.le_of_lt hb).trans (by decide)
  have hfits : ¬(data ++ pc).length % 2 ^ 32 < b.toNat := by
    have hbyte := b.toNat_lt
    rw [List.length_append, Nat.mod_eq_of_lt (by omega)]
    omega
  rw [CScript.addrIdLoop, CScript.getOp, hsize]
  dsimp only
  rw [if_neg hfits]
  dsimp only
  rw [← hlen, List.take_left, List.drop_left, if_pos ⟨hlen ▸ hpush, hlong⟩]
  rfl

theorem dataId_leBytes (id : UInt160) : CScript.dataId hash160 (leBytes 20 id.toNat) = id := by
  rw [CScript.dataId, leBytes_length, if_pos (le_refl 20), leNat_leBytes]
  refine BitVec.eq_of_toNat_eq ?_
  have hlt := id.isLt
  rw [BitVec.toNat_ofNat, Nat.mod_eq_of_lt (hlt.trans_le (by decide : 2 ^ 160 ≤ 256 ^ 20)), Nat.mod_eq_of_lt hlt]

theorem mem_addrIds_of_loop {script : CScript} {id : UInt160}
    (h : id ∈ CScript.addrIdLoop hash160 script.length script) : id ∈ CScript.addrIds hash160 script := by
  rw [CScript.addrIds]
  rwa [if_neg (List.ne_nil_of_mem h)]

/-- A script of a destination is indexed under its id. -/
theorem PaysTo.mem_addrIds {script : CScript} {dest : CTxDestination} (h : PaysTo hash160 script dest) :
    dest.addrid ∈ CScript.addrIds hash160 script := by
  refine mem_addrIds_of_loop ?_
  cases dest with
  | noDestination => exact h.elim
  | keyID id =>
    rcases h with rfl | ⟨vchPubKey, hlen, rfl, rfl⟩
    · have hbytes : (leBytes 20 id.toNat).length = 20 := leBytes_length 20 id.toNat
      have hscript : (getScriptForDestination id).length = 24 + 1 := by
        simp only [getScriptForDestination, List.length_append, hbytes]
        rfl
      rw [hscript, getScriptForDestination]
      show id ∈ CScript.addrIdLoop hash160 (24 + 1) (0x76 :: 0xa9 :: 20 :: (leBytes 20 id.toNat ++ [0x88, 0xac]))
      rw [addrIdLoop_op (by decide), addrIdLoop_op (by decide), addrIdLoop_push (by decide) hbytes (by rw [hbytes]; decide)
        (by decide), dataId_leBytes]
      exact List.mem_cons_self
    · have hsize : (UInt8.ofNat vchPubKey.length).toNat = vchPubKey.length := by
        rw [UInt8.toNat_ofNat']
        exact Nat.mod_eq_of_lt (by omega)
      have hscript : (UInt8.ofNat vchPubKey.length :: vchPubKey ++ [0xac]).length = vchPubKey.length + 1 + 1 := by
        rw [List.cons_append, List.length_cons, List.length_append]
        rfl
      rw [hscript, List.cons_append, addrIdLoop_push (by rw [hsize]; unfold opPushData1; omega) hsize.symm (by omega)
        (by decide), CScript.dataId, if_neg (by omega)]
      exact List.mem_cons_self
  | scriptID id =>
    obtain rfl := h
    have hbytes : (leBytes 20 id.toNat).length = 20 := leBytes_length 20 id.toNat
    have hscript : (CTxDestination.scriptID id).script.length = 22 + 1 := by
      simp only [CTxDestination.script, List.length_append, hbytes]
      rfl
    rw [hscript, CTxDestination.script]
    show id ∈ CScript.addrIdLoop hash160 (22 + 1) (0xa9 :: 0x14 :: (leBytes 20 id.toNat ++ [0x87]))
    rw [addrIdLoop_op (by decide), addrIdLoop_push (by decide) hbytes (by rw [hbytes]; decide) (by decide), dataId_leBytes]
    exact List.mem_cons_self

end Dobbscoin

/-!
# The address index over runs

Blocks are connected and disconnected.  What `ConnectBlock` has written to the address index stays there when the block is
disconnected; `findTransactions_spec` says what is found after any run.
-/

namespace Dobbscoin

open Guard

/-- What the index entries say of a block, once they are there; this does not change. -/
structure IndexedBlocks where
  pprev : UInt256 → Option UInt256
  nHeight : UInt256 → Nat
  block : UInt256 → Option CBlock
  blockPos : UInt256 → CDiskBlockPos

structure AddrIndexNode where
  coins : CoinsView
  undo : UInt256 → Option CBlockUndo
  /-- From the tip to the genesis block. -/
  chainActive : List UInt256
  db : CBlockTreeDB
  /-- History: the blocks that have been connected, with the coins that they were connected to. -/
  connected : List (UInt256 × CoinsView)

def AddrIndexEnv.atTime (E : AddrIndexEnv) (now : Int) : AddrIndexEnv :=
  { E with adjustedTime := now }

variable (E : AddrIndexEnv) (T : IndexedBlocks)

/-- The node after a call of `ConnectBlock`. -/
def AddrIndexNode.connect (s : AddrIndexNode) (pindex : UInt256) (view : CoinsView) (blockundo : Option CBlockUndo)
    (vPosAddrid : List (UInt160 × CExtDiskTxPos)) : AddrIndexNode where
  coins := view
  undo p := if p = pindex then blockundo.orElse fun _ => s.undo p else s.undo p
  chainActive := pindex :: s.chainActive
  db := s.db.addAddrIndex E.crypto E.salt vPosAddrid
  connected := (pindex, s.coins) :: s.connected

/-- The block tree can grow between the calls; it has the entries that `T` describes. -/
inductive IndexStep : AddrIndexNode → AddrIndexNode → Prop
  | connect {s : AddrIndexNode} {now : Int} {m : BlockMap} {pindexBestHeader : Option UInt256} {pindex : UInt256}
      {block : CBlock} {view : CoinsView} {blockundo : Option CBlockUndo} {vPosAddrid : List (UInt160 × CExtDiskTxPos)}
      (entry : (m.entry pindex).pprev = T.pprev pindex ∧ (m.entry pindex).nHeight = T.nHeight pindex)
      (read : T.block pindex = some block)
      (connected : connectIndexed (E.atTime now) m pindexBestHeader block pindex (T.blockPos pindex) s.coins =
        .ok (view, blockundo, vPosAddrid)) :
      IndexStep s (s.connect E pindex view blockundo vPosAddrid)
  | disconnect {s : AddrIndexNode} {m : BlockMap} {pindex : UInt256} {rest : List UInt256} {block : CBlock}
      {view : CoinsView}
      (entry : (m.entry pindex).pprev = T.pprev pindex ∧ (m.entry pindex).nHeight = T.nHeight pindex)
      (read : T.block pindex = some block) (tip : s.chainActive = pindex :: rest)
      (disconnected : disconnectBlock E.crypto m block (s.undo pindex) pindex s.coins = .ok (view, true)) :
      IndexStep s { s with coins := view, chainActive := rest }
  | write {s : AddrIndexNode} {cType : UInt8} {rest : Bytes} (h : (BlockTreeRecord.other cType rest).WellFormed) :
      IndexStep s { s with db := s.db.write (.other cType rest) h }

/-- A node without blocks. -/
def AddrIndexNode.start (db : CBlockTreeDB) : AddrIndexNode where
  coins := .empty
  undo _ := none
  chainActive := []
  db := db
  connected := []

/-- A run from a database without an address index. -/
def IndexRun (s : AddrIndexNode) : Prop :=
  ∃ db : CBlockTreeDB, (∀ id pos, .addrIndex id pos ∉ db.records) ∧ Relation.ReflTransGen (IndexStep E T) (.start db) s

/-! ## One block -/

/-- A transaction of a block, with its position and the coins before it. -/
inductive InBlock (H : Crypto) (nHeight : Nat) : CoinsView → CExtDiskTxPos → List CTransaction →
    CoinsView → CExtDiskTxPos → CTransaction → Prop
  | head {view : CoinsView} {pos : CExtDiskTxPos} {tx : CTransaction} {rest : List CTransaction} :
      InBlock H nHeight view pos (tx :: rest) view pos tx
  | tail {view view₁ view' : CoinsView} {pos pos' : CExtDiskTxPos} {tx tx' : CTransaction} {rest : List CTransaction}
      {undo : CTxUndo} (updated : updateCoins H tx view nHeight = .ok (view₁, undo))
      (later : InBlock H nHeight view₁ { pos with nTxOffset := pos.nTxOffset + (CTransaction.codec.put tx).length } rest
        view' pos' tx') :
      InBlock H nHeight view pos (tx :: rest) view' pos' tx'

/-- A script that a transaction spends or that it pays to. -/
def Touches (view : CoinsView) (tx : CTransaction) (script : CScript) : Prop :=
  script ∈ spentScripts view tx ++ tx.vout.map CTxOut.scriptPubKey

variable {E T}

theorem mem_txAddrIndex {view : CoinsView} {pos pos' : CExtDiskTxPos} {tx : CTransaction} {addrid : UInt160} :
    (addrid, pos') ∈ txAddrIndex E view pos tx ↔
      pos' = pos ∧ ∃ script, Touches view tx script ∧ addrid ∈ CScript.addrIds E.hash160 script := by
  rw [txAddrIndex, List.mem_flatMap]
  constructor
  · rintro ⟨script, hin, hentry⟩
    rcases List.mem_map.1 hentry with ⟨id, hid, heq⟩
    rcases Prod.mk.inj heq with ⟨rfl, rfl⟩
    exact ⟨rfl, script, hin, hid⟩
  · rintro ⟨rfl, script, hin, hid⟩
    exact ⟨script, hin, List.mem_map.2 ⟨addrid, hid, rfl⟩⟩

/-- The list has the positions of the transactions, each under the ids of the scripts that it touches. -/
theorem mem_blockAddrIndex {nHeight : Nat} {txs : List CTransaction} : ∀ {view : CoinsView} {pos : CExtDiskTxPos}
    {list : List (UInt160 × CExtDiskTxPos)}, blockAddrIndex E nHeight view pos txs = .ok list →
    ∀ addrid pos', (addrid, pos') ∈ list ↔ ∃ view' tx, InBlock E.crypto nHeight view pos txs view' pos' tx ∧
      ∃ script, Touches view' tx script ∧ addrid ∈ CScript.addrIds E.hash160 script := by
  induction txs with
  | nil =>
    intro view pos list h addrid pos'
    obtain rfl := Except.ok.inj h
    exact ⟨fun hin => absurd hin List.not_mem_nil, fun ⟨_, _, hin, _⟩ => nomatch hin⟩
  | cons tx rest ih =>
    intro view pos list h addrid pos'
    simp only [blockAddrIndex, bind_eq_ok, Prod.exists, Except.ok.injEq] at h
    rcases h with ⟨view₁, undo, updated, list', hrest, rfl⟩
    rw [List.mem_append, mem_txAddrIndex, ih hrest]
    constructor
    · rintro (⟨rfl, hscript⟩ | ⟨view', tx', hin, hscript⟩)
      · exact ⟨view, tx, .head, hscript⟩
      · exact ⟨view', tx', .tail updated hin, hscript⟩
    · rintro ⟨view', tx', hin, hscript⟩
      cases hin with
      | head => exact .inl ⟨rfl, hscript⟩
      | tail updated' later =>
        obtain ⟨rfl, -⟩ := Prod.mk.inj (Except.ok.inj (updated.symm.trans updated'))
        exact .inr ⟨view', tx', later, hscript⟩

/-- What is stored for a block that has been connected to some coins. -/
def Indexed (E : AddrIndexEnv) (T : IndexedBlocks) (pindex : UInt256) (view : CoinsView) (id : UInt64)
    (pos : CExtDiskTxPos) : Prop :=
  ∃ block, T.block pindex = some block ∧ block.getHash E.crypto ≠ E.params.hashGenesisBlock ∧
    ∃ view' tx, InBlock E.crypto (T.nHeight pindex) view (firstTxPos (T.blockPos pindex) (T.nHeight pindex) block) block.vtx
      view' pos tx ∧
    ∃ script, Touches view' tx script ∧ ∃ addrid ∈ CScript.addrIds E.hash160 script,
      CBlockTreeDB.lookupid E.crypto E.salt addrid = id

theorem mem_connectIndexed {now : Int} {m : BlockMap}
    {blockundo : Option CBlockUndo} {list : List (UInt160 × CExtDiskTxPos)}
    (entry : (m.entry pindex).nHeight = T.nHeight pindex) (read : T.block pindex = some block)
    (h : connectIndexed (E.atTime now) m pindexBestHeader block pindex (T.blockPos pindex) view =
      .ok (view', blockundo, list)) (id : UInt64) (pos : CExtDiskTxPos) :
    (∃ addrid, (addrid, pos) ∈ list ∧ CBlockTreeDB.lookupid E.crypto E.salt addrid = id) ↔
      Indexed E T pindex view id pos := by
  unfold connectIndexed at h
  simp only [bind_eq_ok, Prod.exists] at h
  rcases h with ⟨view₁, undo₁, -, h⟩
  by_cases hgenesis : block.getHash E.crypto = E.params.hashGenesisBlock
  · rw [if_pos (show block.getHash (E.atTime now).crypto = (E.atTime now).params.hashGenesisBlock from hgenesis)] at h
    obtain ⟨-, -, rfl⟩ : view₁ = view' ∧ undo₁ = blockundo ∧ [] = list := by simpa using h
    constructor
    · rintro ⟨addrid, hin, -⟩
      exact absurd hin List.not_mem_nil
    · rintro ⟨block', hread, hnot, -⟩
      obtain rfl := Option.some.inj (read.symm.trans hread)
      exact absurd hgenesis hnot
  · rw [if_neg (show ¬block.getHash (E.atTime now).crypto = (E.atTime now).params.hashGenesisBlock from hgenesis)] at h
    simp only [bind_eq_ok, Except.ok.injEq, Prod.mk.injEq] at h
    rcases h with ⟨vPosAddrid, hlist, -, -, rfl⟩
    rw [entry] at hlist
    have hmem := mem_blockAddrIndex hlist
    constructor
    · rintro ⟨addrid, hin, rfl⟩
      rcases (hmem addrid pos).1 hin with ⟨view', tx, hblock, script, htouches, hid⟩
      exact ⟨block, read, hgenesis, view', tx, hblock, script, htouches, addrid, hid, rfl⟩
    · rintro ⟨block', hread, -, view', tx, hblock, script, htouches, addrid, hid, rfl⟩
      obtain rfl := Option.some.inj (read.symm.trans hread)
      exact ⟨addrid, (hmem addrid pos).2 ⟨view', tx, hblock, script, htouches, hid⟩, rfl⟩

/-! ## Runs -/

/-- Each block is the parent of the one before it in the list. -/
def Linked (T : IndexedBlocks) : List UInt256 → Prop
  | [] => True
  | pindex :: rest => (T.pprev pindex).getD 0 = rest.headD 0 ∧ Linked T rest

/-- The records of the index are those of all blocks that have been connected, and the chain consists of such blocks. -/
structure IndexInv (E : AddrIndexEnv) (T : IndexedBlocks) (s : AddrIndexNode) : Prop where
  tip : s.coins.hashBlock = s.chainActive.headD 0
  linked : Linked T s.chainActive
  records : ∀ id pos, .addrIndex id pos ∈ s.db.records ↔
    ∃ pindex view, (pindex, view) ∈ s.connected ∧ Indexed E T pindex view id pos
  chain : ∀ pindex ∈ s.chainActive, ∃ view, (pindex, view) ∈ s.connected

theorem hashBlock_of_connectIndexed {m : BlockMap}
    {blockPos : CDiskBlockPos} {view : CoinsView} {r : CoinsView × Option CBlockUndo × List (UInt160 × CExtDiskTxPos)}
    (h : connectIndexed E m pindexBestHeader block pindex blockPos view = .ok r) :
    (m.entry pindex).pprev.getD 0 = view.hashBlock ∧ r.1.hashBlock = pindex := by
  unfold connectIndexed at h
  simp only [bind_eq_ok, Prod.exists] at h
  rcases h with ⟨view', undo, hconnect, h⟩
  have hview : r.1 = view' := by
    split_ifs at h
    · rw [← Except.ok.inj h]
    · rcases bind_eq_ok.1 h with ⟨vPosAddrid, -, hr⟩
      rw [← Except.ok.inj hr]
  rcases connectBlock_ok hconnect with ⟨-, hbest, hrest⟩
  refine ⟨hbest, hview ▸ ?_⟩
  split_ifs at hrest
  · rw [hrest.1]
    rfl
  · rcases connectChecked_ok hrest with ⟨s, -, -, -, -, rfl, -⟩
    rfl

theorem hashBlock_of_disconnectBlock {m : BlockMap} {undo : Option CBlockUndo}
    {view : CoinsView} {r : CoinsView × Bool} (h : disconnectBlock E.crypto m block undo pindex view = .ok r) :
    r.1.hashBlock = (m.entry pindex).pprev.getD 0 := by
  unfold disconnectBlock at h
  cases undo with
  | none => simp [bind_eq_ok] at h
  | some blockUndo =>
    cases hprev : (m.entry pindex).pprev with
    | none => simp [bind_eq_ok, hprev] at h
    | some pprev =>
      simp only [bind_eq_ok, exists_unit, hprev, Except.ok.injEq] at h
      rcases h with ⟨-, -, s, -, rfl⟩
      rfl

theorem IndexInv.step {s s' : AddrIndexNode} (hs : IndexInv E T s) (h : IndexStep E T s s') : IndexInv E T s' := by
  cases h with
  | @connect now m pindexBestHeader pindex block view blockundo vPosAddrid entry read connected =>
    rcases hashBlock_of_connectIndexed connected with ⟨hbest, htip⟩
    refine ⟨htip, ⟨?_, hs.linked⟩, fun id pos => ?_, fun p hp => ?_⟩
    · rw [← entry.1, hbest, hs.tip]
    · rw [AddrIndexNode.connect, CBlockTreeDB.mem_addAddrIndex, hs.records, mem_connectIndexed entry.2 read connected]
      constructor
      · rintro (⟨p, v, hin, hindexed⟩ | hindexed)
        · exact ⟨p, v, List.mem_cons_of_mem _ hin, hindexed⟩
        · exact ⟨pindex, s.coins, List.mem_cons_self, hindexed⟩
      · rintro ⟨p, v, hin, hindexed⟩
        rcases List.mem_cons.1 hin with heq | hin
        · obtain ⟨rfl, rfl⟩ := Prod.mk.inj heq
          exact .inr hindexed
        · exact .inl ⟨p, v, hin, hindexed⟩
    · rcases List.mem_cons.1 hp with rfl | hp
      · exact ⟨s.coins, List.mem_cons_self⟩
      · rcases hs.chain p hp with ⟨v, hin⟩
        exact ⟨v, List.mem_cons_of_mem _ hin⟩
  | disconnect entry read tip disconnected =>
    have hlinked := hs.linked
    rw [tip] at hlinked
    refine ⟨?_, hlinked.2, hs.records, fun p hp => hs.chain p (tip ▸ List.mem_cons_of_mem _ hp)⟩
    -- Nothing is taken out of the index.
    exact (hashBlock_of_disconnectBlock disconnected).trans (entry.1 ▸ hlinked.1)
  | @write cType rest hother =>
    refine ⟨hs.tip, hs.linked, fun id pos => ?_, hs.chain⟩
    rw [CBlockTreeDB.mem_write, ← hs.records]
    exact ⟨fun hin => hin.resolve_left nofun, .inr⟩

theorem IndexRun.inv {s : AddrIndexNode} (h : IndexRun E T s) : IndexInv E T s := by
  rcases h with ⟨db, hnone, hrun⟩
  induction hrun with
  | refl =>
    exact ⟨rfl, trivial, fun id pos => ⟨fun hin => absurd hin (hnone id pos), fun ⟨_, _, hin, _⟩ => absurd hin List.not_mem_nil⟩,
      fun p hp => absurd hp List.not_mem_nil⟩
  | tail _ hstep ih => exact ih.step hstep

/-- The positions that are found are those of the transactions of all blocks that have been connected, whether they are
still in the chain or not, which spend or make an output with a script that has an id with the same lookup id; among them
are all transactions of the chain that spend or make an output of the destination. -/
theorem findTransactions_spec {s : AddrIndexNode} (hs : IndexRun E T s) {dest : CTxDestination} (hdest : dest.addrid ≠ 0) :
    ∃ setpos, findTransactionsByDestination E s.db dest = some setpos ∧
      (∀ pos, pos ∈ setpos ↔ ∃ pindex view, (pindex, view) ∈ s.connected ∧
        Indexed E T pindex view (CBlockTreeDB.lookupid E.crypto E.salt dest.addrid) pos) ∧
      ∀ pindex ∈ s.chainActive, ∀ block, T.block pindex = some block →
        block.getHash E.crypto ≠ E.params.hashGenesisBlock →
        ∃ view, (pindex, view) ∈ s.connected ∧ ∀ view' pos tx,
          InBlock E.crypto (T.nHeight pindex) view (firstTxPos (T.blockPos pindex) (T.nHeight pindex) block) block.vtx
            view' pos tx →
          (∃ script, Touches view' tx script ∧ PaysTo E.hash160 script dest) → pos ∈ setpos := by
  have hinv := hs.inv
  rcases s.db.readAddrIndex_spec E.crypto E.salt dest.addrid with ⟨setpos, hread, hmem⟩
  have hfound : ∀ pos, pos ∈ setpos ↔ ∃ pindex view, (pindex, view) ∈ s.connected ∧
      Indexed E T pindex view (CBlockTreeDB.lookupid E.crypto E.salt dest.addrid) pos :=
    fun pos => (hmem pos).trans (hinv.records _ pos)
  refine ⟨setpos, (if_neg hdest).trans hread, hfound, fun pindex hp block hblock hgenesis => ?_⟩
  rcases hinv.chain pindex hp with ⟨view, hin⟩
  refine ⟨view, hin, fun view' pos tx htx ⟨script, htouches, hpays⟩ => (hfound pos).2 ?_⟩
  exact ⟨pindex, view, hin, block, hblock, hgenesis, view', tx, htx, script, htouches, dest.addrid, hpays.mem_addrIds, rfl⟩

/-! ## A block that leaves the chain -/

def addrIndexEnv : AddrIndexEnv where
  toValidationEnv := undoEnv
  hash160 _ := 0
  salt := 0

/-- An output for the key `5`, and one that only has the number `6` in it. -/
def payingCoinbase : CTransaction :=
  { undoCoinbase with
    vout := [⟨50, getScriptForDestination 5⟩, ⟨0, [0x6a, 20] ++ ByteCodec.leBytes 20 6⟩] }

def payingBlock : CBlock :=
  undoBlock 2 1 [payingCoinbase]

def payingBlocks : IndexedBlocks where
  pprev p := if p = undoIndex then some 1 else none
  nHeight p := if p = undoIndex then 1 else 0
  block p := if p = 1 then some undoGenesis else if p = undoIndex then some payingBlock else none
  blockPos _ := ⟨0, 8⟩

/-- Where the coinbase of the block is. -/
def payingPos : CExtDiskTxPos :=
  ⟨⟨0, 8⟩, 1, 1⟩

/-- Connect the genesis block and the next one, and disconnect that again. -/
def payingRun : Except ConnectStop (List (UInt160 × CExtDiskTxPos) × List (UInt160 × CExtDiskTxPos) × Bool) := do
  let genesis ← connectIndexed addrIndexEnv undoTree none undoGenesis 1 ⟨0, 8⟩ .empty
  let paying ← connectIndexed addrIndexEnv undoTree none payingBlock undoIndex ⟨0, 8⟩ genesis.1
  let disconnected ← disconnectBlock prefixCrypto undoTree payingBlock paying.2.1 undoIndex paying.1
  .ok (genesis.2.2, paying.2.2, disconnected.2)

set_option maxRecDepth 40000 in
theorem payingRun_eq : payingRun = .ok ([], [(5, payingPos), (6, payingPos)], true) := by
  decide

/-- The node before and after the block is disconnected. -/
theorem exists_payingRun : ∃ s s', IndexRun addrIndexEnv payingBlocks s ∧ IndexRun addrIndexEnv payingBlocks s' ∧
    s.chainActive = [undoIndex, 1] ∧ s'.chainActive = [1] ∧ s'.db = s.db ∧
    s.db = CBlockTreeDB.empty.addAddrIndex prefixCrypto 0 [(5, payingPos), (6, payingPos)] := by
  have hrun := payingRun_eq
  simp only [payingRun, bind_eq_ok, Prod.exists, Except.ok.injEq, Prod.mk.injEq] at hrun
  rcases hrun with ⟨view, undo, list, hgenesis, view', undo', list', hpaying, view'', clean, hdisconnect, rfl, rfl, rfl⟩
  let first := AddrIndexNode.connect addrIndexEnv (.start .empty) 1 view undo []
  let second := first.connect addrIndexEnv undoIndex view' undo' [(5, payingPos), (6, payingPos)]
  have hfirst : IndexStep addrIndexEnv payingBlocks (.start .empty) first :=
    .connect ⟨by decide, by decide⟩ rfl hgenesis
  have hsecond : IndexStep addrIndexEnv payingBlocks first second :=
    .connect ⟨by decide, by decide⟩ rfl hpaying
  have hundo : second.undo undoIndex = undo' := by
    cases undo' <;> rfl
  have hthird : IndexStep addrIndexEnv payingBlocks second { second with coins := view'', chainActive := [1] } := by
    rw [← hundo] at hdisconnect
    exact .disconnect ⟨by decide, by decide⟩ rfl rfl hdisconnect
  have hnone : ∀ id pos, .addrIndex id pos ∉ CBlockTreeDB.empty.records := fun _ _ => List.not_mem_nil
  have hrun₂ : Relation.ReflTransGen (IndexStep addrIndexEnv payingBlocks) (.start .empty) second :=
    (Relation.ReflTransGen.single hfirst).tail hsecond
  exact ⟨second, _, ⟨.empty, hnone, hrun₂⟩, ⟨.empty, hnone, hrun₂.tail hthird⟩, rfl, rfl, rfl, rfl⟩

theorem findTransactions_spec_payingRun : ∃ s, IndexRun addrIndexEnv payingBlocks s ∧ s.chainActive = [1] ∧
    ∃ setpos, findTransactionsByDestination addrIndexEnv s.db (.keyID 5) = some setpos ∧
      (∀ pos, pos ∈ setpos ↔ ∃ pindex view, (pindex, view) ∈ s.connected ∧
        Indexed addrIndexEnv payingBlocks pindex view (CBlockTreeDB.lookupid prefixCrypto 0 5) pos) ∧
      ∀ pindex ∈ s.chainActive, ∀ block, payingBlocks.block pindex = some block →
        block.getHash prefixCrypto ≠ undoEnv.params.hashGenesisBlock →
        ∃ view, (pindex, view) ∈ s.connected ∧ ∀ view' pos tx,
          InBlock prefixCrypto (payingBlocks.nHeight pindex) view
            (firstTxPos (payingBlocks.blockPos pindex) (payingBlocks.nHeight pindex) block) block.vtx view' pos tx →
          (∃ script, Touches view' tx script ∧ PaysTo (fun _ => 0) script (.keyID 5)) → pos ∈ setpos := by
  rcases exists_payingRun with ⟨_, s, -, hs, -, hchain, -, -⟩
  have hdest : (CTxDestination.keyID 5).addrid ≠ 0 := by decide
  exact ⟨s, hs, hchain, findTransactions_spec hs hdest⟩

/-- A short script pays a key only by its hash. -/
theorem PaysTo.eq_of_short {hash160 : Bytes → UInt160} {script : CScript} {id : CKeyID}
    (h : PaysTo hash160 script (.keyID id)) (hshort : script.length < 35) : script = getScriptForDestination id := by
  rcases h with heq | ⟨vchPubKey, hlen, -, rfl⟩
  · exact heq
  · have hscript : (UInt8.ofNat vchPubKey.length :: vchPubKey ++ [0xac]).length = vchPubKey.length + 1 + 1 := by
      rw [List.cons_append, List.length_cons, List.length_append]
      rfl
    omega

/-- The position is found under the number in an output that pays nobody, and after the block has left the chain. -/
theorem payingPos_found : ∃ s s', IndexRun addrIndexEnv payingBlocks s ∧ IndexRun addrIndexEnv payingBlocks s' ∧
    (s.chainActive = [undoIndex, 1] ∧
      (∃ setpos, findTransactionsByDestination addrIndexEnv s.db (.keyID 6) = some setpos ∧ payingPos ∈ setpos) ∧
      ∀ tx ∈ undoGenesis.vtx ++ payingBlock.vtx, tx.isCoinBase = true ∧
        ∀ txout ∈ tx.vout, ¬PaysTo addrIndexEnv.hash160 txout.scriptPubKey (.keyID 6)) ∧
    (s'.chainActive = [1] ∧
      (∃ setpos, findTransactionsByDestination addrIndexEnv s'.db (.keyID 5) = some setpos ∧ payingPos ∈ setpos) ∧
      ∀ tx ∈ undoGenesis.vtx, tx.isCoinBase = true ∧
        ∀ txout ∈ tx.vout, ¬PaysTo addrIndexEnv.hash160 txout.scriptPubKey (.keyID 5)) := by
  rcases exists_payingRun with ⟨s, s', hs, hs', hchain, hchain', hdb, hrecords⟩
  have hfound : ∀ id : UInt160, id ≠ 0 → (id, payingPos) ∈ [((5 : UInt160), payingPos), (6, payingPos)] →
      ∃ setpos, findTransactionsByDestination addrIndexEnv s.db (.keyID id) = some setpos ∧ payingPos ∈ setpos := by
    intro id hid hin
    rcases s.db.readAddrIndex_spec prefixCrypto 0 id with ⟨setpos, hread, hmem⟩
    refine ⟨setpos, (if_neg hid).trans hread, (hmem payingPos).2 ?_⟩
    rw [hrecords, CBlockTreeDB.mem_addAddrIndex]
    exact .inr ⟨id, hin, rfl⟩
  have hpays : ∀ (id : CKeyID) (txout : CTxOut), txout.scriptPubKey.length < 35 →
      txout.scriptPubKey ≠ getScriptForDestination id → ¬PaysTo addrIndexEnv.hash160 txout.scriptPubKey (.keyID id) :=
    fun id txout hshort hne h => hne (h.eq_of_short hshort)
  have hsix : ∀ tx ∈ undoGenesis.vtx ++ payingBlock.vtx, tx.isCoinBase = true ∧ ∀ txout ∈ tx.vout,
      txout.scriptPubKey.length < 35 ∧ txout.scriptPubKey ≠ getScriptForDestination 6 := by
    decide
  have hfive : ∀ tx ∈ undoGenesis.vtx, tx.isCoinBase = true ∧ ∀ txout ∈ tx.vout,
      txout.scriptPubKey.length < 35 ∧ txout.scriptPubKey ≠ getScriptForDestination 5 := by
    decide
  refine ⟨s, s', hs, hs', ⟨hchain, hfound 6 (by decide) (by decide), fun tx hin => ?_⟩, hchain', ?_, fun tx hin => ?_⟩
  · rcases hsix tx hin with ⟨hcoinbase, houts⟩
    exact ⟨hcoinbase, fun txout hout => hpays 6 txout (houts txout hout).1 (houts txout hout).2⟩
  · rw [hdb]
    exact hfound 5 (by decide) (by decide)
  · rcases hfive tx hin with ⟨hcoinbase, houts⟩
    exact ⟨hcoinbase, fun txout hout => hpays 5 txout (houts txout hout).1 (houts txout hout).2⟩

end Dobbscoin
