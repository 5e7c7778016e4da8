import Dobbscoin.Coins.TxMemPool
import Dobbscoin.Storage.BlockDisk
import Dobbscoin.Validation.ChainWorld
import Dobbscoin.Validation.Undo

/-!
# The transaction index over runs

Blocks are accepted to disk, connected and disconnected, and transactions come and go in the memory pool.
`ReadTransaction` finds each transaction at its position, and `GetTransaction` the transactions of the blocks that have been
connected.  The block files are written from the beginning; there is no reindexing in a run.
-/

namespace Dobbscoin

open ByteCodec FileBytes Guard

variable {block : CBlock} {pindexBestHeader : Option UInt256} {blockPos : CDiskBlockPos}
  {blockundo : Option CBlockUndo} {pindex : UInt256} {pos : CDiskBlockPos}

structure TxIndexEnv extends ValidationEnv where
  messageStart : Bytes
  messageStart_length : messageStart.length = 4

structure TxIndexNode where
  /-- The contents of the files `blk?????.dat`. -/
  blk : Nat → Bytes
  files : BlockFiles
  /-- `GetBlockPos` of the index entries with data. -/
  blockPos : UInt256 → Option CDiskBlockPos
  coins : CoinsView
  /-- From the tip to the genesis block. -/
  chainActive : List UInt256
  /-- The records `t` of the block tree database. -/
  txIndex : UInt256 → Option CDiskTxPos
  mempool : CTxMemPool
  /-- History: the blocks that `WriteBlockToDisk` has written, and where. -/
  accepted : List (CBlock × CDiskBlockPos)
  /-- History: the blocks that `ConnectTip` has connected. -/
  connected : List CBlock

variable (E : TxIndexEnv)

/-! ## ConnectBlock and GetTransaction -/

/-- `WriteTxIndex`: the records are written one after the other. -/
def writeTxIndex (txIndex : UInt256 → Option CDiskTxPos) (vect : List (UInt256 × CDiskTxPos)) :
    UInt256 → Option CDiskTxPos :=
  vect.foldl (fun txIndex it => Function.update txIndex it.1 (some it.2)) txIndex

/-- `ConnectBlock` with what it writes to the transaction index. -/
def connectTxIndexed (V : ValidationEnv) (m : BlockMap) (pindexBestHeader : Option UInt256) (block : CBlock)
    (pindex : UInt256) (blockPos : CDiskBlockPos) (view : CoinsView) :
    Except ConnectStop (CoinsView × Option CBlockUndo × List (UInt256 × CDiskTxPos)) := do
  let connected ← connectBlock V m pindexBestHeader block pindex view false
  .ok (connected.1, connected.2,
    if block.getHash V.crypto = V.params.hashGenesisBlock then [] else block.posTxid V.crypto blockPos)

/-- The last part of `GetTransaction`: look for the transaction in the block of its coins. -/
def TxIndexNode.scanTransaction (s : TxIndexNode) (hash : UInt256) : Option (CTransaction × Option UInt256) :=
  if 0 < (s.coins.entry hash).nHeight then do
    let pindexSlow ← s.chainActive.reverse[(s.coins.entry hash).nHeight]?
    let pos ← s.blockPos pindexSlow
    let block ← readBlockFromDisk E.crypto E.params s.blk pos pindexSlow
    let tx ← block.vtx.find? fun tx => decide (tx.getHash E.crypto = hash)
    return (tx, some pindexSlow)
  else none

/-- `GetTransaction`, with `-txindex`: the transaction, and `hashBlock` when it has been set. -/
def TxIndexNode.getTransaction (s : TxIndexNode) (hash : UInt256) (fAllowSlow : Bool) :
    Option (CTransaction × Option UInt256) :=
  match s.mempool.mapTx.lookup hash with
  | some tx => some (tx, none)
  | none =>
    match s.txIndex hash with
    | some postx => do
      let _ ← readTransaction E.crypto s.blk postx
      let (txOut, hashBlock) ← readTransaction E.crypto s.blk postx
      if txOut.getHash E.crypto = hash then some (txOut, some hashBlock) else none
    | none => if fAllowSlow then s.scanTransaction E hash else none

/-! ## Runs -/

/-- The blocks that reach the node, and the transactions that reach its memory pool. -/
structure Arrivals where
  block : CBlock → Prop
  tx : CTransaction → Prop

variable (A : Arrivals)

/-- `AcceptBlock` has checked the block, or it is the genesis block of `InitBlockIndex`. -/
def Admitted (block : CBlock) : Prop :=
  A.block block ∧ ((∃ now, checkBlock (E.toValidationEnv.atTime now).toEnv block true true = .ok ()) ∨
    block.getHash E.crypto = E.params.hashGenesisBlock ∧ block.serializeSize ≤ maxBlockSize)

/-- The block that `ConnectTip` is given, or the one that it reads. -/
def ConnectSource (s : TxIndexNode) (pindex : UInt256) (blockPos : CDiskBlockPos) (pblock : Option CBlock)
    (block : CBlock) : Prop :=
  (∀ given ∈ pblock, A.block given ∧ given.getHash E.crypto = pindex) ∧
    (pblock.orElse fun _ => readBlockFromDisk E.crypto E.params s.blk blockPos pindex) = some block

inductive TxIndexStep : TxIndexNode → TxIndexNode → Prop
  /-- The block is written to the place that `FindBlockPos` has found. -/
  | accept {s : TxIndexNode} {block : CBlock} {nHeight nTime : Nat} {fSpace : Bool} {found : FoundPos}
      {pos pos' : CDiskBlockPos} {blk : Nat → Bytes} (admitted : Admitted E A block)
      (new : s.blockPos (block.getHash E.crypto) = none)
      (place : s.files.findBlockPos none (block.serializeSize + 8) nHeight nTime fSpace = some found)
      (ok : found.result = .ok pos)
      (written : writeBlockToDisk E.messageStart (runActs found.acts s.blk) block pos = some (blk, pos')) :
      TxIndexStep s { s with
        blk := blk
        files := found.files
        blockPos := Function.update s.blockPos (block.getHash E.crypto) (some pos')
        accepted := (block, pos') :: s.accepted }
  /-- There is no place, or the write fails after some bytes. -/
  | refuse {s : TxIndexNode} {block : CBlock} {nHeight nTime : Nat} {fSpace : Bool} {found : FoundPos}
      {blk : Nat → Bytes} (admitted : Admitted E A block)
      (place : s.files.findBlockPos none (block.serializeSize + 8) nHeight nTime fSpace = some found)
      (torn : blk = runActs found.acts s.blk ∨ ∃ pos bytes, found.result = .ok pos ∧
        blk = writeBlk (runActs found.acts s.blk) pos bytes) :
      TxIndexStep s { s with blk := blk, files := found.files }
  | connect {s : TxIndexNode} {now : Int} {m : BlockMap} {pindexBestHeader : Option UInt256} {pindex : UInt256}
      {blockPos : CDiskBlockPos} {pblock : Option CBlock} {block : CBlock} {view : CoinsView}
      {blockundo : Option CBlockUndo} {vPosTxid : List (UInt256 × CDiskTxPos)}
      (data : s.blockPos pindex = some blockPos) (source : ConnectSource E A s pindex blockPos pblock block)
      (connected : connectTxIndexed (E.toValidationEnv.atTime now) m pindexBestHeader block pindex blockPos s.coins =
        .ok (view, blockundo, vPosTxid)) :
      TxIndexStep s { s with
        coins := view
        chainActive := pindex :: s.chainActive
        txIndex := writeTxIndex s.txIndex vPosTxid
        connected := block :: s.connected }
  /-- `ConnectTip` fails after the index has been written, or `VerifyDB` connects the block to coins of its own. -/
  | index {s : TxIndexNode} {now : Int} {m : BlockMap} {pindexBestHeader : Option UInt256} {pindex : UInt256}
      {blockPos : CDiskBlockPos} {pblock : Option CBlock} {block : CBlock} {coins view : CoinsView}
      {blockundo : Option CBlockUndo} {vPosTxid : List (UInt256 × CDiskTxPos)}
      (data : s.blockPos pindex = some blockPos) (source : ConnectSource E A s pindex blockPos pblock block)
      (connected : connectTxIndexed (E.toValidationEnv.atTime now) m pindexBestHeader block pindex blockPos coins =
        .ok (view, blockundo, vPosTxid)) :
      TxIndexStep s { s with txIndex := writeTxIndex s.txIndex vPosTxid }
  | disconnect {s : TxIndexNode} {m : BlockMap} {pindex : UInt256} {rest : List UInt256} {blockPos : CDiskBlockPos}
      {block : CBlock} {undo : Option CBlockUndo} {view : CoinsView} (tip : s.chainActive = pindex :: rest)
      (data : s.blockPos pindex = some blockPos)
      (read : readBlockFromDisk E.crypto E.params s.blk blockPos pindex = some block)
      (disconnected : disconnectBlock E.crypto m block undo pindex s.coins = .ok (view, true)) :
      TxIndexStep s { s with coins := view, chainActive := rest }
  | poolAdd {s : TxIndexNode} {tx : CTransaction} (arrived : A.tx tx) (checked : checkTransaction tx = .ok ()) :
      TxIndexStep s { s with mempool := s.mempool.addUnchecked E.crypto tx }
  | poolRemove {s : TxIndexNode} {hash : UInt256} {mapNextTx : AList fun _ : COutPoint => UInt256 × Nat} :
      TxIndexStep s { s with mempool := ⟨s.mempool.mapTx.erase hash, mapNextTx⟩ }

/-- A node with a new data directory. -/
def TxIndexNode.start : TxIndexNode where
  blk _ := []
  files := .empty
  blockPos _ := none
  coins := .empty
  chainActive := []
  txIndex _ := none
  mempool := .empty
  accepted := []
  connected := []

def TxIndexRun (s : TxIndexNode) : Prop :=
  Relation.ReflTransGen (TxIndexStep E A) .start s

/-- The messages that are hashed in a run. -/
def Arrivals.messages (H : Crypto) (A : Arrivals) : Set Bytes :=
  { m | (∃ block, A.block block ∧ (m = block.toCPureBlockHeader.bytes ∨ m ∈ block.hashedMessages H)) ∨
    ∃ tx, A.tx tx ∧ m = CTransaction.codec.put tx }

/-- No two messages of a run collide, and no transaction id is an interior node of a merkle tree. -/
structure Arrivals.Apart (H : Crypto) (A : Arrivals) : Prop where
  collisionFree : CollisionFreeOn H (A.messages H)
  leaves : ∀ a b, A.block a → A.block b → NoLeafIsNode H a b

/-! ## One block -/

variable {E A} {s s' : TxIndexNode}

/-- Written to disk, inside what is in use of its file. -/
structure WrittenBlock (E : TxIndexEnv) (A : Arrivals) (s : TxIndexNode) (block : CBlock) (pos : CDiskBlockPos) : Prop where
  admitted : Admitted E A block
  bytes : ∃ bytes, block.serialize = some bytes ∧ bytes ≠ [] ∧ bytes.length ≤ maxBlockSize ∧
    Holds (s.blk pos.nFile) pos.nPos bytes ∧ pos.nPos + bytes.length ≤ (s.files.info pos.nFile).nSize

theorem Admitted.size (h : Admitted E A block) : block.serializeSize ≤ maxBlockSize := by
  rcases h.2 with ⟨now, hcheck⟩ | ⟨-, hsize⟩
  · exact (checkBlock_ok hcheck).size
  · exact hsize

theorem CBlock.serialize_eq {bytes : Bytes} (h : block.serialize = some bytes) :
    bytes = CBlock.codec.put block ∧ ∃ header, block.toCBlockHeader.serialize = some header ∧
      bytes = header ++ (vec compactSizeCodec CTransaction.codec).put block.vtx := by
  rcases Option.map_eq_some_iff.1 h with ⟨header, hheader, rfl⟩
  refine ⟨?_, header, hheader, rfl⟩
  unfold CBlockHeader.serialize at hheader
  split_ifs at hheader
  cases hheader
  rfl

theorem CBlock.serialize_ne_nil {bytes : Bytes} (h : block.serialize = some bytes) : bytes ≠ [] := by
  rcases CBlock.serialize_eq h with ⟨-, header, -, rfl⟩
  intro hnil
  have hcount := congrArg List.length (List.append_eq_nil_iff.1 (List.append_eq_nil_iff.1 hnil).2).1
  rw [show compactSizeCodec.put block.vtx.length = writeCompactSize block.vtx.length from rfl, length_writeCompactSize,
    getSizeOfCompactSize] at hcount
  split_ifs at hcount

theorem codec_fits_of_size {vtx : List CTransaction}
    (h : ((vec compactSizeCodec CTransaction.codec).put vtx).length ≤ maxSize) :
    (vec compactSizeCodec CTransaction.codec).Fits vtx := by
  have hput : (vec compactSizeCodec CTransaction.codec).put vtx =
      writeCompactSize vtx.length ++ putAll CTransaction.codec vtx := rfl
  rw [hput, List.length_append] at h
  have hpositive : ∀ tx ∈ vtx, 0 < (CTransaction.codec.put tx).length := by
    intro tx _
    have hbytes : CTransaction.codec.put tx = int32Codec.put tx.nVersion ++ ((vec compactSizeCodec CTxIn.codec).put tx.vin ++
        ((vec compactSizeCodec CTxOut.codec).put tx.vout ++ uint32Codec.put tx.nLockTime)) := rfl
    have hversion : (int32Codec.put tx.nVersion).length = 4 := leBytes_length 4 _
    rw [hbytes, List.length_append, hversion]
    omega
  have hcount := length_le_putAll CTransaction.codec hpositive
  refine ⟨?_, fun tx htx => CTransaction.fits_of_size ?_⟩
  · show vtx.length ≤ maxSize
    omega
  · have hle := length_put_le CTransaction.codec htx
    rw [CTransaction.serializeSize]
    omega

/-- The block that is read back has the transactions that were written. -/
theorem WrittenBlock.vtx_of_read {block read : CBlock} (h : WrittenBlock E A s block pos)
    (hread : readBlockFromDisk E.crypto E.params s.blk pos pindex = some read) :
    read.vtx = block.vtx ∧ read.getHash E.crypto = pindex := by
  rcases h.bytes with ⟨bytes, hser, -, hsize, ⟨rest, hrest⟩, -⟩
  rcases CBlock.serialize_eq hser with ⟨-, header, hheader, rfl⟩
  rw [List.length_append] at hsize
  have hmax : maxBlockSize ≤ maxSize := by decide
  have hvtx : (vec compactSizeCodec CTransaction.codec).Fits block.vtx := codec_fits_of_size (by omega)
  have hget : CBlock.codec.get ((s.blk pos.nFile).drop pos.nPos) =
      some (⟨block.toCBlockHeader.onDisk, block.vtx⟩, rest) := by
    have hunserialize := CBlockHeader.unserialize_append hheader (by omega)
      ((vec compactSizeCodec CTransaction.codec).put block.vtx ++ rest)
    have hback := (vec compactSizeCodec CTransaction.codec).get_put hvtx rest
    rw [CBlockHeader.unserialize] at hunserialize
    rw [← hrest, List.append_assoc]
    simp only [CBlock.codec, ByteCodec.iso, ByteCodec.pair, hunserialize, hback, Option.bind_some, Option.map_some]
  unfold readBlockFromDisk at hread
  rw [hget, Option.bind_eq_bind, Option.bind_some] at hread
  dsimp only at hread
  split_ifs at hread with hcheck
  cases hread
  rw [Bool.and_eq_true, decide_eq_true_eq] at hcheck
  exact ⟨rfl, hcheck.2⟩

/-- Two blocks with one hash that `CheckBlock` has passed hold the same transactions. -/
theorem vtx_eq_of_getHash {a b : CBlock} {now now' : Int} (hA : A.Apart E.crypto) (ha : A.block a) (hb : A.block b)
    (hcheck : checkBlock (E.toValidationEnv.atTime now).toEnv a true true = .ok ())
    (hcheck' : checkBlock (E.toValidationEnv.atTime now').toEnv b true true = .ok ())
    (hhash : a.getHash E.crypto = b.getHash E.crypto) : a.vtx = b.vtx := by
  have hroots : ∀ {block : CBlock} {now : Int},
      checkBlock (E.toValidationEnv.atTime now).toEnv block true true = .ok () →
      block.hashMerkleRoot = (block.buildMerkleTree E.crypto).1 ∧ (block.buildMerkleTree E.crypto).2 = false := by
    intro block now h
    simp only [checkBlock, bind_eq_ok, exists_unit, if_true, checkMerkleRoot, rejectIf_eq_ok, not_not,
      Bool.not_eq_true] at h
    exact h.2.1
  have hheader : a.toCPureBlockHeader = b.toCPureBlockHeader :=
    CPureBlockHeader.getHash_inj hA.collisionFree (Or.inl ⟨a, ha, Or.inl rfl⟩) (Or.inl ⟨b, hb, Or.inl rfl⟩) hhash
  have hmessages : CollisionFreeOn E.crypto (a.hashedMessages E.crypto ∪ b.hashedMessages E.crypto) := by
    have hin : ∀ m ∈ a.hashedMessages E.crypto ∪ b.hashedMessages E.crypto, m ∈ A.messages E.crypto := by
      rintro m (hm | hm)
      · exact Or.inl ⟨a, ha, Or.inr hm⟩
      · exact Or.inl ⟨b, hb, Or.inr hm⟩
    exact fun x hx y hy => hA.collisionFree x (hin x hx) y (hin y hy)
  have hroot : (a.buildMerkleTree E.crypto).1 = (b.buildMerkleTree E.crypto).1 := by
    rw [← (hroots hcheck).1, ← (hroots hcheck').1, hheader]
  have hchecked := checkBlock_ok hcheck
  have hchecked' := checkBlock_ok hcheck'
  exact vtx_unique hmessages (hA.leaves a b ha hb) (fun tx => hchecked.fits) (fun tx => hchecked'.fits)
    hchecked.nonempty hchecked'.nonempty (hroots hcheck).2 (hroots hcheck').2 hroot

/-- What `ConnectBlock` writes to the index, and that it has checked the block. -/
theorem connectTxIndexed_ok {V : ValidationEnv} {m : BlockMap}
    {view view' : CoinsView}
    {vPosTxid : List (UInt256 × CDiskTxPos)}
    (h : connectTxIndexed V m pindexBestHeader block pindex blockPos view = .ok (view', blockundo, vPosTxid)) :
    checkBlock V.toEnv block true true = .ok () ∧
      vPosTxid = if block.getHash V.crypto = V.params.hashGenesisBlock then [] else block.posTxid V.crypto blockPos := by
  simp only [connectTxIndexed, bind_eq_ok, Prod.exists, Except.ok.injEq, Prod.mk.injEq] at h
  rcases h with ⟨view₁, undo₁, hconnect, -, -, hlist⟩
  refine ⟨?_, hlist.symm⟩
  unfold connectBlock at hconnect
  cases hcheck : checkBlock V.toEnv block (!false) (!false) with
  | error e =>
    rw [hcheck] at hconnect
    cases hconnect
  | ok u => exact hcheck

/-! ## The invariant -/

theorem writeTxIndex_eq (txIndex : UInt256 → Option CDiskTxPos) (vect : List (UInt256 × CDiskTxPos)) (hash : UInt256) :
    (∃ txpos, (hash, txpos) ∈ vect ∧ writeTxIndex txIndex vect hash = some txpos) ∨
      (∀ txpos, (hash, txpos) ∉ vect) ∧ writeTxIndex txIndex vect hash = txIndex hash := by
  induction vect generalizing txIndex with
  | nil => exact Or.inr ⟨fun _ h => absurd h List.not_mem_nil, rfl⟩
  | cons it vect ih =>
    have hstep : writeTxIndex txIndex (it :: vect) hash =
        writeTxIndex (Function.update txIndex it.1 (some it.2)) vect hash := rfl
    rcases ih (Function.update txIndex it.1 (some it.2)) with ⟨txpos, hin, hwrite⟩ | ⟨hnone, hwrite⟩
    · exact Or.inl ⟨txpos, List.mem_cons_of_mem _ hin, hstep.trans hwrite⟩
    · by_cases heq : hash = it.1
      · refine Or.inl ⟨it.2, ?_, ?_⟩
        · rw [heq]
          exact List.mem_cons_self
        · rw [hstep, hwrite, heq, Function.update_self]
      · refine Or.inr ⟨fun txpos hin => ?_, ?_⟩
        · rcases List.mem_cons.1 hin with hfirst | hin
          · exact heq (congrArg Prod.fst hfirst)
          · exact hnone txpos hin
        · rw [hstep, hwrite, Function.update_of_ne heq]

/-- A record of the index is the position of a transaction with this id in a block on disk. -/
def Locates (E : TxIndexEnv) (s : TxIndexNode) (hash : UInt256) (txpos : CDiskTxPos) : Prop :=
  ∃ (block : CBlock) (pos : CDiskBlockPos) (i : Nat) (tx : CTransaction), (block, pos) ∈ s.accepted ∧ block.vtx[i]? = some tx ∧ tx.getHash E.crypto = hash ∧
    (block.posTxid E.crypto pos)[i]? = some (hash, txpos)

/-- The block has the transactions of one that was written, and they are in the index. -/
def InIndex (E : TxIndexEnv) (s : TxIndexNode) (block : CBlock) : Prop :=
  ∃ stored pos, (stored, pos) ∈ s.accepted ∧ stored.getHash E.crypto = block.getHash E.crypto ∧
    stored.vtx = block.vtx ∧ ∀ tx ∈ block.vtx, (s.txIndex (tx.getHash E.crypto)).isSome = true

structure TxIndexInv (E : TxIndexEnv) (A : Arrivals) (s : TxIndexNode) : Prop where
  bounded : s.files.Bounded
  accepted : ∀ block pos, (block, pos) ∈ s.accepted → WrittenBlock E A s block pos
  entries : ∀ pindex pos, s.blockPos pindex = some pos →
    ∃ block, (block, pos) ∈ s.accepted ∧ block.getHash E.crypto = pindex
  index : ∀ hash txpos, s.txIndex hash = some txpos → Locates E s hash txpos
  connected : ∀ block ∈ s.connected, block.getHash E.crypto ≠ E.params.hashGenesisBlock → InIndex E s block
  pool : ∀ (hash : UInt256) (tx : CTransaction), s.mempool.mapTx.lookup hash = some tx → tx.getHash E.crypto = hash ∧ A.tx tx ∧
    checkTransaction tx = .ok ()

theorem txIndexInv_start : TxIndexInv E A .start where
  bounded nFile := by
    have hnone : (BlockFiles.empty.info nFile).nSize = 0 := rfl
    show (BlockFiles.empty.info nFile).nSize < maxBlockFileSize
    rw [hnone]
    decide
  accepted _ _ h := absurd h List.not_mem_nil
  entries _ _ h := nomatch h
  index _ _ h := nomatch h
  connected _ h := absurd h List.not_mem_nil
  pool _ _ h := nomatch h

/-- What is on disk stays when what is in use of the files is kept. -/
theorem WrittenBlock.keep (h : WrittenBlock E A s block pos)
    (hkeeps : KeepsUsed s.files s.blk s'.blk)
    (hgrows : ∀ nFile, (s.files.info nFile).nSize ≤ (s'.files.info nFile).nSize) : WrittenBlock E A s' block pos := by
  rcases h.bytes with ⟨bytes, hser, hne, hsize, hholds, hend⟩
  exact ⟨h.admitted, bytes, hser, hne, hsize, hholds.keep hne (hkeeps pos.nFile) hend, hend.trans (hgrows pos.nFile)⟩

/-- A step that changes neither the index nor the pool, and adds blocks at most. -/
theorem TxIndexInv.grow (hs : TxIndexInv E A s) (hkeeps : KeepsUsed s.files s.blk s'.blk)
    (hgrows : ∀ nFile, (s.files.info nFile).nSize ≤ (s'.files.info nFile).nSize) (hbounded : s'.files.Bounded)
    (haccepted : ∀ entry ∈ s.accepted, entry ∈ s'.accepted)
    (hnew : ∀ entry ∈ s'.accepted, entry ∈ s.accepted ∨ WrittenBlock E A s' entry.1 entry.2)
    (hentries : ∀ pindex pos, s'.blockPos pindex = some pos → s.blockPos pindex = some pos ∨
      ∃ block, (block, pos) ∈ s'.accepted ∧ block.getHash E.crypto = pindex)
    (hindex : s'.txIndex = s.txIndex) (hconnected : s'.connected = s.connected) (hpool : s'.mempool = s.mempool) :
    TxIndexInv E A s' := by
  refine ⟨hbounded, ?_, ?_, ?_, ?_, ?_⟩
  · intro block pos hin
    rcases hnew _ hin with hold | hwritten
    · exact (hs.accepted block pos hold).keep hkeeps hgrows
    · exact hwritten
  · intro pindex pos hpos
    rcases hentries pindex pos hpos with hold | hentry
    · rcases hs.entries pindex pos hold with ⟨block, hin, hhash⟩
      exact ⟨block, haccepted _ hin, hhash⟩
    · exact hentry
  · intro hash txpos htxpos
    rw [hindex] at htxpos
    rcases hs.index hash txpos htxpos with ⟨block, pos, i, tx, hin, hrest⟩
    exact ⟨block, pos, i, tx, haccepted _ hin, hrest⟩
  · intro block hin hgenesis
    rw [hconnected] at hin
    rcases hs.connected block hin hgenesis with ⟨stored, pos, hstored, hhash, hvtx, hall⟩
    exact ⟨stored, pos, haccepted _ hstored, hhash, hvtx, by rw [hindex]; exact hall⟩
  · rw [hpool]
    exact hs.pool

/-- `FindBlockPos` and `WriteBlockToDisk`. -/
theorem writtenBlock_of_write (hE : E.messageStart.length = 4) {found : FoundPos} {nFile : Nat}
    {pos pos' : CDiskBlockPos} {blk blk' : Nat → Bytes} (admitted : Admitted E A block)
    (hplaces : BlockFiles.Places s.files (block.serializeSize + 8) found nFile) (ok : found.result = .ok pos)
    (written : writeBlockToDisk E.messageStart blk block pos = some (blk', pos')) (hblk : s'.blk = blk')
    (hfiles : s'.files = found.files) : WrittenBlock E A s' block pos' := by
  rcases Option.map_eq_some_iff.1 written with ⟨record, hrecord, heq⟩
  rcases Option.map_eq_some_iff.1 hrecord with ⟨bytes, hser, rfl⟩
  have hbytes := (CBlock.serialize_eq hser).1
  have hlength : bytes.length = block.serializeSize := by rw [hbytes, CBlock.serializeSize]
  have hpos := hplaces.pos pos ok
  subst hpos
  have hroom := hplaces.room
  rw [maxBlockFileSize] at hroom
  have hnext : uint32 ((s.files.info nFile).nSize + (E.messageStart.length + 4)) = (s.files.info nFile).nSize + 8 := by
    rw [hE]
    exact uint32_of_lt (by omega)
  rw [hnext] at heq
  cases heq
  refine ⟨admitted, bytes, hser, CBlock.serialize_ne_nil hser, ?_, ?_, ?_⟩
  · rw [hlength]
    exact admitted.size
  · have hhead : (E.messageStart ++ leBytes 4 bytes.length).length = 8 := by
      rw [List.length_append, hE, leBytes_length]
    have hrecord : Holds (write (blk nFile) (s.files.info nFile).nSize (E.messageStart ++ leBytes 4 bytes.length ++ bytes))
        (s.files.info nFile).nSize (E.messageStart ++ leBytes 4 bytes.length ++ bytes) := holds_write
    have hholds := hrecord.right
    rw [hhead] at hholds
    rw [hblk]
    dsimp only [writeBlk]
    rw [Function.update_self]
    exact hholds
  · rw [hfiles, hplaces.nSize, if_pos rfl, hlength]
    dsimp only
    omega

/-- What `ConnectBlock` writes to the index are positions in the block on disk. -/
theorem TxIndexInv.indexed (hE : A.Apart E.crypto) (hs : TxIndexInv E A s) {now : Int} {m : BlockMap}
    {pblock : Option CBlock}
    {coins view : CoinsView} {vPosTxid : List (UInt256 × CDiskTxPos)}
    (data : s.blockPos pindex = some blockPos) (source : ConnectSource E A s pindex blockPos pblock block)
    (connected : connectTxIndexed (E.toValidationEnv.atTime now) m pindexBestHeader block pindex blockPos coins =
      .ok (view, blockundo, vPosTxid)) :
    (vPosTxid = [] ∧ block.getHash E.crypto = E.params.hashGenesisBlock) ∨
      ∃ stored, (stored, blockPos) ∈ s.accepted ∧ stored.getHash E.crypto = block.getHash E.crypto ∧
        stored.vtx = block.vtx ∧ vPosTxid = stored.posTxid E.crypto blockPos := by
  rcases connectTxIndexed_ok connected with ⟨hcheck, hlist⟩
  have hlist' : vPosTxid = if block.getHash E.crypto = E.params.hashGenesisBlock then []
      else block.posTxid E.crypto blockPos := hlist
  by_cases hgenesis : block.getHash E.crypto = E.params.hashGenesisBlock
  · rw [if_pos hgenesis] at hlist'
    exact Or.inl ⟨hlist', hgenesis⟩
  · rw [if_neg hgenesis] at hlist'
    rcases hs.entries pindex blockPos data with ⟨stored, hin, hhash⟩
    have hwritten := hs.accepted stored blockPos hin
    have hsame : stored.getHash E.crypto = block.getHash E.crypto ∧ stored.vtx = block.vtx := by
      rcases source with ⟨hgiven, hsource⟩
      cases pblock with
      | none =>
        rcases hwritten.vtx_of_read hsource with ⟨hvtx, hread⟩
        exact ⟨hhash.trans hread.symm, hvtx.symm⟩
      | some given =>
        cases hsource
        rcases hgiven block rfl with ⟨harrived, hblock⟩
        have hboth := hhash.trans hblock.symm
        rcases hwritten.admitted.2 with ⟨now', hstored⟩ | ⟨hfirst, -⟩
        · exact ⟨hboth, vtx_eq_of_getHash hE hwritten.admitted.1 harrived hstored hcheck hboth⟩
        · exact absurd (hboth.symm.trans hfirst) hgenesis
    refine Or.inr ⟨stored, hin, hsame.1, hsame.2, ?_⟩
    rw [hlist', CBlock.posTxid, CBlock.posTxid, hsame.2]

/-- The positions of a block on disk, and the transactions that are there. -/
theorem WrittenBlock.mem_posTxid (h : WrittenBlock E A s block pos) :
    (∀ (i : Nat) (tx : CTransaction), block.vtx[i]? = some tx → ∃ txpos, (block.posTxid E.crypto pos)[i]? = some (tx.getHash E.crypto, txpos) ∧
      readTransaction E.crypto s.blk txpos = some (tx, block.getHash E.crypto)) ∧
    ∀ hash txpos, (hash, txpos) ∈ block.posTxid E.crypto pos → ∃ (i : Nat) (tx : CTransaction), block.vtx[i]? = some tx ∧
      tx.getHash E.crypto = hash ∧ (block.posTxid E.crypto pos)[i]? = some (hash, txpos) := by
  rcases h.bytes with ⟨bytes, hser, -, hsize, hholds, -⟩
  have hmax : maxBlockSize ≤ maxSize := by decide
  have hread : ∀ (i : Nat) (tx : CTransaction), block.vtx[i]? = some tx →
      ∃ txpos, (block.posTxid E.crypto pos)[i]? = some (tx.getHash E.crypto, txpos) ∧
        readTransaction E.crypto s.blk txpos = some (tx, block.getHash E.crypto) :=
    fun i tx htx => readTransaction_of_holds hser (hsize.trans hmax) hholds htx
  refine ⟨hread, fun hash txpos hin => ?_⟩
  have hlength : ∀ (txpos : CDiskTxPos) (vtx : List CTransaction), (posTxid E.crypto txpos vtx).length = vtx.length := by
    intro txpos vtx
    induction vtx generalizing txpos with
    | nil => rfl
    | cons tx vtx ih => rw [posTxid, List.length_cons, ih, List.length_cons]
  rcases List.getElem?_of_mem hin with ⟨i, hi⟩
  have hlt : i < block.vtx.length := by
    rw [← hlength ⟨pos, uint32 (getSizeOfCompactSize block.vtx.length)⟩ block.vtx]
    exact (List.getElem?_eq_some_iff.1 hi).1
  rcases hread i _ (List.getElem?_eq_getElem hlt) with ⟨txpos', hpos, -⟩
  have hsame := Option.some.inj (hi.symm.trans hpos)
  exact ⟨i, _, List.getElem?_eq_getElem hlt, (congrArg Prod.fst hsame).symm, hi⟩

/-- Writing the positions of a block keeps the invariant, and its transactions are in the index then. -/
theorem TxIndexInv.write (hs : TxIndexInv E A s)
    (hin : (block, pos) ∈ s.accepted) :
    TxIndexInv E A { s with txIndex := writeTxIndex s.txIndex (block.posTxid E.crypto pos) } ∧
      ∀ tx ∈ block.vtx, (writeTxIndex s.txIndex (block.posTxid E.crypto pos) (tx.getHash E.crypto)).isSome = true := by
  have hwritten := (hs.accepted block pos hin).mem_posTxid
  refine ⟨⟨hs.bounded, fun block pos hin => ⟨(hs.accepted block pos hin).admitted, (hs.accepted block pos hin).bytes⟩,
    hs.entries, ?_, ?_, hs.pool⟩, ?_⟩
  · intro hash txpos htxpos
    have htxpos' : writeTxIndex s.txIndex (block.posTxid E.crypto pos) hash = some txpos := htxpos
    rcases writeTxIndex_eq s.txIndex (block.posTxid E.crypto pos) hash with
      ⟨txpos', hmem, hwrite⟩ | ⟨-, hwrite⟩
    · rw [hwrite, Option.some.injEq] at htxpos'
      subst htxpos'
      rcases hwritten.2 hash txpos' hmem with ⟨i, tx, htx, hhash, hpos⟩
      exact ⟨block, pos, i, tx, hin, htx, hhash, hpos⟩
    · rw [hwrite] at htxpos'
      exact hs.index hash txpos htxpos'
  · intro block' hconnected hgenesis
    rcases hs.connected block' hconnected hgenesis with ⟨stored, pos', hstored, hhash, hvtx, hall⟩
    refine ⟨stored, pos', hstored, hhash, hvtx, fun tx htx => ?_⟩
    rcases writeTxIndex_eq s.txIndex (block.posTxid E.crypto pos) (tx.getHash E.crypto) with
      ⟨txpos', -, hwrite⟩ | ⟨-, hwrite⟩
    · exact Option.isSome_iff_exists.2 ⟨txpos', hwrite⟩
    · show (writeTxIndex s.txIndex (block.posTxid E.crypto pos) (tx.getHash E.crypto)).isSome = true
      rw [hwrite]
      exact hall tx htx
  · intro tx htx
    rcases List.getElem?_of_mem htx with ⟨i, hi⟩
    rcases hwritten.1 i tx hi with ⟨txpos, hpos, -⟩
    rcases writeTxIndex_eq s.txIndex (block.posTxid E.crypto pos) (tx.getHash E.crypto) with
      ⟨txpos', -, hwrite⟩ | ⟨hnone, -⟩
    · exact Option.isSome_iff_exists.2 ⟨txpos', hwrite⟩
    · exact absurd (List.mem_of_getElem? hpos) (hnone txpos)

/-- The coins, the chain and the history of connected blocks do not matter otherwise. -/
theorem TxIndexInv.withChain (hs : TxIndexInv E A s) (coins : CoinsView) (chainActive : List UInt256)
    {connected : List CBlock}
    (h : ∀ block ∈ connected, block.getHash E.crypto ≠ E.params.hashGenesisBlock → InIndex E s block) :
    TxIndexInv E A { s with coins := coins, chainActive := chainActive, connected := connected } :=
  ⟨hs.bounded, fun block pos hin => ⟨(hs.accepted block pos hin).admitted, (hs.accepted block pos hin).bytes⟩,
    hs.entries, hs.index, h, hs.pool⟩

theorem TxIndexInv.accept (hs : TxIndexInv E A s) {nHeight nTime : Nat} {fSpace : Bool}
    {found : FoundPos} {pos pos' : CDiskBlockPos} {blk : Nat → Bytes} (admitted : Admitted E A block)
    (place : s.files.findBlockPos none (block.serializeSize + 8) nHeight nTime fSpace = some found)
    (ok : found.result = .ok pos)
    (written : writeBlockToDisk E.messageStart (runActs found.acts s.blk) block pos = some (blk, pos')) :
    TxIndexInv E A { s with
      blk := blk
      files := found.files
      blockPos := Function.update s.blockPos (block.getHash E.crypto) (some pos')
      accepted := (block, pos') :: s.accepted } := by
  have hsize := admitted.size
  rw [maxBlockSize] at hsize
  rcases BlockFiles.findBlockPos_places hs.bounded (by omega) place with ⟨nFile, hplaces⟩
  have hacts := keepsUsed_runActs hplaces.acts s.blk
  have hblk : KeepsUsed s.files s.blk blk := by
    rcases Option.map_eq_some_iff.1 written with ⟨record, -, heq⟩
    cases heq
    refine hacts.trans (keepsUsed_writeBlk ?_ _ record)
    rw [hplaces.pos pos ok]
  refine hs.grow hblk hplaces.grows (hplaces.bounded hs.bounded) (fun entry => List.mem_cons_of_mem _) ?_ ?_ rfl rfl rfl
  · intro entry hin
    rcases List.mem_cons.1 hin with rfl | hold
    · exact Or.inr (writtenBlock_of_write E.messageStart_length admitted hplaces ok written rfl rfl)
    · exact Or.inl hold
  · intro pindex pos₁ hpos
    by_cases heq : pindex = block.getHash E.crypto
    · subst heq
      have hnew : Function.update s.blockPos (block.getHash E.crypto) (some pos') (block.getHash E.crypto) = some pos₁ := hpos
      rw [Function.update_self] at hnew
      cases hnew
      exact Or.inr ⟨block, List.mem_cons_self, rfl⟩
    · have hold : Function.update s.blockPos (block.getHash E.crypto) (some pos') pindex = some pos₁ := hpos
      rw [Function.update_of_ne heq] at hold
      exact Or.inl hold

theorem TxIndexInv.refuse (hs : TxIndexInv E A s) {nHeight nTime : Nat} {fSpace : Bool}
    {found : FoundPos} {blk : Nat → Bytes} (admitted : Admitted E A block)
    (place : s.files.findBlockPos none (block.serializeSize + 8) nHeight nTime fSpace = some found)
    (torn : blk = runActs found.acts s.blk ∨ ∃ pos bytes, found.result = .ok pos ∧
      blk = writeBlk (runActs found.acts s.blk) pos bytes) :
    TxIndexInv E A { s with blk := blk, files := found.files } := by
  have hsize := admitted.size
  rw [maxBlockSize] at hsize
  rcases BlockFiles.findBlockPos_places hs.bounded (by omega) place with ⟨nFile, hplaces⟩
  have hacts := keepsUsed_runActs hplaces.acts s.blk
  have hblk : KeepsUsed s.files s.blk blk := by
    rcases torn with rfl | ⟨pos, bytes, ok, rfl⟩
    · exact hacts
    · refine hacts.trans (keepsUsed_writeBlk ?_ _ bytes)
      rw [hplaces.pos pos ok]
  exact hs.grow hblk hplaces.grows (hplaces.bounded hs.bounded) (fun entry h => h) (fun entry h => Or.inl h)
    (fun pindex pos h => Or.inl h) rfl rfl rfl

/-- **Step.**  Whatever the node does next, the invariant is kept. -/
theorem TxIndexInv.step (hE : A.Apart E.crypto) (hs : TxIndexInv E A s) (h : TxIndexStep E A s s') :
    TxIndexInv E A s' := by
  cases h with
  | accept admitted new place ok written => exact hs.accept admitted place ok written
  | refuse admitted place torn => exact hs.refuse admitted place torn
  | @connect now m pindexBestHeader pindex blockPos pblock block view blockundo vPosTxid data source connected =>
    rcases hs.indexed hE data source connected with ⟨rfl, hgenesis⟩ | ⟨stored, hin, hhash, hvtx, rfl⟩
    · refine hs.withChain view (pindex :: s.chainActive) fun block' hin' hnot => ?_
      rcases List.mem_cons.1 hin' with rfl | hold
      · exact absurd hgenesis hnot
      · exact hs.connected block' hold hnot
    · rcases hs.write hin with ⟨hwrite, hall⟩
      refine hwrite.withChain view (pindex :: s.chainActive) fun block' hin' hnot => ?_
      rcases List.mem_cons.1 hin' with rfl | hold
      · exact ⟨stored, blockPos, hin, hhash, hvtx, by rw [← hvtx]; exact hall⟩
      · exact hwrite.connected block' hold hnot
  | index data source connected =>
    rcases hs.indexed hE data source connected with ⟨rfl, -⟩ | ⟨stored, hin, -, -, rfl⟩
    · exact hs
    · exact (hs.write hin).1
  | @disconnect m pindex rest blockPos block undo view tip data read disconnected =>
    exact hs.withChain view rest hs.connected
  | @poolAdd tx arrived checked =>
    refine ⟨hs.bounded, fun block pos hin => ⟨(hs.accepted block pos hin).admitted, (hs.accepted block pos hin).bytes⟩,
      hs.entries, hs.index, hs.connected, fun hash tx' hlookup => ?_⟩
    have hinsert : (s.mempool.mapTx.insert (tx.getHash E.crypto) tx).lookup hash = some tx' := hlookup
    by_cases heq : hash = tx.getHash E.crypto
    · subst heq
      rw [AList.lookup_insert] at hinsert
      cases hinsert
      exact ⟨rfl, arrived, checked⟩
    · rw [AList.lookup_insert_ne heq] at hinsert
      exact hs.pool hash tx' hinsert
  | @poolRemove hash mapNextTx =>
    refine ⟨hs.bounded, fun block pos hin => ⟨(hs.accepted block pos hin).admitted, (hs.accepted block pos hin).bytes⟩,
      hs.entries, hs.index, hs.connected, fun hash' tx' hlookup => ?_⟩
    have herase : (s.mempool.mapTx.erase hash).lookup hash' = some tx' := hlookup
    by_cases heq : hash' = hash
    · subst heq
      rw [AList.lookup_erase] at herase
      cases herase
    · rw [AList.lookup_erase_ne heq] at herase
      exact hs.pool hash' tx' herase

/-- **Run.** -/
theorem TxIndexRun.inv (hE : A.Apart E.crypto) (h : TxIndexRun E A s) : TxIndexInv E A s := by
  induction h with
  | refl => exact txIndexInv_start
  | tail _ hstep ih => exact ih.step hE hstep

/-! ## What is found -/

theorem TxIndexInv.getTransaction_eq (hE : A.Apart E.crypto) (hs : TxIndexInv E A s)
    (hin : block ∈ s.connected) (hgenesis : block.getHash E.crypto ≠ E.params.hashGenesisBlock) {tx : CTransaction}
    (htx : tx ∈ block.vtx) (fAllowSlow : Bool) :
    ∃ hashBlock, s.getTransaction E (tx.getHash E.crypto) fAllowSlow = some (tx, hashBlock) := by
  -- Transactions of blocks on disk can be told apart by their ids.
  have hstored : ∀ {stored : CBlock} {pos : CDiskBlockPos} {tx : CTransaction}, (stored, pos) ∈ s.accepted →
      tx ∈ stored.vtx → CTransaction.codec.Fits tx ∧ CTransaction.codec.put tx ∈ A.messages E.crypto := by
    intro stored pos tx hmem htx
    have hwritten := hs.accepted stored pos hmem
    have hput : CBlock.codec.put stored = CBlockHeader.codec.put stored.toCBlockHeader ++
        (writeCompactSize stored.vtx.length ++ putAll CTransaction.codec stored.vtx) := rfl
    have hsize := hwritten.admitted.size
    have hle := length_put_le CTransaction.codec htx
    have hmax : maxBlockSize ≤ maxSize := by decide
    rw [CBlock.serializeSize, hput, List.length_append, List.length_append] at hsize
    refine ⟨CTransaction.fits_of_size ?_, Or.inl ⟨stored, hwritten.admitted.1, Or.inr (Or.inl ⟨tx, htx, rfl⟩)⟩⟩
    rw [CTransaction.serializeSize]
    omega
  rcases hs.connected block hin hgenesis with ⟨stored, pos, hmem, -, hvtx, hall⟩
  rcases hstored hmem (hvtx ▸ htx) with ⟨hfits, hmessage⟩
  unfold TxIndexNode.getTransaction
  cases hpool : s.mempool.mapTx.lookup (tx.getHash E.crypto) with
  | some tx' =>
    rcases hs.pool _ tx' hpool with ⟨hhash, harrived, hchecked⟩
    have hfits' : CTransaction.codec.Fits tx' := by
      simp only [checkTransaction, bind_eq_ok, exists_unit, rejectIf_eq_ok, not_lt, gt_iff_lt] at hchecked
      exact CTransaction.fits_of_size (hchecked.2.2.1.trans (by decide))
    have hsame := CTransaction.getHash_inj hE.collisionFree hfits' hfits (Or.inr ⟨tx', harrived, rfl⟩) hmessage hhash
    exact ⟨none, by rw [hsame]⟩
  | none =>
    rcases Option.isSome_iff_exists.1 (hall tx htx) with ⟨txpos, htxpos⟩
    rcases hs.index _ txpos htxpos with ⟨other, pos', i, tx', hmem', htx', hhash, hpos⟩
    rcases (hs.accepted other pos' hmem').mem_posTxid.1 i tx' htx' with ⟨txpos', hpos', hread⟩
    have hplace : txpos = txpos' := congrArg Prod.snd (Option.some.inj (hpos.symm.trans hpos'))
    subst hplace
    rcases hstored hmem' (List.mem_of_getElem? htx') with ⟨hfits', hmessage'⟩
    have hsame := CTransaction.getHash_inj hE.collisionFree hfits' hfits hmessage' hmessage hhash
    subst hsame
    refine ⟨some (other.getHash E.crypto), ?_⟩
    dsimp only
    rw [htxpos]
    dsimp only
    rw [hread, Option.bind_eq_bind, Option.bind_some, Option.bind_some]
    dsimp only
    rw [if_pos rfl]

theorem ConnectSource.getHash_eq {pblock : Option CBlock}
    (h : ConnectSource E A s pindex blockPos pblock block) : block.getHash E.crypto = pindex := by
  rcases h with ⟨hgiven, hsource⟩
  cases pblock with
  | some given =>
    cases hsource
    exact (hgiven block rfl).2
  | none =>
    have hread : readBlockFromDisk E.crypto E.params s.blk blockPos pindex = some block := hsource
    rcases Option.bind_eq_some_iff.1 hread with ⟨⟨got, rest⟩, -, hchecked⟩
    dsimp only at hchecked
    split_ifs at hchecked with hcheck
    cases hchecked
    rw [Bool.and_eq_true, decide_eq_true_eq] at hcheck
    exact hcheck.2

/-- Every entry of the chain stands for a block that has been connected. -/
theorem TxIndexRun.chain_connected (h : TxIndexRun E A s) :
    ∀ pindex ∈ s.chainActive, ∃ block ∈ s.connected, block.getHash E.crypto = pindex := by
  induction h with
  | refl => exact fun _ h => absurd h List.not_mem_nil
  | tail _ hstep ih =>
    cases hstep with
    | connect data source connected =>
      intro pindex hin
      rcases List.mem_cons.1 hin with rfl | hold
      · exact ⟨_, List.mem_cons_self, source.getHash_eq⟩
      · rcases ih pindex hold with ⟨block, hblock, hhash⟩
        exact ⟨block, List.mem_cons_of_mem _ hblock, hhash⟩
    | disconnect tip => exact fun pindex hin => ih pindex (by rw [tip]; exact List.mem_cons_of_mem _ hin)
    | accept => exact ih
    | refuse => exact ih
    | index => exact ih
    | poolAdd => exact ih
    | poolRemove => exact ih

/-- The position that is recorded for each transaction of a block on disk leads to the transaction and the block's hash, and
with the index every transaction of every block that has been connected is found. -/
theorem txIndex_spec (E : TxIndexEnv) (A : Arrivals) (hE : A.Apart E.crypto) (s : TxIndexNode) (h : TxIndexRun E A s) :
    (∀ block pos, (block, pos) ∈ s.accepted → ∀ (i : Nat) (tx : CTransaction), block.vtx[i]? = some tx →
      ∃ txpos, (block.posTxid E.crypto pos)[i]? = some (tx.getHash E.crypto, txpos) ∧
        readTransaction E.crypto s.blk txpos = some (tx, block.getHash E.crypto)) ∧
    (∀ block ∈ s.connected, block.getHash E.crypto ≠ E.params.hashGenesisBlock → ∀ tx ∈ block.vtx, ∀ fAllowSlow,
      ∃ hashBlock, s.getTransaction E (tx.getHash E.crypto) fAllowSlow = some (tx, hashBlock)) ∧
    ∀ pindex ∈ s.chainActive, ∃ block ∈ s.connected, block.getHash E.crypto = pindex := by
  have hs := h.inv hE
  refine ⟨fun block pos hin => (hs.accepted block pos hin).mem_posTxid.1, ?_, h.chain_connected⟩
  exact fun block hin hgenesis tx htx fAllowSlow => hs.getTransaction_eq hE hin hgenesis htx fAllowSlow

/-! ## Steps that can be taken -/

/-- A block that has been checked is written when there is room on the disk. -/
theorem exists_accept {bytes : Bytes} (admitted : Admitted E A block)
    (hser : block.serialize = some bytes) (new : s.blockPos (block.getHash E.crypto) = none) :
    ∃ s' pos, TxIndexStep E A s s' ∧ s'.blockPos = Function.update s.blockPos (block.getHash E.crypto) (some pos) ∧
      s'.coins = s.coins ∧ s'.chainActive = s.chainActive ∧ s'.connected = s.connected := by
  have hsize := admitted.size
  have hroom : block.serializeSize + 8 < maxBlockFileSize := by
    rw [maxBlockSize] at hsize
    rw [maxBlockFileSize]
    omega
  rcases s.files.findBlockPos_ok 0 0 hroom with ⟨found, pos, place, ok⟩
  have written := writeBlockToDisk_eq E.messageStart (runActs found.acts s.blk) hser pos
  exact ⟨_, _, .accept admitted new place ok written, rfl, rfl, rfl, rfl⟩

/-- A block in memory is connected, with its positions. -/
theorem exists_connect {now : Int} {m : BlockMap}
    {view : CoinsView}
    (data : s.blockPos pindex = some blockPos) (arrived : A.block block) (hash : block.getHash E.crypto = pindex)
    (connected : connectBlock (E.toValidationEnv.atTime now) m pindexBestHeader block pindex s.coins false =
      .ok (view, blockundo)) :
    ∃ s', TxIndexStep E A s s' ∧ s'.blockPos = s.blockPos ∧ s'.coins = view ∧ s'.chainActive = pindex :: s.chainActive ∧
      s'.connected = block :: s.connected := by
  have source : ConnectSource E A s pindex blockPos (some block) block := by
    refine ⟨fun given hgiven => ?_, rfl⟩
    cases hgiven
    exact ⟨arrived, hash⟩
  have indexed : connectTxIndexed (E.toValidationEnv.atTime now) m pindexBestHeader block pindex blockPos s.coins =
      .ok (view, blockundo, if block.getHash E.crypto = E.params.hashGenesisBlock then []
        else block.posTxid E.crypto blockPos) := by
    rw [connectTxIndexed, connected]
    rfl
  exact ⟨_, .connect data source indexed, rfl, rfl, rfl, rfl⟩

/-! ## Two blocks -/

def txIndexEnv : TxIndexEnv where
  toValidationEnv := undoEnv
  messageStart := [0xfc, 0xc1, 0xb7, 0xdc]
  messageStart_length := rfl

/-- The block after the genesis block, with the same coinbase. -/
def indexedBlock : CBlock :=
  undoBlock 2 1 [undoCoinbase]

def indexedBlocks : Arrivals where
  block b := b = undoGenesis ∨ b = indexedBlock
  tx _ := False

set_option maxRecDepth 10000 in
theorem indexedBlocks_apart : indexedBlocks.Apart prefixCrypto := by
  have hnodes : (undoGenesis.merkleTree prefixCrypto).2.2 = [] ∧ (indexedBlock.merkleTree prefixCrypto).2.2 = [] := by
    decide
  have hempty : ∀ b, indexedBlocks.block b → (b.merkleTree prefixCrypto).2.2 = [] := by
    rintro b (rfl | rfl)
    · exact hnodes.1
    · exact hnodes.2
  have hvtx : ∀ b, indexedBlocks.block b → b.vtx = [undoCoinbase] := by
    rintro b (rfl | rfl) <;> rfl
  let all : List Bytes := [undoGenesis.toCPureBlockHeader.bytes, indexedBlock.toCPureBlockHeader.bytes,
    CTransaction.codec.put undoCoinbase]
  have hin : ∀ m ∈ indexedBlocks.messages prefixCrypto, m ∈ all := by
    rintro m (⟨b, hb, rfl | ⟨tx, htx, rfl⟩ | ⟨p, hp, -⟩⟩ | ⟨tx, htx, -⟩)
    · rcases hb with rfl | rfl
      · exact List.mem_cons_self
      · exact List.mem_cons_of_mem _ List.mem_cons_self
    · rw [hvtx b hb, List.mem_singleton] at htx
      subst htx
      exact List.mem_cons_of_mem _ (List.mem_cons_of_mem _ List.mem_cons_self)
    · rw [hempty b hb] at hp
      cases hp
    · exact htx.elim
  have hall : all.all (fun m => all.all fun n => decide (prefixCrypto.hash m = prefixCrypto.hash n → m = n)) = true := by
    decide
  constructor
  · intro m hm n hn heq
    have hone := List.all_eq_true.1 hall m (hin m hm)
    exact of_decide_eq_true (List.all_eq_true.1 hone n (hin n hn)) heq
  · intro a b ha hb x _ p hp
    rw [hempty a ha, hempty b hb] at hp
    cases hp

/-- Connect the genesis block and the next one. -/
def indexedRun : Except ConnectStop Unit := do
  let genesis ← connectBlock (undoEnv.atTime 100000) undoTree none undoGenesis 1 .empty false
  let _ ← connectBlock (undoEnv.atTime 100000) undoTree none indexedBlock undoIndex genesis.1 false
  .ok ()

set_option maxRecDepth 40000 in
theorem indexedRun_eq : indexedRun = .ok () := by
  decide

set_option maxRecDepth 40000 in
theorem exists_indexedRun : ∃ s, TxIndexRun txIndexEnv indexedBlocks s ∧ s.chainActive = [undoIndex, 1] ∧
    s.connected = [indexedBlock, undoGenesis] := by
  have hgenesis : undoGenesis.getHash txIndexEnv.crypto = 1 := by decide
  have hnext : indexedBlock.getHash txIndexEnv.crypto = undoIndex := by decide
  have hfirst : Admitted txIndexEnv indexedBlocks undoGenesis :=
    ⟨Or.inl rfl, Or.inr ⟨hgenesis, by decide⟩⟩
  have hsecond : Admitted txIndexEnv indexedBlocks indexedBlock :=
    ⟨Or.inr rfl, Or.inl ⟨100000, by decide⟩⟩
  have hne : undoIndex ≠ 1 := by decide
  rcases exists_accept (s := .start) hfirst rfl rfl with ⟨s₁, pos₁, hstep₁, hpos₁, hcoins₁, hchain₁, hconnected₁⟩
  have hnew : s₁.blockPos (indexedBlock.getHash txIndexEnv.crypto) = none := by
    rw [hpos₁, hnext, hgenesis, Function.update_of_ne hne]
    rfl
  rcases exists_accept hsecond rfl hnew with ⟨s₂, pos₂, hstep₂, hpos₂, hcoins₂, hchain₂, hconnected₂⟩
  have hdata₁ : s₂.blockPos 1 = some pos₁ := by
    rw [hpos₂, hnext, Function.update_of_ne hne.symm, hpos₁, hgenesis, Function.update_self]
  have hrun := indexedRun_eq
  simp only [indexedRun, bind_eq_ok, Prod.exists] at hrun
  rcases hrun with ⟨view₁, undo₁, hconnect₁, view₂, undo₂, hconnect₂, -⟩
  have hempty : s₂.coins = .empty := hcoins₂.trans hcoins₁
  rw [← hempty] at hconnect₁
  rcases exists_connect (A := indexedBlocks) hdata₁ (Or.inl rfl) hgenesis hconnect₁ with
    ⟨s₃, hstep₃, hpos₃, hcoins₃, hchain₃, hconnected₃⟩
  have hdata₂ : s₃.blockPos undoIndex = some pos₂ := by
    rw [hpos₃, hpos₂, hnext, Function.update_self]
  rw [← hcoins₃] at hconnect₂
  rcases exists_connect (A := indexedBlocks) hdata₂ (Or.inr rfl) hnext hconnect₂ with ⟨s₄, hstep₄, -, -, hchain₄, hconnected₄⟩
  refine ⟨s₄, (((Relation.ReflTransGen.single hstep₁).tail hstep₂).tail hstep₃).tail hstep₄, ?_, ?_⟩
  · rw [hchain₄, hchain₃, hchain₂, hchain₁]
    rfl
  · rw [hconnected₄, hconnected₃, hconnected₂, hconnected₁]
    rfl

theorem txIndex_spec_indexedRun : ∃ s, TxIndexRun txIndexEnv indexedBlocks s ∧ s.connected = [indexedBlock, undoGenesis] ∧
    (∀ block pos, (block, pos) ∈ s.accepted → ∀ (i : Nat) (tx : CTransaction), block.vtx[i]? = some tx →
      ∃ txpos, (block.posTxid prefixCrypto pos)[i]? = some (tx.getHash prefixCrypto, txpos) ∧
        readTransaction prefixCrypto s.blk txpos = some (tx, block.getHash prefixCrypto)) ∧
    (∀ block ∈ s.connected, block.getHash prefixCrypto ≠ 1 → ∀ tx ∈ block.vtx, ∀ fAllowSlow,
      ∃ hashBlock, s.getTransaction txIndexEnv (tx.getHash prefixCrypto) fAllowSlow = some (tx, hashBlock)) ∧
    ∀ pindex ∈ s.chainActive, ∃ block ∈ s.connected, block.getHash prefixCrypto = pindex := by
  rcases exists_indexedRun with ⟨s, hrun, -, hconnected⟩
  exact ⟨s, hrun, hconnected, txIndex_spec txIndexEnv indexedBlocks indexedBlocks_apart s hrun⟩

end Dobbscoin
