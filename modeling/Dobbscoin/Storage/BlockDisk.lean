import Dobbscoin.Lib.FileBytes
import Dobbscoin.Pow.Retarget
import Dobbscoin.Storage.BlockFiles

/-!
# Blocks on disk

What `FindBlockPos` and `WriteBlockToDisk` of `main.cpp` do to the contents of the files `blk?????.dat`, and how
`ReadTransaction` finds a transaction behind a header whose length varies.
-/

namespace Dobbscoin

open ByteCodec FileBytes

variable {s : BlockFiles} {h : CBlockHeader} {bytes : Bytes}

/-! ## Sizes and positions -/

/-- `GetSizeOfCompactSize`. -/
def getSizeOfCompactSize (nSize : Nat) : Nat :=
  if nSize < 253 then 1
  else if nSize ≤ 0xffff then 3
  else if nSize ≤ 0xffffffff then 5
  else 9

theorem length_writeCompactSize (n : Nat) : (writeCompactSize n).length = getSizeOfCompactSize n := by
  unfold writeCompactSize getSizeOfCompactSize
  split_ifs <;> simp

/-- A place in a block file, with an offset behind the header. -/
structure CDiskTxPos extends CDiskBlockPos where
  nTxOffset : Nat
  deriving DecidableEq

/-- `vPosTxid`: the position moves on by the size of each transaction. -/
def posTxid (H : Crypto) : CDiskTxPos → List CTransaction → List (UInt256 × CDiskTxPos)
  | _, [] => []
  | pos, tx :: rest =>
    (tx.getHash H, pos) :: posTxid H { pos with nTxOffset := uint32 (pos.nTxOffset + tx.serializeSize) } rest

/-- `vPosTxid` after the loop of `ConnectBlock`. -/
def CBlock.posTxid (H : Crypto) (block : CBlock) (blockPos : CDiskBlockPos) : List (UInt256 × CDiskTxPos) :=
  Dobbscoin.posTxid H ⟨blockPos, uint32 (getSizeOfCompactSize block.vtx.length)⟩ block.vtx

/-! ## Reading and writing -/

/-- `none` is the failed `assert(auxpow)`. -/
def CBlock.serialize (block : CBlock) : Option Bytes :=
  block.toCBlockHeader.serialize.map fun header => header ++ (vec compactSizeCodec CTransaction.codec).put block.vtx

/-- What an action does to the block files. -/
def FileAct.run (act : FileAct) (blk : Nat → Bytes) : Nat → Bytes :=
  match act with
  | .truncate (.blk nFile) length => Function.update blk nFile (resize (blk nFile) length)
  | .allocate (.blk nFile) offset length => Function.update blk nFile (extend (blk nFile) (offset + length))
  | _ => blk

def runActs (acts : List FileAct) (blk : Nat → Bytes) : Nat → Bytes :=
  acts.foldl (fun blk act => act.run blk) blk

/-- The message start, the size and the block, as `WriteBlockToDisk` writes them. -/
def blockRecord (messageStart : Bytes) (block : CBlock) : Option Bytes :=
  block.serialize.map fun bytes => messageStart ++ leBytes 4 bytes.length ++ bytes

/-- Bytes that are written at a position. -/
def writeBlk (blk : Nat → Bytes) (pos : CDiskBlockPos) (bytes : Bytes) : Nat → Bytes :=
  Function.update blk pos.nFile (write (blk pos.nFile) pos.nPos bytes)

/-- `WriteBlockToDisk`, and the position that it leaves in `pos`. -/
def writeBlockToDisk (messageStart : Bytes) (blk : Nat → Bytes) (block : CBlock) (pos : CDiskBlockPos) :
    Option ((Nat → Bytes) × CDiskBlockPos) :=
  (blockRecord messageStart block).map fun bytes =>
    (writeBlk blk pos bytes, ⟨pos.nFile, uint32 (pos.nPos + (messageStart.length + 4))⟩)

theorem writeBlockToDisk_eq (messageStart : Bytes) (blk : Nat → Bytes) {block : CBlock}
    (h : block.serialize = some bytes) (pos : CDiskBlockPos) :
    writeBlockToDisk messageStart blk block pos =
      some (writeBlk blk pos (messageStart ++ leBytes 4 bytes.length ++ bytes),
        ⟨pos.nFile, uint32 (pos.nPos + (messageStart.length + 4))⟩) := by
  rw [writeBlockToDisk, blockRecord, h, Option.map_some, Option.map_some]

/-- `ReadBlockFromDisk` with the hash of the index entry. -/
def readBlockFromDisk (H : Crypto) (P : CChainParams) (blk : Nat → Bytes) (pos : CDiskBlockPos) (pindex : UInt256) :
    Option CBlock := do
  let (block, _) ← CBlock.codec.get ((blk pos.nFile).drop pos.nPos)
  if checkAuxPowProofOfWork H P block.toCBlockHeader && decide (block.getHash H = pindex) then some block else none

/-- `ReadTransaction`: the transaction and `hashBlock`. -/
def readTransaction (H : Crypto) (blk : Nat → Bytes) (pos : CDiskTxPos) : Option (CTransaction × UInt256) := do
  let (header, rest) ← CBlockHeader.unserialize ((blk pos.nFile).drop pos.nPos)
  let (tx, _) ← CTransaction.codec.get (rest.drop pos.nTxOffset)
  return (tx, header.getHash H)

/-! ## The header -/

theorem hashesCodec_fits {hashes : List UInt256} (h : (hashesCodec.put hashes).length ≤ maxSize) :
    hashesCodec.Fits hashes := by
  have hput : hashesCodec.put hashes = writeCompactSize hashes.length ++ putAll uint256Codec hashes := rfl
  have hall : hashes.length ≤ (putAll uint256Codec hashes).length := by
    refine length_le_putAll uint256Codec fun x _ => ?_
    have hbytes := UInt256.bytes_length x
    rw [UInt256.bytes] at hbytes
    omega
  rw [hput, List.length_append] at h
  exact ⟨by show hashes.length ≤ maxSize; omega, fun x _ => uint256Codec_fits x⟩

/-- A trailer that is not too large can be read back. -/
theorem CAuxPow.codec_fits {a : CAuxPow} (h : (CAuxPow.codec.put a).length ≤ maxSize) : CAuxPow.codec.Fits a := by
  have hput : CAuxPow.codec.put a = CTransaction.codec.put a.tx ++ (uint256Codec.put a.hashBlock ++
      (hashesCodec.put a.vMerkleBranch ++ (int32Codec.put a.nIndex ++ (hashesCodec.put a.vChainMerkleBranch ++
        (int32Codec.put a.nChainIndex ++ CPureBlockHeader.codec.put a.parentBlock))))) := rfl
  rw [hput] at h
  simp only [List.length_append] at h
  have htx : a.tx.serializeSize ≤ maxSize := by
    rw [CTransaction.serializeSize]
    omega
  have hbranch : hashesCodec.Fits a.vMerkleBranch := hashesCodec_fits (by omega)
  have hchain : hashesCodec.Fits a.vChainMerkleBranch := hashesCodec_fits (by omega)
  exact ⟨CTransaction.fits_of_size htx, uint256Codec_fits _, hbranch, int32Codec_fits _, hchain, int32Codec_fits _,
    CPureBlockHeader.codec_fits _⟩

namespace CBlockHeader

/-- The header as it is read back: a trailer that the version does not announce is not written. -/
def onDisk (h : CBlockHeader) : CBlockHeader :=
  if h.isAuxpow then h else { h with auxpow := none }

theorem put_of_not_auxpow (hflag : h.isAuxpow = false) :
    codec.put h = CPureBlockHeader.codec.put h.toCPureBlockHeader := by
  simp [codec, ByteCodec.iso, ByteCodec.trailer, hflag]

theorem put_of_auxpow {a : CAuxPow} (hflag : h.isAuxpow = true) (haux : h.auxpow = some a) :
    codec.put h = CPureBlockHeader.codec.put h.toCPureBlockHeader ++ CAuxPow.codec.put a := by
  simp [codec, ByteCodec.iso, ByteCodec.trailer, hflag, haux]

theorem put_onDisk (h : CBlockHeader) : codec.put h.onDisk = codec.put h := by
  unfold onDisk
  cases hflag : h.isAuxpow with
  | true => rw [if_pos rfl]
  | false =>
    rw [if_neg Bool.false_ne_true, put_of_not_auxpow hflag]
    exact put_of_not_auxpow (h := { h with auxpow := none }) hflag

theorem getHash_onDisk (H : Crypto) (h : CBlockHeader) : h.onDisk.getHash H = h.getHash H := by
  unfold onDisk
  split_ifs <;> rfl

theorem fits_onDisk (hser : h.serialize = some bytes)
    (hsize : bytes.length ≤ maxSize) : codec.Fits h.onDisk := by
  unfold serialize at hser
  unfold onDisk
  cases hflag : h.isAuxpow with
  | false =>
    rw [if_neg Bool.false_ne_true]
    exact ⟨CPureBlockHeader.codec_fits _, hflag.symm, fun a ha => nomatch ha⟩
  | true =>
    rw [if_pos rfl]
    cases haux : h.auxpow with
    | none =>
      rw [hflag, haux] at hser
      cases hser
    | some a =>
      rw [hflag, haux] at hser
      cases hser
      rw [put_of_auxpow hflag haux, List.length_append] at hsize
      refine ⟨CPureBlockHeader.codec_fits _, ?_, fun a' ha' => ?_⟩
      · show h.auxpow.isSome = h.isAuxpow
        rw [hflag, haux]
        rfl
      · have hsame : a = a' := Option.some.inj (haux.symm.trans ha')
        rw [← hsame]
        exact CAuxPow.codec_fits (by omega)

/-- What has been written is read, and with it the header's length. -/
theorem unserialize_append (hser : h.serialize = some bytes)
    (hsize : bytes.length ≤ maxSize) (rest : Bytes) : unserialize (bytes ++ rest) = some (h.onDisk, rest) := by
  have hfits := fits_onDisk hser hsize
  have hbytes : bytes = codec.put h.onDisk := by
    unfold serialize at hser
    split_ifs at hser
    cases hser
    exact h.put_onDisk.symm
  rw [hbytes, unserialize, codec.get_put hfits]

end CBlockHeader

/-! ## Transactions behind the header -/

theorem putAll_append {α : Type} (c : ByteCodec α) (as bs : List α) :
    putAll c (as ++ bs) = putAll c as ++ putAll c bs := by
  induction as with
  | nil => rfl
  | cons a as ih => rw [List.cons_append, putAll, ih, putAll, List.append_assoc]

/-- A position is as far behind the first one as the transactions before it are long. -/
theorem getElem?_posTxid {H : Crypto} {pos : CDiskTxPos} {vtx : List CTransaction} {i : Nat} {tx : CTransaction}
    (hfit : pos.nTxOffset + (putAll CTransaction.codec vtx).length < 2 ^ 32) (htx : vtx[i]? = some tx) :
    (posTxid H pos vtx)[i]? = some (tx.getHash H,
      { pos with nTxOffset := pos.nTxOffset + (putAll CTransaction.codec (vtx.take i)).length }) := by
  induction vtx generalizing pos i with
  | nil => cases htx
  | cons first rest ih =>
    cases i with
    | zero =>
      cases htx
      rfl
    | succ i =>
      have hput : (putAll CTransaction.codec (first :: rest)).length =
          first.serializeSize + (putAll CTransaction.codec rest).length := by
        rw [putAll, List.length_append]
        rfl
      rw [hput] at hfit
      have hnext : uint32 (pos.nTxOffset + first.serializeSize) = pos.nTxOffset + first.serializeSize :=
        uint32_of_lt (by omega)
      have htail : rest[i]? = some tx := htx
      rw [posTxid, List.getElem?_cons_succ, hnext, ih (by dsimp only; omega) htail, List.take_succ_cons, putAll,
        List.length_append, ← Nat.add_assoc]
      rfl

/-- `ReadTransaction` at a position behind the header finds what was written there. -/
theorem readTransaction_of_holds {H : Crypto} {blk : Nat → Bytes} {pos : CDiskBlockPos} {block : CBlock}
    (hser : block.serialize = some bytes) (hsize : bytes.length ≤ maxSize)
    (hholds : Holds (blk pos.nFile) pos.nPos bytes) {i : Nat} {tx : CTransaction} (htx : block.vtx[i]? = some tx) :
    ∃ txpos, (block.posTxid H pos)[i]? = some (tx.getHash H, txpos) ∧
      readTransaction H blk txpos = some (tx, block.getHash H) := by
  rcases Option.map_eq_some_iff.1 hser with ⟨header, hheader, rfl⟩
  rcases hholds with ⟨rest, hrest⟩
  have hi : i < block.vtx.length := (List.getElem?_eq_some_iff.1 htx).1
  have hsplit : block.vtx = block.vtx.take i ++ tx :: block.vtx.drop (i + 1) := by
    rw [← (List.getElem?_eq_some_iff.1 htx).2, ← List.drop_eq_getElem_cons hi, List.take_append_drop]
  have hvtx : (vec compactSizeCodec CTransaction.codec).put block.vtx =
      writeCompactSize block.vtx.length ++ putAll CTransaction.codec block.vtx := rfl
  have hall : putAll CTransaction.codec block.vtx = putAll CTransaction.codec (block.vtx.take i) ++
      (CTransaction.codec.put tx ++ putAll CTransaction.codec (block.vtx.drop (i + 1))) := by
    conv_lhs => rw [hsplit]
    rw [putAll_append, putAll]
  rw [hvtx, List.length_append, List.length_append] at hsize
  have hmax : maxSize = 33554432 := rfl
  have hcount : (writeCompactSize block.vtx.length).length = getSizeOfCompactSize block.vtx.length :=
    length_writeCompactSize _
  have hfirst : uint32 (getSizeOfCompactSize block.vtx.length) = getSizeOfCompactSize block.vtx.length :=
    uint32_of_lt (by omega)
  have hfits : CTransaction.codec.Fits tx := by
    refine CTransaction.fits_of_size ?_
    rw [hall, List.length_append, List.length_append] at hsize
    rw [CTransaction.serializeSize]
    omega
  refine ⟨_, getElem?_posTxid (by dsimp only; rw [hfirst]; omega) htx, ?_⟩
  unfold readTransaction
  dsimp only
  rw [hfirst, ← hrest, hvtx, List.append_assoc, List.append_assoc,
    CBlockHeader.unserialize_append hheader (by omega), Option.bind_eq_bind, Option.bind_some]
  dsimp only
  rw [hall, ← hcount, ← List.drop_drop, List.drop_left, List.append_assoc, List.drop_left, List.append_assoc,
    CTransaction.codec.get_put hfits, Option.bind_eq_bind, Option.bind_some]
  exact congrArg (fun h => some (tx, h)) (CBlockHeader.getHash_onDisk H block.toCBlockHeader)

/-! ## What is kept on disk -/

/-- The part of each file that is in use is kept. -/
def KeepsUsed (s : BlockFiles) (blk blk' : Nat → Bytes) : Prop :=
  ∀ nFile, FileBytes.Keeps (s.info nFile).nSize (blk nFile) (blk' nFile)

theorem KeepsUsed.trans {blk blk' blk'' : Nat → Bytes} (h : KeepsUsed s blk blk')
    (h' : KeepsUsed s blk' blk'') : KeepsUsed s blk blk'' :=
  fun nFile => (h nFile).trans (h' nFile)

theorem keepsUsed_update {blk : Nat → Bytes} {nFile : Nat} {file : Bytes}
    (h : FileBytes.Keeps (s.info nFile).nSize (blk nFile) file) : KeepsUsed s blk (Function.update blk nFile file) := by
  intro f
  by_cases hf : f = nFile
  · subst hf
    rw [Function.update_self]
    exact h
  · rw [Function.update_of_ne hf]
    exact FileBytes.Keeps.refl _ _

/-- The action does not cut off what is in use. -/
def FileAct.Safe (s : BlockFiles) (act : FileAct) : Prop :=
  ∀ nFile length, act = .truncate (.blk nFile) length → (s.info nFile).nSize ≤ length

theorem FileAct.keepsUsed_run {act : FileAct} (h : act.Safe s) (blk : Nat → Bytes) :
    KeepsUsed s blk (act.run blk) := by
  cases act with
  | truncate file length =>
    cases file with
    | blk nFile => exact keepsUsed_update (keeps_resize (h nFile length rfl))
    | rev nFile => exact fun nFile => FileBytes.Keeps.refl _ _
  | commit file => exact fun nFile => FileBytes.Keeps.refl _ _
  | allocate file offset length =>
    cases file with
    | blk nFile => exact keepsUsed_update keeps_extend
    | rev nFile => exact fun nFile => FileBytes.Keeps.refl _ _

theorem keepsUsed_runActs {acts : List FileAct} (h : ∀ act ∈ acts, act.Safe s) (blk : Nat → Bytes) :
    KeepsUsed s blk (runActs acts blk) := by
  induction acts generalizing blk with
  | nil => exact fun nFile => FileBytes.Keeps.refl _ _
  | cons act acts ih =>
    have hact := act.keepsUsed_run (h act List.mem_cons_self) blk
    exact hact.trans (ih (fun act' hact' => h act' (List.mem_cons_of_mem _ hact')) (act.run blk))

theorem keepsUsed_writeBlk {pos : CDiskBlockPos} (h : (s.info pos.nFile).nSize ≤ pos.nPos)
    (blk : Nat → Bytes) (bytes : Bytes) : KeepsUsed s blk (writeBlk blk pos bytes) :=
  keepsUsed_update (keeps_write h)

namespace BlockFiles

/-- No counter of a file is near the end of its type. -/
def Bounded (s : BlockFiles) : Prop :=
  ∀ nFile, (s.info nFile).nSize < maxBlockFileSize

theorem safe_flushBlockFile {fFinalize : Bool} : ∀ act ∈ s.flushBlockFile fFinalize, act.Safe s := by
  intro act hact nFile length heq
  subst heq
  unfold flushBlockFile at hact
  cases fFinalize with
  | false => simp at hact
  | true =>
    simp only [if_true, List.mem_append, List.mem_cons, List.not_mem_nil, or_false, FileAct.truncate.injEq,
      DiskFile.blk.injEq, reduceCtorEq, false_and] at hact
    rcases hact with ⟨rfl, rfl⟩
    exact le_rfl

theorem safe_preallocate {file : DiskFile} {nChunkSize nPos nNewSize : Nat} {fSpace : Bool}
    {acts : List FileAct} (h : preallocate file nChunkSize nPos nNewSize fSpace = .ok acts) : ∀ act ∈ acts, act.Safe s := by
  intro act hact nFile length heq
  subst heq
  unfold preallocate at h
  dsimp only at h
  split_ifs at h with hgrow hspace
  · cases h
    simp at hact
  · cases h
    cases hact

theorem preallocate_space (file : DiskFile) (nChunkSize nPos nNewSize : Nat) :
    ∃ acts, preallocate file nChunkSize nPos nNewSize true = .ok acts := by
  unfold preallocate
  dsimp only
  by_cases hgrow : chunks nChunkSize nNewSize > chunks nChunkSize nPos
  · rw [if_pos hgrow, if_pos rfl]
    exact ⟨_, rfl⟩
  · rw [if_neg hgrow]
    exact ⟨_, rfl⟩

/-- A file is chosen, the block gets the place behind what is in use there, and nothing that is in use is cut off. -/
structure Places (s : BlockFiles) (nAddSize : Nat) (found : FoundPos) (nFile : Nat) : Prop where
  nSize : ∀ f, (found.files.info f).nSize = if f = nFile then (s.info f).nSize + nAddSize else (s.info f).nSize
  room : (s.info nFile).nSize + nAddSize < maxBlockFileSize
  pos : ∀ pos, found.result = .ok pos → pos = ⟨nFile, (s.info nFile).nSize⟩
  acts : ∀ act ∈ found.acts, act.Safe s

theorem uint32_add_of_bounded (hs : s.Bounded) {nAddSize : Nat} (hadd : nAddSize < 2 ^ 31)
    (nFile : Nat) : uint32 ((s.info nFile).nSize + nAddSize) = (s.info nFile).nSize + nAddSize := by
  have hused := hs nFile
  rw [maxBlockFileSize] at hused
  exact uint32_of_lt (by omega)

theorem findPosIn_def : @findPosIn = fun s nFile nAddSize nHeight nTime fSpace =>
    let pos : CDiskBlockPos := ⟨nFile, (s.info nFile).nSize⟩
    let info := { (s.info nFile).addBlock nHeight nTime with
      nSize := uint32 ((s.info nFile).nSize + nAddSize) }
    let left := (List.replicate (nFile - s.nLastBlockFile) (s.flushBlockFile true)).flatten
    let s : BlockFiles := { s.setInfo nFile info with nLastBlockFile := nFile }
    match preallocate (.blk nFile) blockFileChunkSize pos.nPos info.nSize fSpace with
    | .ok acts => ⟨.ok pos, s.markDirty nFile, left ++ acts⟩
    | .error e => ⟨.error e, s, left⟩ := rfl

/-- How the call ends depends on the preallocation. -/
theorem findPosIn_cases (s : BlockFiles) (nFile nAddSize nHeight nTime : Nat) (fSpace : Bool) :
    ∃ (outcome : Except FindPosError (List FileAct)) (i : CBlockFileInfo),
      i.nSize = uint32 ((s.info nFile).nSize + nAddSize) ∧
      (∀ acts, outcome = .ok acts → ∀ act ∈ acts, act.Safe s) ∧ (fSpace = true → ∃ acts, outcome = .ok acts) ∧
      s.findPosIn nFile nAddSize nHeight nTime fSpace =
        match outcome with
        | .ok acts => ⟨.ok ⟨nFile, (s.info nFile).nSize⟩,
            ({ s.setInfo nFile i with nLastBlockFile := nFile } : BlockFiles).markDirty nFile,
            (List.replicate (nFile - s.nLastBlockFile) (s.flushBlockFile true)).flatten ++ acts⟩
        | .error e => ⟨.error e, { s.setInfo nFile i with nLastBlockFile := nFile },
            (List.replicate (nFile - s.nLastBlockFile) (s.flushBlockFile true)).flatten⟩ := by
  have hsafe : ∀ (file : DiskFile) (nChunkSize nPos nNewSize : Nat) (fSpace : Bool) (acts : List FileAct),
      preallocate file nChunkSize nPos nNewSize fSpace = .ok acts → ∀ act ∈ acts, act.Safe s :=
    fun _ _ _ _ _ _ h => safe_preallocate h
  have hspace : ∀ (file : DiskFile) (nChunkSize nPos nNewSize : Nat) (fSpace : Bool),
      fSpace = true → ∃ acts, preallocate file nChunkSize nPos nNewSize fSpace = .ok acts := by
    rintro file nChunkSize nPos nNewSize _ rfl
    exact preallocate_space file nChunkSize nPos nNewSize
  rw [findPosIn_def]
  -- The kernel must not look into the chunks.
  generalize preallocate = p at hsafe hspace ⊢
  exact ⟨_, _, rfl, hsafe _ _ _ _ _, hspace _ _ _ _ _, rfl⟩

theorem findBlockPos_places (hs : s.Bounded) {nAddSize nHeight nTime : Nat} {fSpace : Bool}
    {found : FoundPos} (hadd : nAddSize < 2 ^ 31)
    (h : s.findBlockPos none nAddSize nHeight nTime fSpace = some found) : ∃ nFile, Places s nAddSize found nFile := by
  rcases Option.map_eq_some_iff.1 h with ⟨nFile, hfile, rfl⟩
  have hsum := uint32_add_of_bounded hs hadd nFile
  have hroom := (nextFile_room hfile).2
  rcases s.findPosIn_cases nFile nAddSize nHeight nTime fSpace with ⟨outcome, i, hi, hsafe, -, hcase⟩
  have hinfo : ∀ f, (({ s.setInfo nFile i with nLastBlockFile := nFile } : BlockFiles).info f) =
      if f = nFile then i else s.info f := fun f => info_setInfo s nFile i f
  have hsize : ∀ f, (if f = nFile then i else s.info f).nSize =
      if f = nFile then (s.info f).nSize + nAddSize else (s.info f).nSize := fun f => by
    split_ifs with hf
    · rw [hi, hsum, hf]
    · rfl
  have hleft : ∀ act ∈ (List.replicate (nFile - s.nLastBlockFile) (s.flushBlockFile true)).flatten, act.Safe s := by
    intro act hact
    rcases List.mem_flatten.1 hact with ⟨acts, hacts, hin⟩
    rw [(List.mem_replicate.1 hacts).2] at hin
    exact safe_flushBlockFile act hin
  rw [hsum] at hroom
  rw [hcase]
  cases outcome with
  | ok acts =>
    refine ⟨nFile, fun f => ?_, hroom, fun pos hpos => ?_, fun act hact => ?_⟩
    · exact (congrArg CBlockFileInfo.nSize (hinfo f)).trans (hsize f)
    · cases hpos
      rfl
    · rcases List.mem_append.1 hact with hin | hin
      · exact hleft act hin
      · exact hsafe acts rfl act hin
  | error e =>
    refine ⟨nFile, fun f => ?_, hroom, fun pos hpos => ?_, fun act hact => hleft act hact⟩
    · exact (congrArg CBlockFileInfo.nSize (hinfo f)).trans (hsize f)
    · cases hpos

/-- With room on the disk there is always a place. -/
theorem findBlockPos_ok (s : BlockFiles) {nAddSize : Nat} (nHeight nTime : Nat) (h : nAddSize < maxBlockFileSize) :
    ∃ found pos, s.findBlockPos none nAddSize nHeight nTime true = some found ∧ found.result = .ok pos := by
  rcases Option.isSome_iff_exists.1 (s.findBlockPos_isSome none nHeight nTime true h) with ⟨found, hfound⟩
  rcases Option.map_eq_some_iff.1 hfound with ⟨nFile, -, rfl⟩
  rcases s.findPosIn_cases nFile nAddSize nHeight nTime true with ⟨outcome, i, -, -, hspace, hcase⟩
  rcases hspace rfl with ⟨acts, rfl⟩
  rw [hcase] at hfound
  exact ⟨_, _, hfound, rfl⟩

theorem Places.bounded {nAddSize nFile : Nat} {found : FoundPos} (h : Places s nAddSize found nFile)
    (hs : s.Bounded) : found.files.Bounded := by
  intro f
  rw [h.nSize f]
  split_ifs with hf
  · rw [hf]
    exact h.room
  · exact hs f

theorem Places.grows {nAddSize nFile : Nat} {found : FoundPos} (h : Places s nAddSize found nFile)
    (f : Nat) : (s.info f).nSize ≤ (found.files.info f).nSize := by
  rw [h.nSize f]
  split_ifs
  · exact Nat.le_add_right _ _
  · exact le_rfl

end BlockFiles

end Dobbscoin
