import Dobbscoin.Storage.BlockDisk

/-!
# Blocks on the wire

What `SerializationOp` of `CBlockHeader` and `CBlock` reads into an object that was used before, and how many bytes it
writes.  The version that is handed down to nested objects is not used by any of them.
-/

namespace Dobbscoin

open ByteCodec

/-! ## Reading into an object -/

/-- The trailer of an earlier use is replaced or dropped. -/
def CBlockHeader.unserializeInto (obj : CBlockHeader) (bs : Bytes) : Option (CBlockHeader × Bytes) := do
  let (header, bs) ← CPureBlockHeader.codec.get bs
  let obj := { obj with toCPureBlockHeader := header }
  if obj.isAuxpow then
    let (auxpow, bs) ← CAuxPow.codec.get bs
    some ({ obj with auxpow := some auxpow }, bs)
  else some ({ obj with auxpow := none }, bs)

def CBlock.unserializeInto (obj : CBlock) (bs : Bytes) : Option (CBlock × Bytes) := do
  let (header, bs) ← obj.toCBlockHeader.unserializeInto bs
  let (vtx, bs) ← (vec compactSizeCodec CTransaction.codec).get bs
  some ({ obj with toCBlockHeader := header, vtx := vtx }, bs)

/-- What the object held before makes no difference. -/
theorem CBlockHeader.unserializeInto_eq (obj : CBlockHeader) (bs : Bytes) : obj.unserializeInto bs = codec.get bs := by
  have hcodec : codec.get bs = ((CPureBlockHeader.codec.get bs).bind fun p =>
      if p.1.isAuxpow then (CAuxPow.codec.get p.2).map fun q => ((p.1, some q.1), q.2)
      else some ((p.1, none), p.2)).map fun p => (⟨p.1.1, p.1.2⟩, p.2) := rfl
  rw [hcodec, unserializeInto]
  cases CPureBlockHeader.codec.get bs with
  | none => rfl
  | some p =>
    rw [Option.bind_eq_bind, Option.bind_some, Option.bind_some]
    dsimp only
    cases hflag : p.1.isAuxpow with
    | false =>
      rw [if_neg Bool.false_ne_true, if_neg Bool.false_ne_true]
      rfl
    | true =>
      rw [if_pos rfl, if_pos rfl]
      cases CAuxPow.codec.get p.2 with
      | none => rfl
      | some q => rfl

theorem CBlock.unserializeInto_eq (obj : CBlock) (bs : Bytes) : obj.unserializeInto bs = codec.get bs := by
  have hcodec : codec.get bs = ((CBlockHeader.codec.get bs).bind fun p =>
      ((vec compactSizeCodec CTransaction.codec).get p.2).map fun q => ((p.1, q.1), q.2)).map fun p =>
        (⟨p.1.1, p.1.2⟩, p.2) := rfl
  rw [hcodec, unserializeInto, CBlockHeader.unserializeInto_eq]
  cases CBlockHeader.codec.get bs with
  | none => rfl
  | some p =>
    rw [Option.bind_eq_bind, Option.bind_some, Option.bind_some]
    dsimp only
    cases (vec compactSizeCodec CTransaction.codec).get p.2 with
    | none => rfl
    | some q => rfl

/-! ## Sizes -/

/-- A vector whose elements have these sizes. -/
def vecSize (sizes : List Nat) : Nat :=
  getSizeOfCompactSize sizes.length + sizes.sum

def CTxIn.getSerializeSize (txin : CTxIn) : Nat :=
  32 + 4 + (getSizeOfCompactSize txin.scriptSig.length + txin.scriptSig.length) + 4

def CTxOut.getSerializeSize (txout : CTxOut) : Nat :=
  8 + (getSizeOfCompactSize txout.scriptPubKey.length + txout.scriptPubKey.length)

def CTransaction.getSerializeSize (tx : CTransaction) : Nat :=
  4 + vecSize (tx.vin.map CTxIn.getSerializeSize) + vecSize (tx.vout.map CTxOut.getSerializeSize) + 4

def CPureBlockHeader.getSerializeSize : Nat :=
  4 + 32 + 32 + 4 + 4 + 4

def CAuxPow.getSerializeSize (auxpow : CAuxPow) : Nat :=
  auxpow.tx.getSerializeSize + 32 + vecSize (auxpow.vMerkleBranch.map fun _ => 32) + 4 +
    vecSize (auxpow.vChainMerkleBranch.map fun _ => 32) + 4 + CPureBlockHeader.getSerializeSize

/-- `none` is the failed `assert(auxpow)`. -/
def CBlockHeader.getSerializeSize (header : CBlockHeader) : Option Nat :=
  if header.isAuxpow then header.auxpow.map fun auxpow => CPureBlockHeader.getSerializeSize + auxpow.getSerializeSize
  else some CPureBlockHeader.getSerializeSize

/-- `GetSerializeSize`: the sizes of what `SerializationOp` writes, added up by a `CSizeComputer`. -/
def CBlock.getSerializeSize (block : CBlock) : Option Nat :=
  block.toCBlockHeader.getSerializeSize.map fun nSize => nSize + vecSize (block.vtx.map CTransaction.getSerializeSize)

theorem length_vec {α : Type} (c : ByteCodec α) {size : α → Nat} (hsize : ∀ a, (c.put a).length = size a)
    (as : List α) :
    ((vec compactSizeCodec c).put as).length = vecSize (as.map size) := by
  have hall : (putAll c as).length = (as.map size).sum := by
    induction as with
    | nil => rfl
    | cons a as ih =>
      rw [putAll, List.length_append, hsize, ih]
      rfl
  have hput : (vec compactSizeCodec c).put as = writeCompactSize as.length ++ putAll c as := rfl
  rw [hput, List.length_append, length_writeCompactSize, hall, vecSize, List.length_map]

theorem length_put_script (s : CScript) : (scriptCodec.put s).length = getSizeOfCompactSize s.length + s.length := by
  have hsize : ∀ b : UInt8, (byte.put b).length = (fun _ => 1) b := fun _ => rfl
  rw [scriptCodec, length_vec byte hsize, vecSize, List.length_map, List.map_const', List.sum_replicate_nat, Nat.mul_one]

theorem CTxIn.length_put (txin : CTxIn) : (codec.put txin).length = txin.getSerializeSize := by
  have hput : codec.put txin = (uint256Codec.put txin.prevout.hash ++ uint32Codec.put txin.prevout.n) ++
      (scriptCodec.put txin.scriptSig ++ uint32Codec.put txin.nSequence) := rfl
  have h256 : (uint256Codec.put txin.prevout.hash).length = 32 := leBytes_length 32 _
  have hn : (uint32Codec.put txin.prevout.n).length = 4 := leBytes_length 4 _
  have hsequence : (uint32Codec.put txin.nSequence).length = 4 := leBytes_length 4 _
  rw [hput, List.length_append, List.length_append, List.length_append, h256, hn, hsequence, length_put_script,
    getSerializeSize]
  ring

theorem CTxOut.length_put (txout : CTxOut) : (codec.put txout).length = txout.getSerializeSize := by
  have hput : codec.put txout = int64Codec.put txout.nValue ++ scriptCodec.put txout.scriptPubKey := rfl
  have h64 : (int64Codec.put txout.nValue).length = 8 := leBytes_length 8 _
  rw [hput, List.length_append, h64, length_put_script, getSerializeSize]

theorem CTransaction.length_put (tx : CTransaction) : (codec.put tx).length = tx.getSerializeSize := by
  have hput : codec.put tx = int32Codec.put tx.nVersion ++ ((vec compactSizeCodec CTxIn.codec).put tx.vin ++
      ((vec compactSizeCodec CTxOut.codec).put tx.vout ++ uint32Codec.put tx.nLockTime)) := rfl
  have hversion : (int32Codec.put tx.nVersion).length = 4 := leBytes_length 4 _
  have htime : (uint32Codec.put tx.nLockTime).length = 4 := leBytes_length 4 _
  rw [hput, List.length_append, List.length_append, List.length_append, hversion, htime, length_vec _ CTxIn.length_put,
    length_vec _ CTxOut.length_put, getSerializeSize]
  ring

theorem CPureBlockHeader.length_put (header : CPureBlockHeader) : (codec.put header).length = getSerializeSize := by
  have hput : codec.put header = leBytes 4 header.nVersion.toBitVec.toNat ++ (leBytes 32 header.hashPrevBlock.toNat ++
      (leBytes 32 header.hashMerkleRoot.toNat ++ (leBytes 4 header.nTime.toNat ++ (leBytes 4 header.nBits.toNat ++
        leBytes 4 header.nNonce.toNat)))) := rfl
  simp only [hput, List.length_append, leBytes_length, getSerializeSize]

theorem length_put_hashes (hashes : List UInt256) : (hashesCodec.put hashes).length = vecSize (hashes.map fun _ => 32) :=
  length_vec uint256Codec (fun _ => leBytes_length 32 _) hashes

theorem CAuxPow.length_put (auxpow : CAuxPow) : (codec.put auxpow).length = auxpow.getSerializeSize := by
  have hput : codec.put auxpow = CTransaction.codec.put auxpow.tx ++ (uint256Codec.put auxpow.hashBlock ++
      (hashesCodec.put auxpow.vMerkleBranch ++ (int32Codec.put auxpow.nIndex ++
        (hashesCodec.put auxpow.vChainMerkleBranch ++ (int32Codec.put auxpow.nChainIndex ++
          CPureBlockHeader.codec.put auxpow.parentBlock))))) := rfl
  have h256 : (uint256Codec.put auxpow.hashBlock).length = 32 := leBytes_length 32 _
  have hindex : (int32Codec.put auxpow.nIndex).length = 4 := leBytes_length 4 _
  have hchain : (int32Codec.put auxpow.nChainIndex).length = 4 := leBytes_length 4 _
  simp only [hput, List.length_append, h256, hindex, hchain, CTransaction.length_put, length_put_hashes,
    CPureBlockHeader.length_put, getSerializeSize]
  ring

theorem CBlockHeader.length_serialize (header : CBlockHeader) :
    header.serialize.map List.length = header.getSerializeSize := by
  rw [serialize, getSerializeSize]
  cases hflag : header.isAuxpow with
  | false =>
    rw [Bool.false_and, if_neg Bool.false_ne_true, if_neg Bool.false_ne_true, put_of_not_auxpow hflag, Option.map_some,
      CPureBlockHeader.length_put]
  | true =>
    rw [if_pos rfl]
    cases haux : header.auxpow with
    | none => rfl
    | some auxpow =>
      rw [Option.isNone_some, Bool.and_false, if_neg Bool.false_ne_true, put_of_auxpow hflag haux, Option.map_some,
        Option.map_some, List.length_append, CPureBlockHeader.length_put, CAuxPow.length_put]

/-- A block has as many bytes as `GetSerializeSize` says; the assertion fails in both or in none. -/
theorem CBlock.length_serialize (block : CBlock) : block.serialize.map List.length = block.getSerializeSize := by
  rw [serialize, getSerializeSize, ← CBlockHeader.length_serialize]
  cases block.toCBlockHeader.serialize with
  | none => rfl
  | some bytes =>
    rw [Option.map_some, Option.map_some, Option.map_some, Option.map_some, List.length_append,
      length_vec _ CTransaction.length_put]

/-! ## What can be read back -/

/-- No vector or script has more than `MAX_SIZE` elements. -/
structure CTransaction.WithinMaxSize (tx : CTransaction) : Prop where
  vin : tx.vin.length ≤ maxSize
  vout : tx.vout.length ≤ maxSize
  scriptSig : ∀ txin ∈ tx.vin, txin.scriptSig.length ≤ maxSize
  scriptPubKey : ∀ txout ∈ tx.vout, txout.scriptPubKey.length ≤ maxSize

structure CAuxPow.WithinMaxSize (auxpow : CAuxPow) : Prop where
  tx : auxpow.tx.WithinMaxSize
  vMerkleBranch : auxpow.vMerkleBranch.length ≤ maxSize
  vChainMerkleBranch : auxpow.vChainMerkleBranch.length ≤ maxSize

structure CBlock.WithinMaxSize (block : CBlock) : Prop where
  auxpow : ∀ auxpow ∈ block.auxpow, auxpow.WithinMaxSize
  vtx : block.vtx.length ≤ maxSize
  tx : ∀ tx ∈ block.vtx, tx.WithinMaxSize

theorem CTransaction.withinMaxSize_iff (tx : CTransaction) : tx.WithinMaxSize ↔ codec.Fits tx := by
  constructor
  · intro h
    refine ⟨int32Codec_fits _, ⟨h.vin, fun txin hin => ?_⟩, ⟨h.vout, fun txout hin => ?_⟩, uint32Codec_fits _⟩
    · exact ⟨⟨uint256Codec_fits _, uint32Codec_fits _⟩, scriptCodec_fits (h.scriptSig txin hin), uint32Codec_fits _⟩
    · exact ⟨int64Codec_fits _, scriptCodec_fits (h.scriptPubKey txout hin)⟩
  · rintro ⟨-, ⟨hvin, hins⟩, ⟨hvout, houts⟩, -⟩
    exact ⟨hvin, hvout, fun txin hin => (hins txin hin).2.1.1, fun txout hin => (houts txout hin).2.1⟩

theorem CAuxPow.withinMaxSize_iff (auxpow : CAuxPow) : auxpow.WithinMaxSize ↔ codec.Fits auxpow := by
  have hhashes : ∀ hashes : List UInt256, hashes.length ≤ maxSize → hashesCodec.Fits hashes := fun _ h =>
    ⟨h, fun x _ => uint256Codec_fits x⟩
  constructor
  · intro h
    exact ⟨(CTransaction.withinMaxSize_iff _).1 h.tx, uint256Codec_fits _, hhashes _ h.vMerkleBranch, int32Codec_fits _,
      hhashes _ h.vChainMerkleBranch, int32Codec_fits _, CPureBlockHeader.codec_fits _⟩
  · rintro ⟨htx, -, hbranch, -, hchain, -⟩
    exact ⟨(CTransaction.withinMaxSize_iff _).2 htx, hbranch.1, hchain.1⟩

/-- A block can be read back if it has a trailer when its version says so, and no vector in it is too long. -/
theorem CBlock.fits_iff (block : CBlock) :
    codec.Fits block ↔ block.auxpow.isSome = block.isAuxpow ∧ block.WithinMaxSize := by
  constructor
  · rintro ⟨⟨-, hflag, hauxpow⟩, hvtx, htxs⟩
    exact ⟨hflag, fun auxpow hin => (CAuxPow.withinMaxSize_iff _).2 (hauxpow auxpow hin), hvtx,
      fun tx hin => (CTransaction.withinMaxSize_iff _).2 (htxs tx hin)⟩
  · rintro ⟨hflag, h⟩
    have hauxpow : ∀ auxpow ∈ block.auxpow, CAuxPow.codec.Fits auxpow := fun auxpow hin =>
      (CAuxPow.withinMaxSize_iff _).1 (h.auxpow auxpow hin)
    exact ⟨⟨CPureBlockHeader.codec_fits _, hflag, hauxpow⟩,
      h.vtx, fun tx hin => (CTransaction.withinMaxSize_iff _).1 (h.tx tx hin)⟩

theorem CBlock.serialize_of_flag {block : CBlock} (hflag : block.auxpow.isSome = block.isAuxpow) :
    block.serialize = some (codec.put block) := by
  have hassert : (block.isAuxpow && block.auxpow.isNone) = false := by
    rw [← hflag]
    cases block.auxpow <;> rfl
  rw [serialize, CBlockHeader.serialize, hassert, if_neg Bool.false_ne_true]
  rfl

/-- Blocks survive the wire.  A block with a trailer exactly when its version says so is written without a failed
assertion, in as many bytes as `GetSerializeSize` says, and they are read back as this block exactly when no vector in it
has more than `MAX_SIZE` elements; and what is read is written as the bytes that were consumed. -/
theorem block_survives_wire (obj : CBlock) :
    (∀ block : CBlock, block.auxpow.isSome = block.isAuxpow → ∃ bytes, block.serialize = some bytes ∧
      block.getSerializeSize = some bytes.length ∧
      ∀ rest, obj.unserializeInto (bytes ++ rest) = some (block, rest) ↔ block.WithinMaxSize) ∧
    ∀ bs block rest, obj.unserializeInto bs = some (block, rest) →
      block.auxpow.isSome = block.isAuxpow ∧ ∃ bytes, block.serialize = some bytes ∧
        block.getSerializeSize = some bytes.length ∧ bs = bytes ++ rest := by
  have hsize : ∀ (block : CBlock) bytes, block.serialize = some bytes → block.getSerializeSize = some bytes.length := by
    intro block bytes hbytes
    rw [← block.length_serialize, hbytes, Option.map_some]
  constructor
  · intro block hflag
    have hbytes := block.serialize_of_flag hflag
    refine ⟨_, hbytes, hsize block _ hbytes, fun rest => ?_⟩
    rw [obj.unserializeInto_eq]
    constructor
    · exact fun hread => (block.fits_iff.1 (CBlock.codec.put_get hread).1).2
    · exact fun hwithin => CBlock.codec.get_put (block.fits_iff.2 ⟨hflag, hwithin⟩) rest
  · intro bs block rest hread
    rw [obj.unserializeInto_eq] at hread
    rcases CBlock.codec.put_get hread with ⟨hfits, hbs⟩
    have hflag := (block.fits_iff.1 hfits).1
    have hbytes := block.serialize_of_flag hflag
    exact ⟨hflag, _, hbytes, hsize block _ hbytes, hbs⟩

/-- A block with too many transactions is written, but not read back. -/
theorem large_block_not_read :
    ∃ (obj block : CBlock) (bytes : Bytes), block.auxpow.isSome = block.isAuxpow ∧ block.serialize = some bytes ∧
      obj.unserializeInto bytes ≠ some (block, []) := by
  let tx : CTransaction := ⟨1, [], [], 0⟩
  let block : CBlock := ⟨⟨⟨1, 0, 0, 0, 0, 0⟩, none⟩, List.replicate (maxSize + 1) tx⟩
  have hplain : CPureBlockHeader.isAuxpow ⟨1, 0, 0, 0, 0, 0⟩ = false := by decide
  have hflag : block.auxpow.isSome = block.isAuxpow := hplain.symm
  refine ⟨block, block, _, hflag, block.serialize_of_flag hflag, fun hread => ?_⟩
  rw [block.unserializeInto_eq] at hread
  have hvtx := (block.fits_iff.1 (CBlock.codec.put_get hread).1).2.vtx
  have hlength : block.vtx.length = maxSize + 1 := List.length_replicate
  rw [hlength] at hvtx
  exact Nat.not_succ_le_self _ hvtx

end Dobbscoin
