import Dobbscoin.Net.Bloom
import Dobbscoin.Net.PartialMerkleTree
import Dobbscoin.Storage.BlockWire
import Dobbscoin.Validation.Undo

/-!
# Filtered blocks

`CMerkleBlock`: what a peer with a filter is sent for a block, and what it reads.  A block that `CheckBlock` has passed
is never too large for the tree.
-/

namespace Dobbscoin

open ByteCodec Guard CBloomFilter

/-! ## How many transactions a block can hold -/

theorem one_le_getSizeOfCompactSize (n : Nat) : 1 ≤ getSizeOfCompactSize n := by
  unfold getSizeOfCompactSize
  split_ifs <;> decide

theorem lt_vecSize (n : Nat) (sizes : List Nat) : n < vecSize (n :: sizes) := by
  have hcount := one_le_getSizeOfCompactSize (n :: sizes).length
  rw [vecSize, List.sum_cons]
  omega

/-- An input takes 41 bytes at least, and an output 9. -/
theorem CTransaction.Checked.length_put {tx : CTransaction} (h : tx.Checked) : 60 ≤ (codec.put tx).length := by
  rcases List.exists_cons_of_ne_nil h.vin with ⟨txin, vin, hvin⟩
  rcases List.exists_cons_of_ne_nil h.vout with ⟨txout, vout, hvout⟩
  have hin := lt_vecSize txin.getSerializeSize (vin.map CTxIn.getSerializeSize)
  have hout := lt_vecSize txout.getSerializeSize (vout.map CTxOut.getSerializeSize)
  have hsig : 41 ≤ txin.getSerializeSize := by
    have hcount := one_le_getSizeOfCompactSize txin.scriptSig.length
    rw [CTxIn.getSerializeSize]
    omega
  have hkey : 9 ≤ txout.getSerializeSize := by
    have hcount := one_le_getSizeOfCompactSize txout.scriptPubKey.length
    rw [CTxOut.getSerializeSize]
    omega
  rw [CTransaction.length_put, getSerializeSize, hvin, hvout, List.map_cons, List.map_cons]
  omega

theorem CBlock.Checked.length_vtx {block : CBlock} (h : block.Checked) : block.vtx.length ≤ maxBlockSize / 60 := by
  have hput : CBlock.codec.put block = CBlockHeader.codec.put block.toCBlockHeader ++
      (writeCompactSize block.vtx.length ++ putAll CTransaction.codec block.vtx) := rfl
  have hall := CTransaction.codec.mul_length_le_putAll fun tx htx => (h.transactions tx htx).length_put
  have hsize := h.size
  rw [CBlock.serializeSize, hput, List.length_append, List.length_append] at hsize
  omega

/-! ## The message -/

structure CMerkleBlock where
  header : CBlockHeader
  txn : CPartialMerkleTree
  /-- The positions and ids of the transactions that match; they are not sent. -/
  vMatchedTxn : List (Nat × UInt256)

namespace CMerkleBlock

def matchedTxn (vHashes : List UInt256) (vMatch : List Bool) : List (Nat × UInt256) :=
  ((vHashes.zip vMatch).zipIdx.filter fun p => p.1.2).map fun p => (p.2, p.1.1)

/-- The constructor; the filter is updated. -/
def ofBlock (H : Crypto) (carrier : DataCarrier) (block : CBlock) (filter : CBloomFilter) :
    Option (CMerkleBlock × CBloomFilter) := do
  let (vMatch, filter) ← filter.merkleBlockLoop H carrier block.vtx
  let vHashes := block.txids H
  let txn ← CPartialMerkleTree.ofTxids H vHashes vMatch
  return (⟨block.toCBlockHeader, txn, matchedTxn vHashes vMatch⟩, filter)

def serialize (m : CMerkleBlock) : Bytes :=
  CBlockHeader.codec.put m.header ++ m.txn.serialize

def unserialize (bs : Bytes) : Option (CMerkleBlock × Bytes) := do
  let (header, bs) ← CBlockHeader.codec.get bs
  let (txn, bs) ← CPartialMerkleTree.unserialize bs
  return (⟨header, txn, []⟩, bs)

theorem map_snd_matchedTxn (vHashes : List UInt256) (vMatch : List Bool) :
    (matchedTxn vHashes vMatch).map Prod.snd = CPartialMerkleTree.matched (vHashes.zip vMatch) := by
  have hzip : (vHashes.zip vMatch).zipIdx.map Prod.fst = vHashes.zip vMatch := List.zipIdx_map_fst 0 _
  rw [CPartialMerkleTree.matched, matchedTxn, List.map_map]
  nth_rewrite 2 [← hzip]
  rw [List.filter_map, List.map_map]
  rfl

theorem getElem?_of_mem_matchedTxn {vHashes : List UInt256} {vMatch : List Bool} {p : Nat × UInt256}
    (hp : p ∈ matchedTxn vHashes vMatch) : vHashes[p.1]? = some p.2 := by
  rcases List.mem_map.1 hp with ⟨q, hq, rfl⟩
  have hzip := List.mem_zipIdx_iff_getElem?.1 (List.mem_filter.1 hq).1
  exact (List.getElem?_zip_eq_some.1 hzip).1

/-- **A filtered block leaves nothing out.**  The peer reads a tree that gives the root in the header and the ids of what
is pushed after it, and those are all that have something which was inserted. -/
theorem ofBlock_complete (E : Env) (carrier : DataCarrier) (vRecv : Bytes) (loaded : CBloomFilter)
    (hload : filterLoad vRecv = some loaded) (ops : List CBloomFilter.Op) (block : CBlock)
    (hfits : CBlockHeader.codec.Fits block.toCBlockHeader) (fCheckPOW : Bool)
    (hcheck : checkBlock E block fCheckPOW true = .ok ()) (rest : Bytes) :
    ∃ filter m m' next, loaded.run E.crypto carrier ops = some filter ∧
      ofBlock E.crypto carrier block filter = some (m, next) ∧
      unserialize (m.serialize ++ rest) = some (m', rest) ∧ m'.header = block.toCBlockHeader ∧
      m'.txn.extractMatches E.crypto = some (block.hashMerkleRoot, m.vMatchedTxn.map Prod.snd, m'.txn) ∧
      (∀ p ∈ m.vMatchedTxn, ∃ tx, block.vtx[p.1]? = some tx ∧ tx.getHash E.crypto = p.2) ∧
      ∀ tx ∈ block.vtx, (∃ e ∈ ops.flatMap CBloomFilter.Op.inserted, Names E.crypto tx e) →
        tx.getHash E.crypto ∈ m.vMatchedTxn.map Prod.snd := by
  have hchecked := checkBlock_ok hcheck
  have hroot : block.hashMerkleRoot = txidsRoot E.crypto (block.txids E.crypto) := by
    simp only [checkBlock, bind_eq_ok, exists_unit, if_true, checkMerkleRoot, rejectIf_eq_ok, not_not] at hcheck
    rw [hcheck.2.1.1, CBlock.buildMerkleTree_eq, CBlock.merkleRoot_eq]
  have hstart := filterLoad_sound hload
  rcases run_spec hstart E.crypto carrier ops with ⟨filter, hrun, hgrows, hinserted⟩
  rcases merkleBlockLoop_spec (hgrows.sound hstart) E.crypto carrier block.vtx with
    ⟨vMatch, next, hloop, hlength, hmarked⟩
  have htxids : (block.txids E.crypto).length = block.vtx.length := List.length_map _
  have hcount := hchecked.length_vtx
  have hmax : maxBlockSize / 60 = 16666 := rfl
  rcases CPartialMerkleTree.roundTrip (H := E.crypto) (n := UInt32.ofNat (block.txids E.crypto).length)
    (UInt32.toNat_ofNat_of_lt' (by rw [UInt32.size]; omega)) (hlength.trans htxids.symm) (by omega)
    (by rw [CBlock.txids, ne_eq, List.map_eq_nil_iff]; exact hchecked.nonempty) (by omega) rest with
    ⟨t, t', hbuilt, hread, hextract⟩
  refine ⟨filter, ⟨block.toCBlockHeader, t, matchedTxn (block.txids E.crypto) vMatch⟩, ⟨block.toCBlockHeader, t', []⟩, next,
    hrun, ?_, ?_, rfl, ?_, fun p hp => ?_, ?_⟩
  · simp only [ofBlock, hloop, hbuilt, Option.bind_eq_bind, Option.bind_some, Option.pure_def]
  · simp only [unserialize, serialize, List.append_assoc, CBlockHeader.codec.get_put hfits, hread, Option.bind_eq_bind,
      Option.bind_some, Option.pure_def]
  · rw [hroot, hextract, map_snd_matchedTxn]
  · have hid := getElem?_of_mem_matchedTxn hp
    rw [CBlock.txids, List.getElem?_map, Option.map_eq_some_iff] at hid
    exact hid
  · rintro tx htx ⟨e, he, hnames⟩
    rcases List.mem_iff_getElem.1 htx with ⟨i, hi, rfl⟩
    have hpair : (block.vtx[i], vMatch[i]) ∈ block.vtx.zip vMatch :=
      List.mem_iff_getElem.2 ⟨i, by rw [List.length_zip, hlength]; omega, List.getElem_zip⟩
    have hmark := hmarked _ hpair e hnames (hinserted e he)
    rw [map_snd_matchedTxn]
    refine List.mem_map.2 ⟨(block.vtx[i].getHash E.crypto, vMatch[i]), List.mem_filter.2 ⟨?_, hmark⟩, rfl⟩
    rw [CBlock.txids, List.zip_map_left]
    exact List.mem_map.2 ⟨_, hpair, rfl⟩

set_option maxRecDepth 20000 in
/-- A filter with the id of the only transaction of a block. -/
theorem ofBlock_complete_genesis :
    ∃ (m' : CMerkleBlock) (ids : List UInt256), m'.header = undoGenesis.toCBlockHeader ∧
      m'.txn.extractMatches undoEnv.crypto = some (undoGenesis.hashMerkleRoot, ids, m'.txn) ∧
      undoCoinbase.getHash undoEnv.crypto ∈ ids := by
  have hget : CBlockHeader.codec.get (CBlockHeader.codec.put undoGenesis.toCBlockHeader) =
      some (undoGenesis.toCBlockHeader, []) := by decide
  rcases ofBlock_complete undoEnv.toEnv .default sampleLoad ⟨[0, 0], false, true, 1, 0, 1⟩ (by decide)
    [.insertHash (undoCoinbase.getHash undoEnv.crypto)] undoGenesis (CBlockHeader.codec.put_get hget).1 true (by decide)
    [] with ⟨filter, m, m', next, -, -, -, hheader, hextract, -, hall⟩
  exact ⟨m', _, hheader, hextract, hall undoCoinbase List.mem_cons_self ⟨_, List.mem_cons_self, .txid⟩⟩

end CMerkleBlock

end Dobbscoin
