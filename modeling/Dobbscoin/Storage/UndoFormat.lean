import Dobbscoin.Coins.CoinsFormat
import Dobbscoin.Validation.CheckInputs

/-!
# The format of undo records

`undo.h` and `CBlockUndo`: what is written for a block so that its inputs can be restored, next to the entries of the
coin database.
-/

namespace Dobbscoin

open ByteCodec

namespace CTxInUndo

/-- `nHeight*2+(fCoinBase ? 1 : 0)`, an `unsigned int`. -/
def code (u : CTxInUndo) : Nat :=
  (u.nHeight * 2 + if u.fCoinBase then 1 else 0) % 2 ^ 32

/-- The version is written only with a height. -/
def format (K : PubKeyOps) : Format CTxInUndo where
  put u :=
    writeVarInt 0 u.code ++ ((if u.nHeight > 0 then putInt u.nVersion else []) ++ (CTxOutCompressor.format K).put u.txout)
  get bs := do
    let (nCode, bs) ← readVarIntMod 32 0 bs
    let (nVersion, bs) ← if nCode / 2 > 0 then getInt bs else some (0, bs)
    let (txout, bs) ← (CTxOutCompressor.format K).get bs
    return (⟨txout, nCode.testBit 0, nCode / 2, nVersion⟩, bs)

def getSerializeSize (K : PubKeyOps) (u : CTxInUndo) : Nat :=
  (sizeOfVarInt u.code + (if u.nHeight > 0 then sizeOfInt u.nVersion else 0) +
    ((CTxOutCompressor.format K).put u.txout).length) % 2 ^ 32

/-- A record as `Spend` produces it. -/
structure Storable (u : CTxInUndo) : Prop where
  value : moneyRange u.txout.nValue.toInt
  script : u.txout.scriptPubKey.length + CScriptCompressor.nSpecialScripts < 2 ^ 32
  version : 0 ≤ u.nVersion.toInt
  height : u.nHeight < 2 ^ 28
  noVersion : u.nHeight = 0 → u.nVersion = 0

theorem Storable.roundTrips {K : PubKeyOps} (hK : CScriptCompressor.Inverts K) {u : CTxInUndo} (h : u.Storable) :
    (format K).RoundTrips u := by
  intro rest
  have hheight := h.height
  have hcode : u.code < 2 ^ 32 := Nat.mod_lt _ (by decide)
  have hparts : u.code / 2 = u.nHeight ∧ u.code.testBit 0 = u.fCoinBase := by
    unfold code
    rw [Nat.testBit_eq_decide_div_mod_eq]
    cases u.fCoinBase <;> simp only [Bool.false_eq_true, if_true, if_false, decide_eq_true_eq, decide_eq_false_iff_not] <;>
      omega
  have hout := CTxOutCompressor.format_roundTrips hK h.value h.script rest
  dsimp only [format]
  simp only [List.append_assoc]
  rw [readVarIntMod_write hcode]
  simp only [Option.bind_eq_bind, Option.bind_some, hparts]
  by_cases hzero : u.nHeight > 0
  · rw [if_pos hzero, if_pos hzero, getInt_put h.version]
    simp only [Option.bind_some]
    rw [hout]
    rfl
  · have hnone : u.nVersion = 0 := h.noVersion (by omega)
    rw [if_neg hzero, if_neg hzero, List.nil_append, hout, ← hnone]
    rfl

theorem getSerializeSize_eq {K : PubKeyOps} {u : CTxInUndo} (hsize : ((format K).put u).length < 2 ^ 32) :
    u.getSerializeSize K = ((format K).put u).length := by
  have hversion : (if u.nHeight > 0 then putInt u.nVersion else []).length =
      if u.nHeight > 0 then sizeOfInt u.nVersion else 0 := by
    by_cases hzero : u.nHeight > 0
    · rw [if_pos hzero, if_pos hzero, length_putInt]
    · rw [if_neg hzero, if_neg hzero, List.length_nil]
  have hlength : ((format K).put u).length = sizeOfVarInt u.code + (if u.nHeight > 0 then sizeOfInt u.nVersion else 0) +
      ((CTxOutCompressor.format K).put u.txout).length := by
    rw [format, List.length_append, List.length_append, length_writeVarInt, hversion, Nat.add_assoc]
  rw [getSerializeSize, ← hlength, Nat.mod_eq_of_lt hsize]

end CTxInUndo

namespace CTxUndo

def format (K : PubKeyOps) : Format CTxUndo :=
  (Format.vec compactSizeCodec (CTxInUndo.format K)).iso CTxUndo.mk CTxUndo.vprevout

/-- `CSizeComputer` counts the bytes that are written, in a `size_t`. -/
def getSerializeSize (K : PubKeyOps) (u : CTxUndo) : Nat :=
  ((format K).put u).length

structure Storable (u : CTxUndo) : Prop where
  count : u.vprevout.length ≤ maxSize
  inputs : ∀ input ∈ u.vprevout, input.Storable

theorem Storable.roundTrips {K : PubKeyOps} (hK : CScriptCompressor.Inverts K) {u : CTxUndo} (h : u.Storable) :
    (format K).RoundTrips u :=
  Format.RoundTrips.iso (Format.vec_roundTrips h.count fun input hinput => (h.inputs input hinput).roundTrips hK) rfl

end CTxUndo

namespace CBlockUndo

def format (K : PubKeyOps) : Format CBlockUndo :=
  (Format.vec compactSizeCodec (CTxUndo.format K)).iso CBlockUndo.mk CBlockUndo.vtxundo

def getSerializeSize (K : PubKeyOps) (u : CBlockUndo) : Nat :=
  ((format K).put u).length

structure Storable (u : CBlockUndo) : Prop where
  count : u.vtxundo.length ≤ maxSize
  txs : ∀ txundo ∈ u.vtxundo, txundo.Storable

theorem Storable.roundTrips {K : PubKeyOps} (hK : CScriptCompressor.Inverts K) {u : CBlockUndo} (h : u.Storable) :
    (format K).RoundTrips u :=
  Format.RoundTrips.iso (Format.vec_roundTrips h.count fun txundo htx => (h.txs txundo htx).roundTrips hK) rfl

end CBlockUndo

/-! ## All records -/

/-- Entries of the coin database and undo records are read back from what is written, and take as many bytes as their
size says; amounts in range are coded without an overflow; and integers have one code each, which fits into the buffer
of its writer. -/
theorem records_readBack {K : PubKeyOps} (hK : CScriptCompressor.Inverts K) :
    (∀ c : CCoins, c.Storable → ∃ bytes, c.serialize K = some bytes ∧
      (∀ rest, CCoins.unserialize K (bytes ++ rest) = some (c, rest)) ∧
      (bytes.length < 2 ^ 32 → c.getSerializeSize K = some bytes.length)) ∧
    (∀ u : CTxInUndo, u.Storable → (CTxInUndo.format K).RoundTrips u ∧
      (((CTxInUndo.format K).put u).length < 2 ^ 32 → u.getSerializeSize K = ((CTxInUndo.format K).put u).length)) ∧
    (∀ u : CTxUndo, u.Storable → (CTxUndo.format K).RoundTrips u ∧
      u.getSerializeSize K = ((CTxUndo.format K).put u).length) ∧
    (∀ u : CBlockUndo, u.Storable → (CBlockUndo.format K).RoundTrips u ∧
      u.getSerializeSize K = ((CBlockUndo.format K).put u).length) ∧
    (∀ n : UInt64, moneyRange n.toNat → decompressAmount (compressAmount n) = n ∧
      (compressAmount n).toNat = Exact.compressAmount n.toNat ∧
      (decompressAmount (compressAmount n)).toNat = Exact.decompressAmount (Exact.compressAmount n.toNat)) ∧
    (∀ w n : Nat, 1 ≤ w → n < 2 ^ w → (∀ rest, readVarIntMod w 0 (writeVarInt 0 n ++ rest) = some (n, rest)) ∧
      (writeVarInt 0 n).length ≤ (w + 6) / 7) ∧
    ∀ m n : Nat, writeVarInt 0 m = writeVarInt 0 n → m = n := by
  refine ⟨fun c hc => hc.roundTrips hK, fun u hu => ⟨hu.roundTrips hK, CTxInUndo.getSerializeSize_eq⟩,
    fun u hu => ⟨hu.roundTrips hK, rfl⟩, fun u hu => ⟨hu.roundTrips hK, rfl⟩, fun n hn => ?_, fun w n hw hn => ?_,
    fun m n h => writeVarInt_inj h⟩
  · have hrange : n.toNat ≤ 10 ^ 18 := by
      have hle := hn.2
      rw [maxMoney_eq] at hle
      exact_mod_cast hle
    have hback := decompressAmount_compressAmount hrange
    refine ⟨hback, compressAmount_exact hrange, ?_⟩
    rw [hback, Exact.decompressAmount_compressAmount]
  · refine ⟨readVarIntMod_write hn, ?_⟩
    rw [length_writeVarInt]
    exact sizeOfVarInt_le_width hw hn

/-- The generator of the curve, as a key. -/
def generatorKey : Bytes :=
  [0x04, 0x79, 0xbe, 0x66, 0x7e, 0xf9, 0xdc, 0xbb, 0xac, 0x55, 0xa0, 0x62, 0x95, 0xce, 0x87, 0x0b,
    0x07, 0x02, 0x9b, 0xfc, 0xdb, 0x2d, 0xce, 0x28, 0xd9, 0x59, 0xf2, 0x81, 0x5b, 0x16, 0xf8, 0x17,
    0x98, 0x48, 0x3a, 0xda, 0x77, 0x26, 0xa3, 0xc4, 0x65, 0x5d, 0xa4, 0xfb, 0xfc, 0x0e, 0x11, 0x08,
    0xa8, 0xfd, 0x17, 0xb4, 0x48, 0xa6, 0x85, 0x54, 0x19, 0x9c, 0x47, 0xd0, 0x8f, 0xfb, 0x10, 0xd4,
    0xb8]

/-- Knows one key. -/
def generatorOps : PubKeyOps where
  isFullyValid pubkey := pubkey = generatorKey
  decompress pubkey := if pubkey = 0x02 :: (generatorKey.drop 1).take 32 then some generatorKey else none

theorem generatorOps_inverts : CScriptCompressor.Inverts generatorOps := by
  intro pubkey _ _ hvalid
  obtain rfl : pubkey = generatorKey := of_decide_eq_true hvalid
  decide

/-- A coinbase whose third output is left, which pays to the key. -/
def sampleCoins : CCoins :=
  ⟨true, [CTxOut.null, CTxOut.null, ⟨5000000000, [65] ++ generatorKey ++ [0xac]⟩], 100, 1⟩

theorem sampleCoins_storable : sampleCoins.Storable where
  unspent := ⟨⟨5000000000, [65] ++ generatorKey ++ [0xac]⟩, rfl, rfl⟩
  outputs := by decide
  version := by decide
  height := by decide
  scripts := by decide
  count := by decide

theorem records_readBack_sample :
    ∃ bytes, sampleCoins.serialize generatorOps = some bytes ∧
      (∀ rest, CCoins.unserialize generatorOps (bytes ++ rest) = some (sampleCoins, rest)) ∧
      (bytes.length < 2 ^ 32 → sampleCoins.getSerializeSize generatorOps = some bytes.length) :=
  (records_readBack generatorOps_inverts).1 sampleCoins sampleCoins_storable

/-! ## Sizes that do not fit -/

/-- A size that wraps to the number of a short form. -/
theorem script_wraps {K : PubKeyOps} {n : Nat} (hn : n + CScriptCompressor.nSpecialScripts = 2 ^ 32) (rest : Bytes) :
    (CScriptCompressor.format K).get ((CScriptCompressor.format K).put (List.replicate n 0) ++ rest) =
      some ([0x76, 0xa9, 20] ++ List.replicate 20 0 ++ [0x88, 0xac], List.replicate (n - 20) 0 ++ rest) := by
  have hlarge : n = 20 + (n - 20) := by
    have hsix : CScriptCompressor.nSpecialScripts = 6 := rfl
    omega
  have hlength : (List.replicate n (0 : UInt8)).length = n := List.length_replicate
  have hno : ∀ k, k < 100 → (List.replicate n (0 : UInt8)).length ≠ k := by
    have hsix : CScriptCompressor.nSpecialScripts = 6 := rfl
    intro k hk
    rw [hlength]
    omega
  have hcompress : CScriptCompressor.compress K (List.replicate n 0) = none := by
    rw [CScriptCompressor.compress, CScriptCompressor.isToKeyID, if_neg fun h => hno 25 (by decide) h.1,
      CScriptCompressor.isToScriptID, if_neg fun h => hno 23 (by decide) h.1, CScriptCompressor.isToPubKey,
      if_neg fun h => hno 35 (by decide) h.1, if_neg fun h => hno 67 (by decide) h.1]
  have hblock := (block 20).get_put (a := List.replicate 20 0) List.length_replicate (List.replicate (n - 20) 0 ++ rest)
  have hsplit : List.replicate n (0 : UInt8) ++ rest = List.replicate 20 0 ++ (List.replicate (n - 20) 0 ++ rest) := by
    rw [← List.append_assoc, List.replicate_append_replicate, ← hlarge]
  dsimp only [CScriptCompressor.format]
  rw [hcompress, hlength, hn, Nat.mod_self]
  dsimp only
  rw [List.append_assoc, readVarIntMod_write (by decide), Option.bind_eq_bind, Option.bind_some, hsplit]
  dsimp only
  rw [if_pos (by decide)]
  exact congrArg (fun r : Option (Bytes × Bytes) => r.bind fun p => some ((CScriptCompressor.decompress K 0 p.1).getD [], p.2)) hblock

theorem CTxInUndo.not_roundTrips {K : PubKeyOps} {n : Nat} (hn : n + CScriptCompressor.nSpecialScripts = 2 ^ 32) :
    ¬(CTxInUndo.format K).RoundTrips ⟨⟨0, List.replicate n 0⟩, false, 0, 0⟩ := by
  intro h
  have hread := h []
  have hscript := script_wraps (K := K) hn []
  have hzero : ∀ rest, writeVarInt 0 0 ++ rest = 0 :: rest := fun rest => by
    rw [writeVarInt_small (by decide)]
    rfl
  have hcode : CTxInUndo.code ⟨⟨0, List.replicate n 0⟩, false, 0, 0⟩ = 0 := rfl
  have hvalue : (compressAmount (0 : Int64).toUInt64).toNat = 0 := rfl
  dsimp only [CTxInUndo.format, CTxOutCompressor.format] at hread
  rw [hcode, hvalue, if_neg (Nat.lt_irrefl 0), List.nil_append, List.append_assoc, List.append_assoc,
    readVarIntMod_write (by decide)] at hread
  simp only [Option.bind_eq_bind, Option.bind_some] at hread
  rw [if_neg (by decide), readVarIntMod_write (by decide)] at hread
  simp only [Option.bind_some] at hread
  rw [hscript] at hread
  have hsame := congrArg (fun r : Option (CTxInUndo × Bytes) => r.map fun p => p.1.txout.scriptPubKey.length) hread
  have hlength : 25 = (List.replicate n (0 : UInt8)).length := Option.some.inj hsame
  have hsix : CScriptCompressor.nSpecialScripts = 6 := rfl
  rw [List.length_replicate] at hlength
  omega

/-- More elements than a reader takes. -/
theorem readCompactSize_of_large {n : Nat} (hlarge : maxSize < n) (hn : n < 2 ^ 32) (rest : Bytes) :
    readCompactSize (writeCompactSize n ++ rest) = none := by
  have hbound : 33554432 < n := hlarge
  have hwide := readWide_leBytes (w := 4) (l := 0x10000) (n := n) (by omega) (by omega) rest
  have hwrite : writeCompactSize n = 254 :: leBytes 4 n := by
    rw [writeCompactSize, if_neg (by omega), if_neg (by omega), if_pos (by omega)]
  have hmarker : (254 : UInt8).toNat = 254 := rfl
  rw [hwrite, List.cons_append, readCompactSize]
  rw [hmarker, if_neg (by decide), if_neg (by decide), if_pos rfl, hwide, Option.bind_some, if_pos hlarge]

theorem CTxUndo.not_roundTrips {K : PubKeyOps} {u : CTxUndo} (hlarge : maxSize < u.vprevout.length)
    (hlength : u.vprevout.length < 2 ^ 32) : ¬(CTxUndo.format K).RoundTrips u := by
  intro h
  have hread := h []
  have hcount := readCompactSize_of_large hlarge hlength ((CTxInUndo.format K).putAll u.vprevout ++ [])
  dsimp only [CTxUndo.format, Format.iso, Format.vec] at hread
  rw [List.append_assoc] at hread
  have hnone : compactSizeCodec.get (compactSizeCodec.put u.vprevout.length ++
      ((CTxInUndo.format K).putAll u.vprevout ++ [])) = none := hcount
  rw [hnone] at hread
  cases hread

/-- A record with a script of 2^32 - 6 bytes is read back with another script, and a list of more than `MAX_SIZE`
records is not read back. -/
theorem records_not_readBack :
    ¬(CTxInUndo.format generatorOps).RoundTrips ⟨⟨0, List.replicate (2 ^ 32 - 6) 0⟩, false, 0, 0⟩ ∧
      ¬(CTxUndo.format generatorOps).RoundTrips ⟨List.replicate (maxSize + 1) ⟨⟨0, []⟩, false, 0, 0⟩⟩ := by
  refine ⟨CTxInUndo.not_roundTrips (by decide), CTxUndo.not_roundTrips ?_ ?_⟩
  · rw [List.length_replicate]
    exact Nat.lt_succ_self maxSize
  · rw [List.length_replicate]
    decide

end Dobbscoin
