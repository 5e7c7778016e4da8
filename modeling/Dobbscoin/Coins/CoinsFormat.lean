import Dobbscoin.Coins.CCoins
import Dobbscoin.Coins.Compressor
import Dobbscoin.Lib.ByteBits

/-!
# The format of unspent outputs

`Serialize`, `Unserialize` and `GetSerializeSize` of `CCoins`.  A bit for each output says whether it is unspent; the
bits of the first two outputs are in the header code, and the others in bytes of which the code counts those that are
not zero.
-/

namespace Dobbscoin

open ByteCodec

variable {c : CCoins}

/-! ## Integers -/

/-- `WriteVarInt` of an `int`: a negative number takes one byte. -/
def putInt (n : Int32) : Bytes :=
  if n.toInt < 0 then [UInt8.ofNat (n.toBitVec.toNat % 128)] else writeVarInt 0 n.toInt.toNat

def getInt (bs : Bytes) : Option (Int32 × Bytes) :=
  (readVarIntMod 32 0 bs).map fun r => (Int32.ofBitVec (BitVec.ofNat 32 r.1), r.2)

def sizeOfInt (n : Int32) : Nat :=
  if n.toInt < 0 then 1 else sizeOfVarInt n.toInt.toNat

theorem length_putInt (n : Int32) : (putInt n).length = sizeOfInt n := by
  unfold putInt sizeOfInt
  split_ifs
  · rfl
  · exact length_writeVarInt 0 _

theorem getInt_put {n : Int32} (hn : 0 ≤ n.toInt) (rest : Bytes) : getInt (putInt n ++ rest) = some (n, rest) := by
  have hbits : n.toBitVec.toNat = n.toInt.toNat := by
    have hnat := Int32.toNat_toUInt32_of_le (Int32.le_iff_toInt_le.2 hn)
    exact hnat
  have hsmall : n.toInt.toNat < 2 ^ 32 := by
    rw [← hbits]
    exact n.toBitVec.isLt
  have hback : Int32.ofBitVec (BitVec.ofNat 32 n.toInt.toNat) = n := by
    rw [← hbits, BitVec.ofNat_toNat, BitVec.setWidth_eq, Int32.ofBitVec_toBitVec]
  unfold getInt putInt
  rw [if_neg (not_lt.2 hn), readVarIntMod_write hsmall, Option.map_some, hback]

namespace CCoins

/-! ## Serialization -/

/-- Whether one of the outputs of a byte of the mask is unspent. -/
def maskUsed (c : CCoins) (b : Nat) : Bool :=
  (List.range 8).any fun i => c.isAvailable (2 + b * 8 + i)

/-- `CalcMaskSize`: up to the last byte that is used, and how many are used.  The loop runs while `2 + b * 8` is an
index. -/
def calcMaskSize (c : CCoins) : Nat × Nat :=
  (List.range ((c.vout.length + 5) / 8)).foldl
    (fun (r : Nat × Nat) b => if c.maskUsed b then (b + 1, r.2 + 1) else r) (0, 0)

def maskByte (c : CCoins) (b : Nat) : UInt8 :=
  ByteBits.pack fun i => c.isAvailable (2 + b * 8 + i)

/-- The header code, an `unsigned int`. -/
def headerCode (c : CCoins) (nMaskCode : Nat) : Nat :=
  (8 * (nMaskCode - (if c.isAvailable 0 || c.isAvailable 1 then 0 else 1)) + (if c.fCoinBase then 1 else 0) +
    (if c.isAvailable 0 then 2 else 0) + (if c.isAvailable 1 then 4 else 0)) % 2 ^ 32

/-- The outputs that are not spent. -/
def unspentOutputs (c : CCoins) : List CTxOut :=
  c.vout.filter fun o => !o.isNull

/-- Version, header code, mask, outputs and height. -/
def record (K : PubKeyOps) (c : CCoins) (nMaskSize nMaskCode : Nat) : Bytes :=
  putInt c.nVersion ++ (writeVarInt 0 (c.headerCode nMaskCode) ++ ((List.range nMaskSize).map c.maskByte ++
    (c.unspentOutputs.flatMap (CTxOutCompressor.format K).put ++ writeVarInt 0 c.nHeight)))

/-- `none` is the assertion that something is unspent. -/
def serialize (K : PubKeyOps) (c : CCoins) : Option Bytes :=
  let (nMaskSize, nMaskCode) := c.calcMaskSize
  if c.isAvailable 0 ∨ c.isAvailable 1 ∨ nMaskCode ≠ 0 then some (c.record K nMaskSize nMaskCode) else none

/-- The sizes are added in an `unsigned int`. -/
def getSerializeSize (K : PubKeyOps) (c : CCoins) : Option Nat :=
  let (nMaskSize, nMaskCode) := c.calcMaskSize
  if c.isAvailable 0 ∨ c.isAvailable 1 ∨ nMaskCode ≠ 0 then
    some ((sizeOfInt c.nVersion + sizeOfVarInt (c.headerCode nMaskCode) + nMaskSize +
      (c.unspentOutputs.map fun o => ((CTxOutCompressor.format K).put o).length).sum + sizeOfVarInt c.nHeight) % 2 ^ 32)
  else none

/-! ## Reading -/

/-- The loop that reads bytes of the mask until `nMaskCode` of them were not zero. -/
def readMask : Nat → Bytes → List Bool → Option (List Bool × Bytes)
  | 0, bs, vAvail => some (vAvail, bs)
  | _ + 1, [], _ => none
  | nMaskCode + 1, chAvail :: bs, vAvail =>
    readMask (if chAvail ≠ 0 then nMaskCode else nMaskCode + 1) bs (vAvail ++ ByteBits.flags chAvail)

/-- The loop that reads the outputs that are available. -/
def readOutputs (K : PubKeyOps) : List Bool → Bytes → Option (List CTxOut × Bytes)
  | [], bs => some ([], bs)
  | isAvail :: vAvail, bs => do
    let (txout, bs) ← if isAvail then (CTxOutCompressor.format K).get bs else some (CTxOut.null, bs)
    let (vout, bs) ← readOutputs K vAvail bs
    return (txout :: vout, bs)

def unserialize (K : PubKeyOps) (bs : Bytes) : Option (CCoins × Bytes) := do
  let (nVersion, bs) ← getInt bs
  let (nCode, bs) ← readVarIntMod 32 0 bs
  let nMaskCode := (nCode / 8 + if nCode.testBit 1 || nCode.testBit 2 then 0 else 1) % 2 ^ 32
  let (vAvail, bs) ← readMask nMaskCode bs [nCode.testBit 1, nCode.testBit 2]
  let (vout, bs) ← readOutputs K vAvail bs
  let (nHeight, bs) ← readVarIntMod 32 0 bs
  return (cleanup ⟨nCode.testBit 0, vout, nHeight, nVersion⟩, bs)

/-! ## The mask -/

theorem isAvailable_of_le {nPos : Nat} (h : c.vout.length ≤ nPos) : c.isAvailable nPos = false := by
  rw [isAvailable, List.getElem?_eq_none h]

theorem isAvailable_eq_isNull (nPos : Nat) : c.isAvailable nPos = !(c.vout.getD nPos CTxOut.null).isNull := by
  rw [isAvailable, List.getD_eq_getElem?_getD]
  cases c.vout[nPos]? with
  | none => rfl
  | some o => rfl

theorem maskUsed_iff {b : Nat} : c.maskUsed b = true ↔ ∃ i < 8, c.isAvailable (2 + b * 8 + i) = true := by
  rw [maskUsed, List.any_eq_true]
  exact ⟨fun ⟨i, hi, h⟩ => ⟨i, List.mem_range.1 hi, h⟩, fun ⟨i, hi, h⟩ => ⟨i, List.mem_range.2 hi, h⟩⟩

theorem maskByte_ne_zero {b : Nat} : c.maskByte b ≠ 0 ↔ c.maskUsed b = true := by
  rw [maskByte, Ne, ByteBits.pack_eq_zero_iff, maskUsed_iff]
  simp only [not_forall, Bool.not_eq_false, exists_prop]

/-- The last byte that is used is the last one of the mask, and the used ones are counted. -/
structure MaskSize (c : CCoins) (k : Nat) (size : Nat × Nat) : Prop where
  bound : size.1 ≤ k
  unused : ∀ b < k, size.1 ≤ b → c.maskUsed b = false
  last : ∀ b, size.1 = b + 1 → c.maskUsed b = true
  count : size.2 = (List.range size.1).countP c.maskUsed

theorem countP_range_of_unused {m k : Nat} (hm : m ≤ k) (h : ∀ b < k, m ≤ b → c.maskUsed b = false) :
    (List.range k).countP c.maskUsed = (List.range m).countP c.maskUsed := by
  induction k with
  | zero => rw [Nat.le_zero.1 hm]
  | succ k ih =>
    by_cases heq : m = k + 1
    · rw [heq]
    · have hk := h k (Nat.lt_succ_self k) (by omega)
      rw [List.range_succ, List.countP_append, ih (by omega) fun b hb => h b (by omega)]
      simp [hk]

theorem calcMaskSize_foldl (c : CCoins) (k : Nat) :
    MaskSize c k ((List.range k).foldl (fun (r : Nat × Nat) b => if c.maskUsed b then (b + 1, r.2 + 1) else r) (0, 0)) := by
  induction k with
  | zero => exact ⟨le_rfl, fun b hb => absurd hb (Nat.not_lt_zero b), fun b hb => (nomatch hb), rfl⟩
  | succ k ih =>
    rw [List.range_succ, List.foldl_append, List.foldl_cons, List.foldl_nil]
    by_cases hused : c.maskUsed k = true
    · rw [if_pos hused]
      refine ⟨le_rfl, fun b hb hle => absurd hb (not_lt.2 hle), fun b hb => ?_, ?_⟩
      · rw [← Nat.succ.inj hb]
        exact hused
      · dsimp only
        rw [List.range_succ, List.countP_append, countP_range_of_unused ih.bound ih.unused, ← ih.count]
        simp [hused]
    · rw [if_neg hused]
      refine ⟨ih.bound.trans (Nat.le_succ k), fun b hb hle => ?_, ih.last, ih.count⟩
      by_cases hbk : b = k
      · rw [hbk, ← Bool.not_eq_true]
        exact hused
      · exact ih.unused b (by omega) hle

/-- All outputs behind the mask are spent. -/
theorem calcMaskSize_spec (c : CCoins) :
    c.calcMaskSize.1 ≤ (c.vout.length + 5) / 8 ∧ (∀ nPos, 2 + c.calcMaskSize.1 * 8 ≤ nPos → c.isAvailable nPos = false) ∧
      (∀ b, c.calcMaskSize.1 = b + 1 → c.maskUsed b = true) ∧
      c.calcMaskSize.2 = (List.range c.calcMaskSize.1).countP c.maskUsed := by
  have hsize : MaskSize c ((c.vout.length + 5) / 8) c.calcMaskSize := calcMaskSize_foldl c _
  refine ⟨hsize.bound, fun nPos hpos => ?_, hsize.last, hsize.count⟩
  by_cases hinside : nPos < c.vout.length
  · have hunused := hsize.unused ((nPos - 2) / 8) (by omega) (by omega)
    by_contra havail
    rw [Bool.not_eq_false] at havail
    have hplace : 2 + (nPos - 2) / 8 * 8 + (nPos - 2) % 8 = nPos := by omega
    have hused := maskUsed_iff.2 ⟨(nPos - 2) % 8, Nat.mod_lt _ (by decide), by rw [hplace]; exact havail⟩
    rw [hunused] at hused
    cases hused
  · exact isAvailable_of_le (not_lt.1 hinside)

theorem readMask_bytes (masks rest : Bytes) (vAvail : List Bool) (hlast : ∀ ch, masks.getLast? = some ch → ch ≠ 0) :
    readMask (masks.countP fun ch => decide (ch ≠ 0)) (masks ++ rest) vAvail =
      some (vAvail ++ masks.flatMap ByteBits.flags, rest) := by
  induction masks generalizing vAvail with
  | nil =>
    rw [List.flatMap_nil, List.append_nil]
    exact readMask.eq_1 rest vAvail
  | cons ch masks ih =>
    have hrest : ∀ ch', masks.getLast? = some ch' → ch' ≠ 0 := by
      intro ch' h
      refine hlast ch' ?_
      rw [List.getLast?_cons, h]
      rfl
    -- Some byte of the mask is not zero, so that the loop reads this one.
    obtain ⟨k, hk⟩ : ∃ k, (ch :: masks).countP (fun ch => decide (ch ≠ 0)) = k + 1 := by
      refine Nat.exists_eq_add_one.2 (List.countP_pos_iff.2 ?_)
      have hne : ch :: masks ≠ [] := List.cons_ne_nil ch masks
      refine ⟨(ch :: masks).getLast hne, List.getLast_mem hne, decide_eq_true ?_⟩
      exact hlast _ (List.getLast?_eq_some_getLast hne)
    have hnext : (if ch ≠ 0 then k else k + 1) = masks.countP fun ch => decide (ch ≠ 0) := by
      rw [List.countP_cons] at hk
      by_cases hzero : ch = 0
      · rw [if_neg (not_not.2 hzero)]
        simp only [hzero, ne_eq, not_true_eq_false, decide_false, Bool.false_eq_true, if_false] at hk
        exact hk.symm
      · rw [if_pos hzero]
        simp only [ne_eq, hzero, not_false_eq_true, decide_true, if_true] at hk
        exact (Nat.succ.inj hk).symm
    rw [hk, List.cons_append, readMask, hnext, ih (vAvail ++ ByteBits.flags ch) hrest, List.flatMap_cons, List.append_assoc]

theorem flatMap_range_eight (g : Nat → Bool) (n : Nat) :
    (List.range n).flatMap (fun b => (List.range 8).map fun i => g (b * 8 + i)) = (List.range (n * 8)).map g := by
  induction n with
  | zero => rfl
  | succ n ih =>
    have hsplit : (n + 1) * 8 = n * 8 + 8 := by omega
    have hlast : List.range (n + 1) = List.range n ++ [n] := List.range_succ
    rw [hlast, List.flatMap_append, ih, hsplit, List.range_add, List.map_append, List.map_map]
    simp only [List.flatMap_cons, List.flatMap_nil, List.append_nil]
    rfl

/-- The flags that are read. -/
theorem flags_eq (c : CCoins) (n : Nat) :
    [c.isAvailable 0, c.isAvailable 1] ++ ((List.range n).map c.maskByte).flatMap ByteBits.flags =
      (List.range (2 + n * 8)).map c.isAvailable := by
  have hflags : ∀ b, ByteBits.flags (c.maskByte b) = (List.range 8).map fun i => c.isAvailable (2 + (b * 8 + i)) :=
    fun b => by
      rw [maskByte, ByteBits.flags_pack]
      simp only [Nat.add_assoc]
  rw [List.flatMap_map]
  simp only [hflags]
  rw [flatMap_range_eight (fun j => c.isAvailable (2 + j)) n, List.range_add, List.map_append, List.map_map]
  rfl

/-! ## The outputs -/

theorem readOutputs_filter {K : PubKeyOps} {vout : List CTxOut} (hnull : ∀ o ∈ vout, o.isNull = true → o = CTxOut.null)
    (hread : ∀ o ∈ vout, o.isNull = false → (CTxOutCompressor.format K).RoundTrips o) (rest : Bytes) :
    readOutputs K (vout.map fun o => !o.isNull)
      ((vout.filter fun o => !o.isNull).flatMap (CTxOutCompressor.format K).put ++ rest) = some (vout, rest) := by
  induction vout with
  | nil => rfl
  | cons o vout ih =>
    have htail := ih (fun o' h => hnull o' (List.mem_cons_of_mem o h)) fun o' h => hread o' (List.mem_cons_of_mem o h)
    rw [List.map_cons, readOutputs, List.filter_cons]
    cases ho : o.isNull with
    | true =>
      have hself := hnull o List.mem_cons_self ho
      simp only [Bool.not_true, Bool.false_eq_true, if_false, Option.bind_eq_bind, Option.bind_some]
      rw [htail, hself]
      rfl
    | false =>
      have hself := hread o List.mem_cons_self ho
      simp only [Bool.not_false, if_true, List.flatMap_cons, List.append_assoc, hself _, Option.bind_eq_bind,
        Option.bind_some]
      rw [htail]
      rfl

/-- The outputs behind the last unspent one that the reader makes are dropped again. -/
theorem rdropWhile_append_null (vout : List CTxOut) (k : Nat) :
    (vout ++ List.replicate k CTxOut.null).rdropWhile CTxOut.isNull = vout.rdropWhile CTxOut.isNull := by
  induction k with
  | zero => rw [List.replicate_zero, List.append_nil]
  | succ k ih => rw [List.replicate_succ', ← List.append_assoc, List.rdropWhile_concat_pos _ _ _ CTxOut.isNull_null, ih]

/-- The flags of more outputs than there are. -/
theorem map_isAvailable {k n : Nat} (hn : n = c.vout.length + k) :
    (List.range n).map c.isAvailable = (c.vout ++ List.replicate k CTxOut.null).map fun o => !o.isNull := by
  refine List.ext_getElem (by simp [hn]) fun i hi hi' => ?_
  rw [List.getElem_map, List.getElem_map, List.getElem_range, isAvailable_eq_isNull]
  by_cases hinside : i < c.vout.length
  · rw [List.getElem_append_left hinside, List.getD_eq_getElem?_getD, List.getElem?_eq_getElem hinside, Option.getD_some]
  · have hlarge : c.vout.length ≤ i := not_lt.1 hinside
    rw [List.getElem_append_right hlarge, List.getElem_replicate, List.getD_eq_getElem?_getD, List.getElem?_eq_none hlarge,
      Option.getD_none]

/-! ## The header code -/

theorem headerCode_spec {nMaskCode : Nat} (hsmall : 8 * nMaskCode + 7 < 2 ^ 32)
    (hused : c.isAvailable 0 = true ∨ c.isAvailable 1 = true ∨ nMaskCode ≠ 0) :
    c.headerCode nMaskCode < 2 ^ 32 ∧ (c.headerCode nMaskCode).testBit 0 = c.fCoinBase ∧
      (c.headerCode nMaskCode).testBit 1 = c.isAvailable 0 ∧ (c.headerCode nMaskCode).testBit 2 = c.isAvailable 1 ∧
      (c.headerCode nMaskCode / 8 + if c.isAvailable 0 || c.isAvailable 1 then 0 else 1) % 2 ^ 32 = nMaskCode := by
  unfold headerCode
  simp only [Nat.testBit_eq_decide_div_mod_eq]
  cases hfirst : c.isAvailable 0 <;> cases hsecond : c.isAvailable 1 <;> cases hbase : c.fCoinBase <;>
    simp only [hfirst, hsecond, Bool.or_self, Bool.or_true, Bool.true_or, Bool.false_eq_true, if_true, if_false, false_or,
      ne_eq, decide_eq_true_eq, decide_eq_false_iff_not] at hused ⊢ <;>
    omega

/-! ## Entries are read back -/

/-- An entry that is not pruned, without spent outputs at its end, whose sizes fit into an `unsigned int`. -/
structure Storable (c : CCoins) : Prop where
  unspent : c.Unspent
  outputs : ∀ o ∈ c.vout, o = CTxOut.null ∨ moneyRange o.nValue.toInt
  version : 0 ≤ c.nVersion.toInt
  height : c.nHeight < 2 ^ 28
  scripts : ∀ o ∈ c.vout, o.scriptPubKey.length + CScriptCompressor.nSpecialScripts < 2 ^ 32
  count : c.vout.length + 12 < 2 ^ 32

theorem not_isNull_of_moneyRange {o : CTxOut} (h : moneyRange o.nValue.toInt) : o.isNull = false := by
  rw [← Bool.not_eq_true, CTxOut.isNull, beq_iff_eq]
  intro hnull
  rw [hnull] at h
  exact absurd h.1 (by decide)

/-- The mask reaches the last output. -/
theorem Storable.length_le (h : c.Storable) : c.vout.length ≤ 2 + c.calcMaskSize.1 * 8 := by
  rcases h.unspent with ⟨o, hlast, hnull⟩
  by_contra hlarge
  have hspent := (calcMaskSize_spec c).2.1 (c.vout.length - 1) (by omega)
  rw [List.getLast?_eq_getElem?] at hlast
  rw [isAvailable, hlast] at hspent
  simp only [hnull, Bool.not_false, Bool.true_eq_false] at hspent

theorem Storable.used (h : c.Storable) :
    c.isAvailable 0 = true ∨ c.isAvailable 1 = true ∨ c.calcMaskSize.2 ≠ 0 := by
  rcases calcMaskSize_spec c with ⟨-, -, hlast, hcount⟩
  cases hsize : c.calcMaskSize.1 with
  | succ b =>
    refine .inr (.inr ?_)
    rw [hcount, hsize]
    have hpos : 0 < (List.range (b + 1)).countP c.maskUsed :=
      List.countP_pos_iff.2 ⟨b, List.mem_range.2 (Nat.lt_succ_self b), hlast b hsize⟩
    omega
  | zero =>
    have hlength := h.length_le
    rcases h.unspent with ⟨o, hget, hnull⟩
    rw [List.getLast?_eq_getElem?] at hget
    have havail : c.isAvailable (c.vout.length - 1) = true := by
      rw [isAvailable, hget]
      simp only [hnull, Bool.not_false]
    have hplace : c.vout.length - 1 = 0 ∨ c.vout.length - 1 = 1 := by omega
    rcases hplace with hplace | hplace
    · exact .inl (hplace ▸ havail)
    · exact .inr (.inl (hplace ▸ havail))

theorem Storable.readMask_eq (h : c.Storable) (rest : Bytes) :
    readMask c.calcMaskSize.2 ((List.range c.calcMaskSize.1).map c.maskByte ++ rest) [c.isAvailable 0, c.isAvailable 1] =
      some ((c.vout ++ List.replicate (2 + c.calcMaskSize.1 * 8 - c.vout.length) CTxOut.null).map fun o => !o.isNull, rest) := by
  rcases calcMaskSize_spec c with ⟨-, -, hlast, hcount⟩
  have hcount' : c.calcMaskSize.2 = ((List.range c.calcMaskSize.1).map c.maskByte).countP fun ch => decide (ch ≠ 0) := by
    rw [hcount, List.countP_map]
    refine List.countP_congr fun b _ => ?_
    rw [Function.comp_apply, decide_eq_true_eq, maskByte_ne_zero]
  have hlast' : ∀ ch, ((List.range c.calcMaskSize.1).map c.maskByte).getLast? = some ch → ch ≠ 0 := by
    intro ch hch
    cases hsize : c.calcMaskSize.1 with
    | zero =>
      rw [hsize] at hch
      cases hch
    | succ b =>
      rw [hsize, List.range_succ, List.map_append, List.getLast?_append] at hch
      obtain rfl : c.maskByte b = ch := Option.some.inj hch
      exact maskByte_ne_zero.2 (hlast b hsize)
  have hlength := h.length_le
  have hpad : 2 + c.calcMaskSize.1 * 8 = c.vout.length + (2 + c.calcMaskSize.1 * 8 - c.vout.length) := by omega
  rw [hcount', readMask_bytes _ rest _ hlast', flags_eq, map_isAvailable hpad]

/-- A stored entry is read back with nothing left over, and its size is the one that was computed. -/
theorem Storable.roundTrips {K : PubKeyOps} (hK : CScriptCompressor.Inverts K) (h : c.Storable) :
    ∃ bytes, c.serialize K = some bytes ∧ (∀ rest, unserialize K (bytes ++ rest) = some (c, rest)) ∧
      (bytes.length < 2 ^ 32 → c.getSerializeSize K = some bytes.length) := by
  have hused := h.used
  have hcount := h.count
  have hbound := (calcMaskSize_spec c).1
  have hcode : 8 * c.calcMaskSize.2 + 7 < 2 ^ 32 := by
    have hle : c.calcMaskSize.2 ≤ c.calcMaskSize.1 := by
      rw [(calcMaskSize_spec c).2.2.2]
      exact List.countP_le_length.trans_eq List.length_range
    omega
  rcases headerCode_spec hcode hused with ⟨hcodeSmall, hbase, hfirst, hsecond, hmask⟩
  have hheight : c.nHeight < 2 ^ 32 := h.height.trans (by decide)
  refine ⟨c.record K c.calcMaskSize.1 c.calcMaskSize.2, if_pos hused, fun rest => ?_, fun hsize => ?_⟩
  · have hnull : ∀ o ∈ c.vout ++ List.replicate (2 + c.calcMaskSize.1 * 8 - c.vout.length) CTxOut.null,
        o.isNull = true → o = CTxOut.null := by
      intro o ho hisNull
      rcases List.mem_append.1 ho with ho | ho
      · rcases h.outputs o ho with rfl | hvalue
        · rfl
        · rw [not_isNull_of_moneyRange hvalue] at hisNull
          cases hisNull
      · exact List.eq_of_mem_replicate ho
    have hread : ∀ o ∈ c.vout ++ List.replicate (2 + c.calcMaskSize.1 * 8 - c.vout.length) CTxOut.null,
        o.isNull = false → (CTxOutCompressor.format K).RoundTrips o := by
      intro o ho hisNull
      rcases List.mem_append.1 ho with ho | ho
      · rcases h.outputs o ho with rfl | hvalue
        · cases hisNull
        · exact CTxOutCompressor.format_roundTrips hK hvalue (h.scripts o ho)
      · rw [List.eq_of_mem_replicate ho] at hisNull
        cases hisNull
    have houtputs := readOutputs_filter hnull hread (writeVarInt 0 c.nHeight ++ rest)
    have hsame : (c.vout ++ List.replicate (2 + c.calcMaskSize.1 * 8 - c.vout.length) CTxOut.null).filter
        (fun o => !o.isNull) = c.unspentOutputs := by
      rw [List.filter_append, List.filter_replicate, unspentOutputs]
      exact List.append_nil _
    have hclean : cleanup ⟨c.fCoinBase, c.vout ++ List.replicate (2 + c.calcMaskSize.1 * 8 - c.vout.length) CTxOut.null,
        c.nHeight, c.nVersion⟩ = c := by
      rw [cleanup, rdropWhile_append_null]
      exact h.unspent.cleanup_eq
    rw [hsame] at houtputs
    unfold unserialize record
    simp only [List.append_assoc]
    rw [getInt_put h.version]
    simp only [Option.bind_eq_bind, Option.bind_some]
    rw [readVarIntMod_write hcodeSmall]
    simp only [Option.bind_some, hbase, hfirst, hsecond, hmask]
    rw [h.readMask_eq]
    simp only [Option.bind_some]
    rw [houtputs]
    simp only [Option.bind_some]
    rw [readVarIntMod_write hheight]
    simp only [Option.bind_some, hclean]
    rfl
  · have hlength : sizeOfInt c.nVersion + sizeOfVarInt (c.headerCode c.calcMaskSize.2) + c.calcMaskSize.1 +
        (c.unspentOutputs.map fun o => ((CTxOutCompressor.format K).put o).length).sum + sizeOfVarInt c.nHeight =
        (c.record K c.calcMaskSize.1 c.calcMaskSize.2).length := by
      simp only [record, List.length_append, length_putInt, length_writeVarInt, List.length_map, List.length_range,
        List.length_flatMap]
      omega
    rw [getSerializeSize]
    dsimp only
    rw [if_pos hused, hlength, Nat.mod_eq_of_lt hsize]

end CCoins

end Dobbscoin
