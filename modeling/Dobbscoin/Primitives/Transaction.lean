import Dobbscoin.Lib.ByteCodec

/-!
# Transactions

`primitives/transaction.h`, `amount.h` and the parts of `serialize.h` and `uint256.h` they use:
the transaction data model, its wire format and its hash.

The hash functions themselves (`Hash`, double SHA-256, and `HashScrypt`) enter as the two fields
of `Crypto`; nothing below depends on how they are computed.
-/

namespace Dobbscoin

open ByteCodec

/-! ## Base types -/

/-- `uint256`: 32 bytes, also read as a little-endian number. -/
abbrev UInt256 := BitVec 256

instance : LawfulBEq UInt256 := inferInstance

abbrev CScript := Bytes

abbrev CAmount := Int64

/-- The hash functions of `hash.h`. -/
structure Crypto where
  hash : Bytes → UInt256
  hashScrypt : Bytes → UInt256

/-- `hash` has no collision among the messages of `S`. -/
def CollisionFreeOn (H : Crypto) (S : Set Bytes) : Prop :=
  ∀ x ∈ S, ∀ y ∈ S, H.hash x = H.hash y → x = y

def coin : Int := 100000000

def maxMoney : Int := 10000000000 * coin

abbrev moneyRange (nValue : Int) : Prop :=
  0 ≤ nValue ∧ nValue ≤ maxMoney

def maxSize : Nat := 0x02000000

/-! ## Fixed-width fields -/

def uint32Codec : ByteCodec UInt32 :=
  (le 4).iso UInt32.ofNat UInt32.toNat (fun b => by simp) (by
    intro n hn
    have hlt : n < 2 ^ 32 := hn
    simpa using Nat.mod_eq_of_lt hlt)

-- Integers are written as the little-endian bytes of their two's complement.

def int32Codec : ByteCodec Int32 :=
  (le 4).iso (fun n => Int32.ofBitVec (BitVec.ofNat 32 n)) (fun x => x.toBitVec.toNat)
    (fun b => by simp) (by
      intro n hn
      have hlt : n < 2 ^ 32 := hn
      simpa using Nat.mod_eq_of_lt hlt)

def int64Codec : ByteCodec Int64 :=
  (le 8).iso (fun n => Int64.ofBitVec (BitVec.ofNat 64 n)) (fun x => x.toBitVec.toNat)
    (fun b => by simp) (by
      intro n hn
      have hlt : n < 2 ^ 64 := hn
      simpa using Nat.mod_eq_of_lt hlt)

def uint256Codec : ByteCodec UInt256 :=
  (le 32).iso (BitVec.ofNat 256) BitVec.toNat (fun b => by simp) (by
    intro n hn
    have hlt : n < 2 ^ 256 := hn
    simpa using Nat.mod_eq_of_lt hlt)

@[simp] theorem uint32Codec_fits (x : UInt32) : uint32Codec.Fits x := by
  show x.toNat < 256 ^ 4
  exact x.toNat_lt

@[simp] theorem int32Codec_fits (x : Int32) : int32Codec.Fits x := by
  show x.toBitVec.toNat < 256 ^ 4
  exact x.toBitVec.isLt

@[simp] theorem int64Codec_fits (x : Int64) : int64Codec.Fits x := by
  show x.toBitVec.toNat < 256 ^ 8
  exact x.toBitVec.isLt

@[simp] theorem uint256Codec_fits (x : UInt256) : uint256Codec.Fits x := by
  show x.toNat < 256 ^ 32
  exact x.isLt

/-- The 32 bytes of a `uint256`, as `begin()` to `end()` runs through them. -/
def UInt256.bytes (x : UInt256) : Bytes :=
  uint256Codec.put x

@[simp] theorem UInt256.bytes_length (x : UInt256) : (UInt256.bytes x).length = 32 :=
  leBytes_length 32 x.toNat

theorem UInt256.bytes_inj {x y : UInt256} (h : UInt256.bytes x = UInt256.bytes y) : x = y :=
  uint256Codec.put_inj (uint256Codec_fits x) (uint256Codec_fits y) h

/-! ## Compact sizes -/

def writeCompactSize (nSize : Nat) : Bytes :=
  if nSize < 253 then [UInt8.ofNat nSize]
  else if nSize ≤ 0xffff then 253 :: leBytes 2 nSize
  else if nSize ≤ 0xffffffff then 254 :: leBytes 4 nSize
  else 255 :: leBytes 8 nSize

/-- The value behind the marker byte; a value below `l` is non-canonical. -/
def readWide (w l : Nat) (bs : Bytes) : Option (Nat × Bytes) :=
  ((le w).get bs).bind fun p => if p.1 < l then none else some p

/-- `ReadCompactSize`: `none` is the thrown `ios_base::failure`. -/
def readCompactSize : Bytes → Option (Nat × Bytes)
  | [] => none
  | chSize :: rest =>
      let value :=
        if chSize.toNat < 253 then some (chSize.toNat, rest)
        else if chSize.toNat = 253 then readWide 2 253 rest
        else if chSize.toNat = 254 then readWide 4 0x10000 rest
        else readWide 8 0x100000000 rest
      value.bind fun p => if p.1 > maxSize then none else some p

theorem readWide_leBytes {w l n : Nat} (hlo : l ≤ n) (hn : n < 256 ^ w) (rest : Bytes) :
    readWide w l (leBytes w n ++ rest) = some (n, rest) := by
  have hget : (le w).get (leBytes w n ++ rest) = some (n, rest) := (le w).get_put hn rest
  simp [readWide, hget, Nat.not_lt.2 hlo]

theorem readWide_eq_some {w l n : Nat} {bs rest : Bytes} (h : readWide w l bs = some (n, rest)) :
    l ≤ n ∧ bs = leBytes w n ++ rest := by
  rcases Option.bind_eq_some_iff.1 h with ⟨⟨m, r⟩, hget, hif⟩
  by_cases hm : m < l
  · simp [hm] at hif
  · have hpair : m = n ∧ r = rest := by simpa [hm] using hif
    rcases hpair with ⟨rfl, rfl⟩
    exact ⟨Nat.not_lt.1 hm, ((le w).put_get hget).2⟩

theorem readCompactSize_write {n : Nat} (hn : n ≤ maxSize) (rest : Bytes) :
    readCompactSize (writeCompactSize n ++ rest) = some (n, rest) := by
  have hbound : n ≤ 33554432 := hn
  have hnot : ¬ n > maxSize := Nat.not_lt.2 hn
  unfold writeCompactSize
  split
  · rename_i h253
    have hbyte : (UInt8.ofNat n).toNat = n := by
      simpa using Nat.mod_eq_of_lt (show n < 2 ^ 8 by omega)
    simp [readCompactSize, hbyte, h253, hnot]
  · split
    · have hwide := readWide_leBytes (w := 2) (l := 253) (n := n) (by omega) (by omega) rest
      simp [readCompactSize, hwide, hnot]
    · have hle : n ≤ 0xffffffff := by omega
      have hwide := readWide_leBytes (w := 4) (l := 0x10000) (n := n) (by omega) (by omega) rest
      simp [readCompactSize, hle, hwide, hnot]

theorem write_readCompactSize {bs rest : Bytes} {n : Nat}
    (h : readCompactSize bs = some (n, rest)) :
    n ≤ maxSize ∧ bs = writeCompactSize n ++ rest := by
  cases bs with
  | nil => cases h
  | cons b bs =>
      rcases Option.bind_eq_some_iff.1 h with ⟨⟨m, r⟩, hval, hif⟩
      by_cases hmax : m > maxSize
      · simp [hmax] at hif
      have hpair : m = n ∧ r = rest := by simpa [hmax] using hif
      rcases hpair with ⟨rfl, rfl⟩
      have hm : m ≤ 33554432 := Nat.not_lt.1 hmax
      refine ⟨Nat.not_lt.1 hmax, ?_⟩
      by_cases h253 : b.toNat < 253
      · have hval' : b.toNat = m ∧ bs = r := by simpa [h253] using hval
        rcases hval' with ⟨rfl, rfl⟩
        simp [writeCompactSize, h253]
      · by_cases heq : b.toNat = 253
        · have hval' : readWide 2 253 bs = some (m, r) := by simpa [h253, heq] using hval
          rcases readWide_eq_some hval' with ⟨hlo, rfl⟩
          have hlt : m < 2 ^ 16 := by
            rcases Option.bind_eq_some_iff.1 hval' with ⟨⟨m', r'⟩, hget, hif'⟩
            have hfits : m' < 256 ^ 2 := ((le 2).put_get hget).1
            by_cases hm' : m' < 253
            · simp [hm'] at hif'
            · have : m' = m := by simpa [hm'] using congrArg (Option.map Prod.fst) hif'
              omega
          have hb : b = 253 := UInt8.toNat_inj.1 heq
          simp [writeCompactSize, show ¬ m < 253 by omega, show m ≤ 0xffff by omega, hb]
        · by_cases heq4 : b.toNat = 254
          · have hval' : readWide 4 0x10000 bs = some (m, r) := by
              simpa [h253, heq, heq4] using hval
            rcases readWide_eq_some hval' with ⟨hlo, rfl⟩
            have hb : b = 254 := UInt8.toNat_inj.1 heq4
            simp [writeCompactSize, show ¬ m < 253 by omega, show ¬ m ≤ 0xffff by omega,
              show m ≤ 0xffffffff by omega, hb]
          · have hval' : readWide 8 0x100000000 bs = some (m, r) := by
              simpa [h253, heq, heq4] using hval
            rcases readWide_eq_some hval' with ⟨hlo, -⟩
            omega

def compactSizeCodec : ByteCodec Nat where
  put := writeCompactSize
  get := readCompactSize
  Fits n := n ≤ maxSize
  get_put := fun hn rest => readCompactSize_write hn rest
  put_get := write_readCompactSize

/-- `std::vector<unsigned char>`: also the format of `CScript`. -/
def scriptCodec : ByteCodec CScript :=
  vec compactSizeCodec byte

theorem scriptCodec_fits {s : CScript} (h : s.length ≤ maxSize) : scriptCodec.Fits s :=
  ⟨h, fun _ _ => trivial⟩

/-! ## Transactions -/

structure COutPoint where
  hash : UInt256
  n : UInt32
  deriving DecidableEq, Repr

structure CTxIn where
  prevout : COutPoint
  scriptSig : CScript
  nSequence : UInt32
  deriving DecidableEq, Repr

structure CTxOut where
  nValue : CAmount
  scriptPubKey : CScript
  deriving DecidableEq

structure CTransaction where
  nVersion : Int32
  vin : List CTxIn
  vout : List CTxOut
  nLockTime : UInt32
  deriving DecidableEq

namespace COutPoint

def isNull (o : COutPoint) : Bool :=
  o.hash == 0 && o.n == 0xffffffff

def codec : ByteCodec COutPoint :=
  (uint256Codec.pair uint32Codec).iso (fun p => ⟨p.1, p.2⟩) (fun o => (o.hash, o.n))
    (fun _ => rfl) (fun _ _ => rfl)

end COutPoint

namespace CTxIn

def codec : ByteCodec CTxIn :=
  (COutPoint.codec.pair (scriptCodec.pair uint32Codec)).iso
    (fun p => ⟨p.1, p.2.1, p.2.2⟩) (fun i => (i.prevout, i.scriptSig, i.nSequence))
    (fun _ => rfl) (fun _ _ => rfl)

end CTxIn

namespace CTxOut

/-- `CTxOut::SetNull`: the marker of a spent output. -/
def null : CTxOut :=
  { nValue := -1, scriptPubKey := [] }

def isNull (o : CTxOut) : Bool :=
  o.nValue == -1

/-- `CScript::IsUnspendable` of the output's script: it starts with `OP_RETURN`. -/
def isUnspendable (o : CTxOut) : Bool :=
  o.scriptPubKey.head? == some 0x6a

def codec : ByteCodec CTxOut :=
  (int64Codec.pair scriptCodec).iso (fun p => ⟨p.1, p.2⟩) (fun o => (o.nValue, o.scriptPubKey))
    (fun _ => rfl) (fun _ _ => rfl)

@[simp] theorem isNull_null : null.isNull = true := rfl

end CTxOut

namespace CTransaction

def isCoinBase (tx : CTransaction) : Bool :=
  match tx.vin with
  | [i] => i.prevout.isNull
  | _ => false

def codec : ByteCodec CTransaction :=
  (int32Codec.pair ((vec compactSizeCodec CTxIn.codec).pair
      ((vec compactSizeCodec CTxOut.codec).pair uint32Codec))).iso
    (fun p => ⟨p.1, p.2.1, p.2.2.1, p.2.2.2⟩) (fun t => (t.nVersion, t.vin, t.vout, t.nLockTime))
    (fun _ => rfl) (fun _ _ => rfl)

/-- `GetSerializeSize`: the number of bytes the writer produces. -/
def serializeSize (tx : CTransaction) : Nat :=
  (codec.put tx).length

def getHash (H : Crypto) (tx : CTransaction) : UInt256 :=
  H.hash (codec.put tx)

/-- A transaction of at most `maxSize` bytes fits: no vector in it is longer than the whole. -/
theorem fits_of_size {tx : CTransaction} (h : tx.serializeSize ≤ maxSize) : codec.Fits tx := by
  have hscript : ∀ s : CScript, s.length ≤ (putAll byte s).length :=
    fun s => length_le_putAll byte fun _ _ => Nat.one_pos
  have hsize : 4 + ((writeCompactSize tx.vin.length).length + (putAll CTxIn.codec tx.vin).length +
      ((writeCompactSize tx.vout.length).length + (putAll CTxOut.codec tx.vout).length + 4)) ≤
        maxSize := by
    have hbytes : tx.serializeSize = (leBytes 4 tx.nVersion.toBitVec.toNat ++
        ((writeCompactSize tx.vin.length ++ putAll CTxIn.codec tx.vin) ++
          ((writeCompactSize tx.vout.length ++ putAll CTxOut.codec tx.vout) ++
            leBytes 4 tx.nLockTime.toNat))).length := rfl
    rw [hbytes] at h
    simpa only [List.length_append, leBytes_length] using h
  have hin : ∀ i : CTxIn, 36 + ((writeCompactSize i.scriptSig.length).length +
      (putAll byte i.scriptSig).length + 4) = (CTxIn.codec.put i).length := by
    intro i
    have hput : CTxIn.codec.put i = leBytes 32 i.prevout.hash.toNat ++ leBytes 4 i.prevout.n.toNat ++
        ((writeCompactSize i.scriptSig.length ++ putAll byte i.scriptSig) ++
          leBytes 4 i.nSequence.toNat) := rfl
    simp only [hput, List.length_append, leBytes_length]
  have hout : ∀ o : CTxOut, 8 + ((writeCompactSize o.scriptPubKey.length).length +
      (putAll byte o.scriptPubKey).length) = (CTxOut.codec.put o).length := by
    intro o
    have hput : CTxOut.codec.put o = leBytes 8 o.nValue.toBitVec.toNat ++
        (writeCompactSize o.scriptPubKey.length ++ putAll byte o.scriptPubKey) := rfl
    simp only [hput, List.length_append, leBytes_length]
  have hvin : tx.vin.length ≤ maxSize := by
    have hlen : tx.vin.length ≤ (putAll CTxIn.codec tx.vin).length := by
      apply length_le_putAll
      intro i _
      rw [← hin i]
      omega
    omega
  have hvout : tx.vout.length ≤ maxSize := by
    have hlen : tx.vout.length ≤ (putAll CTxOut.codec tx.vout).length := by
      apply length_le_putAll
      intro o _
      rw [← hout o]
      omega
    omega
  refine ⟨int32Codec_fits _, ⟨hvin, ?_⟩, ⟨hvout, ?_⟩, uint32Codec_fits _⟩
  · intro i hi
    have hlen : (CTxIn.codec.put i).length ≤ (putAll CTxIn.codec tx.vin).length :=
      length_put_le CTxIn.codec hi
    rw [← hin i] at hlen
    have hs : i.scriptSig.length ≤ maxSize := (hscript i.scriptSig).trans (by omega)
    exact ⟨⟨uint256Codec_fits _, uint32Codec_fits _⟩, scriptCodec_fits hs, uint32Codec_fits _⟩
  · intro o ho
    have hlen : (CTxOut.codec.put o).length ≤ (putAll CTxOut.codec tx.vout).length :=
      length_put_le CTxOut.codec ho
    rw [← hout o] at hlen
    have hs : o.scriptPubKey.length ≤ maxSize := (hscript o.scriptPubKey).trans (by omega)
    exact ⟨int64Codec_fits _, scriptCodec_fits hs⟩

/-- Transactions that survive the wire have different hashes unless their bytes collide. -/
theorem getHash_inj {H : Crypto} {S : Set Bytes} (hS : CollisionFreeOn H S) {s t : CTransaction}
    (hs : codec.Fits s) (ht : codec.Fits t) (hsS : codec.put s ∈ S) (htS : codec.put t ∈ S)
    (h : getHash H s = getHash H t) : s = t :=
  codec.put_inj hs ht (hS _ hsS _ htS h)

end CTransaction

end Dobbscoin
