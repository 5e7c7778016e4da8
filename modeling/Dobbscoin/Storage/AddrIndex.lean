import Dobbscoin.Lib.RangeScan
import Dobbscoin.Lib.VarInt
import Dobbscoin.Storage.BlockFiles
import Dobbscoin.Wallet.CWallet

/-!
# The records of the address index

`ReadAddrIndex` and `AddAddrIndex` of `txdb.cpp`.  A position is stored in the key of a record, behind a hash of the id
that it belongs to; a cursor reads all records that begin with this hash.
-/

namespace Dobbscoin

open ByteCodec RangeScan

/-! ## Records -/

/-- `CExtDiskTxPos`: a place in a block file, and the height of the block. -/
structure CExtDiskTxPos extends CDiskBlockPos where
  nTxOffset : Nat
  nHeight : Nat
  deriving DecidableEq

namespace CExtDiskTxPos

def codec : ByteCodec CExtDiskTxPos :=
  ((varInt.pair varInt).pair (varInt.pair varInt)).iso (fun p => ⟨⟨p.1.1, p.1.2⟩, p.2.1, p.2.2⟩)
    (fun pos => ((pos.nFile, pos.nPos), (pos.nTxOffset, pos.nHeight))) (fun _ => rfl) fun _ _ => rfl

theorem codec_fits (pos : CExtDiskTxPos) : codec.Fits pos :=
  ⟨⟨trivial, trivial⟩, trivial, trivial⟩

end CExtDiskTxPos

/-- A record of the block tree database, by the first byte of its key. -/
inductive BlockTreeRecord where
  | addrIndex (lookupid : UInt64) (pos : CExtDiskTxPos)
  | other (cType : UInt8) (rest : Bytes)
  deriving DecidableEq

/-- The byte `a`. -/
def cAddrIndex : UInt8 := 0x61

namespace BlockTreeRecord

def key : BlockTreeRecord → Bytes
  | addrIndex lookupid pos => cAddrIndex :: (leBytes 8 lookupid.toNat ++ CExtDiskTxPos.codec.put pos)
  | other cType rest => cType :: rest

/-- LevelDB compares the bytes of the keys. -/
def order (record : BlockTreeRecord) : List Nat :=
  record.key.map UInt8.toNat

def WellFormed : BlockTreeRecord → Prop
  | addrIndex _ _ => True
  | other cType _ => cType ≠ cAddrIndex

theorem wellFormed_addrIndex (lookupid : UInt64) (pos : CExtDiskTxPos) : (addrIndex lookupid pos).WellFormed :=
  trivial

end BlockTreeRecord

/-- The records of the database, ordered by their keys. -/
structure CBlockTreeDB where
  records : List BlockTreeRecord
  ordered : Ordered BlockTreeRecord.order records
  wellFormed : ∀ record ∈ records, record.WellFormed

namespace CBlockTreeDB

def empty : CBlockTreeDB :=
  ⟨[], List.Pairwise.nil, fun _ h => absurd h List.not_mem_nil⟩

/-- `Write`. -/
def write (db : CBlockTreeDB) (record : BlockTreeRecord) (h : record.WellFormed) : CBlockTreeDB where
  records := upsert BlockTreeRecord.order record db.records
  ordered := db.ordered.upsert record
  wellFormed := fun record' hin => by
    rcases (mem_upsert db.ordered).1 hin with rfl | ⟨hin, -⟩
    · exact h
    · exact db.wellFormed record' hin

/-- The id under which positions are stored: the low 64 bits of a salted hash. -/
def lookupid (H : Crypto) (salt : UInt256) (addrid : UInt160) : UInt64 :=
  UInt64.ofNat (H.hash (leBytes 32 salt.toNat ++ leBytes 20 addrid.toNat)).toNat

variable (H : Crypto) (salt : UInt256)

/-- `AddAddrIndex`, when the batch can be written. -/
def addAddrIndex (db : CBlockTreeDB) (list : List (UInt160 × CExtDiskTxPos)) : CBlockTreeDB :=
  list.foldl (fun db it => db.write (.addrIndex (lookupid H salt it.1) it.2) (BlockTreeRecord.wellFormed_addrIndex _ _)) db

/-- What the loop of `ReadAddrIndex` does with a record; it ends at the first one that is not taken. -/
def takePos (lookupid : UInt64) : BlockTreeRecord → Option CExtDiskTxPos
  | .other _ _ => none
  | .addrIndex lookupid' pos => if lookupid' = lookupid then some pos else none

/-- Where the cursor begins. -/
def startKey (lookupid : UInt64) : List Nat :=
  (cAddrIndex :: leBytes 8 lookupid.toNat).map UInt8.toNat

/-- `ReadAddrIndex`. -/
def readAddrIndex (db : CBlockTreeDB) (addrid : UInt160) : Option (List CExtDiskTxPos) :=
  cursorLoop BlockTreeRecord.order (takePos (lookupid H salt addrid)) db.records (db.records.length + 1)
    fun key => decide (startKey (lookupid H salt addrid) ≤ key)

end CBlockTreeDB

/-! ## What is found -/

theorem leBytes_toNat_inj {a b : UInt64} {x y : Bytes} (h : leBytes 8 a.toNat ++ x = leBytes 8 b.toNat ++ y) :
    a = b ∧ x = y := by
  have hlen : (leBytes 8 a.toNat).length = (leBytes 8 b.toNat).length := by rw [leBytes_length, leBytes_length]
  rcases List.append_inj h hlen with ⟨hbytes, hrest⟩
  exact ⟨UInt64.toNat_inj.1 (leBytes_inj a.toNat_lt b.toNat_lt hbytes), hrest⟩

theorem map_toNat_inj {x y : Bytes} (h : x.map UInt8.toNat = y.map UInt8.toNat) : x = y :=
  List.map_injective_iff.2 (fun _ _ => UInt8.toNat_inj.1) h

namespace BlockTreeRecord

theorem order_inj {record record' : BlockTreeRecord} (h : record.WellFormed) (h' : record'.WellFormed)
    (heq : record.order = record'.order) : record = record' := by
  have hkey := map_toNat_inj heq
  cases record with
  | other cType rest =>
    cases record' with
    | other cType' rest' =>
      rcases List.cons.inj hkey with ⟨rfl, rfl⟩
      rfl
    | addrIndex lookupid' pos' => exact absurd (List.cons.inj hkey).1 h
  | addrIndex lookupid pos =>
    cases record' with
    | other cType' rest' => exact absurd (List.cons.inj hkey).1.symm h'
    | addrIndex lookupid' pos' =>
      rcases leBytes_toNat_inj (List.cons.inj hkey).2 with ⟨rfl, hpos⟩
      rw [CExtDiskTxPos.codec.put_inj pos.codec_fits pos'.codec_fits hpos]

end BlockTreeRecord

namespace CBlockTreeDB

open BlockTreeRecord

variable {H : Crypto} {salt : UInt256} {db : CBlockTreeDB}

theorem mem_write {record record' : BlockTreeRecord} {h : record.WellFormed} :
    record' ∈ (db.write record h).records ↔ record' = record ∨ record' ∈ db.records := by
  refine (mem_upsert db.ordered).trans ⟨fun hcase => hcase.imp_right fun hold => hold.1, fun hcase => ?_⟩
  rcases hcase with rfl | hin
  · exact .inl rfl
  · by_cases heq : record'.order = record.order
    · exact .inl (order_inj (db.wellFormed record' hin) h heq)
    · exact .inr ⟨hin, heq⟩

/-- What has been written stays, and what is added is there. -/
theorem mem_addAddrIndex {list : List (UInt160 × CExtDiskTxPos)} {id : UInt64} {pos : CExtDiskTxPos} :
    .addrIndex id pos ∈ (db.addAddrIndex H salt list).records ↔
      .addrIndex id pos ∈ db.records ∨ ∃ addrid, (addrid, pos) ∈ list ∧ lookupid H salt addrid = id := by
  induction list generalizing db with
  | nil => exact ⟨.inl, fun h => h.resolve_right fun ⟨_, hin, _⟩ => absurd hin List.not_mem_nil⟩
  | cons it list ih =>
    have hstep : db.addAddrIndex H salt (it :: list) =
        (db.write (.addrIndex (lookupid H salt it.1) it.2) (wellFormed_addrIndex _ _)).addAddrIndex H salt list := rfl
    rw [hstep, ih, mem_write, BlockTreeRecord.addrIndex.injEq]
    constructor
    · rintro ((⟨rfl, rfl⟩ | hold) | ⟨addrid, hin, rfl⟩)
      · exact .inr ⟨it.1, List.mem_cons_self, rfl⟩
      · exact .inl hold
      · exact .inr ⟨addrid, List.mem_cons_of_mem _ hin, rfl⟩
    · rintro (hold | ⟨addrid, hin, rfl⟩)
      · exact .inl (.inr hold)
      · rcases List.mem_cons.1 hin with rfl | hin
        · exact .inl (.inl ⟨rfl, rfl⟩)
        · exact .inr ⟨addrid, hin, rfl⟩

theorem takePos_eq_some {id : UInt64} {record : BlockTreeRecord} {pos : CExtDiskTxPos} :
    takePos id record = some pos ↔ record = .addrIndex id pos := by
  cases record with
  | other cType rest => exact ⟨nofun, nofun⟩
  | addrIndex lookupid' pos' =>
    rw [takePos, BlockTreeRecord.addrIndex.injEq]
    split_ifs with heq
    · rw [Option.some.injEq]
      exact ⟨fun h => ⟨heq, h⟩, fun h => h.2⟩
    · exact ⟨nofun, fun h => absurd h.1 heq⟩

/-- Records are taken when their key begins with the id. -/
theorem takePos_isSome_iff {id : UInt64} {record : BlockTreeRecord} (h : record.WellFormed) :
    (takePos id record).isSome ↔ ∃ z, record.order = startKey id ++ z := by
  constructor
  · intro hsome
    rcases Option.isSome_iff_exists.1 hsome with ⟨pos, hpos⟩
    refine ⟨(CExtDiskTxPos.codec.put pos).map UInt8.toNat, ?_⟩
    rw [takePos_eq_some.1 hpos, startKey, ← List.map_append]
    rfl
  · rintro ⟨z, hz⟩
    rcases List.map_eq_append_iff.1 hz with ⟨front, rest, hkey, hfront, -⟩
    have hfront' : front = cAddrIndex :: leBytes 8 id.toNat := map_toNat_inj hfront
    rw [hfront', List.cons_append] at hkey
    cases record with
    | other cType rest' => exact absurd (List.cons.inj hkey).1 h
    | addrIndex lookupid' pos =>
      rcases leBytes_toNat_inj (List.cons.inj hkey).2 with ⟨rfl, -⟩
      rw [takePos, if_pos rfl]
      rfl

theorem selects (db : CBlockTreeDB) (id : UInt64) :
    Selects BlockTreeRecord.order (takePos id) (startKey id) db.records := by
  have hstart : startKey id = startKey id ++ [] := (List.append_nil _).symm
  refine ⟨fun record hin hsome => ?_, fun record hin record' hin' hle hle' hsome => ?_⟩
  · rcases (takePos_isSome_iff (db.wellFormed record hin)).1 hsome with ⟨z, hz⟩
    rw [hz, hstart, List.append_assoc, append_le_append_iff]
    exact not_lt.1 (List.not_lt_nil _)
  · rcases (takePos_isSome_iff (db.wellFormed record' hin')).1 hsome with ⟨z, hz⟩
    rw [hstart] at hle
    rw [hz] at hle'
    exact (takePos_isSome_iff (db.wellFormed record hin)).2 (exists_eq_append hle hle')

/-- The cursor finds the positions that are stored under the id, and only these. -/
theorem readAddrIndex_spec (db : CBlockTreeDB) (H : Crypto) (salt : UInt256) (addrid : UInt160) :
    ∃ list, db.readAddrIndex H salt addrid = some list ∧
      ∀ pos, pos ∈ list ↔ .addrIndex (lookupid H salt addrid) pos ∈ db.records := by
  refine ⟨_, (db.selects _).cursorLoop_eq db.ordered (Nat.lt_succ_self _), fun pos => ?_⟩
  rw [List.mem_filterMap]
  constructor
  · rintro ⟨record, hin, htake⟩
    exact takePos_eq_some.1 htake ▸ hin
  · intro hin
    exact ⟨_, hin, takePos_eq_some.2 rfl⟩

end CBlockTreeDB

end Dobbscoin
