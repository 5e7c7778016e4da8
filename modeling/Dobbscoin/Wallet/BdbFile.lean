import Dobbscoin.Lib.ByteCodec
import Dobbscoin.Lib.Traced

/-!
# Reading a Berkeley DB file

The read-only btree parser of `bdbro.cpp`.  A run leaves a trace of where in the buffer it has looked, which
bytes of which page it has copied, and which pages it has decoded.
-/

namespace Dobbscoin

namespace BerkeleyRO

open Traced

/-- Why a run ends early: a `runtime_error`, or a loop that has not come to its end. -/
inductive Stop where
  | thrown (what : String)
  | outOfFuel
  deriving DecidableEq

inductive Access where
  | read (lo hi : Nat)
  | copy (pgno lo hi : Nat)
  | expand (pgno : Nat)
  deriving DecidableEq

abbrev ReadM := Traced Access Stop

def throwIf (c : Prop) [Decidable c] (what : String) : ReadM Unit :=
  failIf c (.thrown what)

/-! ## Constants -/

/-- `BTREE_MAGIC`, and the same number written by a machine of the other byte order. -/
def btreeMagic : Nat := 0x00053162

def btreeMagicOe : Nat := 0x62310500

def pIbtree : Nat := 3

def pLbtree : Nat := 5

def pOverflow : Nat := 7

def pBtreeMeta : Nat := 9

def bKeydata : Nat := 1

def bOverflow : Nat := 3

/-- The high bit of the type of an item. -/
def bDelete : Nat := 0x80

/-- `BTM_SUBDB`. -/
def btmSubdb : Nat := 0x20

def pageHeaderSize : Nat := 26

def leafLevel : Nat := 1

/-! ## The buffer -/

structure BDBFile where
  buf : Bytes
  otherEndian : Bool
  pagesize : Nat

structure Meta where
  pgno : Nat
  magic : Nat
  version : Nat
  pagesize : Nat
  encryptAlg : Nat
  type : Nat
  lastPgno : Nat
  flags : Nat
  root : Nat

structure PageHeader where
  lsnFile : Nat
  lsnOffset : Nat
  pgno : Nat
  prevPgno : Nat
  nextPgno : Nat
  entries : Nat
  hfOffset : Nat
  level : Nat
  type : Nat

structure Item where
  deleted : Bool
  data : Bytes
  deriving DecidableEq

abbrev RecordList := List (Bytes × Bytes)

/-- The map, with its records in the order they came. -/
abbrev RecordMap := List (Bytes × Bytes)

/-- `RecordMap::insert`; a key that is there already is not inserted. -/
def RecordMap.insert (records : RecordMap) (r : Bytes × Bytes) : Option RecordMap :=
  if r.1 ∈ records.map Prod.fst then none else some (records ++ [r])

namespace BDBFile

/-- The bytes from `lo` to `hi`. -/
def bytes (f : BDBFile) (lo hi : Nat) : Bytes :=
  (f.buf.drop lo).take (hi - lo)

/-- The number in the `w` bytes at `off`, in the byte order of the file. -/
def num (f : BDBFile) (off w : Nat) : Nat :=
  ByteCodec.leNat (if f.otherEndian then (f.bytes off (off + w)).reverse else f.bytes off (off + w))

/-- `NumPages`, a `uint32_t`. -/
def numPages (f : BDBFile) : Nat :=
  if f.pagesize = 0 then 0 else f.buf.length / f.pagesize % 2 ^ 32

/-- `Get8`, `Get16` and `Get32`. -/
def get (f : BDBFile) (w off : Nat) : ReadM Nat := do
  throwIf (f.buf.length < off + w) "read past end of file"
  emit (.read off (off + w))
  pure (f.num off w)

def get8 (f : BDBFile) (off : Nat) : ReadM Nat :=
  f.get 1 off

def get16 (f : BDBFile) (off : Nat) : ReadM Nat :=
  f.get 2 off

def get32 (f : BDBFile) (off : Nat) : ReadM Nat :=
  f.get 4 off

/-- Bytes of a page, through iterators that are not checked. -/
def copy (f : BDBFile) (pgno lo hi : Nat) : ReadM Bytes := do
  emit (.copy pgno lo hi)
  pure (f.bytes lo hi)

def pageOffset (f : BDBFile) (pgno : Nat) : ReadM Nat := do
  throwIf (f.numPages ≤ pgno) s!"page {pgno} is past the end of the file"
  pure (pgno * f.pagesize)

/-- All flags but `BTM_SUBDB`. -/
def otherFlags (flags : Nat) : Nat :=
  flags &&& (0xffffffff ^^^ btmSubdb)

def hex (n : Nat) : String :=
  String.ofList (Nat.toDigits 16 n)

def readMeta (f : BDBFile) (pgno : Nat) : ReadM Meta := do
  let base ← f.pageOffset pgno
  let mPgno ← f.get32 (base + 8)
  let magic ← f.get32 (base + 12)
  let version ← f.get32 (base + 16)
  let pagesize ← f.get32 (base + 20)
  let encryptAlg ← f.get8 (base + 24)
  let type ← f.get8 (base + 25)
  let lastPgno ← f.get32 (base + 32)
  let flags ← f.get32 (base + 48)
  let root ← f.get32 (base + 88)
  throwIf (mPgno ≠ pgno) s!"metadata page {pgno} claims to be page {mPgno}"
  throwIf (magic ≠ btreeMagic) "not a Berkeley DB btree file"
  throwIf (version ≠ 9) s!"unsupported Berkeley DB btree version {version} (expected 9)"
  throwIf (pagesize ≠ f.pagesize) "page size differs between metadata pages"
  throwIf (type ≠ pBtreeMeta) s!"page {pgno} is not a btree metadata page"
  throwIf (encryptAlg ≠ 0) "Berkeley DB built-in encryption is not supported"
  throwIf (otherFlags flags ≠ 0) s!"unsupported btree flags 0x{hex flags}"
  pure ⟨mPgno, magic, version, pagesize, encryptAlg, type, lastPgno, flags, root⟩

def readHeader (f : BDBFile) (pgno : Nat) : ReadM PageHeader := do
  let base ← f.pageOffset pgno
  let lsnFile ← f.get32 base
  let lsnOffset ← f.get32 (base + 4)
  let hPgno ← f.get32 (base + 8)
  let prevPgno ← f.get32 (base + 12)
  let nextPgno ← f.get32 (base + 16)
  let entries ← f.get16 (base + 20)
  let hfOffset ← f.get16 (base + 22)
  let level ← f.get8 (base + 24)
  let type ← f.get8 (base + 25)
  throwIf (hPgno ≠ pgno) s!"page {pgno} claims to be page {hPgno}"
  pure ⟨lsnFile, lsnOffset, hPgno, prevPgno, nextPgno, entries, hfOffset, level, type⟩

/-- Offset (from page start) of item `i`, checked to lie inside the page. -/
def itemOffset (f : BDBFile) (pgno : Nat) (h : PageHeader) (i minlen : Nat) : ReadM Nat := do
  let base ← f.pageOffset pgno
  let idxpos := pageHeaderSize + 2 * i
  throwIf (f.pagesize < idxpos + 2) s!"page {pgno}: index table overflows the page"
  let off ← f.get16 (base + idxpos)
  throwIf (off < pageHeaderSize + 2 * h.entries ∨ f.pagesize < off + minlen)
    s!"page {pgno}: item {i} lies outside the page"
  pure off

/-! ## Items -/

/-- The loop of `ReadOverflow`. -/
def readOverflowLoop (f : BDBFile) (totalLen : Nat) :
    Nat → List Nat → Bytes → Nat → ReadM Bytes
  | 0, _, _, _ => Traced.fail .outOfFuel
  | fuel + 1, seen, out, pgno =>
    if pgno = 0 then pure out
    else do
      throwIf (pgno ∈ seen) s!"overflow chain loops at page {pgno}"
      let h ← f.readHeader pgno
      throwIf (h.type ≠ pOverflow ∨ h.level ≠ 0) s!"page {pgno} should be an overflow page"
      throwIf (f.pagesize < pageHeaderSize + h.hfOffset)
        s!"overflow page {pgno} holds more than a page"
      let base ← f.pageOffset pgno
      let part ← f.copy pgno (base + pageHeaderSize) (base + pageHeaderSize + h.hfOffset)
      throwIf (totalLen < (out ++ part).length) "overflow chain is longer than its item"
      readOverflowLoop f totalLen fuel (pgno :: seen) (out ++ part) h.nextPgno

def readOverflow (f : BDBFile) (first totalLen : Nat) : ReadM Bytes := do
  let out ← f.readOverflowLoop totalLen (f.numPages + 1) [] [] first
  throwIf (out.length ≠ totalLen) s!"overflow item is {totalLen} bytes, chain holds {out.length}"
  pure out

/-- Item `i` of a leaf page. -/
def readLeafItem (f : BDBFile) (pgno : Nat) (h : PageHeader) (i : Nat) : ReadM Item := do
  let base ← f.pageOffset pgno
  let off ← f.itemOffset pgno h i 3
  let len ← f.get16 (base + off)
  let flagged ← f.get8 (base + off + 2)
  let deleted := decide (bDelete ≤ flagged)
  let type := flagged % bDelete
  if type = bKeydata then do
    throwIf (f.pagesize < off + 3 + len) s!"page {pgno}: item {i} runs off the page"
    let data ← f.copy pgno (base + off + 3) (base + off + 3 + len)
    pure ⟨deleted, data⟩
  else if type = bOverflow then do
    throwIf (f.pagesize < off + 12) s!"page {pgno}: overflow item {i} runs off the page"
    let first ← f.get32 (base + off + 4)
    let total ← f.get32 (base + off + 8)
    if deleted then pure ⟨deleted, []⟩
    else do
      let data ← f.readOverflow first total
      pure ⟨deleted, data⟩
  else Traced.fail (.thrown s!"page {pgno}: unsupported item type {type}")

/-- All items of a leaf page, in index order. -/
def readLeafItems (f : BDBFile) (pgno : Nat) (h : PageHeader) : ReadM (List Item) :=
  collect (f.readLeafItem pgno h) (List.range h.entries)

/-- The child page number of item `i` of an internal page. -/
def readInternalChild (f : BDBFile) (pgno base : Nat) (h : PageHeader) (i : Nat) : ReadM Nat := do
  let off ← f.itemOffset pgno h i 12
  let len ← f.get16 (base + off)
  let type ← f.get8 (base + off + 2)
  throwIf (type % bDelete ≠ bKeydata) s!"page {pgno}: unsupported internal item type {type}"
  throwIf (f.pagesize < off + 12 + len) s!"page {pgno}: internal item {i} runs off the page"
  throwIf (bDelete ≤ type) s!"page {pgno}: internal item {i} is marked deleted"
  f.get32 (base + off + 4)

/-- Child page numbers of an internal page. -/
def readInternalChildren (f : BDBFile) (pgno : Nat) (h : PageHeader) : ReadM (List Nat) := do
  emit (.expand pgno)
  let base ← f.pageOffset pgno
  collect (f.readInternalChild pgno base h) (List.range h.entries)

end BDBFile

/-! ## Pages -/

/-- The items two by two; none when one is left over. -/
def pairUp : List Item → Option (List (Item × Item))
  | [] => some []
  | [_] => none
  | k :: v :: items => (pairUp items).map ((k, v) :: ·)

/-- Pairs with a deleted half are dropped. -/
def livePairs (pairs : List (Item × Item)) : RecordList :=
  (pairs.filter fun p => !p.1.deleted && !p.2.deleted).map fun p => (p.1.data, p.2.data)

/-- Decode one leaf page into key/value pairs. -/
def leafPairs (f : BDBFile) (pgno : Nat) (h : PageHeader) : ReadM RecordList := do
  emit (.expand pgno)
  let items ← f.readLeafItems pgno h
  match pairUp items with
  | none => Traced.fail (.thrown s!"page {pgno}: odd number of items on a leaf page")
  | some pairs => pure (livePairs pairs)

/-- Open the file and validate the outer metadata page. -/
def openFile (buf : Bytes) : ReadM (BDBFile × Meta) := do
  throwIf (buf.length < 512) "file is too small to be a Berkeley DB database"
  -- Endianness comes from the magic, the page size from the first page.
  emit (.read 12 16)
  let magic := ByteCodec.leNat ((buf.drop 12).take 4)
  throwIf (magic ≠ btreeMagic ∧ magic ≠ btreeMagicOe) "not a Berkeley DB btree file"
  let otherEndian := decide (magic ≠ btreeMagic)
  let pagesize ← ({ buf, otherEndian, pagesize := 0 } : BDBFile).get32 20
  throwIf (pagesize < 512 ∨ 65536 < pagesize ∨ pagesize &&& (pagesize - 1) ≠ 0)
    s!"bad page size {pagesize}"
  let f : BDBFile := { buf, otherEndian, pagesize }
  let outer ← f.readMeta 0
  pure (f, outer)

/-- `"main"`. -/
def mainName : Bytes := [109, 97, 105, 110]

/-- Page number of the "main" subdatabase's metadata page, from the outer root leaf. -/
def findMainSubdb (f : BDBFile) (outer : Meta) : ReadM Nat := do
  let h ← f.readHeader outer.root
  throwIf (h.type ≠ pLbtree) "outer database root is not a leaf page"
  throwIf (h.entries ≠ 2) "outer database should hold exactly one subdatabase"
  let pairs ← leafPairs f outer.root h
  match pairs with
  | [(name, v)] => do
    throwIf (name ≠ mainName) "subdatabase is not called \"main\""
    throwIf (v.length ≠ 4) "subdatabase page number has an unexpected length"
    -- always big-endian
    pure (ByteCodec.leNat v.reverse)
  | _ => Traced.fail (.thrown "subdatabase is not called \"main\"")

/-! ## The walk -/

def notClosedCleanly : String :=
  "the file was not closed cleanly by the Berkeley DB version that wrote it " ++
    "(page LSNs are not reset); start that version once, shut it down normally, then try again"

/-- The loop over the page LSNs; its counter is a `uint32_t`. -/
def checkLsns (f : BDBFile) (lastPgno : Nat) : Nat → Nat → ReadM Unit
  | 0, _ => Traced.fail .outOfFuel
  | fuel + 1, i =>
    if i ≤ lastPgno then do
      let base ← f.pageOffset i
      let lsnFile ← f.get32 base
      throwIf (lsnFile ≠ 0) notClosedCleanly
      let lsnOffset ← f.get32 (base + 4)
      throwIf (lsnOffset ≠ 1) notClosedCleanly
      checkLsns f lastPgno fuel ((i + 1) % 2 ^ 32)
    else pure ()

def insertAll (records : RecordMap) : RecordList → ReadM RecordMap
  | [] => pure records
  | r :: pairs =>
    match records.insert r with
    | none => Traced.fail (.thrown "duplicate key in database")
    | some records => insertAll records pairs

/-- The loop over the stack, whose entries are a page and its expected level (-1: any).  The head of the
list is the top of the stack. -/
def walk (f : BDBFile) : Nat → List Nat → List (Nat × Int) → RecordMap → ReadM RecordMap
  | 0, _, _, _ => Traced.fail .outOfFuel
  | _ + 1, _, [], records => pure records
  | fuel + 1, visited, (pgno, expectedLevel) :: stack, records => do
    throwIf (pgno ∈ visited) s!"page {pgno} is referenced twice"
    let h ← f.readHeader pgno
    throwIf (0 ≤ expectedLevel ∧ (h.level : Int) ≠ expectedLevel)
      s!"page {pgno} has btree level {h.level}, expected {expectedLevel}"
    if h.type = pIbtree then do
      throwIf (h.level ≤ leafLevel) s!"internal page {pgno} has leaf level"
      let children ← f.readInternalChildren pgno h
      walk f fuel (pgno :: visited)
        ((children.map fun c => (c, (h.level : Int) - 1)).reverse ++ stack) records
    else if h.type = pLbtree then do
      throwIf (h.level ≠ leafLevel) s!"leaf page {pgno} has level {h.level}"
      let pairs ← leafPairs f pgno h
      let records ← insertAll records pairs
      walk f fuel (pgno :: visited) stack records
    else Traced.fail (.thrown s!"page {pgno} has unexpected type {h.type} inside the btree")

/-- The pages of the outer database; its root is left out when it is the root of "main" as well. -/
def outerPages (outer inner : Meta) (mainPgno : Nat) : List Nat :=
  if outer.root ≠ inner.root then [outer.root, mainPgno, 0] else [mainPgno, 0]

def readAll (buf : Bytes) : ReadM RecordMap := do
  let (f, outer) ← openFile buf
  -- Only whole pages are counted.
  throwIf (outer.lastPgno ≠ (f.numPages + (2 ^ 32 - 1)) % 2 ^ 32)
    s!"file holds {f.numPages} pages but the metadata says {(outer.lastPgno + 1) % 2 ^ 32} (truncated or extended?)"
  throwIf (outer.flags ≠ btmSubdb) "file has no subdatabases (not a wallet written by CDB)"
  checkLsns f outer.lastPgno (outer.lastPgno + 2) 0
  let mainPgno ← findMainSubdb f outer
  throwIf (outer.lastPgno < mainPgno) "subdatabase metadata page is past the end of the file"
  let inner ← f.readMeta mainPgno
  walk f (f.numPages + 1) (outerPages outer inner mainPgno) [(inner.root, -1)] []

end BerkeleyRO

end Dobbscoin
