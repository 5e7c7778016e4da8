import Dobbscoin.Wallet.BdbFile

/-!
# What a Berkeley DB wallet file is

The page format of a file with one subdatabase, independent of the reader: what the bytes of a page must be
for the page to hold given items, and what the pages must be for the file to hold a given database.
-/

namespace Dobbscoin

namespace BerkeleyRO

/-! ## Databases -/

/-- The bytes of a key or of data, and where they are: on the page, on a chain of overflow pages, or, for a
deleted item, on a chain that is no longer there. -/
inductive Datum where
  | onPage (data : Bytes)
  | chain (parts : List (Nat × Bytes))
  | erased (first total : Nat)
  deriving DecidableEq

/-- The bytes of the parts of an overflow chain. -/
def partsData (parts : List (Nat × Bytes)) : Bytes :=
  (parts.map Prod.snd).flatten

def Datum.data : Datum → Bytes
  | .onPage data => data
  | .chain parts => partsData parts
  | .erased _ _ => []

/-- A key or data item of a leaf page. -/
structure Entry where
  deleted : Bool
  datum : Datum
  deriving DecidableEq

/-- What is read of an entry. -/
def Entry.item (e : Entry) : Item :=
  ⟨e.deleted, e.datum.data⟩

/-- The key of an item of an internal page. -/
inductive InternalKey where
  | onPage (data : Bytes)
  | chain (parts : List (Nat × Bytes))
  deriving DecidableEq

abbrev Leaf := Nat × List (Entry × Entry)

/-- Btrees side by side, all of one level: each is a leaf page, or an internal page with the btrees below
it. -/
inductive Forest where
  | nil
  | leaf (pgno : Nat) (pairs : List (Entry × Entry)) (rest : Forest)
  | node (pgno : Nat) (keys : List InternalKey) (children rest : Forest)
  deriving DecidableEq

namespace Forest

def roots : Forest → List Nat
  | nil => []
  | leaf pgno _ rest => pgno :: rest.roots
  | node pgno _ _ rest => pgno :: rest.roots

/-- All pages, the last btree first. -/
def pages : Forest → List Nat
  | nil => []
  | leaf pgno _ rest => rest.pages ++ [pgno]
  | node pgno _ children rest => rest.pages ++ pgno :: children.pages

/-- All leaf pages, the last one first. -/
def leaves : Forest → List Leaf
  | nil => []
  | leaf pgno pairs rest => rest.leaves ++ [(pgno, pairs)]
  | node _ _ children rest => rest.leaves ++ children.leaves

/-- Every key of an internal page is on the page. -/
def KeysOnPage : Forest → Prop
  | nil => True
  | leaf _ _ rest => rest.KeysOnPage
  | node _ keys children rest =>
    (∀ k ∈ keys, ∃ data, k = .onPage data) ∧ children.KeysOnPage ∧ rest.KeysOnPage

end Forest

/-- The live key/data pairs of a leaf page. -/
def liveRecords (pairs : List (Entry × Entry)) : RecordList :=
  (pairs.filter fun p => !p.1.deleted && !p.2.deleted).map fun p => (p.1.datum.data, p.2.datum.data)

def Forest.records (t : Forest) : RecordList :=
  t.leaves.flatMap fun l => liveRecords l.2

/-- A file with one subdatabase. -/
structure Database where
  outerRoot : Nat
  name : Entry
  pointer : Entry
  mainPgno : Nat
  root : Nat
  tree : Forest

/-- The live key/data pairs of the subdatabase. -/
def Database.records (db : Database) : RecordList :=
  db.tree.records

/-! ## Pages -/

section

variable (f : BDBFile)

/-- The page is there and its header says so. -/
structure PageIs (pgno type level entries : Nat) : Prop where
  inFile : pgno < f.numPages
  self : f.num (pgno * f.pagesize + 8) 4 = pgno
  entries : f.num (pgno * f.pagesize + 20) 2 = entries
  level : f.num (pgno * f.pagesize + 24) 1 = level
  type : f.num (pgno * f.pagesize + 25) 1 = type

/-- Item `i` of `entries` starts at `off`, behind the index table, and its first `minlen` bytes are on the
page. -/
structure Indexed (pgno entries i minlen off : Nat) : Prop where
  table : pageHeaderSize + 2 * i + 2 ≤ f.pagesize
  offset : f.num (pgno * f.pagesize + (pageHeaderSize + 2 * i)) 2 = off
  behind : pageHeaderSize + 2 * entries ≤ off
  onPage : off + minlen ≤ f.pagesize

/-- The pages of an overflow chain, from `first` on. -/
def ChainIs : Nat → List (Nat × Bytes) → Prop
  | first, [] => first = 0
  | first, (pgno, part) :: parts =>
    first = pgno ∧ pgno ≠ 0 ∧ pgno < f.numPages ∧
      f.num (pgno * f.pagesize + 8) 4 = pgno ∧
      f.num (pgno * f.pagesize + 22) 2 = part.length ∧
      f.num (pgno * f.pagesize + 24) 1 = 0 ∧
      f.num (pgno * f.pagesize + 25) 1 = pOverflow ∧
      pageHeaderSize + part.length ≤ f.pagesize ∧
      f.bytes (pgno * f.pagesize + pageHeaderSize)
        (pgno * f.pagesize + pageHeaderSize + part.length) = part ∧
      ChainIs (f.num (pgno * f.pagesize + 16) 4) parts

/-- An overflow chain of given total length, with no page in it twice. -/
structure OverflowIs (first total : Nat) (parts : List (Nat × Bytes)) : Prop where
  chain : ChainIs f first parts
  nodup : (parts.map Prod.fst).Nodup
  total : (partsData parts).length = total

/-- The item at `off` of page `pgno`. -/
def EntryIs (pgno off : Nat) (e : Entry) : Prop :=
  let start := pgno * f.pagesize + off
  match e.datum with
  | .onPage data =>
    f.num start 2 = data.length ∧ f.num (start + 2) 1 = bKeydata + (if e.deleted then bDelete else 0) ∧
      off + 3 + data.length ≤ f.pagesize ∧ f.bytes (start + 3) (start + 3 + data.length) = data
  | .chain parts =>
    e.deleted = false ∧ f.num (start + 2) 1 = bOverflow ∧ off + 12 ≤ f.pagesize ∧
      OverflowIs f (f.num (start + 4) 4) (f.num (start + 8) 4) parts
  | .erased first total =>
    e.deleted = true ∧ f.num (start + 2) 1 = bOverflow + bDelete ∧ off + 12 ≤ f.pagesize ∧
      f.num (start + 4) 4 = first ∧ f.num (start + 8) 4 = total

/-- The items of a pair, key first. -/
def flatPairs (pairs : List (Entry × Entry)) : List Entry :=
  pairs.flatMap fun p => [p.1, p.2]

/-- A leaf page with these items. -/
structure LeafIs (pgno : Nat) (pairs : List (Entry × Entry)) : Prop where
  page : ∃ level, PageIs f pgno pLbtree level (flatPairs pairs).length
  items : List.Forall₂ (fun i e => ∃ off, Indexed f pgno (flatPairs pairs).length i 3 off ∧
    EntryIs f pgno off e) (List.range (flatPairs pairs).length) (flatPairs pairs)

/-- The item at `off` of the internal page `pgno`: a key, and the page below it. -/
def InternalItemIs (pgno off child : Nat) (key : InternalKey) : Prop :=
  let start := pgno * f.pagesize + off
  off + 12 + f.num start 2 ≤ f.pagesize ∧ f.num (start + 4) 4 = child ∧
    match key with
    | .onPage data =>
      f.num (start + 2) 1 = bKeydata ∧ f.num start 2 = data.length ∧
        f.bytes (start + 12) (start + 12 + data.length) = data
    | .chain parts =>
      f.num (start + 2) 1 = bOverflow ∧ f.num start 2 = 12 ∧
        OverflowIs f (f.num (start + 16) 4) (f.num (start + 20) 4) parts

/-- An internal page with these items. -/
structure NodeIs (pgno level : Nat) (items : List (Nat × InternalKey)) : Prop where
  page : PageIs f pgno pIbtree level items.length
  items : List.Forall₂ (fun i c => ∃ off, Indexed f pgno items.length i 12 off ∧
    InternalItemIs f pgno off c.1 c.2) (List.range items.length) items

/-- The pages hold the btrees, which are all of this level. -/
def Forest.Holds : Nat → Forest → Prop
  | _, nil => True
  | level, leaf pgno pairs rest =>
    level = leafLevel ∧ f.num (pgno * f.pagesize + 24) 1 = leafLevel ∧ LeafIs f pgno pairs ∧
      Holds level rest
  | level, node pgno keys children rest =>
    leafLevel < level ∧ keys.length = children.roots.length ∧
      NodeIs f pgno level (children.roots.zip keys) ∧ Holds (level - 1) children ∧ Holds level rest

/-- A btree metadata page. -/
structure MetaIs (pgno lastPgno flags root : Nat) : Prop where
  inFile : pgno < f.numPages
  self : f.num (pgno * f.pagesize + 8) 4 = pgno
  magic : f.num (pgno * f.pagesize + 12) 4 = btreeMagic
  version : f.num (pgno * f.pagesize + 16) 4 = 9
  pagesize : f.num (pgno * f.pagesize + 20) 4 = f.pagesize
  encryptAlg : f.num (pgno * f.pagesize + 24) 1 = 0
  type : f.num (pgno * f.pagesize + 25) 1 = pBtreeMeta
  lastPgno : f.num (pgno * f.pagesize + 32) 4 = lastPgno
  flags : f.num (pgno * f.pagesize + 48) 4 = flags
  root : f.num (pgno * f.pagesize + 88) 4 = root

/-- The pages hold the database; whether they are different pages is not said. -/
structure Stored (db : Database) : Prop where
  size : 512 ≤ f.buf.length
  pagesize : 512 ≤ f.pagesize ∧ f.pagesize ≤ 65536 ∧ f.pagesize &&& (f.pagesize - 1) = 0
  outer : MetaIs f 0 (f.numPages - 1) btmSubdb db.outerRoot
  lsns : ∀ p < f.numPages, f.num (p * f.pagesize) 4 = 0 ∧ f.num (p * f.pagesize + 4) 4 = 1
  outerLeaf : LeafIs f db.outerRoot [(db.name, db.pointer)]
  name : db.name.deleted = false ∧ db.name.datum.data = mainName
  pointer : db.pointer.deleted = false ∧ db.pointer.datum.data.length = 4 ∧
    ByteCodec.leNat db.pointer.datum.data.reverse = db.mainPgno
  main : ∃ last flags, BDBFile.otherFlags flags = 0 ∧ MetaIs f db.mainPgno last flags db.root
  root : db.tree.roots = [db.root]
  tree : ∃ level, db.tree.Holds f level
  keys : (db.records.map Prod.fst).Nodup

/-- The file holds the database, each part of it on its own page. -/
structure Layout (db : Database) : Prop extends Stored f db where
  distinct : (0 :: db.mainPgno :: db.outerRoot :: db.tree.pages).Nodup

end

end BerkeleyRO

end Dobbscoin
