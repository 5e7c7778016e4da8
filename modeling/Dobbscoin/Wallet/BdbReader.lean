import Dobbscoin.Wallet.BdbBounds

/-!
# The reader

What `ReadAll` does on every byte string, and on every file that holds a database.
-/

namespace Dobbscoin

namespace BerkeleyRO

open Traced

/-! ## The opened file -/

theorem Stored.opened_eq {f : BDBFile} {db : Database} (h : Stored f db) : f = opened f.buf := by
  have hsubdb : BDBFile.otherFlags btmSubdb = 0 := by decide
  exact openFile_opened (openFile_complete h.size h.pagesize hsubdb h.outer)

theorem Forest.roots_sub_pages {t : Forest} {p : Nat} (hp : p ∈ t.roots) : p ∈ t.pages := by
  induction t with
  | nil => exact hp
  | leaf pgno pairs rest ih =>
    rcases List.mem_cons.1 hp with rfl | hp
    · exact List.mem_append_right _ List.mem_cons_self
    · exact List.mem_append_left _ (ih hp)
  | node pgno keys children rest _ ih =>
    rcases List.mem_cons.1 hp with rfl | hp
    · exact List.mem_append_right _ List.mem_cons_self
    · exact List.mem_append_left _ (ih hp)

/-- The metadata page of "main" is found. -/
theorem Stored.find {f : BDBFile} {db : Database} (h : Stored f db) :
    (findMainSubdb f (f.metaAt 0)).Returns db.mainPgno := by
  have houterRoot : (f.metaAt 0).root = db.outerRoot := h.outer.root
  rw [findMainSubdb_returns h.pagesize.1, houterRoot]
  exact ⟨db.name, db.pointer, h.outerLeaf, h.name, h.pointer⟩

/-- A file has one "main". -/
theorem Stored.root_unique {f : BDBFile} {db db' : Database} (h : Stored f db) (h' : Stored f db') :
    db.root = db'.root := by
  have hpgno : db.mainPgno = db'.mainPgno := h.find.unique h'.find
  rcases h.main with ⟨_, _, -, hmain⟩
  rcases h'.main with ⟨_, _, -, hmain'⟩
  rw [← hpgno] at hmain'
  exact hmain.root.symm.trans hmain'.root

/-- What is read is a database on pages of its own, when the two databases of the file have roots of their
own. -/
theorem layout_of_returns {buf : Bytes} {m : RecordMap} (hm : (readAll buf).Returns m) {mainPgno : Nat}
    (hfind : (findMainSubdb (opened buf) ((opened buf).metaAt 0)).Returns mainPgno)
    (hroots : ((opened buf).metaAt 0).root ≠ ((opened buf).metaAt mainPgno).root) :
    ∃ db, Layout (opened buf) db ∧ db.tree.KeysOnPage ∧ m = db.records := by
  rcases readAll_sound hm with ⟨f, db, rfl, hstored, hkeys, hpages, ⟨hzero, hmain⟩, houter, hrecords⟩
  rw [← hstored.opened_eq] at hfind hroots ⊢
  have houterRoot : (f.metaAt 0).root = db.outerRoot := hstored.outer.root
  obtain rfl : mainPgno = db.mainPgno := hfind.unique hstored.find
  rcases hstored.main with ⟨_, _, -, hinner⟩
  have hinnerRoot : (f.metaAt db.mainPgno).root = db.root := hinner.root
  have hne : db.outerRoot ≠ db.root := by
    rw [← houterRoot, ← hinnerRoot]
    exact hroots
  -- The leaf page of the outer database is no metadata page.
  have hleaf : ∀ {p last flags root}, MetaIs f p last flags root → p ≠ db.outerRoot := by
    rintro p last flags root hmeta rfl
    rcases hstored.outerLeaf.page with ⟨_, hpage⟩
    exact absurd (hmeta.type.symm.trans hpage.type) (by decide)
  have hmainPgno : 0 ≠ db.mainPgno := by
    intro heq
    rw [← heq] at hroots
    exact hroots rfl
  refine ⟨db, ⟨hstored, ?_⟩, hkeys, hrecords⟩
  simp only [List.nodup_cons, List.mem_cons, not_or]
  exact ⟨⟨hmainPgno, hleaf hstored.outer, hzero⟩, ⟨hleaf hinner, hmain⟩, houter hne, hpages⟩

/-! ## Every byte string, every database -/

/-- A page, as the bytes that are not zero and their offsets. -/
abbrev Page := List (Nat × Bytes)

def Page.byte (page : Page) (i : Nat) : UInt8 :=
  (page.findSome? fun part => if part.1 ≤ i then part.2[i - part.1]? else none).getD 0

def Page.bytes (page : Page) (off n : Nat) : Bytes :=
  (List.range n).map fun k => page.byte (off + k)

/-- The number at `off` of a page. -/
def Page.num (page : Page) (off w : Nat) : Nat :=
  ByteCodec.leNat (page.bytes off w)

/-- The whole page. -/
def Page.all (page : Page) : Bytes :=
  page.bytes 0 512

def headerOf (pgno entries hfOffset level type : Nat) : Page :=
  [(4, ByteCodec.leBytes 4 1), (8, ByteCodec.leBytes 4 pgno), (20, ByteCodec.leBytes 2 entries),
    (22, ByteCodec.leBytes 2 hfOffset), (24, ByteCodec.leBytes 1 level), (25, ByteCodec.leBytes 1 type)]

def metaPage (pgno lastPgno flags root : Nat) : Page :=
  [(4, ByteCodec.leBytes 4 1), (8, ByteCodec.leBytes 4 pgno),
    (12, ByteCodec.leBytes 4 btreeMagic), (16, ByteCodec.leBytes 4 9), (20, ByteCodec.leBytes 4 512),
    (25, ByteCodec.leBytes 1 pBtreeMeta), (32, ByteCodec.leBytes 4 lastPgno),
    (48, ByteCodec.leBytes 4 flags), (88, ByteCodec.leBytes 4 root)]

def keyItem (data : Bytes) : Bytes :=
  ByteCodec.leBytes 2 data.length ++ ByteCodec.leBytes 1 bKeydata ++ data

/-- A leaf page with one pair: the key is at 480, the data at 496. -/
def leafPage (pgno : Nat) (key data : Bytes) : Page :=
  headerOf pgno 2 0 leafLevel pLbtree ++ [(26, ByteCodec.leBytes 2 480),
    (28, ByteCodec.leBytes 2 496), (480, keyItem key), (496, keyItem data)]

/-- An internal page with an item at 440, and one at 480. -/
def internalPage (pgno entries : Nat) (first second : Bytes) : Page :=
  headerOf pgno entries 0 2 pIbtree ++ [(26, ByteCodec.leBytes 2 440),
    (28, ByteCodec.leBytes 2 480), (440, first), (480, second)]

def internalItem (type child : Nat) (key : Bytes) : Bytes :=
  ByteCodec.leBytes 2 key.length ++ ByteCodec.leBytes 2 type ++ ByteCodec.leBytes 4 child ++
    ByteCodec.leBytes 4 0 ++ key

def overflowPage (pgno : Nat) (part : Bytes) : Page :=
  headerOf pgno 1 part.length 0 pOverflow ++ [(26, part)]

def bufOf (pages : List Page) : Bytes :=
  pages.flatMap Page.all

def fileOf (pages : List Page) : BDBFile :=
  ⟨bufOf pages, false, 512⟩

/-- Page `p` of the file has these bytes. -/
structure Reads (f : BDBFile) (p : Nat) (page : Page) : Prop where
  inFile : p < f.numPages
  pagesize : f.pagesize = 512
  num : ∀ {off w}, off + w ≤ 512 → f.num (p * f.pagesize + off) w = page.num off w
  bytes : ∀ {off n}, off + n ≤ 512 →
    f.bytes (p * f.pagesize + off) (p * f.pagesize + off + n) = page.bytes off n

theorem Page.all_length (page : Page) : page.all.length = 512 := by
  rw [all, bytes, List.length_map, List.length_range]

theorem Page.all_drop (page : Page) {off n : Nat} (hin : off + n ≤ 512) :
    (page.all.drop off).take n = page.bytes off n := by
  apply List.ext_getElem
  · rw [List.length_take, List.length_drop, page.all_length, bytes, List.length_map, List.length_range]
    omega
  · intro k _ _
    simp only [all, bytes, List.getElem_take, List.getElem_drop, List.getElem_map, List.getElem_range, Nat.zero_add]

theorem bufOf_length (pages : List Page) : (bufOf pages).length = pages.length * 512 := by
  induction pages with
  | nil => rfl
  | cons page pages ih =>
    rw [bufOf, List.flatMap_cons, List.length_append, page.all_length, ← bufOf, ih, List.length_cons]
    omega

theorem bufOf_drop {pages : List Page} {p : Nat} {page : Page} (hp : pages[p]? = some page) {off n : Nat}
    (hin : off + n ≤ 512) : ((bufOf pages).drop (p * 512 + off)).take n = page.bytes off n := by
  induction pages generalizing p with
  | nil => cases hp
  | cons first pages ih =>
    have hfirst := first.all_length
    rw [bufOf, List.flatMap_cons, ← bufOf]
    cases p with
    | zero =>
      obtain rfl := Option.some.inj hp
      rw [Nat.zero_mul, Nat.zero_add, List.drop_append_of_le_length (by omega), ← first.all_drop hin]
      exact List.take_append_of_le_length (by rw [List.length_drop]; omega)
    | succ p =>
      have hoff : (p + 1) * 512 + off = first.all.length + (p * 512 + off) := by omega
      rw [hoff, List.drop_append]
      rw [List.drop_eq_nil_of_le (Nat.le_add_right _ _), List.nil_append, Nat.add_sub_cancel_left]
      exact ih hp

/-- A byte is a byte of its page. -/
theorem bufOf_getElem? {pages pages' : List Page} {i : Nat} (hpage : pages[i / 512]? = pages'[i / 512]?) :
    (bufOf pages)[i]? = (bufOf pages')[i]? := by
  have hi : i = i / 512 * 512 + i % 512 := (Nat.div_add_mod' i 512).symm
  have hrest : i % 512 + 1 ≤ 512 := Nat.mod_lt i (by decide)
  have hfirst : ∀ l : Bytes, l[i]? = ((l.drop (i / 512 * 512 + i % 512)).take 1)[0]? := by
    intro l
    rw [List.getElem?_take_of_lt Nat.zero_lt_one, List.getElem?_drop, ← hi, Nat.add_zero]
  cases hp : pages[i / 512]? with
  | some page => rw [hfirst, hfirst, bufOf_drop hp hrest, bufOf_drop (hpage ▸ hp) hrest]
  | none =>
    have hout := List.getElem?_eq_none_iff.1 hp
    have hout' := List.getElem?_eq_none_iff.1 (hpage ▸ hp)
    have hlen := bufOf_length pages
    have hlen' := bufOf_length pages'
    rw [List.getElem?_eq_none (by omega), List.getElem?_eq_none (by omega)]

theorem fileOf_buf (pages : List Page) : (fileOf pages).buf = bufOf pages :=
  rfl

theorem fileOf_opened {pages : List Page} {db : Database} (h : Layout (fileOf pages) db) :
    fileOf pages = opened (bufOf pages) :=
  h.opened_eq

theorem fileOf_numPages {pages : List Page} (hcount : pages.length < 2 ^ 32) :
    (fileOf pages).numPages = pages.length := by
  have hsize : (fileOf pages).buf.length = pages.length * 512 := bufOf_length pages
  have hpagesize : (fileOf pages).pagesize = 512 := rfl
  rw [BDBFile.numPages, hpagesize, hsize, if_neg (by decide), Nat.mul_div_cancel _ (by decide)]
  exact Nat.mod_eq_of_lt hcount

theorem fileOf_reads {pages : List Page} (hcount : pages.length < 2 ^ 32) {p : Nat} {page : Page}
    (hp : pages[p]? = some page) : Reads (fileOf pages) p page := by
  have hbytes : ∀ {off n}, off + n ≤ 512 →
      (fileOf pages).bytes (p * 512 + off) (p * 512 + off + n) = page.bytes off n := by
    intro off n hin
    rw [BDBFile.bytes, Nat.add_sub_cancel_left]
    exact bufOf_drop hp hin
  refine ⟨?_, rfl, ?_, hbytes⟩
  · rw [fileOf_numPages hcount]
    exact (List.getElem?_eq_some_iff.1 hp).1
  · intro off w hin
    exact congrArg ByteCodec.leNat (hbytes hin)

section

variable {f : BDBFile} {p : Nat} {page : Page} (h : Reads f p page)
include h

theorem Reads.metaIs {last flags root : Nat}
    (hpage : page.num 8 4 = p ∧ page.num 12 4 = btreeMagic ∧ page.num 16 4 = 9 ∧
      page.num 20 4 = 512 ∧ page.num 24 1 = 0 ∧ page.num 25 1 = pBtreeMeta ∧
      page.num 32 4 = last ∧ page.num 48 4 = flags ∧ page.num 88 4 = root) :
    MetaIs f p last flags root := by
  rcases hpage with ⟨hself, hmagic, hversion, hsize, hcrypt, htype, hlast, hflags, hroot⟩
  exact ⟨h.inFile, (h.num (by decide)).trans hself, (h.num (by decide)).trans hmagic,
    (h.num (by decide)).trans hversion, (h.num (by decide)).trans (hsize.trans h.pagesize.symm),
    (h.num (by decide)).trans hcrypt, (h.num (by decide)).trans htype, (h.num (by decide)).trans hlast,
    (h.num (by decide)).trans hflags, (h.num (by decide)).trans hroot⟩

theorem Reads.pageIs {type level entries : Nat}
    (hpage : page.num 8 4 = p ∧ page.num 20 2 = entries ∧ page.num 24 1 = level ∧
      page.num 25 1 = type) : PageIs f p type level entries :=
  ⟨h.inFile, (h.num (by decide)).trans hpage.1, (h.num (by decide)).trans hpage.2.1,
    (h.num (by decide)).trans hpage.2.2.1, (h.num (by decide)).trans hpage.2.2.2⟩

theorem Reads.indexed {i entries minlen off : Nat} (hoff : page.num (26 + 2 * i) 2 = off)
    (hroom : i < entries ∧ 26 + 2 * entries ≤ off ∧ off + minlen ≤ 512) : Indexed f p entries i minlen off := by
  have hheader : pageHeaderSize = 26 := rfl
  have hsize := h.pagesize
  refine ⟨by omega, ?_, by omega, by omega⟩
  exact (h.num (by omega)).trans hoff

/-- A number inside an item. -/
theorem Reads.item_num {off d w : Nat} (hroom : off + d + w ≤ 512) :
    f.num (p * f.pagesize + off + d) w = page.num (off + d) w := by
  rw [Nat.add_assoc]
  exact h.num hroom

theorem Reads.item_bytes {off d n : Nat} (hroom : off + d + n ≤ 512) :
    f.bytes (p * f.pagesize + off + d) (p * f.pagesize + off + d + n) = page.bytes (off + d) n := by
  rw [Nat.add_assoc _ off d]
  exact h.bytes hroom

/-- A live item of a leaf page. -/
theorem Reads.entryIs {off : Nat} {data : Bytes}
    (hitem : page.num off 2 = data.length ∧ page.num (off + 2) 1 = bKeydata ∧
      page.bytes (off + 3) data.length = data) (hroom : off + 3 + data.length ≤ 512) :
    EntryIs f p off ⟨false, .onPage data⟩ := by
  have hsize := h.pagesize
  refine ⟨(h.num (by omega)).trans hitem.1, ?_, by omega, ?_⟩
  · exact (h.item_num (by omega)).trans hitem.2.1
  · exact (h.item_bytes hroom).trans hitem.2.2

/-- A leaf page with one pair. -/
theorem Reads.leafIs {key data : Bytes}
    (hpage : page.num 8 4 = p ∧ page.num 20 2 = 2 ∧ page.num 24 1 = leafLevel ∧
      page.num 25 1 = pLbtree) (htable : page.num 26 2 = 480 ∧ page.num 28 2 = 496)
    (hkey : page.num 480 2 = key.length ∧ page.num 482 1 = bKeydata ∧
      page.bytes 483 key.length = key)
    (hdata : page.num 496 2 = data.length ∧ page.num 498 1 = bKeydata ∧
      page.bytes 499 data.length = data) (hroom : key.length ≤ 13 ∧ data.length ≤ 13) :
    LeafIs f p [(⟨false, .onPage key⟩, ⟨false, .onPage data⟩)] := by
  have hkeyIs : ∃ off, Indexed f p 2 0 3 off ∧ EntryIs f p off ⟨false, .onPage key⟩ :=
    ⟨480, h.indexed htable.1 (by decide), h.entryIs hkey (by omega)⟩
  have hdataIs : ∃ off, Indexed f p 2 1 3 off ∧ EntryIs f p off ⟨false, .onPage data⟩ :=
    ⟨496, h.indexed htable.2 (by decide), h.entryIs hdata (by omega)⟩
  exact ⟨⟨leafLevel, h.pageIs hpage⟩, .cons hkeyIs (.cons hdataIs .nil)⟩

/-- An item of an internal page, with its key on the page. -/
theorem Reads.internalItemIs {off child : Nat} {key : Bytes}
    (hitem : page.num off 2 = key.length ∧ page.num (off + 2) 1 = bKeydata ∧
      page.num (off + 4) 4 = child ∧ page.bytes (off + 12) key.length = key)
    (hroom : off + 12 + key.length ≤ 512) : InternalItemIs f p off child (.onPage key) := by
  have hsize := h.pagesize
  have hlen : f.num (p * f.pagesize + off) 2 = key.length := (h.num (by omega)).trans hitem.1
  refine ⟨?_, ?_, ?_, hlen, ?_⟩
  · rw [hlen, hsize]
    exact hroom
  · exact (h.item_num (by omega)).trans hitem.2.2.1
  · exact (h.item_num (by omega)).trans hitem.2.1
  · exact (h.item_bytes hroom).trans hitem.2.2.2

/-- An item of an internal page, with its key on one overflow page. -/
theorem Reads.internalItemIs_overflow {off child first : Nat} {key : Bytes}
    (hitem : page.num off 2 = 12 ∧ page.num (off + 2) 1 = bOverflow ∧
      page.num (off + 4) 4 = child ∧ page.num (off + 16) 4 = first ∧
      page.num (off + 20) 4 = key.length) (hroom : off + 24 ≤ 512)
    (hkey : OverflowIs f first key.length [(first, key)]) :
    InternalItemIs f p off child (.chain [(first, key)]) := by
  have hsize := h.pagesize
  have hlen : f.num (p * f.pagesize + off) 2 = 12 := (h.num (by omega)).trans hitem.1
  have hfirst := (h.item_num (by omega)).trans hitem.2.2.2.1
  have htotal := (h.item_num (by omega)).trans hitem.2.2.2.2
  refine ⟨?_, ?_, ?_, hlen, ?_, hkey.nodup, ?_⟩
  · rw [hlen, hsize]
    exact hroom
  · exact (h.item_num (by omega)).trans hitem.2.2.1
  · exact (h.item_num (by omega)).trans hitem.2.1
  · exact hfirst.symm ▸ hkey.chain
  · exact hkey.total.trans htotal.symm

/-- A chain of one overflow page. -/
theorem Reads.overflowIs {part : Bytes}
    (hpage : p ≠ 0 ∧ page.num 8 4 = p ∧ page.num 22 2 = part.length ∧ page.num 24 1 = 0 ∧
      page.num 25 1 = pOverflow ∧ page.bytes 26 part.length = part ∧ page.num 16 4 = 0)
    (hroom : 26 + part.length ≤ 512) : OverflowIs f p part.length [(p, part)] := by
  have hsize := h.pagesize
  rcases hpage with ⟨hne, hself, hlen, hlevel, htype, hpart, hnext⟩
  refine ⟨⟨rfl, hne, h.inFile, (h.num (by decide)).trans hself, (h.num (by decide)).trans hlen,
    (h.num (by decide)).trans hlevel, (h.num (by decide)).trans htype, ?_, ?_, ?_⟩, ?_, ?_⟩
  · rw [hsize]
    exact hroom
  · exact (h.bytes hroom).trans hpart
  · exact (h.num (by decide)).trans hnext
  · exact List.nodup_cons.2 ⟨List.not_mem_nil, List.nodup_nil⟩
  · exact congrArg List.length (List.append_nil part)

end

/-! ## A wallet file -/

/-- Two leaf pages below one internal page, which is given, and an overflow page. -/
def walletPages (internal : Page) : List Page :=
  [metaPage 0 6 btmSubdb 1, leafPage 1 mainName [0, 0, 0, 2], metaPage 2 6 0 3, internal,
    leafPage 4 [107] [1], leafPage 5 [108] [2], overflowPage 6 [108]]

/-- The database of the file, with this tree below page 3. -/
def walletDb (tree : Forest) : Database where
  outerRoot := 1
  name := ⟨false, .onPage mainName⟩
  pointer := ⟨false, .onPage [0, 0, 0, 2]⟩
  mainPgno := 2
  root := 3
  tree := tree

def firstLeaf (rest : Forest) : Forest :=
  .leaf 4 [(⟨false, .onPage [107]⟩, ⟨false, .onPage [1]⟩)] rest

def secondLeaf : Forest :=
  .leaf 5 [(⟨false, .onPage [108]⟩, ⟨false, .onPage [2]⟩)] .nil

/-- The LSN of the page is reset. -/
structure PlainPage (page : Page) : Prop where
  file : page.num 0 4 = 0
  offset : page.num 4 4 = 1

section

variable {internal : Page}

theorem walletPages_plain (hinternal : PlainPage internal) :
    ∀ page ∈ walletPages internal, PlainPage page := by
  simp only [walletPages, List.forall_mem_cons]
  refine ⟨?_, ?_, ?_, hinternal, ?_, ?_, ?_, List.forall_mem_nil _⟩
  all_goals constructor <;> decide

theorem walletPages_reads {p : Nat} {page : Page} (hp : (walletPages internal)[p]? = some page) :
    Reads (fileOf (walletPages internal)) p page :=
  fileOf_reads (by show 7 < 2 ^ 32; decide) hp

theorem walletPages_numPages : (fileOf (walletPages internal)).numPages = 7 :=
  fileOf_numPages (by show 7 < 2 ^ 32; decide)

theorem walletPages_firstLeaf :
    LeafIs (fileOf (walletPages internal)) 4 [(⟨false, .onPage [107]⟩, ⟨false, .onPage [1]⟩)] := by
  apply (walletPages_reads rfl).leafIs <;> decide

theorem walletPages_secondLeaf :
    LeafIs (fileOf (walletPages internal)) 5 [(⟨false, .onPage [108]⟩, ⟨false, .onPage [2]⟩)] := by
  apply (walletPages_reads rfl).leafIs <;> decide

theorem walletPages_firstLeaf_holds {rest : Forest}
    (hrest : rest.Holds (fileOf (walletPages internal)) leafLevel) :
    (firstLeaf rest).Holds (fileOf (walletPages internal)) leafLevel := by
  have hreads : Reads (fileOf (walletPages internal)) 4 (leafPage 4 [107] [1]) :=
    walletPages_reads rfl
  exact ⟨rfl, (hreads.num (by decide)).trans (by decide), walletPages_firstLeaf, hrest⟩

theorem walletPages_secondLeaf_holds : secondLeaf.Holds (fileOf (walletPages internal)) leafLevel := by
  have hreads : Reads (fileOf (walletPages internal)) 5 (leafPage 5 [108] [2]) :=
    walletPages_reads rfl
  exact ⟨rfl, (hreads.num (by decide)).trans (by decide), walletPages_secondLeaf, trivial⟩

theorem walletPages_overflow : OverflowIs (fileOf (walletPages internal)) 6 1 [(6, [108])] := by
  have hreads : Reads (fileOf (walletPages internal)) 6 (overflowPage 6 [108]) :=
    walletPages_reads rfl
  have hover : OverflowIs (fileOf (walletPages internal)) 6 ([108] : Bytes).length [(6, [108])] :=
    hreads.overflowIs (by decide) (by decide)
  exact hover

theorem walletPages_lsns (hinternal : PlainPage internal) {p : Nat}
    (hp : p < (fileOf (walletPages internal)).numPages) :
    (fileOf (walletPages internal)).num (p * 512) 4 = 0 ∧
      (fileOf (walletPages internal)).num (p * 512 + 4) 4 = 1 := by
  have hcount : p < (walletPages internal).length := by
    rw [walletPages_numPages] at hp
    exact hp
  have hp' := List.getElem?_eq_getElem hcount
  generalize (walletPages internal)[p] = page at hp'
  have hreads := walletPages_reads hp'
  have hlsn := walletPages_plain hinternal page (List.mem_of_getElem? hp')
  rw [← hlsn.file, ← hlsn.offset]
  constructor
  · rw [← Nat.add_zero (p * 512)]
    exact hreads.num (by decide)
  · exact hreads.num (by decide)

theorem walletPages_outer : MetaIs (fileOf (walletPages internal)) 0 6 btmSubdb 1 := by
  apply (walletPages_reads rfl).metaIs
  decide

theorem walletPages_main : MetaIs (fileOf (walletPages internal)) 2 6 0 3 := by
  apply (walletPages_reads rfl).metaIs
  decide

theorem walletPages_outerLeaf : LeafIs (fileOf (walletPages internal)) 1
    [(⟨false, .onPage mainName⟩, ⟨false, .onPage [0, 0, 0, 2]⟩)] := by
  apply (walletPages_reads rfl).leafIs <;> decide

theorem walletPages_layout (hinternal : PlainPage internal) {tree : Forest} {level : Nat} (hroots : tree.roots = [3])
    (htree : tree.Holds (fileOf (walletPages internal)) level)
    (hkeys : (tree.records.map Prod.fst).Nodup) (hpages : (0 :: 2 :: 1 :: tree.pages).Nodup) :
    Layout (fileOf (walletPages internal)) (walletDb tree) := by
  refine ⟨⟨?_, ?_, ?_, fun p hp => walletPages_lsns hinternal hp, walletPages_outerLeaf, ⟨rfl, rfl⟩,
    ⟨rfl, rfl, rfl⟩, ⟨6, 0, rfl, walletPages_main⟩, hroots, ⟨level, htree⟩, hkeys⟩, hpages⟩
  · have hcount : (walletPages internal).length = 7 := rfl
    rw [fileOf_buf, bufOf_length, hcount]
    decide
  · show 512 ≤ 512 ∧ 512 ≤ 65536 ∧ 512 &&& 511 = 0
    decide
  · rw [walletPages_numPages]
    exact walletPages_outer

end

/-- The internal page of a two-leaf wallet. -/
def internalOf (entries type : Nat) (key : Bytes) : Page :=
  internalPage 3 entries (internalItem bKeydata 4 []) (internalItem type 5 key)

def wallet : Bytes :=
  bufOf (walletPages (internalOf 2 bKeydata [108]))

def walletTree : Forest :=
  .node 3 [.onPage [], .onPage [108]] (firstLeaf secondLeaf) .nil

theorem wallet_internal : PlainPage (internalOf 2 bKeydata [108]) := by
  constructor <;> decide

/-- Both leaf pages below page 3. -/
theorem twoLeaves_holds {internal : Page} {key : InternalKey}
    (hnode : NodeIs (fileOf (walletPages internal)) 3 2 [(4, .onPage []), (5, key)]) :
    (Forest.node 3 [.onPage [], key] (firstLeaf secondLeaf) .nil).Holds (fileOf (walletPages internal)) 2 :=
  ⟨by decide, rfl, hnode, walletPages_firstLeaf_holds (walletPages_secondLeaf_holds),
    trivial⟩

theorem walletFile_layout : Layout (fileOf (walletPages (internalOf 2 bKeydata [108]))) (walletDb walletTree) := by
  have hreads : Reads (fileOf (walletPages (internalOf 2 bKeydata [108]))) 3 _ :=
    walletPages_reads rfl
  have hfirst : InternalItemIs (fileOf (walletPages (internalOf 2 bKeydata [108]))) 3 440 4 (.onPage []) := by
    apply hreads.internalItemIs <;> decide
  have hsecond :
      InternalItemIs (fileOf (walletPages (internalOf 2 bKeydata [108]))) 3 480 5 (.onPage [108]) := by
    apply hreads.internalItemIs <;> decide
  have hnode : NodeIs (fileOf (walletPages (internalOf 2 bKeydata [108]))) 3 2
      [(4, .onPage []), (5, .onPage [108])] := by
    refine ⟨hreads.pageIs (by decide), .cons ⟨440, ?_, hfirst⟩ (.cons ⟨480, ?_, hsecond⟩ .nil)⟩
    · exact hreads.indexed (by decide) (by decide)
    · exact hreads.indexed (by decide) (by decide)
  exact walletPages_layout wallet_internal rfl (twoLeaves_holds hnode) (by decide) (by decide)

theorem walletTree_keysOnPage : walletTree.KeysOnPage := by
  refine ⟨?_, trivial, trivial⟩
  simp only [List.forall_mem_cons]
  exact ⟨⟨_, rfl⟩, ⟨_, rfl⟩, List.forall_mem_nil _⟩

theorem wallet_layout : ∃ db, Layout (opened wallet) db ∧ db.tree.KeysOnPage ∧
    db.records = [([108], [2]), ([107], [1])] := by
  rw [wallet, ← fileOf_opened walletFile_layout]
  exact ⟨walletDb walletTree, walletFile_layout, walletTree_keysOnPage, rfl⟩

/-- The key of the second item of the internal page is on an overflow page. -/
def longKeyItem : Bytes :=
  ByteCodec.leBytes 4 0 ++ ByteCodec.leBytes 4 6 ++ ByteCodec.leBytes 4 1

def longKey : Bytes :=
  bufOf (walletPages (internalOf 2 bOverflow longKeyItem))

def longKeyTree : Forest :=
  .node 3 [.onPage [], .chain [(6, [108])]] (firstLeaf secondLeaf) .nil

theorem longKey_internal : PlainPage (internalOf 2 bOverflow longKeyItem) := by
  constructor <;> decide

theorem longKey_reads :
    Reads (fileOf (walletPages (internalOf 2 bOverflow longKeyItem))) 3 (internalOf 2 bOverflow longKeyItem) :=
  walletPages_reads rfl

theorem longKey_layout :
    Layout (fileOf (walletPages (internalOf 2 bOverflow longKeyItem))) (walletDb longKeyTree) := by
  have hfirst : InternalItemIs (fileOf (walletPages (internalOf 2 bOverflow longKeyItem))) 3 440 4 (.onPage []) := by
    apply longKey_reads.internalItemIs <;> decide
  have hsecond : InternalItemIs (fileOf (walletPages (internalOf 2 bOverflow longKeyItem))) 3 480 5
      (.chain [(6, [108])]) :=
    longKey_reads.internalItemIs_overflow (by decide) (by decide) (walletPages_overflow)
  have hnode : NodeIs (fileOf (walletPages (internalOf 2 bOverflow longKeyItem))) 3 2
      [(4, .onPage []), (5, .chain [(6, [108])])] := by
    refine ⟨longKey_reads.pageIs (by decide), .cons ⟨440, ?_, hfirst⟩ (.cons ⟨480, ?_, hsecond⟩ .nil)⟩
    · exact longKey_reads.indexed (by decide) (by decide)
    · exact longKey_reads.indexed (by decide) (by decide)
  exact walletPages_layout longKey_internal rfl (twoLeaves_holds hnode) (by decide) (by decide)

/-- No tree with its keys on the page is below an internal page with an overflow key. -/
theorem longKey_not_onPage {tree : Forest} {level : Nat} (hroots : tree.roots = [3])
    (htree : tree.Holds (fileOf (walletPages (internalOf 2 bOverflow longKeyItem))) level) :
    ¬ tree.KeysOnPage := by
  have hpagesize : (fileOf (walletPages (internalOf 2 bOverflow longKeyItem))).pagesize = 512 := rfl
  cases tree with
  | nil => exact absurd hroots (List.cons_ne_nil _ _).symm
  | leaf pgno pairs rest =>
    obtain rfl : pgno = 3 := (List.cons.inj hroots).1
    rcases htree with ⟨-, -, ⟨⟨_, hpage⟩, -⟩, -⟩
    have htype := (longKey_reads.num (by decide)).symm.trans hpage.type
    exact absurd htype (by decide)
  | node pgno keys children rest =>
    obtain rfl : pgno = 3 := (List.cons.inj hroots).1
    rcases htree with ⟨-, -, hnode, -⟩
    rintro ⟨hkeys, -⟩
    have hcount : 2 = (children.roots.zip keys).length := by
      have hentries := (longKey_reads.num (by decide)).symm.trans hnode.page.entries
      have htwo : (internalOf 2 bOverflow longKeyItem).num 20 2 = 2 := by decide
      exact htwo.symm.trans hentries
    -- The second item starts at byte 480, and is no key.
    have hitem := hnode.items.get (i := 1) (by rw [List.length_range]; omega) (by omega)
    simp only [List.get_eq_getElem, List.getElem_range] at hitem
    rcases hitem with ⟨off, hindexed, hitem⟩
    obtain rfl : off = 480 := by
      have hoffset := (longKey_reads.num (by decide)).symm.trans hindexed.offset
      have hpage : (internalOf 2 bOverflow longKeyItem).num (26 + 2 * 1) 2 = 480 := by decide
      exact hoffset.symm.trans hpage
    have hone : 1 < (children.roots.zip keys).length := by omega
    have hmem : (children.roots.zip keys)[1].2 ∈ keys := (List.of_mem_zip (List.getElem_mem hone)).2
    rcases hkeys _ hmem with ⟨data, hkey⟩
    rw [hkey] at hitem
    have htype := (longKey_reads.item_num (by decide)).symm.trans hitem.2.2.1
    exact absurd htype (by decide)

/-- The two databases of the file have one root. -/
def sharedRoot : Bytes :=
  bufOf [metaPage 0 2 btmSubdb 1, leafPage 1 mainName [0, 0, 0, 2], metaPage 2 2 0 1]

end BerkeleyRO

end Dobbscoin
