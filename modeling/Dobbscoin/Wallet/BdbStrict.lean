import Mathlib.Data.List.Nodup
import Mathlib.Data.List.Pairwise
import Dobbscoin.Wallet.BdbReader

/-!
# Damaged internal pages

What `ReadAll` makes of a wallet file whose internal btree pages have been written over.
-/

namespace Dobbscoin

namespace BerkeleyRO

open Traced

/-! ## Damage -/

/-- A page of the file that is not an internal btree page. -/
def BDBFile.Outside (f : BDBFile) (p : Nat) : Prop :=
  p < f.numPages ∧ f.num (p * f.pagesize + 25) 1 ≠ pIbtree

def BDBFile.withBuf (f : BDBFile) (buf : Bytes) : BDBFile :=
  { f with buf }

/-- Only bytes of internal btree pages differ. -/
structure InternalDamage (f : BDBFile) (buf : Bytes) : Prop where
  length : buf.length = f.buf.length
  elsewhere : ∀ i, (i / f.pagesize < f.numPages →
    f.num (i / f.pagesize * f.pagesize + 25) 1 ≠ pIbtree) → buf[i]? = f.buf[i]?

section

variable {f : BDBFile} {buf : Bytes} (h : InternalDamage f buf)
include h

theorem InternalDamage.numPages_eq : (f.withBuf buf).numPages = f.numPages := by
  unfold BDBFile.numPages BDBFile.withBuf
  rw [h.length]

/-- Bytes of a page that is not internal. -/
theorem InternalDamage.bytes_eq {p lo hi : Nat} (hp : f.Outside p) (hlo : p * f.pagesize ≤ lo)
    (hhi : hi ≤ p * f.pagesize + f.pagesize) : (f.withBuf buf).bytes lo hi = f.bytes lo hi := by
  unfold BDBFile.bytes
  apply List.ext_getElem?
  intro k
  by_cases hk : k < hi - lo
  · have hpage : (lo + k) / f.pagesize = p := by
      apply Nat.div_eq_of_lt_le (Nat.le_add_right_of_le hlo)
      have hnext : (p + 1) * f.pagesize = p * f.pagesize + f.pagesize := Nat.succ_mul p f.pagesize
      omega
    rw [List.getElem?_take_of_lt hk, List.getElem?_take_of_lt hk, List.getElem?_drop, List.getElem?_drop]
    apply h.elsewhere
    rw [hpage]
    exact fun _ => hp.2
  · rw [List.getElem?_take_eq_none (Nat.not_lt.1 hk), List.getElem?_take_eq_none (Nat.not_lt.1 hk)]

theorem InternalDamage.num_eq {p off w : Nat} (hp : f.Outside p) (hlo : p * f.pagesize ≤ off)
    (hhi : off + w ≤ p * f.pagesize + f.pagesize) : (f.withBuf buf).num off w = f.num off w := by
  have hbytes := h.bytes_eq hp hlo hhi
  have hendian : (f.withBuf buf).otherEndian = f.otherEndian := rfl
  unfold BDBFile.num
  rw [hbytes, hendian]

variable (hps : 512 ≤ f.pagesize)
include hps

theorem InternalDamage.metaIs {p last flags root : Nat} (hmeta : MetaIs f p last flags root) :
    MetaIs (f.withBuf buf) p last flags root := by
  have hp : f.Outside p := by
    refine ⟨hmeta.inFile, ?_⟩
    rw [hmeta.type]
    decide
  have hsame : ∀ {off w}, off + w ≤ 92 → (f.withBuf buf).num (p * f.pagesize + off) w =
      f.num (p * f.pagesize + off) w := fun hoff => h.num_eq hp (by omega) (by omega)
  rcases hmeta with ⟨hin, hself, hmagic, hversion, hpagesize, hcrypt, htype, hlast, hflags, hroot⟩
  have hpagesize' : (f.withBuf buf).pagesize = f.pagesize := rfl
  refine ⟨h.numPages_eq.symm ▸ hin, ?_, ?_, ?_, ?_, ?_, ?_, ?_, ?_, ?_⟩
  · exact (hsame (by decide)).trans hself
  · exact (hsame (by decide)).trans hmagic
  · exact (hsame (by decide)).trans hversion
  · exact (hsame (by decide)).trans hpagesize
  · exact (hsame (by decide)).trans hcrypt
  · exact (hsame (by decide)).trans htype
  · exact (hsame (by decide)).trans hlast
  · exact (hsame (by decide)).trans hflags
  · exact (hsame (by decide)).trans hroot

theorem InternalDamage.chainIs {first : Nat} {parts : List (Nat × Bytes)} (hchain : ChainIs f first parts) :
    ChainIs (f.withBuf buf) first parts := by
  induction parts generalizing first with
  | nil => exact hchain
  | cons part parts ih =>
    rcases part with ⟨pgno, data⟩
    rcases hchain with ⟨hfirst, hne, hin, hself, hlen, hlevel, htype, hfits, hdata, hrest⟩
    have hp : f.Outside pgno := by
      refine ⟨hin, ?_⟩
      rw [htype]
      decide
    have hsame : ∀ {off w}, off + w ≤ 26 → (f.withBuf buf).num (pgno * f.pagesize + off) w =
        f.num (pgno * f.pagesize + off) w := fun hoff => h.num_eq hp (by omega) (by omega)
    have hnext : (f.withBuf buf).num (pgno * f.pagesize + 16) 4 = f.num (pgno * f.pagesize + 16) 4 :=
      hsame (by decide)
    refine ⟨hfirst, hne, h.numPages_eq.symm ▸ hin, (hsame (by decide)).trans hself,
      (hsame (by decide)).trans hlen, (hsame (by decide)).trans hlevel,
      (hsame (by decide)).trans htype, hfits, ?_, ?_⟩
    · have hbytes : (f.withBuf buf).bytes (pgno * f.pagesize + pageHeaderSize)
          (pgno * f.pagesize + pageHeaderSize + data.length) = f.bytes (pgno * f.pagesize + pageHeaderSize)
            (pgno * f.pagesize + pageHeaderSize + data.length) := h.bytes_eq hp (by omega) (by omega)
      exact hbytes.trans hdata
    · have hpagesize : (f.withBuf buf).pagesize = f.pagesize := rfl
      rw [hpagesize, hnext]
      exact ih hrest

theorem InternalDamage.entryIs {p off : Nat} {e : Entry} (hp : f.Outside p) (hoff : off + 3 ≤ f.pagesize)
    (he : EntryIs f p off e) : EntryIs (f.withBuf buf) p off e := by
  have hsame : ∀ {d w}, off + d + w ≤ f.pagesize → (f.withBuf buf).num (p * f.pagesize + off + d) w =
      f.num (p * f.pagesize + off + d) w := fun hd => h.num_eq hp (by omega) (by omega)
  rcases e with ⟨deleted, datum⟩
  cases datum with
  | onPage data =>
    rcases he with ⟨hlen, htype, hfits, hdata⟩
    have hlen' := hsame (d := 0) (w := 2) (by omega)
    have hbytes : (f.withBuf buf).bytes (p * f.pagesize + off + 3) (p * f.pagesize + off + 3 + data.length) =
        f.bytes (p * f.pagesize + off + 3) (p * f.pagesize + off + 3 + data.length) :=
      h.bytes_eq hp (by omega) (by omega)
    exact ⟨hlen'.trans hlen, (hsame (by omega)).trans htype, hfits, hbytes.trans hdata⟩
  | chain parts =>
    rcases he with ⟨hlive, htype, hfits, hover⟩
    have hfirst := hsame (d := 4) (w := 4) (by omega)
    have htotal := hsame (d := 8) (w := 4) (by omega)
    refine ⟨hlive, (hsame (by omega)).trans htype, hfits, ?_, hover.nodup, ?_⟩
    · exact hfirst.symm ▸ h.chainIs hps hover.chain
    · exact hover.total.trans htotal.symm
  | erased first total =>
    rcases he with ⟨hdeleted, htype, hfits, hfirst, htotal⟩
    exact ⟨hdeleted, (hsame (by omega)).trans htype, hfits, (hsame (by omega)).trans hfirst,
      (hsame (by omega)).trans htotal⟩

theorem InternalDamage.leafIs {p : Nat} {pairs : List (Entry × Entry)} (hleaf : LeafIs f p pairs) :
    LeafIs (f.withBuf buf) p pairs := by
  rcases hleaf with ⟨⟨level, hpage⟩, hitems⟩
  have hp : f.Outside p := by
    refine ⟨hpage.inFile, ?_⟩
    rw [hpage.type]
    decide
  have hsame : ∀ {off w}, off + w ≤ f.pagesize → (f.withBuf buf).num (p * f.pagesize + off) w =
      f.num (p * f.pagesize + off) w := fun hoff => h.num_eq hp (by omega) (by omega)
  refine ⟨⟨level, h.numPages_eq.symm ▸ hpage.inFile, ?_, ?_, ?_, ?_⟩, hitems.imp ?_⟩
  · exact (hsame (by omega)).trans hpage.self
  · exact (hsame (by omega)).trans hpage.entries
  · exact (hsame (by omega)).trans hpage.level
  · exact (hsame (by omega)).trans hpage.type
  · rintro i e ⟨off, hindexed, he⟩
    refine ⟨off, ⟨hindexed.table, ?_, hindexed.behind, hindexed.onPage⟩, h.entryIs hps hp hindexed.onPage he⟩
    exact (hsame hindexed.table).trans hindexed.offset

end

/-! ## The opened file -/

theorem InternalDamage.opened_eq {f : BDBFile} {buf : Bytes} {db : Database} (h : InternalDamage f buf)
    (hdb : Stored f db) : f.withBuf buf = opened buf := by
  have hopen := hdb.opened_eq
  have hps := hdb.pagesize.1
  have hp : f.Outside 0 := by
    refine ⟨hdb.outer.inFile, ?_⟩
    rw [hdb.outer.type]
    decide
  have hbytes : (f.withBuf buf).bytes 12 16 = f.bytes 12 16 := h.bytes_eq hp (by omega) (by omega)
  have hmagic : (buf.drop 12).take 4 = (f.buf.drop 12).take 4 := hbytes
  have hsize : (f.withBuf buf).num 20 4 = f.num 20 4 := h.num_eq hp (by omega) (by omega)
  have hendian : f.otherEndian = decide (ByteCodec.leNat ((f.buf.drop 12).take 4) ≠ btreeMagic) :=
    congrArg BDBFile.otherEndian hopen
  have hpagesize : f.num 20 4 = f.pagesize := by
    have hmeta := hdb.outer.pagesize
    rw [Nat.zero_mul, Nat.zero_add] at hmeta
    exact hmeta
  have hnum : (BDBFile.mk buf f.otherEndian 0).num 20 4 = f.pagesize := hsize.trans hpagesize
  unfold opened
  dsimp only
  rw [hmagic, ← hendian, hnum]
  rfl

/-- The outer database and the metadata page of "main" are not internal pages, so what is read of a damaged
file is a database below the same root. -/
theorem InternalDamage.layout {f : BDBFile} {buf : Bytes} {db : Database} {m : RecordMap}
    (h : InternalDamage f buf) (hdb : Layout f db) (hm : (readAll buf).Returns m) :
    ∃ db', Layout (f.withBuf buf) db' ∧ db'.tree.KeysOnPage ∧ m = db'.records := by
  have hps := hdb.pagesize.1
  have hg := h.opened_eq hdb.toStored
  have houterMeta := h.metaIs hps hdb.outer
  have houterLeaf := h.leafIs hps hdb.outerLeaf
  rcases hdb.main with ⟨last, flags, -, hinner⟩
  have hinnerMeta := h.metaIs hps hinner
  rw [hg] at houterMeta houterLeaf hinnerMeta ⊢
  have hroot : ((opened buf).metaAt 0).root = db.outerRoot := houterMeta.root
  have hinnerRoot : ((opened buf).metaAt db.mainPgno).root = db.root := hinnerMeta.root
  have hsize : 512 ≤ (opened buf).pagesize := by
    rw [← hg]
    exact hps
  have hfind : (findMainSubdb (opened buf) ((opened buf).metaAt 0)).Returns db.mainPgno := by
    rw [findMainSubdb_returns hsize, hroot]
    exact ⟨db.name, db.pointer, houterLeaf, hdb.name, hdb.pointer⟩
  have hne : db.outerRoot ≠ db.root := by
    have hdistinct := hdb.distinct
    simp only [List.nodup_cons, List.mem_cons, not_or] at hdistinct
    rcases hdistinct with ⟨-, -, houter, -⟩
    intro heq
    apply houter
    rw [heq]
    apply Forest.roots_sub_pages
    rw [hdb.root]
    exact List.mem_singleton_self _
  rw [← hroot, ← hinnerRoot] at hne
  exact layout_of_returns hm hfind hne

/-! ## Lost leaves -/

/-- The live pairs on the leaf pages of the one that are no leaf pages of the other. -/
def Forest.recordsNotIn (t u : Forest) : RecordList :=
  (t.leaves.filter fun l => l ∉ u.leaves).flatMap fun l => liveRecords l.2

theorem Forest.mem_records {t : Forest} {r : Bytes × Bytes} :
    r ∈ t.records ↔ ∃ l ∈ t.leaves, r ∈ liveRecords l.2 :=
  List.mem_flatMap

theorem Forest.mem_recordsNotIn {t u : Forest} {r : Bytes × Bytes} :
    r ∈ t.recordsNotIn u ↔ ∃ l ∈ t.leaves, l ∉ u.leaves ∧ r ∈ liveRecords l.2 := by
  simp only [recordsNotIn, List.mem_flatMap, List.mem_filter, decide_eq_true_eq, and_assoc]

/-- A key is on one leaf page only. -/
theorem Forest.leaf_unique {t : Forest} (hkeys : (t.records.map Prod.fst).Nodup) {r : Bytes × Bytes}
    {l l' : Leaf} (hl : l ∈ t.leaves) (hl' : l' ∈ t.leaves) (hr : r ∈ liveRecords l.2)
    (hr' : r ∈ liveRecords l'.2) : l = l' := by
  have hnodup : t.records.Nodup := List.Nodup.of_map _ hkeys
  have hdisjoint := (List.nodup_flatMap.1 hnodup).2
  by_contra hne
  have hsymm : Std.Symm (Function.onFun List.Disjoint fun l : Leaf => liveRecords l.2) :=
    ⟨fun _ _ h _ ha hb => h hb ha⟩
  exact hdisjoint.forall hl hl' hne hr hr'

theorem Forest.sub_of_recordsNotIn {t u : Forest}
    (h : ∀ r ∈ t.recordsNotIn u, r ∈ u.recordsNotIn t) : ∀ r ∈ t.records, r ∈ u.records := by
  intro r hr
  rcases Forest.mem_records.1 hr with ⟨l, hl, hlive⟩
  by_cases hu : l ∈ u.leaves
  · exact Forest.mem_records.2 ⟨l, hu, hlive⟩
  · rcases Forest.mem_recordsNotIn.1 (h r (Forest.mem_recordsNotIn.2 ⟨l, hl, hu, hlive⟩)) with ⟨l', hl', -, hlive'⟩
    exact Forest.mem_records.2 ⟨l', hl', hlive'⟩

theorem Forest.recordsNotIn_sub {t u : Forest} (hkeys : (t.records.map Prod.fst).Nodup)
    (h : ∀ r ∈ t.records, r ∈ u.records) : ∀ r ∈ t.recordsNotIn u, r ∈ u.recordsNotIn t := by
  intro r hr
  rcases Forest.mem_recordsNotIn.1 hr with ⟨l, hl, hu, hlive⟩
  rcases Forest.mem_records.1 (h r (Forest.mem_records.2 ⟨l, hl, hlive⟩)) with ⟨l', hl', hlive'⟩
  refine Forest.mem_recordsNotIn.2 ⟨l', hl', fun hmem => hu ?_, hlive'⟩
  rw [Forest.leaf_unique hkeys hl hmem hlive hlive']
  exact hl'

/-- The internal page of `wallet` with one item instead of two. -/
def damagedWallet : Bytes :=
  bufOf (walletPages (internalOf 1 bKeydata [108]))

theorem damagedWallet_internal : PlainPage (internalOf 1 bKeydata [108]) := by
  constructor <;> decide

/-- Two wallets that differ in page 3. -/
theorem walletPages_damage {internal : Page} (internal' : Page) (htype : internal.num 25 1 = pIbtree) :
    InternalDamage (fileOf (walletPages internal)) (bufOf (walletPages internal')) := by
  constructor
  · rw [fileOf_buf, bufOf_length, bufOf_length]
    rfl
  intro i hi
  have hpagesize : (fileOf (walletPages internal)).pagesize = 512 := rfl
  rw [hpagesize, walletPages_numPages] at hi
  have hpage : i / 512 ≠ 3 := by
    intro heq
    rw [heq] at hi
    have hreads : Reads (fileOf (walletPages internal)) 3 internal := walletPages_reads rfl
    exact hi (by decide) ((hreads.num (by decide)).trans htype)
  rw [fileOf_buf]
  apply bufOf_getElem?
  generalize i / 512 = p at hpage
  rcases p with _ | _ | _ | _ | p
  · rfl
  · rfl
  · rfl
  · exact absurd rfl hpage
  · rfl

theorem damagedWallet_damage : InternalDamage (opened wallet) damagedWallet := by
  rw [wallet, ← fileOf_opened walletFile_layout]
  exact walletPages_damage _ (by decide)

theorem damagedWallet_layout : Layout (fileOf (walletPages (internalOf 1 bKeydata [108])))
    (walletDb (.node 3 [.onPage []] (firstLeaf .nil) .nil)) := by
  have hreads : Reads (fileOf (walletPages (internalOf 1 bKeydata [108]))) 3 _ := walletPages_reads rfl
  have hfirst : InternalItemIs (fileOf (walletPages (internalOf 1 bKeydata [108]))) 3 440 4 (.onPage []) := by
    apply hreads.internalItemIs <;> decide
  have hnode : NodeIs (fileOf (walletPages (internalOf 1 bKeydata [108]))) 3 2 [(4, .onPage [])] := by
    refine ⟨hreads.pageIs (by decide), .cons ⟨440, ?_, hfirst⟩ .nil⟩
    exact hreads.indexed (by decide) (by decide)
  have hnil : Forest.nil.Holds (fileOf (walletPages (internalOf 1 bKeydata [108]))) leafLevel := trivial
  have hleaf := walletPages_firstLeaf_holds hnil
  exact walletPages_layout damagedWallet_internal rfl ⟨by decide, rfl, hnode, hleaf, trivial⟩ (by decide)
    (by decide)

theorem damagedWallet_returns : (readAll damagedWallet).Returns [([107], [1])] := by
  have hkeys : ∀ k ∈ [InternalKey.onPage []], ∃ data, k = .onPage data :=
    List.forall_mem_singleton.2 ⟨_, rfl⟩
  rw [damagedWallet, ← fileOf_buf]
  exact readAll_complete damagedWallet_layout ⟨hkeys, trivial, trivial⟩

end BerkeleyRO

end Dobbscoin
