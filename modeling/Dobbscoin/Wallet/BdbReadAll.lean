import Dobbscoin.Wallet.BdbWalk

/-!
# ReadAll

What `ReadAll` accepts, and what it returns.
-/

namespace Dobbscoin

namespace BerkeleyRO

open Traced

variable {f : BDBFile}

/-! ## Opening -/

/-- A magic in the other byte order. -/
theorem leNat_of_reverse {b : Bytes} (hlen : b.length = 4)
    (h : ByteCodec.leNat b.reverse = btreeMagic) : ByteCodec.leNat b = btreeMagicOe := by
  have hbytes := ByteCodec.leBytes_leNat b.reverse
  rw [List.length_reverse, hlen, h] at hbytes
  rw [← List.reverse_reverse b, ← hbytes]
  decide

theorem openFile_sound {buf : Bytes} {outer : Meta} (h : (openFile buf).Returns (f, outer)) :
    f.buf = buf ∧ 512 ≤ buf.length ∧
      (512 ≤ f.pagesize ∧ f.pagesize ≤ 65536 ∧ f.pagesize &&& (f.pagesize - 1) = 0) ∧
      (∃ last flags root, BDBFile.otherFlags flags = 0 ∧ MetaIs f 0 last flags root) ∧
      outer = f.metaAt 0 := by
  simp only [openFile, bind_returns, throwIf_returns, emit_returns, BDBFile.get32, BDBFile.get_returns,
    Guard.exists_unit, true_and, and_assoc, exists_eq_left, not_lt, not_or, not_and, not_not,
    pure_returns, ne_eq] at h
  rcases h with ⟨hsize, -, -, hlow, hhigh, hpower, outer', hmeta, heq⟩
  obtain ⟨rfl, rfl⟩ := Prod.mk.inj heq
  rcases (BDBFile.readMeta_returns hlow).1 hmeta with ⟨hpage, rfl⟩
  exact ⟨rfl, hsize, ⟨hlow, hhigh, hpower⟩, hpage, rfl⟩

theorem openFile_complete (hsize : 512 ≤ f.buf.length)
    (hpagesize : 512 ≤ f.pagesize ∧ f.pagesize ≤ 65536 ∧ f.pagesize &&& (f.pagesize - 1) = 0)
    {last flags root : Nat} (hflags : BDBFile.otherFlags flags = 0) (hmeta : MetaIs f 0 last flags root) :
    (openFile f.buf).Returns (f, f.metaAt 0) := by
  have hmagic := hmeta.magic
  have hps := hmeta.pagesize
  rw [Nat.zero_mul, Nat.zero_add] at hmagic hps
  have hbytes : f.bytes 12 (12 + 4) = (f.buf.drop 12).take 4 := rfl
  have hlen : ((f.buf.drop 12).take 4).length = 4 := by
    rw [← hbytes, BDBFile.length_bytes (by omega)]
  have hendian : (ByteCodec.leNat ((f.buf.drop 12).take 4) ≠ btreeMagic →
        ByteCodec.leNat ((f.buf.drop 12).take 4) = btreeMagicOe) ∧
      decide (ByteCodec.leNat ((f.buf.drop 12).take 4) ≠ btreeMagic) = f.otherEndian := by
    unfold BDBFile.num at hmagic
    rw [hbytes] at hmagic
    cases hother : f.otherEndian with
    | true =>
      rw [hother, if_pos rfl] at hmagic
      have hoe := leNat_of_reverse hlen hmagic
      rw [hoe]
      exact ⟨fun _ => rfl, by decide⟩
    | false =>
      rw [hother, if_neg Bool.false_ne_true] at hmagic
      rw [hmagic]
      exact ⟨fun h => absurd rfl h, by decide⟩
  have hnum : (BDBFile.mk f.buf f.otherEndian 0).num 20 4 = f.num 20 4 := rfl
  simp only [openFile, bind_returns, throwIf_returns, emit_returns, BDBFile.get32, BDBFile.get_returns,
    Guard.exists_unit, true_and, and_assoc, exists_eq_left, not_lt, not_or, not_and, not_not,
    pure_returns, hendian.2, hnum, hps]
  refine ⟨hsize, hendian.1, by omega, hpagesize.1, hpagesize.2.1, hpagesize.2.2, f.metaAt 0, ?_, rfl⟩
  exact (BDBFile.readMeta_returns hpagesize.1).2 ⟨⟨last, flags, root, hflags, hmeta⟩, rfl⟩

/-! ## The page LSNs -/

theorem checkLsns_sound {last fuel i : Nat} (hlast : last + 1 < 2 ^ 32)
    (h : (checkLsns f last fuel i).Returns ()) :
    ∀ j, i ≤ j → j ≤ last → f.num (j * f.pagesize) 4 = 0 ∧ f.num (j * f.pagesize + 4) 4 = 1 := by
  induction fuel generalizing i with
  | zero => exact absurd h fail_returns
  | succ fuel ih =>
    rw [checkLsns] at h
    intro j hij hj
    have hi : i ≤ last := hij.trans hj
    rw [if_pos hi] at h
    simp only [bind_returns, BDBFile.pageOffset_returns, BDBFile.get32, BDBFile.get_returns,
      throwIf_returns, Guard.exists_unit, and_assoc, exists_eq_left, ne_eq, not_not] at h
    rcases h with ⟨-, -, hfile, -, hoffset, hrest⟩
    rcases Nat.lt_or_eq_of_le hij with hlt | rfl
    · rw [Nat.mod_eq_of_lt (by omega)] at hrest
      exact ih hrest j hlt hj
    · exact ⟨hfile, hoffset⟩

theorem checkLsns_complete {last fuel i : Nat} (hps : 512 ≤ f.pagesize) (hlast : last + 1 < 2 ^ 32)
    (hin : last < f.numPages) (hfuel : last + 1 < i + fuel)
    (h : ∀ j, i ≤ j → j ≤ last → f.num (j * f.pagesize) 4 = 0 ∧ f.num (j * f.pagesize + 4) 4 = 1) :
    (checkLsns f last fuel i).Returns () ∨ last + 1 < i := by
  induction fuel generalizing i with
  | zero => exact Or.inr hfuel
  | succ fuel ih =>
    left
    rw [checkLsns]
    split_ifs with hi
    · rcases h i le_rfl hi with ⟨hfile, hoffset⟩
      have hpage := BDBFile.page_in_buf (Nat.lt_of_le_of_lt hi hin)
      simp only [bind_returns, BDBFile.pageOffset_returns, BDBFile.get32, BDBFile.get_returns,
        throwIf_returns, Guard.exists_unit, and_assoc, exists_eq_left, ne_eq, not_not]
      refine ⟨Nat.lt_of_le_of_lt hi hin, by omega, hfile, by omega, hoffset, ?_⟩
      rw [Nat.mod_eq_of_lt (by omega)]
      have hnext := ih (i := i + 1) (by omega) fun j hij hj => h j (by omega) hj
      exact hnext.resolve_right (by omega)
    · exact pure_returns.2 rfl

/-! ## The whole file -/

/-- The page that "main" points to. -/
theorem findMainSubdb_returns (hps : 512 ≤ f.pagesize) {outer : Meta} {mainPgno : Nat} :
    (findMainSubdb f outer).Returns mainPgno ↔
      ∃ name pointer : Entry, LeafIs f outer.root [(name, pointer)] ∧
        (name.deleted = false ∧ name.datum.data = mainName) ∧
        pointer.deleted = false ∧ pointer.datum.data.length = 4 ∧
        ByteCodec.leNat pointer.datum.data.reverse = mainPgno := by
  simp only [findMainSubdb, bind_returns, throwIf_returns, BDBFile.readHeader_returns hps,
    Guard.exists_unit, and_assoc, exists_and_left, exists_eq_left, ne_eq, not_not]
  constructor
  · rintro ⟨hin, hself, htype, hentries, pairs, hpairs, h⟩
    rcases leafPairs_sound hps hin hself htype hpairs with ⟨entries, hleaf, rfl⟩
    -- Two items are one pair.
    have hone : ∃ name pointer, entries = [(name, pointer)] := by
      rcases hleaf.page with ⟨level, hpage⟩
      have hlen : (flatPairs entries).length = 2 := by
        have hheader : (f.headerAt outer.root).entries = (flatPairs entries).length := hpage.entries
        rw [← hheader, hentries]
      rcases entries with _ | ⟨⟨name, pointer⟩, _ | ⟨pair, rest⟩⟩
      · cases hlen
      · exact ⟨name, pointer, rfl⟩
      · simp [flatPairs] at hlen
    rcases hone with ⟨name, pointer, rfl⟩
    refine ⟨name, pointer, hleaf, ?_⟩
    by_cases hlive : (!name.deleted && !pointer.deleted) = true
    · have hrecords : liveRecords [(name, pointer)] = [(name.datum.data, pointer.datum.data)] := by
        simp [liveRecords, hlive]
      rw [hrecords] at h
      simp only [bind_returns, throwIf_returns, pure_returns, Guard.exists_unit, not_not] at h
      rw [Bool.and_eq_true, Bool.not_eq_true', Bool.not_eq_true'] at hlive
      exact ⟨hlive.1, h.1, hlive.2, h.2.1, h.2.2⟩
    · have hrecords : liveRecords [(name, pointer)] = [] := by
        simp [liveRecords, hlive]
      rw [hrecords] at h
      exact absurd h fail_returns
  · rintro ⟨name, pointer, hleaf, hname, hmain, hpointer, hlen, hpgno⟩
    rcases hleaf.page with ⟨level, hpage⟩
    have hrecords : liveRecords [(name, pointer)] = [(mainName, pointer.datum.data)] := by
      simp [liveRecords, hname, hpointer, hmain]
    refine ⟨hpage.inFile, hpage.self, hpage.type, hpage.entries, _, leafPairs_complete hps hleaf, ?_⟩
    rw [hrecords]
    simp only [bind_returns, throwIf_returns, pure_returns, Guard.exists_unit, not_not]
    exact ⟨trivial, hlen, hpgno⟩

theorem Forest.Holds.inFile {t : Forest} {level : Nat} (h : t.Holds f level) :
    ∀ p ∈ t.pages, p < f.numPages := by
  induction t generalizing level with
  | nil => exact fun _ hp => absurd hp List.not_mem_nil
  | leaf pgno pairs rest ih =>
    rcases h with ⟨-, -, hleaf, hrest⟩
    rcases hleaf.page with ⟨_, hpage⟩
    intro p hp
    rcases List.mem_append.1 hp with hp | hp
    · exact ih hrest p hp
    · rw [List.mem_singleton.1 hp]
      exact hpage.inFile
  | node pgno keys children rest ihc ih =>
    rcases h with ⟨-, -, hnode, hchildren, hrest⟩
    intro p hp
    rcases List.mem_append.1 hp with hp | hp
    · exact ih hrest p hp
    · rcases List.mem_cons.1 hp with rfl | hp
      · exact hnode.page.inFile
      · exact ihc hchildren p hp

theorem numPages_lt (f : BDBFile) : f.numPages < 2 ^ 32 := by
  unfold BDBFile.numPages
  split_ifs
  · decide
  · exact Nat.mod_lt _ (by decide)

/-- The number of the last page, as the code computes it. -/
theorem lastPgno_eq (h : 0 < f.numPages) :
    (f.numPages + (2 ^ 32 - 1)) % 2 ^ 32 = f.numPages - 1 := by
  have hlt := numPages_lt f
  have hsplit : f.numPages + (2 ^ 32 - 1) = (f.numPages - 1) + 2 ^ 32 := by omega
  rw [hsplit, Nat.add_mod_right]
  exact Nat.mod_eq_of_lt (by omega)

theorem outerPages_sub {outer inner : Meta} {mainPgno p : Nat}
    (hp : p ∈ outerPages outer inner mainPgno) : p = outer.root ∨ p = mainPgno ∨ p = 0 := by
  unfold outerPages at hp
  split_ifs at hp
  · simpa using hp
  · right
    simpa using hp

/-- **What `ReadAll` accepts**: a stored database, all of whose btree pages are different. -/
theorem readAll_sound {buf : Bytes} {m : RecordMap} (h : (readAll buf).Returns m) :
    ∃ f db, f.buf = buf ∧ Stored f db ∧ db.tree.KeysOnPage ∧ db.tree.pages.Nodup ∧
      (0 ∉ db.tree.pages ∧ db.mainPgno ∉ db.tree.pages) ∧
      (db.outerRoot ≠ db.root → db.outerRoot ∉ db.tree.pages) ∧ m = db.records := by
  simp only [readAll, bind_returns, Prod.exists] at h
  rcases h with ⟨f, outer, hopen, h⟩
  rcases openFile_sound hopen with ⟨hbuf, hsize, hps, ⟨last, flags, root, -, hmeta⟩, rfl⟩
  have hpos : 0 < f.numPages := hmeta.inFile
  have hlt := numPages_lt f
  simp only [throwIf_returns, Guard.exists_unit, ne_eq, not_not, not_lt, lastPgno_eq hpos, findMainSubdb_returns hps.1, BDBFile.readMeta_returns hps.1] at h
  rcases h with ⟨hlast, hflags, hlsns, mainPgno, ⟨name, pointer, hleaf, hname, hlive, hlen, hpgno⟩, -,
    inner, ⟨⟨last', flags', root', hflags', hinner⟩, rfl⟩, hwalk⟩
  rw [hlast] at hlsns
  have hstored := checkLsns_sound (by omega) hlsns
  have hnil : (([] : RecordMap).map Prod.fst).Nodup := List.nodup_nil
  rcases walk_sound hps.1 hnil hwalk with ⟨ts, hts, hpages, hfresh, rfl, hkeys⟩
  -- One entry was on the stack, so there is one btree.
  rcases List.forall₂_cons_left_iff.1 hts with ⟨t, ts', ht, hnone, rfl⟩
  rw [List.forall₂_nil_left_iff] at hnone
  subst hnone
  have hone : ∀ g : Forest → List Nat, [t].flatMap g = g t := fun g => by simp
  have hrecords : [t].flatMap Forest.records = t.records := by simp
  rw [hone] at hpages hfresh
  rw [List.nil_append, hrecords] at hkeys ⊢
  rcases ht.holds with ⟨level, hholds, -⟩
  refine ⟨f, ⟨(f.metaAt 0).root, name, pointer, mainPgno, (f.metaAt mainPgno).root, t⟩, hbuf, ?_,
    ht.keysOnPage, hpages, ⟨fun hmem => ?_, fun hmem => ?_⟩, fun hne hmem => ?_, rfl⟩
  · refine ⟨hbuf ▸ hsize, hps, ?_, ?_, hleaf, hname, ⟨hlive, hlen, hpgno⟩, ⟨last', flags', hflags', ?_⟩,
      ht.roots, ⟨level, hholds⟩, hkeys⟩
    · exact ⟨hmeta.inFile, hmeta.self, hmeta.magic, hmeta.version, hmeta.pagesize, hmeta.encryptAlg,
        hmeta.type, hlast, hflags, rfl⟩
    · exact fun p hp => hstored p (Nat.zero_le _) (by omega)
    · exact ⟨hinner.inFile, hinner.self, hinner.magic, hinner.version, hinner.pagesize,
        hinner.encryptAlg, hinner.type, hinner.lastPgno, hinner.flags, rfl⟩
  · apply hfresh 0 hmem
    unfold outerPages
    split_ifs <;> simp
  · apply hfresh mainPgno hmem
    unfold outerPages
    split_ifs <;> simp
  · apply hfresh _ hmem
    unfold outerPages
    rw [if_pos hne]
    exact List.mem_cons_self

/-- **What `ReadAll` returns** for a file that holds a database whose internal keys are on their pages. -/
theorem readAll_complete {db : Database} (h : Layout f db) (hkeys : db.tree.KeysOnPage) :
    (readAll f.buf).Returns db.records := by
  have hps := h.pagesize
  have hpos : 0 < f.numPages := h.outer.inFile
  have hlt := numPages_lt f
  have hsubdb : BDBFile.otherFlags btmSubdb = 0 := by decide
  rcases h.main with ⟨last, flags, hflags, hinner⟩
  rcases h.tree with ⟨level, hholds⟩
  have hdistinct := h.distinct
  simp only [List.nodup_cons, List.mem_cons, not_or] at hdistinct
  rcases hdistinct with ⟨⟨-, -, hzero⟩, ⟨-, hmain⟩, houter, hpages⟩
  have hroot : (f.metaAt 0).root = db.outerRoot := h.outer.root
  have hlast : (f.metaAt 0).lastPgno = f.numPages - 1 := h.outer.lastPgno
  have hflag : (f.metaAt 0).flags = btmSubdb := h.outer.flags
  have hinnerRoot : (f.metaAt db.mainPgno).root = db.root := hinner.root
  have hfind : (findMainSubdb f (f.metaAt 0)).Returns db.mainPgno := by
    rw [findMainSubdb_returns hps.1, hroot]
    exact ⟨db.name, db.pointer, h.outerLeaf, h.name, h.pointer⟩
  have hlsns : (checkLsns f (f.numPages - 1) (f.numPages - 1 + 2) 0).Returns () :=
    (checkLsns_complete hps.1 (by omega) (by omega) (by omega)
      fun j _ hj => h.lsns j (by omega)).resolve_right (Nat.not_lt_zero _)
  have hwalk : (walk f (f.numPages + 1) (outerPages (f.metaAt 0) (f.metaAt db.mainPgno) db.mainPgno)
      [(db.root, -1)] []).Returns db.records := by
    have hcount := BDBFile.length_le_numPages hpages hholds.inFile
    rcases Nat.exists_eq_add_of_le hcount with ⟨spare, hspare⟩
    have hfuel : f.numPages + 1 = db.tree.pages.length + (spare + 1) := by omega
    have hfresh : ∀ p ∈ db.tree.pages,
        p ∉ outerPages (f.metaAt 0) (f.metaAt db.mainPgno) db.mainPgno := by
      intro p hp hmem
      rcases outerPages_sub hmem with rfl | rfl | rfl
      · rw [hroot] at hp
        exact houter hp
      · exact hmain hp
      · exact hzero hp
    have hend : (walk f (spare + 1) (db.tree.pages.reverse ++
        outerPages (f.metaAt 0) (f.metaAt db.mainPgno) db.mainPgno) [] ([] ++ db.tree.records)).Returns
          db.records := pure_returns.2 rfl
    have hany : 0 ≤ (-1 : Int) → (-1 : Int) = level := fun he => absurd he (by decide)
    have hall : (walk f (db.tree.pages.length + (spare + 1))
        (outerPages (f.metaAt 0) (f.metaAt db.mainPgno) db.mainPgno)
        ((db.tree.roots.map fun p => (p, (-1 : Int))).reverse ++ []) []).Returns db.records :=
      walk_complete hps.1 hholds hkeys hany hpages hfresh h.keys hend
    rw [h.root] at hall
    rw [hfuel]
    exact hall
  simp only [readAll, bind_returns, Prod.exists, throwIf_returns, Guard.exists_unit, ne_eq, not_not,
    not_lt]
  refine ⟨f, f.metaAt 0, openFile_complete h.size hps hsubdb h.outer, ?_, hflag, ?_, db.mainPgno, hfind,
    ?_, f.metaAt db.mainPgno, (BDBFile.readMeta_returns hps.1).2 ⟨⟨last, flags, _, hflags, hinner⟩, rfl⟩,
    ?_⟩
  · rw [lastPgno_eq hpos, hlast]
  · rw [hlast]
    exact hlsns
  · have hin := hinner.inFile
    rw [hlast]
    omega
  · rw [hinnerRoot]
    exact hwalk

end BerkeleyRO

end Dobbscoin
