import Dobbscoin.Lib.Guard
import Dobbscoin.Wallet.BdbLayout
import Mathlib.Data.List.Perm.Subperm

/-!
# The reader on one page

What each function of the reader returns, in terms of the page format.
-/

namespace Dobbscoin

variable {h : PageHeader} {pgno : Nat}

namespace BerkeleyRO

open Traced

@[simp] theorem throwIf_returns {c : Prop} [Decidable c] {what : String} {u : Unit} :
    (throwIf c what).Returns u ↔ ¬ c :=
  failIf_returns

namespace BDBFile

variable {f : BDBFile}

theorem get_returns {w off n : Nat} :
    (f.get w off).Returns n ↔ n = f.num off w ∧ off + w ≤ f.buf.length := by
  simp only [get, bind_returns, throwIf_returns, emit_returns, pure_returns, Guard.exists_unit, not_lt,
    true_and]
  exact ⟨fun h => ⟨h.2.symm, h.1⟩, fun h => ⟨h.2, h.1.symm⟩⟩

theorem copy_returns {pgno lo hi : Nat} {data : Bytes} :
    (f.copy pgno lo hi).Returns data ↔ data = f.bytes lo hi := by
  simp only [copy, bind_returns, emit_returns, pure_returns, Guard.exists_unit, true_and]
  exact eq_comm

theorem pageOffset_returns {pgno base : Nat} :
    (f.pageOffset pgno).Returns base ↔ base = pgno * f.pagesize ∧ pgno < f.numPages := by
  simp only [pageOffset, bind_returns, throwIf_returns, pure_returns, Guard.exists_unit, not_le]
  exact ⟨fun h => ⟨h.2.symm, h.1⟩, fun h => ⟨h.2, h.1.symm⟩⟩

/-- A whole page is in the buffer. -/
theorem page_in_buf (h : pgno < f.numPages) :
    pgno * f.pagesize + f.pagesize ≤ f.buf.length := by
  unfold numPages at h
  split_ifs at h with hzero
  · exact absurd h (Nat.not_lt_zero _)
  · have hle : pgno + 1 ≤ f.buf.length / f.pagesize := Nat.lt_of_lt_of_le h (Nat.mod_le _ _)
    calc
      pgno * f.pagesize + f.pagesize = (pgno + 1) * f.pagesize := (Nat.succ_mul _ _).symm
      _ ≤ f.buf.length / f.pagesize * f.pagesize := Nat.mul_le_mul_right _ hle
      _ ≤ f.buf.length := Nat.div_mul_le_self _ _

theorem length_bytes {lo hi : Nat} (h : hi ≤ f.buf.length) : (f.bytes lo hi).length = hi - lo := by
  rw [bytes, List.length_take, List.length_drop]
  omega

theorem num_lt {off w : Nat} (h : off + w ≤ f.buf.length) : f.num off w < 256 ^ w := by
  have hlen : (f.bytes off (off + w)).length = w := by
    rw [length_bytes h]
    omega
  unfold num
  split_ifs
  · have hlt := ByteCodec.leNat_lt (f.bytes off (off + w)).reverse
    rwa [List.length_reverse, hlen] at hlt
  · have hlt := ByteCodec.leNat_lt (f.bytes off (off + w))
    rwa [hlen] at hlt

/-! ## Headers -/

/-- The header of a page. -/
def headerAt (f : BDBFile) (pgno : Nat) : PageHeader where
  lsnFile := f.num (pgno * f.pagesize) 4
  lsnOffset := f.num (pgno * f.pagesize + 4) 4
  pgno := f.num (pgno * f.pagesize + 8) 4
  prevPgno := f.num (pgno * f.pagesize + 12) 4
  nextPgno := f.num (pgno * f.pagesize + 16) 4
  entries := f.num (pgno * f.pagesize + 20) 2
  hfOffset := f.num (pgno * f.pagesize + 22) 2
  level := f.num (pgno * f.pagesize + 24) 1
  type := f.num (pgno * f.pagesize + 25) 1

/-- The fields of a metadata page. -/
def metaAt (f : BDBFile) (pgno : Nat) : Meta where
  pgno := f.num (pgno * f.pagesize + 8) 4
  magic := f.num (pgno * f.pagesize + 12) 4
  version := f.num (pgno * f.pagesize + 16) 4
  pagesize := f.num (pgno * f.pagesize + 20) 4
  encryptAlg := f.num (pgno * f.pagesize + 24) 1
  type := f.num (pgno * f.pagesize + 25) 1
  lastPgno := f.num (pgno * f.pagesize + 32) 4
  flags := f.num (pgno * f.pagesize + 48) 4
  root := f.num (pgno * f.pagesize + 88) 4

section

variable (hps : 512 ≤ f.pagesize)
include hps

theorem readHeader_returns :
    (f.readHeader pgno).Returns h ↔
      pgno < f.numPages ∧ f.num (pgno * f.pagesize + 8) 4 = pgno ∧ h = f.headerAt pgno := by
  simp only [readHeader, get8, get16, get32, bind_returns, pageOffset_returns, get_returns,
    throwIf_returns, pure_returns, Guard.exists_unit, and_assoc, exists_eq_left, ne_eq, not_not]
  constructor
  · rintro ⟨hin, -, -, -, -, -, -, -, -, -, hself, rfl⟩
    exact ⟨hin, hself, rfl⟩
  · rintro ⟨hin, hself, rfl⟩
    have hpage := page_in_buf hin
    refine ⟨hin, ?_, ?_, ?_, ?_, ?_, ?_, ?_, ?_, ?_, hself, rfl⟩ <;> omega

theorem readMeta_returns {m : Meta} :
    (f.readMeta pgno).Returns m ↔
      (∃ last flags root, otherFlags flags = 0 ∧ MetaIs f pgno last flags root) ∧
        m = f.metaAt pgno := by
  simp only [readMeta, get8, get32, bind_returns, pageOffset_returns, get_returns,
    throwIf_returns, pure_returns, Guard.exists_unit, and_assoc, exists_eq_left, ne_eq, not_not]
  constructor
  · rintro ⟨hin, -, -, -, -, -, -, -, -, -, hself, hmagic, hversion, hpagesize, htype, hcrypt, hflags, rfl⟩
    exact ⟨⟨_, _, _, hflags, hin, hself, hmagic, hversion, hpagesize, hcrypt, htype, rfl, rfl, rfl⟩, rfl⟩
  · rintro ⟨⟨last, flags, root, hflags, hmeta⟩, rfl⟩
    have hpage := page_in_buf hmeta.inFile
    have hflags' : otherFlags (f.num (pgno * f.pagesize + 48) 4) = 0 := by
      rw [hmeta.flags]
      exact hflags
    refine ⟨hmeta.inFile, ?_, ?_, ?_, ?_, ?_, ?_, ?_, ?_, ?_, hmeta.self, hmeta.magic, hmeta.version,
      hmeta.pagesize, hmeta.type, hmeta.encryptAlg, hflags', rfl⟩ <;> omega

end

theorem itemOffset_returns {pgno i minlen off : Nat} :
    (f.itemOffset pgno h i minlen).Returns off ↔
      pgno < f.numPages ∧ Indexed f pgno h.entries i minlen off := by
  simp only [itemOffset, get16, bind_returns, pageOffset_returns, get_returns, throwIf_returns,
    pure_returns, Guard.exists_unit, and_assoc, exists_eq_left, not_or, not_lt]
  constructor
  · rintro ⟨hin, htable, -, hbehind, honPage, rfl⟩
    exact ⟨hin, htable, rfl, hbehind, honPage⟩
  · rintro ⟨hin, htable, rfl, hbehind, honPage⟩
    have hpage := page_in_buf hin
    refine ⟨hin, htable, ?_, hbehind, honPage, rfl⟩
    omega

/-! ## Overflow chains -/

theorem ChainIs.inFile {parts : List (Nat × Bytes)} {first : Nat} (h : ChainIs f first parts) :
    ∀ p ∈ parts.map Prod.fst, p < f.numPages := by
  induction parts generalizing first with
  | nil => exact fun _ hp => absurd hp List.not_mem_nil
  | cons part parts ih =>
    rcases h with ⟨-, -, hin, -, -, -, -, -, -, hrest⟩
    intro p hp
    rcases List.mem_cons.1 hp with rfl | hp
    · exact hin
    · exact ih hrest p hp

/-- Different pages of the file are at most as many as it has. -/
theorem length_le_numPages {ps : List Nat} (hnodup : ps.Nodup) (h : ∀ p ∈ ps, p < f.numPages) :
    ps.length ≤ f.numPages := by
  have hsub : ps ⊆ List.range f.numPages := fun p hp => List.mem_range.2 (h p hp)
  simpa using (List.subperm_of_subset hnodup hsub).length_le

section

variable (hps : 512 ≤ f.pagesize)
include hps

theorem readOverflowLoop_sound {totalLen fuel pgno : Nat} {seen : List Nat} {out out' : Bytes}
    (h : (f.readOverflowLoop totalLen fuel seen out pgno).Returns out') :
    ∃ parts, ChainIs f pgno parts ∧ (parts.map Prod.fst).Nodup ∧
      (∀ p ∈ parts.map Prod.fst, p ∉ seen) ∧ out' = out ++ partsData parts := by
  induction fuel generalizing seen out pgno with
  | zero => exact absurd h fail_returns
  | succ fuel ih =>
    rw [readOverflowLoop] at h
    split_ifs at h with hzero
    · obtain rfl := pure_returns.1 h
      exact ⟨[], hzero, List.nodup_nil, fun _ hp => absurd hp List.not_mem_nil, by simp [partsData]⟩
    · simp only [bind_returns, throwIf_returns, readHeader_returns hps, pageOffset_returns, copy_returns,
        Guard.exists_unit, and_assoc, exists_eq_left, exists_and_left, not_or, not_not, ne_eq,
        not_lt] at h
      rcases h with ⟨hseen, hin, hself, htype, hlevel, hfits, -, -, hrest⟩
      rcases ih hrest with ⟨parts, hchain, hnodup, hfresh, rfl⟩
      have hpage := page_in_buf hin
      have hlen : (f.bytes (pgno * f.pagesize + pageHeaderSize)
          (pgno * f.pagesize + pageHeaderSize + (f.headerAt pgno).hfOffset)).length =
            (f.headerAt pgno).hfOffset := by
        rw [length_bytes (by omega)]
        omega
      refine ⟨(pgno, _) :: parts, ⟨rfl, hzero, hin, hself, hlen.symm, hlevel, htype, ?_, ?_, hchain⟩, ?_, ?_, ?_⟩
      · rw [hlen]
        exact hfits
      · rw [hlen]
      · rw [List.map_cons, List.nodup_cons]
        exact ⟨fun hmem => hfresh pgno hmem List.mem_cons_self, hnodup⟩
      · intro p hp
        rcases List.mem_cons.1 hp with rfl | hp
        · exact hseen
        · exact fun hmem => hfresh p hp (List.mem_cons_of_mem _ hmem)
      · simp [partsData]

theorem readOverflowLoop_complete {totalLen fuel pgno : Nat} {seen : List Nat} {out : Bytes}
    {parts : List (Nat × Bytes)} (hchain : ChainIs f pgno parts) (hnodup : (parts.map Prod.fst).Nodup)
    (hfresh : ∀ p ∈ parts.map Prod.fst, p ∉ seen) (hfuel : parts.length < fuel)
    (htotal : (out ++ partsData parts).length ≤ totalLen) :
    (f.readOverflowLoop totalLen fuel seen out pgno).Returns (out ++ partsData parts) := by
  induction parts generalizing fuel seen out pgno with
  | nil =>
    cases fuel with
    | zero => exact absurd hfuel (Nat.not_lt_zero _)
    | succ fuel =>
      have hzero : pgno = 0 := hchain
      rw [readOverflowLoop, if_pos hzero, pure_returns]
      simp [partsData]
  | cons part parts ih =>
    cases fuel with
    | zero => exact absurd hfuel (Nat.not_lt_zero _)
    | succ fuel =>
      rcases part with ⟨p, data⟩
      rcases hchain with ⟨rfl, hne, hin, hself, hlen, hlevel, htype, hfits, hdata, hrest⟩
      rw [List.map_cons, List.nodup_cons] at hnodup
      have hpart : f.bytes (pgno * f.pagesize + pageHeaderSize)
          (pgno * f.pagesize + pageHeaderSize + (f.headerAt pgno).hfOffset) = data := by
        have hhf : (f.headerAt pgno).hfOffset = data.length := hlen
        rw [hhf]
        exact hdata
      have hout : out ++ partsData ((pgno, data) :: parts) = (out ++ data) ++ partsData parts := by
        simp [partsData]
      rw [hout] at htotal ⊢
      have hfresh' : ∀ q ∈ parts.map Prod.fst, q ∉ pgno :: seen := by
        intro q hq hmem
        rcases List.mem_cons.1 hmem with rfl | hmem
        · exact hnodup.1 hq
        · exact hfresh q (List.mem_cons_of_mem _ hq) hmem
      have hloop := ih hrest hnodup.2 hfresh' (Nat.lt_of_succ_lt_succ hfuel) htotal
      have hfits' : pageHeaderSize + (f.headerAt pgno).hfOffset ≤ f.pagesize := by
        have hhf : (f.headerAt pgno).hfOffset = data.length := hlen
        rw [hhf]
        exact hfits
      rw [readOverflowLoop, if_neg hne]
      simp only [bind_returns, throwIf_returns, readHeader_returns hps, pageOffset_returns, copy_returns,
        Guard.exists_unit, and_assoc, exists_eq_left, exists_and_left, not_or, not_not, ne_eq, not_lt,
        hpart]
      have hroom : (out ++ data).length ≤ totalLen := by
        refine le_trans ?_ htotal
        rw [@List.length_append _ (out ++ data)]
        exact Nat.le_add_right _ _
      exact ⟨hfresh pgno List.mem_cons_self, hin, hself, htype, hlevel, hfits', hin, hroom, hloop⟩

theorem readOverflow_returns {first total : Nat} {out : Bytes} :
    (f.readOverflow first total).Returns out ↔
      ∃ parts, OverflowIs f first total parts ∧ out = partsData parts := by
  simp only [readOverflow, bind_returns, throwIf_returns, pure_returns, Guard.exists_unit, ne_eq,
    not_not]
  constructor
  · rintro ⟨out', hloop, htotal, rfl⟩
    rcases readOverflowLoop_sound hps hloop with ⟨parts, hchain, hnodup, -, hout⟩
    rw [List.nil_append] at hout
    rw [hout] at htotal
    exact ⟨parts, ⟨hchain, hnodup, htotal⟩, hout⟩
  · rintro ⟨parts, ⟨hchain, hnodup, htotal⟩, rfl⟩
    have hlength : parts.length < f.numPages + 1 := by
      have hle := length_le_numPages hnodup (ChainIs.inFile hchain)
      rw [List.length_map] at hle
      exact Nat.lt_succ_of_le hle
    have hfresh : ∀ p ∈ parts.map Prod.fst, p ∉ ([] : List Nat) := fun _ _ => List.not_mem_nil
    have hroom : ([] ++ partsData parts).length ≤ total := htotal.le
    exact ⟨partsData parts, readOverflowLoop_complete hps hchain hnodup hfresh hlength hroom, htotal, rfl⟩

/-! ## Items -/

omit hps in
/-- The type of an item and its flag. -/
theorem typeByte_split {b : Nat} (h : b < 256) :
    b = b % bDelete + (if decide (bDelete ≤ b) = true then bDelete else 0) := by
  unfold bDelete
  by_cases hb : 128 ≤ b
  · rw [if_pos (decide_eq_true hb)]
    omega
  · rw [if_neg (by simpa using hb)]
    omega

omit hps in
theorem typeByte_join {b type : Nat} {deleted : Bool} (htype : type < bDelete)
    (h : b = type + (if deleted then bDelete else 0)) :
    decide (bDelete ≤ b) = deleted ∧ b % bDelete = type := by
  simp only [bDelete] at htype h ⊢
  cases deleted with
  | true =>
    simp only [if_true] at h
    exact ⟨decide_eq_true (by omega), by omega⟩
  | false =>
    simp only [Bool.false_eq_true, if_false] at h
    exact ⟨decide_eq_false (by omega), by omega⟩

theorem readLeafItem_returns {pgno i : Nat} {item : Item} :
    (f.readLeafItem pgno h i).Returns item ↔ pgno < f.numPages ∧
      ∃ off e, Indexed f pgno h.entries i 3 off ∧ EntryIs f pgno off e ∧ item = e.item := by
  have hbyte : ∀ off, pgno < f.numPages → off + 3 ≤ f.pagesize →
      f.num (pgno * f.pagesize + off + 2) 1 < 256 := by
    intro off hin hoff
    have hpage := page_in_buf hin
    exact num_lt (by omega)
  simp only [readLeafItem, get8, get16, get32, bind_returns, pageOffset_returns, itemOffset_returns,
    get_returns, and_assoc, exists_eq_left]
  constructor
  · rintro ⟨hin, off, -, hindexed, -, -, h⟩
    have hflag := typeByte_split (hbyte off hin hindexed.onPage)
    refine ⟨hin, off, ?_⟩
    split_ifs at h with hkeydata hoverflow hdeleted
    · simp only [bind_returns, throwIf_returns, copy_returns, pure_returns, Guard.exists_unit,
        exists_eq_left, not_lt] at h
      rcases h with ⟨hfits, rfl⟩
      refine ⟨⟨_, .onPage (f.bytes (pgno * f.pagesize + off + 3)
        (pgno * f.pagesize + off + 3 + f.num (pgno * f.pagesize + off) 2))⟩, hindexed, ?_, rfl⟩
      have hpage := page_in_buf hin
      have hlen : (f.bytes (pgno * f.pagesize + off + 3)
          (pgno * f.pagesize + off + 3 + f.num (pgno * f.pagesize + off) 2)).length =
            f.num (pgno * f.pagesize + off) 2 := by
        rw [length_bytes (by omega)]
        omega
      rw [hkeydata] at hflag
      refine ⟨hlen.symm, hflag, ?_, ?_⟩
      · rw [hlen]
        exact hfits
      · rw [hlen]
    · simp only [bind_returns, throwIf_returns, get_returns, pure_returns, Guard.exists_unit,
        exists_eq_left, and_assoc, not_lt] at h
      rcases h with ⟨hfits, -, -, rfl⟩
      rw [hoverflow, if_pos hdeleted] at hflag
      exact ⟨⟨true, .erased _ _⟩, hindexed, ⟨rfl, hflag, hfits, rfl, rfl⟩, by rw [hdeleted]; rfl⟩
    · simp only [bind_returns, throwIf_returns, get_returns, pure_returns, Guard.exists_unit,
        exists_eq_left, and_assoc, not_lt, readOverflow_returns hps] at h
      rcases h with ⟨hfits, -, -, data, ⟨parts, hparts, rfl⟩, rfl⟩
      rw [hoverflow, if_neg hdeleted, Nat.add_zero] at hflag
      have hlive : decide (bDelete ≤ f.num (pgno * f.pagesize + off + 2) 1) = false := by
        simpa using hdeleted
      exact ⟨⟨false, .chain parts⟩, hindexed, ⟨rfl, hflag, hfits, hparts⟩, by rw [hlive]; rfl⟩
    · exact absurd h fail_returns
  · rintro ⟨hin, off, e, hindexed, he, rfl⟩
    have hpage := page_in_buf hin
    have honPage := hindexed.onPage
    refine ⟨hin, off, hin, hindexed, by omega, by omega, ?_⟩
    rcases e with ⟨deleted, data | parts | ⟨first, total⟩⟩
    · rcases he with ⟨hlen, htype, hfits, hdata⟩
      rcases typeByte_join (by decide) htype with ⟨hdeleted, hkeydata⟩
      rw [hdeleted, hkeydata, if_pos rfl, hlen]
      simp only [bind_returns, throwIf_returns, copy_returns, pure_returns, Guard.exists_unit,
        exists_eq_left, not_lt]
      exact ⟨hfits, by rw [hdata]; rfl⟩
    · rcases he with ⟨hlive, htype, hfits, hparts⟩
      obtain rfl : deleted = false := hlive
      have hjoin : decide (bDelete ≤ f.num (pgno * f.pagesize + off + 2) 1) = false ∧
          f.num (pgno * f.pagesize + off + 2) 1 % bDelete = bOverflow :=
        typeByte_join (by decide) htype
      rw [hjoin.1, hjoin.2, if_neg (by decide), if_pos rfl]
      simp only [bind_returns, throwIf_returns, get_returns, pure_returns, Guard.exists_unit,
        exists_eq_left, and_assoc, not_lt, readOverflow_returns hps, Bool.false_eq_true, if_false]
      exact ⟨hfits, by omega, by omega, _, ⟨parts, hparts, rfl⟩, rfl⟩
    · rcases he with ⟨hdead, htype, hfits, -, -⟩
      obtain rfl : deleted = true := hdead
      have hjoin : decide (bDelete ≤ f.num (pgno * f.pagesize + off + 2) 1) = true ∧
          f.num (pgno * f.pagesize + off + 2) 1 % bDelete = bOverflow :=
        typeByte_join (by decide) htype
      rw [hjoin.1, hjoin.2, if_neg (by decide), if_pos rfl]
      simp only [bind_returns, throwIf_returns, get_returns, pure_returns, Guard.exists_unit,
        exists_eq_left, and_assoc, not_lt, if_true]
      exact ⟨hfits, by omega, by omega, rfl⟩

omit hps in
theorem readInternalChild_returns {pgno base i child : Nat}
    (hbase : base = pgno * f.pagesize) :
    (f.readInternalChild pgno base h i).Returns child ↔ pgno < f.numPages ∧
      ∃ off data, Indexed f pgno h.entries i 12 off ∧ InternalItemIs f pgno off child (.onPage data) := by
  subst hbase
  have htype : ∀ b, b < 256 → (b % bDelete = bKeydata ∧ ¬ bDelete ≤ b ↔ b = bKeydata) := by
    intro b hb
    simp only [bDelete, bKeydata]
    omega
  simp only [readInternalChild, get8, get16, get32, bind_returns, itemOffset_returns, get_returns,
    throwIf_returns, Guard.exists_unit, exists_eq_left, and_assoc, not_lt, ne_eq, not_not]
  constructor
  · rintro ⟨off, hin, hindexed, -, hbyte, hkeydata, hfits, hlive, rfl, -⟩
    have hpage := page_in_buf hin
    have honPage := hindexed.onPage
    have hlen : (f.bytes (pgno * f.pagesize + off + 12)
        (pgno * f.pagesize + off + 12 + f.num (pgno * f.pagesize + off) 2)).length =
          f.num (pgno * f.pagesize + off) 2 := by
      rw [length_bytes (by omega)]
      omega
    have hkey := (htype _ (num_lt (by omega))).1 ⟨hkeydata, hlive⟩
    exact ⟨hin, off, _, hindexed, hfits, rfl, hkey, hlen.symm, by rw [hlen]⟩
  · rintro ⟨hin, off, data, hindexed, hfits, rfl, hkey, -, -⟩
    have hpage := page_in_buf hin
    have honPage := hindexed.onPage
    rcases (htype _ (num_lt (by omega))).2 hkey with ⟨hkeydata, hlive⟩
    exact ⟨off, hin, hindexed, by omega, by omega, hkeydata, hfits, hlive, rfl, by omega⟩

end

end BDBFile

/-! ## Leaf pages -/

theorem flatPairs_cons (p : Entry × Entry) (pairs : List (Entry × Entry)) :
    flatPairs (p :: pairs) = p.1 :: p.2 :: flatPairs pairs :=
  rfl

theorem pairUp_flatPairs (pairs : List (Entry × Entry)) :
    pairUp ((flatPairs pairs).map Entry.item) =
      some (pairs.map fun p => (p.1.item, p.2.item)) := by
  induction pairs with
  | nil => rfl
  | cons p pairs ih =>
    rw [flatPairs_cons, List.map_cons, List.map_cons, pairUp, ih]
    rfl

theorem pairUp_eq_some : ∀ {es : List Entry} {items : List (Item × Item)},
    pairUp (es.map Entry.item) = some items →
      ∃ pairs, es = flatPairs pairs ∧ items = pairs.map fun p => (p.1.item, p.2.item)
  | [], _, h => ⟨[], rfl, (Option.some.inj h).symm⟩
  | [_], _, h => by cases h
  | k :: v :: es, items, h => by
    rw [List.map_cons, List.map_cons, pairUp, Option.map_eq_some_iff] at h
    rcases h with ⟨rest, hrest, rfl⟩
    rcases pairUp_eq_some hrest with ⟨pairs, rfl, rfl⟩
    exact ⟨(k, v) :: pairs, rfl, rfl⟩

theorem livePairs_item (pairs : List (Entry × Entry)) :
    livePairs (pairs.map fun p => (p.1.item, p.2.item)) = liveRecords pairs := by
  induction pairs with
  | nil => rfl
  | cons p pairs ih =>
    simp only [livePairs, liveRecords, List.map_cons, List.filter_cons] at ih ⊢
    split_ifs with hlive hlive' hlive'
    · rw [List.map_cons, List.map_cons, ih]
      rfl
    · exact absurd hlive hlive'
    · exact absurd hlive' hlive
    · exact ih

section

variable {f : BDBFile} (hps : 512 ≤ f.pagesize)
include hps

theorem readLeafItems_returns {items : List Item}
    (hin : pgno < f.numPages) :
    (f.readLeafItems pgno h).Returns items ↔
      ∃ es, List.Forall₂ (fun i e => ∃ off, Indexed f pgno h.entries i 3 off ∧ EntryIs f pgno off e)
        (List.range h.entries) es ∧ items = es.map Entry.item := by
  rw [BDBFile.readLeafItems, collect_returns]
  generalize List.range h.entries = is
  induction is generalizing items with
  | nil =>
    simp only [List.forall₂_nil_left_iff]
    constructor
    · rintro rfl
      exact ⟨[], rfl, rfl⟩
    · rintro ⟨es, rfl, rfl⟩
      rfl
  | cons i is ih =>
    constructor
    · intro hall
      rcases List.forall₂_cons_left_iff.1 hall with ⟨item, items', hitem, hitems, rfl⟩
      rcases ((BDBFile.readLeafItem_returns hps).1 hitem).2 with ⟨off, e, hindexed, he, rfl⟩
      rcases ih.1 hitems with ⟨es, hes, rfl⟩
      exact ⟨e :: es, .cons ⟨off, hindexed, he⟩ hes, rfl⟩
    · rintro ⟨es, hes, rfl⟩
      rcases List.forall₂_cons_left_iff.1 hes with ⟨e, es', ⟨off, hindexed, he⟩, hes', rfl⟩
      rw [List.map_cons]
      exact .cons ((BDBFile.readLeafItem_returns hps).2 ⟨hin, off, e, hindexed, he, rfl⟩)
        (ih.2 ⟨es', hes', rfl⟩)

theorem leafPairs_sound {records : RecordList} (hin : pgno < f.numPages)
    (hself : f.num (pgno * f.pagesize + 8) 4 = pgno) (htype : (f.headerAt pgno).type = pLbtree)
    (h : (leafPairs f pgno (f.headerAt pgno)).Returns records) :
    ∃ pairs, LeafIs f pgno pairs ∧ records = liveRecords pairs := by
  simp only [leafPairs, bind_returns, emit_returns, Guard.exists_unit, true_and,
    readLeafItems_returns hps hin] at h
  rcases h with ⟨items, ⟨es, hes, rfl⟩, h⟩
  cases hpairs : pairUp (es.map Entry.item) with
  | none =>
    rw [hpairs] at h
    exact absurd h fail_returns
  | some paired =>
    rw [hpairs] at h
    rcases pairUp_eq_some hpairs with ⟨pairs, rfl, rfl⟩
    have hrecords := pure_returns.1 h
    rw [livePairs_item] at hrecords
    have hlength : (f.headerAt pgno).entries = (flatPairs pairs).length := by
      rw [← hes.length_eq, List.length_range]
    refine ⟨pairs, ⟨⟨(f.headerAt pgno).level, hin, hself, hlength, rfl, htype⟩, ?_⟩, hrecords.symm⟩
    rw [← hlength]
    exact hes

theorem leafPairs_complete {pairs : List (Entry × Entry)} (h : LeafIs f pgno pairs) :
    (leafPairs f pgno (f.headerAt pgno)).Returns (liveRecords pairs) := by
  rcases h with ⟨⟨level, hpage⟩, hitems⟩
  have hentries : (f.headerAt pgno).entries = (flatPairs pairs).length := hpage.entries
  rw [← hentries] at hitems
  simp only [leafPairs, bind_returns, emit_returns, Guard.exists_unit, true_and,
    readLeafItems_returns hps hpage.inFile]
  refine ⟨_, ⟨_, hitems, rfl⟩, ?_⟩
  rw [pairUp_flatPairs]
  exact pure_returns.2 (livePairs_item pairs)

omit hps in
/-- The children of an internal page whose keys are all on it. -/
theorem readInternalChildren_returns {children : List Nat}
    (hin : pgno < f.numPages) :
    (f.readInternalChildren pgno h).Returns children ↔
      ∃ items : List (Nat × InternalKey), List.Forall₂ (fun i c => ∃ off,
          Indexed f pgno h.entries i 12 off ∧ InternalItemIs f pgno off c.1 c.2)
        (List.range h.entries) items ∧ (∀ c ∈ items, ∃ data, c.2 = .onPage data) ∧
        children = items.map Prod.fst := by
  simp only [BDBFile.readInternalChildren, bind_returns, emit_returns, Guard.exists_unit, true_and,
    BDBFile.pageOffset_returns, collect_returns, and_assoc, exists_eq_left, hin]
  generalize List.range h.entries = is
  induction is generalizing children with
  | nil =>
    simp only [List.forall₂_nil_left_iff]
    constructor
    · rintro rfl
      exact ⟨[], rfl, fun _ hc => absurd hc List.not_mem_nil, rfl⟩
    · rintro ⟨items, rfl, -, rfl⟩
      rfl
  | cons i is ih =>
    constructor
    · intro hall
      rcases List.forall₂_cons_left_iff.1 hall with ⟨child, children', hchild, hrest, rfl⟩
      rcases ((BDBFile.readInternalChild_returns rfl).1 hchild).2 with ⟨off, data, hindexed, hitem⟩
      rcases ih.1 hrest with ⟨items, hitems, hkeys, rfl⟩
      refine ⟨(child, .onPage data) :: items, .cons ⟨off, hindexed, hitem⟩ hitems, ?_, rfl⟩
      intro c hc
      rcases List.mem_cons.1 hc with rfl | hc
      · exact ⟨data, rfl⟩
      · exact hkeys c hc
    · rintro ⟨items, hitems, hkeys, rfl⟩
      rcases List.forall₂_cons_left_iff.1 hitems with ⟨c, items', ⟨off, hindexed, hitem⟩, hrest, rfl⟩
      rcases hkeys c List.mem_cons_self with ⟨data, hdata⟩
      rw [hdata] at hitem
      rw [List.map_cons]
      exact .cons ((BDBFile.readInternalChild_returns rfl).2 ⟨hin, off, data, hindexed, hitem⟩)
        (ih.2 ⟨items', hrest, fun c hc => hkeys c (List.mem_cons_of_mem _ hc), rfl⟩)

end

end BerkeleyRO

end Dobbscoin
