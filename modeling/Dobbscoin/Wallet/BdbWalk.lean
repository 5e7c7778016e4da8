import Dobbscoin.Wallet.BdbPages

/-!
# The walk over the btree

The walk returns from a stack exactly when the pages on it are the roots of btrees that the file holds, and
what it adds are their records.
-/

namespace Dobbscoin

namespace BerkeleyRO

open Traced

/-! ## Records -/

theorem insertAll_returns {records m : RecordMap} {rs : RecordList}
    (hnodup : (records.map Prod.fst).Nodup) :
    (insertAll records rs).Returns m ↔
      ((records ++ rs).map Prod.fst).Nodup ∧ m = records ++ rs := by
  induction rs generalizing records with
  | nil =>
    rw [insertAll, pure_returns, List.append_nil]
    exact ⟨fun h => ⟨hnodup, h.symm⟩, fun h => h.2.symm⟩
  | cons r rs ih =>
    rw [insertAll, RecordMap.insert]
    have hsplit : records ++ r :: rs = (records ++ [r]) ++ rs := by simp
    by_cases hmem : r.1 ∈ records.map Prod.fst
    · rw [if_pos hmem]
      refine ⟨fun h => absurd h fail_returns, ?_⟩
      rintro ⟨hkeys, -⟩
      rw [List.map_append, List.nodup_append] at hkeys
      exact absurd rfl (hkeys.2.2 r.1 hmem r.1 (by simp))
    · rw [if_neg hmem, hsplit]
      apply ih
      rw [List.map_append, List.nodup_append]
      refine ⟨hnodup, by simp, ?_⟩
      intro a ha b hb
      rw [List.map_cons, List.map_nil, List.mem_singleton] at hb
      rintro rfl
      exact hmem (hb ▸ ha)

/-! ## Btrees side by side -/

namespace Forest

def append : Forest → Forest → Forest
  | nil, u => u
  | leaf pgno pairs rest, u => leaf pgno pairs (rest.append u)
  | node pgno keys children rest, u => node pgno keys children (rest.append u)

@[simp] theorem roots_append (t u : Forest) : (t.append u).roots = t.roots ++ u.roots := by
  induction t with
  | nil => rfl
  | leaf pgno pairs rest ih => simp only [append, roots, ih, List.cons_append]
  | node pgno keys children rest _ ih => simp only [append, roots, ih, List.cons_append]

@[simp] theorem pages_append (t u : Forest) : (t.append u).pages = u.pages ++ t.pages := by
  induction t with
  | nil => simp [append, pages]
  | leaf pgno pairs rest ih => simp only [append, pages, ih, List.append_assoc]
  | node pgno keys children rest _ ih => simp only [append, pages, ih, List.append_assoc]

@[simp] theorem leaves_append (t u : Forest) : (t.append u).leaves = u.leaves ++ t.leaves := by
  induction t with
  | nil => simp [append, leaves]
  | leaf pgno pairs rest ih => simp only [append, leaves, ih, List.append_assoc]
  | node pgno keys children rest _ ih => simp only [append, leaves, ih, List.append_assoc]

theorem records_append (t u : Forest) : (t.append u).records = u.records ++ t.records := by
  simp only [records, leaves_append, List.flatMap_append]

theorem KeysOnPage.append {t u : Forest} (ht : t.KeysOnPage) (hu : u.KeysOnPage) :
    (t.append u).KeysOnPage := by
  induction t with
  | nil => exact hu
  | leaf pgno pairs rest ih => exact ih ht
  | node pgno keys children rest _ ih => exact ⟨ht.1, ht.2.1, ih ht.2.2⟩

theorem Holds.append {f : BDBFile} {level : Nat} {t u : Forest} (ht : t.Holds f level)
    (hu : u.Holds f level) : (t.append u).Holds f level := by
  induction t with
  | nil => exact hu
  | leaf pgno pairs rest ih => exact ⟨ht.1, ht.2.1, ht.2.2.1, ih ht.2.2.2⟩
  | node pgno keys children rest _ ih =>
    exact ⟨ht.1, ht.2.1, ht.2.2.1, ht.2.2.2.1, ih ht.2.2.2.2⟩

/-- Btrees in the order of the walk, which takes the last one first. -/
def ofVisited : List Forest → Forest
  | [] => nil
  | t :: ts => (ofVisited ts).append t

theorem pages_ofVisited (ts : List Forest) : (ofVisited ts).pages = ts.flatMap pages := by
  induction ts with
  | nil => rfl
  | cons t ts ih => rw [ofVisited, pages_append, ih, List.flatMap_cons]

theorem records_ofVisited (ts : List Forest) : (ofVisited ts).records = ts.flatMap records := by
  induction ts with
  | nil => rfl
  | cons t ts ih => rw [ofVisited, records_append, ih, List.flatMap_cons]

end Forest

/-- What a stack entry stands for. -/
structure Stands (f : BDBFile) (e : Nat × Int) (t : Forest) : Prop where
  roots : t.roots = [e.1]
  keysOnPage : t.KeysOnPage
  holds : ∃ level : Nat, t.Holds f level ∧ (0 ≤ e.2 → e.2 = level)

/-- The children of one page, last one first, are the btrees below it. -/
theorem ofVisited_stands {f : BDBFile} {level : Nat} {children : List Nat} {ts : List Forest}
    (h : List.Forall₂ (Stands f) (children.reverse.map fun c => (c, (level : Int))) ts) :
    (Forest.ofVisited ts).roots = children ∧ (Forest.ofVisited ts).KeysOnPage ∧
      (Forest.ofVisited ts).Holds f level := by
  induction ts generalizing children with
  | nil =>
    rw [List.forall₂_nil_right_iff, List.map_eq_nil_iff, List.reverse_eq_nil_iff] at h
    rw [h]
    exact ⟨rfl, trivial, trivial⟩
  | cons t ts ih =>
    -- The first in the order of the walk is the last child.
    rcases List.forall₂_cons_right_iff.1 h with ⟨e, es, ht, hts, heq⟩
    rcases List.eq_nil_or_concat children with rfl | ⟨front, c, rfl⟩
    · simp at heq
    · rw [List.concat_eq_append, List.reverse_append, List.reverse_singleton, List.singleton_append,
        List.map_cons] at heq
      obtain ⟨rfl, rfl⟩ := List.cons.inj heq.symm
      rcases ih hts with ⟨hroots, hkeys, hholds⟩
      rcases ht.holds with ⟨level', ht', hlevel⟩
      have hsame : level' = level := (Int.ofNat.inj (hlevel (Int.natCast_nonneg level))).symm
      rw [hsame] at ht'
      refine ⟨?_, hkeys.append ht.keysOnPage, hholds.append ht'⟩
      rw [Forest.ofVisited, Forest.roots_append, hroots, ht.roots, List.concat_eq_append]

/-! ## The walk -/

theorem forall₂_append {α β : Type} {R : α → β → Prop} {xs ys : List α} {zs : List β}
    (h : List.Forall₂ R (xs ++ ys) zs) :
    ∃ as bs, List.Forall₂ R xs as ∧ List.Forall₂ R ys bs ∧ zs = as ++ bs := by
  induction xs generalizing zs with
  | nil => exact ⟨[], zs, .nil, h, rfl⟩
  | cons x xs ih =>
    rcases List.forall₂_cons_left_iff.1 h with ⟨z, zs', hz, hzs, rfl⟩
    rcases ih hzs with ⟨as, bs, has, hbs, rfl⟩
    exact ⟨z :: as, bs, .cons hz has, hbs, rfl⟩

/-- One page more in front of pages that were visited after it. -/
theorem fresh_cons {pgno : Nat} {visited ps : List Nat} (hvisited : pgno ∉ visited) (hnodup : ps.Nodup)
    (hfresh : ∀ p ∈ ps, p ∉ pgno :: visited) :
    (pgno :: ps).Nodup ∧ ∀ p ∈ pgno :: ps, p ∉ visited := by
  refine ⟨List.nodup_cons.2 ⟨fun hmem => hfresh pgno hmem List.mem_cons_self, hnodup⟩, ?_⟩
  intro p hp
  rcases List.mem_cons.1 hp with rfl | hp
  · exact hvisited
  · exact fun hmem => hfresh p hp (List.mem_cons_of_mem _ hmem)

section

variable {f : BDBFile} (hps : 512 ≤ f.pagesize)
include hps

theorem walk_sound {fuel : Nat} {visited : List Nat} {stack : List (Nat × Int)} {records m : RecordMap}
    (hnodup : (records.map Prod.fst).Nodup) (h : (walk f fuel visited stack records).Returns m) :
    ∃ ts, List.Forall₂ (Stands f) stack ts ∧ (ts.flatMap Forest.pages).Nodup ∧
      (∀ p ∈ ts.flatMap Forest.pages, p ∉ visited) ∧ m = records ++ ts.flatMap Forest.records ∧
      (m.map Prod.fst).Nodup := by
  induction fuel generalizing visited stack records with
  | zero => exact absurd h fail_returns
  | succ fuel ih =>
    cases stack with
    | nil =>
      obtain rfl := pure_returns.1 h
      exact ⟨[], .nil, List.nodup_nil, fun _ hp => absurd hp List.not_mem_nil, by simp, hnodup⟩
    | cons entry stack =>
      rcases entry with ⟨pgno, expectedLevel⟩
      simp only [walk, bind_returns, throwIf_returns, BDBFile.readHeader_returns hps,
        Guard.exists_unit, and_assoc, exists_and_left, exists_eq_left, not_and, ne_eq, not_not] at h
      rcases h with ⟨hvisited, hin, hself, hexpected, h⟩
      split_ifs at h with hnode hleaf
      · simp only [bind_returns, throwIf_returns, Guard.exists_unit, not_le] at h
        rcases h with ⟨hlevel, children, hchildren, hrest⟩
        rcases (readInternalChildren_returns hin).1 hchildren with ⟨items, hitems, hkeys, rfl⟩
        rcases ih hnodup hrest with ⟨ts, hts, hpages, hfresh, hm, hmkeys⟩
        rcases forall₂_append hts with ⟨below, right, hbelow, hright, rfl⟩
        have hchildLevel : ((f.headerAt pgno).level : Int) - 1 = (((f.headerAt pgno).level - 1 : Nat) : Int) := by
          unfold leafLevel at hlevel
          omega
        rw [← List.map_reverse, hchildLevel] at hbelow
        rcases ofVisited_stands hbelow with ⟨hroots, hbelowKeys, hbelowHolds⟩
        have hlen : (f.headerAt pgno).entries = items.length := by
          rw [← hitems.length_eq, List.length_range]
        have hzip : (items.map Prod.fst).zip (items.map Prod.snd) = items := by
          rw [List.zip_map', List.map_id'']
          exact fun _ => rfl
        have hlist : (Forest.node pgno (items.map Prod.snd) (Forest.ofVisited below) .nil ::
            right).flatMap Forest.pages = pgno :: (below ++ right).flatMap Forest.pages := by
          rw [List.flatMap_cons, List.flatMap_append, ← Forest.pages_ofVisited below]
          rfl
        have hall := fresh_cons hvisited hpages hfresh
        refine ⟨.node pgno (items.map Prod.snd) (Forest.ofVisited below) .nil :: right,
          .cons ⟨rfl, ⟨?_, hbelowKeys, trivial⟩, ?_⟩ hright, ?_, ?_, ?_, hmkeys⟩
        · intro k hk
          rcases List.mem_map.1 hk with ⟨c, hc, rfl⟩
          exact hkeys c hc
        · refine ⟨(f.headerAt pgno).level, ⟨hlevel, ?_, ?_, hbelowHolds, trivial⟩, fun he => (hexpected he).symm⟩
          · rw [hroots, List.length_map, List.length_map]
          · rw [hroots, hzip]
            refine ⟨⟨hin, hself, hlen, rfl, hnode⟩, ?_⟩
            rw [← hlen]
            exact hitems
        · rw [hlist]
          exact hall.1
        · rw [hlist]
          exact hall.2
        · rw [hm, List.flatMap_append, List.flatMap_cons, ← Forest.records_ofVisited below]
          rfl
      · simp only [bind_returns, throwIf_returns, Guard.exists_unit, not_not] at h
        rcases h with ⟨hlevel, pairs, hpairs, records', hinsert, hrest⟩
        rcases leafPairs_sound hps hin hself hleaf hpairs with ⟨entries, hentries, rfl⟩
        rcases (insertAll_returns hnodup).1 hinsert with ⟨hkeys, rfl⟩
        rcases ih hkeys hrest with ⟨ts, hts, hpages, hfresh, hm, hmkeys⟩
        have hall := fresh_cons hvisited hpages hfresh
        refine ⟨.leaf pgno entries .nil :: ts, .cons ⟨rfl, trivial, leafLevel,
          ⟨rfl, hlevel, hentries, trivial⟩, fun he => ?_⟩ hts, ?_, ?_, ?_, hmkeys⟩
        · rw [← hlevel]
          exact (hexpected he).symm
        · exact hall.1
        · exact hall.2
        · rw [hm, List.flatMap_cons, List.append_assoc]
          have hrecords : (Forest.leaf pgno entries .nil).records = liveRecords entries := by
            simp [Forest.records, Forest.leaves]
          rw [hrecords]
      · exact absurd h fail_returns

/-- One step, on a leaf page. -/
theorem walk_leaf {fuel pgno : Nat} {expected : Int} {visited : List Nat} {stack : List (Nat × Int)}
    {records m : RecordMap} {pairs : List (Entry × Entry)} (hleaf : LeafIs f pgno pairs)
    (hlevel : f.num (pgno * f.pagesize + 24) 1 = leafLevel) (hvisited : pgno ∉ visited)
    (hexpected : 0 ≤ expected → expected = leafLevel) (hnodup : (records.map Prod.fst).Nodup)
    (hkeys : ((records ++ liveRecords pairs).map Prod.fst).Nodup)
    (hrest : (walk f fuel (pgno :: visited) stack (records ++ liveRecords pairs)).Returns m) :
    (walk f (fuel + 1) visited ((pgno, expected) :: stack) records).Returns m := by
  rcases hleaf.page with ⟨level, hpage⟩
  have hheaderLevel : (f.headerAt pgno).level = leafLevel := hlevel
  have htype : (f.headerAt pgno).type = pLbtree := hpage.type
  have hother : ¬ (f.headerAt pgno).type = pIbtree := by
    rw [htype]
    decide
  simp only [walk, bind_returns, throwIf_returns, BDBFile.readHeader_returns hps, Guard.exists_unit,
    and_assoc, exists_and_left, exists_eq_left, not_and, ne_eq, not_not]
  refine ⟨hvisited, hpage.inFile, hpage.self, fun he => ?_, ?_⟩
  · rw [hheaderLevel]
    exact (hexpected he).symm
  · rw [if_neg hother, if_pos htype]
    simp only [bind_returns, throwIf_returns, Guard.exists_unit, not_not]
    exact ⟨hheaderLevel, _, leafPairs_complete hps hleaf, _, (insertAll_returns hnodup).2 ⟨hkeys, rfl⟩,
      hrest⟩

/-- One step, on an internal page. -/
theorem walk_node {fuel pgno level : Nat} {expected : Int} {visited : List Nat}
    {stack : List (Nat × Int)} {records m : RecordMap} {items : List (Nat × InternalKey)}
    (hnode : NodeIs f pgno level items) (hlevel : leafLevel < level)
    (hkeys : ∀ c ∈ items, ∃ data, c.2 = .onPage data) (hvisited : pgno ∉ visited)
    (hexpected : 0 ≤ expected → expected = level)
    (hrest : (walk f fuel (pgno :: visited)
      (((items.map Prod.fst).map fun c => (c, ((level - 1 : Nat) : Int))).reverse ++ stack)
        records).Returns m) :
    (walk f (fuel + 1) visited ((pgno, expected) :: stack) records).Returns m := by
  have hpage := hnode.page
  have hheaderLevel : (f.headerAt pgno).level = level := hpage.level
  have htype : (f.headerAt pgno).type = pIbtree := hpage.type
  have hitems := hnode.items
  have hentries : (f.headerAt pgno).entries = items.length := hpage.entries
  rw [← hentries] at hitems
  have hchildLevel : (level : Int) - 1 = ((level - 1 : Nat) : Int) := by
    unfold leafLevel at hlevel
    omega
  simp only [walk, bind_returns, throwIf_returns, BDBFile.readHeader_returns hps, Guard.exists_unit,
    and_assoc, exists_and_left, exists_eq_left, not_and, ne_eq, not_not]
  refine ⟨hvisited, hpage.inFile, hpage.self, fun he => ?_, ?_⟩
  · rw [hheaderLevel]
    exact (hexpected he).symm
  · rw [if_pos htype]
    simp only [bind_returns, throwIf_returns, Guard.exists_unit, not_le, hheaderLevel, hchildLevel]
    exact ⟨hlevel, _, (readInternalChildren_returns hpage.inFile).2 ⟨items, hitems, hkeys, rfl⟩, hrest⟩

theorem walk_complete {t : Forest} {level fuel : Nat} {expected : Int} {visited : List Nat}
    {stack : List (Nat × Int)} {records m : RecordMap} (ht : t.Holds f level) (hkeys : t.KeysOnPage)
    (hexpected : 0 ≤ expected → expected = level) (hpages : t.pages.Nodup)
    (hfresh : ∀ p ∈ t.pages, p ∉ visited) (hnodup : ((records ++ t.records).map Prod.fst).Nodup)
    (hrest : (walk f fuel (t.pages.reverse ++ visited) stack (records ++ t.records)).Returns m) :
    (walk f (t.pages.length + fuel) visited
      ((t.roots.map fun p => (p, expected)).reverse ++ stack) records).Returns m := by
  induction t generalizing level fuel expected visited stack records with
  | nil =>
    have hfuel : Forest.nil.pages.length + fuel = fuel := Nat.zero_add fuel
    have hsame : records ++ Forest.nil.records = records := List.append_nil records
    rw [hfuel]
    rw [hsame] at hrest
    exact hrest
  | leaf pgno pairs rest ih =>
    rcases ht with ⟨rfl, hlevel, hleaf, ht⟩
    -- The other btrees come first, and the leaf page is on the stack below them.
    have hrecords : (Forest.leaf pgno pairs rest).records = rest.records ++ liveRecords pairs := by
      simp [Forest.records, Forest.leaves]
    rw [hrecords, ← List.append_assoc] at hnodup hrest
    have hfuel : (Forest.leaf pgno pairs rest).pages.length + fuel =
        rest.pages.length + (fuel + 1) := by
      simp only [Forest.pages, List.length_append, List.length_singleton]
      omega
    have hstack : ((Forest.leaf pgno pairs rest).roots.map fun p => (p, expected)).reverse ++ stack =
        (rest.roots.map fun p => (p, expected)).reverse ++ (pgno, expected) :: stack := by
      simp [Forest.roots]
    rw [Forest.pages, List.nodup_append] at hpages
    have hpgno : pgno ∉ rest.pages.reverse ++ visited := by
      intro hmem
      rcases List.mem_append.1 hmem with hmem | hmem
      · exact hpages.2.2 pgno (List.mem_reverse.1 hmem) pgno List.mem_cons_self rfl
      · exact hfresh pgno (List.mem_append_right _ List.mem_cons_self) hmem
    have hnodup' : ((records ++ rest.records).map Prod.fst).Nodup := by
      rw [List.map_append] at hnodup
      exact (List.nodup_append.1 hnodup).1
    have hvisit : (Forest.leaf pgno pairs rest).pages.reverse ++ visited =
        pgno :: (rest.pages.reverse ++ visited) := by
      simp [Forest.pages]
    rw [hvisit] at hrest
    rw [hfuel, hstack]
    exact ih ht hkeys hexpected hpages.1
      (fun p hp => hfresh p (List.mem_append_left _ hp)) hnodup'
      (walk_leaf hps hleaf hlevel hpgno hexpected hnodup' hnodup hrest)
  | node pgno keys children rest ihc ih =>
    rcases ht with ⟨hlevel, hlength, hnode, hchildren, ht⟩
    have hrecords : (Forest.node pgno keys children rest).records = rest.records ++ children.records := by
      simp [Forest.records, Forest.leaves]
    rw [hrecords, ← List.append_assoc] at hnodup hrest
    have hfuel : (Forest.node pgno keys children rest).pages.length + fuel =
        rest.pages.length + ((children.pages.length + fuel) + 1) := by
      simp only [Forest.pages, List.length_append, List.length_cons]
      omega
    have hstack : ((Forest.node pgno keys children rest).roots.map fun p => (p, expected)).reverse ++
        stack = (rest.roots.map fun p => (p, expected)).reverse ++ (pgno, expected) :: stack := by
      simp [Forest.roots]
    rw [Forest.pages, List.nodup_append, List.nodup_cons] at hpages
    rcases hpages with ⟨hrestPages, ⟨hself, hchildPages⟩, hdisjoint⟩
    have hpgno : pgno ∉ rest.pages.reverse ++ visited := by
      intro hmem
      rcases List.mem_append.1 hmem with hmem | hmem
      · exact hdisjoint pgno (List.mem_reverse.1 hmem) pgno List.mem_cons_self rfl
      · exact hfresh pgno (List.mem_append_right _ List.mem_cons_self) hmem
    have hchildFresh : ∀ p ∈ children.pages, p ∉ pgno :: (rest.pages.reverse ++ visited) := by
      intro p hp hmem
      rcases List.mem_cons.1 hmem with rfl | hmem
      · exact hself hp
      rcases List.mem_append.1 hmem with hmem | hmem
      · exact hdisjoint p (List.mem_reverse.1 hmem) p (List.mem_cons_of_mem _ hp) rfl
      · exact hfresh p (List.mem_append_right _ (List.mem_cons_of_mem _ hp)) hmem
    have hnodup' : ((records ++ rest.records).map Prod.fst).Nodup := by
      rw [List.map_append] at hnodup
      exact (List.nodup_append.1 hnodup).1
    have hvisit : (Forest.node pgno keys children rest).pages.reverse ++ visited =
        children.pages.reverse ++ pgno :: (rest.pages.reverse ++ visited) := by
      simp [Forest.pages]
    rw [hvisit] at hrest
    have hroots : (children.roots.zip keys).map Prod.fst = children.roots :=
      List.map_fst_zip hlength.ge
    have hitemKeys : ∀ c ∈ children.roots.zip keys, ∃ data, c.2 = .onPage data :=
      fun c hc => hkeys.1 c.2 (List.of_mem_zip hc).2
    rw [hfuel, hstack]
    refine ih ht hkeys.2.2 hexpected hrestPages (fun p hp => hfresh p (List.mem_append_left _ hp)) hnodup'
      (walk_node hps hnode hlevel hitemKeys hpgno hexpected ?_)
    rw [hroots]
    exact ihc hchildren hkeys.2.1 (fun _ => rfl) hchildPages hchildFresh hnodup hrest

end

end BerkeleyRO

end Dobbscoin
