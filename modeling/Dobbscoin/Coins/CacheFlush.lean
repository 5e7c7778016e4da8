import Dobbscoin.Coins.CacheStack

/-!
# Modifying and flushing layers

A modification changes the top map in one entry, a flush copies the map of a layer to the layer below;
both keep `StackOk`, and the assertion of `BatchWrite` holds.
-/

namespace Dobbscoin

namespace CCoinsViewCache

variable {base base' : CoinsView} {cache parent : CCoinsViewCache}
  {below below' layers layers' : List CCoinsViewCache}

/-! ## Modifications -/

/-- What `f` makes of a spent entry does not depend on what the spent entry still says. -/
def IgnoresSpent (f : CCoins → CCoins) : Prop :=
  ∀ c, c.isPruned = true → (f c).normal = (f CCoins.empty).normal

/-- The entry handed out stands for the entry of the map. -/
theorem IgnoresSpent.normal_eq {f : CCoins → CCoins} (hf : IgnoresSpent f) {v : CoinsView}
    {txid : UInt256} {c : CCoins} (hview : v.coins txid = c.normal) (htidy : c.cleanup = c) :
    (f c).normal = (f (v.entry txid)).normal := by
  cases hp : c.isPruned with
  | true =>
    have hnone : v.coins txid = none := hview.trans (CCoins.normal_eq_none.2 hp)
    simpa [CoinsView.entry, hnone] using hf c hp
  | false =>
    have hsome : v.coins txid = some c := by
      rw [hview, CCoins.normal_of_not_pruned hp, htidy]
    simp [CoinsView.entry, hsome]

theorem modifierEntry_spec (txid : UInt256) (h : StackOk base (cache :: below)) :
    SameViews base below (modifierEntry base txid cache below).2 ∧
      EntryOk base (modifierEntry base txid cache below).2 txid
        (modifierEntry base txid cache below).1 ∧
      (modifierEntry base txid cache below).1.dirty = true ∧
      lookupView base txid (cache :: below) =
        (modifierEntry base txid cache below).1.coins.normal := by
  cases hl : cache.cacheCoins.lookup txid with
  | some it =>
    have hit := h.entries hl
    simp only [modifierEntry, hl]
    exact ⟨SameViews.refl h.rest, ⟨hit.tidy, hit.fresh, by simp, hit.held⟩, trivial,
      lookupView_cons_some hl⟩
  | none =>
    rw [lookupView_cons_none hl]
    have hfetched := fetchCoins_spec txid h.rest
    rcases hf : fetchCoins base txid below with ⟨r, below'⟩
    rw [hf] at hfetched
    have hview := lookupView_eq_of_views hfetched.views txid
    have hreply := hfetched.reply
    cases r with
    | none =>
      simp only [modifierEntry, hl, hf]
      exact ⟨hfetched.toSameViews, ⟨rfl, fun _ => hview.trans hreply.symm, by simp, by simp⟩, trivial,
        hreply.symm⟩
    | some c =>
      have htidy := hfetched.tidy c rfl
      have hpulled : Held txid below' := hfetched.pulled (by simp)
      simp only [modifierEntry, hl, hf]
      refine ⟨hfetched.toSameViews, ⟨htidy, ?_, by simp, fun _ => hpulled⟩, trivial, hreply.symm⟩
      intro hp
      exact hview.trans (hreply.symm.trans (CCoins.normal_eq_none.2 hp))

theorem modifyCoins_spec {f : CCoins → CCoins} (hf : IgnoresSpent f) (txid : UInt256)
    (h : StackOk base (cache :: below)) :
    StackOk base (modifyCoins base txid f (cache :: below)) ∧
      views base (modifyCoins base txid f (cache :: below)) =
        (viewOf base (cache :: below)).modify txid f :: views base below := by
  rcases modifierEntry_spec txid h with ⟨hsame, hit, hdirty, hlookup⟩
  rcases hm : modifierEntry base txid cache below with ⟨it, below'⟩
  simp only [hm] at hsame hit hdirty hlookup
  have hcons := SameViews.cons h hsame
  have hviews : ∀ t, lookupView base t (cache :: below') = lookupView base t (cache :: below) :=
    lookupView_eq_of_views hcons.views
  have hbest : bestBlock base (cache :: below') = bestBlock base (cache :: below) :=
    congrArg CoinsView.hashBlock (viewOf_eq_of_views hcons.views)
  have hmodified : (f it.coins).cleanup.normal =
      (f ((viewOf base (cache :: below)).entry txid)).normal := by
    rw [CCoins.normal_cleanup]
    exact hf.normal_eq hlookup hit.tidy
  simp only [modifyCoins, hm]
  by_cases herase : (it.fresh && (f it.coins).cleanup.isPruned) = true
  · -- A fresh entry that was spent is dropped: below there is nothing either.
    rcases Bool.and_eq_true_iff.1 herase with ⟨hfresh, hpruned⟩
    rw [if_pos herase]
    refine ⟨hcons.ok.erase txid, ?_⟩
    simp only [views, hsame.views, List.cons.injEq, and_true]
    apply CoinsView.ext
    · intro t
      simp only [viewOf, lookupView_erase, CoinsView.modify]
      split_ifs with ht
      · subst ht
        rw [hit.fresh hfresh, CoinsView.set_coins_self]
        exact (CCoins.normal_eq_none.2 hpruned).symm.trans hmodified
      · rw [CoinsView.set_coins_of_ne _ ht]
        exact hviews t
    · exact hbest
  · rw [if_neg herase]
    have hentry : EntryOk base below' txid { it with coins := (f it.coins).cleanup } :=
      ⟨CCoins.cleanup_cleanup _, hit.fresh, by simp [hdirty], hit.held⟩
    refine ⟨hcons.ok.insert hentry, ?_⟩
    simp only [views, hsame.views, List.cons.injEq, and_true]
    apply CoinsView.ext
    · intro t
      simp only [viewOf, lookupView_insert, CoinsView.modify]
      split_ifs with ht
      · subst ht
        rw [CoinsView.set_coins_self]
        exact hmodified
      · rw [CoinsView.set_coins_of_ne _ ht]
        exact hviews t
    · exact hbest

theorem setBestBlock_spec {hash : UInt256} (hz : hash ≠ 0) (h : StackOk base (cache :: below)) :
    StackOk base (setBestBlock hash (cache :: below)) ∧
      views base (setBestBlock hash (cache :: below)) =
        (viewOf base (cache :: below)).setBestBlock hash :: views base below := by
  refine ⟨StackOk.cons (fun txid it hl => h.entries hl) (fun hzero => absurd hzero hz) h.rest, ?_⟩
  simp only [setBestBlock, views, List.cons.injEq, and_true]
  apply CoinsView.ext
  · intro txid
    exact lookupView_congr rfl rfl
  · simp only [viewOf, bestBlock, hz, if_false, CoinsView.setBestBlock]

/-! ## Writing a layer into the one below -/

/-- What `BatchWrite` makes of an entry of ours when the child has `it`. -/
def mergeEntry (ours : Option CCoinsCacheEntry) (it : CCoinsCacheEntry) : Option CCoinsCacheEntry :=
  if it.dirty = false then ours
  else
    match ours with
    | none => if it.coins.isPruned = true then none else some ⟨it.coins, true, true⟩
    | some itUs =>
      if itUs.fresh = true ∧ it.coins.isPruned = true then none
      else some { itUs with coins := it.coins, dirty := true }

/-- The assertion of `BatchWrite` holds for this entry. -/
def MayWrite (ours : Option CCoinsCacheEntry) (it : CCoinsCacheEntry) : Prop :=
  ours = none → it.coins.isPruned = false → it.fresh = true

theorem writeEntry_spec (m : CCoinsMap) (txid : UInt256) (it : CCoinsCacheEntry)
    (hmay : MayWrite (m.lookup txid) it) :
    ∃ m', writeEntry m txid it = .ok m' ∧ m'.lookup txid = mergeEntry (m.lookup txid) it ∧
      ∀ t, t ≠ txid → m'.lookup t = m.lookup t := by
  cases hd : it.dirty with
  | false => exact ⟨m, by simp [writeEntry, hd], by simp [mergeEntry, hd], fun _ _ => rfl⟩
  | true =>
    cases hl : m.lookup txid with
    | none =>
      cases hp : it.coins.isPruned with
      | true => exact ⟨m, by simp [writeEntry, hd, hl, hp], by simp [mergeEntry, hd, hp, hl],
          fun _ _ => rfl⟩
      | false =>
        have hfresh : it.fresh = true := hmay hl hp
        refine ⟨m.insert txid ⟨it.coins, true, true⟩, by simp [writeEntry, hd, hl, hp, hfresh],
          by simp [mergeEntry, hd, hp], ?_⟩
        intro t ht
        exact AList.lookup_insert_ne ht
    | some itUs =>
      by_cases herase : itUs.fresh = true ∧ it.coins.isPruned = true
      · refine ⟨m.erase txid, by simp [writeEntry, hd, hl, herase], by simp [mergeEntry, hd, herase], ?_⟩
        intro t ht
        exact AList.lookup_erase_ne ht
      · refine ⟨m.insert txid { itUs with coins := it.coins, dirty := true }, ?_,
          by simp [mergeEntry, hd, herase], ?_⟩
        · have hcond : (itUs.fresh && it.coins.isPruned) = false := by simpa using herase
          simp [writeEntry, hd, hl, hcond]
        · intro t ht
          exact AList.lookup_insert_ne ht

/-- Every entry of the child is merged once. -/
theorem writeEntries_spec (m : CCoinsMap) (entries : List (Sigma fun _ : UInt256 => CCoinsCacheEntry))
    (hkeys : entries.NodupKeys) (hmay : ∀ e ∈ entries, MayWrite (m.lookup e.1) e.2) :
    ∃ m', writeEntries m entries = .ok m' ∧ ∀ t, m'.lookup t =
      (entries.dlookup t).elim (m.lookup t) (mergeEntry (m.lookup t)) := by
  induction entries generalizing m with
  | nil => exact ⟨m, rfl, fun t => by simp⟩
  | cons e rest ih =>
    rcases e with ⟨txid, it⟩
    rcases List.nodupKeys_cons.1 hkeys with ⟨hnew, hrest⟩
    rcases writeEntry_spec m txid it (hmay ⟨txid, it⟩ (by simp)) with ⟨m₁, hw, hself, hother⟩
    have hmay₁ : ∀ e ∈ rest, MayWrite (m₁.lookup e.1) e.2 := by
      intro e he
      have hne : e.1 ≠ txid := by
        rintro rfl
        have hkey : e.1 ∈ rest.keys := List.mem_keys_of_mem he
        exact hnew hkey
      rw [hother e.1 hne]
      exact hmay e (List.mem_cons_of_mem _ he)
    rcases ih m₁ hrest hmay₁ with ⟨m', hws, hl⟩
    refine ⟨m', by simp only [writeEntries, hw, hws], ?_⟩
    intro t
    rw [hl t]
    by_cases ht : t = txid
    · subst ht
      have hnone : rest.dlookup t = none := List.dlookup_eq_none.2 hnew
      simp [hnone, hself]
    · rw [hother t ht, List.dlookup_cons_ne rest ⟨txid, it⟩ ht]

/-- The child's entry holds what the parent's, once merged, stands for. -/
theorem mergeEntry_spec {txid : UInt256} {it : CCoinsCacheEntry}
    (hit : EntryOk base (parent :: below) txid it)
    (hparent : ∀ e, parent.cacheCoins.lookup txid = some e → EntryOk base below txid e) :
    (∀ e, mergeEntry (parent.cacheCoins.lookup txid) it = some e → EntryOk base below txid e) ∧
      ((mergeEntry (parent.cacheCoins.lookup txid) it).elim (lookupView base txid below)
        fun e => e.coins.normal) = it.coins.normal := by
  cases hl : parent.cacheCoins.lookup txid with
  | none =>
    -- Only a fresh entry has no counterpart in the parent.
    have hfresh : it.fresh = true := by
      cases hf : it.fresh with
      | true => rfl
      | false => simpa [Held, hl] using hit.held hf
    have hnone : lookupView base txid below = none := by
      rw [← lookupView_cons_none hl]
      exact hit.fresh hfresh
    cases hd : it.dirty with
    | false =>
      have hclean := hit.clean hd
      rw [lookupView_cons_none hl] at hclean
      simpa [mergeEntry, hd] using hclean
    | true =>
      cases hp : it.coins.isPruned with
      | true => simp [mergeEntry, hd, hp, hnone, CCoins.normal_eq_none.2 hp]
      | false =>
        simp only [mergeEntry, hd, hp, Bool.true_eq_false, Bool.false_eq_true, if_false,
          Option.some.injEq, Option.elim_some, and_true]
        rintro e rfl
        exact ⟨hit.tidy, fun _ => hnone, by simp, by simp⟩
  | some itUs =>
    have hus := hparent itUs hl
    cases hd : it.dirty with
    | false =>
      have hclean := hit.clean hd
      rw [lookupView_cons_some hl] at hclean
      simp only [mergeEntry, hd, if_true, Option.some.injEq, Option.elim_some]
      exact ⟨fun e he => he ▸ hus, hclean⟩
    | true =>
      by_cases herase : itUs.fresh = true ∧ it.coins.isPruned = true
      · simp [mergeEntry, hd, herase, hus.fresh herase.1, CCoins.normal_eq_none.2 herase.2]
      · simp only [mergeEntry, hd, herase, Bool.true_eq_false, if_false, Option.some.injEq,
          Option.elim_some, and_true]
        rintro e rfl
        exact ⟨hit.tidy, hus.fresh, by simp, hus.held⟩

theorem batchWrite_spec (h : StackOk base (cache :: parent :: below)) :
    ∃ parent', parent.batchWrite cache.cacheCoins cache.hashBlock = .ok parent' ∧
      parent'.hashBlock = cache.hashBlock ∧
      (∀ txid e, parent'.cacheCoins.lookup txid = some e → EntryOk base below txid e) ∧
      ∀ txid, lookupView base txid (parent' :: below) =
        lookupView base txid (cache :: parent :: below) := by
  have hmay : ∀ e ∈ cache.cacheCoins.entries, MayWrite (parent.cacheCoins.lookup e.1) e.2 := by
    intro e he hnone _
    have hl : cache.cacheCoins.lookup e.1 = some e.2 :=
      AList.mem_lookup_iff.2 (by simpa using he)
    cases hf : e.2.fresh with
    | true => rfl
    | false => simpa [Held, hnone] using (h.entries hl).held hf
  rcases writeEntries_spec parent.cacheCoins cache.cacheCoins.entries cache.cacheCoins.nodupKeys hmay
    with ⟨m', hw, hl⟩
  refine ⟨⟨m', cache.hashBlock⟩, by simp only [batchWrite, hw], rfl, ?_, ?_⟩
  · intro txid e he
    rw [show m'.lookup txid = _ from hl txid] at he
    cases hc : cache.cacheCoins.entries.dlookup txid with
    | none => exact h.rest.entries (by simpa [hc] using he)
    | some it =>
      have hmerge := mergeEntry_spec (h.entries hc) fun e he => h.rest.entries he
      exact hmerge.1 e (by simpa [hc] using he)
  · intro txid
    have hl' := hl txid
    cases hc : cache.cacheCoins.entries.dlookup txid with
    | none =>
      rw [lookupView_cons_none hc]
      exact lookupView_congr (by simpa [hc] using hl') rfl
    | some it =>
      have hmerge := mergeEntry_spec (h.entries hc) fun e he => h.rest.entries he
      simp only [hc, Option.elim_some] at hl'
      rw [lookupView_cons_some hc, ← hmerge.2, lookupView_cons, ← hl']

theorem written_coins (base : CoinsView) (entries : List (Sigma fun _ : UInt256 => CCoinsCacheEntry))
    (hkeys : entries.NodupKeys) (txid : UInt256) :
    (entries.foldl (fun view e => if e.2.dirty then view.set e.1 e.2.coins else view) base).coins txid =
      (entries.dlookup txid).elim (base.coins txid) fun it =>
        if it.dirty = true then it.coins.normal else base.coins txid := by
  induction entries generalizing base with
  | nil => rfl
  | cons e rest ih =>
    rcases e with ⟨t, it⟩
    rcases List.nodupKeys_cons.1 hkeys with ⟨hnew, hrest⟩
    rw [List.foldl_cons, ih _ hrest]
    by_cases ht : txid = t
    · subst ht
      have hnone : rest.dlookup txid = none := List.dlookup_eq_none.2 hnew
      cases hd : it.dirty <;> simp [hnone, hd]
    · rw [List.dlookup_cons_ne rest ⟨t, it⟩ ht]
      cases hd : it.dirty <;> simp [CoinsView.set_coins_of_ne, ht]

theorem written_hashBlock (base : CoinsView)
    (entries : List (Sigma fun _ : UInt256 => CCoinsCacheEntry)) :
    (entries.foldl (fun view e => if e.2.dirty then view.set e.1 e.2.coins else view) base).hashBlock =
      base.hashBlock := by
  induction entries generalizing base with
  | nil => rfl
  | cons e rest ih =>
    rw [List.foldl_cons, ih]
    split_ifs <;> rfl

/-- The database takes over the map of the last layer. -/
theorem batchWriteBase_eq (h : StackOk base [cache]) :
    batchWriteBase base cache.cacheCoins cache.hashBlock = viewOf base [cache] := by
  apply CoinsView.ext
  · intro txid
    have hwritten := written_coins base cache.cacheCoins.entries cache.cacheCoins.nodupKeys txid
    have hcoins : (batchWriteBase base cache.cacheCoins cache.hashBlock).coins txid =
        (cache.cacheCoins.entries.foldl
          (fun view e => if e.2.dirty then view.set e.1 e.2.coins else view) base).coins txid := by
      unfold batchWriteBase
      split_ifs <;> rfl
    rw [hcoins, hwritten]
    cases hc : cache.cacheCoins.entries.dlookup txid with
    | none =>
      have hview : lookupView base txid [cache] = base.coins txid := lookupView_cons_none hc
      exact hview.symm
    | some it =>
      rw [show (viewOf base [cache]).coins txid = it.coins.normal from lookupView_cons_some hc]
      cases hd : it.dirty with
      | true => simp [hd]
      | false => simpa [hd, lookupView] using (h.entries hc).clean hd
  · have hwritten := written_hashBlock base cache.cacheCoins.entries
    by_cases hz : cache.hashBlock = 0
    · simpa [batchWriteBase, viewOf, bestBlock, hz] using hwritten
    · simp only [batchWriteBase, viewOf, bestBlock, hz, if_false, ne_eq, not_false_eq_true, if_true]
      rfl

/-! ## Flush -/

/-- The map of depth `i` is copied to depth `i + 1`. -/
def plainFlush : Nat → List CoinsView → List CoinsView
  | 0, view :: _ :: rest => view :: view :: rest
  | i + 1, view :: rest => view :: plainFlush i rest
  | _, vs => vs

def AllFresh (cache : CCoinsViewCache) : Prop :=
  ∀ txid it, cache.cacheCoins.lookup txid = some it → it.fresh = true

/-- What a flush leaves as it was, seen from the layers above. -/
structure Flushed (base : CoinsView) (i : Nat) (layers : List CCoinsViewCache) (base' : CoinsView)
    (layers' : List CCoinsViewCache) : Prop where
  ok : StackOk base' layers'
  views : views base' layers' = plainFlush i (views base layers)
  view : viewOf base' layers' = viewOf base layers
  held : 0 < i → ∀ txid, Held txid layers → Held txid layers'
  settled : Settled base layers → base'.hashBlock = base.hashBlock ∧ Settled base' layers'
  emptied : ∀ cache, layers'[i]? = some cache → cache.cacheCoins = ∅

/-- An emptied layer stands for what is below it. -/
theorem viewOf_emptied (h : viewOf base' below' = viewOf base (cache :: below)) :
    viewOf base' ({ cache with cacheCoins := ∅ } :: below') = viewOf base (cache :: below) := by
  have hbest : bestBlock base' below' = bestBlock base (cache :: below) :=
    congrArg CoinsView.hashBlock h
  apply CoinsView.ext
  · intro txid
    exact lookupView_eq_of_viewOf h txid
  · by_cases hz : cache.hashBlock = 0
    · simp only [viewOf, bestBlock, hz, if_true] at hbest ⊢
      exact hbest
    · simp only [viewOf, bestBlock, hz, if_false]

theorem StackOk.emptied (hbest : cache.hashBlock = 0 → Settled base below) (h : StackOk base below) :
    StackOk base ({ cache with cacheCoins := ∅ } :: below) := by
  refine StackOk.cons ?_ hbest h
  intro txid it hl
  simp at hl

theorem viewOf_last_emptied (base : CoinsView) (cache : CCoinsViewCache) :
    viewOf (viewOf base [cache]) [{ cache with cacheCoins := ∅ }] = viewOf base [cache] :=
  viewOf_emptied rfl

/-- The last layer is written to the database. -/
theorem flush_last (base : CoinsView) (cache : CCoinsViewCache) :
    Flushed base 0 [cache] (viewOf base [cache]) [{ cache with cacheCoins := ∅ }] where
  ok := StackOk.emptied (fun _ => by simp [Settled]) StackOk.nil
  views := by
    simp only [views, viewOf_last_emptied, plainFlush]
  view := viewOf_last_emptied base cache
  held := fun hpos => absurd hpos (lt_irrefl 0)
  settled := by
    intro hset
    have hbase : (viewOf base [cache]).hashBlock = base.hashBlock := hset.bestBlock_eq
    refine ⟨hbase, ?_⟩
    rw [Settled, hbase]
    exact hset
  emptied := by
    rintro _ ⟨⟩
    rfl

/-- A layer is written to the layer below it. -/
theorem flush_parent (h : StackOk base (cache :: parent :: below)) :
    ∃ layers', flush base 0 (cache :: parent :: below) = .ok (base, layers') ∧
      Flushed base 0 (cache :: parent :: below) base layers' := by
  rcases batchWrite_spec h with ⟨parent', hw, hhash, hentries, hlookup⟩
  have hbelow : parent'.hashBlock = 0 → Settled base below := by
    intro hz
    exact (settled_cons.1 (h.best (hhash ▸ hz))).2
  have hok : StackOk base (parent' :: below) := StackOk.cons hentries hbelow h.rest.rest
  have hset : cache.hashBlock = 0 → Settled base (parent' :: below) := by
    intro hz
    exact settled_cons.2 ⟨Or.inl (hhash.trans hz), hbelow (hhash.trans hz)⟩
  have hview : viewOf base (parent' :: below) = viewOf base (cache :: parent :: below) := by
    apply CoinsView.ext
    · exact hlookup
    · by_cases hz : cache.hashBlock = 0
      · have hold : bestBlock base (parent :: below) = base.hashBlock := (h.best hz).bestBlock_eq
        have hnew : bestBlock base (parent' :: below) = base.hashBlock := (hset hz).bestBlock_eq
        simp only [viewOf, hnew]
        simp only [bestBlock, hz, if_true] at hold ⊢
        exact hold.symm
      · simp only [viewOf, bestBlock, hhash, hz, if_false]
  refine ⟨{ cache with cacheCoins := ∅ } :: parent' :: below, by simp only [flush, hw], ?_⟩
  refine ⟨StackOk.emptied hset hok, ?_, viewOf_emptied hview, fun hpos => absurd hpos (lt_irrefl 0), ?_, ?_⟩
  · simp only [views, viewOf_emptied hview, hview, plainFlush]
  · intro hs
    have hself := (settled_cons.1 hs).1
    refine ⟨rfl, settled_cons.2 ⟨hself, settled_cons.2 ⟨?_, ?_⟩⟩⟩
    · rw [hhash]
      exact hself
    · exact (settled_cons.1 (settled_cons.1 hs).2).2
  · rintro _ ⟨⟩
    rfl

/-- A flush below a layer: the layer's own entries must all be fresh if it is the next one up. -/
theorem Flushed.cons {i : Nat} (h : StackOk base (cache :: below))
    (hfresh : i = 0 → AllFresh cache) (hf : Flushed base i below base' below') :
    Flushed base (i + 1) (cache :: below) base' (cache :: below') where
  ok := by
    refine StackOk.cons ?_ (fun hz => (hf.settled (h.best hz)).2) hf.ok
    intro txid it hl
    have hit := h.entries hl
    refine hit.of_below (lookupView_eq_of_viewOf hf.view txid) ?_
    intro hstale
    rcases Nat.eq_zero_or_pos i with hzero | hpos
    · rw [hfresh hzero txid it hl] at hstale
      exact absurd hstale (by decide)
    · exact hf.held hpos txid (hit.held hstale)
  views := by
    simp only [CCoinsViewCache.views, viewOf_cons_congr hf.view, hf.views, plainFlush]
  view := viewOf_cons_congr hf.view
  held := fun _ _ hheld => hheld
  settled := by
    intro hs
    rcases settled_cons.1 hs with ⟨hself, hbelow⟩
    rcases hf.settled hbelow with ⟨hbase, hset⟩
    refine ⟨hbase, settled_cons.2 ⟨?_, hset⟩⟩
    rw [hbase]
    exact hself
  emptied := hf.emptied

theorem flush_spec (i : Nat) (h : StackOk base layers) (hi : i < layers.length)
    (hfresh : ∀ k, i = k + 1 → ∀ cache, layers[k]? = some cache → AllFresh cache) :
    ∃ base' layers', flush base i layers = .ok (base', layers') ∧
      Flushed base i layers base' layers' := by
  induction i generalizing layers with
  | zero =>
    match layers, hi with
    | [cache], _ =>
      refine ⟨viewOf base [cache], [{ cache with cacheCoins := ∅ }], ?_, flush_last base cache⟩
      rw [flush, batchWriteBase_eq h]
    | cache :: parent :: below, _ => exact ⟨base, flush_parent h⟩
  | succ i ih =>
    match layers, hi with
    | cache :: below, hi =>
      have hlen : i < below.length := Nat.lt_of_succ_lt_succ hi
      have hbelow : ∀ k, i = k + 1 → ∀ c, below[k]? = some c → AllFresh c := by
        intro k hk c hc
        exact hfresh (k + 1) (by rw [hk]) c hc
      have htop : i = 0 → AllFresh cache := by
        intro hzero
        exact hfresh 0 (by rw [hzero]) cache rfl
      rcases ih h.rest hlen hbelow with ⟨base', below', hflush, hflushed⟩
      exact ⟨base', cache :: below', by simp only [flush, hflush], hflushed.cons h htop⟩

end CCoinsViewCache

end Dobbscoin
