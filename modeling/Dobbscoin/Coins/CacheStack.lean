import Dobbscoin.Coins.CoinsView
import Dobbscoin.Validation.NodeState
import Mathlib.Data.List.AList

/-!
# Coin caches

`CCoinsViewCache` of `coins.cpp`: layers of cached entries over a database.  The top layer comes first
in the list; the layers behind it are what its `base` pointer leads to.  A `CCoinsModifier` is created
and released within one `modifyCoins`.
-/

namespace Dobbscoin

variable {txid : UInt256} {it : CCoinsCacheEntry}

/-- `CCoinsCacheEntry`; the flags are `DIRTY` and `FRESH`. -/
structure CCoinsCacheEntry where
  coins : CCoins
  dirty : Bool
  fresh : Bool
  deriving DecidableEq

/-- `CCoinsMap`. -/
abbrev CCoinsMap := AList fun _ : UInt256 => CCoinsCacheEntry

structure CCoinsViewCache where
  cacheCoins : CCoinsMap
  hashBlock : UInt256

namespace CCoinsViewCache

def new : CCoinsViewCache :=
  ⟨∅, 0⟩

/-! ## Reading -/

/-- `FetchCoins`: what the layer has for `txid` after pulling it in from below. -/
def fetchCoins (base : CoinsView) (txid : UInt256) :
    List CCoinsViewCache → Option CCoins × List CCoinsViewCache
  | [] => (base.coins txid, [])
  | cache :: below =>
    match cache.cacheCoins.lookup txid with
    | some it => (some it.coins, cache :: below)
    | none =>
      match fetchCoins base txid below with
      | (none, below') => (none, cache :: below')
      | (some tmp, below') =>
        -- A pruned entry of the parent counts as none: ours is fresh.
        (some tmp, { cache with cacheCoins :=
          cache.cacheCoins.insert txid ⟨tmp, false, tmp.isPruned⟩ } :: below')

/-- `GetCoins` copies what `FetchCoins` found. -/
def getCoins (base : CoinsView) (txid : UInt256) (caches : List CCoinsViewCache) :
    Option CCoins × List CCoinsViewCache :=
  fetchCoins base txid caches

/-- `AccessCoins` points to it. -/
def accessCoins (base : CoinsView) (txid : UInt256) (caches : List CCoinsViewCache) :
    Option CCoins × List CCoinsViewCache :=
  fetchCoins base txid caches

/-- `HaveCoins`. -/
def haveCoins (base : CoinsView) (txid : UInt256) (caches : List CCoinsViewCache) :
    Bool × List CCoinsViewCache :=
  match fetchCoins base txid caches with
  | (none, caches') => (false, caches')
  | (some coins, caches') => (!coins.vout.isEmpty, caches')

/-- `GetBestBlock`: the zero hash means not known yet. -/
def getBestBlock (base : CoinsView) : List CCoinsViewCache → UInt256 × List CCoinsViewCache
  | [] => (base.hashBlock, [])
  | cache :: below =>
    if cache.hashBlock = 0 then
      let (hashBlock, below') := getBestBlock base below
      (hashBlock, { cache with hashBlock := hashBlock } :: below')
    else (cache.hashBlock, cache :: below)

/-! ## Writing to the top layer -/

def setBestBlock (hashBlock : UInt256) : List CCoinsViewCache → List CCoinsViewCache
  | [] => []
  | cache :: below => { cache with hashBlock := hashBlock } :: below

/-- The entry `ModifyCoins` hands out, and the layers below after reading it. -/
def modifierEntry (base : CoinsView) (txid : UInt256) (cache : CCoinsViewCache)
    (below : List CCoinsViewCache) : CCoinsCacheEntry × List CCoinsViewCache :=
  match cache.cacheCoins.lookup txid with
  | some it => ({ it with dirty := true }, below)
  | none =>
    match fetchCoins base txid below with
    | (none, below') => (⟨CCoins.empty, true, true⟩, below')
    | (some coins, below') => (⟨coins, true, coins.isPruned⟩, below')

/-- `ModifyCoins`, the modification `f`, and `~CCoinsModifier`. -/
def modifyCoins (base : CoinsView) (txid : UInt256) (f : CCoins → CCoins) :
    List CCoinsViewCache → List CCoinsViewCache
  | [] => []
  | cache :: below =>
    let (it, below') := modifierEntry base txid cache below
    let coins := (f it.coins).cleanup
    let cacheCoins :=
      if it.fresh && coins.isPruned then cache.cacheCoins.erase txid
      else cache.cacheCoins.insert txid { it with coins := coins }
    { cache with cacheCoins := cacheCoins } :: below'

/-! ## Flushing -/

/-- One entry of `BatchWrite` into a cache. -/
def writeEntry (cacheCoins : CCoinsMap) (txid : UInt256) (it : CCoinsCacheEntry) :
    Except Fault CCoinsMap :=
  if !it.dirty then .ok cacheCoins
  else
    match cacheCoins.lookup txid with
    | none =>
      if it.coins.isPruned then .ok cacheCoins
      else if !it.fresh then .error .assertFailed
      else .ok (cacheCoins.insert txid ⟨it.coins, true, true⟩)
    | some itUs =>
      if itUs.fresh && it.coins.isPruned then .ok (cacheCoins.erase txid)
      else .ok (cacheCoins.insert txid { itUs with coins := it.coins, dirty := true })

def writeEntries : CCoinsMap → List (Sigma fun _ : UInt256 => CCoinsCacheEntry) →
    Except Fault CCoinsMap
  | cacheCoins, [] => .ok cacheCoins
  | cacheCoins, ⟨txid, it⟩ :: rest =>
    match writeEntry cacheCoins txid it with
    | .error e => .error e
    | .ok cacheCoins' => writeEntries cacheCoins' rest

/-- `CCoinsViewCache::BatchWrite`. -/
def batchWrite (cache : CCoinsViewCache) (mapCoins : CCoinsMap) (hashBlock : UInt256) :
    Except Fault CCoinsViewCache :=
  match writeEntries cache.cacheCoins mapCoins.entries with
  | .error e => .error e
  | .ok cacheCoins => .ok ⟨cacheCoins, hashBlock⟩

/-- `CCoinsViewDB::BatchWrite`: pruned entries are erased. -/
def batchWriteBase (base : CoinsView) (mapCoins : CCoinsMap) (hashBlock : UInt256) : CoinsView :=
  let written := mapCoins.entries.foldl
    (fun view e => if e.2.dirty then view.set e.1 e.2.coins else view) base
  if hashBlock ≠ 0 then written.setBestBlock hashBlock else written

/-- `Flush` of the layer at depth `i`, into the layer below it or the database. -/
def flush (base : CoinsView) :
    Nat → List CCoinsViewCache → Except Fault (CoinsView × List CCoinsViewCache)
  | _, [] => .ok (base, [])
  | 0, [cache] =>
    .ok (batchWriteBase base cache.cacheCoins cache.hashBlock, [{ cache with cacheCoins := ∅ }])
  | 0, cache :: parent :: below =>
    match parent.batchWrite cache.cacheCoins cache.hashBlock with
    | .error e => .error e
    | .ok parent' => .ok (base, { cache with cacheCoins := ∅ } :: parent' :: below)
  | i + 1, cache :: below =>
    match flush base i below with
    | .error e => .error e
    | .ok (base', below') => .ok (base', cache :: below')

end CCoinsViewCache

end Dobbscoin

/-!
# What a stack of caches stands for

`viewOf` reads a stack of layers as a plain map.  `StackOk` is the invariant of the flags: a fresh
entry hides nothing, an entry that is not dirty repeats what is below, and an entry that is not fresh
is in the layer below as well.
-/

namespace Dobbscoin

namespace CCoinsViewCache

variable {base base' : CoinsView} {cache : CCoinsViewCache} {below below' layers : List CCoinsViewCache}

/-! ## The plain map of a stack -/

def lookupView (base : CoinsView) (txid : UInt256) : List CCoinsViewCache → Option CCoins
  | [] => base.coins txid
  | cache :: below =>
    match cache.cacheCoins.lookup txid with
    | some it => it.coins.normal
    | none => lookupView base txid below

def bestBlock (base : CoinsView) : List CCoinsViewCache → UInt256
  | [] => base.hashBlock
  | cache :: below => if cache.hashBlock = 0 then bestBlock base below else cache.hashBlock

theorem lookupView_unspent (base : CoinsView) (txid : UInt256) (layers : List CCoinsViewCache)
    (c : CCoins) (h : lookupView base txid layers = some c) : c.Unspent := by
  induction layers with
  | nil => exact base.unspent txid c h
  | cons cache below ih =>
    cases hl : cache.cacheCoins.lookup txid with
    | none => exact ih (by simpa [lookupView, hl] using h)
    | some it =>
      have hnormal : it.coins.normal = some c := by simpa [lookupView, hl] using h
      exact CCoins.unspent_of_normal hnormal

def viewOf (base : CoinsView) (layers : List CCoinsViewCache) : CoinsView where
  coins := fun txid => lookupView base txid layers
  hashBlock := bestBlock base layers
  unspent := fun txid c => lookupView_unspent base txid layers c

/-- The plain map of every layer, the top layer first and the database last. -/
def views (base : CoinsView) : List CCoinsViewCache → List CoinsView
  | [] => [base]
  | cache :: below => viewOf base (cache :: below) :: views base below

@[simp] theorem views_length (base : CoinsView) (layers : List CCoinsViewCache) :
    (views base layers).length = layers.length + 1 := by
  induction layers with
  | nil => rfl
  | cons cache below ih => simp [views, ih]

theorem views_head (base : CoinsView) (layers : List CCoinsViewCache) :
    (views base layers).head? = some (viewOf base layers) := by
  cases layers with
  | nil => rfl
  | cons cache below => rfl

theorem viewOf_eq_of_views (h : views base' below' = views base below) :
    viewOf base' below' = viewOf base below := by
  have hhead : some (viewOf base' below') = some (viewOf base below) := by
    rw [← views_head, ← views_head, h]
  exact Option.some.inj hhead

theorem lookupView_eq_of_viewOf (h : viewOf base' below' = viewOf base below) (txid : UInt256) :
    lookupView base' txid below' = lookupView base txid below :=
  congrArg (fun v => v.coins txid) h

theorem lookupView_eq_of_views (h : views base' below' = views base below) (txid : UInt256) :
    lookupView base' txid below' = lookupView base txid below :=
  lookupView_eq_of_viewOf (viewOf_eq_of_views h) txid

theorem lookupView_cons_none (h : cache.cacheCoins.lookup txid = none) :
    lookupView base txid (cache :: below) = lookupView base txid below := by
  simp [lookupView, h]

theorem lookupView_cons_some (h : cache.cacheCoins.lookup txid = some it) :
    lookupView base txid (cache :: below) = it.coins.normal := by
  simp [lookupView, h]

theorem lookupView_cons (base : CoinsView) (cache : CCoinsViewCache) (below : List CCoinsViewCache)
    (txid : UInt256) : lookupView base txid (cache :: below) =
      (cache.cacheCoins.lookup txid).elim (lookupView base txid below) fun it => it.coins.normal := by
  cases hl : cache.cacheCoins.lookup txid with
  | none => exact lookupView_cons_none hl
  | some it => exact lookupView_cons_some hl

/-- Two layers that agree on an entry agree on the map, if what is below agrees. -/
theorem lookupView_congr {cache' : CCoinsViewCache}
    (hcache : cache'.cacheCoins.lookup txid = cache.cacheCoins.lookup txid)
    (hbelow : lookupView base' txid below' = lookupView base txid below) :
    lookupView base' txid (cache' :: below') = lookupView base txid (cache :: below) := by
  simp only [lookupView, hcache, hbelow]

/-- Below an unchanged layer, only the map matters. -/
theorem viewOf_cons_congr (h : viewOf base' below' = viewOf base below) :
    viewOf base' (cache :: below') = viewOf base (cache :: below) := by
  have hbest : bestBlock base' below' = bestBlock base below := congrArg CoinsView.hashBlock h
  apply CoinsView.ext
  · intro txid
    exact lookupView_congr rfl (lookupView_eq_of_viewOf h txid)
  · simp only [viewOf, bestBlock, hbest]

theorem views_cons_congr (h : views base' below' = views base below) :
    views base' (cache :: below') = views base (cache :: below) := by
  simp only [views, viewOf_cons_congr (viewOf_eq_of_views h), h]

/-! ## The invariant -/

/-- The top layer has an entry; the database counts as having every entry. -/
def Held (txid : UInt256) : List CCoinsViewCache → Prop
  | [] => True
  | cache :: _ => (cache.cacheCoins.lookup txid).isSome = true

structure EntryOk (base : CoinsView) (below : List CCoinsViewCache) (txid : UInt256)
    (it : CCoinsCacheEntry) : Prop where
  tidy : it.coins.cleanup = it.coins
  fresh : it.fresh = true → lookupView base txid below = none
  clean : it.dirty = false → lookupView base txid below = it.coins.normal
  held : it.fresh = false → Held txid below

/-- The hashes of these layers add nothing to the database's. -/
def Settled (base : CoinsView) (layers : List CCoinsViewCache) : Prop :=
  ∀ h ∈ layers.map hashBlock, h = 0 ∨ h = base.hashBlock

theorem settled_cons : Settled base (cache :: below) ↔
    (cache.hashBlock = 0 ∨ cache.hashBlock = base.hashBlock) ∧ Settled base below := by
  simp [Settled]

inductive StackOk (base : CoinsView) : List CCoinsViewCache → Prop
  | nil : StackOk base []
  | cons {cache : CCoinsViewCache} {below : List CCoinsViewCache}
      (entries : ∀ txid it, cache.cacheCoins.lookup txid = some it → EntryOk base below txid it)
      (best : cache.hashBlock = 0 → Settled base below)
      (rest : StackOk base below) : StackOk base (cache :: below)

theorem EntryOk.of_below (h : EntryOk base below txid it)
    (hview : lookupView base' txid below' = lookupView base txid below)
    (hheld : it.fresh = false → Held txid below') : EntryOk base' below' txid it where
  tidy := h.tidy
  fresh := fun hf => hview.trans (h.fresh hf)
  clean := fun hd => hview.trans (h.clean hd)
  held := hheld

theorem StackOk.entries (h : StackOk base (cache :: below))
    (hl : cache.cacheCoins.lookup txid = some it) : EntryOk base below txid it := by
  cases h with
  | cons entries best rest => exact entries txid it hl

theorem StackOk.best (h : StackOk base (cache :: below)) (hz : cache.hashBlock = 0) :
    Settled base below := by
  cases h with
  | cons entries best rest => exact best hz

theorem StackOk.rest (h : StackOk base (cache :: below)) : StackOk base below := by
  cases h with
  | cons entries best rest => exact rest

theorem stackOk_replicate (base : CoinsView) (n : Nat) : StackOk base (List.replicate n new) := by
  induction n with
  | zero => exact StackOk.nil
  | succ n ih =>
    refine StackOk.cons ?_ ?_ ih
    · intro txid it hl
      simp [new] at hl
    · intro _ h hmem
      rw [List.map_replicate] at hmem
      exact Or.inl (List.eq_of_mem_replicate hmem)

/-- A stack without entries or hashes stands for the database at every depth. -/
theorem views_replicate (base : CoinsView) (n : Nat) :
    views base (List.replicate n new) = List.replicate (n + 1) base := by
  have htop : ∀ k, viewOf base (List.replicate k new) = base := by
    intro k
    induction k with
    | zero => rfl
    | succ k ih =>
      apply CoinsView.ext
      · intro txid
        exact congrArg (fun v => v.coins txid) ih
      · exact congrArg CoinsView.hashBlock ih
  induction n with
  | zero => rfl
  | succ n ih =>
    rw [List.replicate_succ, views, ih, ← List.replicate_succ (n := n), htop (n + 1)]
    rfl

/-- A settled stack stands for the database's block. -/
theorem Settled.bestBlock_eq (h : Settled base layers) : bestBlock base layers = base.hashBlock := by
  induction layers with
  | nil => rfl
  | cons cache below ih =>
    rcases settled_cons.1 h with ⟨hself, hbelow⟩
    by_cases hz : cache.hashBlock = 0
    · simp [bestBlock, hz, ih hbelow]
    · rcases hself with hzero | hbase
      · exact absurd hzero hz
      · simp only [bestBlock, hz, if_false]
        exact hbase

/-! ## Reading keeps the maps -/

/-- What pulling entries in from below leaves as it was. -/
structure SameViews (base : CoinsView) (layers layers' : List CCoinsViewCache) : Prop where
  ok : StackOk base layers'
  views : views base layers' = views base layers
  held : ∀ txid, Held txid layers → Held txid layers'
  settled : Settled base layers → Settled base layers'

theorem SameViews.refl (h : StackOk base layers) : SameViews base layers layers :=
  ⟨h, rfl, fun _ hheld => hheld, fun hset => hset⟩

/-- The layer above does not notice. -/
theorem SameViews.cons (h : StackOk base (cache :: below)) (hs : SameViews base below below') :
    SameViews base (cache :: below) (cache :: below') where
  ok := by
    refine StackOk.cons ?_ ?_ hs.ok
    · intro txid it hl
      have hit := h.entries hl
      exact hit.of_below (lookupView_eq_of_views hs.views txid) fun hf => hs.held txid (hit.held hf)
    · intro hz
      exact hs.settled (h.best hz)
  views := views_cons_congr hs.views
  held := fun _ hheld => hheld
  settled := fun hset => settled_cons.2 ⟨(settled_cons.1 hset).1, hs.settled (settled_cons.1 hset).2⟩

/-- A layer's map after an entry is inserted. -/
theorem lookupView_insert (base : CoinsView) (cache : CCoinsViewCache) (below : List CCoinsViewCache)
    (t txid : UInt256) (it : CCoinsCacheEntry) :
    lookupView base t ({ cache with cacheCoins := cache.cacheCoins.insert txid it } :: below) =
      if t = txid then it.coins.normal else lookupView base t (cache :: below) := by
  by_cases ht : t = txid
  · subst ht
    simp [lookupView]
  · simp [lookupView, ht, AList.lookup_insert_ne ht]

theorem lookupView_erase (base : CoinsView) (cache : CCoinsViewCache) (below : List CCoinsViewCache)
    (t txid : UInt256) :
    lookupView base t ({ cache with cacheCoins := cache.cacheCoins.erase txid } :: below) =
      if t = txid then lookupView base txid below else lookupView base t (cache :: below) := by
  by_cases ht : t = txid
  · subst ht
    simp [lookupView]
  · simp [lookupView, ht, AList.lookup_erase_ne ht]

theorem StackOk.insert (h : StackOk base (cache :: below))
    (hit : EntryOk base below txid it) :
    StackOk base ({ cache with cacheCoins := cache.cacheCoins.insert txid it } :: below) := by
  refine StackOk.cons ?_ h.best h.rest
  intro t it' hl
  by_cases ht : t = txid
  · subst ht
    obtain rfl : it = it' := by simpa using hl
    exact hit
  · exact h.entries (by simpa [AList.lookup_insert_ne ht] using hl)

theorem StackOk.erase (h : StackOk base (cache :: below)) (txid : UInt256) :
    StackOk base ({ cache with cacheCoins := cache.cacheCoins.erase txid } :: below) := by
  refine StackOk.cons ?_ h.best h.rest
  intro t it' hl
  by_cases ht : t = txid
  · subst ht
    simp at hl
  · exact h.entries (by simpa [AList.lookup_erase_ne ht] using hl)

structure Fetched (base : CoinsView) (txid : UInt256) (layers : List CCoinsViewCache)
    (r : Option CCoins) (layers' : List CCoinsViewCache) : Prop extends
    SameViews base layers layers' where
  reply : r.bind CCoins.normal = lookupView base txid layers
  tidy : ∀ c, r = some c → c.cleanup = c
  pulled : r ≠ none → Held txid layers'

theorem fetchCoins_spec (txid : UInt256) (h : StackOk base layers) :
    Fetched base txid layers (fetchCoins base txid layers).1 (fetchCoins base txid layers).2 := by
  induction layers with
  | nil =>
    refine ⟨SameViews.refl h, ?_, ?_, fun _ => trivial⟩
    · cases hc : base.coins txid with
      | none => simp [fetchCoins, lookupView, hc]
      | some c => simpa [fetchCoins, lookupView, hc] using (base.unspent txid c hc).normal_eq
    · intro c hc
      exact (base.unspent txid c hc).cleanup_eq
  | cons cache below ih =>
    have hbelow := ih h.rest
    cases hl : cache.cacheCoins.lookup txid with
    | some it =>
      simp only [fetchCoins, hl]
      refine ⟨SameViews.refl h, ?_, ?_, ?_⟩
      · simp [lookupView, hl]
      · intro c hc
        rw [← Option.some.inj hc]
        exact (h.entries hl).tidy
      · intro _
        simp [Held, hl]
    | none =>
      rcases hf : fetchCoins base txid below with ⟨r, below'⟩
      rw [hf] at hbelow
      have hsame := SameViews.cons h hbelow.toSameViews
      cases r with
      | none =>
        simp only [fetchCoins, hl, hf]
        refine ⟨hsame, ?_, by simp, by simp⟩
        rw [lookupView_cons_none hl]
        exact hbelow.reply
      | some tmp =>
        have hreply : lookupView base txid below = tmp.normal := hbelow.reply.symm
        have hview : lookupView base txid below' = tmp.normal :=
          (lookupView_eq_of_views hbelow.views txid).trans hreply
        -- The pulled entry repeats what is below, and is fresh only when nothing is there.
        have hit : EntryOk base below' txid ⟨tmp, false, tmp.isPruned⟩ :=
          ⟨hbelow.tidy tmp rfl, fun hp => hview.trans (CCoins.normal_eq_none.2 hp), fun _ => hview,
            fun _ => hbelow.pulled (by simp)⟩
        simp only [fetchCoins, hl, hf]
        refine ⟨⟨hsame.ok.insert hit, ?_, ?_, hsame.settled⟩, ?_, ?_, ?_⟩
        · rw [← hsame.views]
          simp only [views, List.cons.injEq, and_true]
          apply CoinsView.ext
          · intro t
            simp only [viewOf, lookupView_insert]
            split_ifs with ht
            · subst ht
              rw [lookupView_cons_none hl, hview]
            · rfl
          · rfl
        · intro t hheld
          by_cases ht : t = txid
          · subst ht
            simp [Held]
          · simpa [Held, AList.lookup_insert_ne ht] using hheld
        · rw [lookupView_cons_none hl]
          exact hbelow.reply
        · intro c hc
          exact hbelow.tidy c hc
        · intro _
          simp [Held]

theorem getBestBlock_spec (h : StackOk base layers) :
    (getBestBlock base layers).1 = bestBlock base layers ∧
      SameViews base layers (getBestBlock base layers).2 := by
  induction layers with
  | nil => exact ⟨rfl, SameViews.refl h⟩
  | cons cache below ih =>
    rcases ih h.rest with ⟨hbest, hsame⟩
    by_cases hz : cache.hashBlock = 0
    · -- The hash that is remembered is the database's.
      have hbase : bestBlock base below = base.hashBlock := (h.best hz).bestBlock_eq
      have hset := hsame.settled (h.best hz)
      have hcons := SameViews.cons h hsame
      simp only [getBestBlock, hz, if_true, hbest, hbase]
      refine ⟨?_, ?_, ?_, hcons.held, fun _ => settled_cons.2 ⟨Or.inr rfl, hset⟩⟩
      · simp [bestBlock, hz, hbase]
      · exact StackOk.cons (fun txid it hl => hcons.ok.entries hl) (fun _ => hset) hsame.ok
      · rw [← hcons.views]
        simp only [views, List.cons.injEq, and_true]
        apply CoinsView.ext
        · intro txid
          exact lookupView_congr rfl rfl
        · simp only [viewOf, bestBlock, hz, if_true, hset.bestBlock_eq]
          split_ifs <;> rfl
    · simp only [getBestBlock, bestBlock, hz, if_false]
      exact ⟨trivial, SameViews.refl h⟩

end CCoinsViewCache

end Dobbscoin
