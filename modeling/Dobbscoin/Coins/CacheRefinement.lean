import Dobbscoin.Coins.CacheFlush

/-!
# Stacks of caches refine plain maps

A run of operations on a stack of caches, and the same run on plain maps: one map for each layer and
one for the database, where a flush copies a map down.  `cacheStack_refines` says that the replies are
the same and that flushing every layer leaves the database with the top map.
-/

namespace Dobbscoin

open CCoinsViewCache

/-- Depth 0 is the top layer. -/
inductive CoinsOp
  | getCoins (depth : Nat) (txid : UInt256)
  | haveCoins (depth : Nat) (txid : UInt256)
  | accessCoins (depth : Nat) (txid : UInt256)
  | getBestBlock (depth : Nat)
  | modifyCoins (txid : UInt256) (f : CCoins → CCoins)
  | setBestBlock (hashBlock : UInt256)
  | flush (depth : Nat)

inductive CoinsReply
  | coins (c : Option CCoins)
  | known (b : Bool)
  | block (hashBlock : UInt256)
  | done
  deriving DecidableEq

/-- A reply with a spent entry counted as absent. -/
def CoinsReply.shown : CoinsReply → CoinsReply
  | .coins c => .coins (c.filter fun c => !c.isPruned)
  | r => r

structure CoinsStack where
  base : CoinsView
  layers : List CCoinsViewCache

namespace CoinsStack

/-- Layers just created. -/
def start (base : CoinsView) (n : Nat) : CoinsStack :=
  ⟨base, List.replicate n CCoinsViewCache.new⟩

/-- A read at some depth may leave entries in the layers from there on down. -/
def read {α : Type} (s : CoinsStack) (depth : Nat)
    (f : List CCoinsViewCache → α × List CCoinsViewCache) : α × CoinsStack :=
  ((f (s.layers.drop depth)).1, { s with layers := s.layers.take depth ++ (f (s.layers.drop depth)).2 })

def step (s : CoinsStack) : CoinsOp → Except Fault (CoinsReply × CoinsStack)
  | .getCoins depth txid => .ok ((s.read depth (getCoins s.base txid)).map .coins id)
  | .haveCoins depth txid => .ok ((s.read depth (haveCoins s.base txid)).map .known id)
  | .accessCoins depth txid => .ok ((s.read depth (accessCoins s.base txid)).map .coins id)
  | .getBestBlock depth => .ok ((s.read depth (getBestBlock s.base)).map .block id)
  | .modifyCoins txid f => .ok (.done, { s with layers := modifyCoins s.base txid f s.layers })
  | .setBestBlock hashBlock => .ok (.done, { s with layers := setBestBlock hashBlock s.layers })
  | .flush depth =>
    match flush s.base depth s.layers with
    | .error e => .error e
    | .ok (base, layers) => .ok (.done, ⟨base, layers⟩)

def run (s : CoinsStack) : List CoinsOp → Except Fault (List CoinsReply × CoinsStack)
  | [] => .ok ([], s)
  | op :: ops =>
    match s.step op with
    | .error e => .error e
    | .ok (r, s') =>
      match s'.run ops with
      | .error e => .error e
      | .ok (rs, t) => .ok (r :: rs, t)

end CoinsStack

/-! ## The plain maps -/

def plainStep (vs : List CoinsView) : CoinsOp → CoinsReply × List CoinsView
  | .getCoins depth txid => (.coins ((vs.getD depth CoinsView.empty).coins txid), vs)
  | .haveCoins depth txid => (.known ((vs.getD depth CoinsView.empty).coins txid).isSome, vs)
  | .accessCoins depth txid => (.coins ((vs.getD depth CoinsView.empty).coins txid), vs)
  | .getBestBlock depth => (.block (vs.getD depth CoinsView.empty).hashBlock, vs)
  | .modifyCoins txid f => (.done, vs.modifyHead fun v => v.modify txid f)
  | .setBestBlock hashBlock => (.done, vs.modifyHead fun v => v.setBestBlock hashBlock)
  | .flush depth => (.done, plainFlush depth vs)

def plainRun (vs : List CoinsView) : List CoinsOp → List CoinsReply × List CoinsView
  | [] => ([], vs)
  | op :: ops =>
    let (r, vs') := plainStep vs op
    let (rs, ws) := plainRun vs' ops
    (r :: rs, ws)

/-! ## One operation -/

namespace CoinsStack

variable {s s' t : CoinsStack}

def Ok (s : CoinsStack) : Prop :=
  StackOk s.base s.layers

def maps (s : CoinsStack) : List CoinsView :=
  views s.base s.layers

/-- The layer exists; a modification makes the same of every spent entry; the zero hash, which stands
for no hash, is not set; no layer is flushed under one that repeats its entries. -/
def Allowed (s : CoinsStack) : CoinsOp → Prop
  | .getCoins depth _ => depth < s.layers.length
  | .haveCoins depth _ => depth < s.layers.length
  | .accessCoins depth _ => depth < s.layers.length
  | .getBestBlock depth => depth < s.layers.length
  | .modifyCoins _ f => 0 < s.layers.length ∧ IgnoresSpent f
  | .setBestBlock hashBlock => 0 < s.layers.length ∧ hashBlock ≠ 0
  | .flush depth => depth < s.layers.length ∧
      ∀ k, depth = k + 1 → ∀ cache, s.layers[k]? = some cache → AllFresh cache

def AllowedRun (s : CoinsStack) : List CoinsOp → Prop
  | [] => True
  | op :: ops => s.Allowed op ∧ ∀ r s', s.step op = .ok (r, s') → s'.AllowedRun ops

theorem maps_getElem? (s : CoinsStack) {i : Nat} (hi : i ≤ s.layers.length) :
    s.maps[i]? = some (viewOf s.base (s.layers.drop i)) := by
  rcases s with ⟨base, layers⟩
  simp only [maps] at hi ⊢
  induction i generalizing layers with
  | zero => rw [List.drop_zero, ← List.head?_eq_getElem?, views_head]
  | succ i ih =>
    cases layers with
    | nil => simp at hi
    | cons cache below => simpa [views] using ih below (Nat.le_of_succ_le_succ hi)

theorem maps_getD (s : CoinsStack) {i : Nat} (hi : i ≤ s.layers.length) :
    s.maps.getD i CoinsView.empty = viewOf s.base (s.layers.drop i) := by
  rw [List.getD_eq_getElem?_getD, s.maps_getElem? hi, Option.getD_some]

end CoinsStack

theorem CCoinsViewCache.SameViews.below {base : CoinsView} {layers below' : List CCoinsViewCache}
    (i : Nat) (h : StackOk base layers) (hs : SameViews base (layers.drop i) below') :
    SameViews base layers (layers.take i ++ below') := by
  induction i generalizing layers with
  | zero => simpa using hs
  | succ i ih =>
    cases layers with
    | nil => simpa using hs
    | cons cache below => exact SameViews.cons h (ih h.rest (by simpa using hs))

/-- Only a spent entry is left out. -/
theorem filter_eq_bind_normal {r : Option CCoins} (h : ∀ c, r = some c → c.cleanup = c) :
    r.filter (fun c => !c.isPruned) = r.bind CCoins.normal := by
  cases r with
  | none => rfl
  | some c =>
    cases hp : c.isPruned with
    | true => simp [hp, CCoins.normal_eq_none.2 hp]
    | false => simp [hp, CCoins.normal_of_not_pruned hp, h c rfl]

theorem haveCoins_spec {base : CoinsView} {layers : List CCoinsViewCache} (txid : UInt256)
    (h : StackOk base layers) :
    (haveCoins base txid layers).1 = (lookupView base txid layers).isSome ∧
      SameViews base layers (haveCoins base txid layers).2 := by
  have hf := fetchCoins_spec txid h
  rcases hr : fetchCoins base txid layers with ⟨r, layers'⟩
  simp only [hr] at hf
  have hreply := hf.reply
  cases r with
  | none =>
    simp only [haveCoins, hr, ← hreply]
    exact ⟨rfl, hf.toSameViews⟩
  | some c =>
    simp only [haveCoins, hr, ← hreply]
    refine ⟨?_, hf.toSameViews⟩
    have htidy : c.cleanup = c := hf.tidy c rfl
    simp only [Option.bind_some, CCoins.normal, htidy]
    cases c.vout <;> simp

namespace CoinsStack

variable {s s' t : CoinsStack}

/-- A read keeps every map. -/
theorem read_spec {α : Type} {depth : Nat} {f : List CCoinsViewCache → α × List CCoinsViewCache}
    (h : s.Ok) (hs : SameViews s.base (s.layers.drop depth) (f (s.layers.drop depth)).2) :
    (s.read depth f).2.Ok ∧ (s.read depth f).2.maps = s.maps := by
  have hsame := hs.below depth h
  exact ⟨hsame.ok, hsame.views⟩

theorem Ok.drop (h : s.Ok) (depth : Nat) : StackOk s.base (s.layers.drop depth) := by
  rcases s with ⟨base, layers⟩
  simp only [Ok] at h ⊢
  induction depth generalizing layers with
  | zero => simpa using h
  | succ depth ih =>
    cases layers with
    | nil => simpa using h
    | cons cache below => simpa using ih below h.rest

/-- Replies that find an entry agree with the map up to spent entries. -/
theorem fetch_reply {depth : Nat} (txid : UInt256) (h : s.Ok) (hd : depth < s.layers.length) :
    ((fetchCoins s.base txid (s.layers.drop depth)).1.filter fun c => !c.isPruned) =
      (s.maps.getD depth CoinsView.empty).coins txid := by
  have hf := fetchCoins_spec txid (h.drop depth)
  calc
    ((fetchCoins s.base txid (s.layers.drop depth)).1.filter fun c => !c.isPruned)
        = (fetchCoins s.base txid (s.layers.drop depth)).1.bind CCoins.normal :=
          filter_eq_bind_normal hf.tidy
    _ = lookupView s.base txid (s.layers.drop depth) := hf.reply
    _ = (s.maps.getD depth CoinsView.empty).coins txid := by
          rw [maps_getD s hd.le]
          rfl

theorem step_refines {op : CoinsOp} (h : s.Ok) (ha : s.Allowed op) :
    ∃ r s', s.step op = .ok (r, s') ∧ s'.Ok ∧ r.shown = (plainStep s.maps op).1 ∧
      s'.maps = (plainStep s.maps op).2 := by
  cases op with
  | getCoins depth txid =>
    have hread := read_spec (f := getCoins s.base txid) h (fetchCoins_spec txid (h.drop depth)).toSameViews
    refine ⟨_, _, rfl, hread.1, ?_, hread.2⟩
    exact congrArg CoinsReply.coins (fetch_reply txid h ha)
  | haveCoins depth txid =>
    have hspec := haveCoins_spec txid (h.drop depth)
    have hread := read_spec (f := haveCoins s.base txid) h hspec.2
    refine ⟨_, _, rfl, hread.1, ?_, hread.2⟩
    simp only [plainStep, maps_getD s (Nat.le_of_lt ha)]
    exact congrArg CoinsReply.known hspec.1
  | accessCoins depth txid =>
    have hread := read_spec (f := accessCoins s.base txid) h (fetchCoins_spec txid (h.drop depth)).toSameViews
    refine ⟨_, _, rfl, hread.1, ?_, hread.2⟩
    exact congrArg CoinsReply.coins (fetch_reply txid h ha)
  | getBestBlock depth =>
    have hspec := getBestBlock_spec (h.drop depth)
    have hread := read_spec (f := getBestBlock s.base) h hspec.2
    refine ⟨_, _, rfl, hread.1, ?_, hread.2⟩
    simp only [plainStep, maps_getD s (Nat.le_of_lt ha)]
    exact congrArg CoinsReply.block hspec.1
  | modifyCoins txid f =>
    rcases s with ⟨base, layers⟩
    rcases ha with ⟨hpos, hf⟩
    match layers, hpos with
    | cache :: below, _ =>
      rcases modifyCoins_spec hf txid h with ⟨hok, hviews⟩
      exact ⟨.done, _, rfl, hok, rfl, hviews⟩
  | setBestBlock hashBlock =>
    rcases s with ⟨base, layers⟩
    rcases ha with ⟨hpos, hz⟩
    match layers, hpos with
    | cache :: below, _ =>
      rcases setBestBlock_spec hz h with ⟨hok, hviews⟩
      exact ⟨.done, _, rfl, hok, rfl, hviews⟩
  | flush depth =>
    rcases flush_spec depth h ha.1 ha.2 with ⟨base, layers, hflush, hflushed⟩
    exact ⟨.done, ⟨base, layers⟩, by simp only [step, hflush], hflushed.ok, rfl, hflushed.views⟩

theorem run_refines {ops : List CoinsOp} (h : s.Ok) (ha : s.AllowedRun ops) :
    ∃ rs t, s.run ops = .ok (rs, t) ∧ t.Ok ∧ rs.map CoinsReply.shown = (plainRun s.maps ops).1 ∧
      t.maps = (plainRun s.maps ops).2 := by
  induction ops generalizing s with
  | nil => exact ⟨[], s, rfl, h, rfl, rfl⟩
  | cons op ops ih =>
    rcases ha with ⟨hop, hrest⟩
    rcases step_refines h hop with ⟨r, s', hstep, hok, hr, hmaps⟩
    rcases ih hok (hrest r s' hstep) with ⟨rs, t, hrun, hokt, hrs, hmapst⟩
    refine ⟨r :: rs, t, by simp only [run, hstep, hrun], hokt, ?_, ?_⟩
    · simp only [List.map_cons, plainRun, hr, hrs, hmaps]
    · simp only [plainRun, hmapst, hmaps]

/-! ## Flushing every layer -/

theorem length_plainFlush (i : Nat) (vs : List CoinsView) :
    (plainFlush i vs).length = vs.length := by
  fun_induction plainFlush i vs with
  | case1 view _ rest => rfl
  | case2 i view rest ih => simp [ih]
  | case3 => rfl

/-- A flush hands its map down. -/
theorem plainFlush_getElem? {i : Nat} {vs : List CoinsView} (hi : i + 1 < vs.length) :
    (plainFlush i vs)[i + 1]? = vs[i]? := by
  fun_induction plainFlush i vs with
  | case1 view _ rest => rfl
  | case2 i view rest ih => simpa using ih (by simpa using hi)
  | case3 i vs hzero hsucc =>
    cases i with
    | zero =>
      match vs, hi with
      | a :: b :: rest, _ => exact absurd rfl (hzero a b rest rfl)
    | succ i =>
      match vs, hi with
      | a :: rest, _ => exact absurd rfl (hsucc i a rest rfl)

def flushes (k m : Nat) : List CoinsOp :=
  (List.range' k m).map CoinsOp.flush

theorem plainRun_flushes (k m : Nat) {vs : List CoinsView} (h : k + m < vs.length) :
    (plainRun vs (flushes k m)).2[k + m]? = vs[k]? := by
  induction m generalizing k vs with
  | zero => rfl
  | succ m ih =>
    have hlen : k + 1 + m < (plainFlush k vs).length := by
      rw [length_plainFlush]
      omega
    calc
      (plainRun vs (flushes k (m + 1))).2[k + (m + 1)]?
          = (plainRun (plainFlush k vs) (flushes (k + 1) m)).2[k + 1 + m]? := by
            rw [show k + (m + 1) = k + 1 + m by omega]
            rfl
      _ = (plainFlush k vs)[k + 1]? := ih (k + 1) hlen
      _ = vs[k]? := plainFlush_getElem? (by omega)

theorem maps_length (s : CoinsStack) : s.maps.length = s.layers.length + 1 :=
  views_length s.base s.layers

/-- Layers may be flushed one after the other, from the top down. -/
theorem allowedRun_flushes (k m : Nat) (h : s.Ok) (hlen : k + m = s.layers.length)
    (hfresh : ∀ j, k = j + 1 → ∀ cache, s.layers[j]? = some cache → AllFresh cache) :
    s.AllowedRun (flushes k m) := by
  induction m generalizing k s with
  | zero => trivial
  | succ m ih =>
    have hk : k < s.layers.length := by omega
    refine ⟨⟨hk, hfresh⟩, ?_⟩
    intro r s' hstep
    rcases flush_spec k h hk hfresh with ⟨base, layers, hflush, hflushed⟩
    obtain ⟨-, rfl⟩ : CoinsReply.done = r ∧ CoinsStack.mk base layers = s' := by
      simpa [step, hflush] using hstep
    have hlayers : layers.length = s.layers.length := by
      have hviews := congrArg List.length hflushed.views
      rw [length_plainFlush, views_length, views_length] at hviews
      omega
    refine ih (k + 1) hflushed.ok (by simp only [hlayers]; omega) ?_
    intro j hj cache hcache
    obtain rfl : k = j := by omega
    -- The layer above was emptied by the flush just made.
    intro txid it hl
    rw [hflushed.emptied cache hcache] at hl
    simp at hl

theorem length_plainRun (vs : List CoinsView) (ops : List CoinsOp) :
    (plainRun vs ops).2.length = vs.length := by
  induction ops generalizing vs with
  | nil => rfl
  | cons op ops ih =>
    have hstep : (plainStep vs op).2.length = vs.length := by
      cases op <;> simp [plainStep, length_plainFlush]
    exact (ih _).trans hstep

theorem layers_length_of_maps (h : t.maps.length = s.maps.length) :
    t.layers.length = s.layers.length := by
  rw [maps_length, maps_length] at h
  exact Nat.succ.inj h

/-- Flushing every layer leaves the database with the top map. -/
theorem flush_all (h : s.Ok) :
    ∃ dones t, s.run ((List.range s.layers.length).map CoinsOp.flush) = .ok (dones, t) ∧
      some t.base = s.maps.head? := by
  have ha : s.AllowedRun (flushes 0 s.layers.length) :=
    allowedRun_flushes 0 s.layers.length h (Nat.zero_add _) (fun j hj => absurd hj (by simp))
  rcases run_refines h ha with ⟨dones, t, hrun, -, -, hmaps⟩
  have hlen : t.layers.length = s.layers.length :=
    layers_length_of_maps (by rw [hmaps, length_plainRun])
  have hlast : t.maps[t.layers.length]? = some t.base := by
    rw [t.maps_getElem? (le_refl _), List.drop_length]
    rfl
  refine ⟨dones, t, ?_, ?_⟩
  · rw [List.range_eq_range']
    exact hrun
  · calc
      some t.base = t.maps[t.layers.length]? := hlast.symm
      _ = (plainRun s.maps (flushes 0 s.layers.length)).2[0 + s.layers.length]? := by
            rw [hmaps, hlen, Nat.zero_add]
      _ = s.maps[0]? := plainRun_flushes 0 _ (by rw [maps_length]; omega)
      _ = s.maps.head? := List.head?_eq_getElem?.symm

theorem cacheStack_refines (base : CoinsView) (n : Nat) (ops : List CoinsOp)
    (ha : (start base n).AllowedRun ops) :
    ∃ replies s, (start base n).run ops = .ok (replies, s) ∧
      replies.map CoinsReply.shown = (plainRun (List.replicate (n + 1) base) ops).1 ∧
      ∃ dones t, s.run ((List.range n).map CoinsOp.flush) = .ok (dones, t) ∧
        some t.base = (plainRun (List.replicate (n + 1) base) ops).2.head? := by
  have hok : (start base n).Ok := stackOk_replicate base n
  have hstart : (start base n).maps = List.replicate (n + 1) base := views_replicate base n
  rcases run_refines hok ha with ⟨replies, s, hrun, hoks, hreplies, hmaps⟩
  have hlen : s.layers.length = n := by
    have hsame : s.maps.length = (start base n).maps.length := by rw [hmaps, length_plainRun]
    rw [layers_length_of_maps hsame]
    exact List.length_replicate
  rcases flush_all hoks with ⟨dones, t, hflush, hbase⟩
  rw [hlen] at hflush
  rw [hmaps, hstart] at hbase
  rw [hstart] at hreplies
  exact ⟨replies, s, hrun, hreplies, dones, t, hflush, hbase⟩

/-! ## Sample runs -/

/-- One unspent output of value 50, in an entry of version 5. -/
def sampleCoins : CCoins :=
  ⟨false, [⟨50, []⟩], 7, 5⟩

def sampleBase : CoinsView :=
  (CoinsView.empty.set 1 sampleCoins).setBestBlock 9

/-- Two layers: an entry is read and spent, and the layer below sees it after the flush. -/
def sampleRun : List CoinsOp :=
  [.accessCoins 0 1, .modifyCoins 1 (fun _ => CCoins.empty), .setBestBlock 10, .flush 0,
    .haveCoins 1 1]

theorem cacheStack_refines_sampleRun :
    ∃ replies s, (start sampleBase 2).run sampleRun = .ok (replies, s) ∧
      replies.map CoinsReply.shown = (plainRun (List.replicate 3 sampleBase) sampleRun).1 ∧
      ∃ dones t, s.run ((List.range 2).map CoinsOp.flush) = .ok (dones, t) ∧
        some t.base = (plainRun (List.replicate 3 sampleBase) sampleRun).2.head? := by
  have htwo : ∀ x y : CCoinsViewCache, 0 < [x, y].length ∧ 1 < [x, y].length := by simp
  refine cacheStack_refines sampleBase 2 sampleRun ⟨(htwo _ _).1, ?_⟩
  rintro _ _ ⟨⟩
  refine ⟨⟨(htwo _ _).1, fun _ _ => rfl⟩, ?_⟩
  rintro _ _ ⟨⟩
  refine ⟨⟨(htwo _ _).1, by decide⟩, ?_⟩
  rintro _ _ ⟨⟩
  refine ⟨⟨(htwo _ _).1, by simp⟩, ?_⟩
  rintro _ _ ⟨⟩
  exact ⟨(htwo _ _).2, fun _ _ _ => trivial⟩

/-- Runs that are not allowed.  Flushing a layer under one that repeats its entry makes the assertion
of `BatchWrite` fail; the zero hash is not kept; a spent entry that is not fresh still shows its height
and version to the next modification. -/
theorem cacheStack_not_refines :
    (start sampleBase 2).run [.getCoins 0 1, .flush 1, .modifyCoins 1 (fun _ => sampleCoins),
        .flush 0] = .error .assertFailed ∧
      (∃ s, (start sampleBase 1).run [.setBestBlock 0, .getBestBlock 0] = .ok ([.done, .block 9], s)) ∧
      (∃ s, (start sampleBase 1).run [.modifyCoins 1 (fun c => { c with vout := [] }),
        .modifyCoins 1 (fun c => { c with vout := [⟨50, []⟩] }), .getCoins 0 1] =
          .ok ([.done, .done, .coins (some ⟨false, [⟨50, []⟩], 7, 5⟩)], s)) ∧
      (plainRun (List.replicate 2 sampleBase) [.modifyCoins 1 (fun c => { c with vout := [] }),
        .modifyCoins 1 (fun c => { c with vout := [⟨50, []⟩] }), .getCoins 0 1]).1 =
          [.done, .done, .coins (some ⟨false, [⟨50, []⟩], 0, 0⟩)] ∧
      (plainRun (List.replicate 2 sampleBase) [.setBestBlock 0, .getBestBlock 0]).1 =
          [.done, .block 0] := by
  refine ⟨rfl, ⟨_, rfl⟩, ⟨_, rfl⟩, rfl, rfl⟩

end CoinsStack

end Dobbscoin
