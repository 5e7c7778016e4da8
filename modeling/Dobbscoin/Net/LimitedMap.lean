import Dobbscoin.Lib.Maps

/-!
# Limited maps

`limitedmap` of `limitedmap.h`: a map that is to keep only the entries with the highest values, with a second map from
the values to the entries.
-/

namespace Dobbscoin

/-- An iterator of `map` is given by its key. -/
structure LimitedMap (K V : Type) [DecidableEq K] where
  map : AList fun _ : K => V
  rmap : List (V × K)
  nMaxSize : Nat

namespace LimitedMap

variable {K V : Type}

/-! ## Entries -/

/-- The entries of `map`, as `rmap` has them. -/
def entries (map : AList fun _ : K => V) : Multiset (V × K) :=
  (map.entries : Multiset (Σ _ : K, V)).map fun e => (e.2, e.1)

theorem card_entries (map : AList fun _ : K => V) : (entries map).card = map.keys.length := by
  rw [entries, Multiset.card_map, Multiset.coe_card, AList.keys, List.keys, List.length_map]

variable [DecidableEq K]

theorem mem_entries {map : AList fun _ : K => V} {v : V} {k : K} : (v, k) ∈ entries map ↔ map.lookup k = some v := by
  rw [entries, Multiset.mem_map]
  constructor
  · rintro ⟨⟨k', v'⟩, hin, heq⟩
    cases heq
    exact AList.mem_lookup_iff.2 hin
  · intro hlookup
    exact ⟨⟨k, v⟩, AList.mem_lookup_iff.1 hlookup, rfl⟩

theorem mem_keys_iff {map : AList fun _ : K => V} {k : K} : k ∈ map.keys ↔ ∃ v, map.lookup k = some v := by
  rw [← AList.mem_keys, ← AList.lookup_isSome, Option.isSome_iff_exists]

theorem lookup_eq_none {map : AList fun _ : K => V} {k : K} (h : k ∉ map.keys) : map.lookup k = none :=
  AList.lookup_eq_none.2 fun hin => h (AList.mem_keys.1 hin)

theorem entries_erase {map : AList fun _ : K => V} {k : K} {v : V} (h : map.lookup k = some v) :
    entries map = (v, k) ::ₘ entries (map.erase k) := by
  rw [entries, MapIndex.entries_of_lookup h, Multiset.map_cons]
  rfl

theorem entries_insert (map : AList fun _ : K => V) (k : K) (v : V) :
    entries (map.insert k v) = (v, k) ::ₘ entries (map.erase k) := by
  rw [entries, MapIndex.entries_insert, Multiset.map_cons]
  rfl

theorem entries_insert_fresh {map : AList fun _ : K => V} {k : K} (h : k ∉ map.keys) (v : V) :
    entries (map.insert k v) = (v, k) ::ₘ entries map := by
  rw [entries_insert, MapIndex.erase_of_lookup_none (lookup_eq_none h)]

/-! ## Operations -/

def start (nMaxSizeIn : Nat) : LimitedMap K V :=
  ⟨∅, [], nMaxSizeIn⟩

def size (m : LimitedMap K V) : Nat :=
  m.map.keys.length

/-- `map.erase(rmap.begin()->second); rmap.erase(rmap.begin());`, which is undefined when `rmap` is empty, or when the
iterator is not one of `map`. -/
def evict (map : AList fun _ : K => V) : List (V × K) → Option ((AList fun _ : K => V) × List (V × K))
  | [] => none
  | (_, it) :: rest => if it ∈ map.keys then some (map.erase it, rest) else none

/-- The iterator with the lowest value is one of the map; what is not in the second map yet stays. -/
theorem evict_spec {map : AList fun _ : K => V} {v : V} {it : K} {rest : List (V × K)} {extra : Multiset (V × K)}
    (h : entries map = extra + ((v, it) :: rest : List (V × K))) :
    it ∈ map.keys ∧ entries (map.erase it) = extra + (rest : Multiset (V × K)) := by
  have hcons : entries map = (v, it) ::ₘ (extra + (rest : Multiset (V × K))) := by
    rw [h, ← Multiset.cons_coe, Multiset.add_cons]
  have hlookup : map.lookup it = some v := by
    rw [← mem_entries, hcons]
    exact Multiset.mem_cons_self _ _
  refine ⟨mem_keys_iff.2 ⟨v, hlookup⟩, ?_⟩
  rw [entries_erase hlookup] at hcons
  exact (Multiset.cons_inj_right _).1 hcons

variable [LinearOrder V]

def insert (m : LimitedMap K V) (k : K) (v : V) : Option (LimitedMap K V) :=
  if k ∈ m.map.keys then some m
  else if m.nMaxSize ≠ 0 ∧ (m.map.insert k v).keys.length = m.nMaxSize then
    (evict (m.map.insert k v) m.rmap).map fun e => ⟨e.1, Multimap.insert (v, k) e.2, m.nMaxSize⟩
  else some ⟨m.map.insert k v, Multimap.insert (v, k) m.rmap, m.nMaxSize⟩

/-- `none` is the assertion that fails when the range of the value does not have the iterator. -/
def erase (m : LimitedMap K V) (k : K) : Option (LimitedMap K V) :=
  match m.map.lookup k with
  | none => some m
  | some v => if (v, k) ∈ m.rmap then some ⟨m.map.erase k, m.rmap.erase (v, k), m.nMaxSize⟩ else none

def update (m : LimitedMap K V) (k : K) (v : V) : Option (LimitedMap K V) :=
  match m.map.lookup k with
  | none => some m
  | some old =>
    if (old, k) ∈ m.rmap then some ⟨m.map.insert k v, Multimap.insert (v, k) (m.rmap.erase (old, k)), m.nMaxSize⟩
    else none

/-- The loop of `max_size`. -/
def shrink (s : Nat) (map : AList fun _ : K => V) : List (V × K) → Option ((AList fun _ : K => V) × List (V × K))
  | [] => if map.keys.length > s then none else some (map, [])
  | (v, it) :: rest =>
    if map.keys.length > s then
      if it ∈ map.keys then shrink s (map.erase it) rest else none
    else some (map, (v, it) :: rest)

def maxSize (m : LimitedMap K V) (s : Nat) : Option (LimitedMap K V) :=
  if s ≠ 0 then (shrink s m.map m.rmap).map fun e => ⟨e.1, e.2, s⟩ else some ⟨m.map, m.rmap, s⟩

/-! ## Calls -/

inductive Call (K V : Type) where
  | insert (k : K) (v : V)
  | erase (k : K)
  | update (k : K) (v : V)
  | maxSize (s : Nat)

def call (m : LimitedMap K V) : Call K V → Option (LimitedMap K V)
  | .insert k v => m.insert k v
  | .erase k => m.erase k
  | .update k v => m.update k v
  | .maxSize s => m.maxSize s

def run (nMaxSizeIn : Nat) (calls : List (Call K V)) : Option (LimitedMap K V) :=
  calls.foldlM call (start nMaxSizeIn)

/-! ## The two maps -/

/-- The second map has exactly one iterator for each entry, under its value. -/
structure Exact (m : LimitedMap K V) : Prop where
  rmap : (m.rmap : Multiset (V × K)) = entries m.map
  sorted : Multimap.Sorted m.rmap

theorem exact_start (nMaxSizeIn : Nat) : Exact (start nMaxSizeIn : LimitedMap K V) :=
  ⟨rfl, List.Pairwise.nil⟩

theorem Exact.size_eq {m : LimitedMap K V} (h : Exact m) : m.size = m.rmap.length := by
  rw [size, ← card_entries, ← h.rmap, Multiset.coe_card]

omit [DecidableEq K] in
theorem coe_multimap_insert (e : V × K) (rmap : List (V × K)) :
    (Multimap.insert e rmap : Multiset (V × K)) = e ::ₘ (rmap : Multiset (V × K)) := by
  rw [Multiset.cons_coe]
  exact Multiset.coe_eq_coe.2 (Multimap.insert_perm e rmap)

/-- What an insertion does: it is undefined only when it evicts from an empty map. -/
theorem Exact.insert_cases {m : LimitedMap K V} (h : Exact m) (k : K) (v : V) :
    (k ∈ m.map.keys ∧ m.insert k v = some m) ∨
      (k ∉ m.map.keys ∧ m.nMaxSize = 1 ∧ m.size = 0 ∧ m.insert k v = none) ∨
      (k ∉ m.map.keys ∧ m.nMaxSize ≠ 0 ∧ m.size ≠ 0 ∧ m.size + 1 = m.nMaxSize ∧
        ∃ m', m.insert k v = some m' ∧ Exact m' ∧ m'.nMaxSize = m.nMaxSize ∧ m'.size = m.size) ∨
      (k ∉ m.map.keys ∧ (m.nMaxSize = 0 ∨ m.size + 1 ≠ m.nMaxSize) ∧
        ∃ m', m.insert k v = some m' ∧ Exact m' ∧ m'.nMaxSize = m.nMaxSize ∧
          entries m'.map = (v, k) ::ₘ entries m.map) := by
  by_cases hin : k ∈ m.map.keys
  · exact Or.inl ⟨hin, if_pos hin⟩
  · right
    have hentries := entries_insert_fresh hin v
    have hlength : (m.map.insert k v).keys.length = m.size + 1 := by
      rw [← card_entries, hentries, Multiset.card_cons, card_entries]
      rfl
    unfold insert
    rw [if_neg hin, hlength]
    by_cases hfull : m.nMaxSize ≠ 0 ∧ m.size + 1 = m.nMaxSize
    · rw [if_pos hfull]
      cases hrmap : m.rmap with
      | nil =>
        have hzero : m.size = 0 := by rw [h.size_eq, hrmap, List.length_nil]
        exact Or.inl ⟨hin, by rw [← hfull.2, hzero], hzero, rfl⟩
      | cons front rest =>
        rcases front with ⟨w, it⟩
        have hsize : m.size = rest.length + 1 := by rw [h.size_eq, hrmap, List.length_cons]
        have hall : entries (m.map.insert k v) = {(v, k)} + ((w, it) :: rest : List (V × K)) := by
          rw [hentries, Multiset.singleton_add, ← hrmap, h.rmap]
        rcases evict_spec hall with ⟨hit, hleft⟩
        have hsorted : Multimap.Sorted rest := (List.pairwise_cons.1 (hrmap ▸ h.sorted)).2
        refine Or.inr (Or.inl ⟨hin, hfull.1, by omega, hfull.2,
          ⟨(m.map.insert k v).erase it, Multimap.insert (v, k) rest, m.nMaxSize⟩, ?_, ⟨?_, hsorted.insert (v, k)⟩, rfl, ?_⟩)
        · rw [evict, if_pos hit, Option.map_some]
        · rw [coe_multimap_insert, hleft, Multiset.singleton_add]
        · rw [size, ← card_entries, hleft, Multiset.card_add, Multiset.card_singleton, Multiset.coe_card, hsize, Nat.add_comm]
    · rw [if_neg hfull]
      refine Or.inr (Or.inr ⟨hin, ?_, _, rfl, ⟨?_, h.sorted.insert (v, k)⟩, rfl, hentries⟩)
      · by_cases hzero : m.nMaxSize = 0
        · exact Or.inl hzero
        · exact Or.inr fun heq => hfull ⟨hzero, heq⟩
      · rw [coe_multimap_insert, hentries, h.rmap]

theorem Exact.coe_erase {m : LimitedMap K V} (h : Exact m) {k : K} {v : V} (hlookup : m.map.lookup k = some v) :
    (v, k) ∈ m.rmap ∧ (m.rmap.erase (v, k) : Multiset (V × K)) = entries (m.map.erase k) := by
  have hin : (v, k) ∈ m.rmap := by
    rw [← Multiset.mem_coe, h.rmap, mem_entries]
    exact hlookup
  have hperm : (m.rmap : Multiset (V × K)) = (v, k) ::ₘ (m.rmap.erase (v, k) : Multiset (V × K)) :=
    Multiset.coe_eq_coe.2 (List.perm_cons_erase hin)
  rw [h.rmap, entries_erase hlookup] at hperm
  exact ⟨hin, ((Multiset.cons_inj_right _).1 hperm).symm⟩

/-- The assertion holds: the range of the value has the iterator. -/
theorem Exact.erase {m : LimitedMap K V} (h : Exact m) (k : K) :
    ∃ m', m.erase k = some m' ∧ Exact m' ∧ m'.nMaxSize = m.nMaxSize ∧ m'.size ≤ m.size := by
  cases hlookup : m.map.lookup k with
  | none => exact ⟨m, by rw [LimitedMap.erase, hlookup], h, rfl, le_rfl⟩
  | some v =>
    rcases h.coe_erase hlookup with ⟨hin, herased⟩
    refine ⟨⟨m.map.erase k, m.rmap.erase (v, k), m.nMaxSize⟩, ?_, ⟨herased, h.sorted.sublist List.erase_sublist⟩, rfl, ?_⟩
    · rw [LimitedMap.erase, hlookup]
      exact if_pos hin
    · rw [size, size, ← card_entries, ← card_entries, entries_erase hlookup, Multiset.card_cons]
      exact Nat.le_succ _

theorem Exact.update {m : LimitedMap K V} (h : Exact m) (k : K) (v : V) :
    ∃ m', m.update k v = some m' ∧ Exact m' ∧ m'.nMaxSize = m.nMaxSize ∧ m'.size = m.size := by
  cases hlookup : m.map.lookup k with
  | none => exact ⟨m, by rw [LimitedMap.update, hlookup], h, rfl, rfl⟩
  | some old =>
    rcases h.coe_erase hlookup with ⟨hin, herased⟩
    have hsorted : Multimap.Sorted (m.rmap.erase (old, k)) := h.sorted.sublist List.erase_sublist
    refine ⟨⟨m.map.insert k v, Multimap.insert (v, k) (m.rmap.erase (old, k)), m.nMaxSize⟩, ?_,
      ⟨?_, hsorted.insert (v, k)⟩, rfl, ?_⟩
    · rw [LimitedMap.update, hlookup]
      exact if_pos hin
    · rw [coe_multimap_insert, herased, entries_insert]
    · rw [size, size, ← card_entries, ← card_entries, entries_insert, entries_erase hlookup, Multiset.card_cons,
        Multiset.card_cons]

/-- The loop does not run out of iterators. -/
theorem shrink_spec {s : Nat} {rmap : List (V × K)} (hsorted : Multimap.Sorted rmap) :
    ∀ {map : AList fun _ : K => V}, (rmap : Multiset (V × K)) = entries map →
      ∃ map' rmap', shrink s map rmap = some (map', rmap') ∧ (rmap' : Multiset (V × K)) = entries map' ∧
        Multimap.Sorted rmap' ∧ map'.keys.length ≤ s ∧ map'.keys.length ≤ map.keys.length := by
  induction rmap with
  | nil =>
    intro map h
    have hzero : map.keys.length = 0 := by rw [← card_entries, ← h, Multiset.coe_nil, Multiset.card_zero]
    refine ⟨map, [], ?_, h, hsorted, ?_, le_rfl⟩
    · rw [shrink, if_neg (by omega)]
    · omega
  | cons front rest ih =>
    intro map h
    rcases front with ⟨v, it⟩
    rw [shrink]
    by_cases hmany : map.keys.length > s
    · rw [if_pos hmany]
      have hall : entries map = 0 + ((v, it) :: rest : List (V × K)) := by rw [zero_add, h]
      rcases evict_spec hall with ⟨hit, hleft⟩
      rw [zero_add] at hleft
      have hcount : map.keys.length = (map.erase it).keys.length + 1 := by
        rw [← card_entries, ← card_entries, hleft, ← h, Multiset.coe_card, Multiset.coe_card, List.length_cons]
      rcases ih (List.pairwise_cons.1 hsorted).2 hleft.symm with ⟨map', rmap', hrun, hexact, hsorted', hle, hle'⟩
      rw [if_pos hit]
      exact ⟨map', rmap', hrun, hexact, hsorted', hle, by omega⟩
    · rw [if_neg hmany]
      exact ⟨map, (v, it) :: rest, rfl, h, hsorted, Nat.le_of_not_gt hmany, le_rfl⟩

theorem Exact.maxSize {m : LimitedMap K V} (h : Exact m) (s : Nat) :
    ∃ m', m.maxSize s = some m' ∧ Exact m' ∧ m'.nMaxSize = s ∧ (s ≠ 0 → m'.size ≤ s) := by
  by_cases hs : s ≠ 0
  · rcases shrink_spec (s := s) h.sorted h.rmap with ⟨map', rmap', hrun, hexact, hsorted, hle, -⟩
    refine ⟨⟨map', rmap', s⟩, ?_, ⟨hexact, hsorted⟩, rfl, fun _ => hle⟩
    rw [LimitedMap.maxSize, if_pos hs, hrun, Option.map_some]
  · refine ⟨⟨m.map, m.rmap, s⟩, ?_, ⟨h.rmap, h.sorted⟩, rfl, fun hne => absurd hne hs⟩
    rw [LimitedMap.maxSize, if_neg hs]

/-! ## What a run keeps -/

def inserts (xs : List (V × K)) : List (Call K V) :=
  xs.map fun x => .insert x.2 x.1

/-- The map has the entries with the highest values, as many as it is to have. -/
structure Highest (nMaxSizeIn : Nat) (xs : List (V × K)) (m : LimitedMap K V) : Prop where
  sub : entries m.map ≤ xs
  size : m.size = min nMaxSizeIn xs.length
  highest : ∀ x ∈ xs, x ∉ entries m.map → ∀ y ∈ entries m.map, x.1 ≤ y.1

/-- After the calls the two maps match, the size is in bounds, and insertions of distinct keys alone have left the
highest values. -/
structure Keeps (nMaxSizeIn : Nat) (calls : List (Call K V)) (m : LimitedMap K V) : Prop where
  exact : Exact m
  bounded : m.nMaxSize ≠ 0 → m.size ≤ m.nMaxSize
  highest : ∀ xs, calls = inserts xs → (xs.map Prod.snd).Nodup → Highest nMaxSizeIn xs m

/-- In every state of the run, and no call is undefined or fails an assertion. -/
def AlwaysKeeps (nMaxSizeIn : Nat) (calls : List (Call K V)) : Prop :=
  ∀ front, front <+: calls → ∃ m, run nMaxSizeIn front = some m ∧ Keeps nMaxSizeIn front m

/-- An insertion of a new key comes when the map is not full, and not when the insertions alone fill it. -/
def Fits (nMaxSizeIn : Nat) (front : List (Call K V)) (m : LimitedMap K V) : Call K V → Prop
  | .insert k v =>
    k ∉ m.map.keys → (m.nMaxSize = 0 ∨ 2 ≤ m.nMaxSize ∧ m.size < m.nMaxSize) ∧
      ∀ xs, front ++ [.insert k v] = inserts xs → (xs.map Prod.snd).Nodup → xs.length < nMaxSizeIn
  | _ => True

def AlwaysFits (nMaxSizeIn : Nat) (calls : List (Call K V)) : Prop :=
  ∀ front c, front ++ [c] <+: calls → ∀ m, run nMaxSizeIn front = some m → Fits nMaxSizeIn front m c

theorem run_concat (nMaxSizeIn : Nat) (front : List (Call K V)) (c : Call K V) :
    run nMaxSizeIn (front ++ [c]) = (run nMaxSizeIn front).bind fun m => m.call c := by
  rw [run, List.foldlM_append]
  simp only [List.foldlM_cons, List.foldlM_nil, bind_pure]
  rfl

omit [DecidableEq K] [LinearOrder V] in
/-- The last of the insertions. -/
theorem concat_eq_inserts {front : List (Call K V)} {c : Call K V} {xs : List (V × K)} (h : front ++ [c] = inserts xs) :
    ∃ xs' v k, xs = xs' ++ [(v, k)] ∧ front = inserts xs' ∧ c = .insert k v := by
  induction xs using List.reverseRecOn with
  | nil => exact absurd h (List.append_ne_nil_of_right_ne_nil front (List.cons_ne_nil c []))
  | append_singleton xs' x _ =>
    rw [inserts, List.map_append, List.map_singleton] at h
    rcases List.append_inj' h rfl with ⟨hfront, hlast⟩
    exact ⟨xs', x.1, x.2, rfl, hfront, List.singleton_inj.1 hlast⟩

/-- What holds after calls that fit. -/
structure Kept (nMaxSizeIn : Nat) (calls : List (Call K V)) (m : LimitedMap K V) : Prop where
  exact : Exact m
  bounded : m.nMaxSize ≠ 0 → m.size ≤ m.nMaxSize
  all : ∀ xs, calls = inserts xs → (xs.map Prod.snd).Nodup →
    entries m.map = xs ∧ m.nMaxSize = nMaxSizeIn ∧ xs.length ≤ nMaxSizeIn

theorem Kept.keeps {nMaxSizeIn : Nat} {calls : List (Call K V)} {m : LimitedMap K V} (h : Kept nMaxSizeIn calls m) :
    Keeps nMaxSizeIn calls m := by
  refine ⟨h.exact, h.bounded, fun xs hxs hnodup => ?_⟩
  rcases h.all xs hxs hnodup with ⟨hall, -, hle⟩
  refine ⟨le_of_eq hall, ?_, fun x hx hout => absurd ?_ hout⟩
  · rw [size, ← card_entries, hall, Multiset.coe_card, min_eq_right hle]
  · rw [hall]
    exact Multiset.mem_coe.2 hx

/-- **Step.** -/
theorem Kept.call {nMaxSizeIn : Nat} {front : List (Call K V)} {m : LimitedMap K V} (h : Kept nMaxSizeIn front m)
    {c : Call K V} (hfits : Fits nMaxSizeIn front m c) :
    ∃ m', m.call c = some m' ∧ Kept nMaxSizeIn (front ++ [c]) m' := by
  have hnoInsert : ∀ {m' : LimitedMap K V}, (∀ k v, c ≠ .insert k v) → ∀ xs, front ++ [c] = inserts xs →
      (xs.map Prod.snd).Nodup → entries m'.map = xs ∧ m'.nMaxSize = nMaxSizeIn ∧ xs.length ≤ nMaxSizeIn := by
    intro m' hother xs hxs
    rcases concat_eq_inserts hxs with ⟨_, v, k, _, _, hc⟩
    exact absurd hc (hother k v)
  cases c with
  | insert k v =>
    rcases h.exact.insert_cases k v with ⟨hin, hrun⟩ | ⟨hin, hone, hzero, -⟩ |
      ⟨hin, hmax, -, hfull, m', hrun, hexact, hmax', hsize⟩ | ⟨hin, -, m', hrun, hexact, hmax', hentries⟩
    · refine ⟨m, hrun, h.exact, h.bounded, fun xs hxs hnodup => ?_⟩
      rcases concat_eq_inserts hxs with ⟨xs', v', k', rfl, hfront, hc⟩
      cases hc
      rw [List.map_append, List.map_singleton, List.nodup_append] at hnodup
      -- The keys are distinct, so the key is not there yet.
      have hold := (h.all xs' hfront hnodup.1).1
      rcases mem_keys_iff.1 hin with ⟨w, hlookup⟩
      have hin' : (w, k) ∈ xs' := by
        rw [← Multiset.mem_coe, ← hold, mem_entries]
        exact hlookup
      exact absurd rfl (hnodup.2.2 k (List.mem_map_of_mem hin') k List.mem_cons_self)
    · rcases (hfits hin).1 with hmax | ⟨hmax, -⟩ <;> omega
    · refine ⟨m', hrun, hexact, fun _ => by omega, fun xs hxs hnodup => ?_⟩
      have hfew := (hfits hin).2 xs hxs hnodup
      rcases concat_eq_inserts hxs with ⟨xs', v', k', rfl, hfront, hc⟩
      rw [List.map_append, List.nodup_append] at hnodup
      rcases h.all xs' hfront hnodup.1 with ⟨hall, hmaxIn, -⟩
      have hcount : m.size = xs'.length := by rw [size, ← card_entries, hall, Multiset.coe_card]
      rw [List.length_append, List.length_singleton] at hfew
      omega
    · have hcount : m'.size = m.size + 1 := by
        rw [size, ← card_entries, hentries, Multiset.card_cons, card_entries]
        rfl
      refine ⟨m', hrun, hexact, fun hne => ?_, fun xs hxs hnodup => ?_⟩
      · rw [hmax'] at hne ⊢
        rcases (hfits hin).1 with hzero | ⟨-, hroom⟩
        · exact absurd hzero hne
        · omega
      · have hfew := (hfits hin).2 xs hxs hnodup
        rcases concat_eq_inserts hxs with ⟨xs', v', k', rfl, hfront, hc⟩
        cases hc
        rw [List.map_append, List.nodup_append] at hnodup
        rcases h.all xs' hfront hnodup.1 with ⟨hall, hmaxIn, -⟩
        refine ⟨?_, hmax'.trans hmaxIn, hfew.le⟩
        rw [hentries, hall, Multiset.cons_coe]
        exact Multiset.coe_eq_coe.2 (List.perm_append_singleton _ _).symm
  | erase k =>
    rcases h.exact.erase k with ⟨m', hrun, hexact, hmax', hsize⟩
    refine ⟨m', hrun, hexact, fun hne => ?_, hnoInsert fun _ _ h => nomatch h⟩
    rw [hmax'] at hne ⊢
    exact hsize.trans (h.bounded hne)
  | update k v =>
    rcases h.exact.update k v with ⟨m', hrun, hexact, hmax', hsize⟩
    refine ⟨m', hrun, hexact, fun hne => ?_, hnoInsert fun _ _ h => nomatch h⟩
    rw [hmax'] at hne ⊢
    exact hsize.le.trans (h.bounded hne)
  | maxSize s =>
    rcases h.exact.maxSize s with ⟨m', hrun, hexact, hmax', hsize⟩
    refine ⟨m', hrun, hexact, fun hne => ?_, hnoInsert fun _ _ h => nomatch h⟩
    rw [hmax'] at hne ⊢
    exact hsize hne

/-- **Run.** -/
theorem AlwaysFits.kept {nMaxSizeIn : Nat} {calls : List (Call K V)} (h : AlwaysFits nMaxSizeIn calls)
    (front : List (Call K V)) (hfront : front <+: calls) : ∃ m, run nMaxSizeIn front = some m ∧ Kept nMaxSizeIn front m := by
  induction front using List.reverseRecOn with
  | nil =>
    refine ⟨start nMaxSizeIn, rfl, exact_start nMaxSizeIn, fun _ => Nat.zero_le _, fun xs hxs _ => ?_⟩
    have hnil : xs = [] := List.map_eq_nil_iff.1 hxs.symm
    subst hnil
    exact ⟨rfl, rfl, Nat.zero_le _⟩
  | append_singleton front c ih =>
    rcases ih ((List.prefix_append front [c]).trans hfront) with ⟨m, hrun, hkept⟩
    rcases hkept.call (h front c hfront m hrun) with ⟨m', hcall, hkept'⟩
    refine ⟨m', ?_, hkept'⟩
    rw [run_concat, hrun]
    exact hcall

theorem insert_nMaxSize {m m' : LimitedMap K V} {k : K} {v : V} (h : m.insert k v = some m') :
    m'.nMaxSize = m.nMaxSize := by
  unfold insert at h
  split_ifs at h
  · cases h
    rfl
  · rcases Option.map_eq_some_iff.1 h with ⟨e, -, rfl⟩
    rfl
  · cases h
    rfl

theorem run_inserts_nMaxSize {nMaxSizeIn : Nat} (xs : List (V × K)) :
    ∀ {m : LimitedMap K V}, run nMaxSizeIn (inserts xs) = some m → m.nMaxSize = nMaxSizeIn := by
  induction xs using List.reverseRecOn with
  | nil =>
    intro m hrun
    cases hrun
    rfl
  | append_singleton xs x ih =>
    intro m hrun
    have hconcat : inserts (xs ++ [x]) = inserts xs ++ [.insert x.2 x.1] := by
      rw [inserts, List.map_append, List.map_singleton, inserts]
    rw [hconcat, run_concat] at hrun
    rcases Option.bind_eq_some_iff.1 hrun with ⟨m₀, hrun₀, hcall⟩
    exact (insert_nMaxSize hcall).trans (ih hrun₀)

/-- An insertion that does not fit leaves too few entries, or too many, or is undefined. -/
theorem AlwaysKeeps.fits {nMaxSizeIn : Nat} (hpos : 1 ≤ nMaxSizeIn) {calls : List (Call K V)}
    (h : AlwaysKeeps nMaxSizeIn calls) : AlwaysFits nMaxSizeIn calls := by
  intro front c hfront m hrun
  cases c with
  | erase k => trivial
  | update k v => trivial
  | maxSize s => trivial
  | insert k v =>
    intro hin
    rcases h front ((List.prefix_append front _).trans hfront) with ⟨m₀, hrun₀, hkeeps⟩
    obtain rfl : m₀ = m := Option.some.inj (hrun₀.symm.trans hrun)
    rcases h _ hfront with ⟨m', hrun', hkeeps'⟩
    rw [run_concat, hrun] at hrun'
    have hcall : m₀.insert k v = some m' := hrun'
    -- Only insertions: how many entries there are to be before and after.
    have hsizes : ∀ xs, front ++ [.insert k v] = inserts xs → (xs.map Prod.snd).Nodup → m₀.nMaxSize = nMaxSizeIn ∧
        m₀.size = min nMaxSizeIn (xs.length - 1) ∧ m'.size = min nMaxSizeIn xs.length ∧ 0 < xs.length := by
      intro xs hxs hnodup
      have hafter := (hkeeps'.highest xs hxs hnodup).size
      rcases concat_eq_inserts hxs with ⟨xs', v', k', rfl, hfront', -⟩
      rw [List.map_append, List.nodup_append] at hnodup
      have hbefore := (hkeeps.highest xs' hfront' hnodup.1).size
      have hlength : (xs' ++ [(v', k')]).length = xs'.length + 1 := by rw [List.length_append, List.length_singleton]
      rw [hlength] at hafter ⊢
      exact ⟨run_inserts_nMaxSize xs' (hfront' ▸ hrun), hbefore, hafter, Nat.succ_pos _⟩
    rcases hkeeps.exact.insert_cases k v with ⟨hin', -⟩ | ⟨-, -, -, hnone⟩ |
      ⟨-, hmax, hne, hfull, m₁, hrun₁, -, -, hsize⟩ | ⟨-, hcase, m₁, hrun₁, -, hmax', hentries⟩
    · exact absurd hin' hin
    · rw [hnone] at hcall
      cases hcall
    · obtain rfl : m₁ = m' := Option.some.inj (hrun₁.symm.trans hcall)
      refine ⟨Or.inr ⟨by omega, by omega⟩, fun xs hxs hnodup => ?_⟩
      rcases hsizes xs hxs hnodup with ⟨hmaxIn, hbefore, hafter, hlength⟩
      omega
    · obtain rfl : m₁ = m' := Option.some.inj (hrun₁.symm.trans hcall)
      have hcount : m₁.size = m₀.size + 1 := by
        rw [size, ← card_entries, hentries, Multiset.card_cons, card_entries]
        rfl
      have hbounded := hkeeps'.bounded
      rw [hmax'] at hbounded
      refine ⟨?_, fun xs hxs hnodup => ?_⟩
      · by_cases hzero : m₀.nMaxSize = 0
        · exact Or.inl hzero
        · have hle := hbounded hzero
          have hne := hcase.resolve_left hzero
          exact Or.inr ⟨by omega, by omega⟩
      · rcases hsizes xs hxs hnodup with ⟨hmaxIn, hbefore, hafter, hlength⟩
        have hzero : m₀.nMaxSize ≠ 0 := by omega
        have hle := hbounded hzero
        have hne := hcase.resolve_left hzero
        omega

/-- `limitedmap` keeps what it says exactly as long as it is not filled. -/
theorem alwaysKeeps_iff {nMaxSizeIn : Nat} (hpos : 1 ≤ nMaxSizeIn) (calls : List (Call K V)) :
    AlwaysKeeps nMaxSizeIn calls ↔ AlwaysFits nMaxSizeIn calls := by
  refine ⟨AlwaysKeeps.fits hpos, fun h front hfront => ?_⟩
  rcases h.kept front hfront with ⟨m, hrun, hkept⟩
  exact ⟨m, hrun, hkept.keeps⟩

theorem alwaysKeeps_iff_three :
    AlwaysKeeps 3 [Call.insert (7 : Nat) (5 : Int), .insert 8 6] ↔
      AlwaysFits 3 [Call.insert (7 : Nat) (5 : Int), .insert 8 6] :=
  alwaysKeeps_iff (by decide) _

/-- Of two entries only the last is kept where there is room for two; where there is room for one, the first insertion
is undefined; and a map that has been cut down to the new size grows without bound. -/
theorem insert_at_the_limit :
    (run 2 [Call.insert (7 : Nat) (5 : Int), .insert 8 6]).map size = some 1 ∧
      (run 1 [Call.insert (7 : Nat) (5 : Int)]).map size = none ∧
      (run 9 [Call.insert (7 : Nat) (5 : Int), .insert 8 6, .maxSize 2, .insert 9 7, .insert 10 8]).map size = some 4 ∧
      ¬AlwaysKeeps 2 [Call.insert (7 : Nat) (5 : Int), .insert 8 6] := by
  refine ⟨by decide, by decide, by decide, fun h => ?_⟩
  rcases h _ (List.prefix_refl _) with ⟨m, hrun, hkeeps⟩
  have hsize := (hkeeps.highest [(5, 7), (6, 8)] rfl (by decide)).size
  have hone : (run 2 [Call.insert (7 : Nat) (5 : Int), .insert 8 6]).map size = some 1 := by decide
  rw [hrun] at hone
  have hone' : m.size = 1 := Option.some.inj hone
  rw [hone'] at hsize
  cases hsize

end LimitedMap

end Dobbscoin
