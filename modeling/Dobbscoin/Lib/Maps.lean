import Mathlib.Data.List.AList
import Mathlib.Data.List.Sort
import Mathlib.Data.Multiset.Bind

/-!
# Multimaps

A map that can have several values for a key is a list of entries in the order of their keys; an entry is inserted
behind those with the same key.
-/

namespace Multimap

variable {K V : Type} [LinearOrder K]

/-- `insert`. -/
def insert (e : K × V) : List (K × V) → List (K × V)
  | [] => [e]
  | e' :: m => if e.1 < e'.1 then e :: e' :: m else e' :: insert e m

def insertAll (m entries : List (K × V)) : List (K × V) :=
  entries.foldl (fun m e => insert e m) m

/-- The keys are in order. -/
def Sorted (m : List (K × V)) : Prop :=
  m.Pairwise fun e e' => e.1 ≤ e'.1

theorem insert_perm (e : K × V) (m : List (K × V)) : (insert e m).Perm (e :: m) := by
  induction m with
  | nil => exact List.Perm.refl _
  | cons e' m ih =>
    rw [insert]
    split_ifs
    · exact List.Perm.refl _
    · exact (ih.cons e').trans (List.Perm.swap e e' m)

theorem insertAll_perm (m entries : List (K × V)) : (insertAll m entries).Perm (m ++ entries) := by
  induction entries generalizing m with
  | nil => exact List.Perm.of_eq (List.append_nil m).symm
  | cons e entries ih =>
    have hstep : (insert e m ++ entries).Perm (m ++ e :: entries) :=
      ((insert_perm e m).append_right entries).trans List.perm_middle.symm
    exact (ih (insert e m)).trans hstep

theorem Sorted.insert {m : List (K × V)} (h : Sorted m) (e : K × V) : Sorted (insert e m) := by
  induction m with
  | nil => exact List.pairwise_singleton _ e
  | cons e' m ih =>
    rcases List.pairwise_cons.1 h with ⟨hhead, htail⟩
    rw [Multimap.insert]
    split_ifs with hlt
    · refine List.pairwise_cons.2 ⟨fun x hx => ?_, h⟩
      rcases List.mem_cons.1 hx with rfl | hx
      · exact hlt.le
      · exact hlt.le.trans (hhead x hx)
    · refine List.pairwise_cons.2 ⟨fun x hx => ?_, ih htail⟩
      rcases List.mem_cons.1 ((insert_perm e m).mem_iff.1 hx) with rfl | hx
      · exact not_lt.1 hlt
      · exact hhead x hx

theorem Sorted.insertAll {m : List (K × V)} (h : Sorted m) (entries : List (K × V)) :
    Sorted (insertAll m entries) := by
  induction entries generalizing m with
  | nil => exact h
  | cons e entries ih => exact ih (h.insert e)

end Multimap

/-!
# MapIndex — a map that is an index of a collection

Programs keep items in several lists and next to them a map from a key of each item to the place where it
is.  `Indexes key place items m` says that the map `m` is exact: it holds each item, and nothing else.
-/

namespace MapIndex

variable {K V X : Type} [DecidableEq K]

/-! ## Entries -/

/-- The entries of a map are the one that is looked up, and the others. -/
theorem entries_of_lookup {m : AList fun _ : K => V} {k : K} {v : V} (h : m.lookup k = some v) :
    (m.entries : Multiset (Σ _ : K, V)) = ⟨k, v⟩ ::ₘ (m.erase k).entries := by
  have hmem : k ∈ m.entries.keys := by
    rw [← List.dlookup_isSome]
    exact Option.isSome_of_mem h
  rcases List.exists_of_kerase hmem with ⟨v', front, back, -, hentries, herase⟩
  have hin : (⟨k, v'⟩ : Σ _ : K, V) ∈ m.entries := by
    rw [hentries]
    exact List.mem_append_right _ List.mem_cons_self
  have hvalue : v' = v := by
    have hlookup : m.lookup k = some v' := List.mem_dlookup m.nodupKeys hin
    exact Option.some.inj (hlookup.symm.trans h)
  have herased : (m.erase k).entries = front ++ back := herase
  rw [herased, hentries, hvalue]
  exact Multiset.coe_eq_coe.2 List.perm_middle

theorem entries_insert (m : AList fun _ : K => V) (k : K) (v : V) :
    ((m.insert k v).entries : Multiset (Σ _ : K, V)) = ⟨k, v⟩ ::ₘ (m.erase k).entries :=
  rfl

/-- Nothing is taken away where nothing is. -/
theorem erase_of_lookup_none {m : AList fun _ : K => V} {k : K} (h : m.lookup k = none) : m.erase k = m := by
  apply AList.ext
  exact List.kerase_of_notMem_keys (AList.lookup_eq_none.1 h)

/-! ## Indexes -/

structure Indexes (key : X → K) (place : X → V) (items : Multiset X) (m : AList fun _ : K => V) : Prop where
  lookup : ∀ k v, m.lookup k = some v ↔ ∃ x ∈ items, key x = k ∧ place x = v
  nodup : (items.map key).Nodup

section

variable {key : X → K} {place : X → V} {items : Multiset X} {m : AList fun _ : K => V}

theorem indexes_empty : Indexes key place 0 ∅ :=
  ⟨fun k v => by simp, by simp⟩

theorem Indexes.lookup_key (h : Indexes key place items m) {x : X} (hx : x ∈ items) :
    m.lookup (key x) = some (place x) :=
  (h.lookup _ _).2 ⟨x, hx, rfl, rfl⟩

theorem Indexes.key_ne (h : Indexes key place items m) {k : K} (hk : m.lookup k = none) :
    ∀ x ∈ items, key x ≠ k := by
  rintro x hx rfl
  rw [h.lookup_key hx] at hk
  cases hk

theorem Indexes.insert (h : Indexes key place items m) {x : X} (hx : m.lookup (key x) = none) :
    Indexes key place (x ::ₘ items) (m.insert (key x) (place x)) := by
  constructor
  · intro k v
    simp only [Multiset.mem_cons, exists_eq_or_imp]
    by_cases hk : k = key x
    · subst hk
      rw [AList.lookup_insert]
      constructor
      · intro hv
        exact Or.inl ⟨rfl, Option.some.inj hv⟩
      · rintro (⟨-, hv⟩ | ⟨y, hy, hkey, -⟩)
        · rw [hv]
        · exact absurd hkey (h.key_ne hx y hy)
    · rw [AList.lookup_insert_ne hk, h.lookup]
      exact ⟨Or.inr, fun hor => hor.resolve_left fun heq => hk heq.1.symm⟩
  · rw [Multiset.map_cons, Multiset.nodup_cons]
    refine ⟨fun hmem => ?_, h.nodup⟩
    rcases Multiset.mem_map.1 hmem with ⟨y, hy, hkey⟩
    exact h.key_ne hx y hy hkey

theorem Indexes.erase {x : X} (h : Indexes key place (x ::ₘ items) m) :
    Indexes key place items (m.erase (key x)) := by
  have hnodup := h.nodup
  rw [Multiset.map_cons, Multiset.nodup_cons] at hnodup
  refine ⟨fun k v => ?_, hnodup.2⟩
  by_cases hk : k = key x
  · subst hk
    rw [AList.lookup_erase]
    constructor
    · intro hnone
      cases hnone
    · rintro ⟨y, hy, hkey, -⟩
      exact absurd (Multiset.mem_map.2 ⟨y, hy, hkey⟩) hnodup.1
  · rw [AList.lookup_erase_ne hk, h.lookup]
    simp only [Multiset.mem_cons, exists_eq_or_imp]
    exact ⟨fun hor => hor.resolve_left fun heq => hk heq.1.symm, Or.inr⟩

theorem Indexes.eraseAll {xs : List X} (h : Indexes key place (xs + items) m) :
    Indexes key place items (xs.foldl (fun m x => m.erase (key x)) m) := by
  induction xs generalizing m with
  | nil =>
    rw [Multiset.coe_nil, zero_add] at h
    exact h
  | cons x xs ih =>
    rw [← Multiset.cons_coe, Multiset.cons_add] at h
    exact ih h.erase

end

end MapIndex

/-!
# Rekey — tables that are read back under other keys

A program that stores records under one key and indexes them in memory under another one reads a table by
searching its entries.  The lemmas say what an erase in the table does to such a search.
-/

namespace Rekey

variable {K K' V V' E : Type}

/-- Looking up a key in an index is searching the entries for it. -/
theorem dlookup_map [DecidableEq K'] (key : E → K') (value : E → V') (k : K') (l : List E) :
    List.dlookup k (l.map fun e => (⟨key e, value e⟩ : Σ _ : K', V')) =
      (l.find? fun e => decide (key e = k)).map value := by
  induction l with
  | nil => rfl
  | cons e l ih =>
    rw [List.map_cons]
    by_cases h : key e = k
    · subst h
      rw [List.dlookup_cons_eq, List.find?_cons_of_pos (by simp), Option.map_some]
    · rw [List.dlookup_cons_ne _ _ (fun hk => h hk.symm), ih, List.find?_cons_of_neg (by simpa using h)]

section

variable [DecidableEq K] {p : (Σ _ : K, V) → Bool} {a : K}

/-- An erase does not change a search that passes the erased key by. -/
theorem find?_kerase (l : List (Σ _ : K, V)) (h : ∀ e, e.1 = a → p e = false) :
    (l.kerase a).find? p = l.find? p := by
  induction l with
  | nil => rfl
  | cons e l ih =>
    by_cases he : e.1 = a
    · rw [List.kerase_cons_eq he.symm, List.find?_cons_of_neg (by simp [h e he])]
    · rw [List.kerase_cons_ne (fun hk => he hk.symm), List.find?_cons, List.find?_cons, ih]

/-- Where only the erased key matches, the search finds nothing. -/
theorem find?_kerase_eq_none {l : List (Σ _ : K, V)} (hnodup : l.NodupKeys)
    (h : ∀ e ∈ l, p e = true → e.1 = a) : (l.kerase a).find? p = none := by
  rw [List.find?_eq_none]
  intro e he hp
  have hkey : e.1 = a := h e (List.kerase_sublist a l |>.subset he) hp
  have hin : e.1 ∈ (l.kerase a).keys := List.mem_keys_of_mem he
  rw [hkey] at hin
  exact List.notMem_keys_kerase a hnodup hin

end

/-- Something is left when there was another key. -/
theorem erase_entries_ne_nil_iff [DecidableEq K] (t : AList fun _ : K => V) (a : K) :
    (t.erase a).entries ≠ [] ↔ ∃ k ∈ t.keys, k ≠ a := by
  have hmem : ∀ k, k ∈ (t.erase a).keys ↔ k ≠ a ∧ k ∈ t.keys := by
    intro k
    rw [AList.keys_erase, t.keys_nodup.mem_erase_iff]
  constructor
  · intro h
    rcases List.exists_mem_of_ne_nil _ h with ⟨e, he⟩
    rcases (hmem e.1).1 (List.mem_keys_of_mem he) with ⟨hne, hin⟩
    exact ⟨e.1, hin, hne⟩
  · rintro ⟨k, hin, hne⟩ hnil
    have hkeys : (t.erase a).keys = [] := by rw [AList.keys, hnil, List.keys_nil]
    exact List.not_mem_nil (hkeys ▸ (hmem k).2 ⟨hne, hin⟩)

/-! ## Tables of given keys -/

section

variable [DecidableEq K]

/-- The table with these keys, and with a value for each. -/
def tableOf (keys : List K) (value : K → V) : AList fun _ : K => V :=
  (keys.map fun k => ⟨k, value k⟩).toAList

theorem lookup_tableOf (keys : List K) (value : K → V) (k : K) :
    (tableOf keys value).lookup k = if k ∈ keys then some (value k) else none := by
  rw [tableOf, AList.lookup_to_alist, dlookup_map (fun k => k)]
  split_ifs with h
  · have hfind : (keys.find? fun e => decide (e = k)) = some k := by
      cases hresult : keys.find? fun e => decide (e = k) with
      | none => exact absurd (List.find?_eq_none.1 hresult k h) (by simp)
      | some e =>
        have heq : decide (e = k) = true := List.find?_some (p := fun e => decide (e = k)) hresult
        rw [of_decide_eq_true heq]
    rw [hfind, Option.map_some]
  · have hfind : (keys.find? fun e => decide (e = k)) = none := by
      refine List.find?_eq_none.2 fun e he heq => h ?_
      rw [← of_decide_eq_true heq]
      exact he
    rw [hfind, Option.map_none]

/-- The row of a table whose keys are pairs. -/
def row {K₂ : Type} (a : K) (t : AList fun _ : K × K₂ => V) : List (Σ _ : K₂, V) :=
  t.entries.filterMap fun e => if e.1.1 = a then some ⟨e.1.2, e.2⟩ else none

theorem dlookup_row {K₂ : Type} [DecidableEq K₂] (a : K) (t : AList fun _ : K × K₂ => V) (k : K₂) :
    List.dlookup k (row a t) = t.lookup (a, k) := by
  unfold row AList.lookup
  induction t.entries with
  | nil => rfl
  | cons e l ih =>
    rcases e with ⟨⟨a', k'⟩, v⟩
    rw [List.filterMap_cons]
    by_cases ha : a' = a
    · subst ha
      simp only [if_true]
      by_cases hk : k = k'
      · subst hk
        rw [List.dlookup_cons_eq, List.dlookup_cons_eq]
      · rw [List.dlookup_cons_ne _ _ hk, ih, List.dlookup_cons_ne]
        exact fun h => hk (Prod.mk.inj h).2
    · simp only [if_neg ha]
      rw [ih, List.dlookup_cons_ne]
      exact fun h => ha (Prod.mk.inj h).1.symm

/-- Erasing a list of keys. -/
theorem lookup_foldl_erase (keys : List K) (t : AList fun _ : K => V) (k : K) :
    (keys.foldl (fun t k => t.erase k) t).lookup k = if k ∈ keys then none else t.lookup k := by
  induction keys generalizing t with
  | nil => rfl
  | cons k' keys ih =>
    rw [List.foldl_cons, ih]
    by_cases hk : k = k'
    · subst hk
      simp
    · simp [hk, AList.lookup_erase_ne hk]

end

end Rekey

/-!
# Heap — what is allocated

Reading, writing and freeing fail at an address where nothing is allocated: a run that does not fail follows no stale
pointer and frees nothing twice, and when nothing is left, everything has been freed.
-/

/-- What is allocated, by its address. -/
abbrev Heap (β : Type) := AList fun _ : Nat => β

namespace Heap

variable {β : Type}

def read (h : Heap β) (p : Nat) : Option β :=
  h.lookup p

def allocate (h : Heap β) (p : Nat) (b : β) : Heap β :=
  h.insert p b

def write (h : Heap β) (p : Nat) (b : β) : Option (Heap β) :=
  (h.read p).map fun _ => h.insert p b

def free (h : Heap β) (p : Nat) : Option (Heap β) :=
  (h.read p).map fun _ => h.erase p

variable {h h' : Heap β} {p q : Nat} {b c : β}

theorem read_allocate : (h.allocate p b).read p = some b :=
  AList.lookup_insert h

theorem read_allocate_ne (hne : q ≠ p) : (h.allocate p b).read q = h.read q :=
  AList.lookup_insert_ne hne

theorem write_eq (hread : h.read p = some c) : h.write p b = some (h.allocate p b) := by
  rw [write, hread]
  rfl

/-- What has been freed is gone, and nothing else changes. -/
theorem free_spec (hread : h.read p = some c) :
    ∃ h', h.free p = some h' ∧ h'.read p = none ∧ ∀ q, q ≠ p → h'.read q = h.read q := by
  refine ⟨h.erase p, ?_, AList.lookup_erase p h, fun q hne => AList.lookup_erase_ne hne⟩
  rw [free, hread]
  rfl

theorem mem_keys : p ∈ h.keys ↔ ∃ b, h.read p = some b := by
  rw [← AList.mem_keys, ← AList.lookup_isSome, Option.isSome_iff_exists]
  rfl

/-- Nothing is left when nothing can be read. -/
theorem keys_eq_nil (hnone : ∀ p, h.read p = none) : h.keys = [] := by
  apply List.eq_nil_iff_forall_not_mem.2
  intro p hp
  rcases mem_keys.1 hp with ⟨b, hb⟩
  rw [hnone p] at hb
  cases hb

end Heap
