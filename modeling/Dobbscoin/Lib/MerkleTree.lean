import Mathlib.Data.Nat.Bitwise
import Mathlib.Tactic

/-!
# MerkleTree — hash trees that pad odd levels

A level is a list of nodes.  The level above it has one node for each pair of neighbours; the last
node of an odd level is paired with itself.  Padding makes the construction ambiguous: a level that
ends with two equal nodes looks the same as the shorter level that is padded.  `build_inj` says that
this is the only ambiguity, when distinct pairs give distinct nodes and no leaf is a node of a pair.
-/

namespace MerkleTree

variable {α : Type}

/-! ## One level -/

/-- The pairs of a level, the last node of an odd level with itself. -/
def pairUp : List α → List (α × α)
  | [] => []
  | [a] => [(a, a)]
  | a :: b :: rest => (a, b) :: pairUp rest

/-- The level is padded by its own content: it is even, and its last two nodes are equal. -/
def endsTwice [DecidableEq α] : List α → Bool
  | [] => false
  | [_] => false
  | [a, b] => a == b
  | _ :: _ :: rest => endsTwice rest

def levelUp (node : α × α → α) (xs : List α) : List α :=
  (pairUp xs).map node

theorem length_pairUp (xs : List α) : (pairUp xs).length = (xs.length + 1) / 2 := by
  induction xs using pairUp.induct with
  | case1 => simp [pairUp]
  | case2 a => simp [pairUp]
  | case3 a b rest ih =>
    simp only [pairUp, List.length_cons, ih]
    omega

theorem length_levelUp (node : α × α → α) (xs : List α) :
    (levelUp node xs).length = (xs.length + 1) / 2 := by
  simp [levelUp, length_pairUp]

@[simp] theorem pairUp_eq_nil {xs : List α} : pairUp xs = [] ↔ xs = [] := by
  cases xs with
  | nil => simp [pairUp]
  | cons a rest => cases rest <;> simp [pairUp]

/-- The pairs determine the level, unless one of two levels is padded by its own content. -/
theorem pairUp_inj [DecidableEq α] {xs ys : List α} (hx : endsTwice xs = false)
    (hy : endsTwice ys = false) (h : pairUp xs = pairUp ys) : xs = ys := by
  induction xs using pairUp.induct generalizing ys with
  | case1 =>
    have hnil : ys = [] := pairUp_eq_nil.1 h.symm
    rw [hnil]
  | case2 a =>
    cases ys with
    | nil => simp [pairUp] at h
    | cons b ys =>
      cases ys with
      | nil =>
        simp only [pairUp, List.cons.injEq, Prod.mk.injEq] at h
        rw [h.1.1]
      | cons c ys =>
        -- The padded pair against two equal nodes at the end.
        simp only [pairUp, List.cons.injEq, Prod.mk.injEq] at h
        rcases h with ⟨⟨rfl, rfl⟩, htail⟩
        obtain rfl : ys = [] := pairUp_eq_nil.1 htail.symm
        simp [endsTwice] at hy
  | case3 a b rest ih =>
    cases ys with
    | nil => simp [pairUp] at h
    | cons c ys =>
      cases ys with
      | nil =>
        simp only [pairUp, List.cons.injEq, Prod.mk.injEq] at h
        rcases h with ⟨⟨rfl, rfl⟩, htail⟩
        obtain rfl : rest = [] := pairUp_eq_nil.1 htail
        simp [endsTwice] at hx
      | cons d ys =>
        simp only [pairUp, List.cons.injEq, Prod.mk.injEq] at h
        rcases h with ⟨⟨rfl, rfl⟩, htail⟩
        have hrest : endsTwice rest = false := by
          cases rest with
          | nil => rfl
          | cons e rest => exact hx
        have hys : endsTwice ys = false := by
          cases ys with
          | nil => rfl
          | cons e ys => exact hy
        rw [ih hrest hys htail]

/-! ## All levels -/

/-- The levels above the leaves, up to the first one with at most one node: that level, whether a
level below it was padded by its own content, and the pairs that were combined. -/
def build [DecidableEq α] (node : α × α → α) : Nat → List α → List α × Bool × List (α × α)
  | 0, xs => (xs, false, [])
  | fuel + 1, xs =>
    if xs.length ≤ 1 then (xs, false, [])
    else
      let above := build node fuel (levelUp node xs)
      (above.1, endsTwice xs || above.2.1, pairUp xs ++ above.2.2)

/-- The top as an iterate of `levelUp`. -/
theorem build_spec [DecidableEq α] (node : α × α → α) {fuel : Nat} {xs : List α}
    (hfuel : xs.length ≤ fuel + 1) :
    ∃ d, (build node fuel xs).1 = (levelUp node)^[d] xs ∧
      ((levelUp node)^[d] xs).length ≤ 1 ∧
      ((build node fuel xs).2.1 = false → ∀ k < d, endsTwice ((levelUp node)^[k] xs) = false) ∧
      ∀ k < d, ∀ p ∈ pairUp ((levelUp node)^[k] xs), p ∈ (build node fuel xs).2.2 := by
  induction fuel generalizing xs with
  | zero => exact ⟨0, rfl, by simpa using hfuel, by simp, by simp⟩
  | succ fuel ih =>
    rw [build]
    split_ifs with hsmall
    · exact ⟨0, rfl, hsmall, by simp, by simp⟩
    · have hlen : (levelUp node xs).length ≤ fuel + 1 := by
        rw [length_levelUp]
        omega
      rcases ih hlen with ⟨d, htop, hone, hends, hpairs⟩
      refine ⟨d + 1, htop, hone, ?_, ?_⟩
      · intro hclean k hk
        simp only [Bool.or_eq_false_iff] at hclean
        cases k with
        | zero => exact hclean.1
        | succ k => exact hends hclean.2 k (Nat.lt_of_succ_lt_succ hk)
      · intro k hk p hp
        cases k with
        | zero => exact List.mem_append_left _ hp
        | succ k => exact List.mem_append_right _ (hpairs k (Nat.lt_of_succ_lt_succ hk) p hp)

/-! ## Injectivity -/

/-- Distinct pairs of `S` give distinct nodes. -/
def InjOn (node : α × α → α) (S : List (α × α)) : Prop :=
  ∀ p ∈ S, ∀ q ∈ S, node p = node q → p = q

theorem map_inj_on {node : α × α → α} {S ps qs : List (α × α)} (hS : InjOn node S)
    (hps : ∀ p ∈ ps, p ∈ S) (hqs : ∀ q ∈ qs, q ∈ S) (h : ps.map node = qs.map node) : ps = qs := by
  induction ps generalizing qs with
  | nil =>
    have hnil : qs = [] := by simpa using h.symm
    rw [hnil]
  | cons p ps ih =>
    cases qs with
    | nil => simp at h
    | cons q qs =>
      simp only [List.map_cons, List.cons.injEq] at h
      have hhead : p = q := hS p (hps p List.mem_cons_self) q (hqs q List.mem_cons_self) h.1
      have htail : ps = qs := ih (fun r hr => hps r (List.mem_cons_of_mem _ hr))
        (fun r hr => hqs r (List.mem_cons_of_mem _ hr)) h.2
      rw [hhead, htail]

/-- Equal levels have equal levels below them. -/
theorem iterate_inj [DecidableEq α] {node : α × α → α} {S : List (α × α)} (hS : InjOn node S)
    {d : Nat} {xs ys : List α}
    (hxs : ∀ k < d, endsTwice ((levelUp node)^[k] xs) = false ∧
      ∀ p ∈ pairUp ((levelUp node)^[k] xs), p ∈ S)
    (hys : ∀ k < d, endsTwice ((levelUp node)^[k] ys) = false ∧
      ∀ p ∈ pairUp ((levelUp node)^[k] ys), p ∈ S)
    (h : (levelUp node)^[d] xs = (levelUp node)^[d] ys) : xs = ys := by
  induction d generalizing xs ys with
  | zero => exact h
  | succ d ih =>
    have hup : levelUp node xs = levelUp node ys :=
      ih (fun k hk => hxs (k + 1) (Nat.succ_lt_succ hk))
        (fun k hk => hys (k + 1) (Nat.succ_lt_succ hk)) h
    rcases hxs 0 (Nat.succ_pos d) with ⟨hx, hpx⟩
    rcases hys 0 (Nat.succ_pos d) with ⟨hy, hpy⟩
    exact pairUp_inj hx hy (map_inj_on hS hpx hpy hup)

/-- A tree cannot stand in for the leaves of another one. -/
theorem iterate_inj_of_le [DecidableEq α] {node : α × α → α} {S : List (α × α)}
    (hS : InjOn node S) {d e : Nat} (hde : d ≤ e) {xs ys : List α} (hne : xs ≠ [])
    (hleaf : ∀ x ∈ xs, ∀ p ∈ S, x ≠ node p)
    (hxs : ∀ k < d, endsTwice ((levelUp node)^[k] xs) = false ∧
      ∀ p ∈ pairUp ((levelUp node)^[k] xs), p ∈ S)
    (hys : ∀ k < e, endsTwice ((levelUp node)^[k] ys) = false ∧
      ∀ p ∈ pairUp ((levelUp node)^[k] ys), p ∈ S)
    (h : (levelUp node)^[d] xs = (levelUp node)^[e] ys) : xs = ys := by
  rcases Nat.exists_eq_add_of_le hde with ⟨g, rfl⟩
  have hsplit : ∀ k, (levelUp node)^[k] ((levelUp node)^[g] ys) = (levelUp node)^[k + g] ys :=
    fun k => (Function.iterate_add_apply _ k g ys).symm
  have hbelow : xs = (levelUp node)^[g] ys := by
    refine iterate_inj hS hxs ?_ ?_
    · intro k hk
      rw [hsplit]
      exact hys (k + g) (Nat.add_lt_add_right hk g)
    · rw [hsplit]
      exact h
  cases g with
  | zero => exact hbelow
  | succ g =>
    -- Otherwise a leaf of `xs` would be a node of `ys`.
    rw [Function.iterate_succ_apply'] at hbelow
    rcases List.exists_mem_of_ne_nil xs hne with ⟨x, hx⟩
    have hx' := hx
    rw [hbelow] at hx'
    rcases List.mem_map.1 hx' with ⟨p, hp, hpx⟩
    exact absurd hpx.symm (hleaf x hx p ((hys g (by omega)).2 p hp))

/-- **Injectivity.**  Lists of leaves with one top are equal, if neither tree was padded by its own
content, the pairs of both are combined injectively and no leaf is a combined pair. -/
theorem build_inj [DecidableEq α] {node : α × α → α} {f g : Nat} {xs ys : List α}
    (hf : xs.length ≤ f + 1) (hg : ys.length ≤ g + 1) (hx : xs ≠ []) (hy : ys ≠ [])
    (hclean : (build node f xs).2.1 = false) (hclean' : (build node g ys).2.1 = false)
    (hS : InjOn node ((build node f xs).2.2 ++ (build node g ys).2.2))
    (hleaf : ∀ x ∈ xs ++ ys, ∀ p ∈ (build node f xs).2.2 ++ (build node g ys).2.2, x ≠ node p)
    (h : (build node f xs).1 = (build node g ys).1) : xs = ys := by
  rcases build_spec node hf with ⟨d, htop, -, hends, hpairs⟩
  rcases build_spec node hg with ⟨e, htop', -, hends', hpairs'⟩
  have hxs : ∀ k < d, endsTwice ((levelUp node)^[k] xs) = false ∧
      ∀ p ∈ pairUp ((levelUp node)^[k] xs), p ∈ (build node f xs).2.2 ++ (build node g ys).2.2 :=
    fun k hk => ⟨hends hclean k hk, fun p hp => List.mem_append_left _ (hpairs k hk p hp)⟩
  have hys : ∀ k < e, endsTwice ((levelUp node)^[k] ys) = false ∧
      ∀ p ∈ pairUp ((levelUp node)^[k] ys), p ∈ (build node f xs).2.2 ++ (build node g ys).2.2 :=
    fun k hk => ⟨hends' hclean' k hk, fun p hp => List.mem_append_right _ (hpairs' k hk p hp)⟩
  have heq : (levelUp node)^[d] xs = (levelUp node)^[e] ys := by
    rw [← htop, ← htop', h]
  rcases le_total d e with hle | hle
  · exact iterate_inj_of_le hS hle hx
      (fun x hxs' => hleaf x (List.mem_append_left _ hxs')) hxs hys heq
  · exact (iterate_inj_of_le hS hle hy
      (fun y hys' => hleaf y (List.mem_append_right _ hys')) hys hxs heq.symm).symm

/-- The top is one node when there are leaves. -/
theorem build_top [DecidableEq α] (node : α × α → α) {f : Nat} {xs : List α}
    (hf : xs.length ≤ f + 1) (hx : xs ≠ []) : ∃ r, (build node f xs).1 = [r] := by
  rcases build_spec node hf with ⟨d, htop, hone, -, -⟩
  have hpos : ∀ k, (levelUp node)^[k] xs ≠ [] := by
    intro k
    induction k with
    | zero => exact hx
    | succ k ih =>
      rw [Function.iterate_succ_apply']
      simpa [levelUp] using ih
  rw [htop]
  exact List.length_eq_one_iff.1 (le_antisymm hone (List.length_pos_iff.2 (hpos d)))

/-! ## Positions -/

/-- The pair at `t`: two neighbours, or the last node twice. -/
theorem getElem?_pairUp {xs : List α} {t : Nat} (h : 2 * t < xs.length) :
    ∃ a b, xs[2 * t]? = some a ∧ xs[min (2 * t + 1) (xs.length - 1)]? = some b ∧
      (pairUp xs)[t]? = some (a, b) := by
  induction xs using pairUp.induct generalizing t with
  | case1 => exact absurd h (Nat.not_lt_zero _)
  | case2 a =>
    have ht : t = 0 := by simpa using h
    subst ht
    exact ⟨a, a, rfl, rfl, rfl⟩
  | case3 a b rest ih =>
    cases t with
    | zero => exact ⟨a, b, rfl, by simp, rfl⟩
    | succ t =>
      have hrest : 2 * t < rest.length := by
        simp only [List.length_cons] at h
        omega
      rcases ih hrest with ⟨c, d, hc, hd, hpair⟩
      have hright : min (2 * (t + 1) + 1) ((a :: b :: rest).length - 1) =
          min (2 * t + 1) (rest.length - 1) + 2 := by
        simp only [List.length_cons]
        omega
      refine ⟨c, d, hc, ?_, hpair⟩
      rw [hright]
      exact hd

theorem endsTwice_iff [DecidableEq α] {xs : List α} :
    endsTwice xs = true ↔
      2 ≤ xs.length ∧ xs.length % 2 = 0 ∧ xs[xs.length - 2]? = xs[xs.length - 1]? := by
  induction xs using endsTwice.induct with
  | case1 => simp [endsTwice]
  | case2 a => simp [endsTwice]
  | case3 a b => simp [endsTwice]
  | case4 a b rest hne ih =>
    cases rest with
    | nil => exact absurd rfl hne
    | cons c rest =>
      have hstep : endsTwice (a :: b :: c :: rest) = endsTwice (c :: rest) := rfl
      rw [hstep, ih]
      cases rest with
      | nil => simp
      | cons d rest =>
        simp only [List.length_cons]
        have hmod : (rest.length + 1 + 1 + 1 + 1) % 2 = (rest.length + 1 + 1) % 2 := by omega
        rw [hmod]
        simp

/-! ## Branches -/

/-- The siblings on the way up from position `i`. -/
def branch (node : α × α → α) : Nat → List α → Nat → List α
  | 0, _, _ => []
  | fuel + 1, xs, i =>
    if xs.length ≤ 1 then []
    else xs[min (i ^^^ 1) (xs.length - 1)]?.toList ++ branch node fuel (levelUp node xs) (i / 2)

/-- The way up from `x` at position `i`. -/
def climb (node : α × α → α) : α → List α → Nat → α
  | x, [], _ => x
  | x, s :: siblings, i => climb node (node (if i % 2 = 1 then (s, x) else (x, s))) siblings (i / 2)

/-- A node and its sibling are the pair above them. -/
theorem getElem?_levelUp (node : α × α → α) {xs : List α} {i : Nat} {x : α} (hx : xs[i]? = some x) :
    ∃ s, xs[min (i ^^^ 1) (xs.length - 1)]? = some s ∧
      (levelUp node xs)[i / 2]? = some (node (if i % 2 = 1 then (s, x) else (x, s))) := by
  have hi : i < xs.length := (List.getElem?_eq_some_iff.1 hx).1
  have hpos : 2 * (i / 2) < xs.length := by omega
  rcases getElem?_pairUp hpos with ⟨a, b, ha, hb, hpair⟩
  have hup : (levelUp node xs)[i / 2]? = some (node (a, b)) := by
    rw [levelUp, List.getElem?_map, hpair]
    rfl
  rcases Nat.mod_two_eq_zero_or_one i with heven | hodd
  · have hxor : i ^^^ 1 = 2 * (i / 2) + 1 := by
      rw [Nat.xor_one_of_even (Nat.even_iff.2 heven)]
      omega
    have hxa : a = x := by
      have hat : 2 * (i / 2) = i := by omega
      rw [hat, hx] at ha
      exact (Option.some.inj ha).symm
    refine ⟨b, by rw [hxor]; exact hb, ?_⟩
    rw [hup, if_neg (by omega), hxa]
  · have hxor : i ^^^ 1 = 2 * (i / 2) := by
      rw [Nat.xor_one_of_odd (Nat.odd_iff.2 hodd)]
      omega
    have hxb : b = x := by
      have hat : min (2 * (i / 2) + 1) (xs.length - 1) = i := by omega
      rw [hat, hx] at hb
      exact (Option.some.inj hb).symm
    have hmin : min (2 * (i / 2)) (xs.length - 1) = 2 * (i / 2) := by omega
    refine ⟨a, by rw [hxor, hmin]; exact ha, ?_⟩
    rw [hup, if_pos hodd, hxb]

theorem eq_singleton_of_getElem? {xs : List α} {i : Nat} {x : α} (hx : xs[i]? = some x)
    (hone : xs.length ≤ 1) : xs = [x] := by
  have hmem := List.mem_of_getElem? hx
  match xs, hone with
  | [y], _ => rw [List.mem_singleton.1 hmem]

/-- **Branches lead to the top.** -/
theorem climb_branch [DecidableEq α] (node : α × α → α) {fuel : Nat} {xs : List α} {i : Nat} {x : α}
    (hx : xs[i]? = some x) (hfuel : xs.length ≤ fuel + 1) :
    (build node fuel xs).1 = [climb node x (branch node fuel xs i) i] := by
  induction fuel generalizing xs i x with
  | zero => exact eq_singleton_of_getElem? hx hfuel
  | succ fuel ih =>
    rw [build, branch]
    split_ifs with hsmall
    · exact eq_singleton_of_getElem? hx hsmall
    · rcases getElem?_levelUp node hx with ⟨s, hs, hup⟩
      have hlen : (levelUp node xs).length ≤ fuel + 1 := by
        rw [length_levelUp]
        omega
      rw [hs]
      exact ih hup hlen

/-- The levels above, one after the other. -/
def levelsAbove (node : α × α → α) : Nat → List α → List α
  | 0, _ => []
  | fuel + 1, xs =>
    if xs.length ≤ 1 then [] else levelUp node xs ++ levelsAbove node fuel (levelUp node xs)

/-- The top is the last node. -/
theorem build_fst_getLast? [DecidableEq α] (node : α × α → α) (fuel : Nat) (xs : List α)
    (hfuel : xs.length ≤ fuel + 1) :
    (build node fuel xs).1.getLast? = (xs ++ levelsAbove node fuel xs).getLast? := by
  induction fuel generalizing xs with
  | zero => rw [build, levelsAbove, List.append_nil]
  | succ fuel ih =>
    rw [build, levelsAbove]
    split_ifs with hsmall
    · rw [List.append_nil]
    · have hlen : (levelUp node xs).length ≤ fuel + 1 := by
        rw [length_levelUp]
        omega
      have hne : levelUp node xs ++ levelsAbove node fuel (levelUp node xs) ≠ [] := by
        intro hnil
        have hup := congrArg List.length (List.append_eq_nil_iff.1 hnil).1
        rw [length_levelUp, List.length_nil] at hup
        omega
      rw [List.getLast?_append_of_ne_nil _ hne]
      exact ih _ hlen

/-! ## Levels by their height -/

/-- The level at a height above the leaves. -/
def level (node : α × α → α) (xs : List α) (h : Nat) : List α :=
  (levelUp node)^[h] xs

theorem level_zero (node : α × α → α) (xs : List α) : level node xs 0 = xs := rfl

theorem level_succ (node : α × α → α) (xs : List α) (h : Nat) :
    level node xs (h + 1) = levelUp node (level node xs h) :=
  Function.iterate_succ_apply' _ h xs

theorem length_level (node : α × α → α) (xs : List α) (h : Nat) :
    (level node xs h).length = (xs.length + 2 ^ h - 1) / 2 ^ h := by
  induction h with
  | zero => simp [level]
  | succ h ih =>
    have hpos : 0 < 2 ^ h := Nat.two_pow_pos h
    have hsum : xs.length + 2 ^ h - 1 + 2 ^ h = xs.length + 2 ^ (h + 1) - 1 := by
      rw [pow_succ]
      omega
    calc
      (level node xs (h + 1)).length = ((level node xs h).length + 1) / 2 := by rw [level_succ, length_levelUp]
      _ = ((xs.length + 2 ^ h - 1) / 2 ^ h + 1) / 2 := by rw [ih]
      _ = (xs.length + 2 ^ h - 1 + 2 ^ h) / 2 ^ h / 2 := by rw [Nat.add_div_right _ hpos]
      _ = (xs.length + 2 ^ (h + 1) - 1) / 2 ^ (h + 1) := by rw [hsum, Nat.div_div_eq_div_mul, ← pow_succ]

/-- A level ends where the leaves end. -/
theorem length_level_le_iff (node : α × α → α) (xs : List α) (h k : Nat) :
    (level node xs h).length ≤ k ↔ xs.length ≤ k * 2 ^ h := by
  have hpos : 0 < 2 ^ h := Nat.two_pow_pos h
  rw [length_level, ← Nat.lt_succ_iff, Nat.div_lt_iff_lt_mul hpos, Nat.succ_mul]
  omega

/-- A node with its left and its right node, the left one again at the end of an odd level. -/
theorem getElem?_level_succ (node : α × α → α) {xs : List α} {h pos : Nat}
    (hpos : pos < (level node xs (h + 1)).length) :
    ∃ a b, (level node xs h)[pos * 2]? = some a ∧
      (if pos * 2 + 1 < (level node xs h).length then (level node xs h)[pos * 2 + 1]? else some a) = some b ∧
      (a, b) ∈ pairUp (level node xs h) ∧ (level node xs (h + 1))[pos]? = some (node (a, b)) := by
  have hlt : 2 * pos < (level node xs h).length := by
    rw [level_succ, length_levelUp] at hpos
    omega
  rcases getElem?_pairUp hlt with ⟨a, b, ha, hb, hpair⟩
  have hup : (level node xs (h + 1))[pos]? = some (node (a, b)) := by
    rw [level_succ, levelUp, List.getElem?_map, hpair]
    rfl
  rw [Nat.mul_comm pos 2]
  refine ⟨a, b, ha, ?_, List.mem_of_getElem? hpair, hup⟩
  by_cases hright : 2 * pos + 1 < (level node xs h).length
  · have hmin : min (2 * pos + 1) ((level node xs h).length - 1) = 2 * pos + 1 := by omega
    rw [if_pos hright, ← hmin, hb]
  · have hmin : min (2 * pos + 1) ((level node xs h).length - 1) = 2 * pos := by omega
    rw [hmin, ha] at hb
    rw [if_neg hright, hb]

/-- The top is the first level with one node at most. -/
theorem build_eq_level [DecidableEq α] (node : α × α → α) {fuel d : Nat} {xs : List α}
    (hfuel : xs.length ≤ fuel + 1) (htop : (level node xs d).length ≤ 1)
    (hbelow : ∀ k < d, 1 < (level node xs k).length) :
    (build node fuel xs).1 = level node xs d ∧
      ∀ k < d, ∀ p ∈ pairUp (level node xs k), p ∈ (build node fuel xs).2.2 := by
  induction d generalizing fuel xs with
  | zero =>
    have hsmall : xs.length ≤ 1 := htop
    refine ⟨?_, fun k hk => absurd hk (Nat.not_lt_zero k)⟩
    cases fuel with
    | zero => rfl
    | succ fuel => rw [build, if_pos hsmall, level_zero]
  | succ d ih =>
    have hlarge : ¬ xs.length ≤ 1 := Nat.not_le.2 (hbelow 0 (Nat.succ_pos d))
    cases fuel with
    | zero => exact absurd hfuel hlarge
    | succ fuel =>
      have hlen : (levelUp node xs).length ≤ fuel + 1 := by
        rw [length_levelUp]
        omega
      rcases ih hlen htop fun k hk => hbelow (k + 1) (Nat.succ_lt_succ hk) with ⟨hroot, hpairs⟩
      rw [build, if_neg hlarge]
      refine ⟨hroot, fun k hk p hp => ?_⟩
      cases k with
      | zero => exact List.mem_append_left _ hp
      | succ k => exact List.mem_append_right _ (hpairs k (Nat.lt_of_succ_lt_succ hk) p hp)

/-! ## Leaves below a node -/

/-- What stands in a list of leaves below the node at `pos` of a level. -/
def below {β : Type} (xs : List β) (h pos : Nat) : List β :=
  (xs.drop (pos * 2 ^ h)).take (2 ^ h)

section

variable {β γ : Type} {xs : List β} {h pos : Nat}

theorem below_zero (xs : List β) (pos : Nat) : below xs 0 pos = xs[pos]?.toList := by
  rw [below, pow_zero, mul_one]
  induction xs generalizing pos with
  | nil => simp
  | cons x xs ih =>
    cases pos with
    | zero => rfl
    | succ pos => exact ih pos

theorem below_succ (xs : List β) (h pos : Nat) :
    below xs (h + 1) pos = below xs h (pos * 2) ++ below xs h (pos * 2 + 1) := by
  have hleft : pos * 2 ^ (h + 1) = pos * 2 * 2 ^ h := by rw [pow_succ, Nat.mul_comm (2 ^ h), Nat.mul_assoc]
  have hright : (pos * 2 + 1) * 2 ^ h = pos * 2 * 2 ^ h + 2 ^ h := Nat.succ_mul _ _
  rw [below, below, below, hleft, hright, pow_succ, Nat.mul_two, List.take_add, List.drop_drop]

theorem below_eq_nil (hend : xs.length ≤ pos * 2 ^ h) : below xs h pos = [] := by
  rw [below, List.drop_eq_nil_of_le hend, List.take_nil]

/-- All leaves are below the top. -/
theorem below_top (htop : xs.length ≤ 2 ^ h) : below xs h 0 = xs := by
  rw [below, Nat.zero_mul, List.drop_zero, List.take_of_length_le htop]

theorem below_map (f : β → γ) (xs : List β) (h pos : Nat) : below (xs.map f) h pos = (below xs h pos).map f := by
  rw [below, below, ← List.map_drop, List.map_take]

theorem length_below_pos (hpos : pos * 2 ^ h < xs.length) : 0 < (below xs h pos).length := by
  have hpow := Nat.two_pow_pos h
  rw [below, List.length_take, List.length_drop]
  omega

end

end MerkleTree
