import Mathlib.Data.List.Basic

/-!
# Regions of a memory

A memory is a list of cells; an offset and a number of cells name a region of it.  What is written to a region is read back
from it, and the regions beside it keep what they held.
-/

namespace Regions

variable {α : Type}

/-- The `n` cells from `off` on. -/
def get (mem : List α) (off n : Nat) : List α :=
  (mem.drop off).take n

/-- The cells from `off` on are overwritten. -/
def put (mem : List α) (off : Nat) (xs : List α) : List α :=
  mem.take off ++ xs ++ mem.drop (off + xs.length)

variable {mem xs ys : List α} {off off' n : Nat}

theorem getElem?_get (mem : List α) (off n i : Nat) : (get mem off n)[i]? = if i < n then mem[off + i]? else none := by
  rw [get, List.getElem?_take, List.getElem?_drop]

theorem length_get (h : off + n ≤ mem.length) : (get mem off n).length = n := by
  rw [get, List.length_take, List.length_drop]
  omega

theorem length_put (h : off + xs.length ≤ mem.length) : (put mem off xs).length = mem.length := by
  simp only [put, List.length_append, List.length_take, List.length_drop]
  omega

theorem getElem?_put (h : off + xs.length ≤ mem.length) (i : Nat) :
    (put mem off xs)[i]? = if off ≤ i ∧ i < off + xs.length then xs[i - off]? else mem[i]? := by
  have htake : (mem.take off).length = off := by
    rw [List.length_take]
    omega
  rcases Nat.lt_or_ge i off with hbefore | hfrom
  · rw [if_neg (fun hin => absurd hin.1 (Nat.not_le.2 hbefore)), put, List.append_assoc,
      List.getElem?_append_left (by omega), List.getElem?_take_of_lt hbefore]
  · rcases Nat.lt_or_ge i (off + xs.length) with hin | hbehind
    · rw [if_pos ⟨hfrom, hin⟩, put, List.append_assoc, List.getElem?_append_right (by omega), htake,
        List.getElem?_append_left (by omega)]
    · rw [if_neg (fun hin => absurd hin.2 (Nat.not_lt.2 hbehind)), put,
        List.getElem?_append_right (by rw [List.length_append]; omega), List.length_append, htake, List.getElem?_drop]
      congr 1
      omega

/-! ## Reading back -/

theorem get_put (h : off + xs.length ≤ mem.length) : get (put mem off xs) off xs.length = xs := by
  apply List.ext_getElem?
  intro i
  rw [getElem?_get]
  split
  · next hi => rw [getElem?_put h, if_pos ⟨Nat.le_add_right _ _, by omega⟩, Nat.add_sub_cancel_left]
  · next hi => rw [List.getElem?_eq_none (Nat.not_lt.1 hi)]

/-- A region beside the one that is written. -/
theorem get_put_of_disjoint (h : off + xs.length ≤ mem.length) (hbeside : off' + n ≤ off ∨ off + xs.length ≤ off') :
    get (put mem off xs) off' n = get mem off' n := by
  apply List.ext_getElem?
  intro i
  rw [getElem?_get, getElem?_get]
  split
  · next hi =>
    rw [getElem?_put h, if_neg]
    rintro ⟨hfrom, hto⟩
    omega
  · rfl

/-- Two pieces that follow each other are one. -/
theorem put_put (h : off + xs.length ≤ mem.length) : put (put mem off xs) (off + xs.length) ys = put mem off (xs ++ ys) := by
  have hfront : (put mem off xs).take (off + xs.length) = mem.take off ++ xs := by
    rw [put]
    apply List.take_left'
    rw [List.length_append, List.length_take]
    omega
  have hback : (put mem off xs).drop (off + xs.length + ys.length) = mem.drop (off + (xs ++ ys).length) := by
    rw [put, ← List.drop_drop, List.drop_left' (by rw [List.length_append, List.length_take]; omega), List.drop_drop,
      List.length_append, Nat.add_assoc]
  rw [put, hfront, hback, put]
  simp only [List.append_assoc]

theorem put_nil (mem : List α) (off : Nat) : put mem off [] = mem := by
  rw [put, List.append_nil, List.length_nil, Nat.add_zero, List.take_append_drop]

theorem put_whole (h : xs.length = mem.length) : put mem 0 xs = xs := by
  rw [put, List.take_zero, List.nil_append, Nat.zero_add, h, List.drop_length, List.append_nil]

/-- A region of a region. -/
theorem get_get {m : Nat} (h : off' + m ≤ n) : get (get mem off n) off' m = get mem (off + off') m := by
  apply List.ext_getElem?
  intro i
  rw [getElem?_get, getElem?_get, getElem?_get]
  split
  · rw [if_pos (by omega), Nat.add_assoc]
  · rfl

/-! ## Cells that stand for several cells each -/

section FlatMap

variable {β : Type} {f : β → List α} {c : Nat}

theorem drop_flatMap (hf : ∀ b, (f b).length = c) (bs : List β) (k : Nat) :
    (bs.flatMap f).drop (c * k) = (bs.drop k).flatMap f := by
  induction k generalizing bs with
  | zero => rfl
  | succ k ih =>
    cases bs with
    | nil => exact List.drop_nil
    | cons b bs =>
      rw [List.flatMap_cons, Nat.mul_succ, Nat.add_comm, ← List.drop_drop, List.drop_left' (hf b), ih, List.drop_succ_cons]

theorem take_flatMap (hf : ∀ b, (f b).length = c) (bs : List β) (k : Nat) :
    (bs.flatMap f).take (c * k) = (bs.take k).flatMap f := by
  induction k generalizing bs with
  | zero => rfl
  | succ k ih =>
    cases bs with
    | nil => exact List.take_nil
    | cons b bs =>
      have hcount : c * (k + 1) - (f b).length = c * k := by
        rw [hf, Nat.mul_succ, Nat.add_sub_cancel]
      rw [List.flatMap_cons, List.take_append, hcount, ih, List.take_of_length_le, List.take_succ_cons, List.flatMap_cons]
      rw [hf, Nat.mul_succ]
      exact Nat.le_add_left _ _

theorem get_flatMap (hf : ∀ b, (f b).length = c) (bs : List β) (k m : Nat) :
    get (bs.flatMap f) (c * k) (c * m) = (get bs k m).flatMap f := by
  rw [get, drop_flatMap hf, take_flatMap hf, get]

end FlatMap

/-! ## Lanes -/

/-- One piece of `w` cells for each of the first `n` lanes, at `w` times the number of the lane. -/
def lanes (w : Nat) (piece : Nat → List α) (mem : List α) : Nat → List α
  | 0 => mem
  | n + 1 => put (lanes w piece mem n) (w * n) (piece n)

variable {w : Nat} {piece : Nat → List α}

theorem length_lanes (hpiece : ∀ l, (piece l).length = w) (h : w * n ≤ mem.length) :
    (lanes w piece mem n).length = mem.length := by
  induction n with
  | zero => rfl
  | succ n ih =>
    rw [Nat.mul_succ] at h
    have hbefore : (lanes w piece mem n).length = mem.length := ih (by omega)
    rw [lanes, length_put (by rw [hpiece, hbefore]; exact h), hbefore]

/-- Every lane holds its piece. -/
theorem get_lanes (hpiece : ∀ l, (piece l).length = w) (h : w * n ≤ mem.length) {l : Nat} (hl : l < n) :
    get (lanes w piece mem n) (w * l) w = piece l := by
  induction n with
  | zero => exact absurd hl (Nat.not_lt_zero _)
  | succ n ih =>
    rw [Nat.mul_succ] at h
    have hbefore : (lanes w piece mem n).length = mem.length := length_lanes hpiece (by omega)
    have hfits : w * n + (piece n).length ≤ (lanes w piece mem n).length := by
      rw [hpiece, hbefore]
      exact h
    rw [lanes]
    rcases Nat.lt_or_eq_of_le (Nat.lt_succ_iff.1 hl) with hearlier | hlast
    · have hbeside : w * l + w ≤ w * n := by
        rw [← Nat.mul_succ]
        exact Nat.mul_le_mul_left _ hearlier
      rw [get_put_of_disjoint hfits (Or.inl hbeside)]
      exact ih (by omega) hearlier
    · rw [hlast]
      have hback : get (put (lanes w piece mem n) (w * n) (piece n)) (w * n) (piece n).length = piece n := get_put hfits
      rwa [hpiece] at hback

/-- A loop over the lanes that puts each piece in its place. -/
theorem foldl_eq_lanes {step : List α → Nat → List α}
    (hstep : ∀ l < n, ∀ mem' : List α, mem'.length = mem.length → step mem' l = put mem' (w * l) (piece l))
    (hpiece : ∀ l, (piece l).length = w) (h : w * n ≤ mem.length) :
    (List.range n).foldl step mem = lanes w piece mem n := by
  induction n with
  | zero => rfl
  | succ n ih =>
    have hbefore : w * n ≤ mem.length := Nat.le_trans (Nat.mul_le_mul_left _ (Nat.le_succ _)) h
    rw [List.range_succ, List.foldl_append, ih (fun l hl => hstep l (Nat.lt_succ_of_lt hl)) hbefore, List.foldl_cons,
      List.foldl_nil, hstep n (Nat.lt_succ_self n) _ (length_lanes hpiece hbefore), lanes]

/-- When the pieces fill the memory, nothing else is left of it. -/
theorem lanes_whole (hpiece : ∀ l, (piece l).length = w) (h : w * n = mem.length) :
    lanes w piece mem n = (List.range n).flatMap piece := by
  have hall : ∀ k ≤ n, lanes w piece mem k = (List.range k).flatMap piece ++ mem.drop (w * k) := by
    intro k hk
    induction k with
    | zero => rfl
    | succ k ih =>
      have hlength : ((List.range k).flatMap piece).length = w * k := by
        rw [List.length_flatMap, List.map_congr_left fun l _ => hpiece l, List.map_const', List.sum_replicate_nat,
          List.length_range, Nat.mul_comm]
      rw [lanes, ih (by omega), put, List.take_left' hlength, hpiece, ← List.drop_drop, List.drop_left' hlength,
        List.drop_drop, List.range_succ, List.flatMap_append, List.flatMap_singleton, Nat.mul_succ]
  rw [hall n (Nat.le_refl n), h, List.drop_length, List.append_nil]

end Regions
