import Mathlib.Data.Nat.Bitwise
import Mathlib.Data.Nat.Digits.Lemmas
import Mathlib.Data.Nat.Size

/-!
# Limbs — numbers as lists of digits

Digits of a base `B`, the lowest one first, as `Nat.ofDigits` reads them: carries, complements, comparison from the top,
bits, and division by shifting and subtracting.
-/

namespace Limbs

open Nat (ofDigits)

variable {B : Nat}

/-! ## Carries -/

/-- Digits that may be too large, with a carry from the lowest one on. -/
def carryLoop (B : Nat) : Nat → List Nat → List Nat
  | _, [] => []
  | carry, n :: ns => (carry + n) % B :: carryLoop B ((carry + n) / B) ns

@[simp]
theorem length_carryLoop (carry : Nat) (ns : List Nat) : (carryLoop B carry ns).length = ns.length := by
  induction ns generalizing carry with
  | nil => rfl
  | cons n ns ih => rw [carryLoop, List.length_cons, ih, List.length_cons]

theorem lt_of_mem_carryLoop (hB : 0 < B) {carry : Nat} {ns : List Nat} :
    ∀ p ∈ carryLoop B carry ns, p < B := by
  induction ns generalizing carry with
  | nil => exact fun _ h => absurd h List.not_mem_nil
  | cons n ns ih =>
    intro p hp
    rcases List.mem_cons.1 hp with rfl | hp
    · exact Nat.mod_lt _ hB
    · exact ih p hp

/-- What does not fit into the digits is dropped, and nothing else. -/
theorem ofDigits_carryLoop (carry : Nat) (ns : List Nat) :
    ofDigits B (carryLoop B carry ns) = (carry + ofDigits B ns) % B ^ ns.length := by
  induction ns generalizing carry with
  | nil => simp [carryLoop, Nat.mod_one]
  | cons n ns ih =>
    have hsplit : carry + (n + B * ofDigits B ns) = carry + n + B * ofDigits B ns := by ring
    rw [carryLoop, Nat.ofDigits_cons, ih, Nat.ofDigits_cons, List.length_cons, pow_succ', Nat.mod_mul]
    rcases Nat.eq_zero_or_pos B with rfl | hB
    · simp
    · rw [hsplit, Nat.add_mul_mod_self_left, Nat.add_mul_div_left _ _ hB]

/-- The sum of two lists of digits, one by one. -/
theorem ofDigits_zipWith_add {ps qs : List Nat} (hlen : ps.length = qs.length) :
    ofDigits B (List.zipWith (· + ·) ps qs) = ofDigits B ps + ofDigits B qs := by
  induction ps generalizing qs with
  | nil =>
    cases qs with
    | nil => rfl
    | cons q qs => cases hlen
  | cons p ps ih =>
    cases qs with
    | nil => cases hlen
    | cons q qs =>
      rw [List.zipWith_cons_cons, Nat.ofDigits_cons, Nat.ofDigits_cons, Nat.ofDigits_cons, ih (Nat.succ.inj hlen)]
      ring

theorem ofDigits_map_mul (n : Nat) (ps : List Nat) :
    ofDigits B (ps.map (n * ·)) = n * ofDigits B ps := by
  induction ps with
  | nil => rfl
  | cons p ps ih =>
    rw [List.map_cons, Nat.ofDigits_cons, Nat.ofDigits_cons, ih]
    ring

/-! ## One digit -/

/-- What a number becomes when one of its digits is replaced. -/
theorem ofDigits_set {ps : List Nat} {k : Nat} (hk : k < ps.length) (n : Nat) :
    ofDigits B (ps.set k n) + B ^ k * ps.getD k 0 = ofDigits B ps + B ^ k * n := by
  induction ps generalizing k with
  | nil => cases hk
  | cons p ps ih =>
    cases k with
    | zero =>
      rw [List.set_cons_zero, List.getD_cons_zero, Nat.ofDigits_cons, Nat.ofDigits_cons]
      ring
    | succ k =>
      have htail := ih (Nat.lt_of_succ_lt_succ hk)
      rw [List.set_cons_succ, List.getD_cons_succ, Nat.ofDigits_cons, Nat.ofDigits_cons, pow_succ']
      calc p + B * ofDigits B (ps.set k n) + B * B ^ k * ps.getD k 0
          = p + B * (ofDigits B (ps.set k n) + B ^ k * ps.getD k 0) := by ring
        _ = p + B * ofDigits B ps + B * B ^ k * n := by
            rw [htail]
            ring

theorem ofDigits_take_succ {ps : List Nat} {k : Nat} (hk : k < ps.length) :
    ofDigits B (ps.take (k + 1)) = ofDigits B (ps.take k) + B ^ k * ps.getD k 0 := by
  induction ps generalizing k with
  | nil => cases hk
  | cons p ps ih =>
    cases k with
    | zero =>
      rw [List.take_succ_cons, List.take_zero, List.take_zero, List.getD_cons_zero, Nat.ofDigits_cons]
      simp
    | succ k =>
      rw [List.take_succ_cons, List.take_succ_cons, List.getD_cons_succ, Nat.ofDigits_cons, Nat.ofDigits_cons,
        ih (Nat.lt_of_succ_lt_succ hk), pow_succ']
      ring

/-! ## One more, and the complement -/

/-- One is added; the loop stops at the first digit that does not become zero. -/
def increment (B : Nat) : List Nat → List Nat
  | [] => []
  | p :: ps => if (p + 1) % B = 0 then (p + 1) % B :: increment B ps else (p + 1) % B :: ps

@[simp]
theorem length_increment (ps : List Nat) : (increment B ps).length = ps.length := by
  induction ps with
  | nil => rfl
  | cons p ps ih =>
    rw [increment]
    split_ifs
    · rw [List.length_cons, ih, List.length_cons]
    · rfl

/-- Stopping early makes no difference: it is a carry of one. -/
theorem increment_eq_carryLoop (hB : 1 < B) {ps : List Nat} (hps : ∀ p ∈ ps, p < B) :
    increment B ps = carryLoop B 1 ps := by
  have hzero : ∀ {ps : List Nat}, (∀ p ∈ ps, p < B) → carryLoop B 0 ps = ps := by
    intro ps hps
    induction ps with
    | nil => rfl
    | cons p ps ih =>
      rw [List.forall_mem_cons] at hps
      rw [carryLoop, Nat.zero_add, Nat.mod_eq_of_lt hps.1, Nat.div_eq_of_lt hps.1, ih hps.2]
  induction ps with
  | nil => rfl
  | cons p ps ih =>
    rw [List.forall_mem_cons] at hps
    rw [increment, carryLoop, Nat.add_comm 1 p]
    by_cases hlast : p + 1 = B
    · rw [hlast, Nat.mod_self, Nat.div_self (Nat.lt_trans Nat.one_pos hB), if_pos rfl, ih hps.2]
    · have hlt : p + 1 < B := lt_of_le_of_ne hps.1 hlast
      rw [Nat.mod_eq_of_lt hlt, Nat.div_eq_of_lt hlt, if_neg (Nat.succ_ne_zero p), hzero hps.2]

def complement (B : Nat) (ps : List Nat) : List Nat :=
  ps.map (B - 1 - ·)

theorem ofDigits_complement {ps : List Nat} (hps : ∀ p ∈ ps, p < B) :
    ofDigits B (complement B ps) + ofDigits B ps + 1 = B ^ ps.length := by
  induction ps with
  | nil => rfl
  | cons p ps ih =>
    rw [List.forall_mem_cons] at hps
    have hp : B - 1 - p + p + 1 = B := by omega
    have htail := ih hps.2
    rw [complement] at htail ⊢
    rw [List.map_cons, Nat.ofDigits_cons, Nat.ofDigits_cons, List.length_cons, pow_succ', ← htail]
    calc B - 1 - p + B * ofDigits B (ps.map (B - 1 - ·)) + (p + B * ofDigits B ps) + 1
        = (B - 1 - p + p + 1) + B * (ofDigits B (ps.map (B - 1 - ·)) + ofDigits B ps) := by ring
      _ = B * (ofDigits B (ps.map (B - 1 - ·)) + ofDigits B ps + 1) := by rw [hp]; ring

/-! ## Comparison -/

/-- The digits are compared from the highest one on. -/
def compareDigits : List Nat → List Nat → Ordering
  | p :: ps, q :: qs => (compareDigits ps qs).then (compare p q)
  | _, _ => .eq

theorem compareDigits_eq {ps qs : List Nat} (hlen : ps.length = qs.length) (hps : ∀ p ∈ ps, p < B)
    (hqs : ∀ q ∈ qs, q < B) : compareDigits ps qs = compare (ofDigits B ps) (ofDigits B qs) := by
  induction ps generalizing qs with
  | nil =>
    cases qs with
    | nil => rfl
    | cons q qs => cases hlen
  | cons p ps ih =>
    cases qs with
    | nil => cases hlen
    | cons q qs =>
      rw [List.forall_mem_cons] at hps hqs
      rw [compareDigits, ih (Nat.succ.inj hlen) hps.2 hqs.2, Nat.ofDigits_cons, Nat.ofDigits_cons]
      rcases Nat.lt_trichotomy (ofDigits B ps) (ofDigits B qs) with hlt | heq | hgt
      · have hstep : B * ofDigits B ps + B ≤ B * ofDigits B qs := by
          rw [← Nat.mul_succ]
          exact Nat.mul_le_mul_left _ hlt
        have hwhole : p + B * ofDigits B ps < q + B * ofDigits B qs := by omega
        rw [Nat.compare_eq_lt.2 hlt, Nat.compare_eq_lt.2 hwhole, Ordering.lt_then]
      · rw [heq, Nat.compare_eq_eq.2 rfl, Ordering.eq_then]
        rcases Nat.lt_trichotomy p q with hp | hp | hp
        · rw [Nat.compare_eq_lt.2 hp, Nat.compare_eq_lt.2 (by omega)]
        · rw [hp]
          exact (Nat.compare_eq_eq.2 rfl).trans (Nat.compare_eq_eq.2 rfl).symm
        · rw [Nat.compare_eq_gt.2 hp, Nat.compare_eq_gt.2 (by omega)]
      · have hstep : B * ofDigits B qs + B ≤ B * ofDigits B ps := by
          rw [← Nat.mul_succ]
          exact Nat.mul_le_mul_left _ hgt
        have hwhole : q + B * ofDigits B qs < p + B * ofDigits B ps := by omega
        rw [Nat.compare_eq_gt.2 hgt, Nat.compare_eq_gt.2 hwhole, Ordering.gt_then]

/-! ## Bits -/

/-- The bits of a number are those of its digits. -/
theorem testBit_ofDigits {w : Nat} (hw : 0 < w) {ps : List Nat} (hps : ∀ p ∈ ps, p < 2 ^ w) (n : Nat) :
    (ofDigits (2 ^ w) ps).testBit n = (ps.getD (n / w) 0).testBit (n % w) := by
  induction ps generalizing n with
  | nil => simp
  | cons p ps ih =>
    rw [List.forall_mem_cons] at hps
    rw [Nat.ofDigits_cons, Nat.add_comm, Nat.testBit_two_pow_mul_add _ hps.1]
    by_cases hlt : n < w
    · rw [if_pos hlt, Nat.div_eq_of_lt hlt, Nat.mod_eq_of_lt hlt]
      rfl
    · rw [not_lt] at hlt
      rw [if_neg (not_lt.2 hlt), ih hps.2]
      have hdiv : n / w = (n - w) / w + 1 := by
        rw [← Nat.add_div_right _ hw, Nat.sub_add_cancel hlt]
      have hmod : n % w = (n - w) % w := by
        conv_lhs => rw [← Nat.sub_add_cancel hlt, Nat.add_mod_right]
      rw [hdiv, hmod]
      rfl

/-- The length in bits, looked for from the highest digit on; `top` is the length of a digit. -/
def bitLength (w : Nat) (top : Nat → Nat) : List Nat → Nat
  | [] => 0
  | p :: ps => if bitLength w top ps = 0 then top p else w + bitLength w top ps

theorem bitLength_eq_size {w : Nat} {top : Nat → Nat} {ps : List Nat} (hps : ∀ p ∈ ps, p < 2 ^ w)
    (htop : ∀ p < 2 ^ w, top p = p.size) : bitLength w top ps = (ofDigits (2 ^ w) ps).size := by
  induction ps with
  | nil => rfl
  | cons p ps ih =>
    rw [List.forall_mem_cons] at hps
    rw [bitLength, ih hps.2, Nat.ofDigits_cons]
    generalize ofDigits (2 ^ w) ps = n
    by_cases hn : n = 0
    · rw [hn, if_pos Nat.size_zero, Nat.mul_zero, Nat.add_zero, htop p hps.1]
    · have hsize : n.size ≠ 0 := fun h => hn (Nat.size_eq_zero.1 h)
      rw [if_neg hsize]
      refine le_antisymm ?_ ?_
      · -- The bit below the length of the high digits is set.
        have hlow : 2 ^ (n.size - 1) ≤ n := by
          rw [← Nat.lt_size]
          omega
        have hle : 2 ^ (w + n.size - 1) ≤ p + 2 ^ w * n := by
          have hexp : w + n.size - 1 = w + (n.size - 1) := by omega
          rw [hexp, pow_add]
          exact (Nat.mul_le_mul_left _ hlow).trans (Nat.le_add_left _ _)
        have hlt := Nat.lt_size.2 hle
        omega
      · rw [Nat.size_le, pow_add]
        calc p + 2 ^ w * n < 2 ^ w + 2 ^ w * n := Nat.add_lt_add_right hps.1 _
          _ = 2 ^ w * (n + 1) := by ring
          _ ≤ 2 ^ w * 2 ^ n.size := Nat.mul_le_mul_left _ (Nat.lt_size_self n)

/-! ## Division -/

/-- Division by shifting and subtracting: `n` bits of the quotient are left to find. -/
def quotLoop (b : Nat) : Nat → Nat → Nat
  | 0, _ => 0
  | n + 1, num => if b * 2 ^ n ≤ num then 2 ^ n + quotLoop b n (num - b * 2 ^ n) else quotLoop b n num

theorem quotLoop_eq_div {b : Nat} (hb : 0 < b) (n : Nat) {num : Nat} (hlt : num < b * 2 ^ n) :
    quotLoop b n num = num / b := by
  induction n generalizing num with
  | zero =>
    rw [pow_zero, Nat.mul_one] at hlt
    rw [quotLoop, Nat.div_eq_of_lt hlt]
  | succ n ih =>
    rw [quotLoop]
    split_ifs with hle
    · have hrest : num - b * 2 ^ n < b * 2 ^ n := by
        rw [pow_succ, ← Nat.mul_assoc] at hlt
        omega
      rw [ih hrest]
      have hsplit : num = num - b * 2 ^ n + b * 2 ^ n := (Nat.sub_add_cancel hle).symm
      conv_rhs => rw [hsplit, Nat.add_mul_div_left _ _ hb, Nat.add_comm]
    · exact ih (not_le.1 hle)

end Limbs
