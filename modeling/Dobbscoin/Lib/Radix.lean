import Dobbscoin.Lib.ByteCodec
import Dobbscoin.Lib.Limbs
import Mathlib.Data.List.DropRight

/-!
# Decimal — numbers as decimal text

The value of a string of digits, and the digits of a number, with zeros at the front or without.
-/

namespace Decimal

/-! ## Digits -/

def isDigit (ch : UInt8) : Bool :=
  0x30 ≤ ch && ch ≤ 0x39

/-- The value of a digit. -/
def digit (ch : UInt8) : Nat :=
  ch.toNat - 48

def value (ds : Bytes) : Nat :=
  ds.foldl (fun n ch => n * 10 + digit ch) 0

theorem isDigit_iff {ch : UInt8} : isDigit ch = true ↔ 48 ≤ ch.toNat ∧ ch.toNat ≤ 57 := by
  rw [isDigit, Bool.and_eq_true, decide_eq_true_eq, decide_eq_true_eq, UInt8.le_iff_toNat_le, UInt8.le_iff_toNat_le]
  exact Iff.rfl

theorem digit_lt {ch : UInt8} (h : isDigit ch = true) : digit ch < 10 := by
  have hrange := isDigit_iff.1 h
  rw [digit]
  omega

theorem foldl_value (ds : Bytes) (u : Nat) :
    ds.foldl (fun n ch => n * 10 + digit ch) u = u * 10 ^ ds.length + value ds := by
  induction ds generalizing u with
  | nil => simp [value]
  | cons ch ds ih =>
    rw [value, List.foldl_cons, List.foldl_cons, ih, ih (0 * 10 + digit ch), List.length_cons]
    ring

theorem value_cons (ch : UInt8) (ds : Bytes) : value (ch :: ds) = digit ch * 10 ^ ds.length + value ds := by
  rw [value, List.foldl_cons, foldl_value, Nat.zero_mul, Nat.zero_add]

theorem value_append (ds es : Bytes) : value (ds ++ es) = value ds * 10 ^ es.length + value es := by
  rw [value, List.foldl_append, foldl_value]
  rfl

theorem value_lt {ds : Bytes} (h : ∀ ch ∈ ds, isDigit ch = true) : value ds < 10 ^ ds.length := by
  induction ds with
  | nil => exact Nat.one_pos
  | cons ch ds ih =>
    have hch := digit_lt (h ch List.mem_cons_self)
    have hds := ih fun c hc => h c (List.mem_cons_of_mem ch hc)
    rw [value_cons, List.length_cons, pow_succ']
    calc digit ch * 10 ^ ds.length + value ds
        < digit ch * 10 ^ ds.length + 10 ^ ds.length := Nat.add_lt_add_left hds _
      _ = (digit ch + 1) * 10 ^ ds.length := by ring
      _ ≤ 10 * 10 ^ ds.length := Nat.mul_le_mul_right _ hch

theorem value_zeros (n : Nat) : value (List.replicate n 0x30) = 0 := by
  induction n with
  | zero => rfl
  | succ n ih =>
    have hzero : digit 0x30 = 0 := rfl
    rw [List.replicate_succ, value_cons, ih, hzero, Nat.zero_mul]

/-! ## Printing -/

def print (n : Nat) : Bytes :=
  if n = 0 then [0x30] else (Nat.digits 10 n).reverse.map fun d => UInt8.ofNat (48 + d)

/-- At least `w` characters, with zeros at the front. -/
def pad (w n : Nat) : Bytes :=
  List.replicate (w - (print n).length) 0x30 ++ print n

theorem toNat_ofNat_digit {d : Nat} (hd : d < 10) : (UInt8.ofNat (48 + d)).toNat = 48 + d := by
  rw [UInt8.toNat_ofNat']
  exact Nat.mod_eq_of_lt (by omega)

theorem isDigit_of_mem_print {n : Nat} : ∀ ch ∈ print n, isDigit ch = true := by
  intro ch hch
  unfold print at hch
  split_ifs at hch with hzero
  · rw [List.mem_singleton.1 hch]
    rfl
  · rcases List.mem_map.1 hch with ⟨d, hd, rfl⟩
    have hlt : d < 10 := Nat.digits_lt_base (by norm_num) (List.mem_reverse.1 hd)
    rw [isDigit_iff, toNat_ofNat_digit hlt]
    omega

theorem print_ne_nil {n : Nat} : print n ≠ [] := by
  unfold print
  by_cases hzero : n = 0
  · rw [if_pos hzero]
    exact List.cons_ne_nil _ _
  · rw [if_neg hzero, Ne, List.map_eq_nil_iff, List.reverse_eq_nil_iff]
    exact Nat.digits_ne_nil_iff_ne_zero.2 hzero

theorem value_reverse_digits {ds : List Nat} (hds : ∀ d ∈ ds, d < 10) :
    value (ds.reverse.map fun d => UInt8.ofNat (48 + d)) = Nat.ofDigits 10 ds := by
  induction ds with
  | nil => rfl
  | cons d ds ih =>
    have hd : digit (UInt8.ofNat (48 + d)) = d := by
      rw [digit, toNat_ofNat_digit (hds d List.mem_cons_self), Nat.add_sub_cancel_left]
    rw [List.reverse_cons, List.map_append, List.map_singleton, value_append,
      ih fun d' hd' => hds d' (List.mem_cons_of_mem d hd'), value_cons, hd, Nat.ofDigits_cons, value]
    simp only [List.length_singleton, List.length_nil, pow_zero, pow_one, List.foldl_nil]
    ring

theorem value_print (n : Nat) : value (print n) = n := by
  unfold print
  split_ifs with hzero
  · rw [hzero]
    rfl
  · rw [value_reverse_digits fun d hd => Nat.digits_lt_base (by norm_num) hd, Nat.ofDigits_digits]

theorem length_print_le {n k : Nat} (hk : 1 ≤ k) : (print n).length ≤ k ↔ n < 10 ^ k := by
  unfold print
  split_ifs with hzero
  · rw [hzero]
    exact ⟨fun _ => Nat.pow_pos (by norm_num), fun _ => hk⟩
  · rw [List.length_map, List.length_reverse]
    exact Nat.digits_length_le_iff (by norm_num) n

theorem isDigit_of_mem_pad {w n : Nat} : ∀ ch ∈ pad w n, isDigit ch = true := by
  intro ch hch
  rcases List.mem_append.1 hch with hzero | hin
  · rw [List.eq_of_mem_replicate hzero]
    rfl
  · exact isDigit_of_mem_print ch hin

theorem value_pad (w n : Nat) : value (pad w n) = n := by
  rw [pad, value_append, value_zeros, Nat.zero_mul, Nat.zero_add, value_print]

theorem length_pad {w n : Nat} (hw : 1 ≤ w) (hn : n < 10 ^ w) : (pad w n).length = w := by
  have hle := (length_print_le hw).2 hn
  rw [pad, List.length_append, List.length_replicate]
  omega

end Decimal

/-!
# Radix — numbers that are read in one base and kept in another

Digits come one by one, the highest one first; the number read so far is kept in a list of digits of another base that
has a fixed length, the lowest one first.
-/

namespace Limbs

open Nat (ofDigits digits)

variable {B M : Nat}

/-! ## One digit -/

/-- The digits times `M` and the carry, with the carry that is left at the end. -/
def mulAdd (B M : Nat) : Nat → List Nat → List Nat × Nat
  | carry, [] => ([], carry)
  | carry, d :: ds =>
    let r := mulAdd B M ((carry + M * d) / B) ds
    ((carry + M * d) % B :: r.1, r.2)

theorem mulAdd_fst (carry : Nat) (ds : List Nat) : (mulAdd B M carry ds).1 = carryLoop B carry (ds.map (M * ·)) := by
  induction ds generalizing carry with
  | nil => rfl
  | cons d ds ih => rw [mulAdd, List.map_cons, carryLoop, ih]

theorem mulAdd_snd (hB : 0 < B) (carry : Nat) (ds : List Nat) :
    (mulAdd B M carry ds).2 = (carry + M * ofDigits B ds) / B ^ ds.length := by
  induction ds generalizing carry with
  | nil => simp [mulAdd]
  | cons d ds ih =>
    have hsplit : carry + M * (d + B * ofDigits B ds) = carry + M * d + B * (M * ofDigits B ds) := by ring
    rw [mulAdd, ih, Nat.ofDigits_cons, List.length_cons, pow_succ', ← Nat.div_div_eq_div_mul, hsplit,
      Nat.add_mul_div_left _ _ hB]

/-- Nothing is left over when the number fits. -/
theorem mulAdd_of_lt (hB : 0 < B) {carry : Nat} {ds : List Nat} (hlt : carry + M * ofDigits B ds < B ^ ds.length) :
    (mulAdd B M carry ds).2 = 0 ∧ ofDigits B (mulAdd B M carry ds).1 = carry + M * ofDigits B ds := by
  refine ⟨?_, ?_⟩
  · rw [mulAdd_snd hB]
    exact Nat.div_eq_of_lt hlt
  · rw [mulAdd_fst, ofDigits_carryLoop, ofDigits_map_mul, List.length_map]
    exact Nat.mod_eq_of_lt hlt

theorem length_mulAdd (carry : Nat) (ds : List Nat) : (mulAdd B M carry ds).1.length = ds.length := by
  rw [mulAdd_fst, length_carryLoop, List.length_map]

theorem lt_of_mem_mulAdd (hB : 0 < B) {carry : Nat} {ds : List Nat} : ∀ p ∈ (mulAdd B M carry ds).1, p < B := by
  rw [mulAdd_fst]
  exact lt_of_mem_carryLoop hB

/-! ## All digits -/

/-- `none` when the number does not fit. -/
def feed (B M : Nat) : List Nat → List Nat → Option (List Nat)
  | [], ds => some ds
  | c :: cs, ds => if (mulAdd B M c ds).2 = 0 then feed B M cs (mulAdd B M c ds).1 else none

/-- By induction on what is still to be read: the number read so far leaves enough room for it. -/
theorem feed_spec (hB : 0 < B) {cs : List Nat} (hcs : ∀ c ∈ cs, c < M) :
    ∀ {ds : List Nat}, (∀ d ∈ ds, d < B) → (ofDigits B ds + 1) * M ^ cs.length ≤ B ^ ds.length →
      ∃ ds', feed B M cs ds = some ds' ∧ (∀ d ∈ ds', d < B) ∧
        ofDigits B ds' = ofDigits B ds * M ^ cs.length + ofDigits M cs.reverse := by
  induction cs with
  | nil =>
    intro ds hds _
    refine ⟨ds, rfl, hds, ?_⟩
    rw [List.length_nil, pow_zero, mul_one, List.reverse_nil, Nat.ofDigits_nil, add_zero]
  | cons c cs ih =>
    intro ds hds hroom
    have hc : c < M := hcs c List.mem_cons_self
    have hnext : c + M * ofDigits B ds + 1 ≤ M * (ofDigits B ds + 1) := by
      rw [Nat.mul_succ]
      omega
    have hroom' : (c + M * ofDigits B ds + 1) * M ^ cs.length ≤ B ^ ds.length := by
      calc (c + M * ofDigits B ds + 1) * M ^ cs.length
          ≤ M * (ofDigits B ds + 1) * M ^ cs.length := Nat.mul_le_mul_right _ hnext
        _ = (ofDigits B ds + 1) * M ^ (cs.length + 1) := by ring
        _ ≤ B ^ ds.length := hroom
    have hpow : 0 < M ^ cs.length := Nat.pow_pos (Nat.zero_lt_of_lt hc)
    have hlt : c + M * ofDigits B ds < B ^ ds.length :=
      (Nat.le_mul_of_pos_right _ hpow).trans hroom'
    rcases mulAdd_of_lt hB hlt with ⟨hcarry, hvalue⟩
    have hdigits : ∀ p ∈ (mulAdd B M c ds).1, p < B := lt_of_mem_mulAdd hB
    rcases ih (fun c' hc' => hcs c' (List.mem_cons_of_mem c hc')) hdigits
      (by rw [hvalue, length_mulAdd]; exact hroom') with ⟨ds', hrun, hds', heq⟩
    refine ⟨ds', ?_, hds', ?_⟩
    · rw [feed, if_pos hcarry, hrun]
    · rw [heq, hvalue, List.reverse_cons, Nat.ofDigits_append, List.length_reverse, Nat.ofDigits_singleton,
        List.length_cons]
      ring

/-- A list of zeros is long enough when its length is to that of the digits as the logarithms are. -/
theorem pow_le_pow_of_ratio {p q n k : Nat} (hratio : M ^ q ≤ B ^ p) (hq : q ≠ 0) (hB : 0 < B) (hk : n * p / q + 1 = k) :
    M ^ n ≤ B ^ k := by
  have hlength : n * p ≤ q * k := by
    rw [← hk, Nat.mul_succ]
    have hmod := Nat.mod_lt (n * p) (Nat.pos_of_ne_zero hq)
    have hdiv := Nat.div_add_mod (n * p) q
    omega
  have hpow : (M ^ n) ^ q ≤ (B ^ k) ^ q := by
    calc (M ^ n) ^ q = (M ^ q) ^ n := by rw [← pow_mul, ← pow_mul, Nat.mul_comm]
      _ ≤ (B ^ p) ^ n := Nat.pow_le_pow_left hratio n
      _ = B ^ (n * p) := by rw [← pow_mul, Nat.mul_comm]
      _ ≤ B ^ (q * k) := Nat.pow_le_pow_right hB hlength
      _ = (B ^ k) ^ q := by rw [← pow_mul, Nat.mul_comm]
  exact (Nat.pow_le_pow_iff_left hq).1 hpow

/-! ## Without leading zeros -/

theorem ofDigits_append_zeros (ds : List Nat) (n : Nat) : ofDigits B (ds ++ List.replicate n 0) = ofDigits B ds := by
  rw [Nat.ofDigits_append]
  have hzero : ofDigits B (List.replicate n 0) = 0 := by
    induction n with
    | zero => rfl
    | succ n ih => rw [List.replicate_succ, Nat.ofDigits_cons, ih, mul_zero, add_zero]
  rw [hzero, mul_zero, add_zero]

/-- The digits from the highest one on, without the zeros at the front, are those of the number. -/
theorem dropWhile_reverse (hB : 1 < B) {ds : List Nat} (hds : ∀ d ∈ ds, d < B) :
    ds.reverse.dropWhile (· = 0) = (digits B (ofDigits B ds)).reverse := by
  induction ds using List.reverseRecOn with
  | nil => rw [Nat.ofDigits_nil, Nat.digits_zero]; rfl
  | append_singleton ds d ih =>
    have hlast : d < B := hds d (List.mem_append_right ds List.mem_cons_self)
    have hfront : ∀ d' ∈ ds, d' < B := fun d' hd' => hds d' (List.mem_append_left [d] hd')
    rw [List.reverse_append, List.reverse_singleton, List.singleton_append]
    by_cases hzero : d = 0
    · subst hzero
      rw [List.dropWhile_cons_of_pos (by decide), ih hfront]
      exact congrArg (fun n => (digits B n).reverse) (ofDigits_append_zeros ds 1).symm
    · rw [List.dropWhile_cons_of_neg (by simpa using hzero), Nat.digits_ofDigits B hB (ds ++ [d]) hds]
      · rw [List.reverse_append, List.reverse_singleton, List.singleton_append]
      · intro hne
        rw [List.getLast_append_singleton]
        exact hzero

end Limbs
