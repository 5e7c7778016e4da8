import Mathlib.Data.List.Basic

/-!
# Bits of byte strings

A string of bytes as a string of bits, with the lowest or the highest bit of each byte first.
-/

namespace Dobbscoin

namespace ByteBits

variable {l : List UInt8} {p q n : Nat}

/-- Bit `p`, the lowest bit of each byte first. -/
def lsb (l : List UInt8) (p : Nat) : Bool :=
  (l.getD (p / 8) 0).toBitVec.getLsbD (p % 8)

/-- Bit `p`, the highest bit of each byte first. -/
def msb (l : List UInt8) (p : Nat) : Bool :=
  (l.getD (p / 8) 0).toBitVec.getLsbD (7 - p % 8)

/-- The place in one order of a bit of the other order. -/
def mirror (p : Nat) : Nat :=
  8 * (p / 8) + (7 - p % 8)

/-- A byte with one bit. -/
def single (k : Nat) : UInt8 :=
  1 <<< UInt8.ofNat k

def set (l : List UInt8) (p : Nat) : List UInt8 :=
  l.modify (p / 8) (· ||| single (p % 8))

def clear (l : List UInt8) (p : Nat) : List UInt8 :=
  l.modify (p / 8) (· &&& ~~~single (p % 8))

def toggle (l : List UInt8) (p : Nat) : List UInt8 :=
  l.modify (p / 8) (· ^^^ single (p % 8))

/-! ## The two orders -/

theorem mirror_mirror (p : Nat) : mirror (mirror p) = p := by
  unfold mirror
  omega

theorem msb_eq_lsb (l : List UInt8) (p : Nat) : msb l p = lsb l (mirror p) := by
  have hdiv : mirror p / 8 = p / 8 := by
    unfold mirror
    omega
  have hmod : mirror p % 8 = 7 - p % 8 := by
    unfold mirror
    omega
  rw [lsb, hdiv, hmod, msb]

/-- The orders agree on whole bytes. -/
theorem mirror_lt_iff (hn : n % 8 = 0) : mirror p < n ↔ p < n := by
  unfold mirror
  omega

theorem lsb_append_left {r : List UInt8} (hp : p < 8 * l.length) : lsb (l ++ r) p = lsb l p := by
  have hdiv : p / 8 < l.length := by omega
  rw [lsb, List.getD_eq_getElem?_getD, List.getElem?_append_left hdiv, ← List.getD_eq_getElem?_getD, lsb]

theorem lsb_drop (l : List UInt8) (k p : Nat) : lsb (l.drop k) p = lsb l (8 * k + p) := by
  have hdiv : (8 * k + p) / 8 = k + p / 8 := by omega
  have hmod : (8 * k + p) % 8 = p % 8 := by omega
  rw [lsb, lsb, hdiv, hmod, List.getD_eq_getElem?_getD, List.getD_eq_getElem?_getD, List.getElem?_drop]

theorem msb_drop (l : List UInt8) (k p : Nat) : msb (l.drop k) p = msb l (8 * k + p) := by
  have hmirror : mirror (8 * k + p) = 8 * k + mirror p := by
    unfold mirror
    omega
  rw [msb_eq_lsb, msb_eq_lsb, lsb_drop, hmirror]

/-! ## One bit -/

theorem getLsbD_single : ∀ k < 8, ∀ j < 8, (single k).toBitVec.getLsbD j = decide (j = k) := by
  decide

theorem getD_modify (l : List UInt8) (i j : Nat) (f : UInt8 → UInt8) (hi : i < l.length) :
    (l.modify i f).getD j 0 = if i = j then f (l.getD j 0) else l.getD j 0 := by
  rw [List.getD_eq_getElem?_getD, List.getD_eq_getElem?_getD, List.getElem?_modify]
  by_cases hij : i = j
  · subst hij
    simp [List.getElem?_eq_getElem hi]
  · simp [hij]

/-- An operation on one bit of a byte leaves the other bits as they are. -/
theorem lsb_modify {f : UInt8 → UInt8} {g : Bool → Bool} {k : Nat} (hk : k < 8)
    (hf : ∀ x j, j < 8 → (f x).toBitVec.getLsbD j = if j = k then g (x.toBitVec.getLsbD j) else x.toBitVec.getLsbD j)
    {i : Nat} (hi : i < l.length) (q : Nat) :
    lsb (l.modify i f) q = if q = 8 * i + k then g (lsb l q) else lsb l q := by
  rw [lsb, getD_modify l i _ f hi]
  by_cases hbyte : i = q / 8
  · have hplace : q % 8 = k ↔ q = 8 * i + k := by omega
    rw [if_pos hbyte, hf _ _ (Nat.mod_lt q (by decide))]
    simp only [hplace, lsb]
  · have hplace : q ≠ 8 * i + k := by omega
    rw [if_neg hbyte, if_neg hplace, lsb]

/-- The same for the bit at a place in the bytes. -/
theorem lsb_modify_at {f : UInt8 → UInt8} {g : Bool → Bool} (hp : p < 8 * l.length)
    (hf : ∀ x j, j < 8 → (f x).toBitVec.getLsbD j =
      if j = p % 8 then g (x.toBitVec.getLsbD j) else x.toBitVec.getLsbD j) :
    lsb (l.modify (p / 8) f) q = if q = p then g (lsb l q) else lsb l q := by
  rw [lsb_modify (Nat.mod_lt p (by decide)) hf (by omega) q, Nat.div_add_mod p 8]

theorem lsb_set (hp : p < 8 * l.length) : lsb (set l p) q = (lsb l q || decide (q = p)) := by
  rw [set, lsb_modify_at (g := fun _ => true) hp fun x j hj => ?_]
  · by_cases hqp : q = p <;> simp [hqp]
  · rw [UInt8.toBitVec_or, BitVec.getLsbD_or, getLsbD_single _ (Nat.mod_lt p (by decide)) j hj]
    by_cases hjp : j = p % 8 <;> simp [hjp]

theorem lsb_clear (hp : p < 8 * l.length) : lsb (clear l p) q = (lsb l q && decide (q ≠ p)) := by
  rw [clear, lsb_modify_at (g := fun _ => false) hp fun x j hj => ?_]
  · by_cases hqp : q = p <;> simp [hqp]
  · rw [UInt8.toBitVec_and, BitVec.getLsbD_and, UInt8.toBitVec_not, BitVec.getLsbD_not,
      getLsbD_single _ (Nat.mod_lt p (by decide)) j hj]
    by_cases hjp : j = p % 8 <;> simp [hjp, hj]

theorem lsb_toggle (hp : p < 8 * l.length) : lsb (toggle l p) q = (lsb l q != decide (q = p)) := by
  rw [toggle, lsb_modify_at (g := fun b => !b) hp fun x j hj => ?_]
  · by_cases hqp : q = p <;> simp [hqp]
  · rw [UInt8.toBitVec_xor, BitVec.getLsbD_xor, getLsbD_single _ (Nat.mod_lt p (by decide)) j hj]
    by_cases hjp : j = p % 8 <;> simp [hjp]

/-- Testing one bit of a byte with a mask. -/
theorem and_single_ne_zero {x : UInt8} {k : Nat} (hk : k < 8) :
    x &&& single k ≠ 0 ↔ x.toBitVec.getLsbD k = true := by
  have hbit : ∀ j < 8, (x &&& single k).toBitVec.getLsbD j = (x.toBitVec.getLsbD j && decide (j = k)) := fun j hj => by
    rw [UInt8.toBitVec_and, BitVec.getLsbD_and, getLsbD_single k hk j hj]
  constructor
  · intro hne
    by_contra hclear
    refine hne (UInt8.toBitVec_inj.1 (BitVec.eq_of_getLsbD_eq fun j hj => ?_))
    rw [hbit j hj]
    by_cases hjk : j = k
    · subst hjk
      simp [hclear]
    · simp [hjk]
  · intro hset hzero
    have hk' := hbit k hk
    rw [hzero, hset] at hk'
    simp at hk'

/-! ## Equality -/

theorem byte_ext {x y : UInt8} (h : ∀ j < 8, x.toBitVec.getLsbD j = y.toBitVec.getLsbD j) : x = y :=
  UInt8.toBitVec_inj.1 (BitVec.eq_of_getLsbD_eq h)

theorem getD_eq_of_lsb {l' : List UInt8} {i : Nat} (h : ∀ j < 8, lsb l (8 * i + j) = lsb l' (8 * i + j)) :
    l.getD i 0 = l'.getD i 0 := by
  refine byte_ext fun j hj => ?_
  have hbit := h j hj
  have hdiv : (8 * i + j) / 8 = i := by omega
  have hmod : (8 * i + j) % 8 = j := by omega
  rwa [lsb, lsb, hdiv, hmod] at hbit

/-! ## Eight flags in a byte -/

/-- The byte whose bits are given. -/
def pack (g : Nat → Bool) : UInt8 :=
  (List.range 8).foldl (fun x i => if g i then x ||| single i else x) 0

/-- The flags of a byte. -/
def flags (x : UInt8) : List Bool :=
  (List.range 8).map fun i => decide (x &&& single i ≠ 0)

theorem getLsbD_foldl (g : Nat → Bool) {k : Nat} (hk : k ≤ 8) {j : Nat} (hj : j < 8) :
    ((List.range k).foldl (fun x i => if g i then x ||| single i else x) 0).toBitVec.getLsbD j =
      (decide (j < k) && g j) := by
  induction k with
  | zero =>
    rw [List.range_zero, List.foldl_nil, decide_eq_false (Nat.not_lt_zero j), Bool.false_and]
    exact BitVec.getLsbD_zero
  | succ k ih =>
    rw [List.range_succ, List.foldl_append, List.foldl_cons, List.foldl_nil]
    have hprev := ih (by omega)
    by_cases hjk : j = k
    · subst hjk
      rw [decide_eq_false (Nat.lt_irrefl j), Bool.false_and] at hprev
      rw [decide_eq_true (Nat.lt_succ_self j), Bool.true_and]
      by_cases hg : g j = true
      · rw [if_pos hg, UInt8.toBitVec_or, BitVec.getLsbD_or, getLsbD_single j hj j hj, decide_eq_true rfl, Bool.or_true, hg]
      · rw [if_neg hg, hprev, eq_comm, ← Bool.not_eq_true]
        exact hg
    · have hlt : j < k + 1 ↔ j < k := by omega
      rw [decide_eq_decide.2 hlt, ← hprev]
      by_cases hg : g k = true
      · rw [if_pos hg, UInt8.toBitVec_or, BitVec.getLsbD_or, getLsbD_single k (by omega) j hj, decide_eq_false hjk,
          Bool.or_false]
      · rw [if_neg hg]

theorem getLsbD_pack (g : Nat → Bool) {j : Nat} (hj : j < 8) : (pack g).toBitVec.getLsbD j = g j := by
  rw [pack, getLsbD_foldl g (Nat.le_refl 8) hj, decide_eq_true hj, Bool.true_and]

theorem flags_pack (g : Nat → Bool) : flags (pack g) = (List.range 8).map g := by
  refine List.map_congr_left fun i hi => ?_
  have hi' := List.mem_range.1 hi
  rw [Bool.eq_iff_iff, decide_eq_true_eq, and_single_ne_zero hi', getLsbD_pack g hi']

theorem pack_eq_zero_iff (g : Nat → Bool) : pack g = 0 ↔ ∀ i < 8, g i = false := by
  constructor
  · intro hzero i hi
    rw [← getLsbD_pack g hi, hzero]
    exact BitVec.getLsbD_zero
  · intro h
    refine byte_ext fun j hj => ?_
    rw [getLsbD_pack g hj, h j hj]
    exact BitVec.getLsbD_zero.symm

/-- Byte strings of one length with the same bits are equal. -/
theorem ext {l' : List UInt8} (hlength : l.length = l'.length) (h : ∀ p < 8 * l.length, lsb l p = lsb l' p) :
    l = l' := by
  refine List.ext_getElem hlength fun i hi hi' => ?_
  have hbyte : l.getD i 0 = l'.getD i 0 := getD_eq_of_lsb fun j hj => h _ (by omega)
  simpa only [List.getD_eq_getElem?_getD, List.getElem?_eq_getElem hi, List.getElem?_eq_getElem hi',
    Option.getD_some] using hbyte

/-! ## Strings of flags -/

/-- The bytes of a string of flags, the last byte filled up with zeros. -/
def ofFlags (bits : List Bool) : List UInt8 :=
  (List.range bits.length).foldl (fun bytes p => if bits.getD p false then set bytes p else bytes)
    (List.replicate ((bits.length + 7) / 8) 0)

/-- The flags of all bytes. -/
def toFlags (bytes : List UInt8) : List Bool :=
  (List.range (bytes.length * 8)).map fun p => decide (bytes.getD (p / 8) 0 &&& single (p % 8) ≠ 0)

theorem length_toFlags (bytes : List UInt8) : (toFlags bytes).length = bytes.length * 8 := by
  rw [toFlags, List.length_map, List.length_range]

theorem lsb_replicate (n q : Nat) : lsb (List.replicate n 0) q = false := by
  have hzero : (List.replicate n (0 : UInt8)).getD (q / 8) 0 = 0 := by
    rw [List.getD_eq_getElem?_getD, List.getElem?_replicate]
    by_cases hq : q / 8 < n
    · rw [if_pos hq]
      rfl
    · rw [if_neg hq]
      rfl
  rw [lsb, hzero]
  exact BitVec.getLsbD_zero

/-- The loop that sets the flags below `k`. -/
theorem foldl_set (bits : List Bool) {k n : Nat} (hk : k ≤ 8 * n) :
    ((List.range k).foldl (fun bytes p => if bits.getD p false then set bytes p else bytes)
      (List.replicate n 0)).length = n ∧
    ∀ q, lsb ((List.range k).foldl (fun bytes p => if bits.getD p false then set bytes p else bytes)
      (List.replicate n 0)) q = (decide (q < k) && bits.getD q false) := by
  induction k with
  | zero =>
    refine ⟨List.length_replicate, fun q => ?_⟩
    rw [decide_eq_false (Nat.not_lt_zero q), Bool.false_and]
    exact lsb_replicate n q
  | succ k ih =>
    rcases ih (by omega) with ⟨hlength, hbits⟩
    rw [List.range_succ, List.foldl_append, List.foldl_cons, List.foldl_nil]
    cases hk' : bits.getD k false with
    | false =>
      rw [if_neg Bool.false_ne_true]
      refine ⟨hlength, fun q => ?_⟩
      rw [hbits q]
      by_cases hq : q = k
      · rw [hq, hk', Bool.and_false, Bool.and_false]
      · have hlt : q < k + 1 ↔ q < k := by omega
        rw [decide_eq_decide.2 hlt]
    | true =>
      rw [if_pos rfl]
      refine ⟨?_, fun q => ?_⟩
      · rw [set, List.length_modify, hlength]
      · rw [lsb_set (by rw [hlength]; omega), hbits q]
        by_cases hq : q = k
        · rw [hq, hk', decide_eq_true rfl, Bool.or_true, decide_eq_true (Nat.lt_succ_self k), Bool.true_and]
        · have hlt : q < k + 1 ↔ q < k := by omega
          rw [decide_eq_false hq, Bool.or_false, decide_eq_decide.2 hlt]

theorem length_ofFlags (bits : List Bool) : (ofFlags bits).length = (bits.length + 7) / 8 :=
  (foldl_set bits (by omega)).1

/-- Reading the bytes adds only flags that are not set. -/
theorem toFlags_ofFlags (bits : List Bool) :
    toFlags (ofFlags bits) = bits ++ List.replicate ((bits.length + 7) / 8 * 8 - bits.length) false := by
  apply List.ext_getElem
  · rw [length_toFlags, length_ofFlags, List.length_append, List.length_replicate]
    omega
  · intro p hp hp'
    have hbit : (toFlags (ofFlags bits))[p] = lsb (ofFlags bits) p := by
      have hread := and_single_ne_zero (x := (ofFlags bits).getD (p / 8) 0) (Nat.mod_lt p (by decide : 8 > 0))
      simp only [toFlags, List.getElem_map, List.getElem_range, lsb]
      rw [Bool.eq_iff_iff, decide_eq_true_eq, hread]
    rw [hbit, ofFlags, (foldl_set bits (by omega)).2 p]
    by_cases hlt : p < bits.length
    · rw [decide_eq_true hlt, Bool.true_and, List.getElem_append_left hlt, List.getD_eq_getElem?_getD,
        List.getElem?_eq_getElem hlt, Option.getD_some]
    · rw [decide_eq_false hlt, Bool.false_and, List.getElem_append_right (Nat.not_lt.1 hlt), List.getElem_replicate]

end ByteBits

end Dobbscoin
