import Dobbscoin.Script.ScriptNum

/-!
# Script numbers and their bytes

`serialize` writes the magnitude in little endian and puts the sign into the top bit of the last byte.  A
number has one such encoding without a superfluous byte, and `setVch` reads it back.
-/

namespace Dobbscoin

open ByteCodec Guard

/-! ## The top bit of a byte -/

set_option maxRecDepth 4000 in
theorem topBit_eq_zero {b : UInt8} : b &&& 0x80 = 0 ↔ b.toNat < 128 := by
  have hall : ∀ n < 256, n &&& 128 = 0 ↔ n < 128 := by decide
  rw [← UInt8.toNat_inj, UInt8.toNat_and]
  exact hall b.toNat b.toNat_lt

theorem lowBits_toNat (b : UInt8) : (b &&& 0x7f).toNat = b.toNat % 128 := by
  rw [UInt8.toNat_and]
  exact Nat.and_two_pow_sub_one_eq_mod b.toNat 7

theorem setTopBit_toNat {b : UInt8} (h : b.toNat < 128) : (b ||| 0x80).toNat = b.toNat + 128 := by
  have hall : ∀ n < 128, n ||| 128 = n + 128 := by decide
  rw [UInt8.toNat_or]
  exact hall b.toNat h

namespace CScriptNum

theorem leNat_append_singleton (init : Bytes) (b : UInt8) :
    leNat (init ++ [b]) = leNat init + 256 ^ init.length * b.toNat := by
  induction init with
  | nil => simp [leNat]
  | cons a init ih =>
    rw [List.cons_append, leNat, ih, leNat, List.length_cons, pow_succ]
    ring

/-! ## Magnitudes -/

theorem leNat_absBytes (fuel n : Nat) (h : n < 256 ^ fuel) : leNat (absBytes fuel n) = n := by
  induction fuel generalizing n with
  | zero =>
    rw [pow_zero, Nat.lt_one_iff] at h
    rw [h]
    rfl
  | succ fuel ih =>
    unfold absBytes
    split_ifs with hn
    · rw [hn]
      rfl
    · have hdiv : n / 256 < 256 ^ fuel := Nat.div_lt_of_lt_mul (by rwa [pow_succ, Nat.mul_comm] at h)
      have hbyte : (UInt8.ofNat (n % 256)).toNat = n % 256 := by
        rw [UInt8.toNat_ofNat', Nat.mod_eq_of_lt (Nat.mod_lt n (by decide))]
      rw [leNat, ih _ hdiv, hbyte]
      exact Nat.mod_add_div n 256

theorem absBytes_zero (fuel : Nat) : absBytes fuel 0 = [] := by
  cases fuel <;> rfl

/-- The last byte of a magnitude is not superfluous. -/
theorem absBytes_getLast {fuel n : Nat} (h : n < 256 ^ fuel) {init : Bytes} {b : UInt8}
    (hb : absBytes fuel n = init ++ [b]) : b ≠ 0 := by
  induction fuel generalizing n init with
  | zero => simp [absBytes] at hb
  | succ fuel ih =>
    unfold absBytes at hb
    split_ifs at hb with hn
    · simp at hb
    · have hdiv : n / 256 < 256 ^ fuel := Nat.div_lt_of_lt_mul (by rwa [pow_succ, Nat.mul_comm] at h)
      cases init with
      | nil =>
        rw [List.nil_append, List.cons.injEq] at hb
        -- No byte follows, so that nothing but this byte is in the number.
        have hrest : n / 256 = 0 := by
          rw [← leNat_absBytes fuel (n / 256) hdiv, hb.2]
          rfl
        rintro rfl
        have hmod := congrArg UInt8.toNat hb.1
        rw [UInt8.toNat_ofNat', Nat.mod_eq_of_lt (Nat.mod_lt n (by decide))] at hmod
        have hzero : n % 256 = 0 := hmod
        omega
      | cons a init =>
        rw [List.cons_append, List.cons.injEq] at hb
        exact ih hdiv hb.2

/-- Bytes without a superfluous last one are the magnitude of their number. -/
theorem absBytes_leNat {fuel : Nat} {vch : Bytes} (hlen : vch.length ≤ fuel)
    (hlast : ∀ init b, vch = init ++ [b] → b ≠ 0) : absBytes fuel (leNat vch) = vch := by
  induction vch generalizing fuel with
  | nil => exact absBytes_zero fuel
  | cons b rest ih =>
    cases fuel with
    | zero => simp at hlen
    | succ fuel =>
      have hrest : absBytes fuel (leNat rest) = rest := by
        refine ih (by simpa using hlen) fun init c hc => hlast (b :: init) c ?_
        rw [hc, List.cons_append]
      have hb := b.toNat_lt
      have hmod : (b.toNat + 256 * leNat rest) % 256 = b.toNat := by omega
      have hdiv : (b.toNat + 256 * leNat rest) / 256 = leNat rest := by omega
      have hpos : b.toNat + 256 * leNat rest ≠ 0 := by
        intro hzero
        have hrest0 : leNat rest = 0 := by omega
        rw [hrest0, absBytes_zero] at hrest
        have hb0 : b.toNat = 0 := by omega
        exact hlast [] b (by rw [← hrest, List.nil_append]) (UInt8.toNat_inj.1 hb0)
      rw [leNat, absBytes, if_neg hpos, hmod, hdiv, hrest, UInt8.ofNat_toNat]

/-! ## Signed numbers -/

/-- What `setVch` makes of the last byte. -/
theorem setVch_append_singleton (init : Bytes) (last : UInt8) :
    setVch (init ++ [last]) =
      if last.toNat < 128 then ((leNat init + 256 ^ init.length * last.toNat : Nat) : Int)
      else -((leNat init + 256 ^ init.length * (last.toNat - 128) : Nat) : Int) := by
  have hlen : (init ++ [last]).length - 1 = init.length := by simp
  unfold setVch
  rw [List.getLast?_concat]
  dsimp only
  rw [hlen, leNat_append_singleton]
  by_cases hlow : last.toNat < 128
  · rw [if_neg (not_not.2 (topBit_eq_zero.2 hlow)), if_pos hlow]
  · rw [if_pos fun hzero => hlow (topBit_eq_zero.1 hzero), if_neg hlow]
    have hsub : ((last.toNat - 128 : Nat) : Int) = (last.toNat : Int) - 128 :=
      Int.ofNat_sub (Nat.not_lt.1 hlow)
    push_cast [hsub]
    ring

/-- `serialize` by the magnitude and the sign. -/
theorem serialize_append_singleton {value : Int} {init : Bytes} {back : UInt8}
    (h : absBytes 8 value.natAbs = init ++ [back]) :
    serialize value =
      if back.toNat < 128 then init ++ [if value < 0 then back ||| 0x80 else back]
      else init ++ [back] ++ [if value < 0 then 0x80 else 0] := by
  unfold serialize
  rw [h]
  dsimp only
  rw [List.getLast?_concat]
  dsimp only
  by_cases hlow : back.toNat < 128
  · rw [if_neg (not_not.2 (topBit_eq_zero.2 hlow)), if_pos hlow, List.dropLast_concat]
    split_ifs <;> rfl
  · rw [if_pos fun hzero => hlow (topBit_eq_zero.1 hzero), if_neg hlow]

theorem serialize_natCast {n : Nat} {init : Bytes} {back : UInt8} (h : absBytes 8 n = init ++ [back]) :
    serialize (n : Int) = if back.toNat < 128 then init ++ [back] else init ++ [back] ++ [0] := by
  have habs : absBytes 8 (n : Int).natAbs = init ++ [back] := by rw [Int.natAbs_natCast, h]
  have hsign : ¬ (n : Int) < 0 := by omega
  rw [serialize_append_singleton habs, if_neg hsign, if_neg hsign]

theorem serialize_neg_natCast {n : Nat} (hpos : 0 < n) {init : Bytes} {back : UInt8}
    (h : absBytes 8 n = init ++ [back]) :
    serialize (-(n : Int)) = if back.toNat < 128 then init ++ [back ||| 0x80] else init ++ [back] ++ [0x80] := by
  have habs : absBytes 8 (-(n : Int)).natAbs = init ++ [back] := by rw [Int.natAbs_neg, Int.natAbs_natCast, h]
  have hsign : -(n : Int) < 0 := by omega
  rw [serialize_append_singleton habs, if_pos hsign, if_pos hsign]

theorem serialize_zero : serialize 0 = [] := by
  decide

/-- A number that is not zero has a last byte. -/
theorem exists_absBytes_concat {n : Nat} (h : n < 256 ^ 8) (hn : n ≠ 0) :
    ∃ init back, absBytes 8 n = init ++ [back] ∧ leNat init + 256 ^ init.length * back.toNat = n := by
  rcases List.eq_nil_or_concat (absBytes 8 n) with hnil | ⟨init, back, hconcat⟩
  · exact absurd (by rw [← leNat_absBytes 8 n h, hnil]; rfl) hn
  · rw [List.concat_eq_append] at hconcat
    refine ⟨init, back, hconcat, ?_⟩
    rw [← leNat_append_singleton, ← hconcat]
    exact leNat_absBytes 8 n h

theorem setVch_serialize {value : Int} (h : value.natAbs < 256 ^ 8) : setVch (serialize value) = value := by
  by_cases hzero : value = 0
  · rw [hzero, serialize_zero]
    rfl
  · rcases exists_absBytes_concat h (Int.natAbs_ne_zero.2 hzero) with ⟨init, back, hbytes, hvalue⟩
    rw [serialize_append_singleton hbytes]
    by_cases hlow : back.toNat < 128
    · rw [if_pos hlow, setVch_append_singleton]
      by_cases hneg : value < 0
      · have hset := setTopBit_toNat hlow
        rw [if_pos hneg, if_neg (by omega), hset, Nat.add_sub_cancel, hvalue]
        omega
      · rw [if_neg hneg, if_pos hlow, hvalue]
        omega
    · rw [if_neg hlow, setVch_append_singleton, leNat_append_singleton, hvalue]
      by_cases hneg : value < 0
      · have hbyte : (0x80 : UInt8).toNat = 128 := rfl
        rw [if_pos hneg, hbyte, if_neg (by decide), Nat.sub_self, Nat.mul_zero, Nat.add_zero]
        omega
      · have hbyte : (0 : UInt8).toNat = 0 := rfl
        rw [if_neg hneg, hbyte, if_pos (by decide), Nat.mul_zero, Nat.add_zero]
        omega

/-! ## Minimal encodings -/

theorem isMinimal_append_singleton (init : Bytes) (last : UInt8) :
    isMinimal (init ++ [last]) = true ↔
      last.toNat % 128 ≠ 0 ∨ ∃ init' second, init = init' ++ [second] ∧ 128 ≤ second.toNat := by
  have hlow : (last &&& 0x7f != 0) = true ↔ last.toNat % 128 ≠ 0 := by
    rw [bne_iff_ne, ne_eq, ← UInt8.toNat_inj, lowBits_toNat]
    rfl
  rcases List.eq_nil_or_concat init with rfl | ⟨init', second, rfl⟩
  · have hnone : ¬ ∃ init' second, ([] : Bytes) = init' ++ [second] ∧ 128 ≤ second.toNat := by simp
    rw [or_iff_left hnone]
    exact hlow
  · rw [List.concat_eq_append]
    have htop : (second &&& 0x80 != 0) = true ↔ 128 ≤ second.toNat := by
      rw [bne_iff_ne, ne_eq, topBit_eq_zero, Nat.not_lt]
    have hsecond : (∃ init'' second', init' ++ [second] = init'' ++ [second'] ∧ 128 ≤ second'.toNat) ↔
        128 ≤ second.toNat := by
      constructor
      · rintro ⟨init'', second', heq, hle⟩
        rwa [(List.append_singleton_inj.1 heq).2]
      · exact fun hle => ⟨init', second, rfl, hle⟩
    rw [hsecond]
    unfold isMinimal
    simp only [List.reverse_append, List.reverse_singleton, List.singleton_append, Bool.or_eq_true, hlow, htop]

theorem isMinimal_serialize {value : Int} (h : value.natAbs < 256 ^ 8) : isMinimal (serialize value) = true := by
  by_cases hzero : value = 0
  · rw [hzero, serialize_zero]
    rfl
  · rcases exists_absBytes_concat h (Int.natAbs_ne_zero.2 hzero) with ⟨init, back, hbytes, -⟩
    have hback : back.toNat ≠ 0 := fun hb => absBytes_getLast h hbytes (UInt8.toNat_inj.1 hb)
    rw [serialize_append_singleton hbytes]
    by_cases hlow : back.toNat < 128
    · rw [if_pos hlow, isMinimal_append_singleton]
      refine .inl ?_
      split_ifs
      · rw [setTopBit_toNat hlow]
        omega
      · omega
    · -- The byte before the last one needs its top bit.
      rw [if_neg hlow, isMinimal_append_singleton]
      exact .inr ⟨init, back, rfl, Nat.not_lt.1 hlow⟩

/-- A byte whose top bit is set is its low bits with the top bit set. -/
theorem setTopBit_lowBits {b : UInt8} (h : 128 ≤ b.toNat) : (b &&& 0x7f) ||| 0x80 = b := by
  have hlow := lowBits_toNat b
  have hlt := b.toNat_lt
  rw [← UInt8.toNat_inj, setTopBit_toNat (by omega), hlow]
  omega

/-- An encoding without a superfluous byte is the one that `serialize` writes. -/
theorem serialize_setVch {vch : Bytes} (hlen : vch.length ≤ 8) (h : isMinimal vch = true) :
    serialize (setVch vch) = vch := by
  rcases List.eq_nil_or_concat vch with rfl | ⟨init, last, rfl⟩
  · exact serialize_zero
  · rw [List.concat_eq_append] at hlen h ⊢
    have hlast := last.toNat_lt
    have hpow : 0 < 256 ^ init.length := Nat.pow_pos (by decide)
    rw [isMinimal_append_singleton] at h
    by_cases hlow : last.toNat % 128 = 0
    · -- The last byte is the sign alone; the magnitude ends with the byte before it.
      rcases h with h | ⟨init', second, rfl, hsecond⟩
      · exact absurd hlow h
      · have hsize : (init' ++ [second]).length ≤ 8 := by
          rw [List.length_append, List.length_singleton] at hlen
          exact Nat.le_of_succ_le hlen
        have habs : absBytes 8 (leNat (init' ++ [second])) = init' ++ [second] := by
          refine absBytes_leNat hsize fun i b hib => ?_
          rw [← (List.append_singleton_inj.1 hib).2]
          rintro rfl
          exact absurd hsecond (by decide)
        have hmag : 0 < leNat (init' ++ [second]) := by
          rw [leNat_append_singleton]
          exact Nat.lt_of_lt_of_le (Nat.mul_pos (Nat.pow_pos (by decide)) (by omega)) (Nat.le_add_left _ _)
        rw [setVch_append_singleton]
        by_cases hpos : last.toNat < 128
        · have hzero : last = 0 := UInt8.toNat_inj.1 (by rw [UInt8.toNat_zero]; omega)
          rw [if_pos hpos, hzero, UInt8.toNat_zero, Nat.mul_zero, Nat.add_zero]
          rw [serialize_natCast habs, if_neg (Nat.not_lt.2 hsecond)]
        · have hsign : last = 0x80 := UInt8.toNat_inj.1 (by rw [show (0x80 : UInt8).toNat = 128 from rfl]; omega)
          have hbyte : (0x80 : UInt8).toNat = 128 := rfl
          rw [if_neg hpos, hsign, hbyte, Nat.sub_self, Nat.mul_zero, Nat.add_zero]
          rw [serialize_neg_natCast hmag habs, if_neg (Nat.not_lt.2 hsecond)]
    · -- The last byte has bits of the magnitude under the sign.
      have hbits := lowBits_toNat last
      have habs : absBytes 8 (leNat (init ++ [last &&& 0x7f])) = init ++ [last &&& 0x7f] := by
        refine absBytes_leNat (by simpa using hlen) fun i b hib => ?_
        rw [← (List.append_singleton_inj.1 hib).2]
        intro hzero
        rw [hzero] at hbits
        exact hlow hbits.symm
      rw [leNat_append_singleton, hbits] at habs
      have hmag : 0 < leNat init + 256 ^ init.length * (last.toNat % 128) :=
        Nat.lt_of_lt_of_le (Nat.mul_pos hpow (Nat.pos_of_ne_zero hlow)) (Nat.le_add_left _ _)
      rw [setVch_append_singleton]
      by_cases hpos : last.toNat < 128
      · rw [Nat.mod_eq_of_lt hpos] at habs hmag
        have hsame : last &&& 0x7f = last := UInt8.toNat_inj.1 (by rw [hbits, Nat.mod_eq_of_lt hpos])
        rw [if_pos hpos, serialize_natCast habs, hsame, if_pos hpos]
      · have hmod : last.toNat - 128 = last.toNat % 128 := by omega
        rw [if_neg hpos, hmod, serialize_neg_natCast hmag habs]
        rw [if_pos (by omega), setTopBit_lowBits (Nat.not_lt.1 hpos)]

/-- Read with and without the rule about minimal encodings. -/
theorem ofBytes_false {vch : Bytes} {size : Nat} (h : vch.length ≤ size) :
    ofBytes vch false size = .ok (setVch vch) := by
  unfold ofBytes
  rw [rejectIf_of_not _ (Nat.not_lt.2 h), rejectIf_of_not _ (by simp)]
  rfl

theorem ofBytes_true {vch : Bytes} {size : Nat} (h : vch.length ≤ size) (n : Int) :
    ofBytes vch true size = .ok n ↔ isMinimal vch = true ∧ setVch vch = n := by
  simp [ofBytes, Nat.not_lt.2 h]

end CScriptNum

end Dobbscoin
