import Dobbscoin.Lib.Radix

/-!
# C strings

What the program uses of the C library for text.
-/

namespace Dobbscoin

open Decimal (isDigit)

/-- A C string ends at the first zero. -/
def cStr (str : Bytes) : Bytes :=
  str.takeWhile (· ≠ 0)

/-- `isspace` in the C locale. -/
def isSpace (ch : UInt8) : Bool :=
  ch = 0x20 || (0x09 ≤ ch && ch ≤ 0x0d)

/-- What `strtol` and `strtoll` return, where they stop, and whether `errno` is set to `ERANGE`. -/
structure StrToL where
  n : Int
  endp : Bytes
  errno : Bool

/-- `strtol(str, &endp, 10)` for a `long` of 64 bits. -/
def strtol (str : Bytes) : StrToL :=
  let p := str.dropWhile isSpace
  let negative := p.head? = some 0x2d
  let ds := if negative ∨ p.head? = some 0x2b then p.tail else p
  let digits := ds.takeWhile isDigit
  let rest := ds.dropWhile isDigit
  if digits = [] then ⟨0, str, false⟩
  else
    let n : Int := if negative then -(Decimal.value digits : Int) else Decimal.value digits
    if n < -2 ^ 63 then ⟨-2 ^ 63, rest, true⟩
    else if n > 2 ^ 63 - 1 then ⟨2 ^ 63 - 1, rest, true⟩
    else ⟨n, rest, false⟩

theorem cStr_of_not_mem {str : Bytes} (h : (0 : UInt8) ∉ str) : cStr str = str := by
  refine List.takeWhile_eq_self_iff.2 fun ch hch => decide_eq_true ?_
  rintro rfl
  exact h hch

theorem dropWhile_of_head {p : UInt8 → Bool} {str : Bytes} (h : ∀ ch, str.head? = some ch → p ch = false) :
    str.dropWhile p = str := by
  cases str with
  | nil => rfl
  | cons ch str => exact List.dropWhile_cons_of_neg (by rw [h ch rfl]; exact Bool.false_ne_true)

theorem takeWhile_of_head {p : UInt8 → Bool} {str : Bytes} (h : ∀ ch, str.head? = some ch → p ch = false) :
    str.takeWhile p = [] := by
  cases str with
  | nil => rfl
  | cons ch str => exact List.takeWhile_cons_of_neg (by rw [h ch rfl]; exact Bool.false_ne_true)

/-- A digit is none of the other characters that the parsers look for. -/
theorem not_of_isDigit {ch : UInt8} (h : isDigit ch = true) :
    isSpace ch = false ∧ ch ≠ 0 ∧ ch ≠ 0x2d ∧ ch ≠ 0x2b ∧ ch ≠ 0x2e ∧ ch ≠ 0x2f := by
  have hrange := Decimal.isDigit_iff.1 h
  have hne : ∀ c : UInt8, c.toNat < 48 → ch ≠ c := by
    rintro c hc rfl
    omega
  refine ⟨?_, hne 0 (by decide), hne 0x2d (by decide), hne 0x2b (by decide), hne 0x2e (by decide), hne 0x2f (by decide)⟩
  have hlarge : ¬ch ≤ 0x0d := by
    rw [UInt8.le_iff_toNat_le]
    intro hle
    have hle' : ch.toNat ≤ 13 := hle
    omega
  have hblank : ch ≠ 0x20 := hne 0x20 (by decide)
  simp [isSpace, hlarge, hblank]

/-- A string that starts with a digit is read up to the first other character. -/
theorem strtol_digits {digits rest : Bytes} (hne : digits ≠ []) (hdigits : ∀ ch ∈ digits, isDigit ch = true)
    (hrest : ∀ ch, rest.head? = some ch → isDigit ch = false) (hfits : Decimal.value digits < 2 ^ 63) :
    strtol (digits ++ rest) = ⟨Decimal.value digits, rest, false⟩ := by
  cases digits with
  | nil => exact absurd rfl hne
  | cons ch digits =>
    have hch := not_of_isDigit (hdigits ch List.mem_cons_self)
    have hskip : (ch :: digits ++ rest).dropWhile isSpace = ch :: digits ++ rest :=
      dropWhile_of_head fun c hc => by
        cases hc
        exact hch.1
    have htake : (ch :: digits ++ rest).takeWhile isDigit = ch :: digits := by
      rw [List.takeWhile_append_of_pos hdigits, takeWhile_of_head hrest, List.append_nil]
    have hdrop : (ch :: digits ++ rest).dropWhile isDigit = rest := by
      rw [List.dropWhile_append_of_pos hdigits, dropWhile_of_head hrest]
    have hminus : ¬(ch :: digits ++ rest).head? = some 0x2d := fun h => hch.2.2.1 (Option.some.inj h)
    have hplus : ¬(ch :: digits ++ rest).head? = some 0x2b := fun h => hch.2.2.2.1 (Option.some.inj h)
    have hlow : ¬((Decimal.value (ch :: digits) : Int) < -2 ^ 63) := by omega
    have hhigh : ¬((Decimal.value (ch :: digits) : Int) > 2 ^ 63 - 1) := by omega
    unfold strtol
    simp only [hskip, hminus, hplus, or_self, if_false, htake, hdrop, reduceCtorEq, hlow, hhigh]

end Dobbscoin
