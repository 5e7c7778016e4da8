import Dobbscoin.Primitives.CString
import Dobbscoin.Primitives.Transaction

/-!
# Amounts as text

`FormatMoney` and `ParseMoney` of `utilmoneystr.cpp`.
-/

namespace Dobbscoin

open Decimal (isDigit digit)

/-! ## FormatMoney -/

/-- The loop that trims zeros, from the index `i` down; it is `none` when it reads outside the string. -/
def trimLoop (str : Bytes) : Nat → Option Nat
  | 0 =>
    match str[0]? with
    | none => none
    | some ch => if ch = 0x30 then none else some 0
  | i + 1 =>
    match str[i + 1]? with
    | none => none
    | some ch =>
      if ch = 0x30 then
        if i = 0 then none
        else
          match str[i - 1]? with
          | none => none
          | some ch => if isDigit ch then (trimLoop str i).map (· + 1) else some 0
      else some 0

/-- `none` when `-n` is not an `int64_t`, or when the loop reads outside the string. -/
def formatMoney (n : CAmount) (fPlus : Bool) : Option Bytes :=
  if n.toInt = -2 ^ 63 then none
  else
    let n_abs := n.toInt.natAbs
    let str := Decimal.print (n_abs / 100000000) ++ 0x2e :: Decimal.pad 8 (n_abs % 100000000)
    (trimLoop str (str.length - 1)).map fun nTrim =>
      let str := str.take (str.length - nTrim)
      if n.toInt < 0 then 0x2d :: str
      else if fPlus && n.toInt > 0 then 0x2b :: str
      else str

/-! ## ParseMoney -/

/-- The result of an operation on `int64_t`. -/
def toInt64 (x : Int) : Option Int :=
  if -2 ^ 63 ≤ x ∧ x < 2 ^ 63 then some x else none

/-- The loop over the decimals. -/
def parseUnits : Bytes → Int → Int → Option (Int × Bytes)
  | [], nUnits, _ => some (nUnits, [])
  | ch :: p, nUnits, nMult =>
    if isDigit ch ∧ nMult > 0 then do
      let units ← toInt64 (nMult * digit ch)
      let nUnits ← toInt64 (nUnits + units)
      parseUnits p nUnits (nMult / 10)
    else some (nUnits, ch :: p)

/-- The loop over the text: `strWhole`, `nUnits` and where it stops; `some none` when it returns false. -/
def parseNumber : Bytes → Bytes → Option (Option (Bytes × Int × Bytes))
  | [], strWhole => some (some (strWhole, 0, []))
  | ch :: p, strWhole =>
    if ch = 0x2e then (parseUnits p 0 (1000000 * 10)).map fun r => some (strWhole, r.1, r.2)
    else if isSpace ch then some (some (strWhole, 0, ch :: p))
    else if isDigit ch then parseNumber p (strWhole ++ [ch])
    else some none

def atoi64 (str : Bytes) : Int :=
  (strtol (cStr str)).n

/-- `ParseMoney` of a C string: `none` when an operation on `int64_t` overflows, `some none` when it returns false. -/
def parseMoney (pszIn : Bytes) : Option (Option Int) :=
  match parseNumber (pszIn.dropWhile isSpace) [] with
  | none => none
  | some none => some none
  | some (some (strWhole, nUnits, p)) =>
    if p.all isSpace = false then some none
    else if strWhole.length > 10 then some none
    else if nUnits < 0 ∨ nUnits > coin then some none
    else do
      let nWhole ← toInt64 (atoi64 strWhole * coin)
      let nValue ← toInt64 (nWhole + nUnits)
      return some nValue

/-- `ParseMoney` of a string. -/
def parseMoneyStr (str : Bytes) : Option (Option Int) :=
  parseMoney (cStr str)

/-! ## Trimming -/

/-- The zeros at the end are counted down to two decimals, and nothing before them is read. -/
theorem trimLoop_spec (whole : Bytes) {decimals : Bytes} (hdigits : ∀ ch ∈ decimals, isDigit ch = true)
    (htwo : 2 ≤ decimals.length) (rest : Bytes) :
    ∃ nTrim kept, trimLoop (whole ++ 0x2e :: (decimals ++ rest)) (whole.length + decimals.length) = some nTrim ∧
      decimals = kept ++ List.replicate nTrim 0x30 ∧ 2 ≤ kept.length := by
  induction decimals using List.reverseRecOn generalizing rest with
  | nil => cases htwo
  | append_singleton decimals ch ih =>
    have hlength : (decimals ++ [ch]).length = decimals.length + 1 := by rw [List.length_append, List.length_singleton]
    have hstr : whole ++ 0x2e :: (decimals ++ [ch] ++ rest) = whole ++ 0x2e :: (decimals ++ ch :: rest) := by
      rw [List.append_assoc, List.singleton_append]
    have hlast : (whole ++ 0x2e :: (decimals ++ ch :: rest))[whole.length + decimals.length + 1]? = some ch := by
      rw [List.getElem?_append_right (by omega), Nat.add_assoc, Nat.add_sub_cancel_left, List.getElem?_cons_succ,
        List.getElem?_append_right le_rfl, Nat.sub_self, List.getElem?_cons_zero]
    have hpos : whole.length + decimals.length ≠ 0 := by omega
    rw [hstr, hlength, ← Nat.add_assoc, trimLoop, hlast]
    dsimp only
    by_cases hzero : ch = 0x30
    · rw [if_pos hzero, if_neg hpos]
      by_cases hmore : 2 ≤ decimals.length
      · -- The character two places back is a decimal, too.
        have hin : decimals.length - 2 < decimals.length := by omega
        have hback : (whole ++ 0x2e :: (decimals ++ ch :: rest))[whole.length + decimals.length - 1]? =
            some decimals[decimals.length - 2] := by
          have hindex : whole.length + decimals.length - 1 - whole.length = decimals.length - 2 + 1 := by omega
          rw [List.getElem?_append_right (by omega), hindex, List.getElem?_cons_succ, List.getElem?_append_left hin,
            List.getElem?_eq_getElem hin]
        have hdigit : isDigit decimals[decimals.length - 2] = true :=
          hdigits _ (List.mem_append_left [ch] (List.getElem_mem hin))
        rcases ih (fun c hc => hdigits c (List.mem_append_left [ch] hc)) hmore (ch :: rest) with
          ⟨nTrim, kept, hrun, hkept, hlen⟩
        refine ⟨nTrim + 1, kept, ?_, ?_, hlen⟩
        · rw [hback]
          dsimp only
          rw [if_pos hdigit, hrun, Option.map_some]
        · rw [List.replicate_succ', ← List.append_assoc, ← hkept, hzero]
      · -- The character two places back is the point.
        have hone : decimals.length = 1 := by omega
        have hback : (whole ++ 0x2e :: (decimals ++ ch :: rest))[whole.length + decimals.length - 1]? = some 0x2e := by
          have hindex : whole.length + decimals.length - 1 - whole.length = 0 := by omega
          rw [List.getElem?_append_right (by omega), hindex, List.getElem?_cons_zero]
        refine ⟨0, decimals ++ [ch], ?_, (List.append_nil _).symm, htwo⟩
        rw [hback]
        rfl
    · refine ⟨0, decimals ++ [ch], ?_, (List.append_nil _).symm, htwo⟩
      rw [if_neg hzero]

/-! ## Decimals -/

/-- `nMult` when `k` decimals may follow. -/
def unitsMult (k : Nat) : Int :=
  if k = 0 then 0 else 10 ^ (k - 1)

theorem unitsMult_div (k : Nat) : unitsMult (k + 1) / 10 = unitsMult k := by
  unfold unitsMult
  rw [if_neg (Nat.succ_ne_zero k), Nat.add_sub_cancel]
  split_ifs with hk
  · rw [hk]
    rfl
  · obtain ⟨j, rfl⟩ : ∃ j, k = j + 1 := ⟨k - 1, by omega⟩
    rw [Nat.add_sub_cancel, pow_succ]
    exact Int.mul_ediv_cancel _ (by norm_num)

theorem toInt64_of_lt {n : Nat} (h : n < 2 ^ 63) : toInt64 n = some (n : Int) := by
  rw [toInt64, if_pos]
  omega

theorem parseUnits_cons {ch : UInt8} {nUnits nMult units total : Int} (hch : isDigit ch ∧ nMult > 0)
    (hunits : toInt64 (nMult * digit ch) = some units) (htotal : toInt64 (nUnits + units) = some total) (p : Bytes) :
    parseUnits (ch :: p) nUnits nMult = parseUnits p total (nMult / 10) := by
  rw [parseUnits, if_pos hch, hunits]
  simp only [Option.bind_eq_bind, Option.bind_some, htotal]

/-- The induction is on the text; the units read so far leave room for all decimals that may follow. -/
theorem parseUnits_spec (p : Bytes) :
    ∀ {u k : Nat}, u + 10 ^ k ≤ 100000000 →
      ∃ frac rest, p = frac ++ rest ∧ (∀ ch ∈ frac, isDigit ch = true) ∧ frac.length ≤ k ∧
        (frac.length = k ∨ ∀ ch, rest.head? = some ch → isDigit ch = false) ∧
        parseUnits p u (unitsMult k) = some (((u + Decimal.value frac * 10 ^ (k - frac.length) : Nat) : Int), rest) := by
  induction p with
  | nil =>
    intro u k _
    refine ⟨[], [], rfl, fun _ h => absurd h List.not_mem_nil, Nat.zero_le k, Or.inr (fun _ h => nomatch h), ?_⟩
    rw [parseUnits, Decimal.value, List.foldl_nil, Nat.zero_mul, Nat.add_zero]
  | cons ch p ih =>
    intro u k hroom
    by_cases hch : isDigit ch = true ∧ unitsMult k > 0
    · have hk : k ≠ 0 := by
        rintro rfl
        exact absurd hch.2 (lt_irrefl 0)
      obtain ⟨j, rfl⟩ : ∃ j, k = j + 1 := ⟨k - 1, by omega⟩
      have hdigit := Decimal.digit_lt hch.1
      have hmult : unitsMult (j + 1) = ((10 ^ j : Nat) : Int) := by
        rw [unitsMult, if_neg hk, Nat.add_sub_cancel]
        norm_cast
      have hsum : 10 ^ j * digit ch + 10 ^ j ≤ 10 ^ (j + 1) := by
        calc 10 ^ j * digit ch + 10 ^ j = 10 ^ j * (digit ch + 1) := by ring
          _ ≤ 10 ^ j * 10 := Nat.mul_le_mul_left _ hdigit
          _ = 10 ^ (j + 1) := (pow_succ 10 j).symm
      have hroom' : u + 10 ^ j * digit ch + 10 ^ j ≤ 100000000 := by omega
      have hunits : toInt64 (unitsMult (j + 1) * digit ch) = some ((10 ^ j * digit ch : Nat) : Int) := by
        rw [hmult, ← Nat.cast_mul]
        exact toInt64_of_lt (by omega)
      have htotal : toInt64 ((u : Int) + ((10 ^ j * digit ch : Nat) : Int)) = some ((u + 10 ^ j * digit ch : Nat) : Int) := by
        rw [← Nat.cast_add]
        exact toInt64_of_lt (by omega)
      rcases ih hroom' with ⟨frac, rest, rfl, hfrac, hle, hstop, hrun⟩
      refine ⟨ch :: frac, rest, rfl, fun c hc => ?_, Nat.succ_le_succ hle, hstop.imp (congrArg Nat.succ) id, ?_⟩
      · rcases List.mem_cons.1 hc with rfl | hc
        · exact hch.1
        · exact hfrac c hc
      · have hvalue : u + Decimal.value (ch :: frac) * 10 ^ (j + 1 - (frac.length + 1)) =
            u + 10 ^ j * digit ch + Decimal.value frac * 10 ^ (j - frac.length) := by
          have hpow : 10 ^ frac.length * 10 ^ (j - frac.length) = 10 ^ j := by rw [← pow_add, Nat.add_sub_cancel' hle]
          rw [Decimal.value_cons, Nat.add_sub_add_right, Nat.add_mul, Nat.mul_assoc, hpow]
          ring
        rw [parseUnits_cons hch hunits htotal, unitsMult_div, List.length_cons, hvalue, hrun]
    · refine ⟨[], ch :: p, rfl, fun _ h => absurd h List.not_mem_nil, Nat.zero_le k, ?_, ?_⟩
      · by_cases hk : k = 0
        · exact Or.inl hk.symm
        · refine Or.inr fun c hc => ?_
          cases hc
          have hpos : unitsMult k > 0 := by
            rw [unitsMult, if_neg hk]
            positivity
          exact Bool.eq_false_iff.2 fun hdigit => hch ⟨hdigit, hpos⟩
      · rw [parseUnits, if_neg hch, Decimal.value, List.foldl_nil, Nat.zero_mul, Nat.add_zero]

/-! ## The text -/

/-- White space, digits, perhaps a point with decimals, white space. -/
structure MoneyShape (psz whole frac : Bytes) : Prop where
  parts : ∃ front back tail, psz = front ++ (whole ++ (back ++ tail)) ∧ (back = [] ∧ frac = [] ∨ back = 0x2e :: frac) ∧
    (∀ ch ∈ front, isSpace ch = true) ∧ ∀ ch ∈ tail, isSpace ch = true
  whole : ∀ ch ∈ whole, isDigit ch = true
  frac : ∀ ch ∈ frac, isDigit ch = true

/-- The value of the text in base units. -/
def moneyValue (whole frac : Bytes) : Nat :=
  Decimal.value whole * 100000000 + Decimal.value frac * 10 ^ (8 - frac.length)

theorem parseNumber_digits {whole : Bytes} (hwhole : ∀ ch ∈ whole, isDigit ch = true) (rest strWhole : Bytes) :
    parseNumber (whole ++ rest) strWhole = parseNumber rest (strWhole ++ whole) := by
  induction whole generalizing strWhole with
  | nil => rw [List.nil_append, List.append_nil]
  | cons ch whole ih =>
    have hch := hwhole ch List.mem_cons_self
    rcases not_of_isDigit hch with ⟨hspace, -, -, -, hpoint, -⟩
    rw [List.cons_append, parseNumber, if_neg hpoint, if_neg (by rw [hspace]; exact Bool.false_ne_true), if_pos hch,
      ih fun c hc => hwhole c (List.mem_cons_of_mem ch hc), List.append_assoc, List.singleton_append]

/-- The decimals after the point. -/
theorem parseNumber_point (p strWhole : Bytes) :
    ∃ frac rest, p = frac ++ rest ∧ (∀ ch ∈ frac, isDigit ch = true) ∧ frac.length ≤ 8 ∧
      (frac.length = 8 ∨ ∀ ch, rest.head? = some ch → isDigit ch = false) ∧
      parseNumber (0x2e :: p) strWhole =
        some (some (strWhole, ((Decimal.value frac * 10 ^ (8 - frac.length) : Nat) : Int), rest)) := by
  have hstart : 0 + 10 ^ 8 ≤ 100000000 := by norm_num
  rcases parseUnits_spec p hstart with ⟨frac, rest, hp, hfrac, hle, hstop, hrun⟩
  have hmult : unitsMult 8 = 1000000 * 10 := by norm_num [unitsMult]
  refine ⟨frac, rest, hp, hfrac, hle, hstop, ?_⟩
  rw [hmult, Nat.zero_add] at hrun
  rw [parseNumber, if_pos rfl]
  exact congrArg (Option.map fun r : Int × Bytes => some (strWhole, r.1, r.2)) hrun

theorem atoi64_digits {whole : Bytes} (hwhole : ∀ ch ∈ whole, isDigit ch = true) (hten : whole.length ≤ 10) :
    atoi64 whole = Decimal.value whole ∧ Decimal.value whole < 10 ^ 10 := by
  have hlt : Decimal.value whole < 10 ^ 10 :=
    (Decimal.value_lt hwhole).trans_le (Nat.pow_le_pow_right (by norm_num) hten)
  refine ⟨?_, hlt⟩
  have hzero : (0 : UInt8) ∉ whole := fun hin => (not_of_isDigit (hwhole 0 hin)).2.1 rfl
  rw [atoi64, cStr_of_not_mem hzero]
  cases hw : whole with
  | nil => rfl
  | cons ch whole' =>
    have hne : whole ≠ [] := hw ▸ List.cons_ne_nil ch whole'
    have hread : strtol (whole ++ []) = ⟨Decimal.value whole, [], false⟩ :=
      strtol_digits hne hwhole (fun _ h => nomatch h) (hlt.trans (by norm_num))
    rw [List.append_nil] at hread
    rw [← hw, hread]

theorem value_decimals_lt {frac : Bytes} (hfrac : ∀ ch ∈ frac, isDigit ch = true) (hle : frac.length ≤ 8) :
    Decimal.value frac * 10 ^ (8 - frac.length) < 10 ^ 8 := by
  calc Decimal.value frac * 10 ^ (8 - frac.length)
      < 10 ^ frac.length * 10 ^ (8 - frac.length) :=
        Nat.mul_lt_mul_of_pos_right (Decimal.value_lt hfrac) (Nat.pow_pos (by norm_num))
    _ = 10 ^ 8 := by rw [← pow_add, Nat.add_sub_cancel' hle]

/-- What is done with the parts of the text. -/
theorem parseMoney_parts {psz whole rest : Bytes} {units : Nat} (hwhole : ∀ ch ∈ whole, isDigit ch = true)
    (hunits : units < 10 ^ 8)
    (hnumber : parseNumber (psz.dropWhile isSpace) [] = some (some (whole, (units : Int), rest))) :
    parseMoney psz =
      if rest.all isSpace = false then some none
      else if whole.length > 10 then some none
      else some (some ((Decimal.value whole * 100000000 + units : Nat) : Int)) := by
  have hrange : ¬((units : Int) < 0 ∨ (units : Int) > coin) := by
    rw [coin]
    omega
  unfold parseMoney
  rw [hnumber]
  dsimp only
  rw [if_neg hrange]
  split_ifs with hspace hlong
  · rfl
  · rfl
  · rcases atoi64_digits hwhole (Nat.le_of_not_gt hlong) with ⟨hatoi, hlt⟩
    have hscale : atoi64 whole * coin = ((Decimal.value whole * 100000000 : Nat) : Int) := by
      rw [hatoi, Nat.cast_mul]
      rfl
    have hwholeFits : toInt64 (atoi64 whole * coin) = some ((Decimal.value whole * 100000000 : Nat) : Int) := by
      rw [hscale]
      exact toInt64_of_lt (by omega)
    have hfits : toInt64 (((Decimal.value whole * 100000000 : Nat) : Int) + (units : Int)) =
        some ((Decimal.value whole * 100000000 + units : Nat) : Int) := by
      rw [← Nat.cast_add]
      exact toInt64_of_lt (by omega)
    exact Option.bind_eq_some_iff.2 ⟨_, hwholeFits, Option.bind_eq_some_iff.2 ⟨_, hfits, rfl⟩⟩

/-- A text is rejected, or it has the shape and its value is returned; no operation overflows. -/
theorem parseMoney_cases (psz : Bytes) :
    parseMoney psz = some none ∨
      ∃ whole frac, MoneyShape psz whole frac ∧ whole.length ≤ 10 ∧ frac.length ≤ 8 ∧
        parseMoney psz = some (some (moneyValue whole frac : Int)) := by
  generalize hfront : psz.takeWhile isSpace = front
  generalize hp : psz.dropWhile isSpace = p
  have hpsz : psz = front ++ p := by rw [← hfront, ← hp, List.takeWhile_append_dropWhile]
  have hspaces : ∀ ch ∈ front, isSpace ch = true := fun ch hch => List.mem_takeWhile_imp (hfront ▸ hch)
  generalize hwholeEq : p.takeWhile isDigit = whole
  generalize hq : p.dropWhile isDigit = q
  have hpEq : p = whole ++ q := by rw [← hwholeEq, ← hq, List.takeWhile_append_dropWhile]
  have hwhole : ∀ ch ∈ whole, isDigit ch = true := fun ch hch => List.mem_takeWhile_imp (hwholeEq ▸ hch)
  have hnumber : parseNumber (psz.dropWhile isSpace) [] = parseNumber q whole := by
    rw [hp, hpEq, parseNumber_digits hwhole, List.nil_append]
  -- All that is left to do once the parts are known.
  have hfinish : ∀ (frac : Bytes) {back rest : Bytes}, (back = [] ∧ frac = [] ∨ back = 0x2e :: frac) → q = back ++ rest →
      (∀ ch ∈ frac, isDigit ch = true) → frac.length ≤ 8 →
      parseNumber q whole = some (some (whole, ((Decimal.value frac * 10 ^ (8 - frac.length) : Nat) : Int), rest)) →
      parseMoney psz = some none ∨
        ∃ whole frac, MoneyShape psz whole frac ∧ whole.length ≤ 10 ∧ frac.length ≤ 8 ∧
          parseMoney psz = some (some (moneyValue whole frac : Int)) := by
    intro frac back rest hback hrest hfrac hle hrun
    have hparts := parseMoney_parts hwhole (value_decimals_lt hfrac hle) (hnumber.trans hrun)
    split_ifs at hparts with hspace hlong
    · exact Or.inl hparts
    · exact Or.inl hparts
    · have htail : ∀ ch ∈ rest, isSpace ch = true := List.all_eq_true.1 (Bool.eq_true_of_not_eq_false hspace)
      refine Or.inr ⟨whole, frac, ⟨⟨front, back, rest, ?_, hback, hspaces, htail⟩, hwhole, hfrac⟩,
        Nat.le_of_not_gt hlong, hle, hparts⟩
      rw [← hrest, ← hpEq, ← hpsz]
  cases hqEq : q with
  | nil =>
    refine hfinish [] (Or.inl ⟨rfl, rfl⟩) hqEq (fun _ h => absurd h List.not_mem_nil) (Nat.zero_le 8) ?_
    rw [hqEq]
    rfl
  | cons ch q' =>
    by_cases hpoint : ch = 0x2e
    · rcases parseNumber_point q' whole with ⟨frac, rest, rfl, hfrac, hle, -, hrun⟩
      refine hfinish frac (Or.inr rfl) (by rw [hqEq, hpoint, List.cons_append]) hfrac hle ?_
      rw [hqEq, hpoint, hrun]
    · by_cases hspace : isSpace ch = true
      · refine hfinish [] (Or.inl ⟨rfl, rfl⟩) hqEq (fun _ h => absurd h List.not_mem_nil) (Nat.zero_le 8) ?_
        rw [hqEq, parseNumber, if_neg hpoint, if_pos hspace]
        rfl
      · have hdigit : ¬isDigit ch = true := by
          have hhead := List.head?_dropWhile_not isDigit p
          rw [hq, hqEq, List.head?_cons] at hhead
          simpa using hhead
        left
        rw [hqEq, parseNumber, if_neg hpoint, if_neg hspace, if_neg hdigit] at hnumber
        rw [parseMoney, hnumber]

/-! ## The round trip -/

theorem parseMoney_text {whole frac : Bytes} (hwhole : ∀ ch ∈ whole, isDigit ch = true)
    (hfrac : ∀ ch ∈ frac, isDigit ch = true) (hle : frac.length ≤ 8) :
    parseMoney (whole ++ 0x2e :: frac) =
      if whole.length > 10 then some none else some (some (moneyValue whole frac : Int)) := by
  have hskip : (whole ++ 0x2e :: frac).dropWhile isSpace = whole ++ 0x2e :: frac := by
    refine dropWhile_of_head fun ch hch => ?_
    cases hw : whole with
    | nil =>
      rw [hw] at hch
      cases hch
      rfl
    | cons c whole' =>
      rw [hw] at hch
      cases hch
      exact (not_of_isDigit (hwhole ch (hw ▸ List.mem_cons_self))).1
  rcases parseNumber_point frac whole with ⟨frac', rest, hsplit, hfrac', -, hstop, hrun⟩
  have hrest : rest = [] := by
    rcases hstop with hfull | hstop
    · have hlength := congrArg List.length hsplit
      rw [List.length_append] at hlength
      exact List.eq_nil_of_length_eq_zero (by omega)
    · cases hr : rest with
      | nil => rfl
      | cons ch rest' =>
        have hdigit := hfrac ch (hsplit ▸ List.mem_append_right frac' (hr ▸ List.mem_cons_self))
        rw [hstop ch (by rw [hr, List.head?_cons])] at hdigit
        cases hdigit
  have hnumber : parseNumber ((whole ++ 0x2e :: frac).dropWhile isSpace) [] =
      some (some (whole, ((Decimal.value frac * 10 ^ (8 - frac.length) : Nat) : Int), [])) := by
    rw [hrest, List.append_nil] at hsplit
    rw [hskip, parseNumber_digits hwhole, List.nil_append, hrun, hrest, hsplit]
  rw [parseMoney_parts hwhole (value_decimals_lt hfrac hle) hnumber, if_neg (by decide), moneyValue]

/-- The text of an amount: the coins, a point, and at least two decimals. -/
theorem formatMoney_spec {n : CAmount} (hmin : n.toInt ≠ -2 ^ 63) (fPlus : Bool) :
    ∃ nTrim kept, Decimal.pad 8 (n.toInt.natAbs % 100000000) = kept ++ List.replicate nTrim 0x30 ∧ 2 ≤ kept.length ∧
      formatMoney n fPlus = some ((if n.toInt < 0 then [0x2d] else if fPlus && n.toInt > 0 then [0x2b] else []) ++
        (Decimal.print (n.toInt.natAbs / 100000000) ++ 0x2e :: kept)) := by
  generalize hwhole : Decimal.print (n.toInt.natAbs / 100000000) = whole
  generalize hdecimals : Decimal.pad 8 (n.toInt.natAbs % 100000000) = decimals
  have hlt : n.toInt.natAbs % 100000000 < 10 ^ 8 := Nat.mod_lt _ (by norm_num)
  have height : decimals.length = 8 := hdecimals ▸ Decimal.length_pad (by norm_num) hlt
  have hdigits : ∀ ch ∈ decimals, isDigit ch = true := hdecimals ▸ Decimal.isDigit_of_mem_pad
  rcases trimLoop_spec whole hdigits (by omega) [] with ⟨nTrim, kept, hrun, hkept, htwo⟩
  rw [List.append_nil] at hrun
  have hlast : (whole ++ 0x2e :: decimals).length - 1 = whole.length + decimals.length := by
    rw [List.length_append, List.length_cons]
    omega
  have htake : (whole ++ 0x2e :: decimals).take ((whole ++ 0x2e :: decimals).length - nTrim) = whole ++ 0x2e :: kept := by
    have hall : whole ++ 0x2e :: decimals = (whole ++ 0x2e :: kept) ++ List.replicate nTrim 0x30 := by
      rw [hkept, List.append_assoc, List.cons_append]
    have hlength : ((whole ++ 0x2e :: kept) ++ List.replicate nTrim 0x30).length =
        (whole ++ 0x2e :: kept).length + nTrim := by rw [List.length_append, List.length_replicate]
    rw [hall, hlength, Nat.add_sub_cancel]
    exact List.take_left
  refine ⟨nTrim, kept, hkept, htwo, ?_⟩
  unfold formatMoney
  rw [if_neg hmin]
  dsimp only
  rw [hwhole, hdecimals, hlast, hrun, Option.map_some, htake]
  congr 1
  split_ifs <;> rfl

theorem formatMoney_value {n : CAmount} (hrange : moneyRange n.toInt) :
    ∃ kept, (∀ ch ∈ kept, isDigit ch = true) ∧ kept.length ≤ 8 ∧
      formatMoney n false = some (Decimal.print (n.toInt.natAbs / 100000000) ++ 0x2e :: kept) ∧
      moneyValue (Decimal.print (n.toInt.natAbs / 100000000)) kept = n.toInt.natAbs := by
  have hnonneg := hrange.1
  rcases formatMoney_spec (n := n) (by omega) false with ⟨nTrim, kept, hpad, -, hformat⟩
  have hlt : n.toInt.natAbs % 100000000 < 10 ^ 8 := Nat.mod_lt _ (by norm_num)
  have hlength : kept.length + nTrim = 8 := by
    rw [← Decimal.length_pad (by norm_num) hlt, hpad, List.length_append, List.length_replicate]
  refine ⟨kept, fun ch hch => ?_, by omega, ?_, ?_⟩
  · exact Decimal.isDigit_of_mem_pad ch (hpad ▸ List.mem_append_left _ hch)
  · rw [hformat, if_neg (by omega), Bool.false_and, if_neg Bool.false_ne_true, List.nil_append]
  · -- The zeros that are trimmed are what the decimals are scaled by.
    have hdecimals : Decimal.value kept * 10 ^ (8 - kept.length) = n.toInt.natAbs % 100000000 := by
      have hzeros : 8 - kept.length = nTrim := by omega
      rw [← Decimal.value_pad 8 (n.toInt.natAbs % 100000000), hpad, Decimal.value_append, Decimal.value_zeros,
        List.length_replicate, Nat.add_zero, hzeros]
    rw [moneyValue, Decimal.value_print, hdecimals]
    exact Nat.div_add_mod' _ _

theorem parseMoney_formatMoney_iff {n : CAmount} (hrange : moneyRange n.toInt) :
    (∃ str, formatMoney n false = some str ∧ parseMoneyStr str = some (some n.toInt)) ↔ n.toInt ≠ maxMoney := by
  rcases formatMoney_value hrange with ⟨kept, hkept, hle, hformat, hvalue⟩
  generalize hwholeEq : Decimal.print (n.toInt.natAbs / 100000000) = whole at hformat hvalue
  have hwhole : ∀ ch ∈ whole, isDigit ch = true := hwholeEq ▸ Decimal.isDigit_of_mem_print
  have hcstr : cStr (whole ++ 0x2e :: kept) = whole ++ 0x2e :: kept := by
    refine cStr_of_not_mem fun hin => ?_
    rcases List.mem_append.1 hin with hin | hin
    · exact (not_of_isDigit (hwhole 0 hin)).2.1 rfl
    · rcases List.mem_cons.1 hin with hpoint | hin
      · cases hpoint
      · exact (not_of_isDigit (hkept 0 hin)).2.1 rfl
  have hparse := parseMoney_text hwhole hkept hle
  have hten : whole.length ≤ 10 ↔ n.toInt.natAbs / 100000000 < 10 ^ 10 := by
    rw [← hwholeEq]
    exact Decimal.length_print_le (by norm_num)
  have hnonneg := hrange.1
  have hmax := hrange.2
  rw [maxMoney, coin] at hmax ⊢
  constructor
  · rintro ⟨str, hstr, hback⟩ hequal
    rw [hformat] at hstr
    obtain rfl := Option.some.inj hstr
    have hlong : whole.length > 10 := by
      rw [gt_iff_lt, ← not_le, hten]
      omega
    rw [parseMoneyStr, hcstr, hparse, if_pos hlong] at hback
    cases hback
  · intro hne
    refine ⟨_, hformat, ?_⟩
    have hshort : ¬whole.length > 10 := by
      rw [gt_iff_lt, not_lt, hten]
      omega
    rw [parseMoneyStr, hcstr, hparse, if_neg hshort, hvalue]
    have habs : (n.toInt.natAbs : Int) = n.toInt := by omega
    rw [habs]

/-- The returned value is the exact value of the text. -/
theorem parseMoney_exact {psz : Bytes} {nRet : Int} (h : parseMoney psz = some (some nRet)) :
    ∃ whole frac, MoneyShape psz whole frac ∧
      nRet * 10 ^ frac.length = Decimal.value (whole ++ frac) * 10 ^ 8 := by
  rcases parseMoney_cases psz with hnone | ⟨whole, frac, hshape, -, hle, hrun⟩
  · rw [hnone] at h
    cases h
  · rw [hrun] at h
    have hvalue : nRet = (moneyValue whole frac : Int) := (Option.some.inj (Option.some.inj h)).symm
    refine ⟨whole, frac, hshape, ?_⟩
    have hpow : 10 ^ (8 - frac.length) * 10 ^ frac.length = 10 ^ 8 := by rw [← pow_add, Nat.sub_add_cancel hle]
    have hexact : moneyValue whole frac * 10 ^ frac.length = Decimal.value (whole ++ frac) * 10 ^ 8 := by
      calc moneyValue whole frac * 10 ^ frac.length
          = Decimal.value whole * 10 ^ frac.length * 10 ^ 8 +
              Decimal.value frac * (10 ^ (8 - frac.length) * 10 ^ frac.length) := by
            rw [moneyValue]
            ring
        _ = Decimal.value (whole ++ frac) * 10 ^ 8 := by
            rw [hpow, Decimal.value_append]
            ring
    rw [hvalue]
    exact_mod_cast hexact

/-- What is formatted is read back for all amounts but the maximum; what is accepted is read exactly, and nothing
overflows; the trimming loop stays inside the string. -/
theorem moneyText_exact (n : CAmount) (fPlus : Bool) (str : Bytes) :
    (moneyRange n.toInt →
      ((∃ text, formatMoney n false = some text ∧ parseMoneyStr text = some (some n.toInt)) ↔ n.toInt ≠ maxMoney)) ∧
    (parseMoneyStr str ≠ none ∧ ∀ nRet, parseMoneyStr str = some (some nRet) →
      ∃ whole frac, MoneyShape (cStr str) whole frac ∧
        nRet * 10 ^ frac.length = Decimal.value (whole ++ frac) * 10 ^ 8) ∧
    (n.toInt ≠ -2 ^ 63 → formatMoney n fPlus ≠ none) := by
  refine ⟨fun hrange => parseMoney_formatMoney_iff hrange, ⟨fun hnone => ?_, fun nRet h => parseMoney_exact h⟩,
    fun hmin hnone => ?_⟩
  · rcases parseMoney_cases (cStr str) with hfalse | ⟨whole, frac, -, -, -, hrun⟩
    · cases hfalse.symm.trans hnone
    · cases hrun.symm.trans hnone
  · rcases formatMoney_spec hmin fPlus with ⟨nTrim, kept, -, -, hformat⟩
    cases hformat.symm.trans hnone

theorem moneyText_exact_ten :
    (∃ text, formatMoney 10 false = some text ∧ parseMoneyStr text = some (some (10 : CAmount).toInt)) ↔
      (10 : CAmount).toInt ≠ maxMoney :=
  (moneyText_exact 10 false []).1 (by decide)

/-- The maximum has eleven digits before the point. -/
theorem maxMoney_not_parsed :
    moneyRange (1000000000000000000 : CAmount).toInt ∧
      ∃ str, formatMoney 1000000000000000000 false = some str ∧ parseMoneyStr str = some none := by
  refine ⟨by decide, [0x31, 0x30, 0x30, 0x30, 0x30, 0x30, 0x30, 0x30, 0x30, 0x30, 0x30, 0x2e, 0x30, 0x30], ?_, ?_⟩
  · decide
  · decide

end Dobbscoin
