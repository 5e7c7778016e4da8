import Dobbscoin.Primitives.CString

/-!
# Base58

`EncodeBase58` and `DecodeBase58` of `base58.cpp`.  The buffers are given from the back to the front, as the loops go
through them.
-/

namespace Dobbscoin

open Limbs

/-! ## Strings -/

/-- Surrounding white space is removed. -/
def trim (str : Bytes) : Bytes :=
  (str.dropWhile isSpace).rdropWhile isSpace

def pszBase58 : Bytes :=
  ['1', '2', '3', '4', '5', '6', '7', '8', '9', 'A', 'B', 'C', 'D', 'E', 'F', 'G', 'H', 'J', 'K', 'L', 'M', 'N', 'P', 'Q',
    'R', 'S', 'T', 'U', 'V', 'W', 'X', 'Y', 'Z', 'a', 'b', 'c', 'd', 'e', 'f', 'g', 'h', 'i', 'j', 'k', 'm', 'n', 'o', 'p',
    'q', 'r', 's', 't', 'u', 'v', 'w', 'x', 'y', 'z'].map fun c => UInt8.ofNat c.toNat

/-- The characters at the front that are `ch` are counted in an `int`; beyond its range the loop is undefined. -/
def countLeading (ch : UInt8) : Nat → Bytes → Option (Nat × Bytes)
  | zeroes, [] => some (zeroes, [])
  | zeroes, c :: rest =>
    if c = ch then
      if zeroes + 1 < 2 ^ 31 then countLeading ch (zeroes + 1) rest else none
    else some (zeroes, c :: rest)

/-! ## EncodeBase58 -/

/-- The loop over the bytes; `none` when `assert(carry == 0)` fails. -/
def encodeBytes : Bytes → List Nat → Option (List Nat)
  | [], b58 => some b58
  | byte :: rest, b58 =>
    let r := mulAdd 58 256 byte.toNat b58
    if r.2 = 0 then encodeBytes rest r.1 else none

def encodeBuffer (bytes : Bytes) : List Nat :=
  List.replicate (bytes.length * 138 / 100 + 1) 0

def encodeBase58 (vch : Bytes) : Option Bytes := do
  let (zeroes, bytes) ← countLeading 0 0 vch
  let b58 ← encodeBytes bytes (encodeBuffer bytes)
  return List.replicate zeroes 0x31 ++ (b58.reverse.dropWhile (· = 0)).map fun d => pszBase58.getD d 0

/-! ## DecodeBase58 -/

/-- The loop over the characters: what is left of the string and the buffer; `none` when `assert(carry == 0)` fails, and
`some none` when a character is not one of the alphabet. -/
def decodeChars : Bytes → List Nat → Option (Option (Bytes × List Nat))
  | [], b256 => some (some ([], b256))
  | ch :: psz, b256 =>
    if isSpace ch then some (some (ch :: psz, b256))
    else if ch ∈ pszBase58 then
      let r := mulAdd 256 58 (pszBase58.idxOf ch) b256
      if r.2 = 0 then decodeChars psz r.1 else none
    else some none

def decodeBuffer (psz : Bytes) : List Nat :=
  List.replicate (psz.length * 733 / 1000 + 1) 0

/-- `DecodeBase58` of a C string; `some none` when it returns false. -/
def decodeBase58 (psz : Bytes) : Option (Option Bytes) :=
  match countLeading 0x31 0 (psz.dropWhile isSpace) with
  | none => none
  | some (zeroes, psz) =>
    match decodeChars psz (decodeBuffer psz) with
    | none => none
    | some none => some none
    | some (some (psz, b256)) =>
      if psz.dropWhile isSpace ≠ [] then some none
      else some (some (List.replicate zeroes 0 ++ (b256.reverse.dropWhile (· = 0)).map UInt8.ofNat))

/-- `DecodeBase58` of a string. -/
def decodeBase58Str (str : Bytes) : Option (Option Bytes) :=
  decodeBase58 (cStr str)

/-! ## The count at the front -/

theorem countLeading_eq (ch : UInt8) (str : Bytes) (n : Nat) (hn : n < 2 ^ 31) :
    countLeading ch n str =
      if n + (str.takeWhile (· = ch)).length < 2 ^ 31 then
        some (n + (str.takeWhile (· = ch)).length, str.dropWhile (· = ch))
      else none := by
  induction str generalizing n with
  | nil => exact (if_pos hn).symm
  | cons c str ih =>
    by_cases hc : c = ch
    · have htake : ((c :: str).takeWhile (· = ch)).length = (str.takeWhile (· = ch)).length + 1 := by simp [hc]
      have hdrop : (c :: str).dropWhile (· = ch) = str.dropWhile (· = ch) := by simp [hc]
      rw [countLeading, if_pos hc, htake, hdrop]
      by_cases hnext : n + 1 < 2 ^ 31
      · rw [if_pos hnext, ih (n + 1) hnext, Nat.add_right_comm, Nat.add_assoc]
      · rw [if_neg hnext, if_neg (by omega)]
    · have htake : (c :: str).takeWhile (· = ch) = [] := by simp [hc]
      have hdrop : (c :: str).dropWhile (· = ch) = c :: str := by simp [hc]
      rw [countLeading, if_neg hc, htake, hdrop, List.length_nil, Nat.add_zero, if_pos hn]

theorem countLeading_zero (ch : UInt8) (str : Bytes) :
    countLeading ch 0 str =
      if (str.takeWhile (· = ch)).length < 2 ^ 31 then
        some ((str.takeWhile (· = ch)).length, str.dropWhile (· = ch))
      else none := by
  rw [countLeading_eq ch str 0 (by decide), Nat.zero_add]

/-- The characters at the front are known when the next one is another. -/
theorem countLeading_replicate {ch : UInt8} {n : Nat} {str : Bytes} (hn : n < 2 ^ 31) (hstr : str.head? ≠ some ch) :
    countLeading ch 0 (List.replicate n ch ++ str) = some (n, str) := by
  have hfront : ∀ c ∈ List.replicate n ch, decide (c = ch) = true := fun c hc =>
    decide_eq_true (List.eq_of_mem_replicate hc)
  have htake : str.takeWhile (· = ch) = [] := by
    cases str with
    | nil => rfl
    | cons c str =>
      have hc : c ≠ ch := fun heq => hstr (by rw [heq, List.head?_cons])
      exact List.takeWhile_cons_of_neg (by simpa using hc)
  have hdrop : str.dropWhile (· = ch) = str := by
    have hparts := List.takeWhile_append_dropWhile (p := fun c => decide (c = ch)) (l := str)
    rwa [htake, List.nil_append] at hparts
  rw [countLeading_zero, List.takeWhile_append_of_pos hfront, List.dropWhile_append_of_pos hfront, htake, hdrop,
    List.append_nil, List.length_replicate, if_pos hn]

/-! ## The alphabet -/

theorem pszBase58_getD : ∀ d < 58, pszBase58.getD d 0 ∈ pszBase58 ∧ pszBase58.idxOf (pszBase58.getD d 0) = d := by
  decide

set_option maxRecDepth 4000 in
theorem pszBase58_idxOf :
    ∀ ch ∈ pszBase58, pszBase58.idxOf ch < 58 ∧ pszBase58.getD (pszBase58.idxOf ch) 0 = ch ∧ isSpace ch = false ∧
      ch ≠ 0 := by
  decide

/-! ## The loops -/

/-- The number that bytes stand for, the highest one first. -/
def bytesValue (bytes : Bytes) : Nat :=
  Nat.ofDigits 256 (bytes.map UInt8.toNat).reverse

/-- The number that characters stand for. -/
def charsValue (chars : Bytes) : Nat :=
  Nat.ofDigits 58 (chars.map pszBase58.idxOf).reverse

theorem encodeBytes_eq_feed (bytes : Bytes) (b58 : List Nat) :
    encodeBytes bytes b58 = feed 58 256 (bytes.map UInt8.toNat) b58 := by
  induction bytes generalizing b58 with
  | nil => rfl
  | cons byte rest ih =>
    rw [encodeBytes, List.map_cons, feed, ih]

/-- White space, or the end, comes after the characters of the alphabet. -/
theorem decodeChars_eq_feed {body tail : Bytes} (hbody : ∀ ch ∈ body, ch ∈ pszBase58)
    (htail : ∀ ch, tail.head? = some ch → isSpace ch = true) (b256 : List Nat) :
    decodeChars (body ++ tail) b256 =
      (feed 256 58 (body.map pszBase58.idxOf) b256).map fun b256 => some (tail, b256) := by
  induction body generalizing b256 with
  | nil =>
    cases tail with
    | nil => rfl
    | cons ch tail => exact if_pos (htail ch rfl)
  | cons ch body ih =>
    have hch := hbody ch List.mem_cons_self
    have hspace : ¬isSpace ch = true := by rw [(pszBase58_idxOf ch hch).2.2.1]; exact Bool.false_ne_true
    rw [List.cons_append, decodeChars, if_neg hspace, if_pos hch, List.map_cons, feed]
    dsimp only
    rw [ih fun c hc => hbody c (List.mem_cons_of_mem ch hc)]
    split_ifs
    · rfl
    · rfl

/-- What is accepted has characters of the alphabet only, and then white space or nothing. -/
theorem decodeChars_body {psz rest : Bytes} {b256 b256' : List Nat}
    (h : decodeChars psz b256 = some (some (rest, b256'))) :
    ∃ body, psz = body ++ rest ∧ (∀ ch ∈ body, ch ∈ pszBase58) ∧ ∀ ch, rest.head? = some ch → isSpace ch = true := by
  induction psz generalizing b256 with
  | nil =>
    cases h
    exact ⟨[], rfl, fun _ h => absurd h List.not_mem_nil, fun _ h => nomatch h⟩
  | cons ch psz ih =>
    rw [decodeChars] at h
    split_ifs at h with hspace hin
    · cases h
      refine ⟨[], rfl, fun _ h => absurd h List.not_mem_nil, fun c hc => ?_⟩
      cases hc
      exact hspace
    · dsimp only at h
      split_ifs at h with hcarry
      rcases ih h with ⟨body, rfl, hbody, hrest⟩
      refine ⟨ch :: body, rfl, fun c hc => ?_, hrest⟩
      rcases List.mem_cons.1 hc with rfl | hc
      · exact hin
      · exact hbody c hc
    · cases h

theorem replicate_value (B n : Nat) : Nat.ofDigits B (List.replicate n 0) = 0 := by
  have h := ofDigits_append_zeros (B := B) [] n
  rwa [List.nil_append, Nat.ofDigits_nil] at h

/-- A buffer of zeros that is long enough takes all of the digits. -/
theorem feed_zeros {B M n : Nat} (hB : 0 < B) {cs : List Nat} (hcs : ∀ c ∈ cs, c < M)
    (hroom : M ^ cs.length ≤ B ^ n) :
    ∃ ds, feed B M cs (List.replicate n 0) = some ds ∧ (∀ d ∈ ds, d < B) ∧
      Nat.ofDigits B ds = Nat.ofDigits M cs.reverse := by
  have hzeros : ∀ d ∈ List.replicate n 0, d < B := fun d hd => List.eq_of_mem_replicate hd ▸ hB
  have hstart : (Nat.ofDigits B (List.replicate n 0) + 1) * M ^ cs.length ≤ B ^ (List.replicate n 0).length := by
    rw [replicate_value, Nat.zero_add, Nat.one_mul, List.length_replicate]
    exact hroom
  rcases feed_spec hB hcs hzeros hstart with ⟨ds, hrun, hds, hvalue⟩
  refine ⟨ds, hrun, hds, ?_⟩
  rw [hvalue, replicate_value, Nat.zero_mul, Nat.zero_add]

/-- `log(256) / log(58)` is at most `138 / 100`. -/
theorem pow_256_le (n : Nat) : 256 ^ n ≤ 58 ^ (n * 138 / 100 + 1) :=
  pow_le_pow_of_ratio (by norm_num) (by norm_num) (by norm_num) rfl

/-- `log(58) / log(256)` is at most `52 / 71`, which is at most `733 / 1000`. -/
theorem pow_58_le (n : Nat) : 58 ^ n ≤ 256 ^ (n * 733 / 1000 + 1) := by
  have hratio : n * 52 / 71 ≤ n * 733 / 1000 := by omega
  calc 58 ^ n ≤ 256 ^ (n * 52 / 71 + 1) := pow_le_pow_of_ratio (by norm_num) (by norm_num) (by norm_num) rfl
    _ ≤ 256 ^ (n * 733 / 1000 + 1) := Nat.pow_le_pow_right (by norm_num) (Nat.succ_le_succ hratio)

/-! ## The buffers -/

/-- `assert(carry == 0)` does not fail in `EncodeBase58`, and the digits are those of the number. -/
theorem encodeBytes_spec (bytes : Bytes) :
    ∃ b58, encodeBytes bytes (encodeBuffer bytes) = some b58 ∧
      b58.reverse.dropWhile (· = 0) = (Nat.digits 58 (bytesValue bytes)).reverse := by
  have hbytes : ∀ c ∈ bytes.map UInt8.toNat, c < 256 := by
    intro c hc
    rcases List.mem_map.1 hc with ⟨byte, -, rfl⟩
    exact byte.toNat_lt
  have hroom : 256 ^ (bytes.map UInt8.toNat).length ≤ 58 ^ (bytes.length * 138 / 100 + 1) := by
    rw [List.length_map]
    exact pow_256_le bytes.length
  rcases feed_zeros (by norm_num) hbytes hroom with ⟨b58, hrun, hb58, hvalue⟩
  refine ⟨b58, (encodeBytes_eq_feed bytes _).trans hrun, ?_⟩
  rw [dropWhile_reverse (by norm_num) hb58, hvalue]
  rfl

/-- `assert(carry == 0)` does not fail in `DecodeBase58`, whatever the characters are. -/
theorem decodeChars_ne_none (psz : Bytes) : ∀ {b256 : List Nat},
    (Nat.ofDigits 256 b256 + 1) * 58 ^ psz.length ≤ 256 ^ b256.length → decodeChars psz b256 ≠ none := by
  induction psz with
  | nil => exact fun _ h => nomatch h
  | cons ch psz ih =>
    intro b256 hroom
    rw [decodeChars]
    split_ifs with hspace hin
    · exact fun h => nomatch h
    · have hdigit := (pszBase58_idxOf ch hin).1
      -- One step of the loop, as in the run over digits alone.
      have hnext : pszBase58.idxOf ch + 58 * Nat.ofDigits 256 b256 + 1 ≤ 58 * (Nat.ofDigits 256 b256 + 1) := by omega
      have hroom' : (pszBase58.idxOf ch + 58 * Nat.ofDigits 256 b256 + 1) * 58 ^ psz.length ≤ 256 ^ b256.length := by
        calc (pszBase58.idxOf ch + 58 * Nat.ofDigits 256 b256 + 1) * 58 ^ psz.length
            ≤ 58 * (Nat.ofDigits 256 b256 + 1) * 58 ^ psz.length := Nat.mul_le_mul_right _ hnext
          _ = (Nat.ofDigits 256 b256 + 1) * 58 ^ (psz.length + 1) := by ring
          _ ≤ 256 ^ b256.length := hroom
      have hpos : 0 < 58 ^ psz.length := Nat.pow_pos (by norm_num)
      have hlt : pszBase58.idxOf ch + 58 * Nat.ofDigits 256 b256 < 256 ^ b256.length :=
        (Nat.le_mul_of_pos_right _ hpos).trans hroom'
      rcases mulAdd_of_lt (by norm_num) hlt with ⟨hcarry, hvalue⟩
      dsimp only
      rw [if_pos hcarry]
      refine ih ?_
      rw [hvalue, length_mulAdd]
      exact hroom'
    · exact fun h => nomatch h

theorem decodeBuffer_ne_none (psz : Bytes) : decodeChars psz (decodeBuffer psz) ≠ none := by
  refine decodeChars_ne_none psz ?_
  rw [decodeBuffer, replicate_value, Nat.zero_add, Nat.one_mul, List.length_replicate]
  exact pow_58_le psz.length

theorem decodeChars_spec {body tail : Bytes} (hbody : ∀ ch ∈ body, ch ∈ pszBase58)
    (htail : ∀ ch, tail.head? = some ch → isSpace ch = true) :
    ∃ b256, decodeChars (body ++ tail) (decodeBuffer (body ++ tail)) = some (some (tail, b256)) ∧
      b256.reverse.dropWhile (· = 0) = (Nat.digits 256 (charsValue body)).reverse := by
  have hchars : ∀ c ∈ body.map pszBase58.idxOf, c < 58 := by
    intro c hc
    rcases List.mem_map.1 hc with ⟨ch, hch, rfl⟩
    exact (pszBase58_idxOf ch (hbody ch hch)).1
  have hroom : 58 ^ (body.map pszBase58.idxOf).length ≤ 256 ^ ((body ++ tail).length * 733 / 1000 + 1) := by
    have hlength : body.length ≤ (body ++ tail).length := by
      rw [List.length_append]
      exact Nat.le_add_right _ _
    rw [List.length_map]
    exact (Nat.pow_le_pow_right (by norm_num) hlength).trans (pow_58_le _)
  rcases feed_zeros (by norm_num) hchars hroom with ⟨b256, hrun, hb256, hvalue⟩
  refine ⟨b256, ?_, ?_⟩
  · rw [decodeChars_eq_feed hbody htail, decodeBuffer, hrun, Option.map_some]
  · rw [dropWhile_reverse (by norm_num) hb256, hvalue]
    rfl

/-! ## Digits and characters -/

theorem head_digits {B n : Nat} : ∀ d, (Nat.digits B n).reverse.head? = some d → d ≠ 0 := by
  intro d hd
  rw [List.head?_reverse] at hd
  have hne : Nat.digits B n ≠ [] := by
    intro hnil
    rw [hnil] at hd
    cases hd
  have hn : n ≠ 0 := by
    rintro rfl
    exact hne (Nat.digits_zero B)
  rw [List.getLast?_eq_some_getLast hne] at hd
  rw [← Option.some.inj hd]
  exact Nat.getLast_digit_ne_zero B hn

/-- A list of digits that does not start with zero is the one of its number. -/
theorem digits_of_head {B : Nat} (hB : 1 < B) {ds : List Nat} (hds : ∀ d ∈ ds, d < B) (hhead : ds.head? ≠ some 0) :
    (Nat.digits B (Nat.ofDigits B ds.reverse)).reverse = ds := by
  rw [Nat.digits_ofDigits B hB ds.reverse fun d hd => hds d (List.mem_reverse.1 hd), List.reverse_reverse]
  intro hne hzero
  refine hhead ?_
  rw [← List.getLast?_reverse, List.getLast?_eq_some_getLast hne, hzero]

/-- The characters of a number. -/
def charsOf (n : Nat) : Bytes :=
  (Nat.digits 58 n).reverse.map fun d => pszBase58.getD d 0

/-- The bytes of a number. -/
def bytesOf (n : Nat) : Bytes :=
  (Nat.digits 256 n).reverse.map UInt8.ofNat

theorem idxOf_one {ch : UInt8} (hch : ch ∈ pszBase58) : pszBase58.idxOf ch = 0 ↔ ch = 0x31 := by
  constructor
  · intro hzero
    have hchar := (pszBase58_idxOf ch hch).2.1
    rw [hzero] at hchar
    exact hchar.symm
  · rintro rfl
    rfl

theorem charsOf_charsValue {body : Bytes} (hbody : ∀ ch ∈ body, ch ∈ pszBase58) (hhead : body.head? ≠ some 0x31) :
    charsOf (charsValue body) = body := by
  have hdigits : ∀ d ∈ body.map pszBase58.idxOf, d < 58 := by
    intro d hd
    rcases List.mem_map.1 hd with ⟨ch, hch, rfl⟩
    exact (pszBase58_idxOf ch (hbody ch hch)).1
  have hfirst : (body.map pszBase58.idxOf).head? ≠ some 0 := by
    rw [List.head?_map]
    intro hzero
    rcases Option.map_eq_some_iff.1 hzero with ⟨ch, hch, hidx⟩
    have hone := (idxOf_one (hbody ch (List.mem_of_head? hch))).1 hidx
    exact hhead (hone ▸ hch)
  rw [charsOf, charsValue, digits_of_head (by norm_num) hdigits hfirst, List.map_map]
  calc body.map ((fun d => pszBase58.getD d 0) ∘ pszBase58.idxOf)
      = body.map id := List.map_congr_left fun ch hch => (pszBase58_idxOf ch (hbody ch hch)).2.1
    _ = body := List.map_id body

theorem bytesOf_bytesValue {bytes : Bytes} (hhead : bytes.head? ≠ some 0) : bytesOf (bytesValue bytes) = bytes := by
  have hdigits : ∀ d ∈ bytes.map UInt8.toNat, d < 256 := by
    intro d hd
    rcases List.mem_map.1 hd with ⟨byte, -, rfl⟩
    exact byte.toNat_lt
  have hfirst : (bytes.map UInt8.toNat).head? ≠ some 0 := by
    rw [List.head?_map]
    intro hzero
    rcases Option.map_eq_some_iff.1 hzero with ⟨byte, hbyte, hnat⟩
    exact hhead (hbyte.trans (congrArg some (UInt8.toNat_inj.1 hnat)))
  rw [bytesOf, bytesValue, digits_of_head (by norm_num) hdigits hfirst, List.map_map]
  calc bytes.map (UInt8.ofNat ∘ UInt8.toNat)
      = bytes.map id := List.map_congr_left fun byte _ => UInt8.ofNat_toNat
    _ = bytes := List.map_id bytes

theorem charsOf_spec (n : Nat) :
    (∀ ch ∈ charsOf n, ch ∈ pszBase58) ∧ (charsOf n).head? ≠ some 0x31 ∧ charsValue (charsOf n) = n := by
  have hlt : ∀ d ∈ (Nat.digits 58 n).reverse, d < 58 := fun d hd =>
    Nat.digits_lt_base (by norm_num) (List.mem_reverse.1 hd)
  refine ⟨fun ch hch => ?_, fun hone => ?_, ?_⟩
  · rcases List.mem_map.1 hch with ⟨d, hd, rfl⟩
    exact (pszBase58_getD d (hlt d hd)).1
  · rw [charsOf, List.head?_map] at hone
    rcases Option.map_eq_some_iff.1 hone with ⟨d, hd, hchar⟩
    have hidx := (pszBase58_getD d (hlt d (List.mem_of_head? hd))).2
    rw [hchar] at hidx
    exact head_digits d hd hidx.symm
  · rw [charsValue, charsOf, List.map_map]
    have hsame : (Nat.digits 58 n).reverse.map (pszBase58.idxOf ∘ fun d => pszBase58.getD d 0) =
        (Nat.digits 58 n).reverse := by
      calc (Nat.digits 58 n).reverse.map (pszBase58.idxOf ∘ fun d => pszBase58.getD d 0)
          = (Nat.digits 58 n).reverse.map id := List.map_congr_left fun d hd => (pszBase58_getD d (hlt d hd)).2
        _ = (Nat.digits 58 n).reverse := List.map_id _
    rw [hsame, List.reverse_reverse, Nat.ofDigits_digits]

theorem bytesOf_spec (n : Nat) : (bytesOf n).head? ≠ some 0 ∧ bytesValue (bytesOf n) = n := by
  have hnat : ∀ d ∈ (Nat.digits 256 n).reverse, (UInt8.ofNat d).toNat = d := by
    intro d hd
    have hlt : d < 256 := Nat.digits_lt_base (by norm_num) (List.mem_reverse.1 hd)
    rw [UInt8.toNat_ofNat']
    exact Nat.mod_eq_of_lt hlt
  refine ⟨fun hzero => ?_, ?_⟩
  · rw [bytesOf, List.head?_map] at hzero
    rcases Option.map_eq_some_iff.1 hzero with ⟨d, hd, hbyte⟩
    have hd' := hnat d (List.mem_of_head? hd)
    rw [hbyte] at hd'
    exact head_digits d hd hd'.symm
  · rw [bytesValue, bytesOf, List.map_map]
    have hsame : (Nat.digits 256 n).reverse.map (UInt8.toNat ∘ UInt8.ofNat) = (Nat.digits 256 n).reverse := by
      calc (Nat.digits 256 n).reverse.map (UInt8.toNat ∘ UInt8.ofNat)
          = (Nat.digits 256 n).reverse.map id := List.map_congr_left hnat
        _ = (Nat.digits 256 n).reverse := List.map_id _
    rw [hsame, List.reverse_reverse, Nat.ofDigits_digits]

/-! ## Both ways -/

theorem encodeBase58_zeros {n : Nat} (hn : n < 2 ^ 31) {bytes : Bytes} (hhead : bytes.head? ≠ some 0) :
    encodeBase58 (List.replicate n 0 ++ bytes) = some (List.replicate n 0x31 ++ charsOf (bytesValue bytes)) := by
  rcases encodeBytes_spec bytes with ⟨b58, hrun, hdigits⟩
  simp only [encodeBase58, countLeading_replicate hn hhead, hrun, Option.bind_eq_bind, Option.bind_some, Option.pure_def,
    hdigits, charsOf]

/-- A string that is accepted: white space, some `1`, characters of the alphabet, white space. -/
structure Shape (psz : Bytes) (n : Nat) (body : Bytes) : Prop where
  parts : ∃ front tail, psz = front ++ (List.replicate n 0x31 ++ (body ++ tail)) ∧
    (∀ ch ∈ front, isSpace ch = true) ∧ ∀ ch ∈ tail, isSpace ch = true
  chars : ∀ ch ∈ body, ch ∈ pszBase58
  head : body.head? ≠ some 0x31

theorem isSpace_lead {n : Nat} {body : Bytes} (hbody : ∀ ch ∈ body, ch ∈ pszBase58) :
    ∀ ch ∈ List.replicate n 0x31 ++ body, isSpace ch = false := by
  intro ch hch
  rcases List.mem_append.1 hch with hone | hin
  · rw [List.eq_of_mem_replicate hone]
    rfl
  · exact (pszBase58_idxOf ch (hbody ch hin)).2.2.1

/-- The spaces at the front are skipped; when there is nothing else, those at the end are, too. -/
theorem Shape.skip {psz body : Bytes} {n : Nat} (h : Shape psz n body) :
    ∃ tail, psz.dropWhile isSpace = List.replicate n 0x31 ++ (body ++ tail) ∧ ∀ ch ∈ tail, isSpace ch = true := by
  rcases h.parts with ⟨front, tail, rfl, hfront, htail⟩
  rw [List.dropWhile_append_of_pos hfront, ← List.append_assoc]
  cases hlead : List.replicate n 0x31 ++ body with
  | nil =>
    refine ⟨[], ?_, fun _ h => absurd h List.not_mem_nil⟩
    rw [List.nil_append, ← List.append_assoc, hlead]
    exact List.dropWhile_eq_nil_iff.2 htail
  | cons ch lead =>
    refine ⟨tail, ?_, htail⟩
    rw [← List.append_assoc, hlead]
    refine dropWhile_of_head fun c hc => ?_
    cases hc
    exact isSpace_lead h.chars ch (hlead ▸ List.mem_cons_self)

theorem Shape.decode {psz body : Bytes} {n : Nat} (h : Shape psz n body) (hn : n < 2 ^ 31) :
    decodeBase58 psz = some (some (List.replicate n 0 ++ bytesOf (charsValue body))) := by
  rcases h.skip with ⟨tail, hskip, htail⟩
  have hnext : (body ++ tail).head? ≠ some 0x31 := by
    cases hbody : body with
    | nil =>
      intro hone
      have hspace := htail 0x31 (List.mem_of_head? hone)
      cases hspace
    | cons ch body' =>
      have hhead := h.head
      rw [hbody] at hhead
      exact hhead
  rcases decodeChars_spec h.chars fun ch hch => htail ch (List.mem_of_head? hch) with ⟨b256, hrun, hdigits⟩
  have hend : tail.dropWhile isSpace = [] := List.dropWhile_eq_nil_iff.2 htail
  simp only [decodeBase58, hskip, countLeading_replicate hn hnext, hrun, hend, ne_eq, not_true_eq_false, if_false,
    hdigits, bytesOf]

theorem Shape.trim_eq {psz body : Bytes} {n : Nat} (h : Shape psz n body) : trim psz = List.replicate n 0x31 ++ body := by
  rcases h.skip with ⟨tail, hskip, htail⟩
  rw [trim, hskip, List.rdropWhile, ← List.append_assoc, List.reverse_append,
    List.dropWhile_append_of_pos fun ch hch => htail ch (List.mem_reverse.1 hch), dropWhile_of_head fun ch hch => ?_,
    List.reverse_reverse]
  exact isSpace_lead h.chars ch (List.mem_reverse.1 (List.mem_of_head? hch))

theorem replicate_takeWhile (ch : UInt8) (str : Bytes) :
    List.replicate (str.takeWhile (· = ch)).length ch = str.takeWhile (· = ch) := by
  refine (List.eq_replicate_of_mem fun c hc => ?_).symm
  have hpos := List.mem_takeWhile_imp (p := fun x => decide (x = ch)) hc
  exact of_decide_eq_true hpos

theorem head_dropWhile (ch : UInt8) (str : Bytes) : (str.dropWhile (· = ch)).head? ≠ some ch := by
  induction str with
  | nil => exact fun h => nomatch h
  | cons c str ih =>
    by_cases hc : c = ch
    · have hdrop : (c :: str).dropWhile (· = ch) = str.dropWhile (· = ch) :=
        List.dropWhile_cons_of_pos (by simpa using hc)
      rwa [hdrop]
    · rw [List.dropWhile_cons_of_neg (by simpa using hc), List.head?_cons]
      exact fun h => hc (Option.some.inj h)

theorem shape_of_decode {psz v : Bytes} (h : decodeBase58 psz = some (some v)) :
    ∃ n body, Shape psz n body ∧ n < 2 ^ 31 := by
  unfold decodeBase58 at h
  rw [countLeading_zero] at h
  split_ifs at h with hn
  · dsimp only at h
    generalize hafter : psz.dropWhile isSpace = after at h hn
    have hsplit : psz = psz.takeWhile isSpace ++ (after.takeWhile (· = 0x31) ++ after.dropWhile (· = 0x31)) := by
      rw [List.takeWhile_append_dropWhile, ← hafter, List.takeWhile_append_dropWhile]
    cases hrun : decodeChars (after.dropWhile (· = 0x31)) (decodeBuffer (after.dropWhile (· = 0x31))) with
    | none =>
      rw [hrun] at h
      cases h
    | some result =>
      rw [hrun] at h
      cases result with
      | none => cases h
      | some pair =>
        rcases pair with ⟨rest, b256⟩
        dsimp only at h
        split_ifs at h with hrest
        · cases h
        · rcases decodeChars_body hrun with ⟨body, hbodyeq, hbody, -⟩
          refine ⟨(after.takeWhile (· = 0x31)).length, body, ⟨⟨psz.takeWhile isSpace, rest, ?_, ?_, ?_⟩, hbody, ?_⟩, hn⟩
          · rw [replicate_takeWhile, ← hbodyeq]
            exact hsplit
          · exact fun ch hch => List.mem_takeWhile_imp hch
          · exact List.dropWhile_eq_nil_iff.1 (not_not.1 hrest)
          · intro hone
            refine head_dropWhile 0x31 after ?_
            rw [hbodyeq]
            cases body with
            | nil => cases hone
            | cons ch body' => exact hone

/-! ## The bijection -/

theorem split_zeros (vch : Bytes) :
    vch = List.replicate (vch.takeWhile (· = 0)).length 0 ++ vch.dropWhile (· = 0) := by
  rw [replicate_takeWhile, List.takeWhile_append_dropWhile]

theorem decode_encode {vch : Bytes} (hn : (vch.takeWhile (· = 0)).length < 2 ^ 31) :
    ∃ str, encodeBase58 vch = some str ∧ decodeBase58Str str = some (some vch) := by
  have hhead := head_dropWhile 0 vch
  have hencode := encodeBase58_zeros hn hhead
  rw [← split_zeros] at hencode
  generalize hvalue : bytesValue (vch.dropWhile (· = 0)) = n at hencode
  rcases charsOf_spec n with ⟨hchars, hone, hback⟩
  have hshape : Shape (List.replicate (vch.takeWhile (· = 0)).length 0x31 ++ charsOf n)
      (vch.takeWhile (· = 0)).length (charsOf n) := by
    refine ⟨⟨[], [], ?_, fun _ h => absurd h List.not_mem_nil, fun _ h => absurd h List.not_mem_nil⟩, hchars, hone⟩
    rw [List.nil_append, List.append_nil]
  refine ⟨_, hencode, ?_⟩
  rw [decodeBase58Str, cStr_of_not_mem, hshape.decode hn, hback, ← hvalue, bytesOf_bytesValue hhead, ← split_zeros]
  intro hzero
  rcases List.mem_append.1 hzero with hin | hin
  · cases List.eq_of_mem_replicate hin
  · exact (pszBase58_idxOf 0 (hchars 0 hin)).2.2.2 rfl

theorem encode_decode {str vch : Bytes} (h : decodeBase58Str str = some (some vch)) :
    encodeBase58 vch = some (trim (cStr str)) := by
  rcases shape_of_decode h with ⟨n, body, hshape, hn⟩
  have hvch : vch = List.replicate n 0 ++ bytesOf (charsValue body) :=
    Option.some.inj (Option.some.inj (h.symm.trans (hshape.decode hn)))
  rcases bytesOf_spec (charsValue body) with ⟨hhead, hback⟩
  rw [hvch, encodeBase58_zeros hn hhead, hback, charsOf_charsValue hshape.chars hshape.head, hshape.trim_eq]

/-- Encoding and decoding invert each other, up to the `int` that counts the zeros at the front and to the zero that
ends a C string, and the buffers are large enough for every input. -/
theorem base58_inverse :
    (∀ vch : Bytes, (vch.takeWhile (· = 0)).length < 2 ^ 31 →
      ∃ str, encodeBase58 vch = some str ∧ decodeBase58Str str = some (some vch)) ∧
    (∀ str vch, decodeBase58Str str = some (some vch) → encodeBase58 vch = some (trim (cStr str))) ∧
    (∀ bytes, encodeBytes bytes (encodeBuffer bytes) ≠ none) ∧
    ∀ psz, decodeChars psz (decodeBuffer psz) ≠ none := by
  refine ⟨fun vch hn => decode_encode hn, fun str vch h => encode_decode h, fun bytes hnone => ?_, decodeBuffer_ne_none⟩
  rcases encodeBytes_spec bytes with ⟨b58, hrun, -⟩
  rw [hrun] at hnone
  cases hnone

theorem base58_inverse_two :
    ∃ str, encodeBase58 [0, 57] = some str ∧ decodeBase58Str str = some (some [0, 57]) :=
  base58_inverse.1 [0, 57] (by decide)

/-- A string with a zero in it is accepted for what is before the zero; and a count of `2 ^ 31` is not an `int`. -/
theorem base58_not_inverse :
    (decodeBase58Str [0x31, 0, 0x41] = some (some [0]) ∧ encodeBase58 [0] = some [0x31] ∧
      trim [0x31, 0, 0x41] ≠ [0x31]) ∧
    encodeBase58 (List.replicate (2 ^ 31) 0) = none := by
  refine ⟨⟨by decide, by decide, by decide⟩, ?_⟩
  have hall : (List.replicate (2 ^ 31) (0 : UInt8)).takeWhile (· = 0) = List.replicate (2 ^ 31) 0 :=
    List.takeWhile_eq_self_iff.2 fun ch hch => decide_eq_true (List.eq_of_mem_replicate hch)
  have hcount : countLeading 0 0 (List.replicate (2 ^ 31) 0) = none := by
    rw [countLeading_zero, hall, List.length_replicate, if_neg (Nat.lt_irrefl _)]
  simp only [encodeBase58, hcount, Option.bind_eq_bind, Option.bind_none]

end Dobbscoin
