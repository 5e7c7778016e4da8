import Dobbscoin.Primitives.Base58
import Dobbscoin.Wallet.CWallet

/-!
# The text of a wallet dump

`EncodeDumpString` and `DecodeDumpString` of `rpcdump.cpp`, and private keys and addresses as Base58Check text.
-/

namespace Dobbscoin

/-- A literal of the source. -/
def ascii (s : String) : Bytes :=
  s.toList.map fun c => UInt8.ofNat c.toNat

/-! ## Labels -/

def hexmap (n : UInt8) : UInt8 :=
  (ascii "0123456789abcdef").getD n.toNat 0

/-- `HexStr`. -/
def hexStr (bs : Bytes) : Bytes :=
  bs.flatMap fun (val : UInt8) => [hexmap (val >>> 4), hexmap (val &&& 15)]

/-- A character that `EncodeDumpString` escapes. -/
def escaped (c : UInt8) : Bool :=
  c ≤ 32 || c ≥ 128 || c = 0x25

def encodeDumpString (str : Bytes) : Bytes :=
  str.flatMap fun c => if escaped c then 0x25 :: hexStr [c] else [c]

/-- `(ch>>6)*9+((ch-'0')&15)`, in an `int`; a `char` has a sign. -/
def hexValue (ch : UInt8) : BitVec 32 :=
  let x := ch.toBitVec.signExtend 32
  x.sshiftRight 6 * 9 + ((x - 0x30) &&& 15)

def hexByte (hi lo : UInt8) : UInt8 :=
  ⟨((hexValue hi <<< 4) ||| hexValue lo).setWidth 8⟩

/-- The loop of `DecodeDumpString`, with an `unsigned int` for the position; `none` when it goes on. -/
def decodeLoop (str : Bytes) : Nat → UInt32 → Option Bytes
  | 0, _ => none
  | fuel + 1, pos =>
    if pos.toNat < str.length then
      let c := str.getD pos.toNat 0
      if c = 0x25 ∧ (pos + 2).toNat < str.length then
        (decodeLoop str fuel (pos + 2 + 1)).map
          (hexByte (str.getD (pos + 1).toNat 0) (str.getD (pos + 2).toNat 0) :: ·)
      else (decodeLoop str fuel (pos + 1)).map (c :: ·)
    else some []

/-- A round that does not wrap moves the position forward. -/
def decodeDumpString (str : Bytes) : Option Bytes :=
  decodeLoop str (str.length + 1) 0

/-! ## Base58Check -/

/-- What the dump calls: the functions of the key store and of EC keys, the prefixes of the chain, dates as text, and the
strings of the build. -/
structure DumpEnv where
  crypto : WalletCrypto
  /-- `Hash` gives a `uint256`. -/
  hash_length : ∀ bs, (crypto.hash bs).length = 32
  /-- `CKey::Check`. -/
  check : Bytes → Bool
  /-- `CKey::VerifyPubKey`. -/
  verifyPubKey : CKey → CPubKey → Bool
  verify_own : ∀ key : CKey, check key.vch = true → verifyPubKey key (crypto.getPubKey key.vch key.fCompressed) = true
  secretKey : UInt8
  pubKeyAddress : UInt8
  /-- `DateTimeStrFormat` with `%Y-%m-%dT%H:%M:%SZ`; it throws when there is no such date. -/
  encodeDumpTime : Int → Option Bytes
  decodeDumpTime : Bytes → Int
  time_text : ∀ nTime str, encodeDumpTime nTime = some str → 0x20 ∉ str ∧ 0x0a ∉ str
  clientBuild : Bytes
  clientDate : Bytes
  build_text : 0x0a ∉ clientBuild ∧ 0x0a ∉ clientDate

namespace DumpEnv

variable (E : DumpEnv)

/-- `EncodeBase58Check`; `none` when an assertion fails. -/
def encodeBase58Check (vchIn : Bytes) : Option Bytes :=
  encodeBase58 (vchIn ++ (E.crypto.hash vchIn).take 4)

/-- `DecodeBase58Check`; `some none` when it returns false. -/
def decodeBase58Check (str : Bytes) : Option (Option Bytes) :=
  match decodeBase58Str str with
  | none => none
  | some none => some none
  | some (some vchRet) =>
    if vchRet.length < 4 then some none
    else
      let data := vchRet.take (vchRet.length - 4)
      if (E.crypto.hash data).take 4 ≠ vchRet.drop (vchRet.length - 4) then some none else some (some data)

/-- `CDobbscoinSecret(key).ToString()`; `SetKey` asserts that the key is valid. -/
def secretToString (key : CKey) : Option Bytes :=
  if key.vch.length = 32 ∧ E.check key.vch = true then
    E.encodeBase58Check (E.secretKey :: (key.vch ++ if key.fCompressed then [1] else []))
  else none

/-- `CDobbscoinSecret::SetString`: `vchData`, or `some none` when it returns false. -/
def secretSetString (str : Bytes) : Option (Option Bytes) :=
  match E.decodeBase58Check str with
  | none => none
  | some none => some none
  | some (some vchTemp) =>
    if vchTemp.length < 1 then some none
    else
      let vchData := vchTemp.drop 1
      let fExpectedFormat := vchData.length = 32 ∨ (vchData.length = 33 ∧ vchData.getD 32 0 = 1)
      if fExpectedFormat ∧ vchTemp.take 1 = [E.secretKey] then some (some vchData) else some none

/-- `CDobbscoinSecret::GetKey`; `none` when the key is not valid, which `GetPubKey` asserts. -/
def secretGetKey (vchData : Bytes) : Option CKey :=
  if E.check (vchData.take 32) = true then
    some ⟨vchData.take 32, decide (vchData.length > 32 ∧ vchData.getD 32 0 = 1)⟩
  else none

/-- `CDobbscoinAddress(keyid).ToString()`. -/
def addressToString (keyid : CKeyID) : Option Bytes :=
  E.encodeBase58Check (E.pubKeyAddress :: ByteCodec.leBytes 20 keyid.toNat)

end DumpEnv

/-! ## What is escaped comes back -/

theorem hexByte_digits : ∀ hi < 16, ∀ lo < 16,
    hexByte (hexmap (UInt8.ofNat hi)) (hexmap (UInt8.ofNat lo)) = UInt8.ofNat (16 * hi + lo) := by
  decide

theorem toNat_high (c : UInt8) : (c >>> 4).toNat = c.toNat / 16 := by
  rw [UInt8.toNat_shiftRight, Nat.shiftRight_eq_div_pow]
  rfl

theorem toNat_low (c : UInt8) : (c &&& 15).toNat = c.toNat % 16 := by
  have hmask : (15 : UInt8).toNat = 2 ^ 4 - 1 := rfl
  rw [UInt8.toNat_and, hmask, Nat.and_two_pow_sub_one_eq_mod]

/-- The two digits of a byte are read as that byte. -/
theorem hexByte_hexmap (c : UInt8) : hexByte (hexmap (c >>> 4)) (hexmap (c &&& 15)) = c := by
  have hlt := c.toNat_lt
  have hhi : c >>> 4 = UInt8.ofNat (c.toNat / 16) := by
    rw [← toNat_high, UInt8.ofNat_toNat]
  have hlo : c &&& 15 = UInt8.ofNat (c.toNat % 16) := by
    rw [← toNat_low, UInt8.ofNat_toNat]
  have hsum : 16 * (c.toNat / 16) + c.toNat % 16 = c.toNat := Nat.div_add_mod _ _
  rw [hhi, hlo, hexByte_digits _ (by omega) _ (by omega), hsum, UInt8.ofNat_toNat]

theorem hexmap_bounds : ∀ n < 16, 32 < hexmap (UInt8.ofNat n) ∧ hexmap (UInt8.ofNat n) < 128 := by
  decide

theorem hexmap_low (c : UInt8) : (32 : UInt8) < hexmap (c &&& 15) ∧ hexmap (c &&& 15) < 128 := by
  have hbounds := hexmap_bounds (c &&& 15).toNat (by rw [toNat_low]; omega)
  rwa [UInt8.ofNat_toNat] at hbounds

theorem hexmap_high (c : UInt8) : (32 : UInt8) < hexmap (c >>> 4) ∧ hexmap (c >>> 4) < 128 := by
  have hlt := c.toNat_lt
  have hbounds := hexmap_bounds (c >>> 4).toNat (by rw [toNat_high]; omega)
  rwa [UInt8.ofNat_toNat] at hbounds

theorem encodeDumpString_cons (c : UInt8) (str : Bytes) :
    encodeDumpString (c :: str) =
      (if escaped c then [0x25, hexmap (c >>> 4), hexmap (c &&& 15)] else [c]) ++ encodeDumpString str := by
  rw [encodeDumpString, List.flatMap_cons]
  rfl

/-- The encoded text has neither blanks nor control characters, and is ASCII. -/
theorem encodeDumpString_chars (str : Bytes) : ∀ ch ∈ encodeDumpString str, 32 < ch ∧ ch < 128 := by
  intro ch hch
  rw [encodeDumpString, List.mem_flatMap] at hch
  rcases hch with ⟨c, -, hch⟩
  split at hch
  · rw [List.mem_cons] at hch
    rcases hch with rfl | hch
    · decide
    · rw [hexStr, List.flatMap_singleton, List.mem_pair] at hch
      rcases hch with rfl | rfl
      · exact hexmap_high c
      · exact hexmap_low c
  · next hplain =>
    rw [List.mem_singleton] at hch
    rw [escaped, Bool.or_eq_true, Bool.or_eq_true, not_or, not_or, decide_eq_true_iff, decide_eq_true_iff] at hplain
    rw [hch]
    exact ⟨UInt8.not_le.1 hplain.1.1, UInt8.not_le.1 hplain.1.2⟩

theorem not_escaped_percent {c : UInt8} (h : escaped c = false) : c ≠ 0x25 := by
  rintro rfl
  exact absurd h (by decide)

/-- From the position of an encoded rest on, the loop reads the rest. -/
theorem decodeLoop_encode {str : Bytes} (hlength : str.length < 2 ^ 32) (rest : Bytes) {pos : UInt32} {fuel : Nat}
    (hpos : pos.toNat ≤ str.length) (hrest : str.drop pos.toNat = encodeDumpString rest)
    (hfuel : str.length < pos.toNat + fuel) : decodeLoop str fuel pos = some rest := by
  have hleft : str.length = pos.toNat + (encodeDumpString rest).length := by
    rw [← hrest, List.length_drop]
    omega
  have hat : ∀ k ch, (encodeDumpString rest)[k]? = some ch → str.getD (pos.toNat + k) 0 = ch := fun k ch hch => by
    rw [List.getD_eq_getElem?_getD, ← List.getElem?_drop, hrest, hch, Option.getD_some]
  have hadd : ∀ k : UInt32, pos.toNat + k.toNat ≤ str.length → (pos + k).toNat = pos.toNat + k.toNat := fun k hk => by
    rw [UInt32.toNat_add]
    exact Nat.mod_eq_of_lt (lt_of_le_of_lt hk hlength)
  have hone : (1 : UInt32).toNat = 1 := rfl
  have htwo : (2 : UInt32).toNat = 2 := rfl
  have hthree : (3 : UInt32).toNat = 3 := rfl
  cases fuel with
  | zero => omega
  | succ fuel =>
    rw [decodeLoop]
    cases rest with
    | nil =>
      rw [if_neg (by rw [hleft]; exact Nat.lt_irrefl _)]
    | cons c rest =>
      rw [encodeDumpString_cons] at hleft hat hrest
      have hsteps : pos + 2 + 1 = pos + 3 := UInt32.add_assoc _ _ _
      rw [hsteps]
      by_cases hc : escaped c = true
      · -- A percent sign and two digits.
        rw [if_pos hc] at hleft hat hrest
        rw [List.length_append, List.length_cons, List.length_cons, List.length_singleton] at hleft
        have hnext : str.drop (pos + 3).toNat = encodeDumpString rest := by
          rw [hadd 3 (by omega), hthree, ← List.drop_drop, hrest]
          rfl
        rw [if_pos (by omega)]
        dsimp only
        have hfirst : str.getD pos.toNat 0 = 0x25 := hat 0 _ rfl
        have hhigh : str.getD (pos + 1).toNat 0 = hexmap (c >>> 4) := by
          rw [hadd 1 (by omega)]
          exact hat 1 _ rfl
        have hlow : str.getD (pos + 2).toNat 0 = hexmap (c &&& 15) := by
          rw [hadd 2 (by omega)]
          exact hat 2 _ rfl
        rw [if_pos ⟨hfirst, by rw [hadd 2 (by omega)]; omega⟩, hhigh, hlow, hexByte_hexmap,
          decodeLoop_encode hlength rest (by rw [hadd 3 (by omega)]; omega) hnext (by rw [hadd 3 (by omega)]; omega),
          Option.map_some]
      · rw [if_neg hc] at hleft hat hrest
        rw [List.length_append, List.length_singleton] at hleft
        have hnext : str.drop (pos + 1).toNat = encodeDumpString rest := by
          rw [hadd 1 (by omega), hone, ← List.drop_drop, hrest]
          rfl
        have hfirst : str.getD pos.toNat 0 = c := hat 0 _ rfl
        have hplain : c ≠ 0x25 := not_escaped_percent (Bool.not_eq_true _ ▸ hc)
        rw [if_pos (by omega)]
        dsimp only
        rw [hfirst, if_neg (fun hand => hplain hand.1),
          decodeLoop_encode hlength rest (by rw [hadd 1 (by omega)]; omega) hnext (by rw [hadd 1 (by omega)]; omega),
          Option.map_some]
termination_by fuel

/-- The position of a string of `2 ^ 32` bytes or more never gets behind its end. -/
theorem decodeLoop_long {str : Bytes} (hlength : 2 ^ 32 ≤ str.length) (fuel : Nat) (pos : UInt32) :
    decodeLoop str fuel pos = none := by
  induction fuel generalizing pos with
  | zero => rfl
  | succ fuel ih =>
    rw [decodeLoop, if_pos (lt_of_lt_of_le pos.toNat_lt hlength)]
    dsimp only
    split
    · rw [ih, Option.map_none]
    · rw [ih, Option.map_none]

theorem length_le_encodeDumpString (str : Bytes) : str.length ≤ (encodeDumpString str).length := by
  induction str with
  | nil => exact Nat.le_refl 0
  | cons c str ih =>
    rw [encodeDumpString_cons, List.length_append, List.length_cons, Nat.add_comm]
    refine Nat.add_le_add ?_ ih
    split
    · exact Nat.le_add_left 1 2
    · exact Nat.le_refl 1

theorem decode_encodeDumpString_iff (str : Bytes) :
    decodeDumpString (encodeDumpString str) = some str ↔ (encodeDumpString str).length < 2 ^ 32 := by
  constructor
  · intro h
    by_contra hlong
    rw [decodeDumpString, decodeLoop_long (Nat.le_of_not_lt hlong)] at h
    cases h
  · intro hlength
    apply decodeLoop_encode hlength str (Nat.zero_le _) rfl
    rw [UInt32.toNat_zero]
    omega

/-! ## Keys as text -/

/-- A word of the dump: not empty, without blanks and line breaks, and not a comment. -/
structure IsWord (str : Bytes) : Prop where
  ne : str ≠ []
  blank : 0x20 ∉ str
  line : 0x0a ∉ str
  hash : 0x23 ∉ str

theorem pszBase58_chars : ∀ ch ∈ pszBase58, ch ≠ 0x20 ∧ ch ≠ 0x0a ∧ ch ≠ 0x23 := by
  have hall : pszBase58.all (fun ch => ch != 0x20 && ch != 0x0a && ch != 0x23) = true := by decide
  intro ch hch
  have hthree := List.all_eq_true.1 hall ch hch
  simpa [and_assoc] using hthree

theorem encodeBase58_chars {vch str : Bytes} (hn : (vch.takeWhile (· = 0)).length < 2 ^ 31)
    (h : encodeBase58 vch = some str) : ∀ ch ∈ str, ch ∈ pszBase58 := by
  have hencode := encodeBase58_zeros hn (head_dropWhile 0 vch)
  rw [← split_zeros, h, Option.some_inj] at hencode
  intro ch hch
  rw [hencode, List.mem_append] at hch
  rcases hch with hone | hbody
  · rw [List.eq_of_mem_replicate hone]
    decide
  · exact (charsOf_spec _).1 ch hbody

theorem isWord_encodeBase58 {vch str : Bytes} (hne : vch ≠ []) (hn : (vch.takeWhile (· = 0)).length < 2 ^ 31)
    (h : encodeBase58 vch = some str) : IsWord str := by
  have hchars := encodeBase58_chars hn h
  refine ⟨?_, fun hin => (pszBase58_chars _ (hchars _ hin)).1 rfl, fun hin => (pszBase58_chars _ (hchars _ hin)).2.1 rfl,
    fun hin => (pszBase58_chars _ (hchars _ hin)).2.2 rfl⟩
  rintro rfl
  rcases decode_encode hn with ⟨str, hstr, hback⟩
  rw [h, Option.some_inj] at hstr
  rw [← hstr] at hback
  have hempty : decodeBase58Str [] = some (some []) := by decide
  rw [hempty, Option.some_inj, Option.some_inj] at hback
  exact hne hback.symm

namespace DumpEnv

variable (E : DumpEnv)

theorem encodeBase58Check_spec {vchIn : Bytes} (hne : vchIn ≠ []) (hlength : vchIn.length < 2 ^ 16) :
    ∃ str, E.encodeBase58Check vchIn = some str ∧ IsWord str ∧ E.decodeBase58Check str = some (some vchIn) := by
  have hcheck : ((E.crypto.hash vchIn).take 4).length = 4 := by
    rw [List.length_take, E.hash_length]
    rfl
  have hshort : ((vchIn ++ (E.crypto.hash vchIn).take 4).takeWhile (· = 0)).length < 2 ^ 31 := by
    have hle := (List.takeWhile_sublist (· = (0 : UInt8)) (l := vchIn ++ (E.crypto.hash vchIn).take 4)).length_le
    rw [List.length_append, hcheck] at hle
    omega
  have hfull : vchIn ++ (E.crypto.hash vchIn).take 4 ≠ [] := fun h => hne (List.append_eq_nil_iff.1 h).1
  rcases decode_encode hshort with ⟨str, hstr, hback⟩
  refine ⟨str, hstr, isWord_encodeBase58 hfull hshort hstr, ?_⟩
  have hdata : (vchIn ++ (E.crypto.hash vchIn).take 4).length - 4 = vchIn.length := by
    rw [List.length_append, hcheck, Nat.add_sub_cancel]
  rw [decodeBase58Check, hback]
  dsimp only
  rw [hdata, List.take_left, List.drop_left, if_neg (by rw [List.length_append, hcheck]; omega),
    if_neg (not_not.2 rfl)]

/-- The byte behind the secret says whether the public key is compressed. -/
theorem compressed_flag {vch : Bytes} (hlength : vch.length = 32) (fCompressed : Bool) :
    let vchData := vch ++ if fCompressed then [1] else []
    (vchData.length = 32 ∨ (vchData.length = 33 ∧ vchData.getD 32 0 = 1)) ∧
      decide (vchData.length > 32 ∧ vchData.getD 32 0 = 1) = fCompressed := by
  cases fCompressed with
  | false =>
    have hplain : (vch ++ if false = true then [(1 : UInt8)] else []).length = 32 := by
      rw [if_neg Bool.false_ne_true, List.append_nil, hlength]
    exact ⟨Or.inl hplain, decide_eq_false fun hlong => absurd hplain (Nat.ne_of_gt hlong.1)⟩
  | true =>
    have hlong : (vch ++ if true = true then [(1 : UInt8)] else []).length = 33 := by
      rw [if_pos rfl, List.length_append, hlength, List.length_singleton]
    have hflag : (vch ++ if true = true then [(1 : UInt8)] else []).getD 32 0 = 1 := by
      rw [if_pos rfl, List.getD_eq_getElem?_getD, List.getElem?_append_right (Nat.le_of_eq hlength), hlength]
      rfl
    exact ⟨Or.inr ⟨hlong, hflag⟩, decide_eq_true ⟨by rw [hlong]; decide, hflag⟩⟩

/-- The text of a valid key is a word, and gives the key back. -/
theorem secretToString_spec {key : CKey} (hlength : key.vch.length = 32) (hcheck : E.check key.vch = true) :
    ∃ str vchData, E.secretToString key = some str ∧ IsWord str ∧ E.secretSetString str = some (some vchData) ∧
      E.secretGetKey vchData = some key := by
  have hdata : (key.vch ++ if key.fCompressed then [1] else []).length < 40 := by
    rw [List.length_append, hlength]
    split <;> decide
  rcases encodeBase58Check_spec E (List.cons_ne_nil E.secretKey (key.vch ++ if key.fCompressed then [1] else []))
    (by rw [List.length_cons]; omega) with ⟨str, hstr, hword, hback⟩
  have hflag := compressed_flag hlength key.fCompressed
  have hfront : (key.vch ++ if key.fCompressed then [1] else []).take 32 = key.vch := List.take_left' hlength
  refine ⟨str, key.vch ++ if key.fCompressed then [1] else [], ?_, hword, ?_, ?_⟩
  · rw [secretToString, if_pos ⟨hlength, hcheck⟩]
    exact hstr
  · rw [secretSetString, hback]
    dsimp only
    rw [if_neg (by rw [List.length_cons]; omega), if_pos]
    · rfl
    · exact ⟨hflag.1, rfl⟩
  · rw [secretGetKey, hfront, if_pos hcheck, hflag.2]

theorem addressToString_spec (keyid : CKeyID) : ∃ str, E.addressToString keyid = some str ∧ IsWord str := by
  rcases encodeBase58Check_spec E (List.cons_ne_nil E.pubKeyAddress (ByteCodec.leBytes 20 keyid.toNat))
    (by rw [List.length_cons, ByteCodec.leBytes_length]; decide) with ⟨str, hstr, hword, -⟩
  exact ⟨str, hstr, hword⟩

end DumpEnv

end Dobbscoin
