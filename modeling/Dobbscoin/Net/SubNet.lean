import Dobbscoin.Lib.ByteBits
import Dobbscoin.Net.NetBase

/-!
# Subnets

`CSubNet` of `netbase.cpp`: the text of a subnet, and the addresses that it matches.
-/

namespace Dobbscoin

open ByteBits (lsb msb mirror)

variable {ipv4 : Bool} {a : CNetAddr} {ip : CNetAddr} {netmask : Bytes}

/-! ## Text -/

/-- `find_last_of` for one character. -/
def findLastOf (ch : UInt8) : Bytes → Option Nat
  | [] => none
  | c :: str =>
    match findLastOf ch str with
    | some i => some (i + 1)
    | none => if c = ch then some 0 else none

/-- `ParseInt32`, with the number when it returns true. -/
def parseInt32 (str : Bytes) : Option Int :=
  let r := strtol (cStr str)
  if r.endp = [] ∧ r.errno = false ∧ -2 ^ 31 ≤ r.n ∧ r.n < 2 ^ 31 then some r.n else none

/-! ## CSubNet -/

structure CSubNet where
  network : CNetAddr
  netmask : Bytes
  valid : Bool

/-- The loop that clears the bits from `n` to 127. -/
def clearBits (netmask : Bytes) (n : Nat) : Bytes :=
  (List.range' n (128 - n)).foldl ByteBits.clear netmask

/-- The loop that copies the last `asize` bytes of a mask. -/
def copyMask (netmask : Bytes) (mask : CNetAddr) (asize : Nat) : Bytes :=
  (List.range asize).foldl (fun netmask x => netmask.set (15 - x) (mask.getByte x)) netmask

/-- What the constructor does with the text after the slash. -/
def CSubNet.ofNetmask (getaddrinfo : AddrInfo) (network : CNetAddr) (strNetmask : Bytes) : CSubNet :=
  let netmask : Bytes := List.replicate 16 255
  let noffset : Nat := if network.isIPv4 then 12 * 8 else 0
  match parseInt32 strNetmask with
  | some n =>
    if 0 ≤ n ∧ n ≤ 128 - noffset then ⟨network, clearBits netmask (n.toNat + noffset), true⟩
    else ⟨network, netmask, false⟩
  | none =>
    match lookupHost getaddrinfo (cStr strNetmask) 1 false with
    | [] => ⟨network, netmask, false⟩
    | mask :: _ =>
      let asize := if network.isIPv4 then 4 else 16
      ⟨network, copyMask netmask mask asize, true⟩

def CSubNet.ofText (getaddrinfo : AddrInfo) (strSubnet : Bytes) (fAllowLookup : Bool) : CSubNet :=
  let slash := findLastOf 0x2f strSubnet
  let strAddress := strSubnet.take (slash.getD strSubnet.length)
  match lookupHost getaddrinfo (cStr strAddress) 1 fAllowLookup with
  | [] => ⟨List.replicate 16 0, List.replicate 16 255, false⟩
  | network :: _ =>
    match slash with
    | none => ⟨network, List.replicate 16 255, true⟩
    | some slash => CSubNet.ofNetmask getaddrinfo network (strSubnet.drop (slash + 1))

def CSubNet.isMatch (subnet : CSubNet) (addr : CNetAddr) : Bool :=
  if subnet.valid = false ∨ addr.isValid = false then false
  else
    (List.range 16).all fun x =>
      (addr.getByte x &&& subnet.netmask.getD (15 - x) 0) = subnet.network.getByte x

/-! ## The text of a subnet -/

theorem findLastOf_of_not_mem {ch : UInt8} {str : Bytes} (h : ch ∉ str) : findLastOf ch str = none := by
  induction str with
  | nil => rfl
  | cons c str ih =>
    have hrest : ch ∉ str := fun hmem => h (List.mem_cons_of_mem c hmem)
    rw [findLastOf, ih hrest]
    refine if_neg ?_
    rintro rfl
    exact h List.mem_cons_self

theorem findLastOf_append (ch : UInt8) (str : Bytes) {rest : Bytes} (h : ch ∉ rest) :
    findLastOf ch (str ++ ch :: rest) = some str.length := by
  induction str with
  | nil =>
    rw [List.nil_append, findLastOf, findLastOf_of_not_mem h]
    exact if_pos rfl
  | cons c str ih => rw [List.cons_append, findLastOf, ih, List.length_cons]

/-- The text before the last slash is the address, and the text after it is the netmask. -/
theorem ofText_slash (getaddrinfo : AddrInfo) {text strNetmask : Bytes} {fAllowLookup : Bool}
    (htext : (lookupHost getaddrinfo (cStr text) 1 fAllowLookup).head? = some a) (hslash : (0x2f : UInt8) ∉ strNetmask) :
    CSubNet.ofText getaddrinfo (text ++ 0x2f :: strNetmask) fAllowLookup =
      CSubNet.ofNetmask getaddrinfo a strNetmask := by
  have hdrop : (text ++ 0x2f :: strNetmask).drop (text.length + 1) = strNetmask := by
    rw [← List.drop_drop, List.drop_left]
    rfl
  rcases List.head?_eq_some_iff.1 htext with ⟨others, hfound⟩
  simp only [CSubNet.ofText, findLastOf_append 0x2f text hslash, Option.getD_some, List.take_left, hfound, hdrop]

theorem parseInt32_print {n : Nat} (hn : n < 2 ^ 31) : parseInt32 (Decimal.print n) = some (n : Int) := by
  have hdigits : ∀ ch ∈ Decimal.print n, Decimal.isDigit ch = true := Decimal.isDigit_of_mem_print
  have hstr : cStr (Decimal.print n) = Decimal.print n :=
    cStr_of_not_mem fun h => (not_of_isDigit (hdigits 0 h)).2.1 rfl
  have hfits : Decimal.value (Decimal.print n) < 2 ^ 63 := by
    rw [Decimal.value_print]
    omega
  have hread : strtol (Decimal.print n ++ []) = ⟨Decimal.value (Decimal.print n), [], false⟩ :=
    strtol_digits Decimal.print_ne_nil hdigits (fun ch h => nomatch h) hfits
  rw [List.append_nil, Decimal.value_print] at hread
  have hrange : -2 ^ 31 ≤ (n : Int) ∧ (n : Int) < 2 ^ 31 := by omega
  simp only [parseInt32, hstr, hread, hrange, and_self, if_true]

/-! ## Netmasks -/

theorem clear_length (l : Bytes) (p : Nat) : (ByteBits.clear l p).length = l.length :=
  List.length_modify ..

theorem foldl_clear (ps : List Nat) (hps : ∀ p ∈ ps, p < 8 * netmask.length) (q : Nat) :
    (ps.foldl ByteBits.clear netmask).length = netmask.length ∧
      lsb (ps.foldl ByteBits.clear netmask) q = (lsb netmask q && decide (q ∉ ps)) := by
  induction ps generalizing netmask with
  | nil => simp
  | cons p ps ih =>
    have hp : p < 8 * netmask.length := hps p List.mem_cons_self
    have hrest := @ih (ByteBits.clear netmask p) fun p' hp' => by
      rw [clear_length]
      exact hps p' (List.mem_cons_of_mem p hp')
    refine ⟨hrest.1.trans (clear_length netmask p), ?_⟩
    rw [List.foldl_cons, hrest.2, ByteBits.lsb_clear hp, Bool.and_assoc, ← Bool.decide_and]
    simp only [List.mem_cons, not_or, ne_eq]

/-- The bits that the loop keeps are counted from the lowest bit of each byte. -/
theorem lsb_clearBits (hlength : netmask.length = 16) {n q : Nat} (hq : q < 128) :
    lsb (clearBits netmask n) q = (lsb netmask q && decide (q < n)) := by
  have hps : ∀ p ∈ List.range' n (128 - n), p < 8 * netmask.length := by
    intro p hp
    have hrange := List.mem_range'_1.1 hp
    omega
  have hkept : q ∉ List.range' n (128 - n) ↔ q < n := by
    rw [List.mem_range'_1]
    omega
  rw [clearBits, (foldl_clear _ hps q).2, decide_eq_decide.2 hkept]

theorem clearBits_length (hlength : netmask.length = 16) (n : Nat) :
    (clearBits netmask n).length = 16 := by
  have hps : ∀ p ∈ List.range' n (128 - n), p < 8 * netmask.length := by
    intro p hp
    have hrange := List.mem_range'_1.1 hp
    omega
  rw [clearBits, (foldl_clear _ hps 0).1, hlength]

theorem copyMask_spec (hlength : netmask.length = 16) (mask : CNetAddr) {asize : Nat}
    (hsize : asize ≤ 16) :
    (copyMask netmask mask asize).length = 16 ∧
      ∀ i < 16, (copyMask netmask mask asize).getD i 0 =
        if 16 - asize ≤ i then mask.getD i 0 else netmask.getD i 0 := by
  induction asize with
  | zero =>
    refine ⟨hlength, fun i hi => ?_⟩
    rw [if_neg (by omega)]
    rfl
  | succ x ih =>
    have hprev := ih (by omega)
    have hstep : copyMask netmask mask (x + 1) = (copyMask netmask mask x).set (15 - x) (mask.getByte x) := by
      rw [copyMask, List.range_succ, List.foldl_append]
      rfl
    refine ⟨by rw [hstep, List.length_set, hprev.1], fun i hi => ?_⟩
    rw [hstep, List.getD_eq_getElem?_getD, List.getElem?_set]
    by_cases hplace : 15 - x = i
    · have hcopied : 16 - (x + 1) ≤ i := by omega
      rw [if_pos hplace, if_pos (by omega), if_pos hcopied, ← hplace]
      rfl
    · have hother : 16 - (x + 1) ≤ i ↔ 16 - x ≤ i := by omega
      rw [if_neg hplace, ← List.getD_eq_getElem?_getD, hprev.2 i hi]
      simp only [hother]

/-! ## What matches -/

theorem isMatch_iff {subnet : CSubNet} {addr : CNetAddr} :
    subnet.isMatch addr = true ↔ subnet.valid = true ∧ addr.isValid = true ∧
      ∀ q < 128, (lsb addr q && lsb subnet.netmask q) = lsb subnet.network q := by
  have hbytes : (∀ x < 16, (addr.getByte x &&& subnet.netmask.getD (15 - x) 0) = subnet.network.getByte x) ↔
      ∀ q < 128, (lsb addr q && lsb subnet.netmask q) = lsb subnet.network q := by
    constructor
    · intro h q hq
      have hbyte := h (15 - q / 8) (by omega)
      have hindex : 15 - (15 - q / 8) = q / 8 := by omega
      rw [CNetAddr.getByte, CNetAddr.getByte, hindex] at hbyte
      rw [lsb, lsb, lsb, ← hbyte, UInt8.toBitVec_and, BitVec.getLsbD_and]
    · intro h x hx
      refine ByteBits.byte_ext fun j hj => ?_
      have hbit := h (8 * (15 - x) + j) (by omega)
      have hdiv : (8 * (15 - x) + j) / 8 = 15 - x := by omega
      have hmod : (8 * (15 - x) + j) % 8 = j := by omega
      rw [lsb, lsb, lsb, hdiv, hmod] at hbit
      rw [UInt8.toBitVec_and, BitVec.getLsbD_and]
      exact hbit
  rw [← hbytes, CSubNet.isMatch]
  by_cases hvalid : subnet.valid = false ∨ addr.isValid = false
  · rw [if_pos hvalid]
    rcases hvalid with hvalid | hvalid <;> simp [hvalid]
  · rw [not_or, Bool.not_eq_false, Bool.not_eq_false] at hvalid
    rw [if_neg (by simp [hvalid])]
    simp [hvalid]

/-! ## Families -/

/-- What no valid address of the family starts with. -/
def foreign (ipv4 : Bool) : List Bytes :=
  if ipv4 then [pchIPv4 ++ List.replicate 4 0xff, pchIPv4 ++ List.replicate 4 0]
  else [pchIPv4.drop 3, List.replicate 16 0, [0x20, 0x01, 0x0D, 0xB8], pchIPv4, pchOnionCat]

/-- A valid address of the family. -/
structure InFamily (ipv4 : Bool) (ip : CNetAddr) : Prop where
  length : ip.length = 16
  own : ipv4 = true → pchIPv4 <+: ip
  other : ∀ start ∈ foreign ipv4, ¬start <+: ip

theorem isRFC3849_iff (hlength : ip.length = 16) :
    ip.isRFC3849 = true ↔ [0x20, 0x01, 0x0D, 0xB8] <+: ip := by
  match ip, hlength with
  | x₀ :: x₁ :: x₂ :: x₃ :: rest, _ =>
    simp only [List.cons_prefix_cons, List.nil_prefix, and_true]
    simp only [CNetAddr.isRFC3849, CNetAddr.getByte, Bool.and_eq_true, and_assoc]
    constructor
    · rintro ⟨h₀, h₁, h₂, h₃⟩
      exact ⟨(of_decide_eq_true h₀).symm, (of_decide_eq_true h₁).symm, (of_decide_eq_true h₂).symm,
        (of_decide_eq_true h₃).symm⟩
    · rintro ⟨rfl, rfl, rfl, rfl⟩
      exact ⟨rfl, rfl, rfl, rfl⟩

theorem isPrefixOf_drop_iff {start rest : Bytes} (h : start <+: ip) :
    rest.isPrefixOf (ip.drop start.length) = true ↔ start ++ rest <+: ip := by
  rcases h with ⟨tail, rfl⟩
  rw [List.drop_left, List.isPrefixOf_iff_prefix, List.prefix_append_right_inj]

theorem isIPv4_iff : ip.isIPv4 = true ↔ pchIPv4 <+: ip :=
  List.isPrefixOf_iff_prefix

theorem isTor_iff : ip.isTor = true ↔ pchOnionCat <+: ip :=
  List.isPrefixOf_iff_prefix

theorem isValid_iff (hlength : ip.length = 16) :
    ip.isValid = true ↔ ¬pchIPv4.drop 3 <+: ip ∧ ¬List.replicate 16 (0 : UInt8) <+: ip ∧
      ¬[0x20, 0x01, 0x0D, 0xB8] <+: ip ∧
      (pchIPv4 <+: ip → ¬pchIPv4 ++ List.replicate 4 0xff <+: ip ∧ ¬pchIPv4 ++ List.replicate 4 0 <+: ip) := by
  unfold CNetAddr.isValid
  rw [← isRFC3849_iff hlength]
  by_cases hshifted : pchIPv4.drop 3 <+: ip
  · rw [if_pos (List.isPrefixOf_iff_prefix.2 hshifted)]
    exact ⟨fun h => (nomatch h), fun h => (h.1 hshifted).elim⟩
  rw [if_neg (mt List.isPrefixOf_iff_prefix.1 hshifted)]
  by_cases hnone : List.replicate 16 (0 : UInt8) <+: ip
  · rw [if_pos (List.isPrefixOf_iff_prefix.2 hnone)]
    exact ⟨fun h => (nomatch h), fun h => (h.2.1 hnone).elim⟩
  rw [if_neg (mt List.isPrefixOf_iff_prefix.1 hnone)]
  by_cases hdoc : ip.isRFC3849 = true
  · rw [if_pos hdoc]
    exact ⟨fun h => (nomatch h), fun h => (h.2.2.1 hdoc).elim⟩
  rw [if_neg hdoc]
  by_cases hipv4 : pchIPv4 <+: ip
  · have hlast : ∀ rest : Bytes, (!rest.isPrefixOf (ip.drop 12)) = true ↔ ¬pchIPv4 ++ rest <+: ip := by
      intro rest
      rw [← isPrefixOf_drop_iff hipv4, Bool.not_eq_true', Bool.not_eq_true]
      exact Iff.rfl
    rw [if_pos (isIPv4_iff.2 hipv4), Bool.and_eq_true, hlast, hlast]
    exact ⟨fun h => ⟨hshifted, hnone, hdoc, fun _ => h⟩, fun h => h.2.2.2 hipv4⟩
  · rw [if_neg (mt isIPv4_iff.1 hipv4)]
    exact ⟨fun _ => ⟨hshifted, hnone, hdoc, fun h => (hipv4 h).elim⟩, fun _ => rfl⟩

/-- Of two strings that an address starts with, one starts with the other. -/
theorem not_prefix_of_isIPv4 (h : pchIPv4 <+: ip) :
    ∀ start ∈ [pchIPv4.drop 3, [0x20, 0x01, 0x0D, 0xB8], List.replicate 16 0], ¬start <+: ip := by
  intro start hstart hpre
  have hboth := List.prefix_or_prefix_of_prefix h hpre
  have hnone : ∀ start ∈ [pchIPv4.drop 3, [0x20, 0x01, 0x0D, 0xB8], List.replicate 16 0],
      ¬(pchIPv4 <+: start ∨ start <+: pchIPv4) := by decide
  exact hnone start hstart hboth

theorem inFamily_iff (hlength : ip.length = 16) :
    InFamily ipv4 ip ↔ ip.isValid = true ∧ ip.isIPv4 = ipv4 ∧ (ipv4 = false → ip.isTor = false) := by
  rw [isValid_iff hlength]
  cases ipv4 with
  | true =>
    constructor
    · intro h
      have hipv4 := h.own rfl
      have hno := not_prefix_of_isIPv4 hipv4
      exact ⟨⟨hno _ (by simp), hno _ (by simp), hno _ (by simp),
        fun _ => ⟨h.other _ (by simp [foreign]), h.other _ (by simp [foreign])⟩⟩, isIPv4_iff.2 hipv4,
        fun h => nomatch h⟩
    · rintro ⟨⟨-, -, -, hlast⟩, hipv4, -⟩
      have hown := isIPv4_iff.1 hipv4
      refine ⟨hlength, fun _ => hown, fun start hstart => ?_⟩
      rcases List.mem_pair.1 hstart with rfl | rfl
      · exact (hlast hown).1
      · exact (hlast hown).2
  | false =>
    rw [← Bool.not_eq_true, isIPv4_iff]
    constructor
    · intro h
      have hipv4 : ¬pchIPv4 <+: ip := h.other _ (by simp [foreign])
      have htor : ¬pchOnionCat <+: ip := h.other _ (by simp [foreign])
      refine ⟨⟨h.other _ (by simp [foreign]), h.other _ ?_, h.other _ (by simp [foreign]), fun h => (hipv4 h).elim⟩,
        hipv4, fun _ => ?_⟩
      · exact List.mem_cons_of_mem _ List.mem_cons_self
      · rwa [← Bool.not_eq_true, isTor_iff]
    · rintro ⟨⟨hshifted, hnone, hdoc, -⟩, hipv4, htor⟩
      have htor' : ¬pchOnionCat <+: ip := by
        rw [← isTor_iff, htor rfl]
        exact Bool.false_ne_true
      refine ⟨hlength, fun h => (nomatch h), fun start hstart => ?_⟩
      rcases List.mem_cons.1 hstart with rfl | hstart
      · exact hshifted
      rcases List.mem_cons.1 hstart with rfl | hstart
      · exact hnone
      rcases List.mem_cons.1 hstart with rfl | hstart
      · exact hdoc
      rcases List.mem_pair.1 hstart with rfl | rfl
      · exact hipv4
      · exact htor'

/-! ## Prefixes -/

namespace CNetAddr

/-- The bytes of the address proper: the last four for IPv4. -/
def proper (ip : CNetAddr) (bytes : Bytes) : Bytes :=
  if ip.isIPv4 then bytes.drop 12 else bytes

def bitCount (ip : CNetAddr) : Nat :=
  if ip.isIPv4 then 32 else 128

/-- The other address is of the same kind, IPv4 or IPv6. -/
def SameFamily (a b : CNetAddr) : Prop :=
  b.isIPv4 = a.isIPv4 ∧ b.isIPv6 = a.isIPv6

/-- The first `n` bits are equal. -/
def SamePrefix (n : Nat) (a b : CNetAddr) : Prop :=
  ∀ p < n, msb (a.proper a) p = msb (b.proper b) p

instance (n : Nat) (a b : CNetAddr) : Decidable (SamePrefix n a b) :=
  inferInstanceAs (Decidable (∀ p < n, msb (a.proper a) p = msb (b.proper b) p))

/-- No bit after the first `n` is set. -/
def NoHostBits (n : Nat) (a : CNetAddr) : Prop :=
  ∀ p < a.bitCount, n ≤ p → msb (a.proper a) p = false

/-- A mask of `n` ones, for the addresses of the family. -/
def IsNetmask (a : CNetAddr) (n : Nat) (mask : CNetAddr) : Prop :=
  ∀ p < a.bitCount, msb (a.proper mask) p = decide (p < n)

end CNetAddr

/-- Where the address proper starts. -/
def familyOffset (ipv4 : Bool) : Nat :=
  if ipv4 then 12 * 8 else 0

theorem msb_proper (h : a.isIPv4 = ipv4) (bytes : Bytes) (p : Nat) :
    msb (a.proper bytes) p = msb bytes (familyOffset ipv4 + p) := by
  unfold CNetAddr.proper familyOffset
  rw [h]
  cases ipv4 with
  | true => exact ByteBits.msb_drop bytes 12 p
  | false =>
    simp only [Bool.false_eq_true, if_false]
    rw [Nat.zero_add]

theorem familyOffset_add_bitCount (h : a.isIPv4 = ipv4) : familyOffset ipv4 + a.bitCount = 128 := by
  unfold CNetAddr.bitCount familyOffset
  rw [h]
  cases ipv4 <;> rfl

/-- Addresses of a family are equal up to where the address proper starts. -/
theorem msb_of_lt_offset {a b : CNetAddr} (ha : InFamily ipv4 a) (hb : InFamily ipv4 b) {p : Nat}
    (hp : p < familyOffset ipv4) : msb a p = msb b p := by
  cases ipv4 with
  | false => exact absurd hp (Nat.not_lt_zero p)
  | true =>
    rcases ha.own rfl with ⟨tail, rfl⟩
    rcases hb.own rfl with ⟨tail', rfl⟩
    have hp' : p < 96 := hp
    have hplace : mirror p < 8 * pchIPv4.length := (ByteBits.mirror_lt_iff (n := 96) rfl).2 hp'
    rw [ByteBits.msb_eq_lsb, ByteBits.msb_eq_lsb, ByteBits.lsb_append_left hplace, ByteBits.lsb_append_left hplace]

theorem samePrefix_iff {a b : CNetAddr} (ha : InFamily ipv4 a) (hb : InFamily ipv4 b) (n : Nat) :
    CNetAddr.SamePrefix n a b ↔ ∀ p < familyOffset ipv4 + n, msb a p = msb b p := by
  have ha' := ((inFamily_iff ha.length).1 ha).2.1
  have hb' := ((inFamily_iff hb.length).1 hb).2.1
  unfold CNetAddr.SamePrefix
  constructor
  · intro h p hp
    by_cases hbefore : p < familyOffset ipv4
    · exact msb_of_lt_offset ha hb hbefore
    · have hbit := h (p - familyOffset ipv4) (by omega)
      rwa [msb_proper ha', msb_proper hb', Nat.add_sub_cancel' (by omega)] at hbit
  · intro h p hp
    rw [msb_proper ha', msb_proper hb']
    exact h _ (by omega)

theorem noHostBits_iff (ha : InFamily ipv4 a) (n : Nat) :
    CNetAddr.NoHostBits n a ↔ ∀ p < 128, familyOffset ipv4 + n ≤ p → msb a p = false := by
  have ha' := ((inFamily_iff ha.length).1 ha).2.1
  have hall := familyOffset_add_bitCount ha'
  unfold CNetAddr.NoHostBits
  constructor
  · intro h p hp hn
    have hbit := h (p - familyOffset ipv4) (by omega) (by omega)
    rwa [msb_proper ha', Nat.add_sub_cancel' (by omega)] at hbit
  · intro h p hp hn
    rw [msb_proper ha']
    exact h _ (by omega) (by omega)

/-! ## What the text `a/n` matches -/

/-- The netmask before any of its bits is cleared. -/
def allOnes : Bytes := List.replicate 16 255

theorem lsb_allOnes : ∀ q < 128, lsb allOnes q = true := by
  decide

theorem ofNetmask_print (getaddrinfo : AddrInfo) (ha : a.isIPv4 = ipv4) {n : Nat}
    (hn : n ≤ a.bitCount) :
    CSubNet.ofNetmask getaddrinfo a (Decimal.print n) = ⟨a, clearBits allOnes (familyOffset ipv4 + n), true⟩ := by
  have hall := familyOffset_add_bitCount ha
  have hoffset : (if a.isIPv4 = true then 12 * 8 else 0) = familyOffset ipv4 := by
    rw [ha]
    rfl
  have hrange : (0 : Int) ≤ (n : Int) ∧ (n : Int) ≤ 128 - (familyOffset ipv4 : Int) := by omega
  unfold CSubNet.ofNetmask
  rw [parseInt32_print (by omega)]
  simp only [hoffset, hrange, and_self, if_true, Int.toNat_natCast, Nat.add_comm n]
  rfl

theorem isMatch_clearBits {a b : CNetAddr} (hb : b.isValid = true) (n : Nat) :
    (CSubNet.mk a (clearBits allOnes n) true).isMatch b = true ↔ ∀ q < 128, (lsb b q && decide (q < n)) = lsb a q := by
  rw [isMatch_iff]
  have hmask : ∀ q < 128, lsb (clearBits allOnes n) q = decide (q < n) := fun q hq => by
    rw [lsb_clearBits rfl hq, lsb_allOnes q hq, Bool.true_and]
  constructor
  · rintro ⟨-, -, h⟩ q hq
    rw [← hmask q hq]
    exact h q hq
  · intro h
    refine ⟨rfl, hb, fun q hq => ?_⟩
    rw [hmask q hq]
    exact h q hq

/-- On whole bytes and without host bits the test is the one on the first bits. -/
theorem isMatch_of_bytes {a b : CNetAddr} (hb : b.isValid = true) {n : Nat} (hn : n ≤ 128) (hbytes : n % 8 = 0)
    (hhost : ∀ p < 128, n ≤ p → msb a p = false) :
    (CSubNet.mk a (clearBits allOnes n) true).isMatch b = true ↔ ∀ p < n, msb a p = msb b p := by
  have hinside : ∀ {p : Nat}, mirror p < n ↔ p < n := ByteBits.mirror_lt_iff hbytes
  have hall : ∀ {p : Nat}, mirror p < 128 ↔ p < 128 := ByteBits.mirror_lt_iff rfl
  rw [isMatch_clearBits hb]
  constructor
  · intro h p hp
    have hbit := h (mirror p) (hall.2 (by omega))
    rw [decide_eq_true (hinside.2 hp), Bool.and_true] at hbit
    rw [ByteBits.msb_eq_lsb, ByteBits.msb_eq_lsb, hbit]
  · intro h q hq
    have hmirror : ∀ l, lsb l q = msb l (mirror q) := fun l => by
      rw [ByteBits.msb_eq_lsb, ByteBits.mirror_mirror]
    by_cases hqn : q < n
    · rw [decide_eq_true hqn, Bool.and_true, hmirror, hmirror]
      exact (h _ (hinside.2 hqn)).symm
    · have hout : n ≤ mirror q := Nat.not_lt.1 fun h => hqn (hinside.1 h)
      rw [decide_eq_false hqn, Bool.and_false, hmirror, hhost _ (hall.2 hq) hout]

/-! ## Addresses that differ in one bit -/

theorem prefix_modify {start l : Bytes} {k : Nat} {f : UInt8 → UInt8} (hk : start.length ≤ k) :
    start <+: l.modify k f ↔ start <+: l := by
  have hbefore : (l.modify k f).take start.length = l.take start.length := by
    refine List.ext_getElem? fun i => ?_
    rw [List.getElem?_take, List.getElem?_take]
    by_cases hi : i < start.length
    · rw [if_pos hi, if_pos hi, List.getElem?_modify_ne f l (by omega)]
    · rw [if_neg hi, if_neg hi]
  rw [List.prefix_iff_eq_take, List.prefix_iff_eq_take, hbefore]

theorem getD_eq_of_start {start l : Bytes} {k : Nat} (h : start <+: l) (hk : k < start.length) :
    start.getD k 0 = l.getD k 0 := by
  rcases h with ⟨tail, rfl⟩
  rw [List.getD_eq_getElem?_getD, List.getD_eq_getElem?_getD, List.getElem?_append_left hk]

theorem own_toggle (ha : InFamily ipv4 a) {p : Nat} (hp : familyOffset ipv4 ≤ p) :
    ipv4 = true → pchIPv4 <+: ByteBits.toggle a p := by
  rintro rfl
  have hk : pchIPv4.length ≤ p / 8 := by
    have hp' : 96 ≤ p := hp
    have hlength : pchIPv4.length = 12 := rfl
    omega
  exact (prefix_modify hk).2 (ha.own rfl)

/-- An address that leaves the family with one bit starts with a string that has the bit. -/
theorem foreign_of_toggle (ha : InFamily ipv4 a) {p : Nat} (hp : familyOffset ipv4 ≤ p)
    (hlast : p < 128) (hout : ¬InFamily ipv4 (ByteBits.toggle a p)) :
    ∃ start ∈ foreign ipv4, p / 8 < start.length ∧ start.getD (p / 8) 0 = a.getD (p / 8) 0 ^^^ ByteBits.single (p % 8) := by
  by_contra hnone
  refine hout ⟨?_, own_toggle ha hp, fun start hstart hpre => hnone ⟨start, hstart, ?_⟩⟩
  · rw [ByteBits.toggle, List.length_modify, ha.length]
  · have hk : p / 8 < start.length := by
      by_contra hshort
      exact ha.other start hstart ((prefix_modify (by omega)).1 hpre)
    refine ⟨hk, ?_⟩
    have hbyte : p / 8 < a.length := by
      rw [ha.length]
      omega
    rw [getD_eq_of_start hpre hk, ByteBits.toggle, ByteBits.getD_modify _ _ _ _ hbyte, if_pos rfl]

/-- No two of the strings have bytes in one place that differ in their highest and their lowest bit only. -/
theorem foreign_xor : ∀ ipv4, ∀ start ∈ foreign ipv4, ∀ start' ∈ foreign ipv4, ∀ k < 16, k < start.length →
    k < start'.length → start.getD k 0 ^^^ start'.getD k 0 ≠ ByteBits.single 7 ^^^ ByteBits.single 0 := by
  decide

theorem inFamily_toggle (ha : InFamily ipv4 a) {k : Nat} (hk : k < 16)
    (hoffset : familyOffset ipv4 ≤ 8 * k) :
    InFamily ipv4 (ByteBits.toggle a (8 * k + 7)) ∨ InFamily ipv4 (ByteBits.toggle a (8 * k)) := by
  by_contra hneither
  rw [not_or] at hneither
  have hbyte : (8 * k + 7) / 8 = k ∧ (8 * k + 7) % 8 = 7 ∧ 8 * k / 8 = k ∧ 8 * k % 8 = 0 := by omega
  rcases foreign_of_toggle ha (by omega) (by omega) hneither.1 with ⟨high, hhigh, hkhigh, hgethigh⟩
  rcases foreign_of_toggle ha (by omega) (by omega) hneither.2 with ⟨low, hlow, hklow, hgetlow⟩
  rw [hbyte.1] at hkhigh hgethigh
  rw [hbyte.2.1] at hgethigh
  rw [hbyte.2.2.1] at hklow hgetlow
  rw [hbyte.2.2.2] at hgetlow
  refine foreign_xor ipv4 high hhigh low hlow k hk hkhigh hklow ?_
  rw [hgethigh, hgetlow, UInt8.xor_comm (a.getD k 0) (ByteBits.single 7), UInt8.xor_assoc,
    ← UInt8.xor_assoc (a.getD k 0), UInt8.xor_self, UInt8.zero_xor]

/-! ## When it is right -/

/-- A test that agrees with the first bits for all addresses of the family cuts between bytes. -/
theorem bytes_of_agrees (ha : InFamily ipv4 a) {n : Nat} (hoffset : familyOffset ipv4 ≤ n)
    (hn : n ≤ 128)
    (h : ∀ b, InFamily ipv4 b →
      ((∀ q < 128, (lsb b q && decide (q < n)) = lsb a q) ↔ ∀ p < n, msb a p = msb b p)) :
    n % 8 = 0 ∧ ∀ p < 128, n ≤ p → msb a p = false := by
  -- The address itself is to match, so that it has no bits outside the mask.
  have hself : ∀ q < 128, (lsb a q && decide (q < n)) = lsb a q := (h a ha).2 fun _ _ => rfl
  have hout : ∀ q < 128, n ≤ q → lsb a q = false := by
    intro q hq hnq
    have hbit := hself q hq
    rwa [decide_eq_false (by omega), Bool.and_false, eq_comm] at hbit
  have hlength : 8 * a.length = 128 := by rw [ha.length]
  have hbytes : n % 8 = 0 := by
    by_contra hpart
    have hfirst : familyOffset ipv4 ≤ 8 * (n / 8) := by
      have hwhole : familyOffset ipv4 % 8 = 0 := by cases ipv4 <;> rfl
      omega
    -- The mask has the lowest bit of the byte that it cuts, and not the highest one.
    have hhigh : mirror (8 * (n / 8)) = 8 * (n / 8) + 7 := by
      unfold mirror
      omega
    have hlow : mirror (8 * (n / 8) + 7) = 8 * (n / 8) := by
      unfold mirror
      omega
    rcases inFamily_toggle ha (by omega) hfirst with hb | hb
    · have hmatch : ∀ q < 128, (lsb (ByteBits.toggle a (8 * (n / 8) + 7)) q && decide (q < n)) = lsb a q := by
        intro q hq
        rw [ByteBits.lsb_toggle (by omega)]
        by_cases hqn : q < n
        · have hother : q ≠ 8 * (n / 8) + 7 := by omega
          rw [decide_eq_true hqn, decide_eq_false hother, Bool.and_true, Bool.bne_false]
        · rw [decide_eq_false hqn, Bool.and_false, hout q hq (by omega)]
      have hbit := (h _ hb).1 hmatch (8 * (n / 8)) (by omega)
      rw [ByteBits.msb_eq_lsb, ByteBits.msb_eq_lsb, hhigh, ByteBits.lsb_toggle (by omega), decide_eq_true rfl] at hbit
      simp at hbit
    · have hsame : ∀ p < n, msb a p = msb (ByteBits.toggle a (8 * (n / 8))) p := by
        intro p hp
        have hother : mirror p ≠ 8 * (n / 8) := by
          intro heq
          have hplace := ByteBits.mirror_mirror p
          rw [heq, hhigh] at hplace
          omega
        rw [ByteBits.msb_eq_lsb, ByteBits.msb_eq_lsb, ByteBits.lsb_toggle (by omega), decide_eq_false hother, Bool.bne_false]
      have hbit := (h _ hb).2 hsame (8 * (n / 8)) (by omega)
      rw [ByteBits.lsb_toggle (by omega), decide_eq_true rfl, decide_eq_true (by omega)] at hbit
      simp at hbit
  refine ⟨hbytes, fun p hp hnp => ?_⟩
  have hinside := ByteBits.mirror_lt_iff (p := p) hbytes
  have hall := ByteBits.mirror_lt_iff (p := p) (n := 128) rfl
  rw [ByteBits.msb_eq_lsb]
  exact hout _ (hall.2 hp) (by omega)

/-- A mask of whole bytes is the one that the prefix length gives. -/
theorem copyMask_eq {a mask : CNetAddr} (ha : a.isIPv4 = ipv4) {n : Nat}
    (hbytes : n % 8 = 0) (hmask : a.IsNetmask n mask) :
    copyMask allOnes mask (if a.isIPv4 then 4 else 16) = clearBits allOnes (familyOffset ipv4 + n) := by
  have hall := familyOffset_add_bitCount ha
  have hsize : (if a.isIPv4 = true then 4 else 16) = a.bitCount / 8 := by
    unfold CNetAddr.bitCount
    cases a.isIPv4 <;> rfl
  have hwhole : (familyOffset ipv4 + n) % 8 = 0 ∧ familyOffset ipv4 % 8 = 0 := by
    have hoffset : familyOffset ipv4 % 8 = 0 := by cases ipv4 <;> rfl
    omega
  rw [hsize]
  have hcopy := copyMask_spec (show allOnes.length = 16 from rfl) mask (show a.bitCount / 8 ≤ 16 by omega)
  refine ByteBits.ext (hcopy.1.trans (clearBits_length rfl _).symm) fun q hq => ?_
  rw [hcopy.1] at hq
  rw [lsb_clearBits rfl hq, lsb_allOnes q hq, Bool.true_and, lsb, hcopy.2 _ (by omega)]
  by_cases hproper : familyOffset ipv4 ≤ q
  · have hplace := ByteBits.mirror_lt_iff (p := q) (n := familyOffset ipv4) hwhole.2
    have hin := ByteBits.mirror_lt_iff (p := q) (n := 128) rfl
    have hones := hmask (mirror q - familyOffset ipv4) (by omega)
    have hcut : mirror q - familyOffset ipv4 < n ↔ q < familyOffset ipv4 + n := by
      have hcut' := ByteBits.mirror_lt_iff (p := q) hwhole.1
      omega
    rw [msb_proper ha, Nat.add_sub_cancel' (by omega), ByteBits.msb_eq_lsb, ByteBits.mirror_mirror, lsb,
      decide_eq_decide.2 hcut] at hones
    rw [if_pos (by omega), hones]
  · have hones := lsb_allOnes q hq
    rw [lsb] at hones
    rw [if_neg (by omega), hones, decide_eq_true (by omega)]

theorem ofNetmask_mask {getaddrinfo : AddrInfo} {strNetmask : Bytes} {mask : CNetAddr}
    (hnumber : parseInt32 strNetmask = none)
    (hmask : (lookupHost getaddrinfo (cStr strNetmask) 1 false).head? = some mask) :
    CSubNet.ofNetmask getaddrinfo a strNetmask = ⟨a, copyMask allOnes mask (if a.isIPv4 then 4 else 16), true⟩ := by
  rcases List.head?_eq_some_iff.1 hmask with ⟨others, hfound⟩
  unfold CSubNet.ofNetmask
  rw [hnumber, hfound]
  rfl

/-- The text `a/n` matches the addresses with the first `n` bits of `a`, and so does the text with a mask of `n` ones,
exactly when `n` bits are whole bytes and the other bits of `a` are zero. -/
theorem subNet_exact (getaddrinfo : AddrInfo) (text : Bytes) (fAllowLookup : Bool) (a : CNetAddr) (n : Nat)
    (htext : (lookupHost getaddrinfo (cStr text) 1 fAllowLookup).head? = some a) (ha : a.isValid = true)
    (hfamily : a.isIPv4 = true ∨ a.isIPv6 = true) (hn : n ≤ a.bitCount) :
    ((∀ b : CNetAddr, b.length = 16 → b.isValid = true → a.SameFamily b →
        ((CSubNet.ofText getaddrinfo (text ++ 0x2f :: Decimal.print n) fAllowLookup).isMatch b = true ↔
          CNetAddr.SamePrefix n a b)) ∧
      (∀ (strNetmask : Bytes) (mask : CNetAddr), (0x2f : UInt8) ∉ strNetmask → parseInt32 strNetmask = none →
        (lookupHost getaddrinfo (cStr strNetmask) 1 false).head? = some mask → a.IsNetmask n mask → ∀ b : CNetAddr,
        (CSubNet.ofText getaddrinfo (text ++ 0x2f :: strNetmask) fAllowLookup).isMatch b =
          (CSubNet.ofText getaddrinfo (text ++ 0x2f :: Decimal.print n) fAllowLookup).isMatch b)) ↔
      n % 8 = 0 ∧ CNetAddr.NoHostBits n a := by
  have hlength : a.length = 16 := lookupHost_length (List.mem_of_mem_head? (Option.mem_def.2 htext))
  have hslash : (0x2f : UInt8) ∉ Decimal.print n := fun h => (not_of_isDigit (Decimal.isDigit_of_mem_print _ h)).2.2.2.2.2 rfl
  have htor : a.isIPv4 = false → a.isTor = false := by
    intro hipv4
    rw [CNetAddr.isIPv6, hipv4] at hfamily
    simpa using hfamily
  have hin : InFamily a.isIPv4 a := (inFamily_iff hlength).2 ⟨ha, rfl, htor⟩
  have hall := familyOffset_add_bitCount (a := a) rfl
  have hwhole : (familyOffset a.isIPv4 + n) % 8 = 0 ↔ n % 8 = 0 := by
    have hoffset : familyOffset a.isIPv4 % 8 = 0 := by cases a.isIPv4 <;> rfl
    omega
  have hsame : ∀ b : CNetAddr, b.length = 16 → (InFamily a.isIPv4 b ↔ b.isValid = true ∧ a.SameFamily b) := by
    intro b hb
    rw [inFamily_iff hb, CNetAddr.SameFamily, CNetAddr.isIPv6, CNetAddr.isIPv6]
    cases hipv4 : a.isIPv4 with
    | true =>
      constructor
      · rintro ⟨hvalid, hipv4', -⟩
        exact ⟨hvalid, hipv4', by rw [hipv4', Bool.not_true, Bool.false_and, Bool.false_and]⟩
      · rintro ⟨hvalid, hipv4', -⟩
        exact ⟨hvalid, hipv4', fun h => nomatch h⟩
    | false =>
      rw [htor hipv4]
      constructor
      · rintro ⟨hvalid, hipv4', htor'⟩
        exact ⟨hvalid, hipv4', by rw [hipv4', htor' rfl]⟩
      · rintro ⟨hvalid, hipv4', htor'⟩
        exact ⟨hvalid, hipv4', fun _ => by simpa [hipv4'] using htor'⟩
  rw [ofText_slash getaddrinfo htext hslash, ofNetmask_print getaddrinfo rfl hn, noHostBits_iff hin]
  constructor
  · rintro ⟨hmatches, -⟩
    rw [← hwhole]
    refine bytes_of_agrees hin (Nat.le_add_right _ _) (by omega) fun b hb => ?_
    have hb' := (hsame b hb.length).1 hb
    rw [← isMatch_clearBits hb'.1, ← samePrefix_iff hin hb]
    exact hmatches b hb.length hb'.1 hb'.2
  · rintro ⟨hbytes, hhost⟩
    refine ⟨fun b hb hvalid hbfamily => ?_, fun strNetmask mask hslash' hnumber hmask hones b => ?_⟩
    · rw [isMatch_of_bytes hvalid (by omega) (hwhole.2 hbytes) hhost,
        samePrefix_iff hin ((hsame b hb).2 ⟨hvalid, hbfamily⟩)]
    · rw [ofText_slash getaddrinfo htext hslash', ofNetmask_mask hnumber hmask, copyMask_eq rfl hbytes hones]

/-- Finds each name of the list at its address. -/
def namesInfo (names : List (Bytes × { ip : Bytes // ip.length = 4 })) : AddrInfo := fun pszName _ =>
  (names.filter fun name => name.1 = pszName).map fun name => .inet name.2

/-- "10.0.0.0" and "1.2.3.4" -/
def sampleInfo : AddrInfo :=
  namesInfo [([0x31, 0x30, 0x2e, 0x30, 0x2e, 0x30, 0x2e, 0x30], ⟨[10, 0, 0, 0], rfl⟩),
    ([0x31, 0x2e, 0x32, 0x2e, 0x33, 0x2e, 0x34], ⟨[1, 2, 3, 4], rfl⟩)]

theorem subNet_exact_ten :
    lookupHost sampleInfo (cStr [0x31, 0x30, 0x2e, 0x30, 0x2e, 0x30, 0x2e, 0x30]) 1 false =
        [pchIPv4 ++ [10, 0, 0, 0]] ∧
      ((∀ b : CNetAddr, b.length = 16 → b.isValid = true → CNetAddr.SameFamily (pchIPv4 ++ [10, 0, 0, 0]) b →
          ((CSubNet.ofText sampleInfo ([0x31, 0x30, 0x2e, 0x30, 0x2e, 0x30, 0x2e, 0x30] ++ 0x2f :: Decimal.print 8)
            false).isMatch b = true ↔ CNetAddr.SamePrefix 8 (pchIPv4 ++ [10, 0, 0, 0]) b)) ∧
        (∀ (strNetmask : Bytes) (mask : CNetAddr), (0x2f : UInt8) ∉ strNetmask → parseInt32 strNetmask = none →
          (lookupHost sampleInfo (cStr strNetmask) 1 false).head? = some mask →
          CNetAddr.IsNetmask (pchIPv4 ++ [10, 0, 0, 0]) 8 mask → ∀ b : CNetAddr,
          (CSubNet.ofText sampleInfo ([0x31, 0x30, 0x2e, 0x30, 0x2e, 0x30, 0x2e, 0x30] ++ 0x2f :: strNetmask)
            false).isMatch b =
          (CSubNet.ofText sampleInfo ([0x31, 0x30, 0x2e, 0x30, 0x2e, 0x30, 0x2e, 0x30] ++ 0x2f :: Decimal.print 8)
            false).isMatch b) ↔
        8 % 8 = 0 ∧ CNetAddr.NoHostBits 8 (pchIPv4 ++ [10, 0, 0, 0])) :=
  ⟨by decide, subNet_exact sampleInfo [0x31, 0x30, 0x2e, 0x30, 0x2e, 0x30, 0x2e, 0x30] false
    (pchIPv4 ++ [10, 0, 0, 0]) 8 (by decide) (by decide) (by decide) (by decide)⟩

/-- "10.0.0.0/9" matches 10.128.0.1 and not 10.1.0.1, and "1.2.3.4/24" does not match 1.2.3.4. -/
theorem subNet_not_cidr :
    (CSubNet.ofText sampleInfo [0x31, 0x30, 0x2e, 0x30, 0x2e, 0x30, 0x2e, 0x30, 0x2f, 0x39] false).isMatch
        (pchIPv4 ++ [10, 128, 0, 1]) = true ∧
      ¬CNetAddr.SamePrefix 9 (pchIPv4 ++ [10, 0, 0, 0]) (pchIPv4 ++ [10, 128, 0, 1]) ∧
      (CSubNet.ofText sampleInfo [0x31, 0x30, 0x2e, 0x30, 0x2e, 0x30, 0x2e, 0x30, 0x2f, 0x39] false).isMatch
        (pchIPv4 ++ [10, 1, 0, 1]) = false ∧
      CNetAddr.SamePrefix 9 (pchIPv4 ++ [10, 0, 0, 0]) (pchIPv4 ++ [10, 1, 0, 1]) ∧
      (CSubNet.ofText sampleInfo [0x31, 0x2e, 0x32, 0x2e, 0x33, 0x2e, 0x34, 0x2f, 0x32, 0x34] false).isMatch
        (pchIPv4 ++ [1, 2, 3, 4]) = false := by
  decide

end Dobbscoin
