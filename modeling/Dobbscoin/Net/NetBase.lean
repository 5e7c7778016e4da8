import Dobbscoin.Primitives.CString
import Dobbscoin.Primitives.Transaction

/-!
# Addresses

What `netbase.cpp` says of the addresses of peers.
-/

namespace Dobbscoin

/-- The 16 bytes of an address. -/
abbrev CNetAddr := Bytes

/-- The first bytes of an IPv4 address. -/
def pchIPv4 : Bytes := List.replicate 10 0 ++ [0xff, 0xff]

def pchOnionCat : Bytes := [0xFD, 0x87, 0xD8, 0x7E, 0xEB, 0x43]

namespace CNetAddr

/-- `GetByte` counts from the end. -/
def getByte (ip : CNetAddr) (n : Nat) : UInt8 :=
  ip.getD (15 - n) 0

def isIPv4 (ip : CNetAddr) : Bool :=
  pchIPv4.isPrefixOf ip

def isTor (ip : CNetAddr) : Bool :=
  pchOnionCat.isPrefixOf ip

def isIPv6 (ip : CNetAddr) : Bool :=
  !ip.isIPv4 && !ip.isTor

/-- Documentation addresses. -/
def isRFC3849 (ip : CNetAddr) : Bool :=
  ip.getByte 15 = 0x20 && ip.getByte 14 = 0x01 && ip.getByte 13 = 0x0D && ip.getByte 12 = 0xB8

def isValid (ip : CNetAddr) : Bool :=
  -- addresses shifted by 3 bytes in the messages of old versions
  if (pchIPv4.drop 3).isPrefixOf ip then false
  else if (List.replicate 16 (0 : UInt8)).isPrefixOf ip then false
  else if ip.isRFC3849 then false
  else if ip.isIPv4 then
    !(List.replicate 4 (0xff : UInt8)).isPrefixOf (ip.drop 12) && !(List.replicate 4 (0 : UInt8)).isPrefixOf (ip.drop 12)
  else true

end CNetAddr

structure CService where
  ip : CNetAddr
  port : Nat
  deriving DecidableEq

end Dobbscoin

/-!
# Name lookup

`LookupHost` of `netbase.cpp`, over what the C library finds for a name.
-/

namespace Dobbscoin

/-! ## Base 32 -/

/-- `decode32_table`, with `none` for -1. -/
def decode32 (ch : UInt8) : Option Nat :=
  if 0x41 ≤ ch ∧ ch ≤ 0x5a then some (ch.toNat - 0x41)
  else if 0x61 ≤ ch ∧ ch ≤ 0x7a then some (ch.toNat - 0x61)
  else if 0x32 ≤ ch ∧ ch ≤ 0x37 then some (ch.toNat - 0x32 + 26)
  else none

def decode32Loop : Bytes → Nat → Nat → Bytes → Bytes
  | [], _, _, vchRet => vchRet
  | ch :: p, mode, left, vchRet =>
    match decode32 ch with
    | none => vchRet
    | some dec =>
      match mode with
      | 0 => decode32Loop p 1 dec vchRet
      | 1 => decode32Loop p 2 (dec &&& 3) (vchRet ++ [UInt8.ofNat (left <<< 3 ||| dec >>> 2)])
      | 2 => decode32Loop p 3 (left <<< 5 ||| dec) vchRet
      | 3 => decode32Loop p 4 (dec &&& 15) (vchRet ++ [UInt8.ofNat (left <<< 1 ||| dec >>> 4)])
      | 4 => decode32Loop p 5 (dec &&& 1) (vchRet ++ [UInt8.ofNat (left <<< 4 ||| dec >>> 1)])
      | 5 => decode32Loop p 6 (left <<< 5 ||| dec) vchRet
      | 6 => decode32Loop p 7 (dec &&& 7) (vchRet ++ [UInt8.ofNat (left <<< 2 ||| dec >>> 3)])
      | _ => decode32Loop p 0 left (vchRet ++ [UInt8.ofNat (left <<< 5 ||| dec)])

/-- `DecodeBase32` of a C string. -/
def decodeBase32 (p : Bytes) : Bytes :=
  decode32Loop p 0 0 []

/-! ## Addresses of names -/

/-- A socket address that the C library returns. -/
inductive SockAddr where
  | inet (sin_addr : { ip : Bytes // ip.length = 4 })
  | inet6 (sin6_addr : { ip : Bytes // ip.length = 16 })
  | other

/-- What `inet_pton` or `getaddrinfo` find for a name, with or without a lookup; nothing when they fail. -/
abbrev AddrInfo := Bytes → Bool → List SockAddr

/-- ".onion" -/
def onionSuffix : Bytes := [0x2e, 0x6f, 0x6e, 0x69, 0x6f, 0x6e]

def setSpecial (strName : Bytes) : Option CNetAddr :=
  if strName.length > 6 ∧ strName.drop (strName.length - 6) = onionSuffix then
    let vchAddr := decodeBase32 (cStr (strName.take (strName.length - 6)))
    if vchAddr.length ≠ 16 - pchOnionCat.length then none else some (pchOnionCat ++ vchAddr)
  else none

/-- The constructors of `CNetAddr` from the addresses of the C library. -/
def SockAddr.netAddr : SockAddr → Option CNetAddr
  | inet ip => some (pchIPv4 ++ ip.val)
  | inet6 ip => some ip.val
  | other => none

/-- The addresses `vIP`; it returns whether there are any. -/
def lookupIntern (getaddrinfo : AddrInfo) (pszName : Bytes) (nMaxSolutions : Nat) (fAllowLookup : Bool) :
    List CNetAddr :=
  match setSpecial pszName with
  | some addr => [addr]
  | none =>
    let vIP := (getaddrinfo pszName fAllowLookup).filterMap SockAddr.netAddr
    if nMaxSolutions = 0 then vIP else vIP.take nMaxSolutions

/-- `LookupHost` of a C string. -/
def lookupHost (getaddrinfo : AddrInfo) (pszName : Bytes) (nMaxSolutions : Nat) (fAllowLookup : Bool) :
    List CNetAddr :=
  if pszName = [] then []
  else if pszName.head? = some 0x5b ∧ pszName.getLast? = some 0x5d then
    -- without the brackets
    lookupIntern getaddrinfo pszName.tail.dropLast nMaxSolutions fAllowLookup
  else lookupIntern getaddrinfo pszName nMaxSolutions fAllowLookup

/-! ## All have 16 bytes -/

theorem setSpecial_length {strName : Bytes} {addr : CNetAddr} (h : setSpecial strName = some addr) :
    addr.length = 16 := by
  unfold setSpecial at h
  by_cases hname : strName.length > 6 ∧ strName.drop (strName.length - 6) = onionSuffix
  · rw [if_pos hname] at h
    dsimp only at h
    by_cases hsize : (decodeBase32 (cStr (strName.take (strName.length - 6)))).length = 16 - pchOnionCat.length
    · rw [if_neg (not_not.2 hsize)] at h
      cases h
      rw [List.length_append, hsize]
      rfl
    · rw [if_pos hsize] at h
      cases h
  · rw [if_neg hname] at h
    cases h

theorem SockAddr.netAddr_length {info : SockAddr} {addr : CNetAddr} (h : info.netAddr = some addr) :
    addr.length = 16 := by
  cases info with
  | inet ip =>
    cases h
    rw [List.length_append, ip.property]
    rfl
  | inet6 ip =>
    cases h
    exact ip.property
  | other => cases h

theorem lookupIntern_length {getaddrinfo : AddrInfo} {pszName : Bytes} {nMaxSolutions : Nat} {fAllowLookup : Bool}
    {addr : CNetAddr} (h : addr ∈ lookupIntern getaddrinfo pszName nMaxSolutions fAllowLookup) :
    addr.length = 16 := by
  unfold lookupIntern at h
  cases hspecial : setSpecial pszName with
  | some onion =>
    rw [hspecial] at h
    rw [List.mem_singleton.1 h]
    exact setSpecial_length hspecial
  | none =>
    rw [hspecial] at h
    have hfound : addr ∈ (getaddrinfo pszName fAllowLookup).filterMap SockAddr.netAddr := by
      dsimp only at h
      split_ifs at h
      · exact h
      · exact List.mem_of_mem_take h
    rcases List.mem_filterMap.1 hfound with ⟨info, -, hinfo⟩
    exact SockAddr.netAddr_length hinfo

theorem lookupHost_length {getaddrinfo : AddrInfo} {pszName : Bytes} {nMaxSolutions : Nat} {fAllowLookup : Bool}
    {addr : CNetAddr} (h : addr ∈ lookupHost getaddrinfo pszName nMaxSolutions fAllowLookup) : addr.length = 16 := by
  unfold lookupHost at h
  split_ifs at h
  · cases h
  · exact lookupIntern_length h
  · exact lookupIntern_length h

end Dobbscoin
