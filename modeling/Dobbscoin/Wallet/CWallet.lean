import Dobbscoin.Primitives.Transaction
import Mathlib.Data.List.AList

/-!
# Encrypted keys

`CMasterKey`, `CCrypter` and `CCryptoKeyStore` of `crypter.h` and `crypter.cpp`.  The OpenSSL and EC functions
are given.
-/

namespace Dobbscoin

abbrev UInt160 := BitVec 160
abbrev CKeyID := UInt160

/-- The bytes of a public key; other lengths than 33 and 65 are keys that are not valid. -/
abbrev CPubKey := Bytes

/-- A map of `std::map`. -/
abbrev Table (K V : Type) := AList fun _ : K => V

/-- A private key. -/
structure CKey where
  vch : Bytes
  fCompressed : Bool
  deriving DecidableEq

structure CMasterKey where
  vchCryptedKey : Bytes
  vchSalt : Bytes
  nDerivationMethod : Nat
  nDeriveIterations : Nat
  vchOtherDerivationParameters : Bytes
  deriving DecidableEq

def walletCryptoKeySize : Nat := 32
def walletCryptoSaltSize : Nat := 8

/-- `chKey` and `chIV`. -/
abbrev CrypterKey := Bytes × Bytes

/-- The functions of other libraries that the key store calls. -/
structure WalletCrypto where
  /-- `EVP_BytesToKey` with SHA-512. -/
  bytesToKey : Bytes → Bytes → Nat → CrypterKey
  /-- AES-256-CBC; every call can fail. -/
  encrypt : CrypterKey → Bytes → Option Bytes
  decrypt : CrypterKey → Bytes → Option Bytes
  /-- `CKey::GetPubKey` of a secret, compressed or not. -/
  getPubKey : Bytes → Bool → CPubKey
  hash : Bytes → Bytes
  hash160 : Bytes → UInt160

def CPubKey.isCompressed (vchPubKey : CPubKey) : Bool :=
  vchPubKey.length = 33

/-- `GetID`. -/
def CPubKey.getID (C : WalletCrypto) (vchPubKey : CPubKey) : CKeyID :=
  C.hash160 vchPubKey

/-! ## CCrypter -/

def setKeyFromPassphrase (C : WalletCrypto) (strKeyData chSalt : Bytes) (nRounds nDerivationMethod : Nat) :
    Option CrypterKey :=
  if nRounds < 1 ∨ chSalt.length ≠ walletCryptoSaltSize then none
  else if nDerivationMethod = 0 then some (C.bytesToKey strKeyData chSalt nRounds)
  else none

/-- `SetKey`: the hash of the public key is the IV. -/
def setKey (chNewKey chNewIV : Bytes) : Option CrypterKey :=
  if chNewKey.length ≠ walletCryptoKeySize ∨ chNewIV.length ≠ walletCryptoKeySize then none
  else some (chNewKey, chNewIV)

def encryptSecret (C : WalletCrypto) (vMasterKey vchPlaintext nIV : Bytes) : Option Bytes := do
  let k ← setKey vMasterKey nIV
  C.encrypt k vchPlaintext

def decryptSecret (C : WalletCrypto) (vMasterKey vchCiphertext nIV : Bytes) : Option Bytes := do
  let k ← setKey vMasterKey nIV
  C.decrypt k vchCiphertext

/-! ## CCryptoKeyStore -/

structure CCryptoKeyStore where
  mapKeys : Table CKeyID CKey
  setWatchOnly : List CScript
  mapCryptedKeys : Table CKeyID (CPubKey × Bytes)
  vMasterKey : Bytes
  fUseCrypto : Bool
  fDecryptionThoroughlyChecked : Bool

namespace CCryptoKeyStore

def empty : CCryptoKeyStore :=
  ⟨∅, [], ∅, [], false, false⟩

def isCrypted (s : CCryptoKeyStore) : Bool :=
  s.fUseCrypto

def isLocked (s : CCryptoKeyStore) : Bool :=
  s.fUseCrypto && s.vMasterKey.isEmpty

/-- `SetCrypted`; plain keys stand in the way. -/
def setCrypted (s : CCryptoKeyStore) : Option CCryptoKeyStore :=
  if s.fUseCrypto then some s
  else if s.mapKeys.entries ≠ [] then none
  else some { s with fUseCrypto := true }

def lock (s : CCryptoKeyStore) : CCryptoKeyStore :=
  match s.setCrypted with
  | none => s
  | some s => { s with vMasterKey := [] }

/-- The secret that a master key gives for an encrypted key is the one of the public key. -/
def opens (C : WalletCrypto) (vMasterKey : Bytes) (key : CPubKey × Bytes) : Bool :=
  match decryptSecret C vMasterKey key.2 (C.hash key.1) with
  | none => false
  | some vchSecret => vchSecret.length == 32 && C.getPubKey vchSecret (CPubKey.isCompressed key.1) == key.1

/-- The loop of `Unlock`: `keyPass` and `keyFail`. -/
def checkKeys (C : WalletCrypto) (fChecked : Bool) (vMasterKey : Bytes) :
    Bool → List (CPubKey × Bytes) → Bool × Bool
  | keyPass, [] => (keyPass, false)
  | keyPass, key :: keys =>
    if opens C vMasterKey key = false then (keyPass, true)
    else if fChecked then (true, false)
    else checkKeys C fChecked vMasterKey true keys

def cryptedKeys (s : CCryptoKeyStore) : List (CPubKey × Bytes) :=
  s.mapCryptedKeys.entries.map fun e => e.2

/-- `Unlock`; the outcome is `none` when the assertion fails that keys decrypt all or not at all. -/
def unlock (C : WalletCrypto) (s : CCryptoKeyStore) (vMasterKeyIn : Bytes) : Option (Bool × CCryptoKeyStore) :=
  match s.setCrypted with
  | none => some (false, s)
  | some s =>
    match checkKeys C s.fDecryptionThoroughlyChecked vMasterKeyIn false s.cryptedKeys with
    | (true, true) => none
    | (true, false) => some (true, { s with vMasterKey := vMasterKeyIn, fDecryptionThoroughlyChecked := true })
    | (false, _) => some (false, s)

/-- `AddCryptedKey`. -/
def addCryptedKey (C : WalletCrypto) (s : CCryptoKeyStore) (vchPubKey vchCryptedSecret : Bytes) :
    Option CCryptoKeyStore :=
  s.setCrypted.map fun s =>
    { s with mapCryptedKeys := s.mapCryptedKeys.insert (CPubKey.getID C vchPubKey) (vchPubKey, vchCryptedSecret) }

/-- `AddKeyPubKey`. -/
def addKeyPubKey (C : WalletCrypto) (s : CCryptoKeyStore) (key : CKey) (vchPubKey : CPubKey) :
    Option CCryptoKeyStore :=
  if s.isCrypted = false then some { s with mapKeys := s.mapKeys.insert (CPubKey.getID C vchPubKey) key }
  else if s.isLocked then none
  else do
    let vchCryptedSecret ← encryptSecret C s.vMasterKey key.vch (C.hash vchPubKey)
    s.addCryptedKey C vchPubKey vchCryptedSecret

def haveKey (s : CCryptoKeyStore) (address : CKeyID) : Bool :=
  if s.isCrypted then (s.mapCryptedKeys.lookup address).isSome else (s.mapKeys.lookup address).isSome

def getPubKey (C : WalletCrypto) (s : CCryptoKeyStore) (address : CKeyID) : Option CPubKey :=
  if s.isCrypted then (s.mapCryptedKeys.lookup address).map Prod.fst
  else (s.mapKeys.lookup address).map fun key => C.getPubKey key.vch key.fCompressed

/-- `RemoveKey`. -/
def removeKey (s : CCryptoKeyStore) (address : CKeyID) : CCryptoKeyStore :=
  if s.isCrypted then { s with mapCryptedKeys := s.mapCryptedKeys.erase address }
  else { s with mapKeys := s.mapKeys.erase address }

/-! ## What Unlock says -/

variable {C : WalletCrypto} {s : CCryptoKeyStore} {vMasterKey : Bytes}

/-- A master key that opens every key passes. -/
theorem checkKeys_of_opens {fChecked keyPass : Bool} {keys : List (CPubKey × Bytes)}
    (h : ∀ key ∈ keys, opens C vMasterKey key = true) :
    checkKeys C fChecked vMasterKey keyPass keys = (keyPass || !keys.isEmpty, false) := by
  induction keys generalizing keyPass with
  | nil => simp [checkKeys]
  | cons key keys ih =>
    have hkey := h key List.mem_cons_self
    have hrest : checkKeys C fChecked vMasterKey true keys = (true || !keys.isEmpty, false) :=
      ih fun k hk => h k (List.mem_cons_of_mem key hk)
    cases fChecked <;> simp [checkKeys, hkey, hrest]

/-- A master key that opens no key fails at the first one. -/
theorem checkKeys_of_not_opens {fChecked : Bool} {keys : List (CPubKey × Bytes)}
    (h : ∀ key ∈ keys, opens C vMasterKey key = false) :
    (checkKeys C fChecked vMasterKey false keys).1 = false := by
  cases keys with
  | nil => rfl
  | cons key keys => simp [checkKeys, h key List.mem_cons_self]

end CCryptoKeyStore

end Dobbscoin

/-!
# Wallets

The part of `CWallet` that deals with keys, and the wallet file as tables of records.
-/

namespace Dobbscoin

structure CKeyMetadata where
  nVersion : Int
  nCreateTime : Int
  deriving DecidableEq

/-- `CTxDestination`. -/
inductive CTxDestination where
  | noDestination
  | keyID (id : CKeyID)
  | scriptID (id : UInt160)
  deriving DecidableEq

structure CAddressBookData where
  name : String
  purpose : String
  destdata : Table String String

structure CKeyPool where
  nTime : Int
  vchPubKey : CPubKey
  deriving DecidableEq

/-- The records of a wallet file by their types, each by what it is read as; an address stands for its string. -/
structure WalletFile where
  key : Table CPubKey CKey
  wkey : Table CPubKey CKey
  ckey : Table CPubKey Bytes
  keymeta : Table CPubKey CKeyMetadata
  mkey : Table Nat CMasterKey
  watchs : Table CScript Char
  pool : Table Int CKeyPool
  name : Table CTxDestination String
  purpose : Table CTxDestination String
  destdata : Table (CTxDestination × String) String

structure CWallet where
  keystore : CCryptoKeyStore
  mapMasterKeys : Table Nat CMasterKey
  mapKeyMetadata : Table CKeyID CKeyMetadata
  mapAddressBook : Table CTxDestination CAddressBookData
  setKeyPool : List Int
  vchDefaultKey : CPubKey
  fFileBacked : Bool
  file : WalletFile

namespace CWallet

def isLocked (w : CWallet) : Bool :=
  w.keystore.isLocked

/-- The loop of `Unlock` over the master keys. -/
def unlockLoop (C : WalletCrypto) (w : CWallet) (strWalletPassphrase : Bytes) :
    List CMasterKey → Option (Bool × CWallet)
  | [] => some (false, w)
  | masterKey :: rest =>
    match setKeyFromPassphrase C strWalletPassphrase masterKey.vchSalt masterKey.nDeriveIterations
        masterKey.nDerivationMethod with
    | none => some (false, w)
    | some crypter =>
      match C.decrypt crypter masterKey.vchCryptedKey with
      | none => unlockLoop C w strWalletPassphrase rest
      | some vMasterKey =>
        match w.keystore.unlock C vMasterKey with
        | none => none
        | some (true, keystore) => some (true, { w with keystore })
        | some (false, keystore) => unlockLoop C { w with keystore } strWalletPassphrase rest

def masterKeys (w : CWallet) : List CMasterKey :=
  w.mapMasterKeys.entries.map fun e => e.2

/-- `Unlock`; `none` when an assertion fails. -/
def unlock (C : WalletCrypto) (w : CWallet) (strWalletPassphrase : Bytes) : Option (Bool × CWallet) :=
  w.unlockLoop C strWalletPassphrase w.masterKeys

end CWallet

end Dobbscoin
