import Dobbscoin.Lib.Maps
import Dobbscoin.Wallet.CWallet

/-!
# Removing a private key

`RemovePrivKey`, and when a call that ends early or late leaves the wallet and its file in step.
-/

namespace Dobbscoin

open Rekey

/-- What each call of the database answers. -/
structure RemoveCalls where
  readPool : Int → Bool
  eraseKey : Bool
  eraseWKey : Bool
  eraseCKey : Bool
  eraseKeyMeta : Bool
  writeWatchOnly : Bool
  eraseDestData : String → Bool
  erasePurpose : Bool
  eraseName : Bool

/-- `GetScriptForDestination` of a key. -/
def getScriptForDestination (keyID : CKeyID) : CScript :=
  [0x76, 0xa9, 20] ++ ByteCodec.leBytes 20 keyID.toNat ++ [0x88, 0xac]

def CCryptoKeyStore.haveWatchOnly (s : CCryptoKeyStore) (dest : CScript) : Bool :=
  s.setWatchOnly.contains dest

namespace WalletFile

/-- `CWalletDB::EraseKey`. -/
def eraseKey (file : WalletFile) (calls : RemoveCalls) (vchPubKey : CPubKey) : Bool × WalletFile :=
  if calls.eraseKey = false then (false, file)
  else
    let file := { file with key := file.key.erase vchPubKey }
    if calls.eraseWKey = false then (false, file)
    else
      let file := { file with wkey := file.wkey.erase vchPubKey }
      if calls.eraseCKey = false then (false, file)
      else
        let file := { file with ckey := file.ckey.erase vchPubKey }
        if calls.eraseKeyMeta = false then (false, file)
        else (true, { file with keymeta := file.keymeta.erase vchPubKey })

/-! ## What LoadWallet makes of the file -/

/-- `CKeyMetadata(nCreateTime)`. -/
def keyMetadataOf (nCreateTime : Int) : CKeyMetadata :=
  ⟨1, nCreateTime⟩

/-- The records of the plain keys; the `wkey` records are read last. -/
def plainKeys (file : WalletFile) : List (Σ _ : CPubKey, CKey) :=
  file.wkey.entries ++ file.key.entries

def loadKeys (C : WalletCrypto) (file : WalletFile) : Table CKeyID CKey :=
  (file.plainKeys.map fun e => (⟨CPubKey.getID C e.1, e.2⟩ : Σ _ : CKeyID, CKey)).toAList

def loadCryptedKeys (C : WalletCrypto) (file : WalletFile) : Table CKeyID (CPubKey × Bytes) :=
  (file.ckey.entries.map fun e => (⟨CPubKey.getID C e.1, (e.1, e.2)⟩ : Σ _ : CKeyID, CPubKey × Bytes)).toAList

/-- A stored record goes before the default that a `pool` record gives. -/
def loadKeyMetadata (C : WalletCrypto) (file : WalletFile) : Table CKeyID CKeyMetadata :=
  let stored : List (Σ _ : CKeyID, CKeyMetadata) :=
    file.keymeta.entries.map fun e => ⟨CPubKey.getID C e.1, e.2⟩
  let pooled : List (Σ _ : CKeyID, CKeyMetadata) :=
    file.pool.entries.map fun e => ⟨CPubKey.getID C e.2.vchPubKey, keyMetadataOf e.2.nTime⟩
  (stored ++ pooled).toAList

def loadWatchOnly (file : WalletFile) : List CScript :=
  (file.watchs.entries.filter fun e => e.2 = '1').map fun e => e.1

/-- The addresses that a record names. -/
def addresses (file : WalletFile) : List CTxDestination :=
  file.name.keys ++ file.purpose.keys ++ file.destdata.keys.map Prod.fst

def loadAddressBookData (file : WalletFile) (dest : CTxDestination) : CAddressBookData where
  name := (file.name.lookup dest).getD ""
  purpose := (file.purpose.lookup dest).getD "unknown"
  destdata := (row dest file.destdata).toAList

def loadAddressBook (file : WalletFile) : Table CTxDestination CAddressBookData :=
  tableOf file.addresses file.loadAddressBookData

/-- There is a record of this public key. -/
def Names (file : WalletFile) (vchPubKey : CPubKey) : Prop :=
  vchPubKey ∈ file.key.keys ∨ vchPubKey ∈ file.wkey.keys ∨ vchPubKey ∈ file.ckey.keys ∨
    vchPubKey ∈ file.keymeta.keys

/-- Nothing in the file makes `LoadWallet` report a corrupt wallet: each plain key is the one of its public key,
and a wallet is plain or encrypted.  No two public keys have one ID. -/
structure Loads (C : WalletCrypto) (file : WalletFile) : Prop where
  pubKeys : ∀ e ∈ file.plainKeys, C.getPubKey e.2.vch e.2.fCompressed = e.1
  plain : file.ckey.entries = [] ∨ file.plainKeys = []
  apart : Set.InjOn (CPubKey.getID C) {vchPubKey | file.Names vchPubKey}

end WalletFile

namespace CWallet

/-- The wallet after a restart. -/
def reloaded (C : WalletCrypto) (w : CWallet) : CWallet :=
  { w with
    keystore :=
      { mapKeys := w.file.loadKeys C
        setWatchOnly := w.file.loadWatchOnly
        mapCryptedKeys := w.file.loadCryptedKeys C
        vMasterKey := []
        fUseCrypto := !w.file.ckey.entries.isEmpty
        fDecryptionThoroughlyChecked := false }
    mapMasterKeys := w.file.mkey
    mapKeyMetadata := w.file.loadKeyMetadata C
    mapAddressBook := w.file.loadAddressBook
    setKeyPool := w.file.pool.keys }

/-- What the address book says of an address. -/
def bookEntry (w : CWallet) (dest : CTxDestination) : Option (String × String × (String → Option String)) :=
  (w.mapAddressBook.lookup dest).map fun data => (data.name, data.purpose, data.destdata.lookup)

/-- The same wallet, apart from being locked and from the keys of the pool that are reserved. -/
structure Same (w w' : CWallet) : Prop where
  keys : ∀ id, w.keystore.mapKeys.lookup id = w'.keystore.mapKeys.lookup id
  cryptedKeys : ∀ id, w.keystore.mapCryptedKeys.lookup id = w'.keystore.mapCryptedKeys.lookup id
  crypted : w.keystore.fUseCrypto = w'.keystore.fUseCrypto
  watchOnly : ∀ dest, dest ∈ w.keystore.setWatchOnly ↔ dest ∈ w'.keystore.setWatchOnly
  masterKeys : ∀ nID, w.mapMasterKeys.lookup nID = w'.mapMasterKeys.lookup nID
  metadata : ∀ id, w.mapKeyMetadata.lookup id = w'.mapKeyMetadata.lookup id
  addressBook : ∀ dest, w.bookEntry dest = w'.bookEntry dest

/-- A wallet with a file that gives the same wallet after a restart. -/
structure Backed (C : WalletCrypto) (w : CWallet) : Prop where
  fileBacked : w.fFileBacked = true
  loads : w.file.Loads C
  same : (w.reloaded C).Same w

/-! ## RemovePrivKey -/

def addWatchOnly (w : CWallet) (calls : RemoveCalls) (dest : CScript) : Bool × CWallet :=
  let w := { w with keystore := { w.keystore with setWatchOnly := w.keystore.setWatchOnly.insert dest } }
  if w.fFileBacked = false then (true, w)
  else if calls.writeWatchOnly = false then (false, w)
  else (true, { w with file := { w.file with watchs := w.file.watchs.insert dest '1' } })

/-- The erases of `DelAddressBook`, whose outcomes are not looked at. -/
def eraseAddress (w : CWallet) (calls : RemoveCalls) (address : CTxDestination) : WalletFile :=
  let keys := ((w.mapAddressBook.lookup address).map fun data => data.destdata.keys).getD []
  let erased := (keys.filter calls.eraseDestData).map fun key => (address, key)
  { w.file with
    destdata := erased.foldl (fun t key => t.erase key) w.file.destdata
    purpose := if calls.erasePurpose then w.file.purpose.erase address else w.file.purpose
    name := if calls.eraseName then w.file.name.erase address else w.file.name }

def delAddressBook (w : CWallet) (calls : RemoveCalls) (address : CTxDestination) : CWallet :=
  let file := if w.fFileBacked then w.eraseAddress calls address else w.file
  { w with file, mapAddressBook := w.mapAddressBook.erase address }

/-- The key is the one of a `pool` record that is read. -/
def inKeyPool (C : WalletCrypto) (w : CWallet) (calls : RemoveCalls) (keyID : CKeyID) : Bool :=
  w.setKeyPool.any fun nIndex =>
    match (if calls.readPool nIndex then w.file.pool.lookup nIndex else none) with
    | none => false
    | some keypool => CPubKey.getID C keypool.vchPubKey == keyID

/-- The first part of `RemovePrivKey`: what is refused. -/
def removable (C : WalletCrypto) (w : CWallet) (calls : RemoveCalls) (keyID : CKeyID) (fForce : Bool) :
    Except String CPubKey :=
  if w.keystore.haveKey keyID = false then .error "Private key for this address is not in the wallet"
  else
    match w.keystore.getPubKey C keyID with
    | none => .error "Private key for this address is not in the wallet"
    | some vchPubKey =>
      if vchPubKey = w.vchDefaultKey then .error "Refusing to remove the wallet's default key"
      else if fForce = false ∧ (w.mapAddressBook.lookup (.keyID keyID)).isSome = false then
        .error "Key has no address-book entry, so the wallet treats it as a change address; pass force=true to remove it anyway"
      else if w.fFileBacked = true ∧ w.inKeyPool C calls keyID = true then
        .error "Key is still in the keypool (not yet handed out); refusing to remove it"
      else .ok vchPubKey

/-- The last part of `RemovePrivKey`: the key is gone from the file and from memory. -/
def finishRemoval (w : CWallet) (calls : RemoveCalls) (keyID : CKeyID) (fKeepWatchOnly : Bool) :
    Except String Unit × CWallet :=
  let script := getScriptForDestination keyID
  let watched :=
    if fKeepWatchOnly = true ∧ w.keystore.haveWatchOnly script = false then w.addWatchOnly calls script
    else (true, w)
  let w := watched.2
  if watched.1 = false then (.error "Key removed, but adding the address as watch-only failed", w)
  else if w.keystore.haveKey keyID = true then (.error "The key is still in the wallet after removing it", w)
  else if fKeepWatchOnly = false ∧ (w.mapAddressBook.lookup (.keyID keyID)).isSome = true then
    (.ok (), w.delAddressBook calls (.keyID keyID))
  else (.ok (), w)

/-- `RemovePrivKey`, with what it reports in `strError`. -/
def removePrivKey (C : WalletCrypto) (w : CWallet) (calls : RemoveCalls) (keyID : CKeyID)
    (fKeepWatchOnly fForce : Bool) : Except String Unit × CWallet :=
  match w.removable C calls keyID fForce with
  | .error strError => (.error strError, w)
  | .ok vchPubKey =>
    let erased := if w.fFileBacked then w.file.eraseKey calls vchPubKey else (true, w.file)
    let w := { w with file := erased.2 }
    if erased.1 = false then (.error "Failed to erase the key from the wallet file", w)
    else
      let w := { w with keystore := w.keystore.removeKey keyID, mapKeyMetadata := w.mapKeyMetadata.erase keyID }
      w.finishRemoval calls keyID fKeepWatchOnly

end CWallet

/-! ## The records of one key -/

namespace WalletFile

variable {C : WalletCrypto} {file : WalletFile} {calls : RemoveCalls} {vchPubKey : CPubKey}

/-- The file without the records of a key. -/
def withoutKey (file : WalletFile) (vchPubKey : CPubKey) : WalletFile :=
  { file with
    key := file.key.erase vchPubKey
    wkey := file.wkey.erase vchPubKey
    ckey := file.ckey.erase vchPubKey
    keymeta := file.keymeta.erase vchPubKey }

/-- Every erase of `EraseKey` succeeds. -/
def ErasesAll (calls : RemoveCalls) : Prop :=
  calls.eraseKey = true ∧ calls.eraseWKey = true ∧ calls.eraseCKey = true ∧ calls.eraseKeyMeta = true

instance (calls : RemoveCalls) : Decidable (ErasesAll calls) := by
  unfold ErasesAll
  infer_instance

/-- The erases before the first that fails have nothing to erase. -/
structure StopsClean (calls : RemoveCalls) (file : WalletFile) (vchPubKey : CPubKey) : Prop where
  key : calls.eraseKey = true → file.key.lookup vchPubKey = none
  wkey : calls.eraseKey = true → calls.eraseWKey = true → file.wkey.lookup vchPubKey = none
  ckey : calls.eraseKey = true → calls.eraseWKey = true → calls.eraseCKey = true →
    file.ckey.lookup vchPubKey = none

theorem eraseKey_of_erasesAll (h : ErasesAll calls) :
    file.eraseKey calls vchPubKey = (true, file.withoutKey vchPubKey) := by
  rcases h with ⟨hkey, hwkey, hckey, hkeymeta⟩
  simp [eraseKey, withoutKey, hkey, hwkey, hckey, hkeymeta]

theorem eraseKey_of_not_erasesAll (h : ¬ ErasesAll calls) : (file.eraseKey calls vchPubKey).1 = false := by
  unfold eraseKey
  dsimp only
  split_ifs with hkey hwkey hckey hkeymeta
  · rfl
  · rfl
  · rfl
  · rfl
  · exact absurd ⟨Bool.eq_true_of_not_eq_false hkey, Bool.eq_true_of_not_eq_false hwkey,
      Bool.eq_true_of_not_eq_false hckey, Bool.eq_true_of_not_eq_false hkeymeta⟩ h

theorem erase_eq_self_iff {V : Type} (t : Table CPubKey V) :
    t.erase vchPubKey = t ↔ t.lookup vchPubKey = none := by
  constructor
  · intro h
    rw [← h, AList.lookup_erase]
  · exact MapIndex.erase_of_lookup_none

/-- An erase that fails leaves the file alone only when those before it had nothing to do. -/
theorem eraseKey_eq_self_iff (h : ¬ ErasesAll calls) :
    (file.eraseKey calls vchPubKey).2 = file ↔ StopsClean calls file vchPubKey := by
  have hstops : StopsClean calls file vchPubKey ↔
      (calls.eraseKey = true → file.key.lookup vchPubKey = none) ∧
      (calls.eraseKey = true → calls.eraseWKey = true → file.wkey.lookup vchPubKey = none) ∧
      (calls.eraseKey = true → calls.eraseWKey = true → calls.eraseCKey = true →
        file.ckey.lookup vchPubKey = none) :=
    ⟨fun s => ⟨s.key, s.wkey, s.ckey⟩, fun s => ⟨s.1, s.2.1, s.2.2⟩⟩
  rw [hstops]
  rcases file with ⟨key, wkey, ckey, keymeta, mkey, watchs, pool, name, purpose, destdata⟩
  unfold eraseKey
  unfold ErasesAll at h
  dsimp only
  split_ifs with hkey hwkey hckey hkeymeta
  · simp [hkey]
  · simp [hkey, hwkey, erase_eq_self_iff]
  · simp [hkey, hwkey, hckey, erase_eq_self_iff]
  · simp [hkey, hwkey, hckey, erase_eq_self_iff]
  · simp_all

/-! ## Loading after an erase -/

theorem lookup_loadKeys (id : CKeyID) :
    (file.loadKeys C).lookup id =
      (file.plainKeys.find? fun e => decide (CPubKey.getID C e.1 = id)).map fun e => e.2 := by
  rw [loadKeys, AList.lookup_to_alist]
  exact dlookup_map _ _ id file.plainKeys

theorem lookup_loadCryptedKeys (id : CKeyID) :
    (file.loadCryptedKeys C).lookup id =
      (file.ckey.entries.find? fun e => decide (CPubKey.getID C e.1 = id)).map fun e => (e.1, e.2) := by
  rw [loadCryptedKeys, AList.lookup_to_alist]
  exact dlookup_map _ _ id file.ckey.entries

theorem lookup_loadKeyMetadata (id : CKeyID) :
    (file.loadKeyMetadata C).lookup id =
      ((file.keymeta.entries.find? fun e => decide (CPubKey.getID C e.1 = id)).map fun e => e.2).or
        ((file.pool.entries.find? fun e => decide (CPubKey.getID C e.2.vchPubKey = id)).map
          fun e => keyMetadataOf e.2.nTime) := by
  rw [loadKeyMetadata, AList.lookup_to_alist, List.dlookup_append]
  congr 1
  · exact dlookup_map _ _ id file.keymeta.entries
  · exact dlookup_map _ _ id file.pool.entries

/-- An erased key is not found any more, and the others are found as before. -/
theorem find?_erase {V : Type} {t : Table CPubKey V} (vchPubKey : CPubKey)
    (hapart : ∀ e ∈ t.entries, CPubKey.getID C e.1 = CPubKey.getID C vchPubKey → e.1 = vchPubKey) (id : CKeyID) :
    ((t.erase vchPubKey).entries.find? fun e => decide (CPubKey.getID C e.1 = id)) =
      if id = CPubKey.getID C vchPubKey then none
      else t.entries.find? fun e => decide (CPubKey.getID C e.1 = id) := by
  split_ifs with hid
  · subst hid
    exact find?_kerase_eq_none t.nodupKeys fun e he heq => hapart e he (of_decide_eq_true heq)
  · refine find?_kerase t.entries fun e he => ?_
    subst he
    exact decide_eq_false fun heq => hid heq.symm

/-! ## The address book of a file -/

def bookEntry (file : WalletFile) (dest : CTxDestination) : Option (String × String × (String → Option String)) :=
  if dest ∈ file.addresses then
    some ((file.name.lookup dest).getD "", (file.purpose.lookup dest).getD "unknown",
      fun key => file.destdata.lookup (dest, key))
  else none

theorem mem_addresses_iff (dest : CTxDestination) :
    dest ∈ file.addresses ↔ (file.name.lookup dest).isSome = true ∨ (file.purpose.lookup dest).isSome = true ∨
      ∃ key, (file.destdata.lookup (dest, key)).isSome = true := by
  simp only [addresses, List.append_assoc, List.mem_append, AList.lookup_isSome, AList.mem_keys, List.mem_map,
    Prod.exists, exists_and_right, exists_eq_right]

theorem bookEntry_eq_none_iff (dest : CTxDestination) :
    file.bookEntry dest = none ↔ file.name.lookup dest = none ∧ file.purpose.lookup dest = none ∧
      ∀ key, file.destdata.lookup (dest, key) = none := by
  rw [bookEntry, ite_eq_right_iff]
  simp only [reduceCtorEq, imp_false, mem_addresses_iff, not_or, not_exists, Option.isSome_iff_ne_none, not_not]

theorem bookEntry_congr {file' : WalletFile} {dest : CTxDestination}
    (hname : file.name.lookup dest = file'.name.lookup dest)
    (hpurpose : file.purpose.lookup dest = file'.purpose.lookup dest)
    (hdestdata : ∀ key, file.destdata.lookup (dest, key) = file'.destdata.lookup (dest, key)) :
    file.bookEntry dest = file'.bookEntry dest := by
  have haddress : dest ∈ file.addresses ↔ dest ∈ file'.addresses := by
    simp only [mem_addresses_iff, hname, hpurpose, hdestdata]
  simp only [bookEntry, haddress, hname, hpurpose, hdestdata]

/-- Every record of the address that there is gets erased. -/
structure AddressErased (calls : RemoveCalls) (file : WalletFile) (dest : CTxDestination) : Prop where
  name : file.name.lookup dest ≠ none → calls.eraseName = true
  purpose : file.purpose.lookup dest ≠ none → calls.erasePurpose = true
  destdata : ∀ key, file.destdata.lookup (dest, key) ≠ none → calls.eraseDestData key = true

end WalletFile

namespace CWallet

open WalletFile

variable {C : WalletCrypto} {w w' : CWallet} {calls : RemoveCalls} {keyID : CKeyID} {vchPubKey : CPubKey}

theorem bookEntry_reloaded (dest : CTxDestination) : (w.reloaded C).bookEntry dest = w.file.bookEntry dest := by
  have hload : (w.reloaded C).mapAddressBook = w.file.loadAddressBook := rfl
  rw [CWallet.bookEntry, hload, loadAddressBook, lookup_tableOf, WalletFile.bookEntry]
  split_ifs
  · have hrow : (w.file.loadAddressBookData dest).destdata.lookup =
        fun key => w.file.destdata.lookup (dest, key) := by
      funext key
      exact (AList.lookup_to_alist _).trans (dlookup_row dest w.file.destdata key)
    rw [Option.map_some, hrow]
    rfl
  · rfl

/-! ## What the key of a wallet is in its file -/

theorem removable_ok {fForce : Bool} (h : w.removable C calls keyID fForce = .ok vchPubKey) :
    w.keystore.getPubKey C keyID = some vchPubKey := by
  unfold removable at h
  cases hget : w.keystore.getPubKey C keyID with
  | none =>
    simp only [hget] at h
    split_ifs at h
  | some vchPubKey' =>
    simp only [hget] at h
    split_ifs at h
    exact congrArg some (Except.ok.inj h)

/-- The public key that the key store gives is one of the file, and its ID is the one asked for. -/
theorem Backed.pubKey (hw : Backed C w) (h : w.keystore.getPubKey C keyID = some vchPubKey) :
    CPubKey.getID C vchPubKey = keyID ∧ w.file.Names vchPubKey := by
  unfold CCryptoKeyStore.getPubKey at h
  split_ifs at h
  · rcases Option.map_eq_some_iff.1 h with ⟨stored, hlookup, rfl⟩
    have hloaded : (w.file.loadCryptedKeys C).lookup keyID = some stored := (hw.same.cryptedKeys keyID).trans hlookup
    rw [lookup_loadCryptedKeys] at hloaded
    rcases Option.map_eq_some_iff.1 hloaded with ⟨e, hfind, rfl⟩
    have hid := List.find?_some (p := fun e : Σ _ : CPubKey, Bytes => decide (CPubKey.getID C e.1 = keyID)) hfind
    refine ⟨of_decide_eq_true hid, ?_⟩
    exact .inr (.inr (.inl (List.mem_keys_of_mem (List.mem_of_find?_eq_some hfind))))
  · rcases Option.map_eq_some_iff.1 h with ⟨key, hlookup, rfl⟩
    have hloaded : (w.file.loadKeys C).lookup keyID = some key := (hw.same.keys keyID).trans hlookup
    rw [lookup_loadKeys] at hloaded
    rcases Option.map_eq_some_iff.1 hloaded with ⟨e, hfind, rfl⟩
    have hmem : e ∈ w.file.plainKeys := List.mem_of_find?_eq_some hfind
    rw [hw.loads.pubKeys e hmem]
    have hid := List.find?_some (p := fun e : Σ _ : CPubKey, CKey => decide (CPubKey.getID C e.1 = keyID)) hfind
    refine ⟨of_decide_eq_true hid, ?_⟩
    rcases List.mem_append.1 hmem with hmem | hmem
    · exact .inr (.inl (List.mem_keys_of_mem hmem))
    · exact .inl (List.mem_keys_of_mem hmem)

/-! ## The wallet without the key -/

/-- The key, its records and its metadata are gone, and the other keys are as they were. -/
structure Dropped (w : CWallet) (keyID : CKeyID) (vchPubKey : CPubKey) (w' : CWallet) : Prop where
  mapKeys : w'.keystore.mapKeys = (w.keystore.removeKey keyID).mapKeys
  mapCryptedKeys : w'.keystore.mapCryptedKeys = (w.keystore.removeKey keyID).mapCryptedKeys
  fUseCrypto : w'.keystore.fUseCrypto = w.keystore.fUseCrypto
  masterKeys : w'.mapMasterKeys = w.mapMasterKeys
  metadata : w'.mapKeyMetadata = w.mapKeyMetadata.erase keyID
  key : w'.file.key = w.file.key.erase vchPubKey
  wkey : w'.file.wkey = w.file.wkey.erase vchPubKey
  ckey : w'.file.ckey = w.file.ckey.erase vchPubKey
  keymeta : w'.file.keymeta = w.file.keymeta.erase vchPubKey
  mkey : w'.file.mkey = w.file.mkey
  pool : w'.file.pool = w.file.pool

section

variable (hw : Backed C w) (hid : CPubKey.getID C vchPubKey = keyID) (hnames : w.file.Names vchPubKey)
  (hdropped : Dropped w keyID vchPubKey w')
include hw hid hnames hdropped

omit hdropped in
theorem Backed.apart {pubKey : CPubKey} (h : w.file.Names pubKey) (heq : CPubKey.getID C pubKey = keyID) :
    pubKey = vchPubKey :=
  hw.loads.apart h hnames (heq.trans hid.symm)

/-- The plain keys that are loaded. -/
theorem Dropped.lookup_loadKeys (id : CKeyID) :
    (w'.file.loadKeys C).lookup id = if id = keyID then none else (w.file.loadKeys C).lookup id := by
  have hwkey := find?_erase (C := C) (t := w.file.wkey) vchPubKey
    (fun e he heq => hw.apart hid hnames (.inr (.inl (List.mem_keys_of_mem he))) (heq.trans hid)) id
  have hkey := find?_erase (C := C) (t := w.file.key) vchPubKey
    (fun e he heq => hw.apart hid hnames (.inl (List.mem_keys_of_mem he)) (heq.trans hid)) id
  rw [hid] at hwkey hkey
  rw [WalletFile.lookup_loadKeys, WalletFile.lookup_loadKeys, plainKeys, plainKeys, List.find?_append,
    List.find?_append, hdropped.wkey, hdropped.key, hwkey, hkey]
  split_ifs <;> rfl

theorem Dropped.lookup_loadCryptedKeys (id : CKeyID) :
    (w'.file.loadCryptedKeys C).lookup id = if id = keyID then none else (w.file.loadCryptedKeys C).lookup id := by
  have hckey := find?_erase (C := C) (t := w.file.ckey) vchPubKey
    (fun e he heq => hw.apart hid hnames (.inr (.inr (.inl (List.mem_keys_of_mem he)))) (heq.trans hid)) id
  rw [hid] at hckey
  rw [WalletFile.lookup_loadCryptedKeys, WalletFile.lookup_loadCryptedKeys, hdropped.ckey, hckey]
  split_ifs <;> rfl

theorem Dropped.keys (id : CKeyID) :
    (w'.file.loadKeys C).lookup id = w'.keystore.mapKeys.lookup id := by
  have hsame : (w.file.loadKeys C).lookup id = w.keystore.mapKeys.lookup id := hw.same.keys id
  rw [hdropped.lookup_loadKeys hw hid hnames, hdropped.mapKeys, CCryptoKeyStore.removeKey]
  by_cases hcrypted : w.keystore.isCrypted = true
  · rw [if_pos hcrypted]
    -- An encrypted wallet has no plain keys at all.
    have hckey : w.file.ckey.entries ≠ [] := by
      intro hnil
      have hload : (!w.file.ckey.entries.isEmpty) = true := hw.same.crypted.trans hcrypted
      rw [hnil] at hload
      cases hload
    have hplain : w.file.plainKeys = [] := hw.loads.plain.resolve_left hckey
    rw [WalletFile.lookup_loadKeys, hplain] at hsame ⊢
    rw [← hsame]
    split_ifs <;> rfl
  · rw [if_neg hcrypted]
    split_ifs with heq
    · rw [heq, AList.lookup_erase]
    · rw [AList.lookup_erase_ne heq, hsame]

theorem Dropped.cryptedKeys (id : CKeyID) :
    (w'.file.loadCryptedKeys C).lookup id = w'.keystore.mapCryptedKeys.lookup id := by
  have hsame : (w.file.loadCryptedKeys C).lookup id = w.keystore.mapCryptedKeys.lookup id := hw.same.cryptedKeys id
  rw [hdropped.lookup_loadCryptedKeys hw hid hnames, hdropped.mapCryptedKeys, CCryptoKeyStore.removeKey]
  by_cases hcrypted : w.keystore.isCrypted = true
  · rw [if_pos hcrypted]
    split_ifs with heq
    · rw [heq, AList.lookup_erase]
    · rw [AList.lookup_erase_ne heq, hsame]
  · rw [if_neg hcrypted]
    -- A plain wallet has no encrypted keys at all.
    have hckey : w.file.ckey.entries = [] := by
      have hload : (!w.file.ckey.entries.isEmpty) = w.keystore.isCrypted := hw.same.crypted
      rw [Bool.eq_false_of_not_eq_true hcrypted, Bool.not_eq_false'] at hload
      exact List.isEmpty_iff.1 hload
    rw [WalletFile.lookup_loadCryptedKeys, hckey] at hsame ⊢
    rw [← hsame]
    split_ifs <;> rfl

omit hid hnames in
/-- Without its last encrypted key a wallet is loaded as a plain one. -/
theorem Dropped.crypted_iff :
    (!w'.file.ckey.entries.isEmpty) = w'.keystore.fUseCrypto ↔
      (w.keystore.fUseCrypto = true → ∃ other ∈ w.file.ckey.keys, other ≠ vchPubKey) := by
  have hload : (!w.file.ckey.entries.isEmpty) = w.keystore.fUseCrypto := hw.same.crypted
  rw [hdropped.fUseCrypto, hdropped.ckey, ← erase_entries_ne_nil_iff]
  cases hcrypted : w.keystore.fUseCrypto with
  | true => simp
  | false =>
    rw [hcrypted, Bool.not_eq_false', List.isEmpty_iff] at hload
    have hnil : (w.file.ckey.erase vchPubKey).entries = [] := by
      have herase : (w.file.ckey.erase vchPubKey).entries = w.file.ckey.entries.kerase vchPubKey := rfl
      rw [herase, hload, List.kerase_nil]
    simp [hnil]

/-- A `pool` record brings metadata of the key back. -/
theorem Dropped.metadata_iff :
    (∀ id, (w'.file.loadKeyMetadata C).lookup id = w'.mapKeyMetadata.lookup id) ↔
      ∀ e ∈ w.file.pool.entries, CPubKey.getID C e.2.vchPubKey ≠ keyID := by
  have hload : ∀ id, (w'.file.loadKeyMetadata C).lookup id =
      ((if id = keyID then none else
          w.file.keymeta.entries.find? fun e => decide (CPubKey.getID C e.1 = id)).map fun e => e.2).or
        ((w.file.pool.entries.find? fun e => decide (CPubKey.getID C e.2.vchPubKey = id)).map
          fun e => keyMetadataOf e.2.nTime) := by
    intro id
    have hkeymeta := find?_erase (C := C) (t := w.file.keymeta) vchPubKey
      (fun e he heq => hw.apart hid hnames (.inr (.inr (.inr (List.mem_keys_of_mem he)))) (heq.trans hid)) id
    rw [hid] at hkeymeta
    rw [WalletFile.lookup_loadKeyMetadata, hdropped.keymeta, hdropped.pool, hkeymeta]
  constructor
  · intro h
    have hkey := h keyID
    rw [hload, if_pos rfl, Option.map_none, Option.none_or, hdropped.metadata, AList.lookup_erase,
      Option.map_eq_none_iff, List.find?_eq_none] at hkey
    exact fun e he heq => hkey e he (decide_eq_true heq)
  · intro h id
    have hsame : (w.file.loadKeyMetadata C).lookup id = w.mapKeyMetadata.lookup id := hw.same.metadata id
    rw [WalletFile.lookup_loadKeyMetadata] at hsame
    rw [hload, hdropped.metadata]
    by_cases heq : id = keyID
    · have hnone : (w.file.pool.entries.find? fun e => decide (CPubKey.getID C e.2.vchPubKey = id)) = none :=
        List.find?_eq_none.2 fun e he hpool => h e he ((of_decide_eq_true hpool).trans heq)
      rw [hnone, if_pos heq, heq, AList.lookup_erase]
      rfl
    · rw [if_neg heq, AList.lookup_erase_ne heq, hsame]

/-- What is left to be said about a reload, once the key is gone. -/
theorem Dropped.same_iff :
    (w'.reloaded C).Same w' ↔
      (w.keystore.fUseCrypto = true → ∃ other ∈ w.file.ckey.keys, other ≠ vchPubKey) ∧
      (∀ e ∈ w.file.pool.entries, CPubKey.getID C e.2.vchPubKey ≠ keyID) ∧
      (∀ dest, dest ∈ w'.file.loadWatchOnly ↔ dest ∈ w'.keystore.setWatchOnly) ∧
      ∀ dest, w'.file.bookEntry dest = w'.bookEntry dest := by
  constructor
  · intro h
    refine ⟨(hdropped.crypted_iff hw).1 h.crypted, (hdropped.metadata_iff hw hid hnames).1 h.metadata,
      h.watchOnly, fun dest => ?_⟩
    rw [← bookEntry_reloaded]
    exact h.addressBook dest
  · rintro ⟨hcrypted, hpool, hwatch, hbook⟩
    constructor
    · exact hdropped.keys hw hid hnames
    · exact hdropped.cryptedKeys hw hid hnames
    · exact (hdropped.crypted_iff hw).2 hcrypted
    · exact hwatch
    · intro nID
      rw [hdropped.masterKeys, ← hw.same.masterKeys nID]
      exact congrArg (AList.lookup nID) hdropped.mkey
    · exact (hdropped.metadata_iff hw hid hnames).2 hpool
    · intro dest
      rw [bookEntry_reloaded]
      exact hbook dest

/-- Nothing of the key is left in the file or in memory. -/
structure Gone (C : WalletCrypto) (keyID : CKeyID) (w : CWallet) : Prop where
  key : ∀ pubKey, CPubKey.getID C pubKey = keyID → w.file.key.lookup pubKey = none
  wkey : ∀ pubKey, CPubKey.getID C pubKey = keyID → w.file.wkey.lookup pubKey = none
  ckey : ∀ pubKey, CPubKey.getID C pubKey = keyID → w.file.ckey.lookup pubKey = none
  keymeta : ∀ pubKey, CPubKey.getID C pubKey = keyID → w.file.keymeta.lookup pubKey = none
  haveKey : w.keystore.haveKey keyID = false

theorem Dropped.gone : Gone C keyID w' := by
  have herased : ∀ {V : Type} (t : Table CPubKey V), (∀ pubKey ∈ t.keys, w.file.Names pubKey) →
      ∀ pubKey, CPubKey.getID C pubKey = keyID → (t.erase vchPubKey).lookup pubKey = none := by
    intro V t ht pubKey heq
    rw [AList.lookup_eq_none, AList.mem_erase]
    exact fun h => h.1 (hw.apart hid hnames (ht pubKey h.2) heq)
  constructor
  · rw [hdropped.key]
    exact herased _ fun _ h => .inl h
  · rw [hdropped.wkey]
    exact herased _ fun _ h => .inr (.inl h)
  · rw [hdropped.ckey]
    exact herased _ fun _ h => .inr (.inr (.inl h))
  · rw [hdropped.keymeta]
    exact herased _ fun _ h => .inr (.inr (.inr h))
  · unfold CCryptoKeyStore.haveKey CCryptoKeyStore.isCrypted
    rw [hdropped.fUseCrypto, hdropped.mapKeys, hdropped.mapCryptedKeys, CCryptoKeyStore.removeKey,
      CCryptoKeyStore.isCrypted]
    split_ifs
    · simp
    · simp

end

/-! ## The address book and the scripts that are watched -/

theorem mem_loadWatchOnly_iff (file : WalletFile) (dest : CScript) :
    dest ∈ file.loadWatchOnly ↔ file.watchs.lookup dest = some '1' := by
  rw [← Option.mem_def, AList.mem_lookup_iff, loadWatchOnly, List.mem_map]
  constructor
  · rintro ⟨⟨dest', fYes⟩, hmem, rfl⟩
    rcases List.mem_filter.1 hmem with ⟨hin, hyes⟩
    obtain rfl : fYes = '1' := of_decide_eq_true hyes
    exact hin
  · intro hin
    exact ⟨_, List.mem_filter.2 ⟨hin, decide_eq_true rfl⟩, rfl⟩

/-- A script that is watched on disk and in memory. -/
theorem addWatchOnly_watched (hbacked : w.fFileBacked = true) (hwrite : calls.writeWatchOnly = true) (script : CScript)
    (h : ∀ dest, dest ∈ w.file.loadWatchOnly ↔ dest ∈ w.keystore.setWatchOnly) (dest : CScript) :
    dest ∈ (w.addWatchOnly calls script).2.file.loadWatchOnly ↔
      dest ∈ (w.addWatchOnly calls script).2.keystore.setWatchOnly := by
  simp only [addWatchOnly, hbacked, hwrite, Bool.true_eq_false, if_false, mem_loadWatchOnly_iff, List.mem_insert_iff]
  by_cases hdest : dest = script
  · subst hdest
    simp [AList.lookup_insert]
  · rw [AList.lookup_insert_ne hdest, ← mem_loadWatchOnly_iff, h]
    simp [hdest]

/-- An entry of the book is gone from the file when all its records have been erased. -/
theorem delAddressBook_entries (calls : RemoveCalls) (hbacked : w.fFileBacked = true) (dest : CTxDestination)
    (h : ∀ dest, w.file.bookEntry dest = w.bookEntry dest) :
    (∀ dest', (w.delAddressBook calls dest).file.bookEntry dest' = (w.delAddressBook calls dest).bookEntry dest') ↔
      AddressErased calls w.file dest := by
  have hfile : (w.delAddressBook calls dest).file = w.eraseAddress calls dest := if_pos hbacked
  have hkeys : ∀ key, key ∈ ((w.mapAddressBook.lookup dest).map fun data => data.destdata.keys).getD [] ↔
      w.file.destdata.lookup (dest, key) ≠ none := by
    intro key
    have hdest := h dest
    unfold CWallet.bookEntry at hdest
    cases hentry : w.mapAddressBook.lookup dest with
    | none =>
      rw [hentry, Option.map_none, bookEntry_eq_none_iff] at hdest
      simp [hdest.2.2 key]
    | some data =>
      rw [hentry, Option.map_some, WalletFile.bookEntry] at hdest
      split_ifs at hdest with haddress
      have hrow : (fun key => w.file.destdata.lookup (dest, key)) = data.destdata.lookup :=
        (Prod.mk.inj (Prod.mk.inj (Option.some.inj hdest)).2).2
      have hlookup : w.file.destdata.lookup (dest, key) = data.destdata.lookup key := congrFun hrow key
      rw [hlookup, Option.map_some, Option.getD_some, ← AList.mem_keys, ne_eq, AList.lookup_eq_none, not_not]
  have hdestdata : ∀ dest' key, (w.eraseAddress calls dest).destdata.lookup (dest', key) =
      if dest' = dest ∧ w.file.destdata.lookup (dest, key) ≠ none ∧ calls.eraseDestData key = true then none
      else w.file.destdata.lookup (dest', key) := by
    intro dest' key
    rw [eraseAddress, lookup_foldl_erase]
    by_cases hcond : dest' = dest ∧ w.file.destdata.lookup (dest, key) ≠ none ∧ calls.eraseDestData key = true
    · rcases hcond with ⟨rfl, hin, herase⟩
      have hkey := List.mem_filter.2 ⟨(hkeys key).2 hin, herase⟩
      have hmem := List.mem_map_of_mem (f := fun key => (dest', key)) hkey
      exact (if_pos hmem).trans (if_pos ⟨rfl, hin, herase⟩).symm
    · refine Eq.trans (if_neg fun hmem => ?_) (if_neg hcond).symm
      rcases List.mem_map.1 hmem with ⟨key', hin, heq⟩
      obtain ⟨rfl, rfl⟩ := Prod.mk.inj heq
      rcases List.mem_filter.1 hin with ⟨hin, herase⟩
      exact hcond ⟨rfl, (hkeys _).1 hin, herase⟩
  have hother : ∀ dest', dest' ≠ dest →
      (w.delAddressBook calls dest).file.bookEntry dest' = (w.delAddressBook calls dest).bookEntry dest' := by
    intro dest' hne
    have hbook : (w.delAddressBook calls dest).bookEntry dest' = w.bookEntry dest' :=
      congrArg (Option.map _) (AList.lookup_erase_ne hne)
    rw [hbook, hfile, ← h dest']
    apply bookEntry_congr
    · simp only [eraseAddress]
      split_ifs
      · exact AList.lookup_erase_ne hne
      · rfl
    · simp only [eraseAddress]
      split_ifs
      · exact AList.lookup_erase_ne hne
      · rfl
    · intro key
      rw [hdestdata, if_neg fun hcond => hne hcond.1]
  have hself : (w.delAddressBook calls dest).bookEntry dest = none :=
    congrArg (Option.map _) (AList.lookup_erase dest w.mapAddressBook)
  have hnone : (w.eraseAddress calls dest).bookEntry dest = none ↔ AddressErased calls w.file dest := by
    have hone : ∀ {V : Type} (t : Table CTxDestination V) (fErase : Bool),
        (if fErase then t.erase dest else t).lookup dest = none ↔ (t.lookup dest ≠ none → fErase = true) := by
      intro V t fErase
      cases fErase <;> simp
    have hrecords : AddressErased calls w.file dest ↔
        (w.file.name.lookup dest ≠ none → calls.eraseName = true) ∧
        (w.file.purpose.lookup dest ≠ none → calls.erasePurpose = true) ∧
        ∀ key, w.file.destdata.lookup (dest, key) ≠ none → calls.eraseDestData key = true :=
      ⟨fun e => ⟨e.name, e.purpose, e.destdata⟩, fun e => ⟨e.1, e.2.1, e.2.2⟩⟩
    rw [bookEntry_eq_none_iff, hrecords]
    refine and_congr (hone _ _) (and_congr (hone _ _) (forall_congr' fun key => ?_))
    rw [hdestdata, ite_eq_left_iff]
    tauto
  constructor
  · intro hall
    rw [← hnone, ← hfile, hall dest, hself]
  · intro herased dest'
    by_cases hdest : dest' = dest
    · rw [hdest, hself, hfile, hnone.2 herased]
    · exact hother dest' hdest

/-! ## Atomicity -/

/-- What a call of `RemovePrivKey` should leave behind: all of the key or nothing of it. -/
structure Atomic (C : WalletCrypto) (w : CWallet) (keyID : CKeyID) (r : Except String Unit × CWallet) : Prop where
  removed : r.1 = .ok () → Gone C keyID r.2 ∧ (r.2.reloaded C).Same r.2
  failed : ∀ strError, r.1 = .error strError →
    r.2.file = w.file ∧ r.2.keystore = w.keystore ∨
      strError = "Key removed, but adding the address as watch-only failed" ∧ Gone C keyID r.2

/-- The write of a script that is not watched yet fails. -/
def WatchFails (w : CWallet) (calls : RemoveCalls) (keyID : CKeyID) (fKeepWatchOnly : Bool) : Prop :=
  fKeepWatchOnly = true ∧ w.keystore.haveWatchOnly (getScriptForDestination keyID) = false ∧
    calls.writeWatchOnly = false

/-- Nothing else in the file or in the wallet hangs on the key. -/
structure LeavesNothing (C : WalletCrypto) (w : CWallet) (calls : RemoveCalls) (keyID : CKeyID)
    (fKeepWatchOnly : Bool) (vchPubKey : CPubKey) : Prop where
  otherKey : w.keystore.fUseCrypto = true → ∃ other ∈ w.file.ckey.keys, other ≠ vchPubKey
  notPooled : ∀ e ∈ w.file.pool.entries, CPubKey.getID C e.2.vchPubKey ≠ keyID
  addressErased : fKeepWatchOnly = false → AddressErased calls w.file (.keyID keyID)

/-- The erases stop before they have erased anything, or the key was all that there is to erase. -/
structure RemovesCleanly (C : WalletCrypto) (w : CWallet) (calls : RemoveCalls) (keyID : CKeyID)
    (fKeepWatchOnly : Bool) (vchPubKey : CPubKey) : Prop where
  stopsClean : ¬ ErasesAll calls → StopsClean calls w.file vchPubKey
  leavesNothing : ErasesAll calls → ¬ WatchFails w calls keyID fKeepWatchOnly →
    LeavesNothing C w calls keyID fKeepWatchOnly vchPubKey

/-- What the last part of `RemovePrivKey` makes of the wallet. -/
inductive Finishes (w : CWallet) (calls : RemoveCalls) (keyID : CKeyID) (fKeepWatchOnly : Bool)
    (vchPubKey : CPubKey) (w₁ : CWallet) (r : Except String Unit × CWallet) : Prop
  | watchFails (hfails : WatchFails w₁ calls keyID fKeepWatchOnly)
    (hresult : r.1 = .error "Key removed, but adding the address as watch-only failed")
    (hdropped : Dropped w keyID vchPubKey r.2)
  | done (hworks : ¬ WatchFails w₁ calls keyID fKeepWatchOnly) (hresult : r.1 = .ok ())
    (hdropped : Dropped w keyID vchPubKey r.2)
    (hwatch : ∀ dest, dest ∈ r.2.file.loadWatchOnly ↔ dest ∈ r.2.keystore.setWatchOnly)
    (hbook : (∀ dest, r.2.file.bookEntry dest = r.2.bookEntry dest) ↔
      (fKeepWatchOnly = false → AddressErased calls w₁.file (.keyID keyID)))

theorem finishes_finishRemoval (calls : RemoveCalls) {w₁ : CWallet} (fKeepWatchOnly : Bool)
    (hdropped : Dropped w keyID vchPubKey w₁)
    (hbacked : w₁.fFileBacked = true) (hhave : w₁.keystore.haveKey keyID = false)
    (hwatch : ∀ dest, dest ∈ w₁.file.loadWatchOnly ↔ dest ∈ w₁.keystore.setWatchOnly)
    (hbook : ∀ dest, w₁.file.bookEntry dest = w₁.bookEntry dest) :
    Finishes w calls keyID fKeepWatchOnly vchPubKey w₁ (w₁.finishRemoval calls keyID fKeepWatchOnly) := by
  unfold finishRemoval
  by_cases hadd : fKeepWatchOnly = true ∧ w₁.keystore.haveWatchOnly (getScriptForDestination keyID) = false
  · have hadded : Dropped w keyID vchPubKey (w₁.addWatchOnly calls (getScriptForDestination keyID)).2 ∧
        (w₁.addWatchOnly calls (getScriptForDestination keyID)).2.keystore.haveKey keyID = false := by
      simp only [addWatchOnly, hbacked, Bool.true_eq_false, if_false]
      split_ifs
      · exact ⟨⟨hdropped.1, hdropped.2, hdropped.3, hdropped.4, hdropped.5, hdropped.6, hdropped.7, hdropped.8,
          hdropped.9, hdropped.10, hdropped.11⟩, hhave⟩
      · exact ⟨⟨hdropped.1, hdropped.2, hdropped.3, hdropped.4, hdropped.5, hdropped.6, hdropped.7, hdropped.8,
          hdropped.9, hdropped.10, hdropped.11⟩, hhave⟩
    simp only [if_pos hadd]
    cases hwrite : calls.writeWatchOnly with
    | false =>
      have hfailed : (w₁.addWatchOnly calls (getScriptForDestination keyID)).1 = false := by
        simp [addWatchOnly, hbacked, hwrite]
      rw [if_pos hfailed]
      exact .watchFails ⟨hadd.1, hadd.2, hwrite⟩ rfl hadded.1
    | true =>
      have hworked : (w₁.addWatchOnly calls (getScriptForDestination keyID)).1 = true := by
        simp [addWatchOnly, hbacked, hwrite]
      rw [hworked, hadded.2, hadd.1]
      simp only [Bool.true_eq_false, Bool.false_eq_true, if_false, false_and]
      refine .done (fun hfails => ?_) rfl hadded.1 (addWatchOnly_watched hbacked hwrite _ hwatch) ?_
      · rw [hfails.2.2] at hwrite
        cases hwrite
      · simp only [addWatchOnly, hbacked, hwrite, Bool.true_eq_false, if_false, IsEmpty.forall_iff, iff_true]
        exact hbook
  · have hworks : ¬ WatchFails w₁ calls keyID fKeepWatchOnly := fun hfails => hadd ⟨hfails.1, hfails.2.1⟩
    simp only [if_neg hadd, Bool.true_eq_false, if_false, hhave, Bool.false_eq_true]
    split_ifs with hdel
    · have herased := delAddressBook_entries calls hbacked (.keyID keyID) hbook
      refine .done hworks rfl ?_ ?_ ?_
      · simp only [delAddressBook, hbacked, if_true]
        exact ⟨hdropped.1, hdropped.2, hdropped.3, hdropped.4, hdropped.5, hdropped.6, hdropped.7, hdropped.8,
          hdropped.9, hdropped.10, hdropped.11⟩
      · simp only [delAddressBook, hbacked, if_true]
        exact hwatch
      · rw [herased]
        exact ⟨fun h _ => h, fun h => h hdel.1⟩
    · refine .done hworks rfl hdropped hwatch ⟨fun _ hkeep => ?_, fun _ => hbook⟩
      -- Without an entry in the book there is no record to erase.
      have hnone : w₁.bookEntry (.keyID keyID) = none := by
        rw [CWallet.bookEntry, Option.map_eq_none_iff, ← Option.not_isSome_iff_eq_none]
        exact fun hsome => hdel ⟨hkeep, hsome⟩
      rw [← hbook, bookEntry_eq_none_iff] at hnone
      exact ⟨fun h => absurd hnone.1 h, fun h => absurd hnone.2.1 h, fun key h => absurd (hnone.2.2 key) h⟩

/-- The records have all been erased: what the rest of the call makes of it. -/
theorem removed_iff (w : CWallet) (hw : Backed C w) (hid : CPubKey.getID C vchPubKey = keyID)
    (hnames : w.file.Names vchPubKey) (fKeepWatchOnly : Bool) (herases : ErasesAll calls) :
    w.Atomic C keyID
        (finishRemoval { w with
          file := w.file.withoutKey vchPubKey
          keystore := w.keystore.removeKey keyID
          mapKeyMetadata := w.mapKeyMetadata.erase keyID } calls keyID fKeepWatchOnly) ↔
      w.RemovesCleanly C calls keyID fKeepWatchOnly vchPubKey := by
  have hstore : (w.keystore.removeKey keyID).fUseCrypto = w.keystore.fUseCrypto ∧
      (w.keystore.removeKey keyID).setWatchOnly = w.keystore.setWatchOnly := by
    unfold CCryptoKeyStore.removeKey
    split_ifs
    · exact ⟨rfl, rfl⟩
    · exact ⟨rfl, rfl⟩
  generalize hw₁ : ({ w with
    file := w.file.withoutKey vchPubKey
    keystore := w.keystore.removeKey keyID
    mapKeyMetadata := w.mapKeyMetadata.erase keyID } : CWallet) = w₁
  have hdropped₁ : Dropped w keyID vchPubKey w₁ := by
    subst hw₁
    exact ⟨rfl, rfl, hstore.1, rfl, rfl, rfl, rfl, rfl, rfl, rfl, rfl⟩
  have hscripts : w₁.keystore.setWatchOnly = w.keystore.setWatchOnly := by
    subst hw₁
    exact hstore.2
  have hwatch : ∀ dest, dest ∈ w₁.file.loadWatchOnly ↔ dest ∈ w₁.keystore.setWatchOnly := by
    rw [hscripts]
    subst hw₁
    exact hw.same.watchOnly
  have hbook : ∀ dest, w₁.file.bookEntry dest = w₁.bookEntry dest := by
    intro dest
    have hdest := hw.same.addressBook dest
    rw [bookEntry_reloaded] at hdest
    subst hw₁
    exact hdest
  have haddress : AddressErased calls w₁.file (.keyID keyID) ↔ AddressErased calls w.file (.keyID keyID) := by
    subst hw₁
    exact ⟨fun h => ⟨h.name, h.purpose, h.destdata⟩, fun h => ⟨h.name, h.purpose, h.destdata⟩⟩
  have hfails : WatchFails w₁ calls keyID fKeepWatchOnly ↔ WatchFails w calls keyID fKeepWatchOnly := by
    unfold WatchFails CCryptoKeyStore.haveWatchOnly
    rw [hscripts]
  have hbacked : w₁.fFileBacked = true := by
    subst hw₁
    exact hw.fileBacked
  have hhave := (hdropped₁.gone hw hid hnames).haveKey
  rcases finishes_finishRemoval calls fKeepWatchOnly hdropped₁ hbacked hhave hwatch hbook with ⟨hnotWatched, hresult, hdropped⟩ | ⟨hworks, hresult, hdropped, hwatch', hbook'⟩
  · refine iff_of_true ⟨fun h => ?_, fun strError h => .inr ⟨?_, hdropped.gone hw hid hnames⟩⟩ ?_
    · rw [hresult] at h
      cases h
    · rw [hresult] at h
      exact (Except.error.inj h).symm
    · exact ⟨fun h => absurd herases h, fun _ h => absurd (hfails.1 hnotWatched) h⟩
  · have hsame := hdropped.same_iff hw hid hnames
    rw [hfails] at hworks
    rw [haddress] at hbook'
    constructor
    · intro hatomic
      rcases hsame.1 (hatomic.removed hresult).2 with ⟨hother, hpool, -, hentries⟩
      exact ⟨fun h => absurd herases h, fun _ _ => ⟨hother, hpool, hbook'.1 hentries⟩⟩
    · intro hclean
      have hleaves := hclean.leavesNothing herases hworks
      refine ⟨fun _ => ⟨hdropped.gone hw hid hnames, hsame.2 ⟨hleaves.otherKey, hleaves.notPooled, hwatch', ?_⟩⟩, ?_⟩
      · exact hbook'.2 hleaves.addressErased
      · intro strError h
        rw [hresult] at h
        cases h

end CWallet

/-- **When RemovePrivKey is atomic**: a call leaves all of a key or nothing of it, and a file that gives the same
wallet, if and only if the erases stop before they have erased a record, or nothing else hangs on the key. -/
theorem removePrivKey_atomic_iff (C : WalletCrypto) (w : CWallet) (calls : RemoveCalls) (keyID : CKeyID)
    (fKeepWatchOnly fForce : Bool) (hw : w.Backed C) :
    w.Atomic C keyID (w.removePrivKey C calls keyID fKeepWatchOnly fForce) ↔
      ∀ vchPubKey, w.removable C calls keyID fForce = .ok vchPubKey →
        w.RemovesCleanly C calls keyID fKeepWatchOnly vchPubKey := by
  unfold CWallet.removePrivKey
  cases hremovable : w.removable C calls keyID fForce with
  | error strError =>
    refine iff_of_true ⟨?_, ?_⟩ ?_
    · intro h
      cases h
    · exact fun _ _ => .inl ⟨rfl, rfl⟩
    · intro vchPubKey h
      cases h
  | ok vchPubKey =>
    rcases hw.pubKey (CWallet.removable_ok hremovable) with ⟨hid, hnames⟩
    have hone : (∀ pubKey, Except.ok vchPubKey = (Except.ok pubKey : Except String CPubKey) →
        w.RemovesCleanly C calls keyID fKeepWatchOnly pubKey) ↔
        w.RemovesCleanly C calls keyID fKeepWatchOnly vchPubKey :=
      ⟨fun h => h vchPubKey rfl, fun h pubKey heq => Except.ok.inj heq ▸ h⟩
    rw [hone]
    simp only [if_pos hw.fileBacked]
    by_cases herases : WalletFile.ErasesAll calls
    · simp only [WalletFile.eraseKey_of_erasesAll herases, Bool.true_eq_false, if_false]
      exact w.removed_iff hw hid hnames fKeepWatchOnly herases
    · have hfailed : (w.file.eraseKey calls vchPubKey).1 = false := WalletFile.eraseKey_of_not_erasesAll herases
      rw [if_pos hfailed]
      constructor
      · intro hatomic
        refine ⟨fun _ => ?_, fun h => absurd h herases⟩
        rcases hatomic.failed _ rfl with ⟨hfile, -⟩ | ⟨htext, -⟩
        · exact (WalletFile.eraseKey_eq_self_iff herases).1 hfile
        · exact absurd htext (by decide)
      · intro hclean
        constructor
        · intro h
          cases h
        · exact fun _ _ => .inl ⟨(WalletFile.eraseKey_eq_self_iff herases).2 (hclean.stopsClean herases), rfl⟩

/-- Functions under which a key is its own public key. -/
def bareCrypto : WalletCrypto :=
  ⟨fun _ _ _ => ([], []), fun _ m => some m, fun _ c => some c, fun secret _ => secret, id,
    fun vchPubKey => BitVec.ofNat 160 vchPubKey.length⟩

/-- A plain wallet with one key. -/
def oneKeyWallet : CWallet where
  keystore := { CCryptoKeyStore.empty with mapKeys := AList.singleton 1 ⟨[7], true⟩ }
  mapMasterKeys := ∅
  mapKeyMetadata := AList.singleton 1 ⟨1, 5⟩
  mapAddressBook := ∅
  setKeyPool := []
  vchDefaultKey := []
  fFileBacked := true
  file :=
    { key := AList.singleton [7] ⟨[7], true⟩
      wkey := ∅
      ckey := ∅
      keymeta := AList.singleton [7] ⟨1, 5⟩
      mkey := ∅
      watchs := ∅
      pool := ∅
      name := ∅
      purpose := ∅
      destdata := ∅ }

theorem oneKeyWallet_names {vchPubKey : CPubKey} (h : oneKeyWallet.file.Names vchPubKey) : vchPubKey = [7] := by
  rcases h with h | h | h | h
  · exact List.mem_singleton.1 h
  · cases h
  · cases h
  · exact List.mem_singleton.1 h

theorem oneKeyWallet_backed : oneKeyWallet.Backed bareCrypto := by
  refine ⟨rfl, ⟨?_, .inl rfl, ?_⟩, ?_⟩
  · decide
  · intro pubKey h pubKey' h' _
    rw [oneKeyWallet_names h, oneKeyWallet_names h']
  · constructor
    · intro id
      rfl
    · intro id
      rfl
    · rfl
    · intro dest
      rfl
    · intro nID
      rfl
    · intro id
      rfl
    · intro dest
      rfl

/-- A database of which all calls succeed, apart from the last erase when it is told to fail. -/
def callsWith (fKeyMeta : Bool) : RemoveCalls :=
  ⟨fun _ => true, true, true, true, fKeyMeta, true, fun _ => true, true, true⟩

theorem removePrivKey_oneKeyWallet :
    oneKeyWallet.Atomic bareCrypto 1 (oneKeyWallet.removePrivKey bareCrypto (callsWith true) 1 false true) := by
  apply (removePrivKey_atomic_iff bareCrypto oneKeyWallet (callsWith true) 1 false true oneKeyWallet_backed).2
  intro vchPubKey _
  refine ⟨fun h => absurd ⟨rfl, rfl, rfl, rfl⟩ h, fun _ _ => ⟨?_, ?_, ?_⟩⟩
  · intro h
    cases h
  · intro e he
    cases he
  · exact fun _ => ⟨fun _ => rfl, fun _ => rfl, fun _ _ => rfl⟩

/-- The last erase fails: the key is gone from the file, and the wallet goes on with it. -/
theorem oneKeyWallet_half_erased :
    ¬ oneKeyWallet.Atomic bareCrypto 1 (oneKeyWallet.removePrivKey bareCrypto (callsWith false) 1 false true) := by
  intro h
  rcases h.failed "Failed to erase the key from the wallet file" rfl with ⟨hfile, -⟩ | ⟨htext, -⟩
  · have hkey := congrArg (fun file : WalletFile => file.key.lookup [7]) hfile
    exact absurd hkey (by decide)
  · exact absurd htext (by decide)

end Dobbscoin
