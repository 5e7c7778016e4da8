import Dobbscoin.Wallet.CWallet

/-!
# Changing the passphrase

`ChangeWalletPassphrase`, and when it leaves the wallet and its file in step.
-/

namespace Dobbscoin

open CCryptoKeyStore

variable {s : CCryptoKeyStore} {l : List (Σ _ : Nat, CMasterKey)} {masterKey : CMasterKey}
  {fWritten fWasLocked : Bool} {old new : Bytes} {w : CWallet} {nID : Nat}

namespace CWallet

/-- The key store of a wallet whose file is loaded again: locked, and not checked yet. -/
def reloadKeystore (C : WalletCrypto) (file : WalletFile) : CCryptoKeyStore :=
  { CCryptoKeyStore.empty with
    mapCryptedKeys := (file.ckey.entries.map fun e => ⟨CPubKey.getID C e.1, (e.1, e.2)⟩).toAList
    fUseCrypto := !file.ckey.entries.isEmpty }

/-- The wallet after a restart, as far as master keys and encrypted keys go. -/
def reload (C : WalletCrypto) (w : CWallet) : CWallet :=
  { w with keystore := reloadKeystore C w.file, mapMasterKeys := w.file.mkey }

/-- Wrap the master key in the new passphrase, once it has opened the wallet.  `nCalibrated` is the number of
rounds that the timing gives, and `fWritten` the outcome of `WriteMasterKey`, which is not looked at. -/
def rewrapMasterKey (C : WalletCrypto) (w : CWallet) (strNewWalletPassphrase : Bytes) (nCalibrated : Nat)
    (fWritten fWasLocked : Bool) (nID : Nat) (masterKey : CMasterKey) (vMasterKey : Bytes) : Bool × CWallet :=
  let masterKey := { masterKey with nDeriveIterations := max nCalibrated 25000 }
  match setKeyFromPassphrase C strNewWalletPassphrase masterKey.vchSalt masterKey.nDeriveIterations
      masterKey.nDerivationMethod with
  | none => (false, { w with mapMasterKeys := w.mapMasterKeys.replace nID masterKey })
  | some crypter =>
    match C.encrypt crypter vMasterKey with
    | none =>
      let masterKey := { masterKey with vchCryptedKey := List.replicate (vMasterKey.length + 16) 0 }
      (false, { w with mapMasterKeys := w.mapMasterKeys.replace nID masterKey })
    | some vchCryptedKey =>
      let masterKey := { masterKey with vchCryptedKey }
      (true,
        { w with
          mapMasterKeys := w.mapMasterKeys.replace nID masterKey
          file := if fWritten then { w.file with mkey := w.file.mkey.replace nID masterKey } else w.file
          keystore := if fWasLocked then w.keystore.lock else w.keystore })

/-- The loop over the master keys. -/
def changeLoop (C : WalletCrypto) (w : CWallet) (strOldWalletPassphrase strNewWalletPassphrase : Bytes)
    (nCalibrated : Nat) (fWritten fWasLocked : Bool) : List (Σ _ : Nat, CMasterKey) → Option (Bool × CWallet)
  | [] => some (false, w)
  | ⟨nID, masterKey⟩ :: rest =>
    match setKeyFromPassphrase C strOldWalletPassphrase masterKey.vchSalt masterKey.nDeriveIterations
        masterKey.nDerivationMethod with
    | none => some (false, w)
    | some crypter =>
      match C.decrypt crypter masterKey.vchCryptedKey with
      | none => some (false, w)
      | some vMasterKey =>
        match w.keystore.unlock C vMasterKey with
        | none => none
        | some (true, keystore) =>
          some (rewrapMasterKey C { w with keystore } strNewWalletPassphrase nCalibrated fWritten fWasLocked nID
            masterKey vMasterKey)
        | some (false, keystore) =>
          changeLoop C { w with keystore } strOldWalletPassphrase strNewWalletPassphrase nCalibrated fWritten
            fWasLocked rest

/-- `ChangeWalletPassphrase`; `none` when an assertion fails. -/
def changeWalletPassphrase (C : WalletCrypto) (w : CWallet)
    (strOldWalletPassphrase strNewWalletPassphrase : Bytes) (nCalibrated : Nat) (fWritten : Bool) :
    Option (Bool × CWallet) :=
  let fWasLocked := w.isLocked
  let w := { w with keystore := w.keystore.lock }
  w.changeLoop C strOldWalletPassphrase strNewWalletPassphrase nCalibrated fWritten fWasLocked
    w.mapMasterKeys.entries

/-! ## Wallets in step with their files -/

/-- A key store whose keys are opened by one master key only. -/
structure OpenedBy (C : WalletCrypto) (M : Bytes) (s : CCryptoKeyStore) : Prop where
  crypted : s.fUseCrypto = true
  stored : s.cryptedKeys ≠ []
  opened : ∀ key ∈ s.cryptedKeys, opens C M key = true
  only : ∀ key ∈ s.cryptedKeys, ∀ M', opens C M' key = true → M' = M

/-- An encrypted wallet that is in step with its file. -/
structure InStep (C : WalletCrypto) (M : Bytes) (w : CWallet) : Prop where
  masterKeys : w.file.mkey = w.mapMasterKeys
  keys : (reloadKeystore C w.file).mapCryptedKeys = w.keystore.mapCryptedKeys
  opened : OpenedBy C M w.keystore

/-- What is relied on of AES-256-CBC: it encrypts everything, and decrypts what it has encrypted. -/
structure EncryptsAll (C : WalletCrypto) : Prop where
  encrypt : ∀ k m, ∃ c, C.encrypt k m = some c ∧ C.decrypt k c = some m

/-- The passphrase opens the wallet. -/
def Unlocks (C : WalletCrypto) (w : CWallet) (strWalletPassphrase : Bytes) : Prop :=
  ∃ w', w.unlock C strWalletPassphrase = some (true, w')

/-- What a call of `ChangeWalletPassphrase` should leave behind. -/
structure KeepsInStep (C : WalletCrypto) (w : CWallet) (strNewWalletPassphrase : Bytes) (r : Bool × CWallet) :
    Prop where
  ok : r.1 = true → (r.2.reload C).Unlocks C strNewWalletPassphrase ∧ r.2.isLocked = w.isLocked
  failed : r.1 = false →
    r.2.mapMasterKeys = w.mapMasterKeys ∧ r.2.file = w.file ∧ r.2.isLocked = w.isLocked

/-- What a passphrase makes of a master key. -/
def openMasterKey (C : WalletCrypto) (strWalletPassphrase : Bytes) (masterKey : CMasterKey) : Option Bytes :=
  (setKeyFromPassphrase C strWalletPassphrase masterKey.vchSalt masterKey.nDeriveIterations
    masterKey.nDerivationMethod).bind fun crypter => C.decrypt crypter masterKey.vchCryptedKey

/-- A passphrase decrypts the entries one after the other, until one of them gives the master key. -/
inductive Finds (C : WalletCrypto) (M strWalletPassphrase : Bytes) (nID : Nat) (masterKey : CMasterKey) :
    List (Σ _ : Nat, CMasterKey) → Prop
  | here (rest : List (Σ _ : Nat, CMasterKey)) (h : openMasterKey C strWalletPassphrase masterKey = some M) :
    Finds C M strWalletPassphrase nID masterKey (⟨nID, masterKey⟩ :: rest)
  | next {e : Σ _ : Nat, CMasterKey} {rest : List (Σ _ : Nat, CMasterKey)} {M' : Bytes}
    (h : openMasterKey C strWalletPassphrase e.2 = some M') (hne : M' ≠ M)
    (more : Finds C M strWalletPassphrase nID masterKey rest) :
    Finds C M strWalletPassphrase nID masterKey (e :: rest)

section

variable {C : WalletCrypto} {M : Bytes}

theorem length_of_opens {key : CPubKey × Bytes} (h : opens C M key = true) : M.length = 32 := by
  unfold opens decryptSecret setKey at h
  split_ifs at h with hlen
  · cases h
  · exact not_not.1 fun hne => hlen (.inl hne)

theorem OpenedBy.setCrypted (h : OpenedBy C M s) : s.setCrypted = some s := by
  rw [CCryptoKeyStore.setCrypted, if_pos h.crypted]

theorem OpenedBy.unlock_self (h : OpenedBy C M s) :
    s.unlock C M = some (true, { s with vMasterKey := M, fDecryptionThoroughlyChecked := true }) := by
  have hcheck : checkKeys C s.fDecryptionThoroughlyChecked M false s.cryptedKeys = (true, false) := by
    have hne : s.cryptedKeys.isEmpty = false := by
      cases hkeys : s.cryptedKeys with
      | nil => exact absurd hkeys h.stored
      | cons key keys => rfl
    rw [checkKeys_of_opens h.opened, hne]
    rfl
  simp only [CCryptoKeyStore.unlock, h.setCrypted, hcheck]

theorem OpenedBy.unlock_other (h : OpenedBy C M s) {M' : Bytes} (hne : M' ≠ M) :
    s.unlock C M' = some (false, s) := by
  have hcheck : (checkKeys C s.fDecryptionThoroughlyChecked M' false s.cryptedKeys).1 = false := by
    apply checkKeys_of_not_opens
    intro key hkey
    exact Bool.eq_false_iff.2 fun hopen => hne (h.only key hkey M' hopen)
  rcases hresult : checkKeys C s.fDecryptionThoroughlyChecked M' false s.cryptedKeys with ⟨keyPass, keyFail⟩
  rw [hresult] at hcheck
  obtain rfl : keyPass = false := hcheck
  simp only [CCryptoKeyStore.unlock, h.setCrypted, hresult]

/-- The search ends at the entry that the passphrase finds. -/
theorem Finds.changeLoop (hw : OpenedBy C M w.keystore) {nCalibrated : Nat}
        (h : Finds C M old nID masterKey l) :
    w.changeLoop C old new nCalibrated fWritten fWasLocked l =
      some (rewrapMasterKey C
        { w with keystore := { w.keystore with vMasterKey := M, fDecryptionThoroughlyChecked := true } } new
        nCalibrated fWritten fWasLocked nID masterKey M) := by
  induction h with
  | here rest h =>
    rcases Option.bind_eq_some_iff.1 h with ⟨crypter, hcrypter, hdecrypt⟩
    simp only [CWallet.changeLoop, hcrypter, hdecrypt, hw.unlock_self]
  | @next e rest M' h hne more ih =>
    rcases e with ⟨nID', masterKey'⟩
    rcases Option.bind_eq_some_iff.1 h with ⟨crypter, hcrypter, hdecrypt⟩
    simp only [CWallet.changeLoop, hcrypter, hdecrypt, hw.unlock_other hne]
    exact ih

theorem Finds.opened_some {old : Bytes}
    (h : Finds C M old nID masterKey l) :
    openMasterKey C old masterKey = some M := by
  induction h with
  | here rest h => exact h
  | next h hne more ih => exact ih

/-- A search that finds nothing leaves the wallet as it is. -/
theorem changeLoop_of_not_finds (hw : OpenedBy C M w.keystore)
    {nCalibrated : Nat}
    (h : ¬ ∃ nID masterKey, Finds C M old nID masterKey l) :
    w.changeLoop C old new nCalibrated fWritten fWasLocked l = some (false, w) := by
  induction l with
  | nil => rfl
  | cons e rest ih =>
    rcases e with ⟨nID, masterKey⟩
    cases hopen : openMasterKey C old masterKey with
    | none =>
      rcases Option.bind_eq_none_iff.1 hopen with hnone
      unfold CWallet.changeLoop
      cases hcrypter : setKeyFromPassphrase C old masterKey.vchSalt masterKey.nDeriveIterations
          masterKey.nDerivationMethod with
      | none => rfl
      | some crypter =>
        have hdecrypt := hnone crypter hcrypter
        simp only [hdecrypt]
    | some M' =>
      have hne : M' ≠ M := by
        rintro rfl
        exact h ⟨nID, masterKey, .here rest hopen⟩
      have hrest : ¬ ∃ nID masterKey, Finds C M old nID masterKey rest := by
        rintro ⟨nID', masterKey', hfinds⟩
        exact h ⟨nID', masterKey', .next hopen hne hfinds⟩
      rcases Option.bind_eq_some_iff.1 hopen with ⟨crypter, hcrypter, hdecrypt⟩
      simp only [CWallet.changeLoop, hcrypter, hdecrypt, hw.unlock_other hne]
      exact ih hrest

theorem OpenedBy.length (h : OpenedBy C M s) : M.length = 32 := by
  rcases List.exists_mem_of_ne_nil _ h.stored with ⟨key, hkey⟩
  exact length_of_opens (h.opened key hkey)

theorem OpenedBy.lock (h : OpenedBy C M s) : s.lock = { s with vMasterKey := [] } := by
  simp only [CCryptoKeyStore.lock, h.setCrypted]

theorem OpenedBy.withLock (h : OpenedBy C M s) : OpenedBy C M s.lock := by
  rw [h.lock]
  exact ⟨h.crypted, h.stored, h.opened, h.only⟩

/-- The file holds the same keys. -/
theorem InStep.reload_opened (h : InStep C M w) : OpenedBy C M (reloadKeystore C w.file) := by
  have hkeys : (reloadKeystore C w.file).cryptedKeys = w.keystore.cryptedKeys := by
    rw [cryptedKeys, cryptedKeys, h.keys]
  refine ⟨?_, hkeys ▸ h.opened.stored, hkeys ▸ h.opened.opened, hkeys ▸ h.opened.only⟩
  by_contra hplain
  have hnone : w.file.ckey.entries = [] := by
    cases hentries : w.file.ckey.entries with
    | nil => rfl
    | cons e entries =>
      rw [reloadKeystore, hentries] at hplain
      exact absurd rfl hplain
  apply h.opened.stored
  rw [← hkeys, cryptedKeys, reloadKeystore, hnone]
  rfl

/-- Every entry that a search passes can be tried with another passphrase. -/
theorem setKeyFromPassphrase_of_open {pass : Bytes} (pass' : Bytes) {M' : Bytes}
    (h : openMasterKey C pass masterKey = some M') :
    ∃ crypter, setKeyFromPassphrase C pass' masterKey.vchSalt masterKey.nDeriveIterations
      masterKey.nDerivationMethod = some crypter := by
  rcases Option.bind_eq_some_iff.1 h with ⟨crypter, hcrypter, -⟩
  unfold setKeyFromPassphrase at hcrypter ⊢
  split_ifs at hcrypter ⊢
  exact ⟨_, rfl⟩

theorem kreplace_cons_self (nID : Nat) (masterKey masterKey' : CMasterKey)
    (rest : List (Σ _ : Nat, CMasterKey)) :
    List.kreplace nID masterKey' (⟨nID, masterKey⟩ :: rest) = ⟨nID, masterKey'⟩ :: rest :=
  List.lookmap_cons_some _ rest (if_pos rfl)

theorem kreplace_cons_ne {e : Σ _ : Nat, CMasterKey} (h : nID ≠ e.1) (masterKey' : CMasterKey)
    (rest : List (Σ _ : Nat, CMasterKey)) :
    List.kreplace nID masterKey' (e :: rest) = e :: List.kreplace nID masterKey' rest :=
  List.lookmap_cons_none _ rest (if_neg h)

/-- The wallet opens with a passphrase that one of the entries was wrapped in anew. -/
theorem Finds.unlockLoop (hw : OpenedBy C M w.keystore)
    {masterKey masterKey' : CMasterKey}
    (h : Finds C M old nID masterKey l) (hnodup : l.NodupKeys)
    (hopen : openMasterKey C new masterKey' = some M) :
    ∃ w', w.unlockLoop C new ((List.kreplace nID masterKey' l).map fun e => e.2) = some (true, w') := by
  induction h with
  | here rest h =>
    rcases Option.bind_eq_some_iff.1 hopen with ⟨crypter, hcrypter, hdecrypt⟩
    refine ⟨{ w with keystore := { w.keystore with vMasterKey := M, fDecryptionThoroughlyChecked := true } }, ?_⟩
    rw [kreplace_cons_self]
    simp only [List.map_cons, CWallet.unlockLoop, hcrypter, hdecrypt, hw.unlock_self]
  | @next e rest M' h hne more ih =>
    have hmem : nID ∈ rest.keys := by
      clear ih hnodup
      induction more with
      | here rest h => exact List.mem_cons_self
      | next h hne more ih => exact List.mem_cons_of_mem _ ih
    have hkey : nID ≠ e.1 := by
      rintro rfl
      exact (List.nodupKeys_cons.1 hnodup).1 hmem
    have htail := ih (List.nodupKeys_cons.1 hnodup).2
    rcases setKeyFromPassphrase_of_open new h with ⟨crypter, hcrypter⟩
    rw [kreplace_cons_ne hkey]
    simp only [List.map_cons, CWallet.unlockLoop, hcrypter]
    cases hdecrypt : C.decrypt crypter e.2.vchCryptedKey with
    | none => exact htail
    | some M'' =>
      by_cases hM : M'' = M
      · subst hM
        simp only [hw.unlock_self]
        exact ⟨_, rfl⟩
      · simp only [hw.unlock_other hM]
        exact htail

/-- What the new passphrase makes of a master key that it was wrapped in. -/
theorem rewrapMasterKey_ok (hC : EncryptsAll C) {nCalibrated : Nat}
    {vMasterKey M' : Bytes}
    (h : openMasterKey C old masterKey = some M') :
    ∃ masterKey', openMasterKey C new masterKey' = some vMasterKey ∧
      rewrapMasterKey C w new nCalibrated fWritten fWasLocked nID masterKey vMasterKey =
        (true,
          { w with
            mapMasterKeys := w.mapMasterKeys.replace nID masterKey'
            file := if fWritten then { w.file with mkey := w.file.mkey.replace nID masterKey' } else w.file
            keystore := if fWasLocked then w.keystore.lock else w.keystore }) := by
  rcases Option.bind_eq_some_iff.1 h with ⟨crypter, hcrypter, -⟩
  have hnew : setKeyFromPassphrase C new masterKey.vchSalt (max nCalibrated 25000)
      masterKey.nDerivationMethod = some (C.bytesToKey new masterKey.vchSalt (max nCalibrated 25000)) := by
    have hrounds : ¬ max nCalibrated 25000 < 1 := not_lt.2 (le_trans (by decide) (le_max_right _ _))
    unfold setKeyFromPassphrase at hcrypter ⊢
    split_ifs at hcrypter with hbad hmethod
    rw [if_neg fun hor => hor.elim hrounds fun hsalt => hbad (.inr hsalt), if_pos hmethod]
  rcases hC.encrypt (C.bytesToKey new masterKey.vchSalt (max nCalibrated 25000)) vMasterKey with
    ⟨vchCryptedKey, hencrypt, hdecrypt⟩
  refine ⟨{ masterKey with nDeriveIterations := max nCalibrated 25000, vchCryptedKey }, ?_, ?_⟩
  · exact Option.bind_eq_some_iff.2 ⟨_, hnew, hdecrypt⟩
  · simp only [rewrapMasterKey, hnew, hencrypt]

theorem OpenedBy.isLocked_unlocked (h : OpenedBy C M s) (fWasLocked fChecked : Bool) :
    (if fWasLocked then
        ({ s with vMasterKey := M, fDecryptionThoroughlyChecked := fChecked } : CCryptoKeyStore).lock
      else { s with vMasterKey := M, fDecryptionThoroughlyChecked := fChecked }).isLocked = fWasLocked := by
  have hM : M.isEmpty = false := by
    cases hbytes : M with
    | nil => exact absurd h.length (by rw [hbytes]; decide)
    | cons b bytes => rfl
  cases fWasLocked <;>
    simp [CCryptoKeyStore.lock, CCryptoKeyStore.setCrypted, CCryptoKeyStore.isLocked, h.crypted, hM]

end

/-- **When `ChangeWalletPassphrase` keeps the wallet and its file in step**: when it finds the master key, the
write must succeed, or the new passphrase have opened the wallet all along; when it does not, the wallet must
have been locked. -/
theorem changeWalletPassphrase_keepsInStep (C : WalletCrypto) (hC : EncryptsAll C) (M : Bytes) (w : CWallet)
    (hw : InStep C M w) (old new : Bytes) (nCalibrated : Nat) (fWritten : Bool) :
    (∃ r, w.changeWalletPassphrase C old new nCalibrated fWritten = some r ∧ KeepsInStep C w new r) ↔
      ((∃ nID masterKey, Finds C M old nID masterKey w.mapMasterKeys.entries) →
          fWritten = true ∨ (w.reload C).Unlocks C new) ∧
        ((¬ ∃ nID masterKey, Finds C M old nID masterKey w.mapMasterKeys.entries) → w.isLocked = true) := by
  have hlocked : OpenedBy C M ({ w with keystore := w.keystore.lock } : CWallet).keystore := hw.opened.withLock
  by_cases hfinds : ∃ nID masterKey, Finds C M old nID masterKey w.mapMasterKeys.entries
  · have hok := hfinds
    rcases hfinds with ⟨nID, masterKey, h⟩
    rcases rewrapMasterKey_ok hC h.opened_some with ⟨masterKey', hopen', hrewrap⟩
    have hcall := (h.changeLoop hlocked).trans (congrArg some hrewrap)
    have hbase : w.changeWalletPassphrase C old new nCalibrated fWritten = _ := hcall
    rw [hbase]
    simp only [hok, forall_const, not_true_eq_false, false_imp_iff, and_true]
    constructor
    · rintro ⟨r, hr, hkeeps⟩
      obtain rfl := Option.some.inj hr
      cases fWritten with
      | true => exact .inl rfl
      | false => exact .inr (hkeeps.ok rfl).1
    · intro hcond
      refine ⟨_, rfl, ?_, fun hfalse => Bool.noConfusion hfalse⟩
      intro _
      refine ⟨?_, (hw.opened.withLock.isLocked_unlocked w.isLocked true)⟩
      cases fWritten with
      | true =>
        have hnodup : w.file.mkey.entries.NodupKeys := w.file.mkey.nodupKeys
        rw [hw.masterKeys] at hnodup
        rw [← hw.masterKeys] at h hnodup
        exact h.unlockLoop hw.reload_opened hnodup hopen'
      | false =>
        rcases hcond with hwritten | hunlocks
        · cases hwritten
        · exact hunlocks
  · have hcall : w.changeWalletPassphrase C old new nCalibrated fWritten =
        some (false, { w with keystore := w.keystore.lock }) := changeLoop_of_not_finds hlocked hfinds
    rw [hcall]
    simp only [hfinds, false_imp_iff, not_false_eq_true, forall_const, true_and]
    have hlock : ({ w with keystore := w.keystore.lock } : CWallet).isLocked = true := by
      show w.keystore.lock.isLocked = true
      rw [hw.opened.lock]
      simp [CCryptoKeyStore.isLocked, hw.opened.crypted]
    constructor
    · rintro ⟨r, hr, hkeeps⟩
      obtain rfl := Option.some.inj hr
      exact (hkeeps.failed rfl).2.2.symm.trans hlock
    · intro hwas
      exact ⟨_, rfl, fun htrue => Bool.noConfusion htrue, fun _ => ⟨rfl, rfl, hlock.trans hwas.symm⟩⟩

end CWallet

/-! ## A sample wallet -/

/-- A cipher that puts the key before the text. -/
def tagCrypto : WalletCrypto where
  bytesToKey strKeyData _ _ := (strKeyData, [])
  encrypt k m := some (k.1 ++ m)
  decrypt k c := if k.1.isPrefixOf c then some (c.drop k.1.length) else none
  getPubKey secret _ := 2 :: secret
  hash _ := List.replicate 32 0
  hash160 vchPubKey := BitVec.ofNat 160 vchPubKey.length

theorem tagCrypto_encryptsAll : CWallet.EncryptsAll tagCrypto where
  encrypt k m := by
    refine ⟨k.1 ++ m, rfl, ?_⟩
    simp [tagCrypto]

def tagMasterKey : Bytes := List.replicate 32 7

/-- The only key, and its secret behind the master key. -/
def tagKey : CPubKey × Bytes :=
  (2 :: List.replicate 32 9, tagMasterKey ++ List.replicate 32 9)

def tagFile : WalletFile :=
  ⟨∅, ∅, .singleton tagKey.1 tagKey.2, ∅,
    .singleton 1 ⟨1 :: tagMasterKey, List.replicate 8 0, 0, 25000, []⟩, ∅, ∅, ∅, ∅, ∅⟩

/-- A wallet with the passphrase `1`, unlocked. -/
def tagWallet : CWallet :=
  ⟨⟨∅, [], .singleton (tagCrypto.hash160 tagKey.1) tagKey, tagMasterKey, true, true⟩, tagFile.mkey, ∅, ∅, [], [],
    true, tagFile⟩

theorem tagKey_opens {M' : Bytes} (h : CCryptoKeyStore.opens tagCrypto M' tagKey = true) : M' = tagMasterKey := by
  have hlen := CWallet.length_of_opens h
  have hkey : setKey M' (tagCrypto.hash tagKey.1) = some (M', List.replicate 32 0) := by
    rw [setKey, if_neg]
    · rfl
    · rintro (hne | hne)
      · exact hne hlen
      · exact hne rfl
  unfold CCryptoKeyStore.opens decryptSecret at h
  rw [hkey] at h
  by_cases hinitial : M'.isPrefixOf (tagMasterKey ++ List.replicate 32 9) = true
  · have htake := List.prefix_iff_eq_take.1 (List.isPrefixOf_iff_prefix.1 hinitial)
    rw [hlen] at htake
    exact htake
  · have hnone : tagCrypto.decrypt (M', List.replicate 32 0) tagKey.2 = none := if_neg hinitial
    simp only [Option.bind_eq_bind, Option.bind_some, hnone] at h
    cases h

theorem tagWallet_inStep : CWallet.InStep tagCrypto tagMasterKey tagWallet where
  masterKeys := rfl
  keys := AList.ext (by decide)
  opened :=
    { crypted := rfl
      stored := by decide
      opened := by decide
      only := by
        intro key hkey M' hopen
        obtain rfl : key = tagKey := List.mem_singleton.1 hkey
        exact tagKey_opens hopen }

theorem changeWalletPassphrase_keepsInStep_tagWallet :
    ∃ r, tagWallet.changeWalletPassphrase tagCrypto [1] [2] 30000 true = some r ∧
      CWallet.KeepsInStep tagCrypto tagWallet [2] r :=
  (CWallet.changeWalletPassphrase_keepsInStep tagCrypto tagCrypto_encryptsAll tagMasterKey tagWallet
    tagWallet_inStep [1] [2] 30000 true).2
    ⟨fun _ => .inl rfl, fun hnone => absurd ⟨1, _, CWallet.Finds.here [] (by decide)⟩ hnone⟩

/-- A wrong passphrase locks the wallet, and a write that fails is not noticed. -/
theorem tagWallet_outOfStep :
    (¬ ∃ r, tagWallet.changeWalletPassphrase tagCrypto [3] [2] 30000 true = some r ∧
      CWallet.KeepsInStep tagCrypto tagWallet [2] r) ∧
    ¬ ∃ r, tagWallet.changeWalletPassphrase tagCrypto [1] [2] 30000 false = some r ∧
      CWallet.KeepsInStep tagCrypto tagWallet [2] r := by
  constructor
  · rintro ⟨r, hr, hkeeps⟩
    have hcall : (tagWallet.changeWalletPassphrase tagCrypto [3] [2] 30000 true).map
        (fun r => (r.1, r.2.isLocked)) = some (false, true) := by decide
    rw [hr] at hcall
    rcases Prod.mk.inj (Option.some.inj hcall) with ⟨hfalse, hlocked⟩
    have hsame := (hkeeps.failed hfalse).2.2
    rw [hlocked] at hsame
    exact absurd hsame (by decide)
  · rintro ⟨r, hr, hkeeps⟩
    have hcall : (tagWallet.changeWalletPassphrase tagCrypto [1] [2] 30000 false).map
        (fun r => (r.1, ((r.2.reload tagCrypto).unlock tagCrypto [2]).map Prod.fst)) =
          some (true, some false) := by decide
    rw [hr] at hcall
    rcases Prod.mk.inj (Option.some.inj hcall) with ⟨htrue, hfails⟩
    rcases (hkeeps.ok htrue).1 with ⟨w', hunlock⟩
    rw [hunlock] at hfails
    cases hfails

end Dobbscoin
