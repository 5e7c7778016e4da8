import Dobbscoin.Wallet.CWallet

/-!
# Salvage

`CWalletDB::Recover` with `fOnlyKeys`: every record that was read is tried on one wallet, and is kept if the wallet
takes it.
-/

namespace Dobbscoin

open ByteCodec

/-! ## Records -/

/-- `CPubKey::GetLen`. -/
def CPubKey.getLen (chHeader : UInt8) : Nat :=
  if chHeader = 2 ∨ chHeader = 3 then 33
  else if chHeader = 4 ∨ chHeader = 6 ∨ chHeader = 7 then 65
  else 0

/-- The key that is in the 65 bytes of a `CPubKey`; a key that is not valid has no bytes. -/
def CPubKey.ofBuffer (vch : Bytes) : CPubKey :=
  vch.take (CPubKey.getLen (vch.headD 0xff))

/-- `CPubKey(vch)`. -/
def CPubKey.ofBytes (vch : Bytes) : CPubKey :=
  if CPubKey.getLen (vch.headD 0xff) = vch.length then vch else []

def CPubKey.isValid (vchPubKey : CPubKey) : Bool :=
  !vchPubKey.isEmpty

/-- What salvaging calls: the functions of the key store, `CKey::Load`, the hash, and what the memory of a new
`CPubKey` holds. -/
structure SalvageEnv where
  crypto : WalletCrypto
  /-- `CKey::Load`. -/
  loadKey : Bytes → CPubKey → Bool → Option CKey
  hash : Bytes → UInt256
  memory : Bytes

def readBytes (n : Nat) (bs : Bytes) : Option (Bytes × Bytes) :=
  if n ≤ bs.length then some (bs.take n, bs.drop n) else none

/-- `CPubKey::Unserialize`: short data overwrites the beginning of the buffer, and long data is skipped. -/
def readPubKey (E : SalvageEnv) (bs : Bytes) : Option (CPubKey × Bytes) := do
  let (len, bs) ← compactSizeCodec.get bs
  let (vch, bs) ← readBytes len bs
  if len ≤ 65 then some (CPubKey.ofBuffer (vch ++ (0xff :: E.memory).drop len), bs) else some ([], bs)

/-- `CWalletKey`, of which the private key is used. -/
def readWalletKey (bs : Bytes) : Option (Bytes × Bytes) := do
  let (_, bs) ← readBytes 4 bs
  let (vchPrivKey, bs) ← scriptCodec.get bs
  let (_, bs) ← readBytes 8 bs
  let (_, bs) ← readBytes 8 bs
  let (strComment, bs) ← scriptCodec.get bs
  if strComment.length > 65536 then none else some (vchPrivKey, bs)

def readUInt32 (bs : Bytes) : Option (Nat × Bytes) :=
  (le 4).get bs

def readMasterKey (bs : Bytes) : Option (CMasterKey × Bytes) := do
  let (vchCryptedKey, bs) ← scriptCodec.get bs
  let (vchSalt, bs) ← scriptCodec.get bs
  let (nDerivationMethod, bs) ← readUInt32 bs
  let (nDeriveIterations, bs) ← readUInt32 bs
  let (vchOtherDerivationParameters, bs) ← scriptCodec.get bs
  some (⟨vchCryptedKey, vchSalt, nDerivationMethod, nDeriveIterations, vchOtherDerivationParameters⟩, bs)

/-- The types of records: `key`, `wkey`, `mkey`, `ckey`, and those that are salvaged besides. -/
def keyType : Bytes := [0x6b, 0x65, 0x79]
def wkeyType : Bytes := 0x77 :: keyType
def mkeyType : Bytes := 0x6d :: keyType
def ckeyType : Bytes := 0x63 :: keyType
def cscriptType : Bytes := [0x63, 0x73, 0x63, 0x72, 0x69, 0x70, 0x74]
def watchsType : Bytes := [0x77, 0x61, 0x74, 0x63, 0x68, 0x73]
def nameType : Bytes := [0x6e, 0x61, 0x6d, 0x65]
def purposeType : Bytes := [0x70, 0x75, 0x72, 0x70, 0x6f, 0x73, 0x65]
def keymetaType : Bytes := keyType ++ [0x6d, 0x65, 0x74, 0x61]

def isKeyType (strType : Bytes) : Bool :=
  strType == keyType || strType == wkeyType || strType == mkeyType || strType == ckeyType

def isSalvageType (strType : Bytes) : Bool :=
  isKeyType strType || strType == cscriptType || strType == watchsType || strType == nameType ||
    strType == purposeType || strType == keymetaType

/-- A record of a key type. -/
inductive KeyRecord where
  | key (vchPubKey : CPubKey) (key : CKey)
  | mkey (nID : Nat) (masterKey : CMasterKey)
  | ckey (vchPubKey : CPubKey) (vchCryptedSecret : Bytes)
  deriving DecidableEq

/-- The hash behind a private key saves the check of the pair. -/
def readPrivKey (E : SalvageEnv) (vchPubKey : CPubKey) (pkey ssValue : Bytes) : Option KeyRecord :=
  let hash : UInt256 := (((uint256Codec.get ssValue).map Prod.fst).getD 0)
  if hash ≠ 0 ∧ E.hash (vchPubKey ++ pkey) ≠ hash then none
  else (E.loadKey pkey vchPubKey (decide (hash ≠ 0))).map fun key => .key vchPubKey key

/-- What `ReadKeyValue` makes of a record of a key type, before the wallet is asked. -/
def parseKeyRecord (E : SalvageEnv) (strType ssKey ssValue : Bytes) : Option KeyRecord :=
  if strType = mkeyType then do
    let (nID, _) ← readUInt32 ssKey
    let (masterKey, _) ← readMasterKey ssValue
    some (.mkey nID masterKey)
  else if strType = ckeyType then do
    let (vchPubKey, _) ← scriptCodec.get ssKey
    let (vchPrivKey, _) ← scriptCodec.get ssValue
    some (.ckey (CPubKey.ofBytes vchPubKey) vchPrivKey)
  else do
    let (vchPubKey, _) ← readPubKey E ssKey
    if CPubKey.isValid vchPubKey = false then none
    else do
      let (pkey, ssValue) ← (if strType = keyType then scriptCodec.get ssValue else readWalletKey ssValue)
      readPrivKey E vchPubKey pkey ssValue

/-! ## The dummy wallet -/

/-- The wallet that the records are tried on; the records of other types only touch what `rest` stands for. -/
structure DummyWallet (W : Type) where
  keystore : CCryptoKeyStore
  mapMasterKeys : Table Nat CMasterKey
  rest : W

namespace DummyWallet

variable {W : Type}

/-- A new wallet. -/
def fresh (rest : W) : DummyWallet W :=
  ⟨.empty, ∅, rest⟩

/-- `LoadKey`, the entry of a master key, and `LoadCryptedKey`. -/
def load (E : SalvageEnv) (w : DummyWallet W) : KeyRecord → Option (DummyWallet W)
  | .key vchPubKey key =>
    (w.keystore.addKeyPubKey E.crypto key vchPubKey).map fun keystore => { w with keystore }
  | .mkey nID masterKey =>
    if (w.mapMasterKeys.lookup nID).isSome then none
    else some { w with mapMasterKeys := w.mapMasterKeys.insert nID masterKey }
  | .ckey vchPubKey vchCryptedSecret =>
    (w.keystore.addCryptedKey E.crypto vchPubKey vchCryptedSecret).map fun keystore => { w with keystore }

end DummyWallet

/-- A record: the key and the value. -/
abbrev KeyValPair := Bytes × Bytes

/-- What `ReadKeyValue` does with the records of other types. -/
abbrev ReadOther (W : Type) := Bytes → Bytes → Bytes → W → Bool × W

/-- The type of a record, and the rest of its key. -/
def recordType (row : KeyValPair) : Option (Bytes × Bytes) :=
  scriptCodec.get row.1

/-- The record, when it is of a key type and can be read. -/
def keyRecord (E : SalvageEnv) (row : KeyValPair) : Option KeyRecord :=
  (recordType row).bind fun p => if isKeyType p.1 then parseKeyRecord E p.1 p.2 row.2 else none

/-- The record is of a key type. -/
def isKeyRow (row : KeyValPair) : Bool :=
  (recordType row).any fun p => isKeyType p.1

/-- `ReadKeyValue`: whether the record is accepted, and the wallet after it. -/
def readKeyValue {W : Type} (E : SalvageEnv) (other : ReadOther W) (w : DummyWallet W) (row : KeyValPair) :
    Bool × DummyWallet W :=
  match recordType row with
  | none => (false, w)
  | some (strType, ssKey) =>
    if isKeyType strType then
      match (parseKeyRecord E strType ssKey row.2).bind (w.load E) with
      | none => (false, w)
      | some w => (true, w)
    else
      let (fReadOK, rest) := other strType ssKey row.2 w.rest
      (fReadOK, { w with rest })

/-- The loop of `Recover` with `fOnlyKeys`: `vKeep`. -/
def recoverLoop {W : Type} (E : SalvageEnv) (other : ReadOther W) : DummyWallet W → List KeyValPair → List KeyValPair
  | _, [] => []
  | w, row :: rows =>
    let (fReadOK, w) := readKeyValue E other w row
    if fReadOK && (recordType row).any (fun p => isSalvageType p.1) then row :: recoverLoop E other w rows
    else recoverLoop E other w rows

/-! ## Which records are kept -/

/-- The wallet does not take one record after the other: a plain key and an encrypted one, or two master keys with
the same number. -/
def KeyRecord.Conflicts : KeyRecord → KeyRecord → Prop
  | .key _ _, .ckey _ _ => True
  | .ckey _ _, .key _ _ => True
  | .mkey nID _, .mkey nID' _ => nID = nID'
  | _, _ => False

instance : DecidableRel KeyRecord.Conflicts := fun r r' => by
  cases r <;> cases r' <;> unfold KeyRecord.Conflicts <;> infer_instance

namespace DummyWallet

variable {W : Type}

/-- The wallet has taken exactly these records. -/
structure Tracks (taken : List KeyRecord) (w : DummyWallet W) : Prop where
  locked : w.keystore.vMasterKey = []
  keys : w.keystore.mapKeys.entries ≠ [] ↔ ∃ vchPubKey secret, .key vchPubKey secret ∈ taken
  crypted : w.keystore.fUseCrypto = true ↔ ∃ vchPubKey secret, .ckey vchPubKey secret ∈ taken
  masterKeys : ∀ nID, (w.mapMasterKeys.lookup nID).isSome = true ↔ ∃ masterKey, .mkey nID masterKey ∈ taken
  exclusive : w.keystore.fUseCrypto = true → w.keystore.mapKeys.entries = []

theorem tracks_fresh (rest : W) : (fresh rest).Tracks [] := by
  constructor <;> simp [fresh, CCryptoKeyStore.empty]

variable {E : SalvageEnv} {taken : List KeyRecord} {w : DummyWallet W}

/-- A record that conflicts with one that was taken is refused. -/
theorem Tracks.refuse (h : w.Tracks taken) {r r' : KeyRecord} (hmem : r' ∈ taken) (hconflict : r'.Conflicts r) :
    w.load E r = none := by
  cases r with
  | key vchPubKey secret =>
    cases r' with
    | ckey vchPubKey' secret' =>
      have hcrypted := h.crypted.2 ⟨_, _, hmem⟩
      simp [load, CCryptoKeyStore.addKeyPubKey, CCryptoKeyStore.isCrypted, CCryptoKeyStore.isLocked, hcrypted,
        h.locked]
    | _ => exact hconflict.elim
  | mkey nID masterKey =>
    cases r' with
    | mkey nID' masterKey' =>
      obtain rfl : nID' = nID := hconflict
      rw [load, if_pos ((h.masterKeys nID').2 ⟨_, hmem⟩)]
    | _ => exact hconflict.elim
  | ckey vchPubKey secret =>
    cases r' with
    | key vchPubKey' secret' =>
      have hkeys := h.keys.2 ⟨_, _, hmem⟩
      have hplain : w.keystore.fUseCrypto = false := Bool.eq_false_iff.2 fun hc => hkeys (h.exclusive hc)
      simp [load, CCryptoKeyStore.addCryptedKey, CCryptoKeyStore.setCrypted, hplain, hkeys]
    | _ => exact hconflict.elim

theorem setCrypted_of_no_keys {s : CCryptoKeyStore} (h : s.mapKeys.entries = []) :
    s.setCrypted = some { s with fUseCrypto := true } := by
  unfold CCryptoKeyStore.setCrypted
  split_ifs with hcrypted hkeys
  · rw [← hcrypted]
  · exact absurd h hkeys
  · rfl

/-- A record that conflicts with none is taken. -/
theorem Tracks.take (h : w.Tracks taken) {r : KeyRecord} (hnone : ∀ r' ∈ taken, ¬ r'.Conflicts r) :
    ∃ w', w.load E r = some w' ∧ w'.Tracks (taken ++ [r]) := by
  cases r with
  | key vchPubKey secret =>
    have hplain : w.keystore.fUseCrypto = false := by
      refine Bool.eq_false_iff.2 fun hc => ?_
      rcases h.crypted.1 hc with ⟨vchPubKey', secret', hmem⟩
      exact hnone _ hmem trivial
    have hload : w.load E (.key vchPubKey secret) = some { w with
        keystore := { w.keystore with
          mapKeys := w.keystore.mapKeys.insert (CPubKey.getID E.crypto vchPubKey) secret } } := by
      simp [load, CCryptoKeyStore.addKeyPubKey, CCryptoKeyStore.isCrypted, hplain]
    refine ⟨_, hload, ?_⟩
    constructor
    · exact h.locked
    · simp only [AList.entries_insert, ne_eq, reduceCtorEq, not_false_eq_true, true_iff]
      exact ⟨vchPubKey, secret, List.mem_append_right _ List.mem_cons_self⟩
    · simp [hplain, ← h.crypted]
    · simp [h.masterKeys]
    · simp [hplain]
  | mkey nID masterKey =>
    have hnew : (w.mapMasterKeys.lookup nID).isSome = false := by
      refine Bool.eq_false_iff.2 fun hold => ?_
      rcases (h.masterKeys nID).1 hold with ⟨masterKey', hmem⟩
      exact hnone _ hmem rfl
    have hload : w.load E (.mkey nID masterKey) =
        some { w with mapMasterKeys := w.mapMasterKeys.insert nID masterKey } := by
      simp [load, hnew]
    refine ⟨_, hload, ?_⟩
    constructor
    · exact h.locked
    · simp [h.keys]
    · simp [h.crypted]
    · intro nID'
      by_cases hid : nID' = nID
      · subst hid
        simp [AList.lookup_insert]
      · simp [AList.lookup_insert_ne hid, h.masterKeys, hid]
    · exact h.exclusive
  | ckey vchPubKey secret =>
    have hnokeys : w.keystore.mapKeys.entries = [] := by
      by_contra hkeys
      rcases h.keys.1 hkeys with ⟨vchPubKey', secret', hmem⟩
      exact hnone _ hmem trivial
    have hload : w.load E (.ckey vchPubKey secret) = some { w with
        keystore := { w.keystore with
          mapCryptedKeys :=
            w.keystore.mapCryptedKeys.insert (CPubKey.getID E.crypto vchPubKey) (vchPubKey, secret)
          fUseCrypto := true } } := by
      simp [load, CCryptoKeyStore.addCryptedKey, setCrypted_of_no_keys hnokeys]
    refine ⟨_, hload, ?_⟩
    constructor
    · exact h.locked
    · simp [h.keys]
    · simp only [true_iff]
      exact ⟨vchPubKey, secret, List.mem_append_right _ List.mem_cons_self⟩
    · simp [h.masterKeys]
    · intro _
      exact hnokeys

end DummyWallet

section

variable {W : Type} {E : SalvageEnv} {other : ReadOther W} {w : DummyWallet W} {taken : List KeyRecord}

theorem isKeyRow_of_keyRecord {row : KeyValPair} {r : KeyRecord} (h : keyRecord E row = some r) :
    isKeyRow row = true ∧ (recordType row).any (fun p => isSalvageType p.1) = true := by
  rcases Option.bind_eq_some_iff.1 h with ⟨⟨strType, ssKey⟩, htype, hparse⟩
  split_ifs at hparse with hkey
  simp only [isKeyRow, htype, Option.any_some]
  exact ⟨hkey, by simp [isSalvageType, hkey]⟩

/-- A record of a key type is accepted when the wallet loads it. -/
theorem readKeyValue_keyRow {row : KeyValPair} (h : isKeyRow row = true) :
    readKeyValue E other w row =
      match (keyRecord E row).bind (w.load E) with
      | none => (false, w)
      | some w => (true, w) := by
  unfold isKeyRow at h
  unfold readKeyValue keyRecord
  cases htype : recordType row with
  | none => rfl
  | some p =>
    rw [htype, Option.any_some] at h
    simp only [h, if_true, Option.bind_some]

/-- The other records leave the keys alone. -/
theorem DummyWallet.Tracks.skip (h : w.Tracks taken) {row : KeyValPair} (hrow : keyRecord E row = none) :
    (readKeyValue E other w row).2.Tracks taken := by
  by_cases hkey : isKeyRow row = true
  · rw [readKeyValue_keyRow hkey, hrow]
    exact h
  · unfold readKeyValue
    cases htype : recordType row with
    | none => exact h
    | some p =>
      have hother : isKeyType p.1 = false := by
        refine Bool.eq_false_iff.2 fun htrue => hkey ?_
        rw [isKeyRow, htype, Option.any_some, htrue]
      simp only [hother, Bool.false_eq_true, if_false]
      exact ⟨h.locked, h.keys, h.crypted, h.masterKeys, h.exclusive⟩

theorem recoverLoop_subset (rows : List KeyValPair) (w : DummyWallet W) :
    ∀ row ∈ recoverLoop E other w rows, row ∈ rows := by
  induction rows generalizing w with
  | nil =>
    intro row hrow
    exact hrow
  | cons first rows ih =>
    intro row hrow
    unfold recoverLoop at hrow
    dsimp only at hrow
    split_ifs at hrow
    · rcases List.mem_cons.1 hrow with rfl | hrow
      · exact List.mem_cons_self
      · exact List.mem_cons_of_mem _ (ih _ row hrow)
    · exact List.mem_cons_of_mem _ (ih _ row hrow)

/-- The records of a list that are of a key type and can be read. -/
def keyRecords (E : SalvageEnv) (rows : List KeyValPair) : List KeyRecord :=
  rows.filterMap (keyRecord E)

/-- A list whose records do not conflict with each other, nor with those taken before, is kept. -/
theorem mem_recoverLoop_of_pairwise {rows : List KeyValPair} (h : w.Tracks taken)
    (hpair : (taken ++ keyRecords E rows).Pairwise fun r r' => ¬ r.Conflicts r') {row : KeyValPair}
    (hmem : row ∈ rows) {r : KeyRecord} (hrow : keyRecord E row = some r) : row ∈ recoverLoop E other w rows := by
  induction rows generalizing w taken with
  | nil => exact absurd hmem List.not_mem_nil
  | cons first rows ih =>
    cases hfirst : keyRecord E first with
    | none =>
      rw [keyRecords, List.filterMap_cons_none hfirst] at hpair
      have hne : row ≠ first := by
        rintro rfl
        rw [hrow] at hfirst
        cases hfirst
      have hskip : (readKeyValue E other w first).2.Tracks taken := h.skip hfirst
      have hrest := ih hskip hpair ((List.mem_cons.1 hmem).resolve_left hne)
      unfold recoverLoop
      dsimp only
      split_ifs
      · exact List.mem_cons_of_mem _ hrest
      · exact hrest
    | some r₀ =>
      rw [keyRecords, List.filterMap_cons_some hfirst] at hpair
      have hnone : ∀ r' ∈ taken, ¬ r'.Conflicts r₀ := fun r' hr' =>
        (List.pairwise_append.1 hpair).2.2 r' hr' r₀ List.mem_cons_self
      rcases h.take hnone with ⟨w', hload, htracks⟩
      rcases isKeyRow_of_keyRecord hfirst with ⟨hkey, hsalvage⟩
      have hread : readKeyValue E other w first = (true, w') := by
        rw [readKeyValue_keyRow hkey, hfirst, Option.bind_some, hload]
      unfold recoverLoop
      simp only [hread, hsalvage, Bool.and_self, if_true]
      rcases List.mem_cons.1 hmem with rfl | hmem
      · exact List.mem_cons_self
      · rw [List.append_cons] at hpair
        exact List.mem_cons_of_mem _ (ih htracks hpair hmem)

/-- When all of a list is kept, none of its records conflicts with another one. -/
theorem pairwise_of_mem_recoverLoop {rows : List KeyValPair} (h : w.Tracks taken) (hnodup : rows.Nodup)
    (htaken : taken.Pairwise fun r r' => ¬ r.Conflicts r')
    (hkept : ∀ row ∈ rows, (keyRecord E row).isSome = true → row ∈ recoverLoop E other w rows) :
    (taken ++ keyRecords E rows).Pairwise fun r r' => ¬ r.Conflicts r' := by
  induction rows generalizing w taken with
  | nil => simpa [keyRecords] using htaken
  | cons first rows ih =>
    rcases List.nodup_cons.1 hnodup with ⟨hnew, hnodup'⟩
    -- What is kept of the rest is not the first record.
    have htail : ∀ row ∈ rows, (keyRecord E row).isSome = true →
        row ∈ recoverLoop E other (readKeyValue E other w first).2 rows := by
      intro row hrow hsome
      have hmem := hkept row (List.mem_cons_of_mem first hrow) hsome
      unfold recoverLoop at hmem
      dsimp only at hmem
      split_ifs at hmem
      · rcases List.mem_cons.1 hmem with rfl | hmem
        · exact absurd hrow hnew
        · exact hmem
      · exact hmem
    cases hfirst : keyRecord E first with
    | none =>
      rw [keyRecords, List.filterMap_cons_none hfirst]
      exact ih (h.skip hfirst) hnodup' htaken htail
    | some r₀ =>
      rcases isKeyRow_of_keyRecord hfirst with ⟨hkey, -⟩
      have hread : readKeyValue E other w first =
          match w.load E r₀ with
          | none => (false, w)
          | some w => (true, w) := by
        rw [readKeyValue_keyRow hkey, hfirst, Option.bind_some]
      have hnone : ∀ r' ∈ taken, ¬ r'.Conflicts r₀ := by
        intro r' hr' hconflict
        have hmem := hkept first List.mem_cons_self (by rw [hfirst]; rfl)
        rw [h.refuse hr' hconflict] at hread
        unfold recoverLoop at hmem
        simp only [hread, Bool.false_and, Bool.false_eq_true, if_false] at hmem
        exact hnew (recoverLoop_subset rows w first hmem)
      rcases h.take hnone with ⟨w', hload, htracks⟩
      rw [hload] at hread
      rw [hread] at htail
      have htaken' : (taken ++ [r₀]).Pairwise fun r r' => ¬ r.Conflicts r' := by
        refine List.pairwise_append.2 ⟨htaken, List.pairwise_singleton _ _, ?_⟩
        intro r' hr' r hr
        obtain rfl := List.mem_singleton.1 hr
        exact hnone r' hr'
      rw [keyRecords, List.filterMap_cons_some hfirst, List.append_cons]
      exact ih htracks hnodup' htaken' htail

theorem accepted_alone_iff {row : KeyValPair} (hkey : isKeyRow row = true) (rest : W) :
    (readKeyValue E other (DummyWallet.fresh rest) row).1 = true ↔ (keyRecord E row).isSome = true := by
  rw [readKeyValue_keyRow hkey]
  cases hrow : keyRecord E row with
  | none => simp
  | some r =>
    rcases (DummyWallet.tracks_fresh rest).take (E := E) (r := r) (fun r' hr' => absurd hr' List.not_mem_nil) with
      ⟨w', hload, -⟩
    simp [hload]

end

/-- **When salvage judges each record on its own**: it keeps every key record that it would keep alone if and only
if no two of them conflict. -/
theorem recover_keeps_iff {W : Type} (E : SalvageEnv) (other : ReadOther W) (rest : W) (rows : List KeyValPair)
    (hnodup : (rows.map Prod.fst).Nodup) :
    (∀ row ∈ rows, isKeyRow row = true → (readKeyValue E other (.fresh rest) row).1 = true →
        row ∈ recoverLoop E other (.fresh rest) rows) ↔
      (keyRecords E rows).Pairwise fun r r' => ¬ r.Conflicts r' := by
  constructor
  · intro hkept
    have hreadable : ∀ row ∈ rows, (keyRecord E row).isSome = true →
        row ∈ recoverLoop E other (.fresh rest) rows := by
      intro row hrow hsome
      rcases Option.isSome_iff_exists.1 hsome with ⟨r, hr⟩
      have hkey := (isKeyRow_of_keyRecord hr).1
      exact hkept row hrow hkey ((accepted_alone_iff hkey rest).2 hsome)
    exact pairwise_of_mem_recoverLoop (DummyWallet.tracks_fresh rest) (List.Nodup.of_map Prod.fst hnodup)
      List.Pairwise.nil hreadable
  · intro hpair row hrow hkey haccepted
    rcases Option.isSome_iff_exists.1 ((accepted_alone_iff hkey rest).1 haccepted) with ⟨r, hr⟩
    exact mem_recoverLoop_of_pairwise (DummyWallet.tracks_fresh rest) hpair hrow hr

/-- Functions that accept every key. -/
def openSalvage : SalvageEnv where
  crypto := ⟨fun _ _ _ => ([], []), fun _ m => some m, fun _ c => some c, fun secret _ => secret, id,
    fun vchPubKey => BitVec.ofNat 160 vchPubKey.length⟩
  loadKey pkey vchPubKey _ := some ⟨pkey, vchPubKey.isCompressed⟩
  hash _ := 0
  memory := List.replicate 64 0

/-- A public key with its first byte and its length. -/
def samplePubKey : Bytes :=
  33 :: 2 :: List.replicate 32 5

def plainRow : KeyValPair :=
  (3 :: keyType ++ samplePubKey, [1, 9])

def masterRow : KeyValPair :=
  (4 :: mkeyType ++ [1, 0, 0, 0], [1, 7, 0, 0, 0, 0, 0, 1, 0, 0, 0, 0])

def cryptedRow : KeyValPair :=
  (4 :: ckeyType ++ samplePubKey, [1, 9])

theorem recover_keeps_plainRow :
    plainRow ∈ recoverLoop openSalvage (fun _ _ _ w => (true, w)) (.fresh ()) [masterRow, plainRow] :=
  (recover_keeps_iff openSalvage (fun _ _ _ w => (true, w)) () [masterRow, plainRow] (by decide)).2 (by decide)
    plainRow (by decide) (by decide) (by decide)

/-- Behind a plain key an encrypted key is dropped, and the other way round. -/
theorem recover_drops :
    isKeyRow cryptedRow = true ∧ isKeyRow plainRow = true ∧
      (readKeyValue openSalvage (fun _ _ _ w => (true, w)) (.fresh ()) cryptedRow).1 = true ∧
      (readKeyValue openSalvage (fun _ _ _ w => (true, w)) (.fresh ()) plainRow).1 = true ∧
      cryptedRow ∉ recoverLoop openSalvage (fun _ _ _ w => (true, w)) (.fresh ()) [plainRow, cryptedRow] ∧
      plainRow ∉ recoverLoop openSalvage (fun _ _ _ w => (true, w)) (.fresh ()) [cryptedRow, plainRow] := by
  decide

end Dobbscoin
