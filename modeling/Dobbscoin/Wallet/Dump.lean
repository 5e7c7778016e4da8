import Dobbscoin.Script.Destinations
import Dobbscoin.Wallet.DumpText

/-!
# Dumping and importing a wallet

`dumpwallet` and `importwallet` of `rpcdump.cpp`, with `GetKeyBirthTimes` and `GetAllReserveKeys`.
-/

namespace Dobbscoin

variable {chainActive : List ActiveBlock} {setKeyPool : List CKeyID} {C : WalletCrypto}
  {carrier : DataCarrier}

/-! ## The wallet -/

/-- An entry of the address book; the name is the bytes of the string. -/
structure AddressLabel where
  name : Bytes
  purpose : Bytes
  deriving DecidableEq

/-- A transaction of `mapWallet`, as far as `GetKeyBirthTimes` looks at it. -/
structure WalletOutputs where
  hashBlock : UInt256
  vout : List CTxOut

/-- The part of `CWallet` that is dumped and imported; `pool` is what `ReadPool` finds. -/
structure DumpWallet where
  keystore : CCryptoKeyStore
  mapScripts : Table UInt160 CScript
  mapKeyMetadata : Table CKeyID CKeyMetadata
  mapAddressBook : Table CTxDestination AddressLabel
  setKeyPool : List Int
  pool : Int → Option CKeyPool
  mapWallet : List WalletOutputs
  nTimeFirstKey : Int
  fFileBacked : Bool

/-- The active chain from the genesis block on. -/
structure ActiveBlock where
  hash : UInt256
  nTime : Int

/-- `CCryptoKeyStore::GetKey`. -/
def CCryptoKeyStore.getKey (C : WalletCrypto) (s : CCryptoKeyStore) (address : CKeyID) : Option CKey :=
  if s.isCrypted = false then s.mapKeys.lookup address
  else do
    let (vchPubKey, vchCryptedSecret) ← s.mapCryptedKeys.lookup address
    let vchSecret ← decryptSecret C s.vMasterKey vchCryptedSecret (C.hash vchPubKey)
    if vchSecret.length ≠ 32 then none else some ⟨vchSecret, CPubKey.isCompressed vchPubKey⟩

/-- `CCryptoKeyStore::GetKeys`. -/
def CCryptoKeyStore.getKeys (s : CCryptoKeyStore) : List CKeyID :=
  if s.isCrypted = false then s.mapKeys.keys else s.mapCryptedKeys.keys

/-- `RemoveWatchOnly`, when there is something to remove. -/
def CCryptoKeyStore.unwatch (s : CCryptoKeyStore) (script : CScript) : CCryptoKeyStore :=
  if s.haveWatchOnly script then { s with setWatchOnly := s.setWatchOnly.erase script } else s

namespace DumpWallet

/-! ## GetKeyBirthTimes -/

/-- `CAffectedKeysVisitor::Process`; with more calls in each other than there are scripts it never returns. -/
def process (C : WalletCrypto) (carrier : DataCarrier) (w : DumpWallet) : Nat → CScript → Option (List CKeyID)
  | 0, _ => none
  | depth + 1, script =>
    let extracted := extractDestinations carrier C.hash160 script 0
    if extracted.ret = false then some []
    else do
      let vKeys ← extracted.addressRet.mapM fun dest =>
        match dest with
        | .keyID keyId => some (if w.keystore.haveKey keyId then [keyId] else [])
        | .scriptID scriptId =>
          match w.mapScripts.lookup scriptId with
          | some script => process C carrier w depth script
          | none => some []
        | .noDestination => some []
      some vKeys.flatten

/-- The height of a block, when it is in the active chain. -/
def heightOf (chainActive : List ActiveBlock) (hashBlock : UInt256) : Option Nat :=
  chainActive.findIdx? fun b => b.hash = hashBlock

/-- An output in the block at `nHeight` that affects these keys. -/
def lowerFirst (nHeight : Nat) (mapKeyFirstBlock : Table CKeyID Nat) (vAffected : List CKeyID) : Table CKeyID Nat :=
  vAffected.foldl (fun first keyid =>
    match first.lookup keyid with
    | some height => if nHeight < height then first.insert keyid nHeight else first
    | none => first) mapKeyFirstBlock

/-- The loop over the wallet's transactions. -/
def firstBlocks (C : WalletCrypto) (carrier : DataCarrier) (chainActive : List ActiveBlock) (w : DumpWallet) :
    List WalletOutputs → Table CKeyID Nat → Option (Table CKeyID Nat)
  | [], first => some first
  | wtx :: rest, first =>
    match heightOf chainActive wtx.hashBlock with
    | none => firstBlocks C carrier chainActive w rest first
    | some nHeight => do
      let first ← wtx.vout.foldlM (fun first txout => do
        let vAffected ← w.process C carrier (w.mapScripts.keys.length + 1) txout.scriptPubKey
        some (lowerFirst nHeight first vAffected)) first
      firstBlocks C carrier chainActive w rest first

/-- The keys with metadata. -/
def metadataTimes (w : DumpWallet) : Table CKeyID Int :=
  w.mapKeyMetadata.entries.foldl (fun birth e =>
    if e.2.nCreateTime ≠ 0 then birth.insert e.1 e.2.nCreateTime else birth) ∅

/-- `GetKeyBirthTimes`; there is always a genesis block. -/
def getKeyBirthTimes (C : WalletCrypto) (carrier : DataCarrier) (chainActive : List ActiveBlock) (w : DumpWallet) :
    Option (Table CKeyID Int) := do
  let mapKeyBirth := w.metadataTimes
  let indexMax := chainActive.length - 1 - 144
  let mapKeyFirstBlock := (w.keystore.getKeys.filter fun keyid => (mapKeyBirth.lookup keyid).isNone).foldl
    (fun (first : Table CKeyID Nat) keyid => first.insert keyid indexMax) ∅
  if mapKeyFirstBlock.entries = [] then some mapKeyBirth
  else do
    let mapKeyFirstBlock ← firstBlocks C carrier chainActive w w.mapWallet mapKeyFirstBlock
    mapKeyFirstBlock.entries.foldlM (fun (birth : Table CKeyID Int) e => do
      let block ← chainActive[e.2]?
      some (birth.insert e.1 (block.nTime - 7200))) mapKeyBirth

/-! ## dumpwallet -/

/-- `GetAllReserveKeys`; `none` when it throws. -/
def getAllReserveKeys (C : WalletCrypto) (w : DumpWallet) : Option (List CKeyID) :=
  w.setKeyPool.mapM fun id => do
    let keypool ← w.pool id
    if keypool.vchPubKey.isEmpty then none
    else if w.keystore.haveKey (CPubKey.getID C keypool.vchPubKey) = false then none
    else some (CPubKey.getID C keypool.vchPubKey)

/-- The order of `std::pair`. -/
def birthBefore (a b : Int × CKeyID) : Prop :=
  a.1 < b.1 ∨ (a.1 = b.1 ∧ a.2 ≤ b.2)

instance : DecidableRel birthBefore := fun a b => by
  unfold birthBefore
  infer_instance

/-- The line of a key; a key that the wallet does not have gets none. -/
def dumpKey (E : DumpEnv) (w : DumpWallet) (setKeyPool : List CKeyID) (birth : Int × CKeyID) : Option Bytes := do
  let keyid := birth.2
  let strTime ← E.encodeDumpTime birth.1
  let strAddr ← E.addressToString keyid
  match w.keystore.getKey E.crypto keyid with
  | none => some []
  | some key =>
    let strSecret ← E.secretToString key
    match w.mapAddressBook.lookup (.keyID keyid) with
    | some label =>
      some (strSecret ++ ascii " " ++ strTime ++ ascii " label=" ++ encodeDumpString label.name ++ ascii " # addr=" ++
        strAddr ++ ascii "\n")
    | none =>
      if keyid ∈ setKeyPool then
        some (strSecret ++ ascii " " ++ strTime ++ ascii " reserve=1 # addr=" ++ strAddr ++ ascii "\n")
      else some (strSecret ++ ascii " " ++ strTime ++ ascii " change=1 # addr=" ++ strAddr ++ ascii "\n")

/-- The comments at the top, and the empty line behind them. -/
def dumpHeader (E : DumpEnv) (chainActive : List ActiveBlock) (nNow : Int) : Option Bytes := do
  let tip ← chainActive.getLast?
  let strNow ← E.encodeDumpTime nNow
  let strTip ← E.encodeDumpTime tip.nTime
  some (ascii "# Wallet dump created by Dobbscoin " ++ E.clientBuild ++ ascii " (" ++ E.clientDate ++ ascii ")\n" ++
    (ascii "# * Created on " ++ strNow ++ ascii "\n") ++
    (ascii "# * Best block at time of backup was " ++ Decimal.print (chainActive.length - 1) ++ ascii " (" ++
      hexStr (ByteCodec.leBytes 32 tip.hash.toNat).reverse ++ ascii "),\n") ++
    (ascii "#   mined on " ++ strTip ++ ascii "\n") ++ ascii "\n")

/-- `dumpwallet`: the file, or `none` when an exception or an assertion ends it. -/
def dumpwallet (E : DumpEnv) (carrier : DataCarrier) (chainActive : List ActiveBlock) (nNow : Int) (w : DumpWallet) :
    Option Bytes :=
  if w.keystore.isLocked then none
  else do
    let mapKeyBirth ← w.getKeyBirthTimes E.crypto carrier chainActive
    let setKeyPool ← w.getAllReserveKeys E.crypto
    let vKeyBirth := (mapKeyBirth.entries.map fun e => (e.2, e.1)).insertionSort birthBefore
    let header ← dumpHeader E chainActive nNow
    let lines ← vKeyBirth.mapM (dumpKey E w setKeyPool)
    some (header ++ lines.flatten ++ ascii "\n# End of dump\n")

/-! ## importwallet -/

/-- `CWallet::AddKeyPubKey`; `writeKey` is what the database answers. -/
def addKeyPubKey (C : WalletCrypto) (writeKey : CPubKey → Bool) (w : DumpWallet) (secret : CKey) (pubkey : CPubKey) :
    Bool × DumpWallet :=
  match w.keystore.addKeyPubKey C secret pubkey with
  | none => (false, w)
  | some keystore =>
    let w := { w with keystore := keystore.unwatch (getScriptForDestination (CPubKey.getID C pubkey)) }
    if w.fFileBacked = false then (true, w)
    else if w.keystore.isCrypted = false then
      let metadata := (w.mapKeyMetadata.lookup (CPubKey.getID C pubkey)).getD (WalletFile.keyMetadataOf 0)
      (writeKey pubkey, { w with mapKeyMetadata := w.mapKeyMetadata.insert (CPubKey.getID C pubkey) metadata })
    else (true, w)

/-- `SetAddressBook` with a purpose. -/
def setAddressBook (w : DumpWallet) (address : CTxDestination) (strName strPurpose : Bytes) : DumpWallet :=
  { w with mapAddressBook := w.mapAddressBook.insert address ⟨strName, strPurpose⟩ }

/-- The loop over the words behind the time: `fLabel` and `strLabel`; `none` when decoding a label does not end. -/
def readFlags : List Bytes → Bool × Bytes → Option (Bool × Bytes)
  | [], flags => some flags
  | word :: rest, (fLabel, strLabel) =>
    if ascii "#" <+: word then some (fLabel, strLabel)
    else
      let fLabel := if word = ascii "change=1" then false else fLabel
      let fLabel := if word = ascii "reserve=1" then false else fLabel
      if ascii "label=" <+: word then do
        let strLabel ← decodeDumpString (word.drop 6)
        readFlags rest (true, strLabel)
      else readFlags rest (fLabel, strLabel)

/-- The wallet, `fGood` and `nTimeBegin`. -/
structure ImportState where
  wallet : DumpWallet
  fGood : Bool
  nTimeBegin : Int

/-- One line; `none` when an assertion fails. -/
def importLine (E : DumpEnv) (writeKey : CPubKey → Bool) (s : ImportState) (line : Bytes) : Option ImportState :=
  if line.isEmpty || line.head? == some 0x23 then some s
  else
    match line.splitOn 0x20 with
    | word :: strTime :: words => do
      match ← E.secretSetString word with
      | none => some s
      | some vchData =>
        let key ← E.secretGetKey vchData
        let pubkey := E.crypto.getPubKey key.vch key.fCompressed
        if E.verifyPubKey key pubkey = false then none
        else
          let keyid := CPubKey.getID E.crypto pubkey
          if s.wallet.keystore.haveKey keyid then some s
          else
            let nTime := E.decodeDumpTime strTime
            let (fLabel, strLabel) ← readFlags words (true, [])
            let added := s.wallet.addKeyPubKey E.crypto writeKey key pubkey
            if added.1 = false then some { s with wallet := added.2, fGood := false }
            else
              let w := added.2
              let metadata := (w.mapKeyMetadata.lookup keyid).getD (WalletFile.keyMetadataOf 0)
              let w := { w with mapKeyMetadata := w.mapKeyMetadata.insert keyid { metadata with nCreateTime := nTime } }
              let w := if fLabel then w.setAddressBook (.keyID keyid) strLabel (ascii "receive") else w
              some { wallet := w, fGood := s.fGood, nTimeBegin := min s.nTimeBegin nTime }
    | _ => some s

/-- `importwallet`, up to the rescan, which changes neither keys nor labels: `fGood` and the wallet. -/
def importwallet (E : DumpEnv) (writeKey : CPubKey → Bool) (nTipTime : Int) (w : DumpWallet) (file : Bytes) :
    Option (Bool × DumpWallet) :=
  if w.keystore.isLocked then none
  else do
    let s ← (file.splitOn 0x0a).foldlM (importLine E writeKey) ⟨w, true, nTipTime⟩
    let nTimeFirstKey :=
      if s.wallet.nTimeFirstKey = 0 ∨ s.nTimeBegin < s.wallet.nTimeFirstKey then s.nTimeBegin
      else s.wallet.nTimeFirstKey
    some (s.fGood, { s.wallet with nTimeFirstKey })

/-! ## Every key has a birth time -/

theorem mem_foldl_insert_key {V : Type} {l : List CKeyID} {v : CKeyID → V} {t : Table CKeyID V} {id : CKeyID} :
    id ∈ l.foldl (fun (t : Table CKeyID V) id => t.insert id (v id)) t ↔ id ∈ l ∨ id ∈ t := by
  induction l generalizing t with
  | nil => exact (or_iff_right List.not_mem_nil).symm
  | cons id' l ih => rw [List.foldl_cons, ih, AList.mem_insert, List.mem_cons, or_left_comm, or_assoc]

/-- What each step of a loop keeps, the loop keeps. -/
theorem foldlM_keeps {α β : Type} {f : β → α → Option β} {P : β → Prop} {l : List α}
    (hstep : ∀ b a b', f b a = some b' → P b → P b') {b b' : β} (h : l.foldlM f b = some b') (hb : P b) : P b' := by
  induction l generalizing b with
  | nil =>
    rw [List.foldlM_nil] at h
    rwa [← Option.some.inj h]
  | cons a l ih =>
    rw [List.foldlM_cons] at h
    rcases Option.bind_eq_some_iff.1 h with ⟨next, hnext, hrest⟩
    exact ih hrest (hstep b a next hnext hb)

theorem mem_lowerFirst {nHeight : Nat} {vAffected : List CKeyID} {first : Table CKeyID Nat} {id : CKeyID}
    (h : id ∈ first) : id ∈ lowerFirst nHeight first vAffected := by
  induction vAffected generalizing first with
  | nil => exact h
  | cons keyid vAffected ih =>
    rw [lowerFirst, List.foldl_cons]
    apply ih
    split
    · split
      · exact (AList.mem_insert first).2 (Or.inr h)
      · exact h
    · exact h

theorem mem_firstBlocks {w : DumpWallet}
    {wtxs : List WalletOutputs} {first first' : Table CKeyID Nat} {id : CKeyID}
    (h : firstBlocks C carrier chainActive w wtxs first = some first') (hid : id ∈ first) : id ∈ first' := by
  induction wtxs generalizing first with
  | nil => rwa [← Option.some.inj h]
  | cons wtx wtxs ih =>
    rw [firstBlocks] at h
    cases hheight : heightOf chainActive wtx.hashBlock with
    | none =>
      rw [hheight] at h
      exact ih h hid
    | some nHeight =>
      rw [hheight] at h
      rcases Option.bind_eq_some_iff.1 h with ⟨lowered, hlowered, hrest⟩
      refine ih hrest (foldlM_keeps (P := fun first => id ∈ first) ?_ hlowered hid)
      intro first txout next hnext hin
      rcases Option.bind_eq_some_iff.1 hnext with ⟨vAffected, -, hlower⟩
      rw [← Option.some.inj hlower]
      exact mem_lowerFirst hin

/-- The last loop of `GetKeyBirthTimes`: each entry gives a time. -/
theorem mem_blockTimes {entries : List (Σ _ : CKeyID, Nat)}
    {birth birth' : Table CKeyID Int} {id : CKeyID} (h : entries.foldlM (fun (birth : Table CKeyID Int) e => do
      let block ← chainActive[e.2]?
      some (birth.insert e.1 (block.nTime - 7200))) birth = some birth')
    (hid : id ∈ entries.map Sigma.fst ∨ id ∈ birth) : id ∈ birth' := by
  induction entries generalizing birth with
  | nil =>
    rw [List.foldlM_nil] at h
    rw [← Option.some.inj h]
    exact hid.resolve_left List.not_mem_nil
  | cons e entries ih =>
    rw [List.foldlM_cons] at h
    rcases Option.bind_eq_some_iff.1 h with ⟨next, hnext, hrest⟩
    rcases Option.bind_eq_some_iff.1 hnext with ⟨block, -, hinsert⟩
    refine ih hrest ?_
    rw [← Option.some.inj hinsert, AList.mem_insert]
    rw [List.map_cons, List.mem_cons] at hid
    tauto

/-- A key is born when its metadata says, or else before the first block that affects it. -/
theorem mem_getKeyBirthTimes {w : DumpWallet}
    {mapKeyBirth : Table CKeyID Int} (h : w.getKeyBirthTimes C carrier chainActive = some mapKeyBirth) {id : CKeyID}
    (hid : id ∈ w.keystore.getKeys) : id ∈ mapKeyBirth := by
  have hmissing : id ∉ w.metadataTimes →
      id ∈ w.keystore.getKeys.filter fun keyid => (w.metadataTimes.lookup keyid).isNone :=
    fun hnot => List.mem_filter.2 ⟨hid, by rw [AList.lookup_eq_none.2 hnot]; rfl⟩
  rw [getKeyBirthTimes] at h
  dsimp only [Option.bind_eq_bind] at h
  split at h
  · next hnone =>
    rw [← Option.some.inj h]
    by_contra hnot
    have hfirst := mem_foldl_insert_key (v := fun _ => chainActive.length - 1 - 144) (t := ∅) |>.2
      (Or.inl (hmissing hnot))
    rw [AList.mem_keys, AList.keys, hnone] at hfirst
    exact List.not_mem_nil hfirst
  · rcases Option.bind_eq_some_iff.1 h with ⟨first, hfirst, hlast⟩
    refine mem_blockTimes hlast ?_
    by_cases hin : id ∈ w.metadataTimes
    · exact Or.inr hin
    · have hbefore := mem_foldl_insert_key (v := fun _ => chainActive.length - 1 - 144) (t := ∅) |>.2
        (Or.inl (hmissing hin))
      exact Or.inl (AList.mem_keys.1 (mem_firstBlocks hfirst hbefore))

/-! ## Reading lines -/

/-- Reading the lines of `text` takes the import from `s` to `s'`, whatever is behind them. -/
def Reads (E : DumpEnv) (writeKey : CPubKey → Bool) (text : Bytes) (s s' : ImportState) : Prop :=
  ∀ rest : Bytes, ((text ++ rest).splitOn 0x0a).foldlM (importLine E writeKey) s =
    (rest.splitOn 0x0a).foldlM (importLine E writeKey) s'

variable {E : DumpEnv} {writeKey : CPubKey → Bool} {s s' s'' : ImportState}

theorem Reads.nil : Reads E writeKey [] s s :=
  fun _ => rfl

theorem Reads.append {text text' : Bytes} (h : Reads E writeKey text s s') (h' : Reads E writeKey text' s' s'') :
    Reads E writeKey (text ++ text') s s'' := by
  intro rest
  rw [List.append_assoc, h, h']

theorem Reads.line {line : Bytes} (hline : 0x0a ∉ line) (h : importLine E writeKey s line = some s') :
    Reads E writeKey (line ++ ascii "\n") s s' := by
  intro rest
  have hbreak : ascii "\n" = [0x0a] := by decide
  rw [hbreak, List.append_assoc, List.singleton_append, List.splitOn_append_cons_self_of_not_mem hline, List.foldlM_cons, h]
  rfl

theorem Reads.empty : Reads E writeKey (ascii "\n") s s := by
  have hline : Reads E writeKey ([] ++ ascii "\n") s s := Reads.line List.not_mem_nil rfl
  exact hline

/-- A comment is skipped. -/
theorem Reads.comment {line : Bytes} (hline : 0x0a ∉ line) : Reads E writeKey (ascii "#" ++ line ++ ascii "\n") s s := by
  have hhash : ascii "#" = [0x23] := by decide
  apply Reads.line
  · rw [hhash, List.singleton_append, List.mem_cons, not_or]
    exact ⟨by decide, hline⟩
  · rw [hhash, List.singleton_append]
    rfl

/-- Bytes without a line break. -/
theorem not_mem_digits {ds : Bytes} (h : ∀ ch ∈ ds, Decimal.isDigit ch = true) : 0x0a ∉ ds :=
  fun hin => absurd (h _ hin) (by decide)

theorem not_mem_hexStr (bs : Bytes) : 0x0a ∉ hexStr bs := by
  intro hin
  rw [hexStr, List.mem_flatMap] at hin
  rcases hin with ⟨c, -, hin⟩
  rw [List.mem_pair] at hin
  rcases hin with hhi | hlo
  · exact absurd (hexmap_high c).1 (by rw [← hhi]; decide)
  · exact absurd (hexmap_low c).1 (by rw [← hlo]; decide)

/-- The comments at the top are skipped, and so is the empty line. -/
theorem reads_header {nNow : Int} {header : Bytes}
    (h : dumpHeader E chainActive nNow = some header) : Reads E writeKey header s s := by
  rcases Option.bind_eq_some_iff.1 h with ⟨tip, -, h⟩
  rcases Option.bind_eq_some_iff.1 h with ⟨strNow, hnow, h⟩
  rcases Option.bind_eq_some_iff.1 h with ⟨strTip, htip, h⟩
  have hcreated : Reads E writeKey (ascii "# Wallet dump created by Dobbscoin " ++ E.clientBuild ++ ascii " (" ++
      E.clientDate ++ ascii ")\n") s s := by
    have hfront : ascii "# Wallet dump created by Dobbscoin " =
        ascii "#" ++ ascii " Wallet dump created by Dobbscoin " := by decide
    have hback : ascii ")\n" = ascii ")" ++ ascii "\n" := by decide
    have hcomment : Reads E writeKey (ascii "#" ++ (ascii " Wallet dump created by Dobbscoin " ++ (E.clientBuild ++
        (ascii " (" ++ (E.clientDate ++ ascii ")")))) ++ ascii "\n") s s :=
      Reads.comment (List.not_mem_append (by decide) (List.not_mem_append E.build_text.1
        (List.not_mem_append (by decide) (List.not_mem_append E.build_text.2 (by decide)))))
    rw [hfront, hback]
    simpa only [List.append_assoc] using hcomment
  have hon : Reads E writeKey (ascii "# * Created on " ++ strNow ++ ascii "\n") s s := by
    have hfront : ascii "# * Created on " = ascii "#" ++ ascii " * Created on " := by decide
    rw [hfront, List.append_assoc (ascii "#")]
    exact Reads.comment (List.not_mem_append (by decide) (E.time_text _ _ hnow).2)
  have hbest : Reads E writeKey (ascii "# * Best block at time of backup was " ++ Decimal.print (chainActive.length - 1) ++
      ascii " (" ++ hexStr (ByteCodec.leBytes 32 tip.hash.toNat).reverse ++ ascii "),\n") s s := by
    have hfront : ascii "# * Best block at time of backup was " =
        ascii "#" ++ ascii " * Best block at time of backup was " := by decide
    have hback : ascii "),\n" = ascii ")," ++ ascii "\n" := by decide
    have hcomment : Reads E writeKey (ascii "#" ++ (ascii " * Best block at time of backup was " ++
        (Decimal.print (chainActive.length - 1) ++ (ascii " (" ++
          (hexStr (ByteCodec.leBytes 32 tip.hash.toNat).reverse ++ ascii "),")))) ++ ascii "\n") s s :=
      Reads.comment (List.not_mem_append (by decide)
        (List.not_mem_append (not_mem_digits Decimal.isDigit_of_mem_print)
          (List.not_mem_append (by decide) (List.not_mem_append (not_mem_hexStr _) (by decide)))))
    rw [hfront, hback]
    simpa only [List.append_assoc] using hcomment
  have hmined : Reads E writeKey (ascii "#   mined on " ++ strTip ++ ascii "\n") s s := by
    have hfront : ascii "#   mined on " = ascii "#" ++ ascii "   mined on " := by decide
    rw [hfront, List.append_assoc (ascii "#")]
    exact Reads.comment (List.not_mem_append (by decide) (E.time_text _ _ htip).2)
  rw [← Option.some.inj h]
  exact (((hcreated.append hon).append hbest).append hmined).append Reads.empty

/-! ## The line of a key -/

/-- The line without its break; `flag` says what kind of key it is. -/
def keyLine (strSecret strTime flag strAddr : Bytes) : Bytes :=
  strSecret ++ (0x20 :: (strTime ++ (0x20 :: (flag ++ (0x20 :: (ascii "#" ++ (0x20 :: (ascii "addr=" ++ strAddr))))))))

theorem splitOn_keyLine {strSecret strTime flag strAddr : Bytes} (hsecret : 0x20 ∉ strSecret) (htime : 0x20 ∉ strTime)
    (hflag : 0x20 ∉ flag) (haddr : 0x20 ∉ strAddr) :
    (keyLine strSecret strTime flag strAddr).splitOn 0x20 =
      [strSecret, strTime, flag, ascii "#", ascii "addr=" ++ strAddr] := by
  have hcomment : (0x20 : UInt8) ∉ ascii "#" := by decide
  have hlast : (0x20 : UInt8) ∉ ascii "addr=" ++ strAddr := List.not_mem_append (by decide) haddr
  rw [keyLine, List.splitOn_append_cons_self_of_not_mem hsecret, List.splitOn_append_cons_self_of_not_mem htime,
    List.splitOn_append_cons_self_of_not_mem hflag, List.splitOn_append_cons_self_of_not_mem hcomment,
    List.splitOn_eq_singleton hlast]

theorem not_mem_keyLine {strSecret strTime flag strAddr : Bytes} (hsecret : 0x0a ∉ strSecret) (htime : 0x0a ∉ strTime)
    (hflag : 0x0a ∉ flag) (haddr : 0x0a ∉ strAddr) : 0x0a ∉ keyLine strSecret strTime flag strAddr := by
  have hblank : ∀ bs : Bytes, 0x0a ∉ bs → 0x0a ∉ 0x20 :: bs := fun bs hbs hin =>
    (List.mem_cons.1 hin).elim (by decide) hbs
  exact List.not_mem_append hsecret (hblank _ (List.not_mem_append htime (hblank _ (List.not_mem_append hflag
    (hblank _ (List.not_mem_append (by decide) (hblank _ (List.not_mem_append (by decide) haddr))))))))

/-- The comment ends the words. -/
theorem readFlags_comment (rest : List Bytes) (flags : Bool × Bytes) :
    readFlags (ascii "#" :: rest) flags = some flags := by
  rw [readFlags, if_pos (List.prefix_refl _)]

theorem readFlags_label {name : Bytes} (hname : (encodeDumpString name).length < 2 ^ 32) (rest : List Bytes) :
    readFlags ((ascii "label=" ++ encodeDumpString name) :: ascii "#" :: rest) (true, []) = some (true, name) := by
  have hhash : ¬ ascii "#" <+: ascii "label=" ++ encodeDumpString name := by
    have hlabel : ascii "label=" = [0x6c, 0x61, 0x62, 0x65, 0x6c, 0x3d] := by decide
    have hsharp : ascii "#" = [0x23] := by decide
    rw [hlabel, hsharp, List.cons_append, List.cons_prefix_cons]
    exact fun h => absurd h.1 (by decide)
  have hdrop : (ascii "label=" ++ encodeDumpString name).drop 6 = encodeDumpString name := List.drop_left' (by decide)
  rw [readFlags, if_neg hhash]
  dsimp only
  rw [if_pos (List.prefix_append _ _), hdrop, (decode_encodeDumpString_iff name).2 hname, Option.bind_eq_bind,
    Option.bind_some, readFlags_comment]

theorem readFlags_change (rest : List Bytes) :
    readFlags (ascii "change=1" :: ascii "#" :: rest) (true, []) = some (false, []) := by
  rw [readFlags, if_neg (by decide)]
  dsimp only
  rw [if_neg (by decide), if_pos rfl, if_neg (by decide), readFlags_comment]

theorem readFlags_reserve (rest : List Bytes) :
    readFlags (ascii "reserve=1" :: ascii "#" :: rest) (true, []) = some (false, []) := by
  rw [readFlags, if_neg (by decide)]
  dsimp only
  rw [if_neg (by decide), if_pos rfl, readFlags_comment]

theorem unwatch_keys (s : CCryptoKeyStore) (script : CScript) :
    (s.unwatch script).isCrypted = s.isCrypted ∧ (s.unwatch script).mapKeys = s.mapKeys := by
  rw [CCryptoKeyStore.unwatch]
  split
  · exact ⟨rfl, rfl⟩
  · exact ⟨rfl, rfl⟩

/-- A wallet that is not encrypted takes the key. -/
theorem addKeyPubKey_plain {w : DumpWallet} (hwrite : ∀ pubkey, writeKey pubkey = true)
    (hplain : w.keystore.isCrypted = false) (key : CKey) (pubkey : CPubKey) :
    ∃ w', w.addKeyPubKey C writeKey key pubkey = (true, w') ∧ w'.keystore.isCrypted = false ∧
      w'.keystore.mapKeys = w.keystore.mapKeys.insert (CPubKey.getID C pubkey) key ∧
      w'.mapAddressBook = w.mapAddressBook := by
  have hadd : w.keystore.addKeyPubKey C key pubkey =
      some { w.keystore with mapKeys := w.keystore.mapKeys.insert (CPubKey.getID C pubkey) key } := by
    rw [CCryptoKeyStore.addKeyPubKey, if_pos hplain]
  rcases unwatch_keys { w.keystore with mapKeys := w.keystore.mapKeys.insert (CPubKey.getID C pubkey) key }
    (getScriptForDestination (CPubKey.getID C pubkey)) with ⟨hcrypted, hkeys⟩
  have hcrypted' := hcrypted.trans hplain
  rw [addKeyPubKey, hadd]
  dsimp only
  split
  · exact ⟨_, rfl, hcrypted', hkeys, rfl⟩
  · rw [hwrite]
    exact ⟨_, rfl, hcrypted', hkeys, rfl⟩

/-- A line with a key that is not in the wallet adds it, with a label when the words say so. -/
theorem importLine_key {key : CKey} {keyid : CKeyID} {strSecret vchData strTime flag strAddr strLabel : Bytes}
    {fLabel : Bool} (hsecret : IsWord strSecret) (htime : 0x20 ∉ strTime) (hflag : 0x20 ∉ flag) (haddr : 0x20 ∉ strAddr)
    (hset : E.secretSetString strSecret = some (some vchData)) (hget : E.secretGetKey vchData = some key)
    (hcheck : E.check key.vch = true)
    (hkeyid : CPubKey.getID E.crypto (E.crypto.getPubKey key.vch key.fCompressed) = keyid)
    (hwrite : ∀ pubkey, writeKey pubkey = true) (hplain : s.wallet.keystore.isCrypted = false)
    (hfresh : s.wallet.keystore.mapKeys.lookup keyid = none)
    (hflags : readFlags [flag, ascii "#", ascii "addr=" ++ strAddr] (true, []) = some (fLabel, strLabel)) :
    ∃ s', importLine E writeKey s (keyLine strSecret strTime flag strAddr) = some s' ∧ s'.fGood = s.fGood ∧
      s'.wallet.keystore.isCrypted = false ∧
      s'.wallet.keystore.mapKeys = s.wallet.keystore.mapKeys.insert keyid key ∧
      s'.wallet.mapAddressBook =
        if fLabel then s.wallet.mapAddressBook.insert (.keyID keyid) ⟨strLabel, ascii "receive"⟩
        else s.wallet.mapAddressBook := by
  have htext : ((keyLine strSecret strTime flag strAddr).isEmpty ||
      (keyLine strSecret strTime flag strAddr).head? == some 0x23) = false := by
    rcases List.exists_cons_of_ne_nil hsecret.ne with ⟨ch, rest, rfl⟩
    have hch : ch ≠ 0x23 := fun h => hsecret.hash (h ▸ List.mem_cons_self)
    rw [keyLine, List.cons_append, List.isEmpty_cons, List.head?_cons, Bool.false_or]
    exact beq_eq_false_iff_ne.2 fun h => hch (Option.some.inj h)
  have hhave : s.wallet.keystore.haveKey keyid = false := by
    rw [CCryptoKeyStore.haveKey, hplain, if_neg Bool.false_ne_true, hfresh, Option.isSome_none]
  rcases addKeyPubKey_plain (C := E.crypto) hwrite hplain key (E.crypto.getPubKey key.vch key.fCompressed)
    with ⟨w', hadd, hcrypted, hkeys, hbook⟩
  rw [hkeyid] at hkeys
  rw [importLine, htext, if_neg Bool.false_ne_true, splitOn_keyLine hsecret.blank htime hflag haddr]
  dsimp only
  rw [hset, Option.bind_eq_bind, Option.bind_some]
  dsimp only
  rw [hget, Option.bind_eq_bind, Option.bind_some, E.verify_own key hcheck, if_neg (by decide), hkeyid, hhave,
    if_neg Bool.false_ne_true, hflags, Option.bind_eq_bind, Option.bind_some]
  dsimp only
  rw [hadd, if_neg (fun h : true = false => Bool.noConfusion h)]
  cases fLabel with
  | true => exact ⟨_, rfl, rfl, hcrypted, hkeys, by rw [← hbook]; rfl⟩
  | false => exact ⟨_, rfl, rfl, hcrypted, hkeys, hbook⟩

/-! ## From one wallet to another -/

/-- Each key that the wallet gives out is valid, and is the one of its ID. -/
def KeysMatch (E : DumpEnv) (w : DumpWallet) : Prop :=
  ∀ id key, w.keystore.getKey E.crypto id = some key → key.vch.length = 32 ∧ E.check key.vch = true ∧
    CPubKey.getID E.crypto (E.crypto.getPubKey key.vch key.fCompressed) = id

/-- A label has less than `2 ^ 32` bytes when it is encoded. -/
def LabelsFit (w : DumpWallet) : Prop :=
  ∀ id label, w.mapAddressBook.lookup (.keyID id) = some label → (encodeDumpString label.name).length < 2 ^ 32

/-- The label of a key that the wallet has. -/
def labelOf (E : DumpEnv) (w : DumpWallet) (id : CKeyID) : Option Bytes :=
  if (w.keystore.getKey E.crypto id).isSome then (w.mapAddressBook.lookup (.keyID id)).map AddressLabel.name else none

/-- The wallet has no keys and no labels, and is not encrypted. -/
structure IsEmpty (w : DumpWallet) : Prop where
  plain : w.keystore.isCrypted = false
  keys : w.keystore.mapKeys = ∅
  labels : w.mapAddressBook = ∅

/-- The keys of `done`, and their labels, have been taken over from `w`. -/
structure Loaded (E : DumpEnv) (w : DumpWallet) (done : List CKeyID) (w' : DumpWallet) : Prop where
  plain : w'.keystore.isCrypted = false
  keys : ∀ id, w'.keystore.mapKeys.lookup id = if id ∈ done then w.keystore.getKey E.crypto id else none
  labels : ∀ id, (w'.mapAddressBook.lookup (.keyID id)).map AddressLabel.name =
    if id ∈ done then w.labelOf E id else none
  others : ∀ dest, (∀ id, dest ≠ .keyID id) → w'.mapAddressBook.lookup dest = none

variable {w w' : DumpWallet} {done : List CKeyID} {id : CKeyID}

theorem IsEmpty.loaded (h : w'.IsEmpty) : Loaded E w [] w' where
  plain := h.plain
  keys id := by rw [h.keys, if_neg List.not_mem_nil]; rfl
  labels id := by rw [h.labels, if_neg List.not_mem_nil]; rfl
  others dest _ := by rw [h.labels]; rfl

theorem ite_cons_of_ne {α : Type} {x y : α} {id' : CKeyID} (hne : id' ≠ id) :
    (if id' ∈ id :: done then x else y) = if id' ∈ done then x else y :=
  if_congr (List.mem_cons.trans (or_iff_right hne)) rfl rfl

/-- A key that the wallet does not have changes nothing. -/
theorem Loaded.skip (h : Loaded E w done w') (hnone : w.keystore.getKey E.crypto id = none) :
    Loaded E w (id :: done) w' := by
  have hlabel : w.labelOf E id = none := by
    rw [labelOf, hnone, Option.isSome_none, if_neg Bool.false_ne_true]
  refine ⟨h.plain, fun id' => ?_, fun id' => ?_, h.others⟩
  · rw [h.keys]
    by_cases hid : id' = id
    · rw [hid, hnone, ite_self, ite_self]
    · rw [ite_cons_of_ne hid]
  · rw [h.labels]
    by_cases hid : id' = id
    · rw [hid, hlabel, ite_self, ite_self]
    · rw [ite_cons_of_ne hid]

/-- A key is added, with its label if it has one. -/
theorem Loaded.add (h : Loaded E w done w') {key : CKey} (hkey : w.keystore.getKey E.crypto id = some key)
    (hid : id ∉ done) {added : DumpWallet} (hplain : added.keystore.isCrypted = false)
    (hkeys : added.keystore.mapKeys = w'.keystore.mapKeys.insert id key) {strPurpose : Bytes}
    (hbook : added.mapAddressBook =
      match w.mapAddressBook.lookup (.keyID id) with
      | some label => w'.mapAddressBook.insert (.keyID id) ⟨label.name, strPurpose⟩
      | none => w'.mapAddressBook) : Loaded E w (id :: done) added := by
  refine ⟨hplain, fun id' => ?_, fun id' => ?_, fun dest hdest => ?_⟩
  · rw [hkeys]
    by_cases hsame : id' = id
    · rw [hsame, AList.lookup_insert, if_pos List.mem_cons_self, hkey]
    · rw [AList.lookup_insert_ne hsame, h.keys, ite_cons_of_ne hsame]
  · rw [hbook]
    by_cases hsame : id' = id
    · rw [hsame, if_pos List.mem_cons_self, labelOf, hkey, Option.isSome_some, if_pos rfl]
      cases hlabel : w.mapAddressBook.lookup (.keyID id) with
      | none =>
        dsimp only
        rw [h.labels, if_neg hid]
        rfl
      | some label =>
        dsimp only
        rw [AList.lookup_insert]
        rfl
    · rw [ite_cons_of_ne hsame, ← h.labels]
      cases w.mapAddressBook.lookup (.keyID id) with
      | none => rfl
      | some label =>
        dsimp only
        rw [AList.lookup_insert_ne fun heq => hsame (CTxDestination.keyID.inj heq)]
  · rw [hbook]
    cases w.mapAddressBook.lookup (.keyID id) with
    | none => exact h.others dest hdest
    | some label =>
      dsimp only
      rw [AList.lookup_insert_ne (hdest id)]
      exact h.others dest hdest

/-- The import of what was dumped for one key. -/
theorem reads_dumpKey (hkeys : w.KeysMatch E)
    (hlabels : w.LabelsFit)
    (hwrite : ∀ pubkey, writeKey pubkey = true) {nTime : Int} {text : Bytes}
    (hdump : dumpKey E w setKeyPool (nTime, id) = some text) (h : Loaded E w done s.wallet) (hid : id ∉ done) :
    ∃ s', Reads E writeKey text s s' ∧ s'.fGood = s.fGood ∧ Loaded E w (id :: done) s'.wallet := by
  rcases Option.bind_eq_some_iff.1 hdump with ⟨strTime, htime, hdump⟩
  rcases Option.bind_eq_some_iff.1 hdump with ⟨strAddr, haddr, hdump⟩
  rcases E.addressToString_spec id with ⟨strAddr', haddr', haddrword⟩
  rw [haddr, Option.some_inj] at haddr'
  rw [← haddr'] at haddrword
  rcases E.time_text _ _ htime with ⟨htimeblank, htimeline⟩
  cases hkey : w.keystore.getKey E.crypto id with
  | none =>
    rw [hkey] at hdump
    rw [← Option.some.inj hdump]
    exact ⟨s, Reads.nil, rfl, h.skip hkey⟩
  | some key =>
    rw [hkey] at hdump
    rcases hkeys id key hkey with ⟨hlength, hcheck, hown⟩
    rcases E.secretToString_spec hlength hcheck with ⟨strSecret, vchData, hsecret, hword, hset, hget⟩
    dsimp only at hdump
    rw [hsecret, Option.bind_eq_bind, Option.bind_some] at hdump
    have hfresh : s.wallet.keystore.mapKeys.lookup id = none := by
      rw [h.keys, if_neg hid]
    -- A line whose flag says whether there is a label, and which.
    have hline : ∀ flag fLabel strLabel, 0x20 ∉ flag → 0x0a ∉ flag →
        readFlags [flag, ascii "#", ascii "addr=" ++ strAddr] (true, []) = some (fLabel, strLabel) →
        (∀ book : Table CTxDestination AddressLabel,
          (if fLabel then book.insert (.keyID id) ⟨strLabel, ascii "receive"⟩ else book) =
            match w.mapAddressBook.lookup (.keyID id) with
            | some label => book.insert (.keyID id) ⟨label.name, ascii "receive"⟩
            | none => book) →
        ∃ s', Reads E writeKey (keyLine strSecret strTime flag strAddr ++ ascii "\n") s s' ∧ s'.fGood = s.fGood ∧
          Loaded E w (id :: done) s'.wallet := by
      intro flag fLabel strLabel hblank hnoline hflags hbook
      rcases importLine_key hword htimeblank hblank haddrword.blank hset hget hcheck hown hwrite h.plain hfresh hflags
        with ⟨s', hread, hgood, hplain, hadded, hlabeled⟩
      refine ⟨s', Reads.line ?_ hread, hgood, h.add hkey hid hplain hadded (hlabeled.trans (hbook _))⟩
      exact not_mem_keyLine hword.line htimeline hnoline haddrword.line
    have hspace : ascii " " = [0x20] := by decide
    have hend : ascii " # addr=" = 0x20 :: (ascii "#" ++ 0x20 :: ascii "addr=") := by decide
    cases hbook : w.mapAddressBook.lookup (.keyID id) with
    | some label =>
      rw [hbook] at hdump
      have hname := hlabels id label hbook
      have htext : text =
          keyLine strSecret strTime (ascii "label=" ++ encodeDumpString label.name) strAddr ++ ascii "\n" := by
        have hlabel : ascii " label=" = 0x20 :: ascii "label=" := by decide
        rw [← Option.some.inj hdump, keyLine, hspace, hlabel, hend]
        simp only [List.append_assoc, List.cons_append, List.nil_append]
      have hchars := encodeDumpString_chars label.name
      rw [htext]
      apply hline _ true label.name
      · exact List.not_mem_append (by decide) fun hin => absurd (hchars _ hin).1 (by decide)
      · exact List.not_mem_append (by decide) fun hin => absurd (hchars _ hin).1 (by decide)
      · exact readFlags_label hname _
      · intro book
        rw [hbook]
        rfl
    | none =>
      rw [hbook] at hdump
      dsimp only at hdump
      split at hdump
      · have htext : text = keyLine strSecret strTime (ascii "reserve=1") strAddr ++ ascii "\n" := by
          have hreserve : ascii " reserve=1 # addr=" =
              0x20 :: (ascii "reserve=1" ++ 0x20 :: (ascii "#" ++ 0x20 :: ascii "addr=")) := by decide
          rw [← Option.some.inj hdump, keyLine, hspace, hreserve]
          simp only [List.append_assoc, List.cons_append, List.nil_append]
        rw [htext]
        apply hline _ false []
        · decide
        · decide
        · exact readFlags_reserve _
        · intro book
          rw [hbook]
          rfl
      · have htext : text = keyLine strSecret strTime (ascii "change=1") strAddr ++ ascii "\n" := by
          have hchange : ascii " change=1 # addr=" =
              0x20 :: (ascii "change=1" ++ 0x20 :: (ascii "#" ++ 0x20 :: ascii "addr=")) := by decide
          rw [← Option.some.inj hdump, keyLine, hspace, hchange]
          simp only [List.append_assoc, List.cons_append, List.nil_append]
        rw [htext]
        apply hline _ false []
        · decide
        · decide
        · exact readFlags_change _
        · intro book
          rw [hbook]
          rfl

/-! ## The whole file -/

theorem reads_lines (hkeys : w.KeysMatch E)
    (hlabels : w.LabelsFit)
    (hwrite : ∀ pubkey, writeKey pubkey = true) {births : List (Int × CKeyID)}
    {lines : List Bytes} (hlines : births.mapM (dumpKey E w setKeyPool) = some lines) (hnodup : (births.map Prod.snd).Nodup)
    (hfresh : ∀ id ∈ births.map Prod.snd, id ∉ done) (h : Loaded E w done s.wallet) :
    ∃ s', Reads E writeKey lines.flatten s s' ∧ s'.fGood = s.fGood ∧
      Loaded E w ((births.map Prod.snd).reverse ++ done) s'.wallet := by
  induction births generalizing lines s done with
  | nil =>
    rw [List.mapM_nil] at hlines
    rw [← Option.some.inj hlines]
    exact ⟨s, Reads.nil, rfl, h⟩
  | cons birth births ih =>
    rw [List.mapM_cons] at hlines
    rcases Option.bind_eq_some_iff.1 hlines with ⟨text, htext, hlines⟩
    rcases Option.bind_eq_some_iff.1 hlines with ⟨rest, hrest, hlines⟩
    rw [List.map_cons, List.nodup_cons] at hnodup
    have hid : birth.2 ∉ done := hfresh _ (List.mem_cons_self)
    rcases reads_dumpKey hkeys hlabels hwrite htext h hid with ⟨s', hread, hgood, hloaded⟩
    have hfresh' : ∀ id ∈ births.map Prod.snd, id ∉ birth.2 :: done := by
      intro id hin hdone
      rcases List.mem_cons.1 hdone with rfl | hdone
      · exact hnodup.1 hin
      · exact hfresh id (List.mem_cons_of_mem _ hin) hdone
    rcases ih hrest hnodup.2 hfresh' hloaded with ⟨s'', hread', hgood', hloaded'⟩
    rw [← Option.some.inj hlines, List.flatten_cons]
    refine ⟨s'', hread.append hread', hgood'.trans hgood, ?_⟩
    rwa [List.map_cons, List.reverse_cons, List.append_assoc, List.singleton_append]

/-- A key that the wallet gives out is one of its keys. -/
theorem mem_getKeys {key : CKey} (h : w.keystore.getKey C id = some key) :
    id ∈ w.keystore.getKeys := by
  rw [CCryptoKeyStore.getKey] at h
  rw [CCryptoKeyStore.getKeys]
  split at h
  · next hplain =>
    rw [if_pos hplain]
    exact AList.mem_keys.1 (AList.lookup_isSome.1 (Option.isSome_of_mem h))
  · next hcrypted =>
    rw [if_neg hcrypted]
    rcases Option.bind_eq_some_iff.1 h with ⟨entry, hentry, -⟩
    exact AList.mem_keys.1 (AList.lookup_isSome.1 (Option.isSome_of_mem hentry))

/-- The IDs of the sorted births are those of the map, each once. -/
theorem sorted_births (mapKeyBirth : Table CKeyID Int) :
    let vKeyBirth := (mapKeyBirth.entries.map fun e => (e.2, e.1)).insertionSort birthBefore
    (vKeyBirth.map Prod.snd).Nodup ∧ ∀ id, id ∈ vKeyBirth.map Prod.snd ↔ id ∈ mapKeyBirth := by
  have hperm : (((mapKeyBirth.entries.map fun e => (e.2, e.1)).insertionSort birthBefore).map Prod.snd).Perm
      mapKeyBirth.keys := by
    have hkeys : (mapKeyBirth.entries.map fun e => (e.2, e.1)).map Prod.snd = mapKeyBirth.keys := by
      rw [List.map_map]
      rfl
    rw [← hkeys]
    exact (List.perm_insertionSort birthBefore _).map Prod.snd
  exact ⟨hperm.nodup_iff.2 mapKeyBirth.keys_nodup, fun id => hperm.mem_iff.trans AList.mem_keys.symm⟩

/-- A dump is written when nothing throws. -/
theorem exists_dump {mapKeyBirth : Table CKeyID Int}
    (hkeys : w.KeysMatch E) (hunlocked : w.keystore.isLocked = false)
    (hbirth : w.getKeyBirthTimes E.crypto carrier chainActive = some mapKeyBirth)
    (hpool : w.getAllReserveKeys E.crypto = some setKeyPool) (hchain : chainActive ≠ [])
    (htimes : ∀ nTime, (E.encodeDumpTime nTime).isSome = true) (nNow : Int) :
    ∃ file, dumpwallet E carrier chainActive nNow w = some file := by
  have hkey : ∀ birth, ∃ text, dumpKey E w setKeyPool birth = some text := by
    intro birth
    rcases Option.isSome_iff_exists.1 (htimes birth.1) with ⟨strTime, htime⟩
    rcases E.addressToString_spec birth.2 with ⟨strAddr, haddr, -⟩
    rw [dumpKey, htime, haddr]
    simp only [Option.bind_eq_bind, Option.bind_some]
    cases hkey : w.keystore.getKey E.crypto birth.2 with
    | none => exact ⟨_, rfl⟩
    | some key =>
      rcases hkeys birth.2 key hkey with ⟨hlength, hcheck, -⟩
      rcases E.secretToString_spec hlength hcheck with ⟨strSecret, -, hsecret, -⟩
      dsimp only
      rw [hsecret, Option.bind_some]
      cases w.mapAddressBook.lookup (.keyID birth.2) with
      | some label => exact ⟨_, rfl⟩
      | none =>
        dsimp only
        split
        · exact ⟨_, rfl⟩
        · exact ⟨_, rfl⟩
  have hlines : ∀ births : List (Int × CKeyID), ∃ lines, births.mapM (dumpKey E w setKeyPool) = some lines := by
    intro births
    induction births with
    | nil => exact ⟨_, rfl⟩
    | cons birth births ih =>
      rcases hkey birth with ⟨text, htext⟩
      rcases ih with ⟨lines, hlines⟩
      exact ⟨_, by rw [List.mapM_cons, htext, hlines]; rfl⟩
  have hheader : ∃ header, dumpHeader E chainActive nNow = some header := by
    rcases Option.isSome_iff_exists.1 (htimes nNow) with ⟨strNow, hnow⟩
    rcases Option.isSome_iff_exists.1 (htimes (chainActive.getLast hchain).nTime) with ⟨strTip, htip⟩
    rw [dumpHeader, List.getLast?_eq_some_getLast hchain, Option.bind_eq_bind, Option.bind_some, hnow, Option.bind_eq_bind,
      Option.bind_some, htip]
    exact ⟨_, rfl⟩
  rcases hlines ((mapKeyBirth.entries.map fun e => (e.2, e.1)).insertionSort birthBefore) with ⟨lines, hlines⟩
  rcases hheader with ⟨header, hheader⟩
  refine ⟨header ++ lines.flatten ++ ascii "\n# End of dump\n", ?_⟩
  rw [dumpwallet, hunlocked, if_neg Bool.false_ne_true, hbirth, hpool, hheader]
  simp only [Option.bind_eq_bind, Option.bind_some]
  rw [hlines, Option.bind_some]

/-- A dump is imported into an empty wallet: the keys of the wallet, and the labels of those that have one. -/
theorem dump_imports (E : DumpEnv) (carrier : DataCarrier) (chainActive : List ActiveBlock) (nNow nTipTime : Int)
    (w empty : DumpWallet) (writeKey : CPubKey → Bool) (file : Bytes) (hkeys : w.KeysMatch E)
    (hlabels : w.LabelsFit)
    (hdump : dumpwallet E carrier chainActive nNow w = some file) (hempty : empty.IsEmpty)
    (hwrite : ∀ pubkey, writeKey pubkey = true) :
    (∃ w', importwallet E writeKey nTipTime empty file = some (true, w') ∧
      (∀ id, w'.keystore.getKey E.crypto id = w.keystore.getKey E.crypto id) ∧
      (∀ id, (w'.mapAddressBook.lookup (.keyID id)).map AddressLabel.name = w.labelOf E id) ∧
      ∀ dest, (∀ id, dest ≠ .keyID id) → w'.mapAddressBook.lookup dest = none) ∧
    (∀ str : Bytes, decodeDumpString (encodeDumpString str) = some str ↔ (encodeDumpString str).length < 2 ^ 32) ∧
    ∀ (str : Bytes), ∀ ch ∈ encodeDumpString str, 32 < ch ∧ ch < 128 := by
  refine ⟨?_, decode_encodeDumpString_iff, encodeDumpString_chars⟩
  rw [dumpwallet] at hdump
  split at hdump
  · cases hdump
  rcases Option.bind_eq_some_iff.1 hdump with ⟨mapKeyBirth, hbirth, hdump⟩
  rcases Option.bind_eq_some_iff.1 hdump with ⟨setKeyPool, -, hdump⟩
  rcases Option.bind_eq_some_iff.1 hdump with ⟨header, hheader, hdump⟩
  rcases Option.bind_eq_some_iff.1 hdump with ⟨lines, hlines, hdump⟩
  rcases sorted_births mapKeyBirth with ⟨hnodup, hmem⟩
  rcases reads_lines (s := ⟨empty, true, nTipTime⟩) hkeys hlabels hwrite hlines hnodup
    (fun id _ => List.not_mem_nil) hempty.loaded with ⟨s', hread, hgood, hloaded⟩
  have hend : Reads E writeKey (ascii "\n# End of dump\n") s' s' := by
    have htext : ascii "\n# End of dump\n" = ascii "\n" ++ (ascii "#" ++ ascii " End of dump" ++ ascii "\n") := by decide
    rw [htext]
    exact Reads.empty.append (Reads.comment (by decide))
  have hfile : (file.splitOn 0x0a).foldlM (importLine E writeKey) ⟨empty, true, nTipTime⟩ = some s' := by
    have hall := ((reads_header hheader).append hread).append hend []
    rw [List.append_nil] at hall
    rw [← Option.some.inj hdump, hall]
    rfl
  have hunlocked : empty.keystore.isLocked = false := by
    have hplain : empty.keystore.fUseCrypto = false := hempty.plain
    rw [CCryptoKeyStore.isLocked, hplain, Bool.false_and]
  have hdone : ∀ id,
      id ∉ (((mapKeyBirth.entries.map fun e => (e.2, e.1)).insertionSort birthBefore).map Prod.snd).reverse ++ [] →
        w.keystore.getKey E.crypto id = none := by
    intro id hnot
    rw [List.append_nil, List.mem_reverse, hmem] at hnot
    by_contra hsome
    rcases Option.ne_none_iff_exists'.1 hsome with ⟨key, hkey⟩
    exact hnot (mem_getKeyBirthTimes hbirth (mem_getKeys hkey))
  have himport : ∃ nTimeFirstKey,
      importwallet E writeKey nTipTime empty file = some (true, { s'.wallet with nTimeFirstKey }) := by
    rw [importwallet, hunlocked, if_neg Bool.false_ne_true, hfile, Option.bind_eq_bind, Option.bind_some, hgood]
    exact ⟨_, rfl⟩
  rcases himport with ⟨nTimeFirstKey, himport⟩
  refine ⟨{ s'.wallet with nTimeFirstKey }, himport, fun id => ?_, fun id => ?_, hloaded.others⟩
  · rw [CCryptoKeyStore.getKey, if_pos hloaded.plain, hloaded.keys]
    split
    · rfl
    · next hnot => exact (hdone id hnot).symm
  · rw [hloaded.labels]
    split
    · rfl
    · next hnot => rw [labelOf, hdone id hnot, Option.isSome_none, if_neg Bool.false_ne_true]

/-- A label of `2 ^ 32` bytes is never decoded. -/
theorem long_label_not_decoded : ∃ str : Bytes, ∀ fuel, decodeLoop (encodeDumpString str) fuel 0 = none := by
  refine ⟨List.replicate (2 ^ 32) 0x61, fun fuel => decodeLoop_long ?_ fuel 0⟩
  have hle := length_le_encodeDumpString (List.replicate (2 ^ 32) 0x61)
  rwa [List.length_replicate] at hle

/-- A wallet of one key, whose label has a blank, a hash mark, a percent sign and a line break. -/
def oneKeyEnv : DumpEnv where
  crypto :=
    { bytesToKey := fun _ _ _ => ([], []), encrypt := fun _ _ => none, decrypt := fun _ _ => none
      getPubKey := fun vch _ => vch, hash := fun _ => List.replicate 32 0, hash160 := fun _ => 5 }
  hash_length _ := rfl
  check _ := true
  verifyPubKey _ _ := true
  verify_own _ _ := rfl
  secretKey := 128
  pubKeyAddress := 0
  encodeDumpTime _ := some (ascii "2014-01-01T00:00:00Z")
  decodeDumpTime _ := 1388534400
  time_text _ _ h := by
    rw [← Option.some.inj h]
    decide
  clientBuild := ascii "v0.10"
  clientDate := ascii "2014-01-01"
  build_text := by decide

def oneKey : CKey :=
  ⟨List.replicate 32 1, true⟩

def noKeys : DumpWallet where
  keystore := CCryptoKeyStore.empty
  mapScripts := ∅
  mapKeyMetadata := ∅
  mapAddressBook := ∅
  setKeyPool := []
  pool _ := none
  mapWallet := []
  nTimeFirstKey := 0
  fFileBacked := true

def oneKeyWallet : DumpWallet :=
  { noKeys with
    keystore := { CCryptoKeyStore.empty with mapKeys := AList.singleton 5 oneKey }
    mapKeyMetadata := AList.singleton 5 ⟨1, 1388534400⟩
    mapAddressBook := AList.singleton (.keyID 5) ⟨[0x20, 0x23, 0x25, 0x0a], ascii "receive"⟩ }

theorem oneKeyWallet_getKey {id : CKeyID} {key : CKey} (h : oneKeyWallet.keystore.getKey oneKeyEnv.crypto id = some key) :
    id = 5 ∧ key = oneKey := by
  have hlookup : (AList.singleton 5 oneKey : Table CKeyID CKey).lookup id = some key := h
  have hmem : (⟨id, key⟩ : Σ _ : CKeyID, CKey) ∈ (AList.singleton 5 oneKey : Table CKeyID CKey).entries :=
    AList.mem_lookup_iff.1 hlookup
  have hsame := List.mem_singleton.1 hmem
  rw [Sigma.mk.injEq] at hsame
  exact ⟨hsame.1, eq_of_heq hsame.2⟩

theorem oneKeyWallet_keysMatch : oneKeyWallet.KeysMatch oneKeyEnv := by
  intro id key h
  rcases oneKeyWallet_getKey h with ⟨rfl, rfl⟩
  exact ⟨List.length_replicate, rfl, rfl⟩

theorem oneKeyWallet_labelsFit : oneKeyWallet.LabelsFit := by
  intro id label h
  have hlookup : (AList.singleton (.keyID 5) ⟨[0x20, 0x23, 0x25, 0x0a], ascii "receive"⟩ :
      Table CTxDestination AddressLabel).lookup (.keyID id) = some label := h
  have hmem := AList.mem_lookup_iff.1 hlookup
  have hsame := List.mem_singleton.1 hmem
  rw [Sigma.mk.injEq] at hsame
  rw [eq_of_heq hsame.2]
  decide

theorem oneKeyWallet_dump :
    ∃ file, dumpwallet oneKeyEnv DataCarrier.default [⟨0, 1388534400⟩] 0 oneKeyWallet = some file := by
  have hbirth : oneKeyWallet.getKeyBirthTimes oneKeyEnv.crypto DataCarrier.default [⟨0, 1388534400⟩] =
      some (AList.singleton 5 1388534400) := rfl
  have hpool : oneKeyWallet.getAllReserveKeys oneKeyEnv.crypto = some [] := rfl
  exact exists_dump oneKeyWallet_keysMatch rfl hbirth hpool (List.cons_ne_nil _ _) (fun _ => rfl) 0

theorem dump_imports_oneKey : ∃ file,
    dumpwallet oneKeyEnv DataCarrier.default [⟨0, 1388534400⟩] 0 oneKeyWallet = some file ∧ ∃ w', importwallet oneKeyEnv (fun _ => true) 0 noKeys file = some (true, w') ∧
      w'.keystore.getKey oneKeyEnv.crypto 5 = some oneKey ∧
      (w'.mapAddressBook.lookup (.keyID 5)).map AddressLabel.name = some [0x20, 0x23, 0x25, 0x0a] := by
  rcases oneKeyWallet_dump with ⟨file, hfile⟩
  rcases dump_imports oneKeyEnv DataCarrier.default [⟨0, 1388534400⟩] 0 0 oneKeyWallet noKeys (fun _ => true) file
    oneKeyWallet_keysMatch oneKeyWallet_labelsFit hfile ⟨rfl, rfl, rfl⟩ (fun _ => rfl)
    with ⟨⟨w', himport, hkeys, hbook, -⟩, -⟩
  exact ⟨file, hfile, w', himport, hkeys 5, hbook 5⟩

end DumpWallet

end Dobbscoin
