import Dobbscoin.Lib.RangeScan
import Dobbscoin.Wallet.Accounting
import Dobbscoin.Wallet.Amounts
import Dobbscoin.Wallet.ReacceptLoop

/-!
# Reading accounting entries

`ListAccountCreditDebit` of `walletdb.cpp` reads the records of the wallet file with a cursor that begins at the first
entry of an account; it finds the entries of that account.
-/

namespace Dobbscoin

open ByteCodec RangeScan

/-! ## Records -/

/-- A record of the wallet file, by its type. -/
inductive WalletRecord where
  | acentry (strAccount : Bytes) (nEntryNo : UInt64) (entry : CAccountingEntry)
  | other (strType rest : Bytes)

/-- The type `acentry`. -/
def strAcentry : Bytes :=
  [0x61, 0x63, 0x65, 0x6e, 0x74, 0x72, 0x79]

/-- The name that stands for all accounts. -/
def strAllAccounts : Bytes :=
  [0x2a]

namespace WalletRecord

def acentryKey (strAccount : Bytes) (nEntryNo : UInt64) : Bytes :=
  scriptCodec.put strAcentry ++ (scriptCodec.put strAccount ++ leBytes 8 nEntryNo.toNat)

def key : WalletRecord → Bytes
  | acentry strAccount nEntryNo _ => acentryKey strAccount nEntryNo
  | other strType rest => scriptCodec.put strType ++ rest

/-- The bytes of a key as numbers, which is how keys are compared. -/
def order (record : WalletRecord) : List Nat :=
  record.key.map UInt8.toNat

/-- The strings can be read again, and the entries are the records of their type. -/
def WellFormed : WalletRecord → Prop
  | acentry strAccount _ _ => strAccount.length ≤ maxSize
  | other strType _ => strType.length ≤ maxSize ∧ strType ≠ strAcentry

end WalletRecord

/-- The records of a wallet file, ordered by their keys. -/
structure WalletRecords where
  records : List WalletRecord
  ordered : Ordered WalletRecord.order records
  wellFormed : ∀ record ∈ records, record.WellFormed

namespace WalletRecords

/-- What the loop of `ListAccountCreditDebit` does with a record; it ends at the first one that is not taken. -/
def takeEntry (strAccount : Bytes) : WalletRecord → Option CAccountingEntry
  | .other _ _ => none
  | .acentry strAccount' nEntryNo entry =>
    if strAccount ≠ strAllAccounts ∧ strAccount' ≠ strAccount then none
    else some { entry with strAccount := strAccount', nEntryNo := nEntryNo }

theorem takeEntry_acentry (strAccount strAccount' : Bytes) (nEntryNo : UInt64) (entry : CAccountingEntry) :
    takeEntry strAccount (.acentry strAccount' nEntryNo entry) =
      if strAccount ≠ strAllAccounts ∧ strAccount' ≠ strAccount then none
      else some { entry with strAccount := strAccount', nEntryNo := nEntryNo } :=
  rfl

/-- Where the cursor begins. -/
def startKey (strAccount : Bytes) : List Nat :=
  (WalletRecord.acentryKey (if strAccount = strAllAccounts then [] else strAccount) 0).map UInt8.toNat

/-- `ListAccountCreditDebit`, when no read fails. -/
def listAccountCreditDebit (file : WalletRecords) (strAccount : Bytes) : Option (List CAccountingEntry) :=
  cursorLoop WalletRecord.order (takeEntry strAccount) file.records (file.records.length + 1)
    fun key => decide (startKey strAccount ≤ key)

/-- `GetAccountCreditDebit`. -/
def getAccountCreditDebit (file : WalletRecords) (strAccount : Bytes) : Option Int :=
  (file.listAccountCreditDebit strAccount).map fun entries => (entries.map fun entry => entry.nCreditDebit.toInt).sum

end WalletRecords

/-! ## The cursor -/

theorem zeros_le (m : Nat) : ∀ {l : List Nat}, m ≤ l.length → List.replicate m 0 ≤ l := by
  induction m with
  | zero => exact fun _ => not_lt.1 (List.not_lt_nil _)
  | succ m ih =>
    intro l hlen
    cases l with
    | nil => exact absurd hlen (Nat.not_succ_le_zero m)
    | cons n l =>
      rw [List.replicate_succ, cons_le_cons_iff]
      rcases Nat.eq_zero_or_pos n with rfl | hpos
      · exact .inr ⟨rfl, ih (Nat.le_of_succ_le_succ hlen)⟩
      · exact .inl hpos

theorem length_put_pos (s : Bytes) : 0 < (scriptCodec.put s).length := by
  have hsize : 0 < (writeCompactSize s.length).length := by
    unfold writeCompactSize
    split_ifs <;> exact Nat.succ_pos _
  have happend : (scriptCodec.put s).length = (writeCompactSize s.length).length + _ := List.length_append
  exact happend ▸ Nat.lt_add_right _ hsize

namespace WalletRecords

open WalletRecord

variable {strAccount : Bytes} {file : WalletRecords}

/-- What the keys of the wanted entries begin with. -/
def wantedPart (strAccount : Bytes) : Bytes :=
  scriptCodec.put strAcentry ++ (if strAccount = strAllAccounts then [] else scriptCodec.put strAccount)

/-- The number of zero bytes that the start key has after that. -/
def startZeros (strAccount : Bytes) : Nat :=
  if strAccount = strAllAccounts then 9 else 8

theorem startKey_eq (strAccount : Bytes) :
    startKey strAccount = (wantedPart strAccount).map UInt8.toNat ++ List.replicate (startZeros strAccount) 0 := by
  have hzeros : (leBytes 8 (0 : UInt64).toNat).map UInt8.toNat = List.replicate 8 0 := by decide
  have hempty : (scriptCodec.put []).map UInt8.toNat = List.replicate 1 0 := by decide
  unfold startKey wantedPart acentryKey startZeros
  split_ifs with hall
  · rw [List.append_nil, List.map_append, List.map_append, hempty, hzeros]
    rfl
  · rw [List.map_append, List.map_append, hzeros, List.map_append, List.append_assoc]

/-- An entry is wanted when its account is, and then its key has that part. -/
theorem key_of_takeEntry {record : WalletRecord} (h : (takeEntry strAccount record).isSome) :
    ∃ y, record.order = (wantedPart strAccount).map UInt8.toNat ++ y ∧ startZeros strAccount ≤ y.length := by
  cases record with
  | other strType rest => cases h
  | acentry strAccount' nEntryNo entry =>
    have hnumber : (leBytes 8 nEntryNo.toNat).length = 8 := leBytes_length 8 nEntryNo.toNat
    rw [takeEntry_acentry] at h
    unfold wantedPart startZeros
    by_cases hall : strAccount = strAllAccounts
    · rw [if_pos hall, if_pos hall, List.append_nil]
      refine ⟨(scriptCodec.put strAccount' ++ leBytes 8 nEntryNo.toNat).map UInt8.toNat, ?_, ?_⟩
      · rw [← List.map_append]
        rfl
      · rw [List.length_map, List.length_append, hnumber]
        have hpos := length_put_pos strAccount'
        omega
    · rw [if_neg hall, if_neg hall]
      have hsame : strAccount' = strAccount := by
        by_contra hne
        rw [if_pos ⟨hall, hne⟩] at h
        cases h
      refine ⟨(leBytes 8 nEntryNo.toNat).map UInt8.toNat, ?_, ?_⟩
      · rw [← List.map_append, List.append_assoc, ← hsame]
        rfl
      · rw [List.length_map, hnumber]

/-- Keys with that part belong to entries that are wanted. -/
theorem takeEntry_of_key (hname : strAccount.length ≤ maxSize) {record : WalletRecord} (hrecord : record.WellFormed)
    {z : List Nat} (h : record.order = (wantedPart strAccount).map UInt8.toNat ++ z) :
    (takeEntry strAccount record).isSome := by
  have hinj : Function.Injective UInt8.toNat := fun _ _ => UInt8.toNat_inj.1
  obtain ⟨front, rest, hkey, hfront, -⟩ := List.map_eq_append_iff.1 h
  rw [hinj.list_map hfront, wantedPart, List.append_assoc] at hkey
  have htype : scriptCodec.Fits strAcentry := scriptCodec_fits (by decide)
  cases record with
  | other strType rest' =>
    have hsame := (scriptCodec.put_append_inj (scriptCodec_fits hrecord.1) htype hkey).1
    exact absurd hsame hrecord.2
  | acentry strAccount' nEntryNo entry =>
    have hrest := (scriptCodec.put_append_inj htype htype hkey).2
    rw [takeEntry_acentry]
    split_ifs with hother
    · rw [if_neg hother.1] at hrest
      have hsame := (scriptCodec.put_append_inj (scriptCodec_fits hrecord) (scriptCodec_fits hname) hrest).1
      exact absurd hsame hother.2
    · rfl

theorem selects (file : WalletRecords) (hname : strAccount.length ≤ maxSize) :
    Selects WalletRecord.order (takeEntry strAccount) (startKey strAccount) file.records := by
  refine ⟨fun record _ hsome => ?_, fun record hin record' _ hstart hle hsome => ?_⟩
  · rcases key_of_takeEntry hsome with ⟨y, horder, hlen⟩
    rw [horder, startKey_eq, append_le_append_iff]
    exact zeros_le _ hlen
  · rcases key_of_takeEntry hsome with ⟨y, horder, -⟩
    rw [startKey_eq] at hstart
    rw [horder] at hle
    rcases exists_eq_append hstart hle with ⟨z, hz⟩
    exact takeEntry_of_key hname (file.wellFormed record hin) hz

/-- The cursor comes to all entries of the account, and only to these. -/
theorem listAccountCreditDebit_eq (file : WalletRecords) (hname : strAccount.length ≤ maxSize) :
    file.listAccountCreditDebit strAccount = some (file.records.filterMap (takeEntry strAccount)) :=
  (file.selects hname).cursorLoop_eq file.ordered (Nat.lt_succ_self _)

theorem getAccountCreditDebit_eq (file : WalletRecords) (hname : strAccount.length ≤ maxSize) :
    file.getAccountCreditDebit strAccount =
      some ((file.records.filterMap (takeEntry strAccount)).map fun entry => entry.nCreditDebit.toInt).sum := by
  rw [getAccountCreditDebit, file.listAccountCreditDebit_eq hname, Option.map_some]

/-- The entries of one account, among those of all. -/
theorem filter_takeEntry (hname : strAccount ≠ strAllAccounts) (records : List WalletRecord) :
    (records.filterMap (takeEntry strAllAccounts)).filter (fun entry => entry.strAccount = strAccount) =
      records.filterMap (takeEntry strAccount) := by
  rw [List.filter_filterMap]
  refine congrArg (fun take => records.filterMap take) (funext fun record => ?_)
  cases record with
  | other strType rest => rfl
  | acentry strAccount' nEntryNo entry =>
    rw [takeEntry_acentry, takeEntry_acentry, if_neg (fun h => h.1 rfl), Option.filter_some]
    by_cases hsame : strAccount' = strAccount
    · rw [if_pos (decide_eq_true hsame), if_neg (fun h => h.2 hsame)]
    · rw [if_neg (by simpa using hsame), if_pos ⟨hname, hsame⟩]

end WalletRecords

end Dobbscoin

/-!
# The two ledgers of an account

`GetAccountBalance` and `listaccounts` of `rpcwallet.cpp`, and the transactions that only one of them counts.
-/

namespace Dobbscoin

/-- A wallet with what belongs to accounts. -/
structure AccountWallet extends WalletNode where
  /-- `strFromAccount` of the transactions, by their hashes. -/
  strFromAccount : UInt256 → Bytes
  records : WalletRecords

/-- `GetScriptForDestination`. -/
def CTxDestination.script : CTxDestination → CScript
  | .noDestination => []
  | .keyID id => getScriptForDestination id
  | .scriptID id => [0xa9, 0x14] ++ ByteCodec.leBytes 20 id.toNat ++ [0x87]

/-- The bytes of a name in the address book. -/
def CAddressBookData.account (data : CAddressBookData) : Bytes :=
  data.name.toUTF8.toList

/-- `mapAccountBalances[strAccount] += nAmount`. -/
def addBalance (balances : Table Bytes Int) (strAccount : Bytes) (nAmount : Int) : Table Bytes Int :=
  balances.insert strAccount ((balances.lookup strAccount).getD 0 + nAmount)

namespace AccountWallet

open WalletNode

variable (E : BalanceEnv) (w : AccountWallet) (nMinDepth : Int) (filter : IsMineFilter)

/-! ## GetAccountBalance -/

/-- An output counts for an account by its label; what has no label is in the account without a name. -/
def receivedBy (strAccount : Bytes) (r : COutputEntry) : Bool :=
  match w.keys.mapAddressBook.lookup r.destination with
  | some data => data.account = strAccount
  | none => strAccount.isEmpty

/-- `GetAccountAmounts`: received, sent and the fee. -/
def getAccountAmounts (hash : UInt256) (wtx : CWalletTx) (strAccount : Bytes) : Option (Int × Int × Int) :=
  (getAmounts E w.toWalletNode wtx filter).map fun a =>
    let nReceived := ((a.listReceived.filter (w.receivedBy strAccount)).map COutputEntry.amount).sum
    if strAccount = w.strFromAccount hash then (nReceived, a.sent, a.nFee) else (nReceived, 0, 0)

/-- One transaction in the loop of `GetAccountBalance`. -/
def tallyTx (strAccount : Bytes) (nBalance : Int) (hash : UInt256) : Option Int :=
  match w.mapWallet.lookup hash with
  | none => some nBalance
  | some wtx =>
    if isFinal E w.toWalletNode wtx.tx = false ∨ getBlocksToMaturity E.toWalletEnv w.toWalletNode wtx > 0 ∨
        getDepthInMainChain E.toWalletEnv w.toWalletNode wtx < 0 then
      some nBalance
    else
      (getAccountAmounts E w filter hash wtx strAccount).map fun a =>
        let nBalance := if a.1 ≠ 0 ∧ getDepthInMainChain E.toWalletEnv w.toWalletNode wtx ≥ nMinDepth then nBalance + a.1
          else nBalance
        nBalance - (a.2.1 + a.2.2)

def getAccountBalance (strAccount : Bytes) : Option Int := do
  let nBalance ← w.walletOrder.foldlM (tallyTx E w nMinDepth filter strAccount) 0
  let nCreditDebit ← w.records.getAccountCreditDebit strAccount
  pure (nBalance + nCreditDebit)

/-! ## listaccounts -/

/-- The accounts of the wallet's own addresses begin with nothing. -/
def startBalances : Table Bytes Int :=
  w.keys.mapAddressBook.entries.foldl (fun balances entry =>
    if E.isMine w.keys.keystore entry.1.script &&& filter ≠ 0 then balances.insert entry.2.account 0
    else balances) ∅

/-- The account of an output that has been received. -/
def accountOf (r : COutputEntry) : Bytes :=
  match w.keys.mapAddressBook.lookup r.destination with
  | some data => data.account
  | none => []

/-- One transaction in the loop of `listaccounts`. -/
def listTx (balances : Table Bytes Int) (hash : UInt256) : Option (Table Bytes Int) :=
  match w.mapWallet.lookup hash with
  | none => some balances
  | some wtx =>
    if getBlocksToMaturity E.toWalletEnv w.toWalletNode wtx > 0 ∨
        getDepthInMainChain E.toWalletEnv w.toWalletNode wtx < 0 then
      some balances
    else
      (getAmounts E w.toWalletNode wtx filter).map fun a =>
        let balances := addBalance balances (w.strFromAccount hash) (-a.nFee)
        let balances := a.listSent.foldl (fun balances s => addBalance balances (w.strFromAccount hash) (-s.amount)) balances
        if getDepthInMainChain E.toWalletEnv w.toWalletNode wtx ≥ nMinDepth then
          a.listReceived.foldl (fun balances r => addBalance balances (w.accountOf r) r.amount) balances
        else balances

def listaccounts : Option (Table Bytes Int) := do
  let balances ← w.walletOrder.foldlM (listTx E w nMinDepth filter) (startBalances E w filter)
  let acentries ← w.records.listAccountCreditDebit strAllAccounts
  pure (acentries.foldl (fun balances entry => addBalance balances entry.strAccount entry.nCreditDebit.toInt) balances)

/-- What is reported for an account; nothing is reported for one that does not occur. -/
def balanceOf (balances : Table Bytes Int) (strAccount : Bytes) : Int :=
  (balances.lookup strAccount).getD 0

/-! ## Shares -/

/-- What a transaction adds to an account: received, minus sent, minus the fee. -/
def shareOf (strAccount : Bytes) (hash : UInt256) (wtx : CWalletTx) (a : TxAmounts) : Int :=
  (if getDepthInMainChain E.toWalletEnv w.toWalletNode wtx ≥ nMinDepth then
    ((a.listReceived.filter (w.receivedBy strAccount)).map COutputEntry.amount).sum else 0) -
    (if strAccount = w.strFromAccount hash then a.sent + a.nFee else 0)

/-- The share of a transaction of the wallet, when it is mature and not conflicted. -/
def share (strAccount : Bytes) (hash : UInt256) : Int :=
  match w.mapWallet.lookup hash with
  | none => 0
  | some wtx =>
    if getBlocksToMaturity E.toWalletEnv w.toWalletNode wtx > 0 ∨
        getDepthInMainChain E.toWalletEnv w.toWalletNode wtx < 0 then 0
    else ((getAmounts E w.toWalletNode wtx filter).map (shareOf E w nMinDepth strAccount hash wtx)).getD 0

/-- The same for the transactions that are not final for the height of the tip. -/
def nonFinalShare (strAccount : Bytes) (hash : UInt256) : Int :=
  match w.mapWallet.lookup hash with
  | none => 0
  | some wtx => if isFinal E w.toWalletNode wtx.tx then 0 else share E w nMinDepth filter strAccount hash

variable {E w nMinDepth filter} {strAccount : Bytes}

theorem balanceOf_addBalance (balances : Table Bytes Int) (name strAccount : Bytes) (nAmount : Int) :
    balanceOf (addBalance balances name nAmount) strAccount =
      balanceOf balances strAccount + if name = strAccount then nAmount else 0 := by
  unfold balanceOf addBalance
  by_cases heq : name = strAccount
  · rw [heq, AList.lookup_insert, if_pos rfl]
    rfl
  · rw [AList.lookup_insert_ne (Ne.symm heq), if_neg heq, add_zero]

/-- Amounts that are added one by one. -/
theorem balanceOf_foldl {α : Type} (name : α → Bytes) (amount : α → Int) (strAccount : Bytes) (l : List α) :
    ∀ balances : Table Bytes Int,
      balanceOf (l.foldl (fun balances x => addBalance balances (name x) (amount x)) balances) strAccount =
        balanceOf balances strAccount + ((l.filter fun x => name x = strAccount).map amount).sum := by
  induction l with
  | nil => exact fun _ => (add_zero _).symm
  | cons x l ih =>
    intro balances
    rw [List.foldl_cons, ih, balanceOf_addBalance, List.filter_cons]
    by_cases heq : name x = strAccount
    · rw [if_pos heq, if_pos (decide_eq_true heq), List.map_cons, List.sum_cons, add_assoc]
    · rw [if_neg heq, if_neg (by simpa using heq), add_zero]

theorem accountOf_eq_iff (r : COutputEntry) : w.accountOf r = strAccount ↔ w.receivedBy strAccount r = true := by
  unfold accountOf receivedBy
  cases w.keys.mapAddressBook.lookup r.destination with
  | none => exact eq_comm.trans List.isEmpty_iff.symm
  | some data => exact decide_eq_true_iff.symm

/-- `listaccounts` adds the share of every transaction. -/
theorem balanceOf_listTx {balances balances' : Table Bytes Int} {hash : UInt256}
    (h : listTx E w nMinDepth filter balances hash = some balances') :
    balanceOf balances' strAccount = balanceOf balances strAccount + share E w nMinDepth filter strAccount hash := by
  unfold listTx at h
  unfold share
  cases hlookup : w.mapWallet.lookup hash with
  | none =>
    rw [hlookup] at h
    rw [← Option.some.inj h, add_zero]
  | some wtx =>
    rw [hlookup] at h
    dsimp only at h ⊢
    by_cases hskip : getBlocksToMaturity E.toWalletEnv w.toWalletNode wtx > 0 ∨
        getDepthInMainChain E.toWalletEnv w.toWalletNode wtx < 0
    · rw [if_pos hskip] at h ⊢
      rw [← Option.some.inj h, add_zero]
    · rw [if_neg hskip] at h ⊢
      rcases Option.map_eq_some_iff.1 h with ⟨a, hamounts, hbalances⟩
      rw [hamounts, Option.map_some, Option.getD_some]
      have hsent : balanceOf (a.listSent.foldl (fun balances s => addBalance balances (w.strFromAccount hash) (-s.amount))
          (addBalance balances (w.strFromAccount hash) (-a.nFee))) strAccount =
          balanceOf balances strAccount - (if strAccount = w.strFromAccount hash then a.sent + a.nFee else 0) := by
        rw [balanceOf_foldl (fun _ => w.strFromAccount hash) (fun s : COutputEntry => -s.amount), balanceOf_addBalance]
        by_cases heq : w.strFromAccount hash = strAccount
        · have hall : (a.listSent.filter fun _ => w.strFromAccount hash = strAccount) = a.listSent :=
            List.filter_eq_self.2 fun _ _ => decide_eq_true heq
          have hneg : (a.listSent.map fun s => -s.amount).sum = -a.sent := by
            rw [TxAmounts.sent, List.sum_neg, List.map_map]
            rfl
          rw [hall, hneg, if_pos heq, if_pos heq.symm]
          ring
        · have hnone : (a.listSent.filter fun _ => w.strFromAccount hash = strAccount) = [] :=
            List.filter_eq_nil_iff.2 fun _ _ => by simpa using heq
          rw [hnone, if_neg heq, if_neg (Ne.symm heq), List.map_nil, List.sum_nil]
          ring
      have hfilter : (a.listReceived.filter fun r => w.accountOf r = strAccount) =
          a.listReceived.filter (w.receivedBy strAccount) := by
        refine List.filter_congr fun r _ => ?_
        rw [Bool.eq_iff_iff, decide_eq_true_iff]
        exact accountOf_eq_iff r
      rw [← hbalances, shareOf]
      by_cases hdepth : getDepthInMainChain E.toWalletEnv w.toWalletNode wtx ≥ nMinDepth
      · rw [if_pos hdepth, if_pos hdepth, balanceOf_foldl w.accountOf COutputEntry.amount, hsent, hfilter]
        ring
      · rw [if_neg hdepth, if_neg hdepth, hsent]
        ring

/-- The amounts of `GetAccountAmounts`, added as in `GetAccountBalance`. -/
theorem tally_eq_share {hash : UInt256} {wtx : CWalletTx} (a : TxAmounts) (nBalance : Int) :
    let nReceived := ((a.listReceived.filter (w.receivedBy strAccount)).map COutputEntry.amount).sum
    let amounts := if strAccount = w.strFromAccount hash then (nReceived, a.sent, a.nFee) else (nReceived, 0, 0)
    (if amounts.1 ≠ 0 ∧ getDepthInMainChain E.toWalletEnv w.toWalletNode wtx ≥ nMinDepth then nBalance + amounts.1
      else nBalance) - (amounts.2.1 + amounts.2.2) =
      nBalance + shareOf E w nMinDepth strAccount hash wtx a := by
  intro nReceived amounts
  have hreceived : amounts.1 = nReceived := apply_ite Prod.fst _ _ _ |>.trans (ite_self _)
  have hpaid : amounts.2.1 + amounts.2.2 = if strAccount = w.strFromAccount hash then a.sent + a.nFee else 0 := by
    by_cases heq : strAccount = w.strFromAccount hash
    · rw [if_pos heq, show amounts = (nReceived, a.sent, a.nFee) from if_pos heq]
    · rw [if_neg heq, show amounts = (nReceived, 0, 0) from if_neg heq, add_zero]
  rw [hreceived, hpaid, shareOf]
  -- Nothing is lost when an amount of zero is not added.
  by_cases hdepth : getDepthInMainChain E.toWalletEnv w.toWalletNode wtx ≥ nMinDepth
  · rw [if_pos hdepth]
    by_cases hzero : nReceived = 0
    · rw [if_neg fun h => h.1 hzero, show List.sum _ = (0 : Int) from hzero, zero_sub, sub_eq_add_neg]
    · rw [if_pos ⟨hzero, hdepth⟩, add_sub_assoc]
  · rw [if_neg hdepth, if_neg fun h => hdepth h.2, zero_sub, sub_eq_add_neg]

/-- `GetAccountBalance` adds it only when the transaction is final. -/
theorem tallyTx_eq {balances balances' : Table Bytes Int} {hash : UInt256}
    (h : listTx E w nMinDepth filter balances hash = some balances') (nBalance : Int) :
    tallyTx E w nMinDepth filter strAccount nBalance hash =
      some (nBalance + (share E w nMinDepth filter strAccount hash - nonFinalShare E w nMinDepth filter strAccount hash)) := by
  unfold listTx at h
  unfold tallyTx nonFinalShare share
  cases hlookup : w.mapWallet.lookup hash with
  | none =>
    dsimp only
    rw [sub_zero, add_zero]
  | some wtx =>
    rw [hlookup] at h
    dsimp only at h ⊢
    cases hfinal : isFinal E w.toWalletNode wtx.tx with
    | false =>
      rw [if_pos (.inl rfl), if_neg Bool.false_ne_true, sub_self, add_zero]
    | true =>
      by_cases hskip : getBlocksToMaturity E.toWalletEnv w.toWalletNode wtx > 0 ∨
          getDepthInMainChain E.toWalletEnv w.toWalletNode wtx < 0
      · rw [if_pos (.inr hskip), if_pos hskip, if_pos rfl, sub_zero, add_zero]
      · rw [if_neg hskip] at h
        rcases Option.map_eq_some_iff.1 h with ⟨a, hamounts, -⟩
        have hcounted : ¬((true = false) ∨ getBlocksToMaturity E.toWalletEnv w.toWalletNode wtx > 0 ∨
            getDepthInMainChain E.toWalletEnv w.toWalletNode wtx < 0) :=
          not_or.2 ⟨Bool.true_eq_false.mp, hskip⟩
        rw [if_neg hcounted, if_neg hskip, if_pos rfl, hamounts, getAccountAmounts, hamounts, sub_zero]
        simp only [Option.map_some, Option.getD_some, Option.some.injEq]
        exact tally_eq_share a nBalance

/-- The loops over the wallet. -/
theorem loops_spec (strAccount : Bytes) (ids : List UInt256) : ∀ {balances balances' : Table Bytes Int} (nBalance : Int),
    ids.foldlM (listTx E w nMinDepth filter) balances = some balances' →
    ∃ nBalance', ids.foldlM (tallyTx E w nMinDepth filter strAccount) nBalance = some nBalance' ∧
      balanceOf balances' strAccount - nBalance' = balanceOf balances strAccount - nBalance +
        (ids.map (nonFinalShare E w nMinDepth filter strAccount)).sum := by
  induction ids with
  | nil =>
    intro balances balances' nBalance h
    rw [← Option.some.inj h]
    exact ⟨nBalance, rfl, (add_zero _).symm⟩
  | cons hash ids ih =>
    intro balances balances' nBalance h
    rw [List.foldlM_cons] at h
    rcases Option.bind_eq_some_iff.1 h with ⟨next, hone, hrest⟩
    rcases ih (nBalance + (share E w nMinDepth filter strAccount hash - nonFinalShare E w nMinDepth filter strAccount hash))
      hrest with ⟨nBalance', hloop, hdifference⟩
    refine ⟨nBalance', ?_, ?_⟩
    · rw [List.foldlM_cons, tallyTx_eq hone]
      exact hloop
    · rw [hdifference, balanceOf_listTx hone, List.map_cons, List.sum_cons]
      ring

theorem balanceOf_startBalances (E : BalanceEnv) (w : AccountWallet) (filter : IsMineFilter) (strAccount : Bytes) :
    balanceOf (startBalances E w filter) strAccount = 0 := by
  unfold startBalances
  refine List.foldlRecOn (motive := fun balances => balanceOf balances strAccount = 0) _ _ rfl fun balances h entry _ => ?_
  split_ifs
  · unfold balanceOf
    by_cases heq : strAccount = entry.2.account
    · rw [heq, AList.lookup_insert]
      rfl
    · rw [AList.lookup_insert_ne heq]
      exact h
  · exact h

/-- The two computations agree on an account exactly when what the transactions that are not final would add to it comes
to nothing. -/
theorem listaccounts_agrees_iff {balances : Table Bytes Int} (h : listaccounts E w nMinDepth filter = some balances)
    (hname : strAccount ≠ strAllAccounts) (hlength : strAccount.length ≤ maxSize) :
    ∃ nBalance, getAccountBalance E w nMinDepth filter strAccount = some nBalance ∧
      (balanceOf balances strAccount = nBalance ↔
        (w.walletOrder.map (nonFinalShare E w nMinDepth filter strAccount)).sum = 0) := by
  rcases Option.bind_eq_some_iff.1 h with ⟨counted, hloop, hrest⟩
  rcases loops_spec strAccount w.walletOrder 0 hloop with ⟨nTallied, htally, hdifference⟩
  have hall := w.records.listAccountCreditDebit_eq (show strAllAccounts.length ≤ maxSize by decide)
  rcases Option.bind_eq_some_iff.1 hrest with ⟨acentries, hlist, hbalances⟩
  obtain rfl := Option.some.inj (hall.symm.trans hlist)
  have hentries : balanceOf balances strAccount = balanceOf counted strAccount +
      ((w.records.records.filterMap (WalletRecords.takeEntry strAccount)).map fun entry => entry.nCreditDebit.toInt).sum := by
    rw [← Option.some.inj hbalances, balanceOf_foldl CAccountingEntry.strAccount, WalletRecords.filter_takeEntry hname]
  refine ⟨nTallied + ((w.records.records.filterMap (WalletRecords.takeEntry strAccount)).map
    fun entry => entry.nCreditDebit.toInt).sum, ?_, ?_⟩
  · rw [getAccountBalance, htally, w.records.getAccountCreditDebit_eq hlength]
    rfl
  · rw [balanceOf_startBalances] at hdifference
    rw [hentries]
    constructor
    · intro heq
      linarith
    · intro hzero
      linarith

/-! ## A transaction for the next block -/

def balanceEnv : BalanceEnv where
  toWalletEnv := reacceptEnv
  env :=
    { params := testNetParams
      crypto := firstByteCrypto
      horizon := fun _ _ _ => false
      adjustedTime := 0
      fCheckpointsEnabled := true
      newAddress := id }
  extractDestination _ := none
  fSpendZeroConfChange := true

/-- A wallet that has received one transaction, which is in the pool; the height of the tip is `5`. -/
def pooledWallet (tx : CTransaction) : AccountWallet where
  toWalletNode :=
    { pendingWallet [tx] with
      chainActive := [6, 5, 4, 3, 2, 1]
      mempool := CTxMemPool.empty.addUnchecked firstByteCrypto tx }
  strFromAccount _ := []
  records := ⟨[], List.Pairwise.nil, fun _ h => absurd h List.not_mem_nil⟩

/-- It can be in a block of height `6`. -/
def lockedTx : CTransaction :=
  { orphanTx 5 [7] with nLockTime := 5 }

theorem walletOrder_pooledWallet (tx : CTransaction) (h : (pendingWallet [tx]).mapWallet.keys = [5]) :
    (pooledWallet tx).walletOrder = [5] :=
  walletOrder_eq (by rw [show (pooledWallet tx).mapWallet.keys = [5] from h]) (List.pairwise_singleton _ _)

theorem listaccounts_agrees_iff_pooledWallet :
    ∃ balances nBalance, listaccounts balanceEnv (pooledWallet (orphanTx 5 [7])) 0 ismineSpendable = some balances ∧
      getAccountBalance balanceEnv (pooledWallet (orphanTx 5 [7])) 0 ismineSpendable [] = some nBalance ∧
      (balanceOf balances [] = nBalance ↔ ((pooledWallet (orphanTx 5 [7])).walletOrder.map
        (nonFinalShare balanceEnv (pooledWallet (orphanTx 5 [7])) 0 ismineSpendable [])).sum = 0) := by
  have hsome : (listaccounts balanceEnv (pooledWallet (orphanTx 5 [7])) 0 ismineSpendable).isSome = true := by
    rw [listaccounts, walletOrder_pooledWallet _ (by decide)]
    decide
  rcases Option.isSome_iff_exists.1 hsome with ⟨balances, hlist⟩
  have hname : ([] : Bytes) ≠ strAllAccounts := by decide
  rcases listaccounts_agrees_iff hlist hname (by decide) with ⟨nBalance, hbalance, hiff⟩
  exact ⟨balances, nBalance, hlist, hbalance, hiff⟩

/-- `listaccounts` counts the transaction that waits for the next block, `getbalance` does not. -/
theorem lockedTx_counted_once :
    (listaccounts balanceEnv (pooledWallet lockedTx) 0 ismineSpendable).map (balanceOf · []) = some 40 ∧
      getAccountBalance balanceEnv (pooledWallet lockedTx) 0 ismineSpendable [] = some 0 := by
  have hids := walletOrder_pooledWallet lockedTx (by decide)
  constructor
  · rw [listaccounts, hids]
    decide
  · rw [getAccountBalance, hids]
    decide

end AccountWallet

end Dobbscoin
