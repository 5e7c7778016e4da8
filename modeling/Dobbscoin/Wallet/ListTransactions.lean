import Dobbscoin.Wallet.AccountBalances

/-!
# The history of an account

`listtransactions` of `rpcwallet.cpp` visits the items of the wallet from the newest to the oldest until it has
entries enough, and cuts its page out of them with sums of two numbers that the caller has chosen.
`listtransactions_iff` says for which of them the page is the right one.
-/

namespace Dobbscoin

/-- The fields of `CWalletTx` that a history shows or is ordered by. -/
structure WalletTxData where
  nTimeReceived : UInt32
  nTimeSmart : UInt32
  mapValue : List (String × String)
  nOrderPos : Int64

/-- A wallet with what its history is made of. -/
structure HistoryWallet extends AccountWallet where
  txData : UInt256 → WalletTxData

/-- What a history asks of the rest of the program. -/
structure HistoryEnv extends BalanceEnv where
  mapBlockIndex : BlockMap

/-- A member of a JSON object, before it is written out. -/
inductive EntryValue where
  | bool (b : Bool)
  | int (n : Int)
  /-- `ValueFromAmount`. -/
  | amount (nAmount : Int)
  | text (s : String)
  | bytes (s : Bytes)
  /-- `CDobbscoinAddress`. -/
  | address (dest : CTxDestination)
  | hash (h : UInt256)
  | hashes (hs : List UInt256)

/-- An object of the result. -/
abbrev Entry := List (String × EntryValue)

/-- What an item of the order refers to. -/
inductive OrderedItem where
  | tx (hash : UInt256)
  | entry (acentry : CAccountingEntry)

def rpcInvalidParameter : Int := -8

/-- How a listing can end other than by returning: with an error, with an exception of an amount or of the wallet file,
or with an iterator outside of the array. -/
inductive ListError where
  | rpc (e : JSONRPCError)
  | thrown
  | badIterator

namespace HistoryWallet

open WalletNode AccountWallet

variable (E : HistoryEnv) (w : HistoryWallet)

/-! ## Entries -/

/-- `GetConflicts`: the other transactions that spend an output which this one spends. -/
def getConflicts (hash : UInt256) (wtx : CWalletTx) : List UInt256 :=
  ((wtx.tx.vin.flatMap fun txin =>
    if (w.mapTxSpends txin.prevout).length ≤ 1 then [] else w.mapTxSpends txin.prevout).dedup.filter
      (· ≠ hash)).insertionSort fun a b => a.toNat ≤ b.toNat

/-- `GetTxTime`. -/
def getTxTime (data : WalletTxData) : UInt32 :=
  if data.nTimeSmart ≠ 0 then data.nTimeSmart else data.nTimeReceived

/-- `WalletTxToJSON`. -/
def walletTxToJSON (hash : UInt256) (wtx : CWalletTx) : Entry :=
  let confirms := getDepthInMainChain E.toWalletEnv w.toWalletNode wtx
  let data := w.txData hash
  [("confirmations", .int confirms)] ++
    (if wtx.tx.isCoinBase then [("generated", .bool true)] else []) ++
    (if confirms > 0 then
      [("blockhash", .hash wtx.hashBlock), ("blockindex", .int wtx.nIndex.toInt),
        ("blocktime", .int (E.mapBlockIndex.entry wtx.hashBlock).getBlockTime)]
    else []) ++
    [("txid", .hash hash), ("walletconflicts", .hashes (w.getConflicts hash wtx)),
      ("time", .int (getTxTime data).toNat), ("timereceived", .int data.nTimeReceived.toNat)] ++
    data.mapValue.map fun item => (item.1, .text item.2)

/-- `MaybePushAddress`. -/
def maybePushAddress : CTxDestination → Entry
  | .noDestination => []
  | dest => [("address", .address dest)]

/-- What is pushed first when addresses are involved that are only watched. -/
def pushWatchonly (involvesWatchonly : Bool) (dest : CTxDestination) : Entry :=
  if involvesWatchonly ∨ E.isMine w.keys.keystore dest.script &&& ismineWatchOnly ≠ 0 then
    [("involvesWatchonly", .bool true)]
  else []

def sentEntry (hash : UInt256) (wtx : CWalletTx) (fLong involvesWatchonly : Bool) (nFee : Int) (s : COutputEntry) :
    Entry :=
  pushWatchonly E w involvesWatchonly s.destination ++ [("account", .bytes (w.strFromAccount hash))] ++
    maybePushAddress s.destination ++
    [("category", .text "send"), ("amount", .amount (-s.amount)), ("vout", .int s.vout), ("fee", .amount (-nFee))] ++
    if fLong then walletTxToJSON E w hash wtx else []

def receivedCategory (wtx : CWalletTx) : String :=
  if wtx.tx.isCoinBase then
    if getDepthInMainChain E.toWalletEnv w.toWalletNode wtx < 1 then "orphan"
    else if getBlocksToMaturity E.toWalletEnv w.toWalletNode wtx > 0 then "immature"
    else "generate"
  else "receive"

def receivedEntry (hash : UInt256) (wtx : CWalletTx) (fLong involvesWatchonly : Bool) (r : COutputEntry) : Entry :=
  pushWatchonly E w involvesWatchonly r.destination ++ [("account", .bytes (w.accountOf r))] ++
    maybePushAddress r.destination ++
    [("category", .text (receivedCategory E w wtx)), ("amount", .amount r.amount), ("vout", .int r.vout)] ++
    if fLong then walletTxToJSON E w hash wtx else []

/-- `ListTransactions`: what it pushes; it is `none` when an amount is out of range. -/
def listTransactions (hash : UInt256) (wtx : CWalletTx) (strAccount : Bytes) (nMinDepth : Int) (fLong : Bool)
    (filter : IsMineFilter) : Option (List Entry) := do
  let a ← getAmounts E.toBalanceEnv w.toWalletNode wtx filter
  let nWatched ← (get E.toWalletEnv w.toWalletNode wtx (.getDebit ismineWatchOnly)).map Prod.fst
  let fAllAccounts := strAccount = strAllAccounts
  let involvesWatchonly := decide (nWatched > 0)
  let sent :=
    if (a.listSent ≠ [] ∨ a.nFee ≠ 0) ∧ (fAllAccounts ∨ strAccount = w.strFromAccount hash) then
      a.listSent.map (sentEntry E w hash wtx fLong involvesWatchonly a.nFee)
    else []
  let received :=
    if a.listReceived ≠ [] ∧ getDepthInMainChain E.toWalletEnv w.toWalletNode wtx ≥ nMinDepth then
      (a.listReceived.filter fun r => fAllAccounts ∨ w.accountOf r = strAccount).map
        (receivedEntry E w hash wtx fLong involvesWatchonly)
    else []
  pure (sent ++ received)

/-- `AcentryToJSON`. -/
def acentryToJSON (acentry : CAccountingEntry) (strAccount : Bytes) : List Entry :=
  if strAccount = strAllAccounts ∨ acentry.strAccount = strAccount then
    [[("account", .bytes acentry.strAccount), ("category", .text "move"), ("time", .int acentry.nTime.toInt),
      ("amount", .amount acentry.nCreditDebit.toInt), ("otheraccount", .bytes acentry.strOtherAccount),
      ("comment", .bytes acentry.strComment)]]
  else []

/-- `OrderedTxItems`. -/
def orderedTxItems (strAccount : Bytes) : Option (List (Int × OrderedItem)) :=
  (w.records.listAccountCreditDebit strAccount).map fun acentries =>
    Multimap.insertAll [] (w.walletOrder.map (fun hash => ((w.txData hash).nOrderPos.toInt, .tx hash)) ++
      acentries.map fun acentry => (acentry.nOrderPos.toInt, .entry acentry))

/-- What an item adds to a listing. -/
def itemEntries (strAccount : Bytes) (filter : IsMineFilter) : OrderedItem → Option (List Entry)
  | .tx hash =>
    match w.mapWallet.lookup hash with
    | none => some []
    | some wtx => listTransactions E w hash wtx strAccount 0 true filter
  | .entry acentry => some (acentryToJSON acentry strAccount)

/-! ## listtransactions -/

/-- The loop over the items: it ends when there are as many entries as have been asked for. -/
def gatherLoop {α β : Type} (entriesOf : α → Option (List β)) (limit : Int32) : List α → List β → Option (List β)
  | [], ret => some ret
  | item :: items, ret => do
    let entries ← entriesOf item
    let ret := ret ++ entries
    if Int32.ofNat ret.length ≥ limit then some ret else gatherLoop entriesOf limit items ret

/-- Where the page begins and ends among `n` entries. -/
def pageBounds (n : Nat) (nCount nFrom : Int32) : Int × Int :=
  let nSize := Int32.ofNat n
  let nFrom := if nFrom > nSize then nSize else nFrom
  -- The difference is taken of two sizes, and only then is it an `int` again.
  let nCount := if nFrom + nCount > nSize then Int32.ofInt (n - nFrom.toInt) else nCount
  (nFrom.toInt, (nFrom + nCount).toInt)

/-- What is cut out of the entries, oldest first; `none` when an iterator is outside of the array. -/
def cutPage {β : Type} (ret : List β) (nCount nFrom : Int32) : Option (List β) :=
  let bounds := pageBounds ret.length nCount nFrom
  if 0 ≤ bounds.1 ∧ bounds.1 ≤ bounds.2 ∧ bounds.2 ≤ ret.length then
    some (((ret.take bounds.2.toNat).drop bounds.1.toNat).reverse)
  else none

/-- The parameters, with their defaults. -/
structure ListParams where
  strAccount : Bytes := strAllAccounts
  nCount : Int32 := 10
  nFrom : Int32 := 0
  fWatchonly : Bool := false

def ListParams.filter (p : ListParams) : IsMineFilter :=
  if p.fWatchonly then ismineSpendable ||| ismineWatchOnly else ismineSpendable

/-- `listtransactions`. -/
def listtransactions (p : ListParams) : Except ListError (List Entry) :=
  if p.nCount < 0 then .error (.rpc ⟨rpcInvalidParameter, "Negative count"⟩)
  else if p.nFrom < 0 then .error (.rpc ⟨rpcInvalidParameter, "Negative from"⟩)
  else
    match w.orderedTxItems p.strAccount with
    | none => .error .thrown
    | some txOrdered =>
      match gatherLoop (itemEntries E w p.strAccount p.filter) (p.nCount + p.nFrom)
        (txOrdered.map Prod.snd).reverse [] with
      | none => .error .thrown
      | some ret =>
        match cutPage ret p.nCount p.nFrom with
        | none => .error .badIterator
        | some page => .ok page

/-! ## Pages -/

/-- A page of a list, in the opposite order. -/
def page {β : Type} (l : List β) (nCount nFrom : Nat) : List β :=
  ((l.drop nFrom).take nCount).reverse

/-- How many entries are gathered from items that have so many each. -/
def gathered (limit : Int32) : List Nat → Nat → Nat
  | [], n => n
  | k :: sizes, n => if Int32.ofNat (n + k) ≥ limit then n + k else gathered limit sizes (n + k)

/-- When the page is cut out rightly of `n` entries that have been gathered out of `total`. -/
def CutsRight (n total : Nat) (nCount nFrom : Int32) : Prop :=
  0 ≤ (Int32.ofNat n).toInt ∧
    if n < 2 ^ 31 then
      nCount.toInt + nFrom.toInt < 2 ^ 31 ∨ total ≤ nFrom.toInt ∧ nCount.toInt + n < 2 ^ 31
    else
      nCount = 0 ∨ nCount.toInt + nFrom.toInt < 2 ^ 31 ∧ nCount.toInt + nFrom.toInt ≤ (Int32.ofNat n).toInt

theorem wrap_spec (x : Int) :
    ∃ k, x.bmod (2 ^ 32) = x - 4294967296 * k ∧ -2147483648 ≤ x.bmod (2 ^ 32) ∧ x.bmod (2 ^ 32) < 2147483648 :=
  ⟨x.bdiv (2 ^ 32), Int.bmod_eq_self_sub_mul_bdiv x (2 ^ 32), Int.le_bmod (by decide), Int.bmod_lt (by decide)⟩

/-- The sums that the bounds are made of, each wrapped to an `int`. -/
theorem pageBounds_spec (n : Nat) (nCount nFrom : Int32) :
    ∃ z first t left last : Int,
      z = (n : Int).bmod (2 ^ 32) ∧ first = (if z < nFrom.toInt then z else nFrom.toInt) ∧
      t = (first + nCount.toInt).bmod (2 ^ 32) ∧
      left = (if z < t then ((n : Int) - first).bmod (2 ^ 32) else nCount.toInt) ∧
      last = (first + left).bmod (2 ^ 32) ∧ z = (Int32.ofNat n).toInt ∧ pageBounds n nCount nFrom = (first, last) := by
  refine ⟨_, _, _, _, _, rfl, rfl, rfl, rfl, rfl, Int32.toInt_ofNat'.symm, ?_⟩
  unfold pageBounds
  dsimp only
  have hfirst : (if nFrom > Int32.ofNat n then Int32.ofNat n else nFrom).toInt =
      if (n : Int).bmod (2 ^ 32) < nFrom.toInt then (n : Int).bmod (2 ^ 32) else nFrom.toInt := by
    rw [apply_ite Int32.toInt]
    exact if_congr (by rw [gt_iff_lt, Int32.lt_iff_toInt_lt, Int32.toInt_ofNat']; rfl) Int32.toInt_ofNat' rfl
  generalize (if nFrom > Int32.ofNat n then Int32.ofNat n else nFrom) = nFirst at hfirst ⊢
  have hleft : (if nFirst + nCount > Int32.ofNat n then Int32.ofInt (n - nFirst.toInt) else nCount).toInt =
      if (n : Int).bmod (2 ^ 32) < (nFirst.toInt + nCount.toInt).bmod (2 ^ 32) then
        ((n : Int) - nFirst.toInt).bmod (2 ^ 32) else nCount.toInt := by
    rw [apply_ite Int32.toInt]
    exact if_congr (by rw [gt_iff_lt, Int32.lt_iff_toInt_lt, Int32.toInt_ofNat', Int32.toInt_add]; rfl)
      Int32.toInt_ofInt rfl
  rw [Int32.toInt_add, hleft, hfirst]

/-- A right cut begins and ends where the page does. -/
theorem pageBounds_of_cutsRight {n total : Nat} {nCount nFrom : Int32} (hcount : 0 ≤ nCount.toInt)
    (hfrom : 0 ≤ nFrom.toInt) (hle : n ≤ total)
    (hend : n = total ∨ (nCount + nFrom).toInt ≤ (Int32.ofNat n).toInt) (h : CutsRight n total nCount nFrom) :
    0 ≤ (pageBounds n nCount nFrom).1 ∧ (pageBounds n nCount nFrom).1 ≤ (pageBounds n nCount nFrom).2 ∧
      (pageBounds n nCount nFrom).2 ≤ n ∧
      ((pageBounds n nCount nFrom).1 = nFrom.toInt ∧
          ((pageBounds n nCount nFrom).2 = nFrom.toInt + nCount.toInt ∨
            (pageBounds n nCount nFrom).2 = n ∧ n = total ∧ (n : Int) ≤ nFrom.toInt + nCount.toInt) ∨
        (pageBounds n nCount nFrom).1 = (pageBounds n nCount nFrom).2 ∧
          (nCount.toInt = 0 ∨ (total : Int) ≤ nFrom.toInt)) := by
  have hcount' := nCount.toInt_lt
  have hfrom' := nFrom.toInt_lt
  rcases pageBounds_spec n nCount nFrom with ⟨z, first, t, left, last, hz, hfirst, ht, hleft, hlast, hsize, heq⟩
  have hzero : nCount = 0 ↔ nCount.toInt = 0 := by
    rw [← Int32.toInt_inj]
    rfl
  rcases h with ⟨hpos, h⟩
  rw [← hsize] at hpos h
  rw [hzero] at h
  have hwrap : z < 2 ^ 31 ∧ z ≤ n ∧ (n < 2 ^ 31 → z = n) := by
    rcases wrap_spec n with ⟨k, hk, hlo, hhi⟩
    omega
  have hbegin : 0 ≤ first ∧ first ≤ z ∧ first ≤ nFrom.toInt ∧ (first = z ∨ first = nFrom.toInt) := by
    split_ifs at hfirst <;> omega
  -- None of the sums wraps.
  have hsum : first + nCount.toInt < 2 ^ 31 := by
    split_ifs at h <;> omega
  have hstop : t = first + nCount.toInt := ht.trans (Int.bmod_eq_of_le (by omega) (by omega))
  have hrest : left = if z < t then (n : Int) - first else nCount.toInt := by
    rw [hleft]
    refine if_ctx_congr Iff.rfl (fun hlt => Int.bmod_eq_of_le (by omega) ?_) fun _ => rfl
    split_ifs at h <;> omega
  have hshort : first + left ≤ n ∧ first + left < 2 ^ 31 := by
    split_ifs at h hrest <;> omega
  have hlast' : last = first + left := hlast.trans (Int.bmod_eq_of_le (by split_ifs at hrest <;> omega) hshort.2)
  have hlimit : n = total ∨ nCount.toInt + nFrom.toInt ≤ z ∨ 2 ^ 31 ≤ nCount.toInt + nFrom.toInt := by
    rw [Int32.toInt_add, ← hsize] at hend
    refine hend.imp_right fun hend => ?_
    by_cases hfits : nCount.toInt + nFrom.toInt < 2 ^ 31
    · rw [Int.bmod_eq_of_le (by omega) hfits] at hend
      exact .inl hend
    · exact .inr (not_lt.1 hfits)
  rw [heq]
  dsimp only
  clear hz hfirst ht hleft hlast hend
  split_ifs at h hrest <;> omega

/-- A cut of the length of the page is a right one. -/
theorem cutsRight_of_pageBounds {n total : Nat} {nCount nFrom : Int32} (hcount : 0 ≤ nCount.toInt)
    (hfrom : 0 ≤ nFrom.toInt) (hle : n ≤ total)
    (hfirst : 0 ≤ (pageBounds n nCount nFrom).1) (hlast : (pageBounds n nCount nFrom).2 ≤ n)
    (hlength : (pageBounds n nCount nFrom).2 - (pageBounds n nCount nFrom).1 =
      min nCount.toInt (max 0 (total - nFrom.toInt))) : CutsRight n total nCount nFrom := by
  have hcount' := nCount.toInt_lt
  have hfrom' := nFrom.toInt_lt
  rcases pageBounds_spec n nCount nFrom with ⟨z, first, t, left, last, hz, hfirst', ht, hleft, hlast', hsize, heq⟩
  have hzero : nCount = 0 ↔ nCount.toInt = 0 := by
    rw [← Int32.toInt_inj]
    rfl
  unfold CutsRight
  rw [← hsize, hzero]
  rw [heq] at hfirst hlast hlength
  dsimp only at hfirst hlast hlength
  have hwrap : -2 ^ 31 ≤ z ∧ z < 2 ^ 31 ∧ (n < 2 ^ 31 → z = n) := by
    rcases wrap_spec n with ⟨k, hk, hlo, hhi⟩
    omega
  have hbegin : 0 ≤ z ∧ first ≤ z ∧ (first = z ∧ z < nFrom.toInt ∨ first = nFrom.toInt) := by
    split_ifs at hfirst' <;> omega
  -- A sum that wraps is negative, and then the page ends before it begins.
  have hstop : t = first + nCount.toInt := by
    by_cases hfits : first + nCount.toInt < 2 ^ 31
    · exact ht.trans (Int.bmod_eq_of_le (by omega) hfits)
    · have hneg : t < 0 := by
        rcases wrap_spec (first + nCount.toInt) with ⟨k, hk, hlo, hhi⟩
        omega
      rw [if_neg (by omega)] at hleft
      rw [hleft, ← ht] at hlast'
      omega
  have hend : last = if z < t then z else t := by
    split_ifs at hleft ⊢ with hlt
    · rw [hlast', hleft, Int.add_bmod_bmod, add_sub_cancel, hz]
    · rw [hlast', hleft, ht]
  have ht' : t < 2 ^ 31 := by
    rcases wrap_spec (first + nCount.toInt) with ⟨k, hk, hlo, hhi⟩
    omega
  clear hz hfirst' ht hleft hlast'
  split_ifs at hend ⊢ <;> omega

/-- The page is cut out of what has been gathered if and only if the bounds do not wrap. -/
theorem cutPage_iff {β : Type} {ret rest : List β} {nCount nFrom : Int32} (hcount : 0 ≤ nCount.toInt)
    (hfrom : 0 ≤ nFrom.toInt) (hend : rest = [] ∨ (nCount + nFrom).toInt ≤ (Int32.ofNat ret.length).toInt) :
    cutPage ret nCount nFrom = some (page (ret ++ rest) nCount.toInt.toNat nFrom.toInt.toNat) ↔
      CutsRight ret.length (ret ++ rest).length nCount nFrom := by
  have hle : ret.length ≤ (ret ++ rest).length := by
    rw [List.length_append]
    exact Nat.le_add_right _ _
  rw [cutPage]
  constructor
  · intro h
    split_ifs at h with hbounds
    have hlength := congrArg List.length (Option.some.inj h)
    rw [page, List.length_reverse, List.length_reverse, List.length_drop, List.length_take, List.length_take,
      List.length_drop] at hlength
    exact cutsRight_of_pageBounds hcount hfrom hle hbounds.1 hbounds.2.2 (by omega)
  · intro h
    have hall : ret.length = (ret ++ rest).length ∨ (nCount + nFrom).toInt ≤ (Int32.ofNat ret.length).toInt :=
      hend.imp_left fun hnil => by rw [hnil, List.append_nil]
    rcases pageBounds_of_cutsRight hcount hfrom hle hall h with ⟨hfirst, horder, hlast, hcut⟩
    rw [if_pos ⟨hfirst, horder, hlast⟩, page]
    refine congrArg (fun l => some (List.reverse l)) ?_
    rcases hcut with ⟨hbegin, hstop | ⟨hstop, htotal, hclamp⟩⟩ | ⟨hempty, hnone⟩
    · -- Nothing is clamped.
      have hdrop : nFrom.toInt.toNat ≤ ret.length := by omega
      have htake : nCount.toInt.toNat ≤ (ret.drop nFrom.toInt.toNat).length := by
        rw [List.length_drop]
        omega
      have hwidth : (nFrom.toInt + nCount.toInt).toNat - nFrom.toInt.toNat = nCount.toInt.toNat := by omega
      rw [hstop, hbegin, List.drop_take, hwidth, List.drop_append_of_le_length hdrop,
        List.take_append_of_le_length htake]
    · -- The page ends with the list.
      have hrest : rest = [] := by
        rw [List.length_append] at htotal
        exact List.length_eq_zero_iff.1 (by omega)
      have htake : (ret.drop nFrom.toInt.toNat).length ≤ nCount.toInt.toNat := by
        rw [List.length_drop]
        omega
      rw [hstop, hbegin, hrest, List.append_nil, Int.toNat_natCast, List.take_length, List.take_of_length_le htake]
    · -- The page has no entries.
      rw [← hempty, List.drop_take, Nat.sub_self, List.take_zero]
      rcases hnone with hzero | hbeyond
      · rw [hzero]
        rfl
      · rw [List.drop_eq_nil_of_le (by omega), List.take_nil]

/-! ## The loop -/

section Loop

variable {α β : Type} {entriesOf : α → Option (List β)} {limit : Int32}

/-- The loop gathers the entries of the first items, of all of them or of enough. -/
theorem gatherLoop_eq {items : List α} {groups : List (List β)} (h : items.mapM entriesOf = some groups)
    (ret : List β) :
    ∃ got rest, gatherLoop entriesOf limit items ret = some (ret ++ got) ∧ groups.flatten = got ++ rest ∧
      (ret ++ got).length = gathered limit (groups.map List.length) ret.length ∧
      (rest = [] ∨ limit ≤ Int32.ofNat (ret ++ got).length) := by
  induction items generalizing groups ret with
  | nil =>
    rw [List.mapM_nil] at h
    rw [← Option.some.inj h]
    exact ⟨[], [], by rw [List.append_nil]; rfl, rfl, by rw [List.append_nil]; rfl, .inl rfl⟩
  | cons item items ih =>
    rw [List.mapM_cons] at h
    rcases Option.bind_eq_some_iff.1 h with ⟨entries, hentries, h⟩
    rcases Option.bind_eq_some_iff.1 h with ⟨groups', hgroups, h⟩
    rw [← Option.some.inj h, List.flatten_cons, List.map_cons, gathered, gatherLoop, hentries]
    change ∃ got rest, (if Int32.ofNat (ret ++ entries).length ≥ limit then _ else _) = _ ∧ _
    rw [List.length_append]
    split_ifs with hstop
    · refine ⟨entries, groups'.flatten, rfl, rfl, List.length_append, .inr ?_⟩
      rw [List.length_append]
      exact hstop
    · rcases ih hgroups (ret ++ entries) with ⟨got, rest, hloop, hflat, hlength, hmore⟩
      rw [List.append_assoc] at hloop hlength hmore
      refine ⟨entries ++ got, rest, hloop, ?_, ?_, hmore⟩
      · rw [hflat, List.append_assoc]
      · rw [hlength, List.length_append]

end Loop

/-- Page after page, the list is gone through from its beginning. -/
theorem pages_eq {β : Type} (l : List β) (nCount pages : Nat) :
    ((List.range pages).map fun k => page l nCount (k * nCount)).reverse.flatten =
      (l.take (pages * nCount)).reverse := by
  induction pages with
  | zero => rw [Nat.zero_mul, List.take_zero]; rfl
  | succ pages ih =>
    rw [List.range_succ, List.map_append, List.reverse_append, List.flatten_append, ih, Nat.succ_mul, List.take_add,
      List.reverse_append]
    exact congrArg (· ++ _) (List.append_nil _)

theorem gathered_le (limit : Int32) (sizes : List Nat) (n : Nat) : gathered limit sizes n ≤ n + sizes.sum := by
  induction sizes generalizing n with
  | nil => exact Nat.le_add_right n _
  | cons k sizes ih =>
    rw [gathered, List.sum_cons]
    have hrest := ih (n + k)
    split_ifs <;> omega

/-! ## The listing -/

/-- The entries of all items, from the newest to the oldest, each with those of its item. -/
def allEntries (strAccount : Bytes) (filter : IsMineFilter) : Option (List (List Entry)) :=
  (w.orderedTxItems strAccount).bind fun txOrdered =>
    (txOrdered.map Prod.snd).reverse.mapM (itemEntries E w strAccount filter)

variable {w} in
/-- The numbers for which the sums that are taken of them do not wrap, or nothing is asked for that is there. -/
def PageInRange (sizes : List Nat) (nCount nFrom : Int32) : Prop :=
  if sizes.sum < 2 ^ 31 then
    nCount.toInt + nFrom.toInt < 2 ^ 31 ∨ sizes.sum ≤ nFrom.toInt ∧ nCount.toInt + sizes.headD 0 < 2 ^ 31
  else CutsRight (gathered (nCount + nFrom) sizes 0) sizes.sum nCount nFrom

theorem pageInRange_iff {sizes : List Nat} {nCount nFrom : Int32} (hcount : 0 ≤ nCount.toInt)
    (hfrom : 0 ≤ nFrom.toInt) :
    PageInRange sizes nCount nFrom ↔ CutsRight (gathered (nCount + nFrom) sizes 0) sizes.sum nCount nFrom := by
  rw [PageInRange]
  split_ifs with hsum
  · have hle := gathered_le (nCount + nFrom) sizes 0
    rw [Nat.zero_add] at hle
    have hfits : (Int32.ofNat (gathered (nCount + nFrom) sizes 0)).toInt = gathered (nCount + nFrom) sizes 0 :=
      Int32.toInt_ofNat_of_lt (by omega)
    rw [CutsRight, hfits, if_pos (by omega)]
    by_cases hwraps : nCount.toInt + nFrom.toInt < 2 ^ 31
    · simp only [hwraps, true_or, and_true, true_iff]
      omega
    · -- The limit is negative, and the first item ends the loop.
      have hfirst : gathered (nCount + nFrom) sizes 0 = sizes.headD 0 := by
        cases sizes with
        | nil => rfl
        | cons k sizes =>
          rw [List.sum_cons] at hsum
          have hk : (Int32.ofNat (0 + k)).toInt = (0 + k : Nat) := Int32.toInt_ofNat_of_lt (by omega)
          have hlimit : Int32.ofNat (0 + k) ≥ nCount + nFrom := by
            rw [ge_iff_le, Int32.le_iff_toInt_le, hk, Int32.toInt_add]
            have hcount' := nCount.toInt_lt
            have hfrom' := nFrom.toInt_lt
            rcases wrap_spec (nCount.toInt + nFrom.toInt) with ⟨k', hk', hlo, hhi⟩
            omega
          rw [gathered, if_pos hlimit, Nat.zero_add]
          rfl
      rw [hfirst]
      simp only [hwraps, false_or]
      omega
  · exact Iff.rfl

variable {E w} in
/-- `listtransactions` returns the page that is asked for if and only if the numbers are in range; one page after
another has all of the entries. -/
theorem listtransactions_iff {p : ListParams} {groups : List (List Entry)}
    (hgroups : allEntries E w p.strAccount p.filter = some groups) (hcount : 0 ≤ p.nCount) (hfrom : 0 ≤ p.nFrom) :
    ((∃ ret, listtransactions E w p = .ok ret ∧ ret = page groups.flatten p.nCount.toInt.toNat p.nFrom.toInt.toNat) ↔
      PageInRange (groups.map List.length) p.nCount p.nFrom) ∧
    ∀ nCount pages, ((List.range pages).map fun k => page groups.flatten nCount (k * nCount)).reverse.flatten =
      (groups.flatten.take (pages * nCount)).reverse := by
  refine ⟨?_, pages_eq groups.flatten⟩
  have hcount' : 0 ≤ p.nCount.toInt := Int32.le_iff_toInt_le.1 hcount
  have hfrom' : 0 ≤ p.nFrom.toInt := Int32.le_iff_toInt_le.1 hfrom
  rcases Option.bind_eq_some_iff.1 hgroups with ⟨txOrdered, hitems, hentries⟩
  obtain ⟨ret, rest, hloop, hflat, hlength, hmore⟩ :
      ∃ ret rest, gatherLoop (itemEntries E w p.strAccount p.filter) (p.nCount + p.nFrom)
        (txOrdered.map Prod.snd).reverse [] = some ([] ++ ret) ∧
        groups.flatten = ret ++ rest ∧
        ([] ++ ret).length = gathered (p.nCount + p.nFrom) (groups.map List.length) ([] : List Entry).length ∧
        (rest = [] ∨ p.nCount + p.nFrom ≤ Int32.ofNat ([] ++ ret).length) := gatherLoop_eq hentries []
  rw [List.nil_append] at hloop hlength hmore
  have hcut := @cutPage_iff _ ret rest _ _ hcount' hfrom' (hmore.imp_right Int32.le_iff_toInt_le.1)
  rw [← hflat, hlength, List.length_flatten] at hcut
  rw [pageInRange_iff hcount' hfrom', listtransactions, if_neg (Int32.not_lt.2 hcount),
    if_neg (Int32.not_lt.2 hfrom), hitems]
  dsimp only
  rw [hloop]
  dsimp only
  refine Iff.trans ?_ hcut
  cases cutPage ret p.nCount p.nFrom with
  | none =>
    constructor
    · rintro ⟨ret', hret, -⟩
      cases hret
    · intro h
      cases h
  | some l =>
    constructor
    · rintro ⟨ret', hret, heq⟩
      rw [Except.ok.inj hret, heq]
    · intro h
      exact ⟨l, rfl, Option.some.inj h⟩

/-! ## A wallet with one transaction -/

def historyEnv : HistoryEnv where
  toBalanceEnv := balanceEnv
  mapBlockIndex := []

/-- The wallet has received one payment. -/
def onePayment : HistoryWallet where
  toAccountWallet := pooledWallet (orphanTx 5 [7])
  txData _ := ⟨0, 0, [], 0⟩

/-- Everything from the second newest entry on is asked for. -/
def restOfHistory : ListParams where
  nCount := 2147483647
  nFrom := 1

theorem walletOrder_onePayment : onePayment.walletOrder = [5] :=
  walletOrder_pooledWallet (orphanTx 5 [7]) (by decide)

theorem orderedTxItems_onePayment :
    onePayment.orderedTxItems strAllAccounts = some [(0, .tx 5)] := by
  rw [orderedTxItems, walletOrder_onePayment]
  rfl

theorem allEntries_onePayment (p : ListParams) (haccount : p.strAccount = strAllAccounts)
    (hfilter : p.filter = ismineSpendable) :
    ∃ groups, allEntries historyEnv onePayment p.strAccount p.filter = some groups ∧
      groups.map List.length = [1] := by
  have hlengths : (allEntries historyEnv onePayment strAllAccounts ismineSpendable).map
      (fun groups => groups.map List.length) = some [1] := by
    rw [allEntries, orderedTxItems_onePayment]
    decide
  rw [haccount, hfilter]
  exact Option.map_eq_some_iff.1 hlengths

theorem listtransactions_defaults : ∃ groups, allEntries historyEnv onePayment strAllAccounts ismineSpendable = some groups ∧
    ((∃ ret, listtransactions historyEnv onePayment {} = .ok ret ∧ ret = page groups.flatten 10 0) ↔
      PageInRange (groups.map List.length) 10 0) := by
  rcases allEntries_onePayment {} rfl rfl with ⟨groups, hgroups, -⟩
  exact ⟨groups, hgroups, (listtransactions_iff hgroups (by decide) (by decide)).1⟩

/-- The sum of the two numbers is negative, and so is the end of the page. -/
theorem listtransactions_wraps : ∃ groups,
    allEntries historyEnv onePayment restOfHistory.strAccount restOfHistory.filter = some groups ∧
      0 ≤ restOfHistory.nCount ∧ 0 ≤ restOfHistory.nFrom ∧ page groups.flatten 2147483647 1 = [] ∧
      listtransactions historyEnv onePayment restOfHistory = .error .badIterator := by
  rcases allEntries_onePayment restOfHistory rfl rfl with ⟨groups, hgroups, hlengths⟩
  refine ⟨groups, hgroups, by decide, by decide, ?_, ?_⟩
  · have hone : groups.flatten.length = 1 := by
      rw [List.length_flatten, hlengths]
      rfl
    rw [page, List.drop_eq_nil_of_le (by omega)]
    rfl
  · have hbad : (match listtransactions historyEnv onePayment restOfHistory with
        | .error .badIterator => true
        | _ => false) = true := by
      rw [listtransactions, show onePayment.orderedTxItems restOfHistory.strAccount = _ from orderedTxItems_onePayment]
      decide
    split at hbad
    · assumption
    · exact absurd hbad Bool.false_ne_true

end HistoryWallet

end Dobbscoin
