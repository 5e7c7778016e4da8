import Dobbscoin.Lib.Numbering
import Dobbscoin.Wallet.ListTransactions

/-!
# Reordering the wallet

`LoadWallet` calls `ReorderTransactions` of `walletdb.cpp` when a record has no position.  It numbers the transactions
and the accounting entries by their times; it asks for the entries of the account without a name, and finds no others.
-/

namespace Dobbscoin

variable {item : OrderedItem} {fWrites : RecordId → Bool} {items : List OrderedItem}
  {entry : CAccountingEntry} {nEntryNo : UInt64}

/-- The fields of a `CWalletTx` that order it. -/
structure TxOrder where
  nTimeReceived : UInt32
  nOrderPos : Int64

/-- The records of the wallet file that have a place in the order. -/
structure OrderFile where
  tx : Table UInt256 TxOrder
  records : WalletRecords
  orderposnext : Option Int64

/-- The wallet in memory, and its file. -/
structure OrderWallet where
  mapWallet : Table UInt256 TxOrder
  nOrderPosNext : Int64
  file : OrderFile

/-- What names a record. -/
inductive RecordId where
  | tx (hash : UInt256)
  | entry (strAccount : Bytes) (nEntryNo : UInt64)
  deriving DecidableEq

def OrderedItem.id : OrderedItem → RecordId
  | .tx hash => .tx hash
  | .entry acentry => .entry acentry.strAccount acentry.nEntryNo

@[simp] theorem OrderedItem.id_tx (hash : UInt256) : (OrderedItem.tx hash).id = .tx hash :=
  rfl

@[simp] theorem OrderedItem.id_entry (acentry : CAccountingEntry) :
    (OrderedItem.entry acentry).id = .entry acentry.strAccount acentry.nEntryNo :=
  rfl

/-! ## The file -/

/-- The entry of a record with that key. -/
def WalletRecord.entryOf (strAccount : Bytes) (nEntryNo : UInt64) : WalletRecord → Option CAccountingEntry
  | .acentry strAccount' nEntryNo' entry => if strAccount' = strAccount ∧ nEntryNo' = nEntryNo then some entry else none
  | .other _ _ => none

/-- The record of an entry is written again. -/
def WalletRecord.rewrite (acentry : CAccountingEntry) : WalletRecord → WalletRecord
  | .acentry strAccount nEntryNo entry =>
    .acentry strAccount nEntryNo
      (if strAccount = acentry.strAccount ∧ nEntryNo = acentry.nEntryNo then acentry else entry)
  | .other strType rest => .other strType rest

theorem WalletRecord.key_rewrite (acentry : CAccountingEntry) (record : WalletRecord) :
    (record.rewrite acentry).key = record.key := by
  cases record <;> rfl

namespace WalletRecords

/-- `WriteAccountingEntry`, for an entry that has been read from the file. -/
def writeEntry (file : WalletRecords) (acentry : CAccountingEntry) : WalletRecords where
  records := file.records.map (WalletRecord.rewrite acentry)
  ordered := by
    refine List.pairwise_map.2 (file.ordered.imp fun {a b} h => ?_)
    rw [WalletRecord.order, WalletRecord.order, WalletRecord.key_rewrite, WalletRecord.key_rewrite]
    exact h
  wellFormed := by
    intro record hrecord
    rcases List.mem_map.1 hrecord with ⟨old, hold, rfl⟩
    have h := file.wellFormed old hold
    cases old <;> exact h

def entryAt (file : WalletRecords) (strAccount : Bytes) (nEntryNo : UInt64) : Option CAccountingEntry :=
  file.records.findSome? (WalletRecord.entryOf strAccount nEntryNo)

end WalletRecords

namespace OrderFile

/-- The position of a record, when there is one with that name. -/
def position (file : OrderFile) : RecordId → Option Int64
  | .tx hash => (file.tx.lookup hash).map TxOrder.nOrderPos
  | .entry strAccount nEntryNo => (file.records.entryAt strAccount nEntryNo).map CAccountingEntry.nOrderPos

def time (file : OrderFile) : RecordId → Option Int
  | .tx hash => (file.tx.lookup hash).map fun t => (t.nTimeReceived.toNat : Int)
  | .entry strAccount nEntryNo => (file.records.entryAt strAccount nEntryNo).map fun entry => entry.nTime.toInt

/-- A record that is read has no position. -/
def fAnyUnordered (file : OrderFile) : Bool :=
  file.tx.entries.any (fun e => e.2.nOrderPos = -1) ||
    file.records.records.any fun
      | .acentry _ _ entry => entry.nOrderPos = -1
      | .other _ _ => false

end OrderFile

/-! ## ReorderTransactions -/

/-- `nOrderPosNext` and `nOrderPosOffsets`. -/
structure OrderMarks where
  nOrderPosNext : Int64
  nOrderPosOffsets : List Int64

namespace OrderMarks

/-- How many offsets are not above a position. -/
def nOrderPosOff (marks : OrderMarks) (nOrderPos : Int64) : Int64 :=
  Int64.ofNat (marks.nOrderPosOffsets.countP (· ≤ nOrderPos))

/-- The new position, and the marks after it has been given. -/
def place (marks : OrderMarks) (nOrderPos : Int64) : Int64 × OrderMarks :=
  if nOrderPos = -1 then
    (marks.nOrderPosNext, ⟨marks.nOrderPosNext + 1, marks.nOrderPosOffsets ++ [marks.nOrderPosNext]⟩)
  else
    let nOrderPos := nOrderPos + marks.nOrderPosOff nOrderPos
    (nOrderPos,
      { marks with
        nOrderPosNext := if marks.nOrderPosNext < nOrderPos + 1 then nOrderPos + 1 else marks.nOrderPosNext })

end OrderMarks

namespace OrderWallet

/-- `nOrderPos` of the transaction or of the entry. -/
def itemPos (w : OrderWallet) : OrderedItem → Int64
  | .tx hash => ((w.mapWallet.lookup hash).map TxOrder.nOrderPos).getD (-1)
  | .entry acentry => acentry.nOrderPos

/-- The assignment to it.  The entries are in a list that is gone afterwards. -/
def assign (w : OrderWallet) (nOrderPos : Int64) : OrderedItem → OrderWallet
  | .tx hash =>
    match w.mapWallet.lookup hash with
    | none => w
    | some t => { w with mapWallet := w.mapWallet.insert hash { t with nOrderPos := nOrderPos } }
  | .entry _ => w

/-- `WriteTx` and `WriteAccountingEntry`. -/
def write (w : OrderWallet) (nOrderPos : Int64) : OrderedItem → OrderWallet
  | .tx hash =>
    match w.mapWallet.lookup hash with
    | none => w
    | some t => { w with file := { w.file with tx := w.file.tx.insert hash t } }
  | .entry acentry =>
    { w with file := { w.file with records := w.file.records.writeEntry { acentry with nOrderPos := nOrderPos } } }

/-- One item in the loop; `none` when it cannot be written. -/
def reorderOne (fWrites : RecordId → Bool) (s : OrderWallet × OrderMarks) (item : OrderedItem) :
    Option (OrderWallet × OrderMarks) :=
  let nOrderPos := s.1.itemPos item
  let placed := s.2.place nOrderPos
  let w := s.1.assign placed.1 item
  if nOrderPos ≠ -1 ∧ s.2.nOrderPosOff nOrderPos = 0 then some (w, placed.2)
  else if fWrites item.id then some (w.write placed.1 item, placed.2)
  else none

/-- `txByTime`. -/
def txByTime (w : OrderWallet) (acentries : List CAccountingEntry) : List (Int × OrderedItem) :=
  Multimap.insertAll []
    ((w.mapWallet.keys.mergeSort fun a b => a.toNat ≤ b.toNat).map (fun hash =>
      (((w.mapWallet.lookup hash).map fun t => (t.nTimeReceived.toNat : Int)).getD 0, .tx hash)) ++
      acentries.map fun acentry => (acentry.nTime.toInt, .entry acentry))

/-- `ReorderTransactions`.  What becomes of the last write is not looked at. -/
def reorderTransactions (fWrites : RecordId → Bool) (fWritesNext : Bool) (w : OrderWallet) : Option OrderWallet := do
  let acentries ← w.file.records.listAccountCreditDebit []
  let r ← ((w.txByTime acentries).map Prod.snd).foldlM (reorderOne fWrites) (w, ⟨0, []⟩)
  let nOrderPosNext := r.2.nOrderPosNext
  let file := if fWritesNext then { r.1.file with orderposnext := some nOrderPosNext } else r.1.file
  pure { r.1 with nOrderPosNext, file }

/-- `LoadWallet`, as far as the order goes. -/
def loadWallet (fWrites : RecordId → Bool) (fWritesNext : Bool) (file : OrderFile) : Option OrderWallet :=
  let w : OrderWallet := ⟨file.tx, file.orderposnext.getD 0, file⟩
  if file.fAnyUnordered then w.reorderTransactions fWrites fWritesNext else some w

end OrderWallet

/-! ## What the order should be -/

/-- Every record has its own place: below the next one, where it was relative to the others that had a position, and
behind what is older when it had none; and the file says the same as the memory. -/
structure Orderly (file : OrderFile) (w : OrderWallet) : Prop where
  kept : ∀ id, (w.file.position id).isSome ↔ (file.position id).isSome
  inRange : ∀ id p, w.file.position id = some p → 0 ≤ p.toInt ∧ p.toInt < w.nOrderPosNext.toInt
  distinct : ∀ id id' p, w.file.position id = some p → w.file.position id' = some p → id = id'
  order : ∀ id id' p p' q q', file.position id = some p → file.position id' = some p' → p ≠ -1 → p' ≠ -1 →
    p.toInt < p'.toInt → w.file.position id = some q → w.file.position id' = some q' → q.toInt < q'.toInt
  byTime : ∀ id id' t t' q q', file.time id = some t → file.time id' = some t' → t < t' →
    file.position id' = some (-1) → w.file.position id = some q → w.file.position id' = some q' → q.toInt < q'.toInt
  memory : ∀ hash, (w.mapWallet.lookup hash).map TxOrder.nOrderPos = w.file.position (.tx hash)

/-! ## What one item does -/

theorem WalletRecords.entryAt_writeEntry (file : WalletRecords) (acentry : CAccountingEntry) (strAccount : Bytes)
    (nEntryNo : UInt64) :
    (file.writeEntry acentry).entryAt strAccount nEntryNo =
      if strAccount = acentry.strAccount ∧ nEntryNo = acentry.nEntryNo then
        (file.entryAt strAccount nEntryNo).map fun _ => acentry
      else file.entryAt strAccount nEntryNo := by
  rw [entryAt, writeEntry, List.findSome?_map, entryAt, List.map_findSome?]
  split_ifs with hsame
  · congr 1
    funext record
    cases record with
    | other strType rest => rfl
    | acentry strAccount' nEntryNo' entry =>
      dsimp only [Function.comp_apply, WalletRecord.rewrite, WalletRecord.entryOf]
      by_cases hkey : strAccount' = strAccount ∧ nEntryNo' = nEntryNo
      · rw [if_pos hkey, if_pos hkey, hkey.1, hkey.2, if_pos hsame]
        rfl
      · rw [if_neg hkey, if_neg hkey]
        rfl
  · congr 1
    funext record
    cases record with
    | other strType rest => rfl
    | acentry strAccount' nEntryNo' entry =>
      dsimp only [Function.comp_apply, WalletRecord.rewrite, WalletRecord.entryOf]
      by_cases hkey : strAccount' = strAccount ∧ nEntryNo' = nEntryNo
      · rw [if_pos hkey, if_pos hkey, hkey.1, hkey.2, if_neg hsame]
      · rw [if_neg hkey, if_neg hkey]

namespace OrderWallet

/-- The record of an item is in the file as it is in memory. -/
def Held (w : OrderWallet) : OrderedItem → Prop
  | .tx hash => ∃ t, w.mapWallet.lookup hash = some t ∧ w.file.tx.lookup hash = some t
  | .entry acentry => (w.file.position (.entry acentry.strAccount acentry.nEntryNo)) = some acentry.nOrderPos

/-- The position of a transaction in memory. -/
def memory (w : OrderWallet) (hash : UInt256) : Option Int64 :=
  (w.mapWallet.lookup hash).map TxOrder.nOrderPos

/-- One record has got a position, in memory and in the file. -/
structure Moved (w w' : OrderWallet) (item : OrderedItem) (nOrderPos : Int64) : Prop where
  position : ∀ id, w'.file.position id = if id = item.id then some nOrderPos else w.file.position id
  memory : ∀ hash, w'.memory hash = if .tx hash = item.id then some nOrderPos else w.memory hash
  held : ∀ item', item'.id ≠ item.id → w.Held item' → w'.Held item'

theorem Moved.itemPos {w w' : OrderWallet} {nOrderPos : Int64} (h : Moved w w' item nOrderPos)
    {item' : OrderedItem} (hne : item'.id ≠ item.id) : w'.itemPos item' = w.itemPos item' := by
  cases item' with
  | tx hash =>
    have hmemory := h.memory hash
    rw [if_neg (show RecordId.tx hash ≠ item.id from hne)] at hmemory
    exact congrArg (fun p => p.getD (-1)) hmemory
  | entry acentry => rfl

theorem Held.position {w : OrderWallet} (h : w.Held item) :
    w.file.position item.id = some (w.itemPos item) := by
  cases item with
  | tx hash =>
    rcases h with ⟨t, hmem, hfile⟩
    show (w.file.tx.lookup hash).map TxOrder.nOrderPos = some (((w.mapWallet.lookup hash).map TxOrder.nOrderPos).getD (-1))
    rw [hmem, hfile]
    rfl
  | entry acentry => exact h

/-- The position is assigned and written. -/
theorem moved_write {w : OrderWallet} (h : w.Held item) (nOrderPos : Int64) :
    Moved w ((w.assign nOrderPos item).write nOrderPos item) item nOrderPos := by
  cases item with
  | tx hash =>
    rcases h with ⟨t, hmem, hfile⟩
    have hassign : w.assign nOrderPos (.tx hash) =
        { w with mapWallet := w.mapWallet.insert hash { t with nOrderPos := nOrderPos } } := by
      rw [assign, hmem]
    have hwrite : (w.assign nOrderPos (.tx hash)).write nOrderPos (.tx hash) =
        { w with
          mapWallet := w.mapWallet.insert hash { t with nOrderPos := nOrderPos }
          file := { w.file with tx := w.file.tx.insert hash { t with nOrderPos := nOrderPos } } } := by
      rw [hassign, write]
      dsimp only
      rw [AList.lookup_insert]
    rw [hwrite]
    refine ⟨fun id => ?_, fun hash' => ?_, fun item' hne hheld => ?_⟩
    · rw [OrderedItem.id_tx]
      cases id with
      | tx hash' =>
        by_cases heq : hash' = hash
        · rw [heq, if_pos rfl, OrderFile.position, AList.lookup_insert]
          rfl
        · rw [if_neg fun hid => heq (RecordId.tx.inj hid), OrderFile.position, AList.lookup_insert_ne heq]
          rfl
      | entry strAccount nEntryNo => rw [if_neg RecordId.noConfusion]; rfl
    · rw [OrderedItem.id_tx]
      by_cases heq : hash' = hash
      · rw [heq, if_pos rfl, memory, AList.lookup_insert]
        rfl
      · rw [if_neg fun hid => heq (RecordId.tx.inj hid), memory, AList.lookup_insert_ne heq]
        rfl
    · cases item' with
      | tx hash' =>
        have heq : hash' ≠ hash := fun h => hne (congrArg RecordId.tx h)
        rcases hheld with ⟨t', hmem', hfile'⟩
        exact ⟨t', (AList.lookup_insert_ne heq).trans hmem', (AList.lookup_insert_ne heq).trans hfile'⟩
      | entry acentry => exact hheld
  | entry acentry =>
    have hposition : ∀ id, ((w.assign nOrderPos (.entry acentry)).write nOrderPos (.entry acentry)).file.position id =
        if id = (OrderedItem.entry acentry).id then some nOrderPos else w.file.position id := fun id => by
      rw [OrderedItem.id_entry]
      cases id with
      | tx hash => rw [if_neg RecordId.noConfusion]; rfl
      | entry strAccount nEntryNo =>
        have hwritten := w.file.records.entryAt_writeEntry { acentry with nOrderPos := nOrderPos } strAccount nEntryNo
        show ((w.file.records.writeEntry { acentry with nOrderPos := nOrderPos }).entryAt strAccount nEntryNo).map _ = _
        rw [hwritten]
        by_cases hsame : strAccount = acentry.strAccount ∧ nEntryNo = acentry.nEntryNo
        · rw [if_pos hsame, if_pos (by rw [hsame.1, hsame.2]), hsame.1, hsame.2]
          rcases Option.map_eq_some_iff.1 h with ⟨entry, hentry, -⟩
          rw [hentry]
          rfl
        · rw [if_neg hsame, if_neg fun hid => hsame (RecordId.entry.inj hid)]
          rfl
    refine ⟨hposition, fun hash => ?_, fun item' hne hheld => ?_⟩
    · rw [if_neg RecordId.noConfusion]
      rfl
    · cases item' with
      | tx hash => exact hheld
      | entry acentry' => exact (hposition _).trans ((if_neg hne).trans hheld)

/-- A position that does not change need not be written. -/
theorem moved_assign {w : OrderWallet} (h : w.Held item) :
    Moved w (w.assign (w.itemPos item) item) item (w.itemPos item) := by
  have hheld := h.position
  have hposition : ∀ id, w.file.position id = if id = item.id then some (w.itemPos item) else w.file.position id :=
    fun id => by
      split_ifs with hid
      · rw [hid, hheld]
      · rfl
  cases item with
  | tx hash =>
    rcases h with ⟨t, hmem, hfile⟩
    have hsame : w.itemPos (.tx hash) = t.nOrderPos := by
      rw [itemPos, hmem]
      rfl
    have hassign : w.assign (w.itemPos (.tx hash)) (.tx hash) = { w with mapWallet := w.mapWallet.insert hash t } := by
      rw [assign, hmem, hsame]
    rw [hassign]
    refine ⟨hposition, fun hash' => ?_, fun item' hne hheld => ?_⟩
    · rw [OrderedItem.id_tx]
      by_cases heq : hash' = hash
      · rw [heq, if_pos rfl, memory, AList.lookup_insert, hsame]
        rfl
      · rw [if_neg fun hid => heq (RecordId.tx.inj hid), memory, AList.lookup_insert_ne heq]
        rfl
    · cases item' with
      | tx hash' =>
        have heq : hash' ≠ hash := fun h => hne (congrArg RecordId.tx h)
        rcases hheld with ⟨t', hmem', hfile'⟩
        exact ⟨t', (AList.lookup_insert_ne heq).trans hmem', hfile'⟩
      | entry acentry => exact hheld
  | entry acentry => exact ⟨hposition, fun hash => (if_neg RecordId.noConfusion).symm, fun item' _ hheld => hheld⟩

/-- **Step.** -/
theorem reorderOne_spec {s s' : OrderWallet × OrderMarks}
    (h : reorderOne fWrites s item = some s') (hheld : s.1.Held item) :
    s'.2 = (s.2.place (s.1.itemPos item)).2 ∧ Moved s.1 s'.1 item (s.2.place (s.1.itemPos item)).1 := by
  unfold reorderOne at h
  dsimp only at h
  split_ifs at h with hsame
  · rw [← Option.some.inj h]
    have hplaced : (s.2.place (s.1.itemPos item)).1 = s.1.itemPos item := by
      rw [OrderMarks.place, if_neg hsame.1, hsame.2]
      exact Int64.add_zero _
    refine ⟨rfl, ?_⟩
    rw [hplaced]
    exact moved_assign hheld
  · rw [← Option.some.inj h]
    exact ⟨rfl, moved_write hheld _⟩

end OrderWallet

/-! ## All items -/

namespace OrderMarks

/-- The items with their new positions, and the marks in the end. -/
def placeAll (pos : OrderedItem → Int64) : OrderMarks → List OrderedItem → List (OrderedItem × Int64) × OrderMarks
  | marks, [] => ([], marks)
  | marks, item :: items =>
    let placed := marks.place (pos item)
    let rest := placed.2.placeAll pos items
    ((item, placed.1) :: rest.1, rest.2)

theorem placeAll_congr {pos pos' : OrderedItem → Int64}
    (h : ∀ item ∈ items, pos item = pos' item) (marks : OrderMarks) :
    marks.placeAll pos items = marks.placeAll pos' items := by
  induction items generalizing marks with
  | nil => rfl
  | cons item items ih =>
    rw [placeAll, placeAll, h item List.mem_cons_self, ih fun item' hitem' => h item' (List.mem_cons_of_mem _ hitem')]

theorem placeAll_items (pos : OrderedItem → Int64) (items : List OrderedItem) (marks : OrderMarks) :
    (marks.placeAll pos items).1.map Prod.fst = items := by
  induction items generalizing marks with
  | nil => rfl
  | cons item items ih => exact congrArg (item :: ·) (ih _)

end OrderMarks

namespace OrderWallet

/-- **Run.**  Each item has got its position, and nothing else has changed. -/
theorem reorderAll_spec {s s' : OrderWallet × OrderMarks}
    (h : items.foldlM (reorderOne fWrites) s = some s') (hheld : ∀ item ∈ items, s.1.Held item)
    (hids : (items.map OrderedItem.id).Nodup) :
    s'.2 = (s.2.placeAll s.1.itemPos items).2 ∧
      (∀ x ∈ (s.2.placeAll s.1.itemPos items).1,
        s'.1.file.position x.1.id = some x.2 ∧ ∀ hash, x.1.id = .tx hash → s'.1.memory hash = some x.2) ∧
      (∀ id, id ∉ items.map OrderedItem.id → s'.1.file.position id = s.1.file.position id) ∧
      ∀ hash, .tx hash ∉ items.map OrderedItem.id → s'.1.memory hash = s.1.memory hash := by
  induction items generalizing s with
  | nil =>
    rw [← Option.some.inj h]
    exact ⟨rfl, fun x hx => absurd hx List.not_mem_nil, fun id _ => rfl, fun hash _ => rfl⟩
  | cons item items ih =>
    rw [List.foldlM_cons] at h
    rcases Option.bind_eq_some_iff.1 h with ⟨s₁, hstep, hrest⟩
    rw [List.map_cons, List.nodup_cons] at hids
    rcases reorderOne_spec hstep (hheld item List.mem_cons_self) with ⟨hmarks, hmoved⟩
    have hne : ∀ item' ∈ items, item'.id ≠ item.id := fun item' hitem' heq =>
      hids.1 (heq ▸ List.mem_map_of_mem hitem')
    have hheld₁ : ∀ item' ∈ items, s₁.1.Held item' := fun item' hitem' =>
      hmoved.held item' (hne item' hitem') (hheld item' (List.mem_cons_of_mem _ hitem'))
    have hpos : ∀ item' ∈ items, s₁.1.itemPos item' = s.1.itemPos item' := fun item' hitem' =>
      hmoved.itemPos (hne item' hitem')
    rcases ih hrest hheld₁ hids.2 with ⟨hmarks', hplaced, hother, hmemory⟩
    rw [OrderMarks.placeAll_congr hpos, hmarks] at hmarks' hplaced
    refine ⟨hmarks', fun x hx => ?_, fun id hid => ?_, fun hash hhash => ?_⟩
    · rcases List.mem_cons.1 hx with rfl | hx
      · refine ⟨?_, fun hash hid => ?_⟩
        · rw [hother _ hids.1, hmoved.position, if_pos rfl]
        · rw [hmemory hash (hid ▸ hids.1), hmoved.memory, if_pos hid.symm]
      · exact hplaced x hx
    · rw [List.map_cons, List.mem_cons, not_or] at hid
      rw [hother id hid.2, hmoved.position, if_neg hid.1]
    · rw [List.map_cons, List.mem_cons, not_or] at hhash
      rw [hmemory hash hhash.2, hmoved.memory, if_neg hhash.1]

end OrderWallet

/-! ## Without overflow -/

section Exact

open Numbering

variable {pos : OrderedItem → Int64}

/-- The position of an item, when it has one. -/
def numberOf (pos : OrderedItem → Int64) (item : OrderedItem) : Option Nat :=
  if pos item = -1 then none else some (pos item).toInt.toNat

/-- The marks are the same numbers. -/
structure OrderMarks.Exact (marks : OrderMarks) (s : Marks) : Prop where
  next : marks.nOrderPosNext.toInt = s.next
  places : marks.nOrderPosOffsets.map Int64.toInt = s.places.map Nat.cast

theorem OrderMarks.Exact.countP {marks : OrderMarks} {s : Marks} (h : marks.Exact s) {nOrderPos : Int64}
    (hpos : 0 ≤ nOrderPos.toInt) :
    marks.nOrderPosOffsets.countP (· ≤ nOrderPos) = s.places.countP (· ≤ nOrderPos.toInt.toNat) := by
  have hcast : marks.nOrderPosOffsets.countP (· ≤ nOrderPos) =
      (marks.nOrderPosOffsets.map Int64.toInt).countP (· ≤ nOrderPos.toInt) := by
    rw [List.countP_map]
    exact List.countP_congr fun o _ => by
      simp only [decide_eq_true_eq, Function.comp_apply]
      exact Int64.le_iff_toInt_le
  rw [hcast, h.places, List.countP_map]
  exact List.countP_congr fun o _ => by
    simp only [decide_eq_true_eq, Function.comp_apply]
    omega

theorem wrap64_spec (x : Int) :
    ∃ k, x.bmod (2 ^ 64) = x - 18446744073709551616 * k ∧ -9223372036854775808 ≤ x.bmod (2 ^ 64) ∧
      x.bmod (2 ^ 64) < 9223372036854775808 :=
  ⟨x.bdiv (2 ^ 64), Int.bmod_eq_self_sub_mul_bdiv x (2 ^ 64), Int.le_bmod (by decide), Int.bmod_lt (by decide)⟩

theorem toInt_add_spec (a b : Int64) :
    ∃ k, (a + b).toInt = a.toInt + b.toInt - 18446744073709551616 * k ∧
      -9223372036854775808 ≤ (a + b).toInt ∧ (a + b).toInt < 9223372036854775808 := by
  rw [Int64.toInt_add]
  exact wrap64_spec _

/-- Different numbers that are not above `p` are at most `p + 1`. -/
theorem countP_le_succ {places : List Nat} (h : places.Nodup) (p : Nat) : places.countP (· ≤ p) ≤ p + 1 := by
  rw [List.countP_eq_length_filter, ← List.length_range (n := p + 1)]
  refine ((h.filter _).subperm fun o ho => ?_).length_le
  rw [List.mem_filter, decide_eq_true_iff] at ho
  exact List.mem_range.2 (Nat.lt_succ_of_le ho.2)

/-- **Step.**  The new position is in range if and only if the number is, and then it is the number. -/
theorem OrderMarks.Exact.place {marks : OrderMarks} {s : Marks} (h : marks.Exact s) (hnodup : s.places.Nodup)
    (hpos : pos item = -1 ∨ 0 ≤ (pos item).toInt) :
    (0 ≤ (marks.place (pos item)).1.toInt ∧ (marks.place (pos item)).1.toInt < 2 ^ 63 - 1 ↔
        (s.place (numberOf pos item)).1 < 2 ^ 63 - 1) ∧
      ((s.place (numberOf pos item)).1 < 2 ^ 63 - 1 →
        (marks.place (pos item)).1.toInt = (s.place (numberOf pos item)).1 ∧
          (marks.place (pos item)).2.Exact (s.place (numberOf pos item)).2) := by
  have hnext := h.next
  have hlt := marks.nOrderPosNext.toInt_lt
  by_cases hnone : pos item = -1
  · rw [numberOf, if_pos hnone, OrderMarks.place, if_pos hnone, Marks.place]
    refine ⟨?_, fun hbound => ⟨hnext, ?_, ?_⟩⟩
    · dsimp only
      omega
    · have hone := toInt_add_spec marks.nOrderPosNext 1
      rw [Int64.toInt_one] at hone
      dsimp only at hbound ⊢
      omega
    · rw [List.map_append, List.map_append, h.places, List.map_singleton, List.map_singleton, hnext]
  · have hp : 0 ≤ (pos item).toInt := hpos.resolve_left hnone
    have hcount : marks.nOrderPosOff (pos item) = Int64.ofNat (s.places.countP (· ≤ (pos item).toInt.toNat)) := by
      rw [OrderMarks.nOrderPosOff, h.countP hp]
    have hle := countP_le_succ hnodup (pos item).toInt.toNat
    have hpos_lt := (pos item).toInt_lt
    rw [numberOf, if_neg hnone, OrderMarks.place, if_neg hnone, Marks.place]
    dsimp only
    rw [hcount, shifted]
    generalize s.places.countP (· ≤ (pos item).toInt.toNat) = c at hle ⊢
    have hoff : ∃ k : Int, (Int64.ofNat c).toInt = c - 18446744073709551616 * k ∧
        -9223372036854775808 ≤ (Int64.ofNat c).toInt ∧ (Int64.ofNat c).toInt < 9223372036854775808 := by
      rw [Int64.toInt_ofNat']
      exact wrap64_spec c
    have hsum := toInt_add_spec (pos item) (Int64.ofNat c)
    have hone := toInt_add_spec (pos item + Int64.ofNat c) 1
    rw [Int64.toInt_one] at hone
    refine ⟨by omega, fun hbound => ⟨by omega, ?_, h.places⟩⟩
    dsimp only
    rw [apply_ite Int64.toInt]
    simp only [Int64.lt_iff_toInt_lt]
    split_ifs <;> omega

/-- **Run.** -/
theorem OrderMarks.Exact.placeAll {marks : OrderMarks} {s : Marks} (h : marks.Exact s)
    (hs : ∀ o ∈ s.places, o < s.next) (hnodup : s.places.Nodup)
    (hpos : ∀ item ∈ items, pos item = -1 ∨ 0 ≤ (pos item).toInt) :
    ((∀ x ∈ (marks.placeAll pos items).1, 0 ≤ x.2.toInt ∧ x.2.toInt < 2 ^ 63 - 1) ↔
        ∀ x ∈ (s.placeAll (numberOf pos) items).1, x.2 < 2 ^ 63 - 1) ∧
      ((∀ x ∈ (s.placeAll (numberOf pos) items).1, x.2 < 2 ^ 63 - 1) →
        (marks.placeAll pos items).1.map (fun x => (x.1, x.2.toInt)) =
            (s.placeAll (numberOf pos) items).1.map (fun x => (x.1, (x.2 : Int))) ∧
          (marks.placeAll pos items).2.Exact (s.placeAll (numberOf pos) items).2) := by
  induction items generalizing marks s with
  | nil => exact ⟨⟨fun _ x hx => absurd hx List.not_mem_nil, fun _ x hx => absurd hx List.not_mem_nil⟩, fun _ => ⟨rfl, h⟩⟩
  | cons item items ih =>
    rcases h.place hnodup (hpos item List.mem_cons_self) with ⟨hrange, hexact⟩
    have hbelow := (s.place_spec hs (numberOf pos item)).2.2.1
    have hnodup' : (s.place (numberOf pos item)).2.places.Nodup := by
      cases numberOf pos item with
      | none => exact hnodup.append (List.nodup_singleton _) (List.disjoint_singleton.2 fun hmem => (hs _ hmem).ne rfl)
      | some p => exact hnodup
    rw [OrderMarks.placeAll, Marks.placeAll_cons]
    dsimp only
    rw [List.forall_mem_cons, List.forall_mem_cons]
    by_cases hbound : (s.place (numberOf pos item)).1 < 2 ^ 63 - 1
    · rcases hexact hbound with ⟨heq, hmarks⟩
      rcases ih hmarks hbelow hnodup' fun item' hitem' => hpos item' (List.mem_cons_of_mem _ hitem') with
        ⟨hiff, hsame⟩
      refine ⟨and_congr hrange hiff, fun hall => ?_⟩
      rcases hsame hall.2 with ⟨hmap, hfinal⟩
      refine ⟨?_, hfinal⟩
      rw [List.map_cons, List.map_cons, hmap, heq]
    · exact ⟨⟨fun hall => absurd (hrange.1 hall.1) hbound, fun hall => absurd hall.1 hbound⟩,
        fun hall => absurd hall.1 hbound⟩

end Exact

/-! ## The items of a file -/

namespace WalletRecords

theorem eq_of_order {file : WalletRecords} {a b : WalletRecord} (ha : a ∈ file.records) (hb : b ∈ file.records)
    (h : a.order = b.order) : a = b := by
  have hnodup : (file.records.map WalletRecord.order).Nodup :=
    List.pairwise_map.2 (file.ordered.imp fun h => ne_of_lt h)
  exact List.inj_on_of_nodup_map hnodup ha hb h

theorem mem_of_entryAt {file : WalletRecords} {strAccount : Bytes}
    (h : file.entryAt strAccount nEntryNo = some entry) : .acentry strAccount nEntryNo entry ∈ file.records := by
  rcases List.exists_of_findSome?_eq_some h with ⟨record, hmem, hentry⟩
  cases record with
  | other strType rest => cases hentry
  | acentry strAccount' nEntryNo' entry' =>
    rw [WalletRecord.entryOf] at hentry
    split_ifs at hentry with hkey
    rwa [← hkey.1, ← hkey.2, ← Option.some.inj hentry]

theorem entryAt_of_mem {file : WalletRecords} {strAccount : Bytes}
    (h : .acentry strAccount nEntryNo entry ∈ file.records) : file.entryAt strAccount nEntryNo = some entry := by
  have hsome : (file.entryAt strAccount nEntryNo).isSome := by
    rw [entryAt, List.findSome?_isSome_iff]
    exact ⟨_, h, by rw [WalletRecord.entryOf, if_pos ⟨rfl, rfl⟩]; rfl⟩
  rcases Option.isSome_iff_exists.1 hsome with ⟨entry', hentry'⟩
  have hsame := eq_of_order (mem_of_entryAt hentry') h rfl
  rw [hentry', (WalletRecord.acentry.inj hsame).2.2]

/-- The entries that are read are those of the account without a name. -/
theorem takeEntry_nil {record : WalletRecord} {acentry : CAccountingEntry} (h : takeEntry [] record = some acentry) :
    ∃ entry, record = .acentry [] acentry.nEntryNo entry ∧
      acentry = { entry with strAccount := [], nEntryNo := acentry.nEntryNo } := by
  cases record with
  | other strType rest => cases h
  | acentry strAccount nEntryNo entry =>
    rw [takeEntry_acentry] at h
    split_ifs at h with hother
    have hname : strAccount = [] := by
      by_contra hne
      exact hother ⟨by decide, hne⟩
    rw [← Option.some.inj h, hname]
    exact ⟨entry, rfl, rfl⟩

end WalletRecords

namespace OrderFile

/-- The wallet after the records have been read. -/
def loaded (file : OrderFile) : OrderWallet :=
  ⟨file.tx, file.orderposnext.getD 0, file⟩

/-- The entries of the account without a name. -/
def acentries (file : OrderFile) : List CAccountingEntry :=
  file.records.records.filterMap (WalletRecords.takeEntry [])

/-- The items that are numbered, in the order of their times. -/
def byTime (file : OrderFile) : List OrderedItem :=
  (file.loaded.txByTime file.acentries).map Prod.snd

variable {file : OrderFile}

theorem mem_acentries {acentry : CAccountingEntry} (h : acentry ∈ file.acentries) :
    acentry.strAccount = [] ∧ ∃ entry, file.records.entryAt [] acentry.nEntryNo = some entry ∧
      entry.nOrderPos = acentry.nOrderPos ∧ entry.nTime = acentry.nTime := by
  rcases List.mem_filterMap.1 h with ⟨record, hmem, htake⟩
  rcases WalletRecords.takeEntry_nil htake with ⟨entry, rfl, heq⟩
  rw [heq]
  exact ⟨rfl, entry, WalletRecords.entryAt_of_mem hmem, rfl, rfl⟩

theorem exists_acentry (h : file.records.entryAt [] nEntryNo = some entry) :
    { entry with strAccount := [], nEntryNo := nEntryNo } ∈ file.acentries := by
  refine List.mem_filterMap.2 ⟨_, WalletRecords.mem_of_entryAt h, ?_⟩
  rw [WalletRecords.takeEntry_acentry, if_neg fun hother => hother.2 rfl]

theorem acentries_nodup : (file.acentries.map CAccountingEntry.nEntryNo).Nodup := by
  refine List.pairwise_map.2 (List.Pairwise.filterMap _ (fun a b hlt acentry hacentry acentry' hacentry' heq => ?_)
    file.records.ordered)
  rcases WalletRecords.takeEntry_nil hacentry with ⟨entry, rfl, -⟩
  rcases WalletRecords.takeEntry_nil hacentry' with ⟨entry', rfl, -⟩
  rw [heq] at hlt
  exact lt_irrefl _ hlt

/-- The items are the transactions and the entries of the account without a name. -/
theorem byTime_perm : file.byTime.Perm
    (file.tx.keys.map OrderedItem.tx ++ file.acentries.map OrderedItem.entry) := by
  rw [byTime, OrderWallet.txByTime]
  refine ((Multimap.insertAll_perm [] _).map Prod.snd).trans ?_
  rw [List.nil_append, List.map_append, List.map_map, List.map_map]
  exact ((List.mergeSort_perm _ _).map _).append_right _

theorem mem_byTime :
    item ∈ file.byTime ↔ (∃ hash ∈ file.tx.keys, .tx hash = item) ∨ ∃ acentry ∈ file.acentries, .entry acentry = item := by
  rw [byTime_perm.mem_iff, List.mem_append, List.mem_map, List.mem_map]

theorem ids_nodup : (file.byTime.map OrderedItem.id).Nodup := by
  refine ((byTime_perm.map OrderedItem.id).nodup_iff).2 ?_
  rw [List.map_append, List.map_map, List.map_map]
  refine List.Nodup.append ?_ ?_ ?_
  · exact file.tx.keys_nodup.map fun a b h => RecordId.tx.inj h
  · refine List.pairwise_map.2 ((List.pairwise_map.1 acentries_nodup).imp fun {a b} hne heq => ?_)
    exact hne (RecordId.entry.inj heq).2
  · intro id htx hentry
    rcases List.mem_map.1 htx with ⟨hash, -, rfl⟩
    rcases List.mem_map.1 hentry with ⟨acentry, -, h⟩
    cases h

theorem held_loaded (h : item ∈ file.byTime) : file.loaded.Held item := by
  rcases mem_byTime.1 h with ⟨hash, hkeys, rfl⟩ | ⟨acentry, hmem, rfl⟩
  · rcases Option.isSome_iff_exists.1 (AList.lookup_isSome.2 (AList.mem_keys.1 hkeys)) with ⟨t, ht⟩
    exact ⟨t, ht, ht⟩
  · rcases mem_acentries hmem with ⟨hname, entry, hentry, hpos, -⟩
    show (file.records.entryAt acentry.strAccount acentry.nEntryNo).map _ = some acentry.nOrderPos
    rw [hname, hentry, ← hpos]
    rfl

/-- Every record is an item, but for those of the accounts with a name. -/
theorem exists_item {id : RecordId} (h : (file.position id).isSome)
    (hname : ∀ strAccount nEntryNo, id = .entry strAccount nEntryNo → strAccount = []) :
    ∃ item ∈ file.byTime, item.id = id := by
  cases id with
  | tx hash =>
    rw [position, Option.isSome_map, AList.lookup_isSome] at h
    exact ⟨.tx hash, mem_byTime.2 (.inl ⟨hash, AList.mem_keys.2 h, rfl⟩), rfl⟩
  | entry strAccount nEntryNo =>
    obtain rfl := hname strAccount nEntryNo rfl
    rw [position, Option.isSome_map] at h
    rcases Option.isSome_iff_exists.1 h with ⟨entry, hentry⟩
    exact ⟨_, mem_byTime.2 (.inr ⟨_, exists_acentry hentry, rfl⟩), rfl⟩

theorem name_of_mem (h : item ∈ file.byTime) {strAccount : Bytes}
    (hid : item.id = .entry strAccount nEntryNo) : strAccount = [] := by
  rcases mem_byTime.1 h with ⟨hash, -, rfl⟩ | ⟨acentry, hmem, rfl⟩
  · cases hid
  · rw [← (RecordId.entry.inj hid).1]
    exact (mem_acentries hmem).1

/-- The items are in the order of their times. -/
theorem byTime_sorted : file.byTime.Pairwise fun a b =>
    ∀ t t', file.time a.id = some t → file.time b.id = some t' → t ≤ t' := by
  have htime : ∀ e ∈ file.loaded.txByTime file.acentries, file.time e.2.id = some e.1 := by
    intro e he
    rw [OrderWallet.txByTime] at he
    have hmem := (Multimap.insertAll_perm [] _).mem_iff.1 he
    rw [List.nil_append, List.mem_append] at hmem
    rcases hmem with hmem | hmem
    · rcases List.mem_map.1 hmem with ⟨hash, hkeys, rfl⟩
      rw [(List.mergeSort_perm _ _).mem_iff] at hkeys
      have hsome : (file.tx.lookup hash).isSome := AList.lookup_isSome.2 (AList.mem_keys.1 hkeys)
      rcases Option.isSome_iff_exists.1 hsome with ⟨t, ht⟩
      show (file.tx.lookup hash).map _ = some (((file.tx.lookup hash).map _).getD 0)
      rw [ht]
      rfl
    · rcases List.mem_map.1 hmem with ⟨acentry, hacentry, rfl⟩
      rcases mem_acentries hacentry with ⟨hname, entry, hentry, -, hsame⟩
      show (file.records.entryAt acentry.strAccount acentry.nEntryNo).map _ = some acentry.nTime.toInt
      rw [hname, hentry, ← hsame]
      rfl
  have hsorted : Multimap.Sorted (file.loaded.txByTime file.acentries) :=
    Multimap.Sorted.insertAll List.Pairwise.nil _
  refine List.pairwise_map.2 (hsorted.imp_of_mem fun {a b} ha hb hle t t' ht ht' => ?_)
  rw [htime a ha] at ht
  rw [htime b hb] at ht'
  rwa [← Option.some.inj ht, ← Option.some.inj ht']

/-- A record without a position is seen when the file is read. -/
theorem fAnyUnordered_iff : file.fAnyUnordered = true ↔ ∃ id, file.position id = some (-1) := by
  rw [fAnyUnordered, Bool.or_eq_true, List.any_eq_true, List.any_eq_true]
  constructor
  · rintro (⟨e, hmem, hpos⟩ | ⟨record, hmem, hpos⟩)
    · refine ⟨.tx e.1, ?_⟩
      rw [position, AList.mem_lookup_iff.2 hmem, Option.map_some, of_decide_eq_true hpos]
    · cases record with
      | other strType rest => exact absurd hpos Bool.false_ne_true
      | acentry strAccount nEntryNo entry =>
        refine ⟨.entry strAccount nEntryNo, ?_⟩
        rw [position, WalletRecords.entryAt_of_mem hmem, Option.map_some, of_decide_eq_true hpos]
  · rintro ⟨id, hid⟩
    cases id with
    | tx hash =>
      rcases Option.map_eq_some_iff.1 hid with ⟨t, ht, hpos⟩
      exact .inl ⟨⟨hash, t⟩, AList.mem_lookup_iff.1 ht, decide_eq_true hpos⟩
    | entry strAccount nEntryNo =>
      rcases Option.map_eq_some_iff.1 hid with ⟨entry, hentry, hpos⟩
      exact .inr ⟨_, WalletRecords.mem_of_entryAt hentry, decide_eq_true hpos⟩

/-! ## When the order can be had -/

open Numbering

/-- The positions of the items as numbers. -/
def number (file : OrderFile) : OrderedItem → Option Nat :=
  numberOf file.loaded.itemPos

/-- The items with their numbers after the pass. -/
def numbered (file : OrderFile) : List (OrderedItem × Nat) × Marks :=
  Marks.start.placeAll file.number file.byTime

/-- The pass, which does not see an entry, leaves its position alone. -/
structure Undisturbed (file : OrderFile) (id : RecordId) (q : Nat) : Prop where
  notPlace : q ∉ file.numbered.2.places
  above : ∀ item ∈ file.byTime, ∀ p, file.number item = some p → p < q → shifted file.numbered.2.places p < q
  below : q < file.numbered.2.next
  byTime : ∀ x ∈ file.numbered.1, file.number x.1 = none → ∀ t t', file.time id = some t →
    file.time x.1.id = some t' → t < t' → q < x.2

/-- No item is moved to a place and none to the end of the range; and the entries of accounts with a name have
positions, which the pass leaves alone. -/
structure CanOrder (file : OrderFile) : Prop where
  clash : NoClash file.number file.byTime
  bound : ∀ x ∈ file.numbered.1, x.2 < 2 ^ 63 - 1
  named : ∀ strAccount nEntryNo p, strAccount ≠ [] → file.position (.entry strAccount nEntryNo) = some p →
    p ≠ -1 ∧ file.Undisturbed (.entry strAccount nEntryNo) p.toInt.toNat

/-- The positions that there are before: different ones, and none below zero. -/
structure Numbered (file : OrderFile) : Prop where
  nonneg : ∀ id p, file.position id = some p → p = -1 ∨ 0 ≤ p.toInt
  distinct : ∀ id id' p, file.position id = some p → file.position id' = some p → p ≠ -1 → id = id'

/-- The items with their positions after the pass. -/
def placed (file : OrderFile) : List (OrderedItem × Int64) × OrderMarks :=
  OrderMarks.placeAll file.loaded.itemPos ⟨0, []⟩ file.byTime

/-- What `LoadWallet` makes of the positions. -/
structure Loaded (file : OrderFile) (w : OrderWallet) : Prop where
  next : w.nOrderPosNext = file.placed.2.nOrderPosNext
  position : ∀ x ∈ file.placed.1, w.file.position x.1.id = some x.2
  other : ∀ id, id ∉ file.byTime.map OrderedItem.id → w.file.position id = file.position id
  memory : ∀ hash, w.memory hash = w.file.position (.tx hash)

theorem loaded_of_loadWallet {fWritesNext : Bool} {w : OrderWallet}
    (hload : OrderWallet.loadWallet fWrites fWritesNext file = some w)
    (hsome : ∃ id, file.position id = some (-1)) : file.Loaded w := by
  rw [OrderWallet.loadWallet, if_pos (fAnyUnordered_iff.2 hsome), OrderWallet.reorderTransactions,
    WalletRecords.listAccountCreditDebit_eq _ (Nat.zero_le _)] at hload
  rcases Option.bind_eq_some_iff.1 hload with ⟨acentries, hacentries, hpass⟩
  rcases Option.bind_eq_some_iff.1 hpass with ⟨r, hrun, hresult⟩
  obtain rfl := Option.some.inj hacentries
  rcases OrderWallet.reorderAll_spec hrun (fun item hitem => held_loaded hitem) ids_nodup with
    ⟨hmarks, hplaced, hother, hmemory⟩
  have hfile : ∀ id, w.file.position id = r.1.file.position id := fun id => by
    rw [← Option.some.inj hresult]
    dsimp only
    cases id <;> split_ifs <;> rfl
  have hmem : ∀ hash, w.memory hash = r.1.memory hash := fun hash => by
    rw [← Option.some.inj hresult]
    rfl
  refine ⟨?_, fun x hx => ?_, fun id hid => ?_, fun hash => ?_⟩
  · rw [← Option.some.inj hresult]
    exact congrArg OrderMarks.nOrderPosNext hmarks
  · rw [hfile]
    exact (hplaced x hx).1
  · rw [hfile]
    exact hother id hid
  · rw [hmem, hfile]
    by_cases hin : .tx hash ∈ file.byTime.map OrderedItem.id
    · rw [← OrderMarks.placeAll_items file.loaded.itemPos file.byTime ⟨0, []⟩, List.map_map] at hin
      rcases List.mem_map.1 hin with ⟨x, hx, hid⟩
      have hid' : x.1.id = .tx hash := hid
      rw [(hplaced x hx).2 hash hid', ← hid', (hplaced x hx).1]
    · rw [hother _ hin, hmemory hash hin]
      rfl

variable {w : OrderWallet}

theorem position_item (h : item ∈ file.byTime) :
    file.position item.id = some (file.loaded.itemPos item) :=
  (held_loaded h).position

theorem itemPos_cases (hnumbered : file.Numbered) (h : item ∈ file.byTime) :
    file.loaded.itemPos item = -1 ∨ 0 ≤ (file.loaded.itemPos item).toInt :=
  hnumbered.nonneg item.id _ (position_item h)

theorem placed_spec (file : OrderFile) :
    Placed file.number Marks.start file.byTime file.numbered.1 file.numbered.2 :=
  placed_start file.byTime

theorem placed_exact (hnumbered : file.Numbered) :
    ((∀ x ∈ file.placed.1, 0 ≤ x.2.toInt ∧ x.2.toInt < 2 ^ 63 - 1) ↔ ∀ x ∈ file.numbered.1, x.2 < 2 ^ 63 - 1) ∧
      ((∀ x ∈ file.numbered.1, x.2 < 2 ^ 63 - 1) →
        file.placed.1.map (fun x => (x.1, x.2.toInt)) = file.numbered.1.map (fun x => (x.1, (x.2 : Int))) ∧
          file.placed.2.Exact file.numbered.2) :=
  have hstart : OrderMarks.Exact ⟨0, []⟩ Marks.start := ⟨rfl, rfl⟩
  hstart.placeAll (fun _ ho => absurd ho List.not_mem_nil)
    List.nodup_nil fun _ hitem => itemPos_cases hnumbered hitem

/-- What becomes of the items, when no position is out of range. -/
structure InRange (file : OrderFile) (w : OrderWallet) : Prop where
  next : w.nOrderPosNext.toInt = file.numbered.2.next
  position : ∀ x ∈ file.numbered.1, ∃ q, w.file.position x.1.id = some q ∧ q.toInt = x.2
  of_position : ∀ item ∈ file.byTime, ∀ q, w.file.position item.id = some q → ∃ f, (item, f) ∈ file.numbered.1 ∧ q.toInt = f

theorem Loaded.inRange (h : file.Loaded w) (hnumbered : file.Numbered)
    (hbound : ∀ x ∈ file.numbered.1, x.2 < 2 ^ 63 - 1) : file.InRange w := by
  rcases (placed_exact hnumbered).2 hbound with ⟨hmap, hmarks⟩
  have hposition : ∀ x ∈ file.numbered.1, ∃ q, w.file.position x.1.id = some q ∧ q.toInt = x.2 := by
    intro x hx
    have hmem : (x.1, (x.2 : Int)) ∈ file.placed.1.map fun x => (x.1, x.2.toInt) := by
      rw [hmap]
      exact List.mem_map_of_mem hx
    rcases List.mem_map.1 hmem with ⟨y, hy, heq⟩
    rcases Prod.mk.inj heq with ⟨hitem, hvalue⟩
    refine ⟨y.2, ?_, hvalue⟩
    rw [← hitem]
    exact h.position y hy
  refine ⟨by rw [h.next, hmarks.next], hposition, fun item hitem q hq => ?_⟩
  rw [← (placed_spec file).items] at hitem
  rcases List.mem_map.1 hitem with ⟨x, hx, rfl⟩
  rcases hposition x hx with ⟨q', hq', hvalue⟩
  rw [hq] at hq'
  exact ⟨x.2, hx, by rw [Option.some.inj hq', hvalue]⟩

theorem number_eq_none (h : item ∈ file.byTime) :
    file.number item = none ↔ file.position item.id = some (-1) := by
  rw [position_item h, number, numberOf]
  split_ifs with hnone
  · simp [hnone]
  · simp [hnone]

theorem number_eq_some (h : item ∈ file.byTime) {p : Int64}
    (hp : file.position item.id = some p) (hne : p ≠ -1) : file.number item = some p.toInt.toNat := by
  rw [position_item h] at hp
  rw [number, numberOf, Option.some.inj hp, if_neg hne]

/-- Two items with one position are the same record. -/
theorem numbers_distinct (hnumbered : file.Numbered) :
    file.byTime.Pairwise fun a b => ∀ p, file.number a = some p → file.number b ≠ some p := by
  refine (List.pairwise_map.1 ids_nodup).imp_of_mem fun {a b} ha hb hne p hpa hpb => ?_
  rw [number, numberOf] at hpa hpb
  split_ifs at hpa hpb with ha' hb'
  have hva := (itemPos_cases hnumbered ha).resolve_left ha'
  have hvb := (itemPos_cases hnumbered hb).resolve_left hb'
  have hsame : file.loaded.itemPos a = file.loaded.itemPos b := by
    rw [← Int64.toInt_inj]
    rw [Option.some.injEq] at hpa hpb
    omega
  refine hne (hnumbered.distinct a.id b.id _ (position_item ha) ?_ ha')
  rw [hsame]
  exact position_item hb

/-- The order can be had when it has been had. -/
theorem canOrder_of_orderly (h : file.Loaded w) (hnumbered : file.Numbered) (horderly : Orderly file w) :
    file.CanOrder := by
  have hspec := placed_spec file
  have hbound : ∀ x ∈ file.numbered.1, x.2 < 2 ^ 63 - 1 := by
    refine (placed_exact hnumbered).1.1 fun x hx => ?_
    have hrange := horderly.inRange x.1.id x.2 (h.position x hx)
    have hnext := w.nOrderPosNext.toInt_lt
    omega
  have hin := h.inRange hnumbered hbound
  have hmem : ∀ x ∈ file.numbered.1, x.1 ∈ file.byTime := fun x hx => hspec.items ▸ List.mem_map_of_mem hx
  have hsame : ∀ x ∈ file.numbered.1, ∀ id q, w.file.position id = some q → q.toInt = x.2 → x.1.id = id := by
    intro x hx id q hq hvalue
    rcases hin.position x hx with ⟨q', hq', hvalue'⟩
    have heq : q' = q := Int64.toInt_inj.1 (hvalue'.trans hvalue.symm)
    exact horderly.distinct x.1.id id q (heq ▸ hq') hq
  refine ⟨?_, hbound, fun strAccount nEntryNo p hname hp => ?_⟩
  · rw [← nodup_iff (numbers_distinct hnumbered)]
    have hnodup : file.numbered.1.Nodup := by
      have hitems : (file.numbered.1.map Prod.fst).Nodup := by
        rw [hspec.items]
        exact ids_nodup.of_map _
      exact hitems.of_map _
    refine hnodup.map_on fun x hx y hy heq => ?_
    rcases hin.position y hy with ⟨q, hq, hvalue⟩
    have hids := hsame x hx y.1.id q hq (by rw [hvalue, heq])
    exact Prod.ext (List.inj_on_of_nodup_map ids_nodup (hmem x hx) (hmem y hy) hids) heq
  · have hnot : .entry strAccount nEntryNo ∉ file.byTime.map OrderedItem.id := fun hmem => by
      rcases List.mem_map.1 hmem with ⟨item, hitem, hid⟩
      exact hname (name_of_mem hitem hid)
    have hq : w.file.position (.entry strAccount nEntryNo) = some p := (h.other _ hnot).trans hp
    have hrange := horderly.inRange _ p hq
    have hne : p ≠ -1 := fun heq => by
      rw [heq] at hrange
      exact absurd hrange.1 (by decide)
    have hnext := hin.next
    refine ⟨hne, fun hplace => ?_, fun item hitem p' hp' hlt => ?_, by omega, fun x hx hnone t t' ht ht' hlt => ?_⟩
    · rcases hspec.exists_of_place hplace with ⟨item, hitem, -⟩
      have hid := hsame _ hitem _ p hq (by dsimp only; omega)
      exact hname (name_of_mem (hmem _ hitem) hid)
    · have hitem' := hitem
      rw [← hspec.items] at hitem
      rcases List.mem_map.1 hitem with ⟨x, hx, rfl⟩
      have hmoved := hspec.moved x hx p' hp'
      have hold := position_item hitem'
      rcases hin.position x hx with ⟨q', hq', hvalue⟩
      rw [number, numberOf] at hp'
      split_ifs at hp' with hne'
      have hpos' := (itemPos_cases hnumbered hitem').resolve_left hne'
      have hpos := (hnumbered.nonneg _ p hp).resolve_left hne
      have hp'' := Option.some.inj hp'
      have hkept := horderly.order _ _ _ p q' p hold hp hne' hne (by omega) hq' hq
      rw [← hmoved]
      omega
    · rcases hin.position x hx with ⟨q, hq', hvalue⟩
      have hlate := horderly.byTime _ _ t t' p q ht ht' hlt ((number_eq_none (hmem x hx)).1 hnone) hq hq'
      omega

/-- A record after the pass: an item with its number, or an entry that the pass has left alone. -/
theorem CanOrder.cases (h : file.CanOrder) (hloaded : file.Loaded w) (hnumbered : file.Numbered) {id : RecordId}
    {q : Int64} (hq : w.file.position id = some q) :
    (∃ x ∈ file.numbered.1, x.1 ∈ file.byTime ∧ x.1.id = id ∧ q.toInt = x.2) ∨
      file.position id = some q ∧ q ≠ -1 ∧ 0 ≤ q.toInt ∧ file.Undisturbed id q.toInt.toNat := by
  by_cases hmem : id ∈ file.byTime.map OrderedItem.id
  · rcases List.mem_map.1 hmem with ⟨item, hitem, rfl⟩
    rcases (hloaded.inRange hnumbered h.bound).of_position item hitem q hq with ⟨f, hf, hvalue⟩
    exact .inl ⟨_, hf, hitem, rfl, hvalue⟩
  · rw [hloaded.other id hmem] at hq
    have hnamed : ∃ strAccount nEntryNo, id = .entry strAccount nEntryNo ∧ strAccount ≠ [] := by
      by_contra hnone
      rcases exists_item (by rw [hq]; rfl) fun strAccount nEntryNo hid => by
        by_contra hname
        exact hnone ⟨strAccount, nEntryNo, hid, hname⟩ with ⟨item, hitem, rfl⟩
      exact hmem (List.mem_map_of_mem hitem)
    rcases hnamed with ⟨strAccount, nEntryNo, rfl, hname⟩
    rcases h.named strAccount nEntryNo q hname hq with ⟨hne, halone⟩
    exact .inr ⟨hq, hne, (hnumbered.nonneg _ q hq).resolve_left hne, halone⟩

/-- An item comes behind what is older when it had no position. -/
theorem later_of_time {x y : OrderedItem × Nat} (hx : x ∈ file.numbered.1) (hy : y ∈ file.numbered.1) {t t' : Int}
    (ht : file.time x.1.id = some t) (ht' : file.time y.1.id = some t') (hlt : t < t')
    (hnone : file.number y.1 = none) : x.2 < y.2 := by
  have hspec := placed_spec file
  have hsorted : file.numbered.1.Pairwise fun a b =>
      ∀ t t', file.time a.1.id = some t → file.time b.1.id = some t' → t ≤ t' := by
    have hitems : file.byTime.Pairwise fun a b =>
        ∀ t t', file.time a.id = some t → file.time b.id = some t' → t ≤ t' := byTime_sorted
    rwa [← hspec.items, List.pairwise_map] at hitems
  rcases List.mem_iff_getElem.1 hx with ⟨i, hi, rfl⟩
  rcases List.mem_iff_getElem.1 hy with ⟨j, hj, rfl⟩
  rcases Nat.lt_trichotomy i j with hij | rfl | hij
  · exact List.pairwise_iff_getElem.1 hspec.later i j hi hj hij hnone
  · rw [ht] at ht'
    exact absurd (Option.some.inj ht') hlt.ne
  · exact absurd (List.pairwise_iff_getElem.1 hsorted j i hj hi hij t' t ht' ht) (not_le.2 hlt)

theorem orderly_of_canOrder (hloaded : file.Loaded w) (hnumbered : file.Numbered) (h : file.CanOrder) :
    Orderly file w := by
  have hspec := placed_spec file
  have hin := hloaded.inRange hnumbered h.bound
  have hmoved : ∀ x ∈ file.numbered.1, ∀ p, file.number x.1 = some p →
      x.2 = shifted file.numbered.2.places p := hspec.moved
  have hnodup : (file.numbered.1.map Prod.snd).Nodup := (nodup_iff (numbers_distinct hnumbered)).2 h.clash
  -- An entry that is left alone has a number of its own.
  have hapart : ∀ x ∈ file.numbered.1, x.1 ∈ file.byTime → ∀ id q, file.position id = some q → q ≠ -1 → 0 ≤ q.toInt →
      file.Undisturbed id q.toInt.toNat → x.1.id ≠ id → q.toInt ≠ x.2 := by
    intro x hx hitem id q hq hne hnonneg halone hother heq
    cases hnumber : file.number x.1 with
    | none =>
      refine halone.notPlace ?_
      rw [show q.toInt.toNat = x.2 by omega]
      exact (hspec.placed x hx hnumber).1
    | some p =>
      have hshift := hmoved x hx p hnumber
      have hle := le_shifted file.numbered.2.places p
      rcases Nat.lt_trichotomy p q.toInt.toNat with hlt | hsame | hgt
      · have habove := halone.above x.1 hitem p hnumber hlt
        omega
      · rw [number, numberOf] at hnumber
        split_ifs at hnumber with hnone
        have hpos := (itemPos_cases hnumbered hitem).resolve_left hnone
        rw [Option.some.injEq] at hnumber
        have hposition : file.loaded.itemPos x.1 = q := Int64.toInt_inj.1 (by omega)
        exact hother (hnumbered.distinct _ _ q (hposition ▸ position_item hitem) hq hne)
      · omega
  have hnumber : ∀ x ∈ file.numbered.1, x.1 ∈ file.byTime → ∀ p, file.position x.1.id = some p → p ≠ -1 →
      0 ≤ p.toInt ∧ x.2 = shifted file.numbered.2.places p.toInt.toNat := fun x hx hitem p hp hne =>
    ⟨(hnumbered.nonneg _ p hp).resolve_left hne, hmoved x hx _ (number_eq_some hitem hp hne)⟩
  have hnext := hin.next
  refine ⟨fun id => ?_, fun id q hq => ?_, fun id id' q hq hq' => ?_, ?_, ?_, hloaded.memory⟩
  · by_cases hmem : id ∈ file.byTime.map OrderedItem.id
    · rcases List.mem_map.1 hmem with ⟨item, hitem, rfl⟩
      have hitem' := hitem
      rw [← hspec.items] at hitem'
      rcases List.mem_map.1 hitem' with ⟨x, hx, rfl⟩
      rcases hin.position x hx with ⟨q, hq, -⟩
      rw [hq, position_item hitem]
      exact ⟨fun _ => rfl, fun _ => rfl⟩
    · rw [hloaded.other id hmem]
  · rcases h.cases hloaded hnumbered hq with ⟨x, hx, -, -, hvalue⟩ | ⟨-, -, hnonneg, halone⟩
    · have hlt := hspec.bound x hx
      omega
    · have hlt := halone.below
      omega
  · rcases h.cases hloaded hnumbered hq with ⟨x, hx, hitem, hid, hvalue⟩ | ⟨hold, hne, hnonneg, halone⟩ <;>
      rcases h.cases hloaded hnumbered hq' with ⟨y, hy, hitem', hid', hvalue'⟩ | ⟨hold', hne', hnonneg', halone'⟩
    · have heq : x.2 = y.2 := by omega
      rw [← hid, ← hid', List.inj_on_of_nodup_map hnodup hx hy heq]
    · by_contra hother
      exact hapart x hx hitem id' q hold' hne' hnonneg' halone' (hid ▸ hother) hvalue
    · by_contra hother
      exact hapart y hy hitem' id q hold hne hnonneg halone (fun hsame => hother (hsame.symm.trans hid')) hvalue'
    · exact hnumbered.distinct id id' q hold hold' hne
  · intro id id' p p' q q' hp hp' hne hne' hlt hq hq'
    rcases h.cases hloaded hnumbered hq with ⟨x, hx, hitem, rfl, hvalue⟩ | ⟨hold, -, hnonneg, halone⟩ <;>
      rcases h.cases hloaded hnumbered hq' with ⟨y, hy, hitem', rfl, hvalue'⟩ | ⟨hold', -, hnonneg', halone'⟩
    · rcases hnumber x hx hitem p hp hne with ⟨hpos, hshift⟩
      rcases hnumber y hy hitem' p' hp' hne' with ⟨hpos', hshift'⟩
      have hless : shifted file.numbered.2.places p.toInt.toNat < shifted file.numbered.2.places p'.toInt.toNat :=
        shifted_lt (by omega)
      omega
    · rcases hnumber x hx hitem p hp hne with ⟨hpos, hshift⟩
      obtain rfl := Option.some.inj (hold'.symm.trans hp')
      have habove := halone'.above x.1 hitem _ (number_eq_some hitem hp hne) (by omega)
      omega
    · rcases hnumber y hy hitem' p' hp' hne' with ⟨hpos', hshift'⟩
      obtain rfl := Option.some.inj (hold.symm.trans hp)
      have hle := le_shifted file.numbered.2.places p'.toInt.toNat
      omega
    · obtain rfl := Option.some.inj (hold.symm.trans hp)
      obtain rfl := Option.some.inj (hold'.symm.trans hp')
      exact hlt
  · intro id id' t t' q q' ht ht' hlt hnone hq hq'
    rcases h.cases hloaded hnumbered hq' with ⟨y, hy, hitem', rfl, hvalue'⟩ | ⟨hold', hne', -, -⟩
    · have hfree := (number_eq_none hitem').2 hnone
      rcases h.cases hloaded hnumbered hq with ⟨x, hx, hitem, rfl, hvalue⟩ | ⟨hold, -, hnonneg, halone⟩
      · have hless := later_of_time hx hy ht ht' hlt hfree
        omega
      · have hless := halone.byTime y hy hfree t t' ht ht' hlt
        omega
    · exact absurd (Option.some.inj (hold'.symm.trans hnone)) hne'

/-- When the records can be written, the file is loaded. -/
theorem loadWallet_exists (file : OrderFile) (fWritesNext : Bool) :
    ∃ w, OrderWallet.loadWallet (fun _ => true) fWritesNext file = some w := by
  have hrun : ∀ (items : List OrderedItem) (s : OrderWallet × OrderMarks),
      ∃ s', items.foldlM (OrderWallet.reorderOne fun _ => true) s = some s' := by
    intro items
    induction items with
    | nil => exact fun s => ⟨s, rfl⟩
    | cons item items ih =>
      intro s
      have hstep : ∃ s₁, OrderWallet.reorderOne (fun _ => true) s item = some s₁ := by
        unfold OrderWallet.reorderOne
        dsimp only
        by_cases hsame : s.1.itemPos item ≠ -1 ∧ s.2.nOrderPosOff (s.1.itemPos item) = 0
        · rw [if_pos hsame]
          exact ⟨_, rfl⟩
        · rw [if_neg hsame]
          exact ⟨_, rfl⟩
      rcases hstep with ⟨s₁, hs₁⟩
      rw [List.foldlM_cons, hs₁]
      exact ih s₁
  rw [OrderWallet.loadWallet, OrderWallet.reorderTransactions,
    WalletRecords.listAccountCreditDebit_eq _ (Nat.zero_le _)]
  by_cases hany : file.fAnyUnordered = true
  · rw [if_pos hany]
    rcases hrun ((file.loaded.txByTime file.acentries).map Prod.snd) (file.loaded, ⟨0, []⟩) with ⟨s', hs'⟩
    change ∃ w, Option.bind (((file.loaded.txByTime file.acentries).map Prod.snd).foldlM
      (OrderWallet.reorderOne fun _ => true) (file.loaded, ⟨0, []⟩)) _ = some w
    rw [hs']
    exact ⟨_, rfl⟩
  · rw [if_neg hany]
    exact ⟨_, rfl⟩

/-! ## Two files -/

def entryAtTime (nTime nOrderPos : Int64) : CAccountingEntry :=
  ⟨[], 0, nTime, [], [], nOrderPos, 0⟩

/-- One entry of the account `a`, without a position. -/
def namedFile : OrderFile where
  tx := ∅
  records := ⟨[.acentry [0x61] 1 (entryAtTime 1 (-1))], List.pairwise_singleton _ _,
    List.forall_mem_singleton.2 (by decide : [(0x61 : UInt8)].length ≤ maxSize)⟩
  orderposnext := none

/-- Two entries without a position, and then one with the position `0`. -/
def crowdedFile : OrderFile where
  tx := ∅
  records :=
    ⟨[.acentry [] 1 (entryAtTime 1 (-1)), .acentry [] 2 (entryAtTime 2 (-1)), .acentry [] 3 (entryAtTime 3 0)],
      (by decide : List.Pairwise (fun a b => WalletRecord.order a < WalletRecord.order b) _),
      List.forall_mem_cons.2 ⟨Nat.zero_le _, List.forall_mem_cons.2 ⟨Nat.zero_le _,
        List.forall_mem_singleton.2 (Nat.zero_le _)⟩⟩⟩
  orderposnext := none

theorem namedFile_position : namedFile.position (.entry [0x61] 1) = some (-1) := by
  decide

theorem crowdedFile_position {id : RecordId} {p : Int64} (h : crowdedFile.position id = some p) :
    id = .entry [] 1 ∧ p = -1 ∨ id = .entry [] 2 ∧ p = -1 ∨ id = .entry [] 3 ∧ p = 0 := by
  cases id with
  | tx hash => cases h
  | entry strAccount nEntryNo =>
    rcases Option.map_eq_some_iff.1 h with ⟨entry, hentry, hpos⟩
    have hmem := WalletRecords.mem_of_entryAt hentry
    rw [← hpos]
    rcases List.mem_cons.1 hmem with heq | hmem
    · rcases WalletRecord.acentry.inj heq with ⟨rfl, rfl, rfl⟩
      exact .inl ⟨rfl, rfl⟩
    rcases List.mem_cons.1 hmem with heq | hmem
    · rcases WalletRecord.acentry.inj heq with ⟨rfl, rfl, rfl⟩
      exact .inr (.inl ⟨rfl, rfl⟩)
    · rcases WalletRecord.acentry.inj (List.mem_singleton.1 hmem) with ⟨rfl, rfl, rfl⟩
      exact .inr (.inr ⟨rfl, rfl⟩)

theorem crowdedFile_numbered : crowdedFile.Numbered := by
  refine ⟨fun id p h => ?_, fun id id' p h h' hne => ?_⟩
  · rcases crowdedFile_position h with ⟨-, rfl⟩ | ⟨-, rfl⟩ | ⟨-, rfl⟩
    · exact .inl rfl
    · exact .inl rfl
    · exact .inr (by decide)
  · rcases crowdedFile_position h with ⟨-, rfl⟩ | ⟨-, rfl⟩ | ⟨rfl, -⟩
    · exact absurd rfl hne
    · exact absurd rfl hne
    rcases crowdedFile_position h' with ⟨-, rfl⟩ | ⟨-, rfl⟩ | ⟨rfl, -⟩
    · exact absurd rfl hne
    · exact absurd rfl hne
    · rfl

theorem crowdedFile_byTime : crowdedFile.byTime = crowdedFile.acentries.map OrderedItem.entry := by
  have hkeys : crowdedFile.loaded.mapWallet.keys = [] := rfl
  rw [byTime, OrderWallet.txByTime, hkeys, List.mergeSort_nil]
  rfl

end OrderFile

end Dobbscoin
