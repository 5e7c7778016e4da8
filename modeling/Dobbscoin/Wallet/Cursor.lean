import Dobbscoin.Lib.ByteCodec
import Dobbscoin.Lib.RangeScan

/-!
# Cursors over the wallet file

`CDB::ReadAtCursor` of `db.cpp`: each step of a cursor is a query of its own, and other handles write in between.
-/

namespace Dobbscoin

open RangeScan

/-! ## The table -/

/-- BLOBs are compared as unsigned bytes. -/
def blobOrder (key : Bytes) : List Nat :=
  key.map UInt8.toNat

theorem blobOrder_injective : Function.Injective blobOrder :=
  List.map_injective_iff.2 fun _ _ => UInt8.toNat.inj

/-- `main(key BLOB PRIMARY KEY NOT NULL, value BLOB NOT NULL)`, in the order of the keys. -/
structure MainTable where
  rows : List (Bytes × Bytes)
  ordered : Ordered (fun row => blobOrder row.1) rows

namespace MainTable

/-- There is a record with this key. -/
def HasKey (table : MainTable) (key : Bytes) : Prop :=
  ∃ row ∈ table.rows, row.1 = key

/-- `WriteRaw`: `INSERT OR REPLACE`, or an `INSERT` that is refused when the key is there. -/
def writeRaw (table : MainTable) (key value : Bytes) (fOverwrite : Bool) : MainTable :=
  if !fOverwrite && table.rows.any fun row => row.1 = key then table
  else ⟨upsert (fun row => blobOrder row.1) (key, value) table.rows, table.ordered.upsert _⟩

/-- `EraseRaw`. -/
def eraseRaw (table : MainTable) (key : Bytes) : MainTable :=
  ⟨table.rows.filter fun row => row.1 ≠ key, table.ordered.sublist List.filter_sublist⟩

/-- Two records with one key are the same. -/
theorem value_unique (table : MainTable) {key value value' : Bytes} (h : (key, value) ∈ table.rows)
    (h' : (key, value') ∈ table.rows) : value = value' := by
  by_contra hne
  have hsymm : Std.Symm fun a b : Bytes × Bytes => blobOrder a.1 ≠ blobOrder b.1 := ⟨fun _ _ => Ne.symm⟩
  have hdistinct : table.rows.Pairwise fun a b => blobOrder a.1 ≠ blobOrder b.1 := table.ordered.imp fun h => h.ne
  exact hdistinct.forall h h' (fun heq => hne (congrArg Prod.snd heq)) rfl

end MainTable

/-! ## The cursor -/

structure CDBCursor where
  fHaveStart : Bool
  vchStartKey : Bytes
  fStarted : Bool
  vchLastKey : Bytes
  fDone : Bool

inductive CursorResult where
  | ok (row : Bytes × Bytes)
  | done
  | error
  deriving DecidableEq

/-- `GetCursor`. -/
def getCursor (pssStart : Option Bytes) : CDBCursor :=
  ⟨pssStart.isSome, pssStart.getD [], false, [], false⟩

namespace CDBCursor

/-- The condition of the query. -/
def after (c : CDBCursor) (key : List Nat) : Bool :=
  if c.fStarted then decide (blobOrder c.vchLastKey < key)
  else if c.fHaveStart then decide (blobOrder c.vchStartKey ≤ key)
  else true

/-- `ReadAtCursor`; `fails` is an error of the database. -/
def readAtCursor (c : CDBCursor) (table : MainTable) (fails : Bool) : CDBCursor × CursorResult :=
  if c.fDone then (c, .done)
  else if fails then (c, .error)
  else
    match table.rows.find? fun row => c.after (blobOrder row.1) with
    | some row => ({ c with vchLastKey := row.1, fStarted := true }, .ok row)
    | none => ({ c with fDone := true }, .done)

end CDBCursor

/-! ## CursorScan -/

/-- What happens while a cursor is open. -/
inductive CursorEvent where
  | write (key value : Bytes) (fOverwrite : Bool)
  | erase (key : Bytes)
  | read (fails : Bool)

/-- The results of the steps of a cursor, each with the table as it was then. -/
def scan : MainTable → CDBCursor → List CursorEvent → List (MainTable × CursorResult)
  | _, _, [] => []
  | table, c, .write key value fOverwrite :: events => scan (table.writeRaw key value fOverwrite) c events
  | table, c, .erase key :: events => scan (table.eraseRaw key) c events
  | table, c, .read fails :: events =>
    (table, (c.readAtCursor table fails).2) :: scan table (c.readAtCursor table fails).1 events

/-- The records that are returned. -/
def returned (reads : List (MainTable × CursorResult)) : List (Bytes × Bytes) :=
  reads.filterMap fun read =>
    match read.2 with
    | .ok row => some row
    | _ => none

/-- The keys of the table, and the one that is returned. -/
def liveSteps (reads : List (MainTable × CursorResult)) : List (Set (List Nat) × List Nat) :=
  reads.filterMap fun read =>
    match read.2 with
    | .ok row => some ({ k | ∃ row ∈ read.1.rows, blobOrder row.1 = k }, blobOrder row.1)
    | _ => none

theorem map_liveSteps (reads : List (MainTable × CursorResult)) :
    (liveSteps reads).map Prod.snd = (returned reads).map fun row => blobOrder row.1 := by
  induction reads with
  | nil => rfl
  | cons read reads ih =>
    rcases read with ⟨table, row | - | -⟩
    · exact congrArg (blobOrder row.1 :: ·) ih
    · exact ih
    · exact ih

theorem scan_of_done (table : MainTable) {c : CDBCursor} (h : c.fDone = true) (events : List CursorEvent) :
    ∀ read ∈ scan table c events, read.2 = .done := by
  induction events generalizing table with
  | nil => exact fun _ hin => absurd hin List.not_mem_nil
  | cons event events ih =>
    cases event with
    | write key value fOverwrite => exact ih _
    | erase key => exact ih _
    | read fails =>
      have hstep : c.readAtCursor table fails = (c, .done) := if_pos h
      intro read hin
      rw [scan, hstep] at hin
      rcases List.mem_cons.1 hin with rfl | hin
      · rfl
      · exact ih table read hin

/-- The steps of a cursor scan the table as it changes, until nothing comes after the last key. -/
structure CursorScan (c : CDBCursor) (reads front back : List (MainTable × CursorResult)) (last : List Nat → Prop) :
    Prop where
  split : reads = front ++ back
  live : LiveScan (fun k => c.after k = true) (liveSteps front) last
  open_front : ∀ read ∈ front, read.2 ≠ .done
  done_back : ∀ read ∈ back, read.2 = .done
  finished : ∀ read ∈ back.head?, ∀ row ∈ read.1.rows, ¬last (blobOrder row.1)
  mem : ∀ read ∈ front, ∀ row, read.2 = .ok row → row ∈ read.1.rows

theorem scan_cursorScan (table : MainTable) {c : CDBCursor} (h : c.fDone = false) (events : List CursorEvent) :
    ∃ front back last, CursorScan c (scan table c events) front back last := by
  induction events generalizing table c with
  | nil =>
    refine ⟨[], [], _, rfl, .nil _, ?_, ?_, ?_, ?_⟩
    · exact fun _ hin => absurd hin List.not_mem_nil
    · exact fun _ hin => absurd hin List.not_mem_nil
    · exact fun _ hin => nomatch hin
    · exact fun _ hin => absurd hin List.not_mem_nil
  | cons event events ih =>
    cases event with
    | write key value fOverwrite => exact ih _ h
    | erase key => exact ih _ h
    | read fails =>
      have hopen : ¬c.fDone = true := by
        rw [h]
        exact Bool.false_ne_true
      by_cases hfails : fails = true
      · -- An error leaves the cursor where it is.
        have hstep : c.readAtCursor table fails = (c, .error) := by
          rw [CDBCursor.readAtCursor, if_neg hopen, if_pos hfails]
        rcases ih table h with ⟨front, back, last, hs⟩
        rw [scan, hstep]
        refine ⟨(table, .error) :: front, back, last, congrArg _ hs.split, hs.live, ?_, hs.done_back, hs.finished, ?_⟩
        · exact List.forall_mem_cons.2 ⟨fun heq => (nomatch heq), hs.open_front⟩
        · exact List.forall_mem_cons.2 ⟨fun _ heq => (nomatch heq), hs.mem⟩
      · cases hfind : table.rows.find? fun row => c.after (blobOrder row.1) with
        | some row =>
          have hstep : c.readAtCursor table fails = ({ c with vchLastKey := row.1, fStarted := true }, .ok row) := by
            rw [CDBCursor.readAtCursor, if_neg hopen, if_neg hfails, hfind]
          rcases ih table (c := { c with vchLastKey := row.1, fStarted := true }) h with ⟨front, back, last, hs⟩
          have hafter : (fun k => ({ c with vchLastKey := row.1, fStarted := true } : CDBCursor).after k = true) =
              fun k => blobOrder row.1 < k := by
            funext k
            exact propext decide_eq_true_iff
          have hlive := hs.live
          rw [hafter] at hlive
          rw [scan, hstep]
          refine ⟨(table, .ok row) :: front, back, last, congrArg _ hs.split,
            .cons (table.ordered.isLeast_of_find? hfind) hlive, ?_, hs.done_back, hs.finished, ?_⟩
          · exact List.forall_mem_cons.2 ⟨fun heq => (nomatch heq), hs.open_front⟩
          · refine List.forall_mem_cons.2 ⟨fun row' heq => ?_, hs.mem⟩
            cases heq
            exact List.mem_of_find?_eq_some hfind
        | none =>
          have hstep : c.readAtCursor table fails = ({ c with fDone := true }, .done) := by
            rw [CDBCursor.readAtCursor, if_neg hopen, if_neg hfails, hfind]
          have hback := scan_of_done table (c := { c with fDone := true }) rfl events
          rw [scan, hstep]
          refine ⟨[], (table, .done) :: scan table { c with fDone := true } events, _, rfl, .nil _, ?_, ?_, ?_, ?_⟩
          · exact fun _ hin => absurd hin List.not_mem_nil
          · exact List.forall_mem_cons.2 ⟨rfl, hback⟩
          · intro read hread row hin
            cases hread
            exact List.find?_eq_none.1 hfind row hin
          · exact fun _ hin => absurd hin List.not_mem_nil

namespace CursorScan

variable {c : CDBCursor} {reads front back : List (MainTable × CursorResult)} {last : List Nat → Prop}

theorem liveSteps_tables {key : Bytes} (hkey : ∀ read ∈ front, read.1.HasKey key) :
    ∀ step ∈ liveSteps front, blobOrder key ∈ step.1 := by
  intro step hin
  rcases List.mem_filterMap.1 hin with ⟨⟨table, result⟩, hread, hstep⟩
  cases result with
  | ok row =>
    obtain rfl := Option.some.inj hstep
    rcases hkey _ hread with ⟨row', hrow', rfl⟩
    exact ⟨row', hrow', rfl⟩
  | done => cases hstep
  | error => cases hstep

/-- The records are returned in the order of their keys. -/
theorem ordered (h : CursorScan c reads front back last) :
    Ordered (fun row : Bytes × Bytes => blobOrder row.1) (returned front) := by
  have hpair := h.live.pairwise_lt
  rw [map_liveSteps] at hpair
  exact List.pairwise_map.1 hpair

theorem returned_eq (h : CursorScan c reads front back last) : returned reads = returned front := by
  have hback : returned back = [] := List.filterMap_eq_nil_iff.2 fun read hin => by
    rw [h.done_back read hin]
  rw [h.split, returned, List.filterMap_append]
  exact (congrArg _ hback).trans (List.append_nil _)

theorem after_of_returned (h : CursorScan c reads front back last)
    (hup : ∀ a b, c.after a = true → a < b → c.after b = true) {row : Bytes × Bytes} (hin : row ∈ returned reads) : c.after (blobOrder row.1) = true := by
  rw [h.returned_eq] at hin
  have hmem : blobOrder row.1 ∈ (liveSteps front).map Prod.snd := by
    rw [map_liveSteps]
    exact List.mem_map_of_mem hin
  rcases List.mem_map.1 hmem with ⟨step, hstep, heq⟩
  rw [← heq]
  exact h.live.after_of_mem hup step hstep

theorem mem_reads (h : CursorScan c reads front back last) {read : MainTable × CursorResult} (hin : read ∈ reads)
    {row : Bytes × Bytes} (hrow : read.2 = .ok row) : row ∈ read.1.rows := by
  rw [h.split] at hin
  rcases List.mem_append.1 hin with hin | hin
  · exact h.mem read hin row hrow
  · cases hrow.symm.trans (h.done_back read hin)

/-- Where the scan says that it is done, the steps that returned something are over. -/
theorem front_of_done (h : CursorScan c reads front back last) {before later : List (MainTable × CursorResult)}
    {t : MainTable} (hreads : reads = before ++ (t, .done) :: later) :
    ∃ more, before = front ++ more ∧ back = more ++ (t, .done) :: later := by
  have hsplit := h.split.symm.trans hreads
  rcases List.append_eq_append_iff.1 hsplit with ⟨more, hbefore, hback⟩ | ⟨more, hfront, hlater⟩
  · exact ⟨more, hbefore, hback⟩
  · cases more with
    | nil => exact ⟨[], by rw [hfront, List.append_nil, List.append_nil], hlater.symm⟩
    | cons read more =>
      obtain rfl := (List.cons.inj hlater).1
      exact absurd rfl (h.open_front (t, .done) (hfront ▸ List.mem_append_right _ List.mem_cons_self))

/-- A key that is there at every step is returned before the scan is done. -/
theorem exists_returned (h : CursorScan c reads front back last) {before later : List (MainTable × CursorResult)}
    {t : MainTable} (hreads : reads = before ++ (t, .done) :: later) {key : Bytes} (hafter : c.after (blobOrder key) = true)
    (hkey : ∀ read ∈ before ++ [(t, .done)], read.1.HasKey key) :
    ∃ value, ((returned before).filter fun row => row.1 = key) = [(key, value)] := by
  rcases h.front_of_done hreads with ⟨more, rfl, hback⟩
  have hmore : returned more = [] := List.filterMap_eq_nil_iff.2 fun read hin => by
    rw [h.done_back read (hback ▸ List.mem_append_left _ hin)]
  have hreturned : returned (front ++ more) = returned front := by
    rw [returned, List.filterMap_append]
    exact (congrArg _ hmore).trans (List.append_nil _)
  have hfront : ∀ read ∈ front, read.1.HasKey key := fun read hin =>
    hkey read (List.mem_append_left _ (List.mem_append_left _ hin))
  have hnotLast : ¬last (blobOrder key) := by
    -- The first step that was done saw no key after the last one.
    have hin : ∀ read ∈ back.head?, read ∈ front ++ more ++ [(t, .done)] := by
      intro read hread
      rw [List.append_assoc]
      refine List.mem_append_right _ ?_
      rw [hback] at hread
      cases more with
      | nil => exact Option.some.inj hread ▸ List.mem_cons_self
      | cons first more => exact Option.some.inj hread ▸ List.mem_cons_self
    cases hhead : back.head? with
    | none =>
      rw [List.head?_eq_none_iff.1 hhead] at hback
      exact absurd hback.symm (List.append_ne_nil_of_right_ne_nil _ (List.cons_ne_nil _ _))
    | some read =>
      rcases hkey read (hin read hhead) with ⟨row, hrow, rfl⟩
      exact h.finished read hhead row hrow
  rcases h.live.found_or_last hafter (liveSteps_tables hfront) with hfound | hlast
  · rw [map_liveSteps] at hfound
    rcases List.mem_map.1 hfound with ⟨row, hin, heq⟩
    obtain rfl := blobOrder_injective heq
    refine ⟨row.2, ?_⟩
    rw [hreturned, ← h.ordered.filter_key hin]
    exact List.filter_congr fun row' _ => decide_eq_decide.2 blobOrder_injective.eq_iff.symm
  · exact absurd hlast hnotLast

end CursorScan

theorem after_getCursor (pssStart : Option Bytes) (key : List Nat) :
    (getCursor pssStart).after key = true ↔ ∀ start ∈ pssStart, blobOrder start ≤ key := by
  cases pssStart with
  | none => exact ⟨fun _ _ hin => (nomatch hin), fun _ => rfl⟩
  | some start =>
    calc (getCursor (some start)).after key = true
        ↔ blobOrder start ≤ key := decide_eq_true_iff
      _ ↔ ∀ start' ∈ some start, blobOrder start' ≤ key :=
        ⟨fun h _ hin => Option.some.inj hin ▸ h, fun h => h start rfl⟩

end Dobbscoin
