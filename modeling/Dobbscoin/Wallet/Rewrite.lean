import Dobbscoin.Lib.Journal
import Dobbscoin.Net.AddrSerialize
import Dobbscoin.Wallet.Cursor

/-!
# Rewriting the wallet file

`CDB::Rewrite` of `db.cpp`: the records are read, a fresh file is written beside the wallet, read back and put in its
place.  Any step may fail, and the program may stop between any two operations on files.
-/

namespace Dobbscoin

open ByteCodec RangeScan

variable {vKeep : List (Bytes × Bytes)} {table : MainTable} {s : RewriteState}

/-! ## Which records are kept -/

/-- `strncmp(a, b, n) == 0`. -/
def strncmpEqual : Nat → Bytes → Bytes → Bool
  | n + 1, a :: as, b :: bs => decide (a = b) && (decide (a = 0) || strncmpEqual n as bs)
  | _, _, _ => true

/-- `"\x07version"`. -/
def versionKey : Bytes := [0x07, 0x76, 0x65, 0x72, 0x73, 0x69, 0x6f, 0x6e]

/-- `CLIENT_VERSION` as it is written. -/
def versionValue : Bytes :=
  (twos 4).put clientVersion

/-- The loop over `vRecords`; `pszSkip` is a C string. -/
def keepRecords (pszSkip : Option Bytes) : List (Bytes × Bytes) → List (Bytes × Bytes)
  | [] => []
  | (key, value) :: vRecords =>
    if pszSkip.any fun skip => strncmpEqual (min key.length (cStr skip).length) key (cStr skip) then
      keepRecords pszSkip vRecords
    else if 8 ≤ key.length ∧ key.take 8 = versionKey then (key, versionValue) :: keepRecords pszSkip vRecords
    else (key, value) :: keepRecords pszSkip vRecords

/-! ## Files -/

/-- What a wallet path holds: a wallet database, or something that cannot be read as one. -/
inductive FileContent where
  | database (table : MainTable)
  | other

/-- The wallet path, `.rewrite` and `.rewrite-journal` beside it, and the registry of open files. -/
structure RewriteState where
  wallet : FileContent
  pathRes : Option FileContent
  journal : Bool
  mapDb : Bool
  mapFileUseCount : Option Nat

/-- The operations between which the program may stop. -/
inductive FileAction where
  | openFile
  | closeDb
  | setRes (content : Option FileContent)
  | setJournal (present : Bool)
  /-- The commit of a transaction on `.rewrite`. -/
  | commitRes (content : FileContent)
  | rename
  /-- The commit of a transaction on an in-memory database. -/
  | commitMock (table : MainTable)

def FileAction.apply (s : RewriteState) : FileAction → RewriteState
  | .openFile => { s with mapDb := true }
  | .closeDb => { s with mapDb := false, mapFileUseCount := none }
  | .setRes content => { s with pathRes := content }
  | .setJournal present => { s with journal := present }
  | .commitRes content => { s with pathRes := some content, journal := false }
  | .rename => { s with wallet := s.pathRes.getD s.wallet, pathRes := none }
  | .commitMock table => { s with wallet := .database table }

/-- The steps that fail. -/
structure RewriteFaults where
  openFile : Bool
  readAll : Bool
  removeStale : Bool
  removeStaleJournal : Bool
  /-- The leftover cannot be examined, which counts as absent. -/
  existsUnreadable : Bool
  openRes : Bool
  /-- What the database makes of `.rewrite` if a journal was left beside it. -/
  playback : FileContent
  beginTxn : Bool
  prepare : Bool
  step : Nat → Bool
  /-- What `.rewrite` holds after a commit that fails. -/
  commit : Option FileContent
  close : Bool
  openVerify : Bool
  readVerify : Bool
  integrity : Bool
  rename : Bool
  removeRes : Bool

/-! ## Writing and checking the new file -/

/-- The loop of `INSERT`s; `i` is the number of the first record. -/
def insertRecords (step : Nat → Bool) : Nat → MainTable → List (Bytes × Bytes) → Option MainTable
  | _, table, [] => some table
  | i, table, (key, value) :: vRecords =>
    if step i || table.rows.any fun row => row.1 = key then none
    else insertRecords step (i + 1) (table.writeRaw key value false) vRecords

def MainTable.empty : MainTable :=
  ⟨[], List.Pairwise.nil⟩

/-- `OpenStandalone(path, true, false, strError)`: a file that is not there is created. -/
def openRes (F : RewriteFaults) (s : RewriteState) : Option MainTable :=
  if F.openRes then none
  else
    match (if s.journal then some F.playback else s.pathRes) with
    | none => some .empty
    | some (.database table) => some table
    | some .other => none

/-- `CreateSQLiteWalletFile`: what is done to the files, and whether it succeeds. -/
def createSQLiteWalletFile (F : RewriteFaults) (s : RewriteState) (vRecords : List (Bytes × Bytes)) :
    List FileAction × Bool :=
  let removed :=
    (if F.removeStale then [] else [.setRes none]) ++ (if F.removeStaleJournal then [] else [.setJournal false])
  let s' := Journal.run FileAction.apply s removed
  if s'.pathRes.isSome && !F.existsUnreadable then (removed, false)
  else
    match openRes F s' with
    | none => (removed, false)
    | some table =>
      let opened := removed ++ [.commitRes (.database table)]
      if F.beginTxn || F.prepare then (opened, false)
      else
        match insertRecords F.step 0 table vRecords with
        | none => (opened ++ [.setJournal true, .setJournal false], false)
        | some table' =>
          match F.commit with
          | none => (opened ++ [.setJournal true, .commitRes (.database table')], !F.close)
          | some content => (opened ++ [.setJournal true, .commitRes content], false)

/-- The order of `std::pair`. -/
def recordLe (a b : Bytes × Bytes) : Bool :=
  decide (blobOrder a.1 < blobOrder b.1 ∨ a.1 = b.1 ∧ blobOrder a.2 ≤ blobOrder b.2)

/-- `VerifySQLiteWalletFile`. -/
def verifySQLiteWalletFile (F : RewriteFaults) (s : RewriteState) (vExpected : List (Bytes × Bytes)) : Bool :=
  match s.pathRes with
  | some (.database table) =>
    !F.openVerify && !F.readVerify && !F.integrity && decide (table.rows = vExpected.mergeSort recordLe)
  | _ => false

/-! ## Rewrite -/

inductive RewriteResult where
  /-- Others use the file. -/
  | waits
  | threw
  | returned (fSuccess : Bool)
  deriving DecidableEq

/-- The fresh file is written, checked and swapped in. -/
def swapFile (F : RewriteFaults) (s : RewriteState) (vKeep : List (Bytes × Bytes)) : List FileAction × Bool :=
  let created := createSQLiteWalletFile F (FileAction.closeDb.apply s) vKeep
  let s' := Journal.run FileAction.apply s (.closeDb :: created.1)
  let cleanup : List FileAction := if F.removeRes then [] else [.setRes none]
  if created.2 && verifySQLiteWalletFile F s' vKeep && !F.rename then (.closeDb :: created.1 ++ [.rename], true)
  else (.closeDb :: created.1 ++ cleanup, false)

/-- The in-memory database gets its new contents in one transaction. -/
def replaceMock (F : RewriteFaults) (vKeep : List (Bytes × Bytes)) : List FileAction × Bool :=
  if F.beginTxn || F.prepare || F.commit.isSome then ([], false)
  else
    match insertRecords F.step 0 .empty vKeep with
    | some table => ([.commitMock table], true)
    | none => ([], false)

/-- `CDBEnv::OpenFile`. -/
def openFileFails (F : RewriteFaults) (s : RewriteState) : Bool :=
  !s.mapDb && (F.openFile || match s.wallet with | .database _ => false | .other => true)

/-- `CDB::Rewrite`. -/
def rewrite (F : RewriteFaults) (fMock : Bool) (s : RewriteState) (pszSkip : Option Bytes) :
    List FileAction × RewriteResult :=
  if s.mapFileUseCount.any (· ≠ 0) then ([], .waits)
  else if openFileFails F s then ([], .threw)
  else
    match s.wallet with
    | .database table =>
      if F.readAll then ([.openFile], .returned false)
      else
        let vKeep := keepRecords pszSkip table.rows
        let swapped := if fMock then replaceMock F vKeep else swapFile F (FileAction.openFile.apply s) vKeep
        (.openFile :: swapped.1, .returned swapped.2)
    | .other => ([.openFile], .returned false)

/-! ## What is kept -/

/-- The key neither starts with `pszSkip` nor is a beginning of it. -/
def keepsKey (pszSkip : Option Bytes) (key : Bytes) : Bool :=
  pszSkip.all fun skip => !(key.isPrefixOf (cStr skip) || (cStr skip).isPrefixOf key)

/-- A record whose key starts with the string `version` gets the version of this program. -/
def renewVersion (row : Bytes × Bytes) : Bytes × Bytes :=
  if versionKey.isPrefixOf row.1 then (row.1, versionValue) else row

/-- The records of the new file. -/
def rewritten (pszSkip : Option Bytes) (rows : List (Bytes × Bytes)) : List (Bytes × Bytes) :=
  (rows.filter fun row => keepsKey pszSkip row.1).map renewVersion

theorem strncmpEqual_min (key : Bytes) {skip : Bytes} (hskip : (0 : UInt8) ∉ skip) :
    strncmpEqual (min key.length skip.length) key skip = (key.isPrefixOf skip || skip.isPrefixOf key) := by
  induction key generalizing skip with
  | nil =>
    rw [List.length_nil, Nat.zero_min]
    cases skip <;> rfl
  | cons a key ih =>
    cases skip with
    | nil => rfl
    | cons b skip =>
      have hb : b ≠ 0 := fun heq => hskip (heq ▸ List.mem_cons_self)
      have hrest := ih fun hin => hskip (List.mem_cons_of_mem b hin)
      rw [List.length_cons, List.length_cons, Nat.succ_min_succ, strncmpEqual, hrest, List.isPrefixOf_cons_cons,
        List.isPrefixOf_cons_cons]
      by_cases heq : a = b
      · subst heq
        simp [hb]
      · have hab : (a == b) = false := beq_eq_false_iff_ne.2 heq
        have hba : (b == a) = false := beq_eq_false_iff_ne.2 (Ne.symm heq)
        rw [decide_eq_false heq, hab, hba]
        rfl

theorem zero_not_mem_cStr (str : Bytes) : (0 : UInt8) ∉ cStr str := by
  intro hin
  rw [cStr] at hin
  have hne := List.mem_takeWhile_imp hin
  exact of_decide_eq_true hne rfl

theorem isPrefixOf_versionKey (key : Bytes) :
    versionKey.isPrefixOf key = true ↔ 8 ≤ key.length ∧ key.take 8 = versionKey := by
  rw [List.isPrefixOf_iff_prefix, List.prefix_iff_eq_take]
  constructor
  · intro h
    have hlen := congrArg List.length h
    rw [List.length_take] at hlen
    exact ⟨min_eq_left_iff.1 hlen.symm, h.symm⟩
  · exact fun h => h.2.symm

/-- The loop over the records keeps what it should. -/
theorem keepRecords_eq (pszSkip : Option Bytes) (rows : List (Bytes × Bytes)) :
    keepRecords pszSkip rows = rewritten pszSkip rows := by
  induction rows with
  | nil => rfl
  | cons row rows ih =>
    rcases row with ⟨key, value⟩
    have hkeeps : (pszSkip.any fun skip => strncmpEqual (min key.length (cStr skip).length) key (cStr skip)) =
        !keepsKey pszSkip key := by
      cases pszSkip with
      | none => rfl
      | some skip =>
        calc strncmpEqual (min key.length (cStr skip).length) key (cStr skip)
            = (key.isPrefixOf (cStr skip) || (cStr skip).isPrefixOf key) :=
              strncmpEqual_min key (zero_not_mem_cStr skip)
          _ = !keepsKey (some skip) key := (Bool.not_not _).symm
    rw [keepRecords, hkeeps, ih, rewritten, rewritten]
    cases hkeep : keepsKey pszSkip key with
    | false => rw [List.filter_cons_of_neg (by rw [hkeep]; exact Bool.false_ne_true), Bool.not_false, if_pos rfl]
    | true =>
      rw [List.filter_cons_of_pos (by rw [hkeep]), List.map_cons, Bool.not_true, if_neg Bool.false_ne_true,
        renewVersion]
      by_cases hversion : 8 ≤ key.length ∧ key.take 8 = versionKey
      · rw [if_pos hversion, if_pos ((isPrefixOf_versionKey key).2 hversion)]
      · rw [if_neg hversion, if_neg fun h => hversion ((isPrefixOf_versionKey key).1 h)]

theorem renewVersion_fst (row : Bytes × Bytes) : (renewVersion row).1 = row.1 := by
  rw [renewVersion]
  split <;> rfl

theorem ordered_rewritten (pszSkip : Option Bytes) (table : MainTable) :
    Ordered (fun row => blobOrder row.1) (rewritten pszSkip table.rows) := by
  refine List.pairwise_map.2 ((table.ordered.sublist List.filter_sublist).imp fun h => ?_)
  dsimp only at h ⊢
  rw [renewVersion_fst, renewVersion_fst]
  exact h

/-- The records are in the order in which they are compared. -/
theorem mergeSort_rewritten (pszSkip : Option Bytes) (table : MainTable) :
    (rewritten pszSkip table.rows).mergeSort recordLe = rewritten pszSkip table.rows :=
  List.mergeSort_of_pairwise ((ordered_rewritten pszSkip table).imp fun h => decide_eq_true (Or.inl h))

/-! ## Beside the wallet -/

/-- The action leaves the wallet path alone. -/
def FileAction.Beside : FileAction → Prop
  | .rename | .commitMock _ => False
  | _ => True

theorem FileAction.Beside.wallet {action : FileAction} (h : action.Beside) (s : RewriteState) :
    (action.apply s).wallet = s.wallet := by
  cases action with
  | rename => exact h.elim
  | commitMock table => exact h.elim
  | _ => rfl

/-- The wallet path holds the same content at every point. -/
theorem always_wallet (s : RewriteState) {acts : List FileAction} (h : ∀ action ∈ acts, action.Beside) :
    Journal.Always FileAction.apply (fun s' => s'.wallet = s.wallet) s acts :=
  Journal.always_of_step rfl fun s' action hin hs' => ((h action hin).wallet s').trans hs'

theorem createSQLiteWalletFile_beside (F : RewriteFaults) (s : RewriteState) (vRecords : List (Bytes × Bytes)) :
    ∀ action ∈ (createSQLiteWalletFile F s vRecords).1, action.Beside := by
  have hremoved : ∀ action ∈ (if F.removeStale then [] else [FileAction.setRes none]) ++
      (if F.removeStaleJournal then [] else [.setJournal false]), action.Beside := by
    cases F.removeStale <;> cases F.removeStaleJournal <;> simp [FileAction.Beside]
  rw [createSQLiteWalletFile]
  generalize (if F.removeStale then [] else [FileAction.setRes none]) ++
    (if F.removeStaleJournal then [] else [.setJournal false]) = removed at hremoved
  have hmore : ∀ more : List FileAction, (∀ action ∈ more, action.Beside) →
      ∀ action ∈ removed ++ more, action.Beside := fun more h action hin =>
    (List.mem_append.1 hin).elim (hremoved action) (h action)
  dsimp only
  split
  · exact hremoved
  · cases openRes F (Journal.run FileAction.apply s removed) with
    | none => exact hremoved
    | some table =>
      dsimp only
      split
      · exact hmore _ (by simp [FileAction.Beside])
      · cases insertRecords F.step 0 table vRecords with
        | none =>
          rw [List.append_assoc]
          exact hmore _ (by simp [FileAction.Beside])
        | some table' =>
          cases F.commit with
          | none =>
            dsimp only
            rw [List.append_assoc]
            exact hmore [.commitRes (.database table), .setJournal true, .commitRes (.database table')]
              (by simp [FileAction.Beside])
          | some content =>
            dsimp only
            rw [List.append_assoc]
            exact hmore [.commitRes (.database table), .setJournal true, .commitRes content]
              (by simp [FileAction.Beside])

/-- A file that passed the check holds the expected records. -/
theorem verifySQLiteWalletFile_spec {F : RewriteFaults} {vExpected : List (Bytes × Bytes)}
    (h : verifySQLiteWalletFile F s vExpected = true) :
    ∃ table, s.pathRes = some (.database table) ∧ table.rows = vExpected.mergeSort recordLe := by
  rw [verifySQLiteWalletFile] at h
  split at h
  · next table hres =>
    rw [Bool.and_eq_true] at h
    exact ⟨table, hres, of_decide_eq_true h.2⟩
  · cases h

/-! ## Swapping the file in -/

/-- The wallet path holds these records. -/
def RewriteState.Wallet (s : RewriteState) (rows : List (Bytes × Bytes)) : Prop :=
  ∃ table, s.wallet = .database table ∧ table.rows = rows

/-- At every point the wallet holds the old records or the new ones; it holds the new ones if the step succeeds, and the
old file if it fails. -/
structure Swaps (s : RewriteState) (vKeep : List (Bytes × Bytes)) (swapped : List FileAction × Bool) : Prop where
  always : Journal.Always FileAction.apply (fun s' => s'.wallet = s.wallet ∨ s'.Wallet vKeep) s swapped.1
  succeeds : swapped.2 = true → (Journal.run FileAction.apply s swapped.1).Wallet vKeep
  fails : swapped.2 = false → (Journal.run FileAction.apply s swapped.1).wallet = s.wallet

/-- Nothing but what is beside the wallet is touched. -/
theorem Swaps.of_beside (s : RewriteState) (vKeep : List (Bytes × Bytes)) {acts : List FileAction}
    (h : ∀ action ∈ acts, action.Beside) : Swaps s vKeep (acts, false) where
  always := (always_wallet s h).imp fun _ => Or.inl
  succeeds := fun hok => nomatch hok
  fails := fun _ => (always_wallet s h).last

theorem swapFile_swaps (F : RewriteFaults) (s : RewriteState)
    (hsorted : vKeep.mergeSort recordLe = vKeep) : Swaps s vKeep (swapFile F s vKeep) := by
  have hcreated := createSQLiteWalletFile_beside F (FileAction.closeDb.apply s) vKeep
  rw [swapFile]
  generalize createSQLiteWalletFile F (FileAction.closeDb.apply s) vKeep = created at hcreated ⊢
  have hbeside : ∀ action ∈ FileAction.closeDb :: created.1, action.Beside :=
    List.forall_mem_cons.2 ⟨trivial, hcreated⟩
  split
  · next hok =>
    rw [Bool.and_eq_true, Bool.and_eq_true] at hok
    rcases verifySQLiteWalletFile_spec hok.1.2 with ⟨table, hres, hrows⟩
    rw [hsorted] at hrows
    -- The file that is renamed has been read back.
    have hwallet : (Journal.run FileAction.apply s (.closeDb :: created.1 ++ [.rename])).Wallet vKeep := by
      refine ⟨table, ?_, hrows⟩
      rw [Journal.run_append]
      exact congrArg (Option.getD · _) hres
    refine ⟨?_, fun _ => hwallet, fun hfalse => nomatch hfalse⟩
    have hbefore := always_wallet s hbeside
    refine Journal.Always.append (hbefore.imp fun _ => Or.inl) ⟨Or.inl hbefore.last, Or.inr ?_⟩
    rw [Journal.run_append] at hwallet
    exact hwallet
  · refine Swaps.of_beside s vKeep fun action hin => ?_
    rcases List.mem_append.1 hin with hin | hin
    · exact hbeside action hin
    · cases hremove : F.removeRes with
      | true =>
        rw [hremove] at hin
        cases hin
      | false =>
        rw [hremove] at hin
        rw [List.mem_singleton.1 hin]
        trivial

/-! ## The in-memory database -/

theorem writeRaw_last {key : Bytes} (value : Bytes)
    (h : ∀ row ∈ table.rows, blobOrder row.1 < blobOrder key) :
    (table.rows.any fun row => row.1 = key) = false ∧
      (table.writeRaw key value false).rows = table.rows ++ [(key, value)] := by
  have hnew : (table.rows.any fun row => row.1 = key) = false := by
    refine List.any_eq_false.2 fun row hin heq => ?_
    exact (h row hin).ne (congrArg blobOrder (of_decide_eq_true heq))
  refine ⟨hnew, ?_⟩
  rw [MainTable.writeRaw, hnew]
  exact upsert_of_last h

/-- Records are inserted in their order behind those that are there. -/
theorem insertRecords_eq (step : Nat → Bool) (i : Nat) (table : MainTable) {vRecords : List (Bytes × Bytes)}
    (hordered : Ordered (fun row => blobOrder row.1) (table.rows ++ vRecords)) :
    (∀ table', insertRecords step i table vRecords = some table' → table'.rows = table.rows ++ vRecords) ∧
      ((∀ j, step j = false) → (insertRecords step i table vRecords).isSome = true) := by
  induction vRecords generalizing i table with
  | nil =>
    refine ⟨fun table' h => ?_, fun _ => rfl⟩
    rw [← Option.some.inj h, List.append_nil]
  | cons row vRecords ih =>
    rcases row with ⟨key, value⟩
    have hlast : ∀ row ∈ table.rows, blobOrder row.1 < blobOrder key := fun row hin =>
      (List.pairwise_append.1 hordered).2.2 row hin (key, value) List.mem_cons_self
    rcases writeRaw_last value hlast with ⟨hnew, hrows⟩
    have hordered' : Ordered (fun row => blobOrder row.1) ((table.writeRaw key value false).rows ++ vRecords) := by
      rw [hrows, List.append_assoc]
      exact hordered
    have hrest := ih (i + 1) (table.writeRaw key value false) hordered'
    rw [insertRecords, hnew, Bool.or_false]
    refine ⟨fun table' h => ?_, fun hstep => ?_⟩
    · by_cases hfails : step i = true
      · rw [if_pos hfails] at h
        cases h
      · rw [if_neg hfails] at h
        rw [hrest.1 table' h, hrows, List.append_assoc]
        rfl
    · rw [hstep i, if_neg Bool.false_ne_true]
      exact hrest.2 hstep

theorem replaceMock_swaps (F : RewriteFaults) (s : RewriteState)
    (hordered : Ordered (fun row => blobOrder row.1) vKeep) : Swaps s vKeep (replaceMock F vKeep) := by
  have hnothing : Swaps s vKeep ([], false) := .of_beside s vKeep fun _ hin => absurd hin List.not_mem_nil
  rw [replaceMock]
  split
  · exact hnothing
  · cases hinsert : insertRecords F.step 0 .empty vKeep with
    | none => exact hnothing
    | some table =>
      have hrows : table.rows = vKeep := (insertRecords_eq F.step 0 .empty hordered).1 table hinsert
      have hwallet : (Journal.run FileAction.apply s [.commitMock table]).Wallet vKeep := ⟨table, rfl, hrows⟩
      exact ⟨⟨Or.inl rfl, Or.inr hwallet⟩, fun _ => hwallet, fun hfalse => nomatch hfalse⟩

/-! ## The whole call -/

theorem rewrite_swaps (F : RewriteFaults) (fMock : Bool)
    (hs : s.wallet = .database table) (pszSkip : Option Bytes) :
    Swaps s (rewritten pszSkip table.rows)
      ((rewrite F fMock s pszSkip).1, decide ((rewrite F fMock s pszSkip).2 = .returned true)) := by
  have hnothing : Swaps s (rewritten pszSkip table.rows) ([], false) :=
    .of_beside s _ fun _ hin => absurd hin List.not_mem_nil
  rw [rewrite]
  split
  · exact hnothing
  · split
    · exact hnothing
    · rw [hs]
      dsimp only
      split
      · exact Swaps.of_beside s _ fun action hin => by
          rw [List.mem_singleton.1 hin]
          trivial
      · rw [keepRecords_eq]
        have hswapped : Swaps (FileAction.openFile.apply s) (rewritten pszSkip table.rows)
            (if fMock then replaceMock F (rewritten pszSkip table.rows)
              else swapFile F (FileAction.openFile.apply s) (rewritten pszSkip table.rows)) := by
          cases fMock with
          | true => exact replaceMock_swaps F _ (ordered_rewritten pszSkip table)
          | false => exact swapFile_swaps F _ (mergeSort_rewritten pszSkip table)
        generalize (if fMock then replaceMock F (rewritten pszSkip table.rows)
          else swapFile F (FileAction.openFile.apply s) (rewritten pszSkip table.rows)) = swapped at hswapped ⊢
        -- Opening the file does not change what it holds.
        refine ⟨⟨Or.inl rfl, hswapped.always⟩, fun hok => hswapped.succeeds ?_, fun hfails => hswapped.fails ?_⟩
        · exact (RewriteResult.returned.inj (of_decide_eq_true hok))
        · cases hresult : swapped.2 with
          | false => rfl
          | true =>
            rw [hresult] at hfails
            cases hfails

theorem openFileFails_of_database {F : RewriteFaults} (hopens : F.openFile = false)
    (hs : s.wallet = .database table) : openFileFails F s = false := by
  rw [openFileFails, hopens, hs]
  cases s.mapDb <;> rfl

/-- The string begins with a serialized string. -/
def StartsWithString (key : Bytes) : Prop :=
  ∃ str rest, scriptCodec.Fits str ∧ key = scriptCodec.put str ++ rest

/-- No key is a proper beginning of a serialized string. -/
theorem rewritten_of_string {pszSkip : Option Bytes} {rows : List (Bytes × Bytes)}
    (hskip : ∀ skip ∈ pszSkip, ∃ str, scriptCodec.Fits str ∧ cStr skip = scriptCodec.put str)
    (hrows : ∀ row ∈ rows, StartsWithString row.1) :
    rewritten pszSkip rows =
      (rows.filter fun row => pszSkip.all fun skip => !(cStr skip).isPrefixOf row.1).map renewVersion := by
  rw [rewritten]
  refine congrArg _ (List.filter_congr fun row hin => ?_)
  cases pszSkip with
  | none => rfl
  | some skip =>
    rcases hskip skip rfl with ⟨str, hfits, hstr⟩
    rcases hrows row hin with ⟨str', rest, hfits', hkey⟩
    cases hbegins : row.1.isPrefixOf (cStr skip) with
    | false =>
      rw [keepsKey, Option.all_some, hbegins, Bool.false_or, Option.all_some]
    | true =>
      rcases List.isPrefixOf_iff_prefix.1 hbegins with ⟨more, hmore⟩
      have heq : scriptCodec.put str' ++ (rest ++ more) = scriptCodec.put str ++ [] := by
        rw [← List.append_assoc, ← hkey, hmore, hstr, List.append_nil]
      have hnil := (scriptCodec.put_append_inj hfits' hfits heq).2
      have hsame : row.1 = cStr skip := by
        rw [← hmore, (List.append_eq_nil_iff.1 hnil).2, List.append_nil]
      rw [keepsKey, Option.all_some, hsame, Bool.or_self, Option.all_some]

/-- At every point of a rewrite the wallet holds its old records or the rewritten ones: the latter if the call succeeds,
and the old file, which can be opened, if it does not. -/
theorem rewrite_atomic (F : RewriteFaults) (fMock : Bool) (table : MainTable) (pathRes : Option FileContent)
    (journal mapDb : Bool) (mapFileUseCount : Option Nat) (pszSkip : Option Bytes) :
    let s : RewriteState := ⟨.database table, pathRes, journal, mapDb || fMock, mapFileUseCount⟩
    let r := rewrite F fMock s pszSkip
    let final := Journal.run FileAction.apply s r.1
    Journal.Always FileAction.apply
        (fun s' => s'.wallet = .database table ∨ s'.Wallet (rewritten pszSkip table.rows)) s r.1 ∧
      (r.2 = .returned true → final.Wallet (rewritten pszSkip table.rows)) ∧
      (r.2 ≠ .returned true → final.wallet = .database table) ∧
      (∀ F' : RewriteFaults, F'.openFile = false → openFileFails F' final = false) ∧
      ((∀ skip ∈ pszSkip, ∃ str, scriptCodec.Fits str ∧ cStr skip = scriptCodec.put str) →
        (∀ row ∈ table.rows, StartsWithString row.1) →
        rewritten pszSkip table.rows =
          (table.rows.filter fun row => pszSkip.all fun skip => !(cStr skip).isPrefixOf row.1).map renewVersion) := by
  intro s r final
  have hswaps : Swaps s (rewritten pszSkip table.rows) (r.1, decide (r.2 = .returned true)) :=
    rewrite_swaps F fMock rfl pszSkip
  have hsucceeds : r.2 = .returned true → final.Wallet (rewritten pszSkip table.rows) := fun hok =>
    hswaps.succeeds (decide_eq_true hok)
  have hfails : r.2 ≠ .returned true → final.wallet = .database table := fun hne =>
    hswaps.fails (decide_eq_false hne)
  refine ⟨hswaps.always, hsucceeds, hfails, fun F' hopens => ?_, rewritten_of_string⟩
  by_cases hok : r.2 = .returned true
  · rcases hsucceeds hok with ⟨table', htable', -⟩
    exact openFileFails_of_database hopens htable'
  · exact openFileFails_of_database hopens (hfails hok)

/-! ## When nothing fails -/

/-- No step fails. -/
def RewriteFaults.none : RewriteFaults where
  openFile := false
  readAll := false
  removeStale := false
  removeStaleJournal := false
  existsUnreadable := false
  openRes := false
  playback := .other
  beginTxn := false
  prepare := false
  step := fun _ => false
  commit := Option.none
  close := false
  openVerify := false
  readVerify := false
  integrity := false
  rename := false
  removeRes := false

/-- The new file is written, whatever was left beside the wallet. -/
theorem createSQLiteWalletFile_none (s : RewriteState) {vRecords : List (Bytes × Bytes)}
    (hordered : Ordered (fun row => blobOrder row.1) vRecords) :
    ∃ table', table'.rows = vRecords ∧ createSQLiteWalletFile .none s vRecords =
      ([.setRes none, .setJournal false, .commitRes (.database .empty), .setJournal true,
        .commitRes (.database table')], true) := by
  have hinsert := insertRecords_eq (fun _ => false) 0 .empty hordered
  rcases Option.isSome_iff_exists.1 (hinsert.2 fun _ => rfl) with ⟨table', htable'⟩
  refine ⟨table', hinsert.1 table' htable', ?_⟩
  simp [createSQLiteWalletFile, RewriteFaults.none, openRes, FileAction.apply, htable']

theorem swapFile_none (s : RewriteState)
    (hordered : Ordered (fun row => blobOrder row.1) vKeep) (hsorted : vKeep.mergeSort recordLe = vKeep) :
    (swapFile .none s vKeep).2 = true := by
  rcases createSQLiteWalletFile_none (FileAction.closeDb.apply s) hordered with ⟨table', hrows, hcreated⟩
  rw [swapFile, hcreated]
  simp [verifySQLiteWalletFile, RewriteFaults.none, FileAction.apply, hrows, hsorted]

/-- A rewrite of a file that nobody uses succeeds if no step fails. -/
theorem rewrite_none (hs : s.wallet = .database table)
    (hunused : s.mapFileUseCount.any (· ≠ 0) = false) (fMock : Bool) (pszSkip : Option Bytes) :
    (rewrite .none fMock s pszSkip).2 = .returned true := by
  have hordered := ordered_rewritten pszSkip table
  rw [rewrite, hunused, if_neg Bool.false_ne_true, openFileFails_of_database rfl hs, if_neg Bool.false_ne_true, hs]
  refine congrArg RewriteResult.returned ?_
  rw [keepRecords_eq]
  cases fMock with
  | false => exact swapFile_none _ hordered (mergeSort_rewritten pszSkip table)
  | true =>
    have hinsert : (insertRecords (fun _ => false) 0 .empty (rewritten pszSkip table.rows)).isSome = true :=
      (insertRecords_eq (fun _ => false) 0 .empty hordered).2 fun _ => rfl
    rcases Option.isSome_iff_exists.1 hinsert with ⟨table', htable'⟩
    simp [replaceMock, RewriteFaults.none, htable']

/-- A wallet with one record, whose key is the string `a`. -/
def oneRecord : MainTable :=
  ⟨[([0x01, 0x61], [0x00])], List.pairwise_singleton _ _⟩

/-- A key that is only a beginning of `pszSkip` is dropped as well. -/
theorem rewrite_drops_beginning :
    let s : RewriteState := ⟨.database oneRecord, none, false, false, none⟩
    let r := rewrite .none false s (some [0x01, 0x61, 0x62])
    (∀ row ∈ oneRecord.rows, StartsWithString row.1 ∧ [0x01, 0x61, 0x62].isPrefixOf row.1 = false) ∧
      r.2 = .returned true ∧ (Journal.run FileAction.apply s r.1).Wallet [] := by
  intro s r
  have hok : r.2 = .returned true := rewrite_none (s := s) rfl rfl false _
  refine ⟨fun row hin => ?_, hok, (rewrite_swaps .none false (s := s) rfl _).succeeds (decide_eq_true hok)⟩
  rw [List.mem_singleton.1 hin]
  exact ⟨⟨[0x61], [], scriptCodec_fits (by decide), rfl⟩, rfl⟩

end Dobbscoin
