import Dobbscoin.Wallet.Accounting

/-!
# Runs of moves

The sum of the accounting entries stays zero as long as the two sides of a move reach the file together.
-/

namespace Dobbscoin

/-! ## The table of entries -/

namespace AccountFile

variable {file : AccountFile} {key : Bytes × UInt64} {acentry : CAccountingEntry}

theorem total_congr {file' : AccountFile} (h : file'.acentry = file.acentry) : file'.total = file.total := by
  rw [total, total, h]

theorem total_insert (hfresh : key ∉ file.acentry) (orderposnext : Option Int64) :
    (⟨file.acentry.insert key acentry, orderposnext⟩ : AccountFile).total =
      acentry.nCreditDebit.toInt + file.total := by
  rw [total, AList.entries_insert_of_notMem hfresh, List.map_cons, List.sum_cons]
  rfl

end AccountFile

/-! ## Which sides of a move reach the file -/

namespace MoveCalls

variable (calls : MoveCalls)

/-- The transaction of the move lasts until it is committed. -/
def unbroken : Bool :=
  calls.debitPos ≠ .rolledBack ∧ calls.debit ≠ .rolledBack ∧ calls.creditPos ≠ .rolledBack ∧ calls.credit ≠ .rolledBack

/-- The debit is committed with the move, or on its own when the transaction has ended before it. -/
def keepsDebit : Bool :=
  calls.debit = .done ∧ (calls.debitPos = .rolledBack ∨
    (calls.creditPos ≠ .rolledBack ∧ calls.credit ≠ .rolledBack ∧ calls.commits = true))

def keepsCredit : Bool :=
  calls.credit = .done ∧ (calls.debitPos = .rolledBack ∨ calls.debit = .rolledBack ∨ calls.creditPos = .rolledBack ∨
    calls.commits = true)

/-- The two sides of the move reach the file together, and they do when the move is committed. -/
def Paired (nAmount : CAmount) : Prop :=
  calls.begins = true → (nAmount = 0 ∨ calls.keepsDebit = calls.keepsCredit) ∧
    (calls.unbroken = true → calls.commits = true → calls.debit = .done ∧ calls.credit = .done)

end MoveCalls

namespace AccountNode

variable {s : AccountNode} {p : MoveParams} {calls : MoveCalls}

/-- The numbers of all entries have been counted. -/
def Numbered (s : AccountNode) : Prop :=
  ∀ key ∈ s.db.file.acentry.keys, key.2.toNat ≤ s.nAccountingEntryNumber.toNat

def debitKey (s : AccountNode) (p : MoveParams) : Bytes × UInt64 :=
  (p.strFrom, s.nAccountingEntryNumber + 1)

def creditKey (s : AccountNode) (p : MoveParams) : Bytes × UInt64 :=
  (p.strTo, s.nAccountingEntryNumber + 1 + 1)

/-- The entries after the debit side of a move. -/
def afterDebit (s : AccountNode) (p : MoveParams) (calls : MoveCalls) : Table (Bytes × UInt64) CAccountingEntry :=
  if calls.keepsDebit then s.db.file.acentry.insert (s.debitKey p) (p.debit s.nOrderPosNext) else s.db.file.acentry

def afterMove (s : AccountNode) (p : MoveParams) (calls : MoveCalls) : Table (Bytes × UInt64) CAccountingEntry :=
  if calls.keepsCredit then (s.afterDebit p calls).insert (s.creditKey p) (p.credit (s.nOrderPosNext + 1))
  else s.afterDebit p calls

/-- What a move does that begins. -/
theorem movecmd_spec {nAmount : CAmount} (hcheck : p.check = .ok nAmount) (hbegins : calls.begins = true) :
    (s.movecmd p calls).2.db.file.acentry = s.afterMove p calls ∧
      (s.movecmd p calls).2.nAccountingEntryNumber = s.nAccountingEntryNumber + 1 + 1 ∧
      (s.movecmd p calls).1 = (if calls.unbroken && calls.commits then .ok true
        else .error ⟨rpcDatabaseError, "database error"⟩) := by
  rcases s with ⟨⟨file, txn⟩, nNumber, nNext⟩
  rcases calls with ⟨begins, debitPos, debit, creditPos, credit, commits⟩
  obtain rfl : begins = true := hbegins
  unfold movecmd
  rw [hcheck]
  dsimp only
  rw [if_neg (by decide)]
  -- Each of the four writes goes one of three ways.
  cases debitPos <;> cases debit <;> cases creditPos <;> cases credit <;> cases commits <;> exact ⟨rfl, rfl, rfl⟩

theorem movecmd_unchanged (h : ∀ nAmount, p.check = .ok nAmount → calls.begins = false) :
    (s.movecmd p calls).2 = s ∧ (s.movecmd p calls).1 ≠ .ok true := by
  unfold movecmd
  cases hcheck : p.check with
  | error e => exact ⟨rfl, fun h => by cases h⟩
  | ok nAmount =>
    dsimp only
    rw [if_pos (h nAmount hcheck)]
    exact ⟨rfl, fun h => by cases h⟩

theorem check_eq_ok {nAmount : CAmount} (h : p.check = .ok nAmount) : nAmount = p.nAmount ∧ moneyRange p.nAmount.toInt := by
  unfold MoveParams.check at h
  cases hfrom : accountFromValue p.strFrom with
  | error e =>
    rw [hfrom] at h
    cases h
  | ok strFrom =>
    cases hto : accountFromValue p.strTo with
    | error e =>
      rw [hfrom, hto] at h
      cases h
    | ok strTo =>
      rw [hfrom, hto] at h
      have hamount : amountFromValue p.nAmount = .ok nAmount := h
      unfold amountFromValue at hamount
      split_ifs at hamount with hrange
      exact ⟨(Except.ok.inj hamount).symm, hrange⟩

/-! ## New entries -/

theorem toNat_succ {n : UInt64} (h : n.toNat + 1 < 2 ^ 64) : (n + 1).toNat = n.toNat + 1 := by
  rw [UInt64.toNat_add]
  exact Nat.mod_eq_of_lt h

theorem Numbered.fresh (hs : s.Numbered) {nNumber : UInt64} (hlt : s.nAccountingEntryNumber.toNat < nNumber.toNat)
    (strAccount : Bytes) : (strAccount, nNumber) ∉ s.db.file.acentry := by
  intro hin
  exact absurd (hs _ hin) (Nat.not_le.2 hlt)

/-- The two sides have numbers that no entry has. -/
theorem Numbered.fresh_keys (hs : s.Numbered) (hroom : s.nAccountingEntryNumber.toNat + 2 < 2 ^ 64) (p : MoveParams) :
    s.debitKey p ∉ s.db.file.acentry ∧ s.creditKey p ∉ s.db.file.acentry ∧ s.creditKey p ≠ s.debitKey p := by
  have hone : (s.nAccountingEntryNumber + 1).toNat = s.nAccountingEntryNumber.toNat + 1 := toNat_succ (by omega)
  have htwo : (s.nAccountingEntryNumber + 1 + 1).toNat = s.nAccountingEntryNumber.toNat + 2 := by
    rw [toNat_succ (by omega), hone]
  refine ⟨hs.fresh (by omega) _, hs.fresh (by omega) _, fun heq => ?_⟩
  have hnumber := congrArg (fun key : Bytes × UInt64 => key.2.toNat) heq
  simp only [creditKey, debitKey, hone, htwo] at hnumber
  omega

/-! ## One step -/

/-- The entries that a state has are as they were. -/
def Keeps (s s' : AccountNode) : Prop :=
  ∀ key acentry, s.db.file.acentry.lookup key = some acentry → s'.db.file.acentry.lookup key = some acentry

/-- The debit and the credit are among the entries, and were not before. -/
def Recorded (s s' : AccountNode) (p : MoveParams) : Prop :=
  ∃ key key' nOrderPos nOrderPos', key ≠ key' ∧ key ∉ s.db.file.acentry ∧ key' ∉ s.db.file.acentry ∧
    key.1 = p.strFrom ∧ key'.1 = p.strTo ∧ s'.db.file.acentry.lookup key = some (p.debit nOrderPos) ∧
    s'.db.file.acentry.lookup key' = some (p.credit nOrderPos')

/-- Nothing is overwritten, and a move that returns true has been recorded. -/
def StepKeeps (s : AccountNode) : Event → Prop
  | .move p calls => s.Keeps (s.movecmd p calls).2 ∧
      ((s.movecmd p calls).1 = .ok true → s.Recorded (s.movecmd p calls).2 p)
  | .restart => s.Keeps (load s.db.file)

/-- A move that begins has both sides or none, and numbers are left for them. -/
def Good (s : AccountNode) : Event → Prop
  | .move p calls => ∀ nAmount, p.check = .ok nAmount → calls.begins = true →
      calls.Paired nAmount ∧ s.nAccountingEntryNumber.toNat + 2 < 2 ^ 64
  | .restart => True

theorem keeps_insert {t t' : Table (Bytes × UInt64) CAccountingEntry} {key : Bytes × UInt64} {acentry : CAccountingEntry}
    (hfresh : key ∉ t) (h : ∀ key' old, t.lookup key' = some old → t'.lookup key' = some old) {key' : Bytes × UInt64}
    {old : CAccountingEntry} (hlookup : t.lookup key' = some old) : (t'.insert key acentry).lookup key' = some old := by
  have hne : key' ≠ key := by
    rintro rfl
    rw [AList.lookup_eq_none.2 hfresh] at hlookup
    cases hlookup
  rw [AList.lookup_insert_ne hne]
  exact h key' old hlookup

theorem afterMove_keeps (hdebit : s.debitKey p ∉ s.db.file.acentry) (hcredit : s.creditKey p ∉ s.db.file.acentry)
    (key : Bytes × UInt64) (old : CAccountingEntry) (h : s.db.file.acentry.lookup key = some old) :
    (s.afterMove p calls).lookup key = some old := by
  have hafter : ∀ key old, s.db.file.acentry.lookup key = some old → (s.afterDebit p calls).lookup key = some old := by
    intro key old hlookup
    unfold afterDebit
    split_ifs
    · exact keeps_insert hdebit (fun _ _ h => h) hlookup
    · exact hlookup
  unfold afterMove
  split_ifs
  · exact keeps_insert hcredit hafter h
  · exact hafter key old h

/-- Entries are added one by one, so the amounts add up. -/
theorem total_afterMove (hdebit : s.debitKey p ∉ s.db.file.acentry) (hcredit : s.creditKey p ∉ s.db.file.acentry)
    (hne : s.creditKey p ≠ s.debitKey p) (orderposnext : Option Int64) :
    (⟨s.afterMove p calls, orderposnext⟩ : AccountFile).total =
      (if calls.keepsCredit then p.nAmount.toInt else 0) + ((if calls.keepsDebit then (-p.nAmount).toInt else 0) +
        s.db.file.total) := by
  have hafter : (⟨s.afterDebit p calls, orderposnext⟩ : AccountFile).total =
      (if calls.keepsDebit then (-p.nAmount).toInt else 0) + s.db.file.total := by
    unfold afterDebit
    split_ifs
    · exact AccountFile.total_insert hdebit orderposnext
    · rw [zero_add]
      exact AccountFile.total_congr rfl
  have hfresh : s.creditKey p ∉ s.afterDebit p calls := by
    unfold afterDebit
    split_ifs
    · rw [AList.mem_insert]
      exact not_or.2 ⟨hne, hcredit⟩
    · exact hcredit
  rw [← hafter]
  unfold afterMove
  split_ifs
  · exact @AccountFile.total_insert ⟨s.afterDebit p calls, orderposnext⟩ _ _ hfresh orderposnext
  · rw [zero_add]

/-! ## Every state -/

/-- Between calls: the sides of all moves cancel, and new numbers are new. -/
structure Balanced (s : AccountNode) : Prop where
  total : s.db.file.total = 0
  numbered : s.Numbered

theorem numbered_load (file : AccountFile) : (load file).Numbered := by
  have hfold : ∀ (keys : List (Bytes × UInt64)) (nMax : UInt64),
      nMax.toNat ≤ (keys.foldl (fun nMax key => if key.2 > nMax then key.2 else nMax) nMax).toNat ∧
        ∀ key ∈ keys, key.2.toNat ≤ (keys.foldl (fun nMax key => if key.2 > nMax then key.2 else nMax) nMax).toNat := by
    intro keys
    induction keys with
    | nil => exact fun nMax => ⟨le_refl _, fun _ h => absurd h List.not_mem_nil⟩
    | cons key keys ih =>
      intro nMax
      rcases ih (if key.2 > nMax then key.2 else nMax) with ⟨hstart, hrest⟩
      have hstep : nMax.toNat ≤ (if key.2 > nMax then key.2 else nMax).toNat ∧
          key.2.toNat ≤ (if key.2 > nMax then key.2 else nMax).toNat := by
        split_ifs with hgt
        · exact ⟨(UInt64.lt_iff_toNat_lt.1 hgt).le, le_refl _⟩
        · exact ⟨le_refl _, UInt64.le_iff_toNat_le.1 (UInt64.not_lt.1 hgt)⟩
      refine ⟨hstep.1.trans hstart, fun key' hin => ?_⟩
      rcases List.mem_cons.1 hin with rfl | hin
      · exact hstep.2.trans hstart
      · exact hrest key' hin
  exact (hfold file.acentry.keys 0).2

theorem keepsSides (hbegins : calls.begins = true) {nAmount : CAmount} (hpaired : calls.Paired nAmount)
    (hrange : moneyRange nAmount.toInt) :
    (if calls.keepsCredit then nAmount.toInt else 0) + (if calls.keepsDebit then (-nAmount).toInt else 0) = 0 := by
  have hneg : (-nAmount).toInt = -nAmount.toInt := by
    rw [Int64.toInt_neg]
    have hmax : maxMoney = 1000000000000000000 := by decide
    rw [Int.bmod_eq_of_le] <;> simp only [moneyRange, hmax] at hrange <;> omega
  rcases (hpaired hbegins).1 with rfl | hsame
  · split_ifs <;> decide
  · rw [hsame, hneg]
    split_ifs <;> omega

theorem Balanced.move (hs : s.Balanced) (hgood : s.Good (.move p calls)) :
    (s.movecmd p calls).2.Balanced ∧ s.StepKeeps (.move p calls) := by
  by_cases hbegins : ∃ nAmount, p.check = .ok nAmount ∧ calls.begins = true
  · rcases hbegins with ⟨nAmount, hcheck, hbegins⟩
    rcases hgood nAmount hcheck hbegins with ⟨hpaired, hroom⟩
    rcases movecmd_spec (s := s) hcheck hbegins with ⟨hentries, hnumber, hresult⟩
    rcases hs.numbered.fresh_keys hroom p with ⟨hdebit, hcredit, hne⟩
    obtain ⟨rfl, hrange⟩ := check_eq_ok hcheck
    refine ⟨⟨?_, ?_⟩, fun key old hlookup => ?_, fun hok => ?_⟩
    · calc (s.movecmd p calls).2.db.file.total
          = (⟨s.afterMove p calls, none⟩ : AccountFile).total := AccountFile.total_congr hentries
        _ = (if calls.keepsCredit then p.nAmount.toInt else 0) + ((if calls.keepsDebit then (-p.nAmount).toInt else 0) +
              s.db.file.total) := total_afterMove hdebit hcredit hne none
        _ = 0 := by rw [hs.total, add_zero, keepsSides hbegins hpaired hrange]
    · have hone : (s.nAccountingEntryNumber + 1).toNat = s.nAccountingEntryNumber.toNat + 1 := toNat_succ (by omega)
      have htwo : (s.nAccountingEntryNumber + 1 + 1).toNat = s.nAccountingEntryNumber.toNat + 2 := by
        rw [toNat_succ (by omega), hone]
      have hafter : ∀ key ∈ s.afterDebit p calls, key.2.toNat ≤ s.nAccountingEntryNumber.toNat + 1 := by
        intro key hin
        unfold afterDebit at hin
        split_ifs at hin
        · rcases (AList.mem_insert _).1 hin with rfl | hin
          · exact hone.le
          · exact (hs.numbered key hin).trans (Nat.le_succ _)
        · exact (hs.numbered key hin).trans (Nat.le_succ _)
      intro key hin
      rw [hentries] at hin
      rw [hnumber, htwo]
      unfold afterMove at hin
      split_ifs at hin
      · rcases (AList.mem_insert _).1 hin with rfl | hin
        · exact htwo.le
        · exact (hafter key hin).trans (Nat.le_succ _)
      · exact (hafter key hin).trans (Nat.le_succ _)
    · rw [hentries]
      exact afterMove_keeps hdebit hcredit key old hlookup
    · have hreports : calls.unbroken = true ∧ calls.commits = true := by
        rw [hresult] at hok
        split_ifs at hok with hboth
        · exact Bool.and_eq_true_iff.1 hboth
      rcases (hpaired hbegins).2 hreports.1 hreports.2 with ⟨hdebitDone, hcreditDone⟩
      have hunbroken := hreports.1
      simp only [MoveCalls.unbroken, decide_eq_true_eq] at hunbroken
      have hkeepsDebit : calls.keepsDebit = true :=
        decide_eq_true ⟨hdebitDone, .inr ⟨hunbroken.2.2.1, hunbroken.2.2.2, hreports.2⟩⟩
      have hkeepsCredit : calls.keepsCredit = true :=
        decide_eq_true ⟨hcreditDone, .inr (.inr (.inr hreports.2))⟩
      refine ⟨s.debitKey p, s.creditKey p, s.nOrderPosNext, s.nOrderPosNext + 1, hne.symm, hdebit, hcredit, rfl, rfl, ?_, ?_⟩
      · rw [hentries, afterMove, if_pos hkeepsCredit, AList.lookup_insert_ne hne.symm, afterDebit, if_pos hkeepsDebit,
          AList.lookup_insert]
      · rw [hentries, afterMove, if_pos hkeepsCredit, AList.lookup_insert]
  · have hnot : ∀ nAmount, p.check = .ok nAmount → calls.begins = false := fun nAmount hcheck =>
      (Bool.not_eq_true _).mp fun h => hbegins ⟨nAmount, hcheck, h⟩
    rcases movecmd_unchanged (s := s) hnot with ⟨hsame, hresult⟩
    refine ⟨?_, fun key old hlookup => ?_, fun hok => absurd hok hresult⟩
    · rw [hsame]
      exact hs
    · rw [hsame]
      exact hlookup

theorem Balanced.step (hs : s.Balanced) {e : Event} (hgood : s.Good e) : (s.step e).Balanced ∧ s.StepKeeps e := by
  cases e with
  | move p calls => exact hs.move hgood
  | restart => exact ⟨⟨hs.total, numbered_load _⟩, fun _ _ h => h⟩

/-! ## Every run -/

/-- Each event of a run is good in the state that it comes to. -/
def GoodRun : AccountNode → List Event → Prop
  | _, [] => True
  | s, e :: events => s.Good e ∧ GoodRun (s.step e) events

/-- In every state of a run the sum is zero, and every step keeps what is there. -/
def LedgerKept : AccountNode → List Event → Prop
  | s, [] => s.db.file.total = 0
  | s, e :: events => s.db.file.total = 0 ∧ s.StepKeeps e ∧ LedgerKept (s.step e) events

theorem Balanced.run (events : List Event) : ∀ {s : AccountNode}, s.Balanced → GoodRun s events → LedgerKept s events := by
  induction events with
  | nil => exact fun hs _ => hs.total
  | cons e events ih =>
    intro s hs hgood
    rcases hs.step hgood.1 with ⟨hnext, hkeeps⟩
    exact ⟨hs.total, hkeeps, ih hnext hgood.2⟩

/-- The sum stays zero in every run in which each move that begins reaches the file with both sides, or with none. -/
theorem ledgerKept_of_goodRun {file : AccountFile} (hzero : file.total = 0) {events : List Event}
    (hgood : GoodRun (load file) events) : LedgerKept (load file) events :=
  Balanced.run events ⟨hzero, numbered_load file⟩ hgood

/-! ## A debit that cannot be written -/

/-- A move of `5` between the accounts `a` and `b`. -/
def sampleMove : MoveParams :=
  ⟨[0x61], [0x62], 5, [], 0⟩

def allDone : MoveCalls :=
  ⟨true, .done, .done, .done, .done, true⟩

theorem ledgerKept_sampleMove :
    LedgerKept (load .start) [.move sampleMove allDone, .restart, .move sampleMove { allDone with commits := false }] := by
  refine ledgerKept_of_goodRun (by decide) ⟨?_, trivial, ?_, trivial⟩
  · exact fun _ _ _ => ⟨fun _ => ⟨.inr (by decide), fun _ _ => ⟨rfl, rfl⟩⟩, by decide⟩
  · refine fun _ _ _ => ⟨fun _ => ⟨.inr (by decide), fun _ hcommits => ?_⟩, by decide⟩
    cases hcommits

/-- The move returns true although its debit is missing. -/
theorem sampleMove_without_debit :
    (load .start).db.file.total = 0 ∧
      ((load .start).movecmd sampleMove { allDone with debit := .failed }).1 = .ok true ∧
      ((load .start).movecmd sampleMove { allDone with debit := .failed }).2.db.file.total = 5 := by
  refine ⟨by decide, by rfl, by decide⟩

end AccountNode

end Dobbscoin
