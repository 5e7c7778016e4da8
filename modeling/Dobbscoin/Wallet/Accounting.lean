import Dobbscoin.Wallet.CWallet

/-!
# Accounting entries

The `acentry` records of the wallet file, and the `move` command of `rpcwallet.cpp`.
-/

namespace Dobbscoin

/-- `mapValue` is left out: it is empty for a move. -/
structure CAccountingEntry where
  strAccount : Bytes
  nCreditDebit : CAmount
  nTime : Int64
  strOtherAccount : Bytes
  strComment : Bytes
  nOrderPos : Int64
  nEntryNo : UInt64

/-! ## The database -/

/-- The records of the wallet file that belong to accounts. -/
structure AccountFile where
  /-- `acentry`, by the account and the number of an entry. -/
  acentry : Table (Bytes × UInt64) CAccountingEntry
  orderposnext : Option Int64

namespace AccountFile

/-- The sum of `nCreditDebit`. -/
def total (file : AccountFile) : Int :=
  (file.acentry.entries.map fun e => e.2.nCreditDebit.toInt).sum

def start : AccountFile :=
  ⟨∅, none⟩

end AccountFile

/-- What becomes of a statement that writes; SQLite can end the transaction when one fails. -/
inductive WriteResult where
  | done
  | failed
  | rolledBack
  deriving DecidableEq

/-- The connection to the wallet file. -/
structure AccountDb where
  file : AccountFile
  /-- The records as an open transaction sees them. -/
  txn : Option AccountFile

namespace AccountDb

/-- `WriteRaw`.  Outside of a transaction each statement is one of its own. -/
def write (db : AccountDb) (result : WriteResult) (f : AccountFile → AccountFile) : Bool × AccountDb :=
  match result with
  | .done =>
    match db.txn with
    | none => (true, { db with file := f db.file })
    | some txn => (true, { db with txn := some (f txn) })
  | .failed => (false, db)
  | .rolledBack => (false, { db with txn := none })

/-- `TxnBegin`, when the statement succeeds. -/
def txnBegin (db : AccountDb) : AccountDb :=
  { db with txn := some db.file }

/-- `TxnCommit`.  There is nothing to commit when the transaction has ended before. -/
def txnCommit (db : AccountDb) (fCommits : Bool) : Bool × AccountDb :=
  match db.txn with
  | none => (false, db)
  | some txn => if fCommits then (true, ⟨txn, none⟩) else (false, ⟨db.file, none⟩)

end AccountDb

/-- The wallet and its file, as far as accounting entries go. -/
structure AccountNode where
  db : AccountDb
  nAccountingEntryNumber : UInt64
  nOrderPosNext : Int64

namespace AccountNode

/-- `IncOrderPosNext`. -/
def incOrderPosNext (s : AccountNode) (result : WriteResult) : Int64 × AccountNode :=
  let w := s.db.write result fun file => { file with orderposnext := some (s.nOrderPosNext + 1) }
  (s.nOrderPosNext, { s with db := w.2, nOrderPosNext := s.nOrderPosNext + 1 })

/-- `WriteAccountingEntry`. -/
def writeAccountingEntry (s : AccountNode) (result : WriteResult) (acentry : CAccountingEntry) : Bool × AccountNode :=
  let nAccEntryNum := s.nAccountingEntryNumber + 1
  let w := s.db.write result fun file =>
    { file with acentry := file.acentry.insert (acentry.strAccount, nAccEntryNum) acentry }
  (w.1, { s with db := w.2, nAccountingEntryNumber := nAccEntryNum })

/-- One side of a move; what the two writes return is not looked at. -/
def recordSide (s : AccountNode) (posResult entryResult : WriteResult) (acentry : Int64 → CAccountingEntry) :
    AccountNode :=
  let p := s.incOrderPosNext posResult
  (p.2.writeAccountingEntry entryResult (acentry p.1)).2

end AccountNode

/-! ## move -/

structure JSONRPCError where
  code : Int
  message : String
  deriving DecidableEq

def rpcTypeError : Int := -3
def rpcWalletInvalidAccountName : Int := -11
def rpcDatabaseError : Int := -20

/-- `AccountFromValue`; the byte is an asterisk. -/
def accountFromValue (strAccount : Bytes) : Except JSONRPCError Bytes :=
  if strAccount = [0x2a] then .error ⟨rpcWalletInvalidAccountName, "Invalid account name"⟩ else .ok strAccount

/-- `AmountFromValue`, after the number has been rounded. -/
def amountFromValue (nAmount : CAmount) : Except JSONRPCError CAmount :=
  if moneyRange nAmount.toInt then .ok nAmount else .error ⟨rpcTypeError, "Invalid amount"⟩

structure MoveParams where
  strFrom : Bytes
  strTo : Bytes
  nAmount : CAmount
  strComment : Bytes
  nNow : Int64

/-- What becomes of the calls of the database.  A process that ends before some of them leaves the file as when these
fail. -/
structure MoveCalls where
  begins : Bool
  debitPos : WriteResult
  debit : WriteResult
  creditPos : WriteResult
  credit : WriteResult
  commits : Bool

namespace MoveParams

def check (p : MoveParams) : Except JSONRPCError CAmount := do
  let _ ← accountFromValue p.strFrom
  let _ ← accountFromValue p.strTo
  amountFromValue p.nAmount

def debit (p : MoveParams) (nOrderPos : Int64) : CAccountingEntry :=
  ⟨p.strFrom, -p.nAmount, p.nNow, p.strTo, p.strComment, nOrderPos, 0⟩

def credit (p : MoveParams) (nOrderPos : Int64) : CAccountingEntry :=
  ⟨p.strTo, p.nAmount, p.nNow, p.strFrom, p.strComment, nOrderPos, 0⟩

end MoveParams

namespace AccountNode

def movecmd (s : AccountNode) (p : MoveParams) (calls : MoveCalls) : Except JSONRPCError Bool × AccountNode :=
  match p.check with
  | .error e => (.error e, s)
  | .ok _ =>
    if calls.begins = false then (.error ⟨rpcDatabaseError, "database error"⟩, s)
    else
      let s := { s with db := s.db.txnBegin }
      let s := s.recordSide calls.debitPos calls.debit p.debit
      let s := s.recordSide calls.creditPos calls.credit p.credit
      let r := s.db.txnCommit calls.commits
      (if r.1 then .ok true else .error ⟨rpcDatabaseError, "database error"⟩, { s with db := r.2 })

/-- `LoadWallet` of a file whose records all have an order position. -/
def load (file : AccountFile) : AccountNode where
  db := ⟨file, none⟩
  nAccountingEntryNumber := file.acentry.keys.foldl (fun nMax key => if key.2 > nMax then key.2 else nMax) 0
  nOrderPosNext := file.orderposnext.getD 0

/-! ## Runs -/

inductive Event where
  | move (p : MoveParams) (calls : MoveCalls)
  | restart

def step (s : AccountNode) : Event → AccountNode
  | .move p calls => (s.movecmd p calls).2
  | .restart => load s.db.file

end AccountNode

end Dobbscoin
