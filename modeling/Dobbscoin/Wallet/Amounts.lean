import Dobbscoin.Validation.AcceptBlock
import Dobbscoin.Wallet.Reaccept

/-!
# What a wallet transaction has sent and received

`GetAmounts` of `wallet.cpp`, and which transactions are trusted.
-/

namespace Dobbscoin

/-- What the balances ask of the rest of the program. -/
structure BalanceEnv extends WalletEnv where
  env : Env
  /-- `ExtractDestination`; a script has the same destination every time. -/
  extractDestination : CScript → Option CTxDestination
  /-- `bSpendZeroConfChange`. -/
  fSpendZeroConfChange : Bool

/-- An output of `listReceived` or `listSent`. -/
structure COutputEntry where
  destination : CTxDestination
  amount : Int
  vout : Nat

/-- What `GetAmounts` returns. -/
structure TxAmounts where
  listReceived : List COutputEntry
  listSent : List COutputEntry
  nFee : Int

namespace TxAmounts

def received (a : TxAmounts) : Int :=
  (a.listReceived.map COutputEntry.amount).sum

def sent (a : TxAmounts) : Int :=
  (a.listSent.map COutputEntry.amount).sum

end TxAmounts

namespace WalletNode

variable (E : BalanceEnv) (w : WalletNode)

/-- `IsFinalTx` as the wallet calls it: for the height of the tip, not for the next block. -/
def isFinal (tx : CTransaction) : Bool :=
  isFinalTx E.env ((w.chainActive.length : Int) - 1) tx 0 0

/-- `IsChange`: an output of the wallet that is not in the address book. -/
def isChange (txout : CTxOut) : Bool :=
  if E.isMine w.keys.keystore txout.scriptPubKey = ismineNo then false
  else
    match E.extractDestination txout.scriptPubKey with
    | none => true
    | some address => (w.keys.mapAddressBook.lookup address).isNone

/-- The outputs that the loop of `GetAmounts` does not skip. -/
def isListed (filter : IsMineFilter) (nDebit : Int) (txout : CTxOut) : Bool :=
  if nDebit > 0 then !isChange E w txout else mine E.toWalletEnv w txout filter

def outputEntry (o : CTxOut × Nat) : COutputEntry where
  destination := (E.extractDestination o.1.scriptPubKey).getD .noDestination
  amount := o.1.nValue.toInt
  vout := o.2

/-- `GetAmounts`; it is `none` when an amount is out of range. -/
def getAmounts (wtx : CWalletTx) (filter : IsMineFilter) : Option TxAmounts := do
  let nDebit ← (get E.toWalletEnv w wtx (.getDebit filter)).map Prod.fst
  let nFee ← (if nDebit > 0 then wtx.tx.getValueOut.toOption.map fun nValueOut => nDebit - nValueOut else some 0)
  let listed := wtx.tx.vout.zipIdx.filter fun o => isListed E w filter nDebit o.1
  let received := listed.filter fun o => mine E.toWalletEnv w o.1 filter
  pure
    { listReceived := received.map (outputEntry E)
      listSent := if nDebit > 0 then listed.map (outputEntry E) else []
      nFee := nFee }

/-- The loop of `IsTrusted` over the inputs. -/
def inputTrusted (txin : CTxIn) : Bool :=
  match w.prevOut txin with
  -- The index is not compared with the size; there is such an output when the transaction is in the pool.
  | none => false
  | some parentOut => E.isMine w.keys.keystore parentOut.scriptPubKey = ismineSpendable

/-- `IsTrusted`. -/
def isTrusted (wtx : CWalletTx) : Option Bool :=
  if isFinal E w wtx.tx = false then some false
  else
    let nDepth := getDepthInMainChain E.toWalletEnv w wtx
    if nDepth ≥ 1 then some true
    else if nDepth < 0 then some false
    else if E.fSpendZeroConfChange = false then some false
    else (get E.toWalletEnv w wtx (.getDebit ismineAll)).map fun r =>
      if r.1 > 0 then wtx.tx.vin.all (inputTrusted E w) else false

end WalletNode

end Dobbscoin
