import Dobbscoin.Script.Interpreter

/-!
# Signatures of transactions

`SignatureHash` and `TransactionSignatureChecker` of `script/interpreter.cpp`.  The check of a signature
against a key, `CPubKey::Verify`, is given.
-/

namespace Dobbscoin

open ByteCodec

/-- The functions that the checks of a transaction's scripts call. -/
structure ScriptCrypto where
  hashes : ScriptHashes
  /-- `Hash`, as `CHashWriter` computes it. -/
  hash : Bytes → UInt256
  /-- `CPubKey::Verify` of a signature without its hash type. -/
  verify : Bytes → UInt256 → Bytes → Bool

def opCodeSeparator : Nat := 0xab

/-- A byte as an `int`. -/
def byteToInt (b : UInt8) : Int32 :=
  b.toUInt32.toInt32

namespace CScript

/-- Where `GetOp` leaves the iterator when it fails. -/
def getOpStop : Bytes → Bytes
  | [] => []
  | b :: pc =>
    match pushSize b.toNat pc with
    | none => pc
    | some (_, pc') => pc'

/-- The number of code separators, and the bytes that are not code separators; where an opcode cannot be
read, the bytes end. -/
def withoutSeparators : Nat → Bytes → Nat × Bytes
  | 0, _ => (0, [])
  | fuel + 1, pc =>
    match getOp pc with
    | none => (0, pc.take (pc.length - (getOpStop pc).length))
    | some (opcode, _, pc') =>
      let (nCodeSeparators, bytes) := withoutSeparators fuel pc'
      if opcode = opCodeSeparator then (nCodeSeparators + 1, bytes)
      else (nCodeSeparators, pc.take (pc.length - pc'.length) ++ bytes)

end CScript

/-- `CTransactionSignatureSerializer`. -/
structure CTransactionSignatureSerializer where
  txTo : CTransaction
  scriptCode : CScript
  nIn : Nat
  fAnyoneCanPay : Bool
  fHashSingle : Bool
  fHashNone : Bool

namespace CTransactionSignatureSerializer

def ofHashType (txTo : CTransaction) (scriptCode : CScript) (nIn : Nat) (nHashType : Int32) :
    CTransactionSignatureSerializer :=
  ⟨txTo, scriptCode, nIn, nHashType &&& byteToInt sighashAnyoneCanPay != 0,
    nHashType &&& 0x1f == byteToInt sighashSingle, nHashType &&& 0x1f == byteToInt sighashNone⟩

variable (t : CTransactionSignatureSerializer)

def serializeScriptCode : Bytes :=
  let (nCodeSeparators, bytes) := CScript.withoutSeparators t.scriptCode.length t.scriptCode
  writeCompactSize (t.scriptCode.length - nCodeSeparators) ++ bytes

def serializeInput (nInput : Nat) : Bytes :=
  let nInput := if t.fAnyoneCanPay then t.nIn else nInput
  let txin := t.txTo.vin.getD nInput ⟨⟨0, 0⟩, [], 0⟩
  COutPoint.codec.put txin.prevout ++
    (if nInput ≠ t.nIn then scriptCodec.put [] else t.serializeScriptCode) ++
    (if nInput ≠ t.nIn ∧ (t.fHashSingle ∨ t.fHashNone) then leBytes 4 0 else uint32Codec.put txin.nSequence)

def serializeOutput (nOutput : Nat) : Bytes :=
  CTxOut.codec.put
    (if t.fHashSingle = true ∧ nOutput ≠ t.nIn then CTxOut.null else t.txTo.vout.getD nOutput CTxOut.null)

def serialize : Bytes :=
  let nInputs := if t.fAnyoneCanPay then 1 else t.txTo.vin.length
  let nOutputs := if t.fHashNone then 0 else if t.fHashSingle then t.nIn + 1 else t.txTo.vout.length
  int32Codec.put t.txTo.nVersion ++
    (writeCompactSize nInputs ++ (List.range nInputs).flatMap t.serializeInput) ++
    (writeCompactSize nOutputs ++ (List.range nOutputs).flatMap t.serializeOutput) ++
    uint32Codec.put t.txTo.nLockTime

end CTransactionSignatureSerializer

/-- What `SignatureHash` hashes; without it the hash is the constant 1. -/
def signatureHashMessage (scriptCode : CScript) (txTo : CTransaction) (nIn : Nat) (nHashType : Int32) :
    Option Bytes :=
  if nIn ≥ txTo.vin.length then none
  else if nHashType &&& 0x1f = byteToInt sighashSingle ∧ nIn ≥ txTo.vout.length then none
  else
    some ((CTransactionSignatureSerializer.ofHashType txTo scriptCode nIn nHashType).serialize ++
      int32Codec.put nHashType)

def ScriptCrypto.hashMessage (K : ScriptCrypto) : Option Bytes → UInt256
  | none => 1
  | some message => K.hash message

def signatureHash (K : ScriptCrypto) (scriptCode : CScript) (txTo : CTransaction) (nIn : Nat)
    (nHashType : Int32) : UInt256 :=
  K.hashMessage (signatureHashMessage scriptCode txTo nIn nHashType)

/-- `CPubKey::IsValid` of a key read from bytes: the first one gives the length. -/
def isValidPubKey (vchPubKey : Bytes) : Bool :=
  match vchPubKey with
  | [] => false
  | header :: _ =>
    if header = 2 ∨ header = 3 then decide (vchPubKey.length = 33)
    else if header = 4 ∨ header = 6 ∨ header = 7 then decide (vchPubKey.length = 65)
    else false

namespace TransactionSignatureChecker

def checkSig (K : ScriptCrypto) (txTo : CTransaction) (nIn : Nat) (vchSigIn vchPubKey : Bytes)
    (scriptCode : CScript) : Bool :=
  match vchSigIn.getLast? with
  | none => false
  | some nHashType =>
    isValidPubKey vchPubKey &&
      K.verify vchPubKey (signatureHash K scriptCode txTo nIn (byteToInt nHashType)) vchSigIn.dropLast

/-- `SCRIPT_LOCKTIME_THRESHOLD`. -/
def scriptLockTimeThreshold : Int := 500000000

def checkLockTime (txTo : CTransaction) (nIn : Nat) (nLockTime : Int) : Bool :=
  let txLockTime : Int := txTo.nLockTime.toNat
  if ¬ ((txLockTime < scriptLockTimeThreshold ∧ nLockTime < scriptLockTimeThreshold) ∨
      (txLockTime ≥ scriptLockTimeThreshold ∧ nLockTime ≥ scriptLockTimeThreshold)) then false
  else if nLockTime > txLockTime then false
  -- A final input makes the lock time of the transaction irrelevant.
  else if (txTo.vin[nIn]?.map CTxIn.nSequence).getD 0xffffffff = 0xffffffff then false
  else true

end TransactionSignatureChecker

def transactionSignatureChecker (K : ScriptCrypto) (txTo : CTransaction) (nIn : Nat) : BaseSignatureChecker where
  checkSig := TransactionSignatureChecker.checkSig K txTo nIn
  checkLockTime := TransactionSignatureChecker.checkLockTime txTo nIn

/-- The checks of input `nIn` of a transaction. -/
def inputEnv (K : ScriptCrypto) (txTo : CTransaction) (nIn : Nat) (flags : UInt32) : ScriptEnv :=
  ⟨K.hashes, transactionSignatureChecker K txTo nIn, flags⟩

end Dobbscoin
