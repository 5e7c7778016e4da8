import Dobbscoin.Lib.Guard
import Dobbscoin.Script.ScriptError
import Dobbscoin.Script.SigOps

/-!
# Encodings of signatures, keys and pushes

The checks of `script/interpreter.cpp` that some script flag asks for, and the edits of scripts that
signature checks make.
-/

namespace Dobbscoin

open Guard

/-! ## Flags -/

def scriptVerifyP2SH : UInt32 := 0x001
def scriptVerifyStrictEnc : UInt32 := 0x002
def scriptVerifyDerSig : UInt32 := 0x004
def scriptVerifyLowS : UInt32 := 0x008
def scriptVerifyNullDummy : UInt32 := 0x010
def scriptVerifySigPushOnly : UInt32 := 0x020
def scriptVerifyMinimalData : UInt32 := 0x040
def scriptVerifyDiscourageUpgradableNops : UInt32 := 0x080
def scriptVerifyCheckLockTimeVerify : UInt32 := 0x200

def mandatoryScriptVerifyFlags : UInt32 :=
  scriptVerifyP2SH

def standardScriptVerifyFlags : UInt32 :=
  mandatoryScriptVerifyFlags ||| scriptVerifyDerSig ||| scriptVerifyStrictEnc ||| scriptVerifyMinimalData |||
    scriptVerifyNullDummy ||| scriptVerifyDiscourageUpgradableNops ||| scriptVerifyCheckLockTimeVerify

/-- `flags & flag`, as a condition. -/
def hasFlag (flags flag : UInt32) : Bool :=
  flags &&& flag != 0

/-! ## Signatures -/

def sighashAll : UInt8 := 1
def sighashNone : UInt8 := 2
def sighashSingle : UInt8 := 3
def sighashAnyoneCanPay : UInt8 := 0x80

def isValidSignatureEncoding (sig : Bytes) : Bool :=
  let byte (i : Nat) : UInt8 := sig.getD i 0
  let lenR := (byte 3).toNat
  let lenS := (byte (5 + lenR)).toNat
  decide (9 ≤ sig.length) && decide (sig.length ≤ 73) && byte 0 == 0x30 &&
    decide ((byte 1).toNat = sig.length - 3) && decide (5 + lenR < sig.length) &&
    decide (lenR + lenS + 7 = sig.length) &&
    -- The number R.
    byte 2 == 0x02 && decide (lenR ≠ 0) && byte 4 &&& 0x80 == 0 &&
    !(decide (lenR > 1) && byte 4 == 0 && byte 5 &&& 0x80 == 0) &&
    -- The number S.
    byte (lenR + 4) == 0x02 && decide (lenS ≠ 0) && byte (lenR + 6) &&& 0x80 == 0 &&
    !(decide (lenS > 1) && byte (lenR + 6) == 0 && byte (lenR + 7) &&& 0x80 == 0)

/-- The loop of `CompareBigEndian` over numbers of one length. -/
def compareBytes : Bytes → Bytes → Int
  | x :: xs, y :: ys => if x > y then 1 else if y > x then -1 else compareBytes xs ys
  | _, _ => 0

def compareBigEndian (c1 c2 : Bytes) : Int :=
  if (c1.take (c1.length - c2.length)).any (· != 0) then 1
  else if (c2.take (c2.length - c1.length)).any (· != 0) then -1
  else compareBytes (c1.drop (c1.length - c2.length)) (c2.drop (c2.length - c1.length))

def vchMaxModOrder : Bytes :=
  [0xff, 0xff, 0xff, 0xff, 0xff, 0xff, 0xff, 0xff, 0xff, 0xff, 0xff, 0xff, 0xff, 0xff, 0xff, 0xfe,
    0xba, 0xae, 0xdc, 0xe6, 0xaf, 0x48, 0xa0, 0x3b, 0xbf, 0xd2, 0x5e, 0x8c, 0xd0, 0x36, 0x41, 0x40]

def vchMaxModHalfOrder : Bytes :=
  [0x7f, 0xff, 0xff, 0xff, 0xff, 0xff, 0xff, 0xff, 0xff, 0xff, 0xff, 0xff, 0xff, 0xff, 0xff, 0xff,
    0x5d, 0x57, 0x6e, 0x73, 0x57, 0xa4, 0x50, 0x1d, 0xdf, 0xe9, 0x2f, 0x46, 0x68, 0x1b, 0x20, 0xa0]

def checkSignatureElement (vch : Bytes) (half : Bool) : Bool :=
  decide (compareBigEndian vch [] > 0) &&
    decide (compareBigEndian vch (if half then vchMaxModHalfOrder else vchMaxModOrder) ≤ 0)

def isLowDERSignature (vchSig : Bytes) : Except ScriptError Unit := do
  rejectIf (isValidSignatureEncoding vchSig = false) .sigDer
  let nLenR := (vchSig.getD 3 0).toNat
  let nLenS := (vchSig.getD (5 + nLenR) 0).toNat
  rejectIf (checkSignatureElement ((vchSig.drop (6 + nLenR)).take nLenS) true = false) .sigHighS

def isDefinedHashtypeSignature (vchSig : Bytes) : Bool :=
  match vchSig.getLast? with
  | none => false
  | some back =>
    let nHashType := back &&& ~~~sighashAnyoneCanPay
    decide (sighashAll ≤ nHashType) && decide (nHashType ≤ sighashSingle)

def checkSignatureEncoding (vchSig : Bytes) (flags : UInt32) : Except ScriptError Unit :=
  -- An empty signature is a compact way to give an invalid one.
  if vchSig = [] then .ok ()
  else do
    rejectIf (hasFlag flags (scriptVerifyDerSig ||| scriptVerifyLowS ||| scriptVerifyStrictEnc) = true ∧
      isValidSignatureEncoding vchSig = false) .sigDer
    (if hasFlag flags scriptVerifyLowS then isLowDERSignature vchSig else .ok ())
    rejectIf (hasFlag flags scriptVerifyStrictEnc = true ∧ isDefinedHashtypeSignature vchSig = false)
      .sigHashType

/-! ## Keys -/

def isCompressedOrUncompressedPubKey (vchPubKey : Bytes) : Bool :=
  let header := vchPubKey.getD 0 0
  if vchPubKey.length < 33 then false
  else if header = 0x04 then decide (vchPubKey.length = 65)
  else if header = 0x02 ∨ header = 0x03 then decide (vchPubKey.length = 33)
  else false

def checkPubKeyEncoding (vchPubKey : Bytes) (flags : UInt32) : Except ScriptError Unit :=
  rejectIf (hasFlag flags scriptVerifyStrictEnc = true ∧ isCompressedOrUncompressedPubKey vchPubKey = false)
    .pubKeyType

/-! ## Pushes -/

def checkMinimalPush (data : Bytes) (opcode : Nat) : Bool :=
  let first := (data.getD 0 0).toNat
  if data.length = 0 then decide (opcode = 0)
  else if data.length = 1 ∧ 1 ≤ first ∧ first ≤ 16 then decide (opcode = op1 + (first - 1))
  else if data.length = 1 ∧ first = 0x81 then decide (opcode = 0x4f)
  else if data.length ≤ 75 then decide (opcode = data.length)
  else if data.length ≤ 255 then decide (opcode = opPushData1)
  else if data.length ≤ 65535 then decide (opcode = opPushData2)
  else true

namespace CScript

/-- `CScript() << b`. -/
def pushBytes (b : Bytes) : CScript :=
  if b.length < opPushData1 then UInt8.ofNat b.length :: b
  else if b.length ≤ 0xff then UInt8.ofNat opPushData1 :: UInt8.ofNat b.length :: b
  else if b.length ≤ 0xffff then UInt8.ofNat opPushData2 :: (ByteCodec.leBytes 2 b.length ++ b)
  else UInt8.ofNat opPushData4 :: (ByteCodec.leBytes 4 b.length ++ b)

/-- The loop of `FindAndDelete`, from `pc` on; every round makes the rest shorter. -/
def findAndDeleteLoop (b : Bytes) : Nat → Bytes → Bytes
  | 0, pc => pc
  | fuel + 1, pc =>
    if b.isPrefixOf pc then findAndDeleteLoop b fuel (pc.drop b.length)
    else
      match getOp pc with
      | none => pc
      | some (_, _, pc') => pc.take (pc.length - pc'.length) ++ findAndDeleteLoop b fuel pc'

def findAndDelete (script b : CScript) : CScript :=
  if b = [] then script else findAndDeleteLoop b script.length script

/-- `IsPushOnly`; the fuel is the length of the script. -/
def isPushOnlyLoop : Nat → Bytes → Bool
  | 0, _ => true
  | _ + 1, [] => true
  | fuel + 1, b :: pc =>
    match getOp (b :: pc) with
    | none => false
    | some (opcode, _, pc') => decide (opcode ≤ op16) && isPushOnlyLoop fuel pc'

def isPushOnly (script : CScript) : Bool :=
  isPushOnlyLoop script.length script

end CScript

end Dobbscoin
