import Dobbscoin.Lib.Guard
import Dobbscoin.Primitives.Transaction
import Dobbscoin.Script.ScriptError

/-!
# Script numbers

`CScriptNum` of `script/script.h`, and `CastToBool`.  The values stay far inside of 64 bits: an operand has
at most five bytes, and no result is an operand again before it is read back from bytes.
-/

namespace Dobbscoin

open ByteCodec Guard

def castToBool : Bytes → Bool
  | [] => false
  | b :: rest =>
    -- The last byte can be that of a negative zero.
    if b ≠ 0 then !(rest.isEmpty && b == 0x80) else castToBool rest

namespace CScriptNum

def nMaxNumSize : Nat := 4

/-- `set_vch`. -/
def setVch (vch : Bytes) : Int :=
  match vch.getLast? with
  | none => 0
  | some last =>
    if last &&& 0x80 ≠ 0 then -((leNat vch : Int) - 0x80 * 256 ^ (vch.length - 1)) else leNat vch

/-- The last byte adds something, or keeps a sign bit free. -/
def isMinimal (vch : Bytes) : Bool :=
  match vch.reverse with
  | [] => true
  | [last] => last &&& 0x7f != 0
  | last :: second :: _ => last &&& 0x7f != 0 || second &&& 0x80 != 0

/-- The constructor that reads a stack element. -/
def ofBytes (vch : Bytes) (fRequireMinimal : Bool) (nMaxNumSizeIn : Nat) : Except ScriptFault Int := do
  rejectIf (vch.length > nMaxNumSizeIn) (.threw "script number overflow")
  rejectIf (fRequireMinimal = true ∧ isMinimal vch = false) (.threw "non-minimally encoded script number")
  .ok (setVch vch)

def getInt (n : Int) : Int :=
  if n > 2 ^ 31 - 1 then 2 ^ 31 - 1 else if n < -2 ^ 31 then -2 ^ 31 else n

/-- The bytes of `absvalue`; the fuel covers 64 bits. -/
def absBytes : Nat → Nat → Bytes
  | 0, _ => []
  | fuel + 1, absvalue =>
    if absvalue = 0 then [] else UInt8.ofNat (absvalue % 256) :: absBytes fuel (absvalue / 256)

def serialize (value : Int) : Bytes :=
  let result := absBytes 8 value.natAbs
  match result.getLast? with
  | none => []
  | some back =>
    if back &&& 0x80 ≠ 0 then result ++ [if value < 0 then 0x80 else 0]
    else if value < 0 then result.dropLast ++ [back ||| 0x80]
    else result

end CScriptNum

end Dobbscoin
