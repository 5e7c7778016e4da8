import Dobbscoin.Script.GetOp

/-!
# Standard scripts

`Solver` of `script/standard.cpp` compares a script with a few templates, in which some opcodes stand for
keys, hashes and small numbers.
-/

namespace Dobbscoin

inductive TxnOutType where
  | nonstandard
  | pubKey
  | pubKeyHash
  | scriptHash
  | multiSig
  | nullData
  deriving DecidableEq

/-! ## Opcodes of templates -/

def opSmallData : Nat := 0xf9
def opSmallInteger : Nat := 0xfa
def opPubKeys : Nat := 0xfb
def opPubKeyHash : Nat := 0xfd
def opPubKey : Nat := 0xfe

def maxOpReturnRelay : Nat := 250

/-- The options that templates depend on. -/
structure DataCarrier where
  /-- `-datacarrier`. -/
  enabled : Bool
  /-- `nMaxDatacarrierBytes`. -/
  nMaxDatacarrierBytes : Nat

def DataCarrier.default : DataCarrier :=
  ⟨true, maxOpReturnRelay⟩

/-- `mTemplates`, in the order of the map. -/
def templates (carrier : DataCarrier) : List (TxnOutType × CScript) :=
  [(.pubKey, [0xfe, 0xac]), (.pubKeyHash, [0x76, 0xa9, 0xfd, 0x88, 0xac]), (.multiSig, [0xfa, 0xfb, 0xfa, 0xae])] ++
    (if carrier.enabled then [(.nullData, [0x6a, 0xf9])] else []) ++ [(.nullData, [0x6a])]

/-! ## Solver -/

/-- `DecodeOP_N`. -/
def decodeOpN (opcode : Nat) : Nat :=
  if opcode = 0 then 0 else opcode - (op1 - 1)

/-- `OP_0` or `OP_1` to `OP_16`. -/
def isSmallInteger (opcode : Nat) : Bool :=
  decide (opcode = 0) || decide (op1 ≤ opcode) && decide (opcode ≤ op16)

/-- A size that a public key can have. -/
def isKeySize (vch : Bytes) : Bool :=
  decide (33 ≤ vch.length) && decide (vch.length ≤ 65)

/-- One opcode of a script against one of a template: what the solutions become, or no match. -/
def matchOp (carrier : DataCarrier) (opcode1 : Nat) (vch1 : Bytes) (opcode2 : Nat) (vch2 : Bytes)
    (vSolutions : List Bytes) : Option (List Bytes) :=
  if opcode2 = opPubKey then
    if isKeySize vch1 then some (vSolutions ++ [vch1]) else none
  else if opcode2 = opPubKeyHash then
    if vch1.length ≠ 20 then none else some (vSolutions ++ [vch1])
  else if opcode2 = opSmallInteger then
    if isSmallInteger opcode1 then some (vSolutions ++ [[UInt8.ofNat (decodeOpN opcode1)]]) else none
  else if opcode2 = opSmallData then
    if vch1.length > carrier.nMaxDatacarrierBytes then none else some vSolutions
  else if opcode1 ≠ opcode2 ∨ vch1 ≠ vch2 then none
  else some vSolutions

/-- The loop over the keys of `OP_PUBKEYS`: the opcode it stops at, and the solutions.  A failed `GetOp`
leaves the invalid opcode. -/
def pubKeysLoop : Nat → Nat → Bytes → Bytes → List Bytes → Nat × Bytes × Bytes × List Bytes
  | 0, opcode1, vch1, pc1, vSolutions => (opcode1, vch1, pc1, vSolutions)
  | fuel + 1, opcode1, vch1, pc1, vSolutions =>
    if isKeySize vch1 then
      match CScript.getOp pc1 with
      | none => (opInvalidOpcode, [], CScript.getOpStop pc1, vSolutions ++ [vch1])
      | some (opcode1, vch1', pc1') => pubKeysLoop fuel opcode1 vch1' pc1' (vSolutions ++ [vch1])
    else (opcode1, vch1, pc1, vSolutions)

/-- The loop that compares a script with a template; every round reads an opcode of the script. -/
def matchLoop (carrier : DataCarrier) : Nat → Bytes → Bytes → List Bytes → Option (List Bytes)
  | 0, _, _, _ => none
  | fuel + 1, pc1, pc2, vSolutions =>
    if pc1 = [] ∧ pc2 = [] then some vSolutions
    else
      match CScript.getOp pc1, CScript.getOp pc2 with
      | some (opcode1, vch1, pc1), some (opcode2, vch2, pc2) =>
        if opcode2 = opPubKeys then
          let (opcode1, vch1, pc1, vSolutions) := pubKeysLoop (pc1.length + 1) opcode1 vch1 pc1 vSolutions
          match CScript.getOp pc2 with
          | none => none
          | some (opcode2, vch2, pc2) =>
            match matchOp carrier opcode1 vch1 opcode2 vch2 vSolutions with
            | none => none
            | some vSolutions => matchLoop carrier fuel pc1 pc2 vSolutions
        else
          match matchOp carrier opcode1 vch1 opcode2 vch2 vSolutions with
          | none => none
          | some vSolutions => matchLoop carrier fuel pc1 pc2 vSolutions
      | _, _ => none

/-- What `Solver` returns and leaves in its two output arguments. -/
structure Solved where
  ret : Bool
  typeRet : TxnOutType
  vSolutionsRet : List Bytes
  deriving DecidableEq

/-- The additional checks of a multisig script. -/
def multiSigValid (vSolutions : List Bytes) : Bool :=
  let m := ((vSolutions.head?.getD []).getD 0 0).toNat
  let n := ((vSolutions.getLast?.getD []).getD 0 0).toNat
  !(decide (m < 1) || decide (n < 1) || decide (m > n) || decide (vSolutions.length - 2 ≠ n))

/-- The loop over the templates. -/
def scanTemplates (carrier : DataCarrier) (script1 : CScript) : List (TxnOutType × CScript) → Solved
  | [] => ⟨false, .nonstandard, []⟩
  | (typeRet, script2) :: rest =>
    match matchLoop carrier (script1.length + 1) script1 script2 [] with
    | none => scanTemplates carrier script1 rest
    | some vSolutions =>
      if typeRet = .multiSig ∧ multiSigValid vSolutions = false then ⟨false, typeRet, vSolutions⟩
      else ⟨true, typeRet, vSolutions⟩

def solver (carrier : DataCarrier) (scriptPubKey : CScript) : Solved :=
  if CScript.isPayToScriptHash scriptPubKey then ⟨true, .scriptHash, [(scriptPubKey.drop 2).take 20]⟩
  else scanTemplates carrier scriptPubKey (templates carrier)

/-- `ScriptSigArgsExpected`. -/
def scriptSigArgsExpected (t : TxnOutType) (vSolutions : List Bytes) : Int :=
  match t with
  | .nonstandard => -1
  | .nullData => -1
  | .pubKey => 1
  | .pubKeyHash => 2
  | .multiSig =>
    match vSolutions with
    | (m :: _) :: _ => m.toNat + 1
    | _ => -1
  | .scriptHash => 1

end Dobbscoin
