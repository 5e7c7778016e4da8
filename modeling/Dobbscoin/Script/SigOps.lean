import Dobbscoin.Primitives.Transaction

/-!
# Counting signature operations

The parts of `script.h` and `script.cpp` that validation reads without running a script: `GetOp`,
`GetSigOpCount`, `IsPayToScriptHash`, and the sums over a transaction in `main.cpp`.
-/

namespace Dobbscoin

open ByteCodec

def opPushData1 : Nat := 0x4c
def opPushData2 : Nat := 0x4d
def opPushData4 : Nat := 0x4e
def op1 : Nat := 0x51
def op16 : Nat := 0x60
def opEqual : UInt8 := 0x87
def opHash160 : UInt8 := 0xa9
def opCheckSig : Nat := 0xac
def opCheckSigVerify : Nat := 0xad
def opCheckMultiSig : Nat := 0xae
def opCheckMultiSigVerify : Nat := 0xaf
def opInvalidOpcode : Nat := 0xff

namespace CScript

/-- The size of the immediate operand and the bytes behind the size. -/
def pushSize (opcode : Nat) (pc : Bytes) : Option (Nat × Bytes) :=
  if opcode < opPushData1 then some (opcode, pc)
  else if opcode = opPushData1 then
    if pc.length < 1 then none else some (leNat (pc.take 1), pc.drop 1)
  else if opcode = opPushData2 then
    if pc.length < 2 then none else some (leNat (pc.take 2), pc.drop 2)
  else if opcode = opPushData4 then
    if pc.length < 4 then none else some (leNat (pc.take 4), pc.drop 4)
  else some (0, pc)

/-- `GetOp`: the opcode, its data and the position behind it. -/
def getOp : Bytes → Option (Nat × Bytes × Bytes)
  | [] => none
  | b :: pc =>
    match pushSize b.toNat pc with
    | none => none
    | some (nSize, pc') =>
      -- The distance to the end is compared as an `unsigned int`.
      if pc'.length % 2 ^ 32 < nSize then none else some (b.toNat, pc'.take nSize, pc'.drop nSize)

theorem pushSize_length {opcode : Nat} {pc pc' : Bytes} {n : Nat}
    (h : pushSize opcode pc = some (n, pc')) : pc'.length ≤ pc.length := by
  unfold pushSize at h
  split_ifs at h <;> · simp only [Option.some.injEq, Prod.mk.injEq] at h; simp [← h.2]

/-- Every opcode read makes progress. -/
theorem getOp_length {pc pc' data : Bytes} {opcode : Nat}
    (h : getOp pc = some (opcode, data, pc')) : pc'.length < pc.length := by
  cases pc with
  | nil => simp [getOp] at h
  | cons b rest =>
    rw [getOp] at h
    cases hpush : pushSize b.toNat rest with
    | none => simp [hpush] at h
    | some res =>
      rcases res with ⟨n, tail⟩
      have hle := pushSize_length hpush
      simp only [hpush] at h
      split_ifs at h
      simp only [Option.some.injEq, Prod.mk.injEq] at h
      rw [← h.2.2, List.length_drop, List.length_cons]
      omega

/-- `GetSigOpCount(fAccurate)`; the fuel is the length of the script. -/
def sigOpLoop (fAccurate : Bool) : Nat → Nat → Bytes → Nat
  | 0, _, _ => 0
  | fuel + 1, lastOpcode, pc =>
    match getOp pc with
    | none => 0
    | some (opcode, _, pc') =>
      let n :=
        if opcode = opCheckSig ∨ opcode = opCheckSigVerify then 1
        else if opcode = opCheckMultiSig ∨ opcode = opCheckMultiSigVerify then
          if fAccurate ∧ op1 ≤ lastOpcode ∧ lastOpcode ≤ op16 then lastOpcode - (op1 - 1) else 20
        else 0
      n + sigOpLoop fAccurate fuel opcode pc'

def getSigOpCount (script : CScript) (fAccurate : Bool) : Nat :=
  sigOpLoop fAccurate script.length opInvalidOpcode script

def isPayToScriptHash (script : CScript) : Bool :=
  script.length == 23 && script.getD 0 0 == opHash160 && script.getD 1 0 == 0x14 &&
    script.getD 22 0 == opEqual

/-- The last item that `scriptSig` pushes; `none` when it does more than push. -/
def lastPush : Nat → Bytes → Bytes → Option Bytes
  | 0, _, data => some data
  | _ + 1, [], data => some data
  | fuel + 1, b :: pc, _ =>
    match getOp (b :: pc) with
    | none => none
    | some (opcode, data, pc') => if opcode > op16 then none else lastPush fuel pc' data

/-- `GetSigOpCount(scriptSig)`. -/
def getP2SHSigOpCount (script scriptSig : CScript) : Nat :=
  if !isPayToScriptHash script then getSigOpCount script true
  else
    match lastPush scriptSig.length scriptSig [] with
    | none => 0
    | some data => getSigOpCount data true

end CScript

/-- `GetLegacySigOpCount`. -/
def getLegacySigOpCount (tx : CTransaction) : Nat :=
  (tx.vin.map fun i => CScript.getSigOpCount i.scriptSig false).sum +
    (tx.vout.map fun o => CScript.getSigOpCount o.scriptPubKey false).sum

end Dobbscoin
