/-!
# Script errors

`script/script_error.h` and `script/script_error.cpp`.
-/

namespace Dobbscoin

/-- `ScriptError`; `SCRIPT_ERR_OK` is success and no value of it. -/
inductive ScriptError where
  | unknownError
  | evalFalse
  | opReturn
  | scriptSize
  | pushSize
  | opCount
  | stackSize
  | sigCount
  | pubKeyCount
  | verify
  | equalVerify
  | checkMultiSigVerify
  | checkSigVerify
  | numEqualVerify
  | badOpcode
  | disabledOpcode
  | invalidStackOperation
  | invalidAltStackOperation
  | unbalancedConditional
  | sigHashType
  | sigDer
  | minimalData
  | sigPushOnly
  | sigHighS
  | sigNullDummy
  | pubKeyType
  | discourageUpgradableNops
  | negativeLockTime
  | unsatisfiedLockTime
  deriving DecidableEq

def scriptErrorString : ScriptError → String
  | .evalFalse => "Script evaluated without error but finished with a false/empty top stack element"
  | .verify => "Script failed an OP_VERIFY operation"
  | .equalVerify => "Script failed an OP_EQUALVERIFY operation"
  | .checkMultiSigVerify => "Script failed an OP_CHECKMULTISIGVERIFY operation"
  | .checkSigVerify => "Script failed an OP_CHECKSIGVERIFY operation"
  | .numEqualVerify => "Script failed an OP_NUMEQUALVERIFY operation"
  | .scriptSize => "Script is too big"
  | .pushSize => "Push value size limit exceeded"
  | .opCount => "Operation limit exceeded"
  | .stackSize => "Stack size limit exceeded"
  | .sigCount => "Signature count negative or greater than pubkey count"
  | .pubKeyCount => "Pubkey count negative or limit exceeded"
  | .badOpcode => "Opcode missing or not understood"
  | .disabledOpcode => "Attempted to use a disabled opcode"
  | .invalidStackOperation => "Operation not valid with the current stack size"
  | .invalidAltStackOperation => "Operation not valid with the current altstack size"
  | .opReturn => "OP_RETURN was encountered"
  | .unbalancedConditional => "Invalid OP_IF construction"
  | .sigHashType => "Signature hash type missing or not understood"
  | .sigDer => "Non-canonical DER signature"
  | .minimalData => "Data push larger than necessary"
  | .sigPushOnly => "Only non-push operators allowed in signatures"
  | .sigHighS => "Non-canonical signature: S value is unnecessarily high"
  | .sigNullDummy => "Dummy CHECKMULTISIG argument must be zero"
  | .discourageUpgradableNops => "NOPx reserved for soft-fork upgrades"
  | .negativeLockTime => "Negative locktime"
  | .unsatisfiedLockTime => "Locktime requirement not satisfied"
  | .pubKeyType => "Public key is neither compressed or uncompressed"
  | .unknownError => "unknown error"

/-- How a step of a script ends when it does not go on. -/
inductive ScriptFault where
  | error (e : ScriptError)
  /-- An exception, which `EvalScript` catches. -/
  | threw (what : String)
  /-- An access outside of a stack. -/
  | outOfRange
  deriving DecidableEq

/-- What `EvalScript` reports. -/
def ScriptFault.toError : ScriptFault → ScriptError
  | .error e => e
  | .threw _ => .unknownError
  | .outOfRange => .unknownError

end Dobbscoin
