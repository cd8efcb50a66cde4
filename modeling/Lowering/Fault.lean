/-!
Why an operation stops. A fault that the compiler states itself has a text; one that comes from
using a value in a way it does not allow has a kind only.
-/
namespace Lowering

inductive FaultKind
  | value | general | type | notImplemented | unsupported | member | key | index | overflow
  | unbound | name | packing | decoding | fileMissing | buffer
  deriving DecidableEq, Repr

def classText (path : String) : String := "<class '" ++ path ++ "'>"

inductive Fault
  | setupMissing
  | noInsertBlock
  | noBranchSource
  | phiArity (values blocks : Nat)
  | functionTypeUnset
  | arrayTypeUnset
  | globalSlotMissing
  | variableSlotMissing
  | constantRejected (classText : String)
  | constantUnwritable (className content : String)
  | hintExpected (classText : String)
  | noCodeFunction
  | noParentFunction
  | signatureUnknown
  | suffixUnknown
  | idNotInteger
  | noTypeGiven
  | typesIncomparable
  | loopTarget
  | calleeShape
  | typeNotCallable (type method : String)
  | specializedCall
  | operatorWithoutMethod (operator : String)
  | operatorNotSpecial
  | operandUnfit
  | operatorNotDone (operator : String)
  | operationNotDone
  | protocolName (name : String)
  | argumentCount (arguments name : String)
  | iteratorName (name : String)
  | compareSlot
  | refCountAbsent
  | opcodeUnknown (name : String)
  | stackValue (text : String)
  | offsetUnreached (offset : String)
  | unsupported
  | noMember
  /-- A value of the wrong sort, or the wrong number of arguments. -/
  | misuse
  | noKey
  | outOfRange
  | tooLarge
  | unassigned
  | unknownName
  | unpackable
  | absentItem
  | undecodable
  | fileMissing
  /-- Bytes that are being read cannot grow. -/
  | inUse
  deriving DecidableEq, Repr

namespace Fault

def kind : Fault → FaultKind
  | setupMissing | noInsertBlock | functionTypeUnset | arrayTypeUnset | globalSlotMissing
  | variableSlotMissing | constantUnwritable .. | noCodeFunction | noParentFunction
  | iteratorName _ | compareSlot | refCountAbsent | opcodeUnknown _ => .general
  | noBranchSource | phiArity .. | constantRejected _ | hintExpected _ | signatureUnknown
  | suffixUnknown | noTypeGiven | loopTarget | typeNotCallable .. | operatorWithoutMethod _
  | operatorNotSpecial | offsetUnreached _ | absentItem => .value
  | idNotInteger | operandUnfit | argumentCount .. | stackValue _ | misuse => .type
  | typesIncomparable | calleeShape | specializedCall | operatorNotDone _
  | operationNotDone => .notImplemented
  | protocolName _ | unknownName => .name
  | unsupported => .unsupported
  | noMember => .member
  | noKey => .key
  | outOfRange => .index
  | tooLarge => .overflow
  | unassigned => .unbound
  | unpackable => .packing
  | undecodable => .decoding
  | fileMissing => .fileMissing
  | inUse => .buffer

def message? : Fault → Option String
  | setupMissing => some "Setup was not called on CodeGen"
  | noInsertBlock => some "Must first insert a block to get the writer"
  | noBranchSource => some "There is no current block to branch from"
  | phiArity values blocks =>
    some ("The number of values must be equal to the number of predecessor blocks (" ++
      toString values ++ "," ++ toString blocks ++ ")")
  | functionTypeUnset => some "CodeType Function was not properly set"
  | arrayTypeUnset => some "CodeType Array was not properly set"
  | globalSlotMissing => some "Global variable ref not found."
  | variableSlotMissing => some "Variable ref not found."
  | constantRejected classText => some ("Const type " ++ classText ++ " not expected")
  | constantUnwritable className content =>
    some ("Not supported const of type " ++ classText className ++ "with content " ++ content)
  | hintExpected classText => some (classText ++ " instead of HintType")
  | noCodeFunction => some "Main func has no code_func"
  | noParentFunction => some "Function implementation has no parent function"
  | signatureUnknown => some "Valid type expected to get signature"
  | suffixUnknown => some "Valid impl type expected"
  | idNotInteger => some "Integer expected for id"
  | noTypeGiven => some "You must specify at least one type to get the most common one"
  | loopTarget => some "Exception here not supported"
  | calleeShape => some "Call func node not supported"
  | typeNotCallable type method => some ("Type un-callable: " ++ type ++ " for method " ++ method)
  | specializedCall => some "We don't do specialize call right now"
  | operatorWithoutMethod operator =>
    some ("The operator '" ++ operator ++
      "' is a special case and doesn't have a dunder method associated to it")
  | operatorNotSpecial => some "Operator is not a special case"
  | operatorNotDone operator => some operator
  | protocolName name => some ("Unsupported protocol for function name " ++ name)
  | argumentCount arguments name =>
    some ("The given number of arguments (" ++ arguments ++
      ") doesn't match the number of parameters required for " ++ name)
  | iteratorName name => some ("Func with name" ++ name ++ " not supported for iterator protocol")
  | compareSlot => some "Rich compare slot is None"
  | refCountAbsent => some "Could not print ref count since it's None"
  | opcodeUnknown name => some ("Unsupported op " ++ name)
  | stackValue text => some ("Value expected to be a int instead of " ++ text)
  | offsetUnreached offset =>
    some ("Didn't find an instruction for the offset to reach " ++ offset)
  | typesIncomparable | operandUnfit | operationNotDone | unsupported => some ""
  | noMember | misuse | noKey | outOfRange | tooLarge | unassigned | unknownName | unpackable
  | absentItem | undecodable | fileMissing | inUse => none

end Fault
end Lowering
