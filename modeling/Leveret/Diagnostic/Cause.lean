import Leveret.Text.Quoted

/-!
# Causes of failure

What can be wrong with a program, from its characters to its run, and how each fault is worded.
-/

namespace Leveret

inductive Cause where
  | unrecognisedToken (token : String)
  | unexpectedToken (token : String)
  | unexpectedTokenDetailed (token message : String)
  | numberParseError (token : String)
  | binOpMismatch (left operator right : String)
  | unaryOpMismatch (operator operand : String)
  | duplicateDeclaration (name : String)
  | undefinedName (name : String)
  | initMismatch (expected received : String)
  | assignTypeMismatch (name expected received : String)
  | assignToConst (name : String)
  | conditionMismatch (construct received : String)
  | missingValue
  | loopControlOutsideLoop (keyword : String)
  | divisionByZero
  | internalError (message : String)
  | codegenError (message : String)
deriving DecidableEq, Inhabited

namespace Cause

def name : Cause → String
  | unrecognisedToken _ => "UnrecognisedToken"
  | unexpectedToken _ => "UnexpectedToken"
  | unexpectedTokenDetailed .. => "UnexpectedTokenDetailed"
  | numberParseError _ => "NumberParseError"
  | binOpMismatch .. => "BinOpMismatch"
  | unaryOpMismatch .. => "UnaryOpMismatch"
  | duplicateDeclaration _ => "DuplicateDeclaration"
  | undefinedName _ => "UndefinedName"
  | initMismatch .. => "InitMismatch"
  | assignTypeMismatch .. => "AssignTypeMismatch"
  | assignToConst _ => "AssignToConst"
  | conditionMismatch .. => "ConditionMismatch"
  | missingValue => "MissingValue"
  | loopControlOutsideLoop _ => "LoopControlOutsideLoop"
  | divisionByZero => "DivisionByZero"
  | internalError _ => "InternalError"
  | codegenError _ => "CodegenError"

open Text in
def message : Cause → String
  | unrecognisedToken token => "unrecognised token: " ++ quote token
  | unexpectedToken token => "unexpected token: " ++ quote token
  | unexpectedTokenDetailed token message =>
    "unexpected token (" ++ quote message ++ "): " ++ quote token
  | numberParseError token => "error parsing number: " ++ quote token
  | binOpMismatch left operator right => s!"type error ({left} {operator} {right})"
  | unaryOpMismatch operator operand => s!"type error {operator}{operand}"
  | duplicateDeclaration name => s!"duplicate definition of {name}"
  | undefinedName name => s!"undefined name {name}"
  | initMismatch expected received =>
    s!"type mismatch in initialization: expected {expected}, received {received}"
  | assignTypeMismatch name expected received =>
    s!"bad assignment to {name}: expected {expected}, received {received}"
  | assignToConst name => s!"can't assign to const {name}"
  | conditionMismatch construct received =>
    s!"{construct} condition must be bool, received {received}"
  | missingValue => "expression has no value"
  | loopControlOutsideLoop keyword => s!"{keyword} outside of loop"
  | divisionByZero => "division by zero"
  | internalError message => s!"internal error: {message}"
  | codegenError message => s!"code generation failed: {message}"

def tip? : Cause → Option String
  | unrecognisedToken _ => none
  | unexpectedToken token => some s!"Unexpected token: `{token}`, did you miss a semicolon?"
  | unexpectedTokenDetailed token message => some s!"Unexpected token: `{token}`, {message}"
  | numberParseError token => some s!"Invalid number: `{token}`, is it above the integer limit?"
  | binOpMismatch left operator right =>
    some s!"Operator `{operator}` is not defined for `{left}` and `{right}`"
  | unaryOpMismatch operator operand =>
    some s!"Unary operator `{operator}` is not defined for `{operand}`"
  | duplicateDeclaration name => some s!"`{name}` is already declared in this scope"
  | undefinedName name => some s!"Name `{name}` is not declared in any enclosing scope"
  | initMismatch expected received =>
    some s!"Declared as `{expected}` but initialised with `{received}`"
  | assignTypeMismatch name expected received =>
    some s!"`{name}` has type `{expected}`, cannot assign `{received}`"
  | assignToConst name => some s!"`{name}` is a constant and cannot be reassigned"
  | conditionMismatch construct received =>
    some s!"`{construct}` condition must be `bool`, found `{received}`"
  | missingValue => some "This block does not end in an expression, so it has no value"
  | loopControlOutsideLoop keyword => some s!"`{keyword}` can only be used inside a loop"
  | divisionByZero => none
  | internalError _ => some "The program was not type checked before it was executed"
  | codegenError _ => some "Code generation expects a program without type errors"

/-- The faults that type checking reports. It goes on after them, so there may be several. -/
def isTypeError : Cause → Bool
  | binOpMismatch .. | unaryOpMismatch .. | duplicateDeclaration _ | undefinedName _
  | initMismatch .. | assignTypeMismatch .. | assignToConst _ | conditionMismatch ..
  | missingValue | loopControlOutsideLoop _ => true
  | _ => false

end Cause

end Leveret
