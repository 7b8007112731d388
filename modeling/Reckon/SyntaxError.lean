import Reckon.Diagnostic
import Reckon.Text.Lines

/-
What can be wrong with the text of an expression.
-/

namespace Reckon

/-- What would have been accepted in the place of an unexpected token. -/
inductive Expectation
  | operand
  | operator
  | operatorOrClosing
deriving DecidableEq, Repr

def Expectation.text : Expectation → String
  | .operand => "operand"
  | .operator => "operator"
  | .operatorOrClosing => "operator or ')'"

inductive SyntaxError.Cause
  | unexpectedCharacter (c : Char)
  | unknownOperator (c : Char)
  | unexpectedToken (expected : Expectation) (found : String)
  | unexpectedEnd (expected : Expectation)
  | unclosedParenthesis
  | unmatchedParenthesis
  | missingArgument
deriving DecidableEq, Repr

/-- A fault of the text with its place, and the line it lies in if that is known. -/
structure SyntaxError where
  cause : SyntaxError.Cause
  span : Span
  sourceLine : Option String
deriving DecidableEq, Repr

namespace SyntaxError

def Cause.code : Cause → String
  | .unexpectedCharacter _ => "E001"
  | .unknownOperator _ => "E002"
  | .unexpectedToken _ _ => "E101"
  | .unexpectedEnd _ => "E102"
  | .unclosedParenthesis => "E103"
  | .unmatchedParenthesis => "E103"
  | .missingArgument => "E104"

/-- The message of an error that begins at this offset. -/
def Cause.message (offset : Nat) : Cause → String
  | .unexpectedCharacter c =>
      "unexpected character '" ++ c.toString ++ "' at offset " ++ toString offset
  | .unknownOperator c => "unknown operator '" ++ c.toString ++ "' at offset " ++ toString offset
  | .unexpectedToken expected found => "expected " ++ expected.text ++ ", found " ++ found
  | .unexpectedEnd expected => "unexpected end of input, expected " ++ expected.text
  | .unclosedParenthesis => "unclosed '('"
  | .unmatchedParenthesis => "unmatched ')'"
  | .missingArgument => "missing argument"

def Cause.hints : Cause → List String
  | .unknownOperator _ => ["supported operators: + - * / % ^ !"]
  | .unclosedParenthesis => ["add a matching ')'"]
  | .missingArgument => ["every group and every comma-separated argument needs an expression"]
  | _ => []

/-- The error with the line of the source that its place refers to. -/
def within (source : String) (error : SyntaxError) : SyntaxError :=
  { error with sourceLine := lineAt? source error.span.start.line }

def diagnostic (error : SyntaxError) : Diagnostic where
  code := error.cause.code
  message := error.cause.message error.span.start.offset
  extent := some error.span.extent
  sourceLine := error.sourceLine
  hints := error.cause.hints

end SyntaxError

end Reckon
