import SqlAnalysis.Collation
import SqlAnalysis.Script.Token
import SqlAnalysis.SqlType.Interval

/-!
What can be wrong with a text in the tree notation.
-/

namespace SqlAnalysis.Script

inductive Cause where
  | bad (cause : BadToken)
  | emptyStatement
  | trailing (text : String)
  | unexpectedEnd
  | unexpected (text : String)
  | malformedNumber (text : String)
  | malformedIdentifier (text : String)
  | operatorNameExpected
  | duplicateOperand (name : String)
  | noOperand (op name : String)
  | tooManyOperands (op : String) (most : Nat)
  | unknownOperator (name : String)
  | noNamedOperands (name : String)
  | unknownForm (text : String)
  | closeBraceExpected
  | stringExpected
  | unitExpected
  | typeNameExpected
  | malformedLiteral (kind text : String)
  | invalidQualifier (first last : TimeUnit)
  | malformedPrecision (text : String)
  | collation (e : CollationError)
  | notCollatable
deriving Repr, DecidableEq

def Cause.message : Cause → String
  | .bad .unterminatedString => "unterminated string literal"
  | .bad .emptyName => "empty keyword or symbol"
  | .emptyStatement => "empty statement"
  | .trailing text => "syntax error: unexpected " ++ Text.quote text ++ " after statement"
  | .unexpectedEnd => "syntax error: unexpected end of input"
  | .unexpected text => "syntax error: unexpected " ++ Text.quote text
  | .malformedNumber text => "malformed number " ++ Text.quote text
  | .malformedIdentifier text => "malformed identifier " ++ Text.quote text
  | .operatorNameExpected => "syntax error: operator name expected"
  | .duplicateOperand name => "duplicate operand :" ++ name
  | .noOperand op name => op ++ " has no operand :" ++ name
  | .tooManyOperands op most => op ++ " takes at most " ++ Number.natText most ++ " operands"
  | .unknownOperator name => "unknown operator " ++ name
  | .noNamedOperands name => name ++ " does not take named operands"
  | .unknownForm text => "unknown form \x7b" ++ text ++ " ...\x7d"
  | .closeBraceExpected => "syntax error: \x7d expected"
  | .stringExpected => "syntax error: string expected"
  | .unitExpected => "syntax error: time unit expected"
  | .typeNameExpected => "syntax error: type name expected"
  | .malformedLiteral kind text => "malformed " ++ kind ++ " literal '" ++ text ++ "'"
  | .invalidQualifier first last =>
    "invalid interval qualifier " ++ first.toText ++ " TO " ++ last.toText
  | .malformedPrecision text => "malformed precision " ++ Text.quote text
  | .collation e => e.message
  | .notCollatable => "COLLATE applies to a string or an identifier"

structure Error where
  cause : Cause
  span : Option Span
deriving Repr, DecidableEq

def Error.located (e : Error) : Located :=
  match e.span with
  | some s => { message := e.cause.message, pos := s.first, stop := s.last }
  | none => { message := e.cause.message }

end SqlAnalysis.Script
