import ToyLang.Diagnostic

/-!
# What the parser reports

Every problem the parser can see, with its kind and its message. Where a message quotes something
from the text, the problem carries it.
-/

set_option autoImplicit false

namespace ToyLang

/-- A problem of a program. -/
inductive Problem where
  | unknownDeclaration
  | functionName
  | functionIs
  | argumentName
  | argumentColon
  | argumentEnd
  | structName
  | structIs
  | itemName
  | itemColon
  | structEnd
  | constName
  | colon
  | assignment
  | importToken
  | strayClause (word : String)
  | blockEnd
  | terminator
  | invalidStatement
  | clauseAfterElse (word : String)
  | variableName
  | structVariableName
  | structVariableColon
  | structVariableType
  | elementAssignment (name : String)
  | initializer (name : String)
  | listItem
  | invalidOperand
  | expressionEnd (stop : TokenKind)
  | memberName
  | missingOperand (operator : String)
  | noTarget
  | leftovers (count : Nat)
  | dataType
deriving DecidableEq

namespace Problem

/-- What is wrong. -/
def kind : Problem → ProblemKind
  | unknownDeclaration => .unexpectedToplevel
  | functionName | functionIs | argumentName | argumentColon | argumentEnd => .malformedFunction
  | structName | structIs | itemName | itemColon | structEnd => .malformedStruct
  | constName | colon | assignment | importToken | strayClause _ | blockEnd | terminator
  | invalidStatement | clauseAfterElse _ | variableName | structVariableName
  | structVariableColon | structVariableType | elementAssignment _ | initializer _ =>
    .malformedStatement
  | listItem | invalidOperand | expressionEnd _ | memberName | missingOperand _ | noTarget
  | leftovers _ => .malformedExpression
  | dataType => .unknownDataType

/-- The problem in words. -/
def message : Problem → String
  | unknownDeclaration => "Unknown token in global scope."
  | functionName => "Expected function name."
  | functionIs => "Expected \"is\"."
  | argumentName => "Expected argument name."
  | argumentColon => "Expected colon in function argument."
  | argumentEnd => "Expected ',' or ')' after argument."
  | structName => "Expected structure name."
  | structIs => "Expected \"is\"."
  | itemName => "Expected item name."
  | itemColon => "Expected ':' in structure item."
  | structEnd => "Expected \"end\" before end of file."
  | constName => "Expected name in constant declaration."
  | colon => "Expected colon."
  | assignment => "Expected assignment operator."
  | importToken => "Unexpected token in import path."
  | strayClause word => s!"Unexpected \"{word}\" outside of an if statement."
  | blockEnd => "Expected \"end\" before end of file."
  | terminator => "Expected terminator."
  | invalidStatement => "Invalid token statement."
  | clauseAfterElse word => s!"Unexpected \"{word}\" after \"else\"."
  | variableName => "Expected name in variable declaration."
  | structVariableName => "Expected variable name in structure declaration."
  | structVariableColon => "Expected ':' between structure variable name and structure name."
  | structVariableType => "Expected structure name in structure declaration."
  | elementAssignment name => s!"Expected \":=\" after \"{name}\" element access."
  | initializer name => s!"Expected \":=\" in declaration of \"{name}\"."
  | listItem => "Expected expression before ','."
  | invalidOperand => "Invalid token in expression."
  | expressionEnd stop => s!"Expected '{stop.display}' before end of file."
  | memberName => "Expected item name in structure access."
  | missingOperand operator => s!"Missing operand for '{operator}'."
  | noTarget => "Assignment has no target in this position."
  | leftovers count => s!"Expected operator; {count} operand(s) left unused."
  | dataType => "Unknown data type token."

/-- The diagnostic of a problem seen at a token. -/
def seenAt (p : Problem) (t : Token) : Diagnostic := .seenAt p.kind p.message (some t)

end Problem

end ToyLang
