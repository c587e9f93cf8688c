import ToyLang.Lexicon.Table

/-!
# Punctuation and operators

The symbols of the language: one or two characters each, none of them part of a word. An operator
also has the name of the expression it makes.
-/

set_option autoImplicit false

namespace ToyLang

/-- A symbol that structures a program. -/
inductive Punct where
  | lparen | rparen | lbracket | rbracket | semicolon | colon | comma | dot | arrow
deriving DecidableEq, Repr

namespace Punct

/-- Every punctuation symbol. -/
def all : List Punct :=
  [lparen, rparen, lbracket, rbracket, semicolon, colon, comma, dot, arrow]

/-- How the symbol is written. -/
def spelling : Punct → String
  | lparen => "(" | rparen => ")" | lbracket => "[" | rbracket => "]" | semicolon => ";"
  | colon => ":" | comma => "," | dot => "." | arrow => "->"

/-- The name of the token kind of the symbol. -/
def kindName : Punct → String
  | lparen => "LPAREN" | rparen => "RPAREN" | lbracket => "LBRACKET" | rbracket => "RBRACKET"
  | semicolon => "SEMICOLON" | colon => "COLON" | comma => "COMMA" | dot => "DOT"
  | arrow => "ARROW"

/-- The symbol with a given spelling. -/
def ofSpelling? (s : String) : Option Punct := Lexicon.find? all spelling s

theorem mem_all (p : Punct) : p ∈ all := by cases p <;> decide

theorem ofSpelling?_spelling (p : Punct) : ofSpelling? p.spelling = some p := by
  cases p <;> decide

theorem ofSpelling?_eq_some_iff {s : String} {p : Punct} :
    ofSpelling? s = some p ↔ p.spelling = s :=
  Lexicon.find?_eq_some_iff ofSpelling?_spelling

end Punct

/-- A symbol that joins operands. `assign` takes only its right-hand side from the operands. -/
inductive Operator where
  | assign | add | sub | mul | div | mod | and | or | xor | eq | ne | gt | ge | lt | le
  | logicalAnd | logicalOr
deriving DecidableEq, Repr

namespace Operator

/-- Every operator. -/
def all : List Operator :=
  [assign, add, sub, mul, div, mod, and, or, xor, eq, ne, gt, ge, lt, le, logicalAnd, logicalOr]

/-- How the operator is written. -/
def spelling : Operator → String
  | assign => ":=" | add => "+" | sub => "-" | mul => "*" | div => "/" | mod => "%" | and => "&"
  | or => "|" | xor => "^" | eq => "=" | ne => "!=" | gt => ">" | ge => ">=" | lt => "<"
  | le => "<=" | logicalAnd => "&&" | logicalOr => "||"

/-- The name of the token kind of the operator. -/
def kindName : Operator → String
  | assign => "ASSIGN" | add => "ADD" | sub => "SUB" | mul => "MUL" | div => "DIV"
  | mod => "MOD" | and => "AND" | or => "OR" | xor => "XOR" | eq => "EQ" | ne => "NE"
  | gt => "GT" | ge => "GE" | lt => "LT" | le => "LE" | logicalAnd => "LG_AND"
  | logicalOr => "LG_OR"

/-- The name of the expression kind that the operator makes. -/
def name : Operator → String
  | assign => "assign" | add => "add" | sub => "sub" | mul => "mul" | div => "div"
  | mod => "mod" | and => "and" | or => "or" | xor => "xor" | eq => "eq" | ne => "ne"
  | gt => "gt" | ge => "ge" | lt => "lt" | le => "le" | logicalAnd => "lg_and"
  | logicalOr => "lg_or"

/-- The operator with a given spelling. -/
def ofSpelling? (s : String) : Option Operator := Lexicon.find? all spelling s

theorem mem_all (o : Operator) : o ∈ all := by cases o <;> decide

theorem ofSpelling?_spelling (o : Operator) : ofSpelling? o.spelling = some o := by
  cases o <;> decide

theorem ofSpelling?_eq_some_iff {s : String} {o : Operator} :
    ofSpelling? s = some o ↔ o.spelling = s :=
  Lexicon.find?_eq_some_iff ofSpelling?_spelling

end Operator

end ToyLang
