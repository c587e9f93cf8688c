import ToyLang.Lexicon.Table

/-!
# Keywords

The reserved words that are not type names, with the name of the token kind each one makes.
`Keyword.ofSpelling?` inverts the spelling.
-/

set_option autoImplicit false

namespace ToyLang

/-- A reserved word. -/
inductive Keyword where
  | func_ | is_ | end_ | var_ | const_ | struct_ | import_ | return_ | while_ | do_ | if_ | then_
  | elif_ | else_ | break_ | continue_ | true_ | false_
deriving DecidableEq, Repr

namespace Keyword

/-- Every keyword. -/
def all : List Keyword :=
  [func_, is_, end_, var_, const_, struct_, import_, return_, while_, do_, if_, then_, elif_,
   else_, break_, continue_, true_, false_]

/-- How the keyword is written. -/
def spelling : Keyword → String
  | func_ => "func" | is_ => "is" | end_ => "end" | var_ => "var" | const_ => "const"
  | struct_ => "struct" | import_ => "import" | return_ => "return" | while_ => "while"
  | do_ => "do" | if_ => "if" | then_ => "then" | elif_ => "elif" | else_ => "else"
  | break_ => "break" | continue_ => "continue" | true_ => "true" | false_ => "false"

/-- The name of the token kind of the keyword. -/
def kindName : Keyword → String
  | func_ => "FUNC" | is_ => "IS" | end_ => "END" | var_ => "VAR" | const_ => "CONST"
  | struct_ => "STRUCT" | import_ => "IMPORT" | return_ => "RETURN" | while_ => "WHILE"
  | do_ => "DO" | if_ => "IF" | then_ => "THEN" | elif_ => "ELIF" | else_ => "ELSE"
  | break_ => "BREAK" | continue_ => "CONTINUE" | true_ => "TRUE" | false_ => "FALSE"

/-- The keyword with a given spelling. -/
def ofSpelling? (s : String) : Option Keyword := Lexicon.find? all spelling s

theorem mem_all (k : Keyword) : k ∈ all := by cases k <;> decide

theorem ofSpelling?_spelling (k : Keyword) : ofSpelling? k.spelling = some k := by
  cases k <;> decide

theorem ofSpelling?_eq_some_iff {s : String} {k : Keyword} :
    ofSpelling? s = some k ↔ k.spelling = s :=
  Lexicon.find?_eq_some_iff ofSpelling?_spelling

end Keyword

end ToyLang
