import ToyLang.Lexicon.Keyword
import ToyLang.Lexicon.Scalar
import ToyLang.Lexicon.Symbol

/-!
# Token kinds

A token is a keyword, a type name, a symbol, or one of six kinds with a payload of their own.
Tokens handed in from outside may be of any further kind; `other` holds its name, which is none of
the fixed ones, so that a kind is determined by its name (`ofName_name`, `name_ofName`).
-/

set_option autoImplicit false

namespace ToyLang

/-- The names of the kinds that the lexer makes. -/
def TokenKind.fixedNames : List String :=
  Keyword.all.map Keyword.kindName ++ Scalar.all.map Scalar.kindName ++
    Punct.all.map Punct.kindName ++ Operator.all.map Operator.kindName ++
    ["IDENT", "NUMBER", "STRING", "CHAR", "ERROR", "EOF"]

/-- What a token is. -/
inductive TokenKind where
  | keyword (k : Keyword)
  | type (s : Scalar)
  | punct (p : Punct)
  | operator (o : Operator)
  | ident
  | number
  | string
  | char
  | error
  | eof
  | other (name : String) (fresh : name ∉ TokenKind.fixedNames)
deriving DecidableEq

namespace TokenKind

/-- The name of the kind. -/
def name : TokenKind → String
  | keyword k => k.kindName
  | type s => s.kindName
  | punct p => p.kindName
  | operator o => o.kindName
  | ident => "IDENT"
  | number => "NUMBER"
  | string => "STRING"
  | char => "CHAR"
  | error => "ERROR"
  | eof => "EOF"
  | other name _ => name

/-- Every kind but the ones from outside, in the order of their names. -/
def fixed : List TokenKind :=
  Keyword.all.map keyword ++ Scalar.all.map type ++ Punct.all.map punct ++
    Operator.all.map operator ++ [ident, number, string, char, error, eof]

/-- The kind with a given name. -/
def ofName (s : String) : TokenKind := Lexicon.named fixed name other s

theorem name_ofName (s : String) : (ofName s).name = s :=
  Lexicon.name_named (fun _ _ => rfl) s

theorem ofName_name (k : TokenKind) : ofName k.name = k := by
  cases k with
  | keyword k => exact Lexicon.named_name_of_find? (by cases k <;> decide)
  | type s => exact Lexicon.named_name_of_find? (by cases s <;> decide)
  | punct p => exact Lexicon.named_name_of_find? (by cases p <;> decide)
  | operator o => exact Lexicon.named_name_of_find? (by cases o <;> decide)
  | other n fresh => exact Lexicon.named_of_not_mem fresh
  | _ => exact Lexicon.named_name_of_find? (by decide)

theorem name_injective {k l : TokenKind} (h : k.name = l.name) : k = l := by
  rw [← ofName_name k, h, ofName_name]

/-! ## Kinds with a spelling -/

/-- How tokens of the kind are written, if all of them are written alike. -/
def spelling? : TokenKind → Option String
  | keyword k => some k.spelling
  | type s => some s.spelling
  | punct p => some p.spelling
  | operator o => some o.spelling
  | _ => none

/-- The kind in messages: its spelling, or its name where it has none. -/
def display (k : TokenKind) : String := k.spelling?.getD k.name

/-- Every kind with a spelling, with that spelling. -/
def spellings : List (String × TokenKind) :=
  fixed.filterMap fun k => k.spelling?.map (·, k)

/-- The kind of a word: a keyword, a type name or an identifier. -/
def ofWord (s : String) : TokenKind :=
  match Keyword.ofSpelling? s, Scalar.ofSpelling? s with
  | some k, _ => .keyword k
  | none, some t => .type t
  | none, none => .ident

/-- The kind of a symbol. -/
def ofSymbol? (s : String) : Option TokenKind :=
  match Punct.ofSpelling? s, Operator.ofSpelling? s with
  | some p, _ => some (.punct p)
  | none, some o => some (.operator o)
  | none, none => none

/-- The operator that tokens of the kind stand for. -/
def operator? : TokenKind → Option Operator
  | operator o => some o
  | _ => none

theorem operator?_eq_some_iff {k : TokenKind} {o : Operator} :
    k.operator? = some o ↔ k = .operator o := by
  cases k <;> simp [operator?]

end TokenKind

end ToyLang
