import ToyLang.Lexicon.Table

/-!
# Scalar types

The types that a program can name. Each has a spelling, a name and a token kind.
-/

set_option autoImplicit false

namespace ToyLang

/-- A type with a name in the language. -/
inductive Scalar where
  | i8 | u8 | i16 | u16 | i32 | u32 | i64 | u64 | string | char | bool
deriving DecidableEq, Repr

namespace Scalar

/-- Every scalar type. -/
def all : List Scalar := [i8, u8, i16, u16, i32, u32, i64, u64, string, char, bool]

/-- How the type is written. -/
def spelling : Scalar → String
  | i8 => "i8" | u8 => "u8" | i16 => "i16" | u16 => "u16" | i32 => "i32" | u32 => "u32"
  | i64 => "i64" | u64 => "u64" | string => "string" | char => "char" | bool => "bool"

/-- The name of the type in displays. -/
def name : Scalar → String
  | i8 => "I8" | u8 => "U8" | i16 => "I16" | u16 => "U16" | i32 => "I32" | u32 => "U32"
  | i64 => "I64" | u64 => "U64" | string => "STRING" | char => "CHAR" | bool => "BOOL"

/-- The name of the token kind of the type. -/
def kindName : Scalar → String
  | i8 => "TYPE_I8" | u8 => "TYPE_U8" | i16 => "TYPE_I16" | u16 => "TYPE_U16"
  | i32 => "TYPE_I32" | u32 => "TYPE_U32" | i64 => "TYPE_I64" | u64 => "TYPE_U64"
  | string => "TYPE_STRING" | char => "TYPE_CHAR" | bool => "TYPE_BOOL"

/-- The type with a given spelling. -/
def ofSpelling? (s : String) : Option Scalar := Lexicon.find? all spelling s

theorem mem_all (s : Scalar) : s ∈ all := by cases s <;> decide

theorem ofSpelling?_spelling (s : Scalar) : ofSpelling? s.spelling = some s := by
  cases s <;> decide

theorem ofSpelling?_eq_some_iff {t : String} {s : Scalar} :
    ofSpelling? t = some s ↔ s.spelling = t :=
  Lexicon.find?_eq_some_iff ofSpelling?_spelling

end Scalar

end ToyLang
