import ToyLang.Command.Options
import ToyLang.Text.Digit

/-!
# Reading the command line

Arguments are options or positional. A long option may be shortened to any part of its front that
no other one shares, and may carry a value behind an equals sign; short options may be joined, with
or without an equals sign behind the first one, the last one with its value. A lone pair of hyphens
makes everything behind it positional. Arguments that look like options and are none are refused at
the end, unless they are negative numbers or hold a blank, which makes them positional.

`classify` sorts one argument, `consume` acts on all of them in their order. A request for help is
granted as soon as it is reached, so that only what stands before it can be refused; an ambiguous
option is refused before anything else.
-/

set_option autoImplicit false

namespace ToyLang

/-- What the command line asks for. -/
inductive Request where
  | run (o : Options)
  | help
  | refuse (message : String)
deriving DecidableEq

namespace Arguments

/-! ## The options -/

/-- An option of the command. -/
inductive Switch where
  | help | inline | ast | tokens | strict | out
deriving DecidableEq

namespace Switch

/-- Every way to write an option in full, in the order in which matches are listed. -/
def spellings : List (String × Switch) :=
  [("-h", help), ("--help", help), ("-s", inline), ("--string", inline), ("--ast", ast),
   ("--tokens", tokens), ("--strict", strict), ("-o", out), ("--out", out)]

/-- The option written as `s`. -/
def ofSpelling? (s : String) : Option Switch := spellings.lookup s

/-- The option in messages. -/
def title : Switch → String
  | help => "-h/--help"
  | inline => "-s/--string"
  | ast => "--ast"
  | tokens => "--tokens"
  | strict => "--strict"
  | out => "-o/--out"

/-- Whether the option takes a value. -/
def takesValue : Switch → Bool
  | out => true
  | _ => false

end Switch

/-! ## Sorting arguments -/

/-- What an argument is. `short` says that an option is written with one hyphen, `joined` is what
the argument holds behind the option. -/
inductive Argument where
  | positional
  | switch (s : Switch) (short : Bool) (joined : Option String)
  | unknown
deriving DecidableEq

/-- The part before the first equals sign, and the part behind it, if there is one. -/
def splitEquals (s : String) : String × Option String :=
  (String.ofList (s.toList.takeWhile (· ≠ '=')),
    ((s.toList.dropWhile (· ≠ '=')).tail?).map String.ofList)

/-- Whether the text is a negative number, with or without a fraction; one line feed may follow. -/
def isNegativeNumber (s : String) : Bool :=
  match s.toList with
  | '-' :: cs =>
    let body := if cs.getLast? = some '\n' then cs.dropLast else cs
    let whole := body.takeWhile Text.isDecimal
    match body.dropWhile Text.isDecimal with
    | [] => !whole.isEmpty
    | '.' :: fraction => !fraction.isEmpty && fraction.all Text.isDecimal
    | _ => false
  | _ => false

/-- The long options that a shortened one may stand for. -/
def longMatches (start : String) : List (String × Switch) :=
  Switch.spellings.filter fun e => start.toList.isPrefixOf e.1.toList

/-- Sorts an argument before a lone pair of hyphens; an ambiguous option is given with everything it
could stand for. -/
def classify (s : String) : Except (List String) Argument :=
  match s.toList with
  | '-' :: second :: rest =>
    let short := second ≠ '-'
    let parts := splitEquals s
    match Switch.ofSpelling? s, Switch.ofSpelling? parts.1, parts.2 with
    | some o, _, _ => .ok (.switch o short none)
    | none, some o, some v => .ok (.switch o short (some v))
    | none, _, _ =>
      if short then
        match Switch.ofSpelling? (String.ofList ['-', second]) with
        | some o => .ok (.switch o true (some (String.ofList rest)))
        | none => .ok (unmatched s)
      else
        match longMatches parts.1 with
        | [] => .ok (unmatched s)
        | [(_, o)] => .ok (.switch o false parts.2)
        | options => .error (options.map Prod.fst)
  | _ => .ok .positional
where
  /-- What an argument is that stands for no option. -/
  unmatched (s : String) : Argument :=
    if isNegativeNumber s || s.contains ' ' then .positional else .unknown

/-! ## Acting on arguments -/

/-- What has been read of a command line. -/
structure State where
  options : Options := { source := "" }
  source : Option String := none
  extras : List String := []

/-- Why reading stops early. -/
inductive Stop where
  | help
  | refuse (message : String)

/-- Refuses a value that an option does not take, or one that it lacks. -/
def misuse {α : Type} (s : Switch) (text : String) : Except Stop α :=
  .error (.refuse s!"argument {s.title}: {text}")

/-- Refuses a value that an option does not take. -/
def ignored {α : Type} (s : Switch) (value : String) : Except Stop α :=
  misuse s s!"ignored explicit argument {Text.quoted value}"

/-- Acts on an option that takes no value. -/
def State.turnOn (st : State) : Switch → Except Stop State
  | .help => .error .help
  | .inline => .ok { st with options := { st.options with inline := true } }
  | .ast => .ok { st with options := { st.options with ast := true } }
  | .tokens => .ok { st with options := { st.options with tokens := true } }
  | .strict => .ok { st with options := { st.options with strict := true } }
  | .out => .ok st

/-- Acts on the option that takes a value. A lone pair of hyphens is no value: it takes back the one
that was given before. -/
def State.writeTo (st : State) (path : String) : State :=
  { st with options := { st.options with out := if path = "--" then none else some path } }

/-- Keeps an argument that has no place. -/
def State.addExtra (st : State) (s : String) : State := { st with extras := st.extras ++ [s] }

/-- Takes a positional argument: the first one is the source. -/
def State.takePositional (st : State) (s : String) : State :=
  match st.source with
  | none => { st with source := some s }
  | some _ => st.addExtra s

/-- What ends a row of joined options: nothing, an option whose value is the next argument, or an
option with its value. -/
inductive RowEnd where
  | closed
  | needsValue
  | value (path : String)

/-- Splits a row of joined short options, from the option `s` with `cs` joined to it, into the
options without value and the end of the row. A character that is no option is refused with
everything behind it. -/
def splitRow (s : Switch) : List Char → Except Stop (List Switch × RowEnd)
  | [] => if s.takesValue then .ok ([], .needsValue) else .ok ([s], .closed)
  | c :: cs =>
    if s.takesValue then .ok ([], .value (String.ofList (c :: cs)))
    else
      match Switch.ofSpelling? (String.ofList ['-', c]) with
      | none => ignored s (String.ofList (c :: cs))
      | some t => (splitRow t cs).map fun r => (s :: r.1, r.2)

/-- Splits an option with what is joined to it. -/
def splitOption (s : Switch) (short : Bool) : Option String → Except Stop (List Switch × RowEnd)
  | none => splitRow s []
  | some v =>
    if s.takesValue then .ok ([], .value v)
    else if short ∧ v ≠ "" then splitRow s v.toList
    else ignored s v

/-- Acts on the arguments behind a lone pair of hyphens. A pair of hyphens between the source and
what follows goes with the source, any other one has no place. -/
def consumeRest (st : State) (rest : List String) : State :=
  match st.source, rest with
  | some _, _ => ("--" :: rest).foldl State.addExtra st
  | none, [] => st.addExtra "--"
  | none, s :: rest => rest.foldl State.addExtra { st with source := some s }

/-- Acts on arguments in their order; each is given with what it is. -/
def consume (st : State) : List (String × Argument) → Option (List String) → Except Stop State
  | [], none => .ok st
  | [], some rest => .ok (consumeRest st rest)
  | (s, .positional) :: args, rest =>
    match st.source, args, rest with
    | none, [], some rest => .ok (rest.foldl State.addExtra { st with source := some s })
    | _, _, _ => consume (st.takePositional s) args rest
  | (s, .unknown) :: args, rest => consume (st.addExtra s) args rest
  | (_, .switch o short joined) :: args, rest => do
    let (row, ending) ← splitOption o short joined
    match ending, args with
    | .needsValue, (path, .positional) :: args =>
      consume ((← row.foldlM State.turnOn st).writeTo path) args rest
    | .needsValue, _ => misuse .out "expected one argument"
    | .value path, args => consume ((← row.foldlM State.turnOn st).writeTo path) args rest
    | .closed, args => consume (← row.foldlM State.turnOn st) args rest

/-- The arguments before a lone pair of hyphens, and those behind it, if there is one. -/
def splitAtHyphens (args : List String) : List String × Option (List String) :=
  (args.takeWhile (· ≠ "--"), (args.dropWhile (· ≠ "--")).tail?)

/-- What a whole command line asks for. -/
def request (args : List String) : Request :=
  let parts := splitAtHyphens args
  match parts.1.mapM fun s => (classify s).mapError fun options => (s, options) with
  | .error (s, options) =>
    .refuse ("ambiguous option: " ++ s ++ " could match " ++ ", ".intercalate options)
  | .ok sorted =>
    match consume {} (parts.1.zip sorted) parts.2 with
    | .error .help => .help
    | .error (.refuse message) => .refuse message
    | .ok st =>
      match st.source, st.extras with
      | none, _ => .refuse "the following arguments are required: source"
      | some source, [] => .run { st.options with source }
      | some _, extras => .refuse ("unrecognized arguments: " ++ " ".intercalate extras)

end Arguments

end ToyLang
