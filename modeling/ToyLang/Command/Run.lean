import ToyLang.Command.Arguments
import ToyLang.Json.Print
import ToyLang.Parser.File
import ToyLang.Printer.File
import ToyLang.Text.Newline
import ToyLang.Tree.Dump

/-!
# Running the command

`evaluate` is what a program comes to: lines that are printed whatever happens next, and the text
that is the result. `run` fetches the program and puts the result where it belongs, over any monad
that has files; `invoke` does so for a command line.
-/

set_option autoImplicit false

namespace ToyLang

/-! ## What a program comes to -/

/-- Lines to print first, and the result: a text, or none where the command is to fail. -/
structure Evaluation where
  notes : List String := []
  result : Except Failure (Option String)

/-- The token of a token listing. -/
def Token.listed (t : Token) : String := s!"{t.pos.line}:{t.pos.col} {t.display}"

/-- What an interruption comes to. A literal without an end and a rejected program are errors of
syntax and reported; nothing else is. -/
def Evaluation.ofHalt (h : Halt) : Evaluation :=
  match h with
  | .lexical ⟨.unterminated _, _⟩ | .rejected _ =>
    { notes := ["Error: " ++ h.message], result := .ok none }
  | .lexical ⟨.tooLong _, _⟩ | .occupied _ | .fault _ => { result := .error (.halted h) }

/-- The tokens of a program, one a line. -/
def listTokens (source : String) : Evaluation :=
  match (Cursor.ofText source).tokens with
  | (ts, none) => { result := .ok (some ("\n".intercalate (ts.map Token.listed))) }
  | (_, some e) => .ofHalt (.lexical e)

/-- The text without the line feeds at its end. -/
def dropFinalNewlines (s : String) : String :=
  String.ofList (Text.dropEndWhile (· = '\n') s.toList)

/-- The text that stands for a file. -/
def fileText (ast : Bool) (f : File) : Except Failure String :=
  if ast then .ok f.toJson.print
  else (f.unparse.map dropFinalNewlines).mapError .print

/-- The text of a program after a parse, behind its diagnostics. -/
def showTree (o : Options) (name source : String) : Evaluation :=
  match parse source name with
  | (.error h, _) => .ofHalt h
  | (.ok f, s) =>
    let notes := if s.diagnostics.hasErrors then [s.diagnostics.render] else []
    if s.diagnostics.hasErrors && o.strict then { notes, result := .ok none }
    else { notes, result := (fileText o.ast f).map some }

/-- What the program `source` comes to. -/
def evaluate (o : Options) (name source : String) : Evaluation :=
  if o.tokens then listTokens source else showTree o name source

/-! ## Running -/

/-- Files that can be read and written. -/
structure Files (m : Type → Type) where
  read : String → m (Except FileFault (List UInt8))
  write : String → String → m (Except FileFault Unit)

/-- What a run leaves behind besides files. -/
structure Outcome where
  stdout : String := ""
  stderr : String := ""
  status : Except Failure Nat

namespace Outcome

/-- The outcome with more lines printed before everything else. -/
def after (lines : List String) (o : Outcome) : Outcome :=
  { o with stdout := String.join (lines.map (· ++ "\n")) ++ o.stdout }

/-- A run that fails without a status. -/
def failed (f : Failure) : Outcome := { status := .error f }

/-- A run that ends with a status. -/
def ended (status : Nat) : Outcome := { status := .ok status }

end Outcome

section
variable {m : Type → Type} [Monad m]

/-- Works on a path, which must not hold a null character. -/
def withPath {α : Type} (path : String) (action : m (Except FileFault α)) :
    m (Except Failure α) :=
  if path.contains '\x00' then return .error .nulInPath
  else return (← action).mapError fun fault => .file ⟨fault, path⟩

/-- The program in a row of bytes. -/
def decodeProgram (bytes : List UInt8) : Except Failure String :=
  match Text.decode bytes with
  | .ok cs => .ok (String.ofList (Text.foldNewlines cs))
  | .error e => .error (.undecodable e)

/-- Prints a result, or writes it to a file. -/
def deliver (files : Files m) (out : Option String) (text : String) : m Outcome := do
  match out with
  | none | some "" => return Outcome.after [text] (.ended 0)
  | some path =>
    match ← withPath path (files.write path (text ++ "\n")) with
    | .ok () => return .ended 0
    | .error f => return .failed f

/-- Evaluates a program and delivers the result. -/
def runProgram (files : Files m) (o : Options) (name source : String) : m Outcome := do
  let e := evaluate o name source
  match e.result with
  | .error f => return Outcome.after e.notes (.failed f)
  | .ok none => return Outcome.after e.notes (.ended 1)
  | .ok (some text) => return Outcome.after e.notes (← deliver files o.out text)

/-- Runs the command. A file that cannot be opened is reported; anything else wrong with it is a
failure. -/
def run (files : Files m) (o : Options) : m Outcome := do
  if o.inline then runProgram files o "<string>" o.source
  else if o.source.endsWith ".tl" then
    match ← withPath o.source (files.read o.source) with
    | .error (.file e) => return Outcome.after ["Fatal Error!", e.message] (.ended 1)
    | .error f => return .failed f
    | .ok bytes =>
      match decodeProgram bytes with
      | .error f => return .failed f
      | .ok source => runProgram files o o.source source
  else return .failed .notProgram

/-! ## The command line -/

/-- The first line of every text about the use of the command. -/
def usage : String := "usage: tl [-h] [-s] [--ast] [--tokens] [--strict] [-o OUTFILE] source\n"

/-- The text that explains the command. -/
def helpText : String :=
  usage ++
  "\n" ++
  "positional arguments:\n" ++
  "  source                Filename or raw source (with -s)\n" ++
  "\n" ++
  "options:\n" ++
  "  -h, --help            show this help message and exit\n" ++
  "  -s, --string          Interpret source as literal string\n" ++
  "  --ast                 Dump the AST as JSON\n" ++
  "  --tokens              Dump the token stream\n" ++
  "  --strict              Exit with status 1 when any diagnostic is reported\n" ++
  "  -o OUTFILE, --out OUTFILE\n" ++
  "                        Output to file\n"

/-- The outcome of a command line that cannot be served. -/
def refused (message : String) (o : Outcome) : Outcome :=
  { o with stderr := usage ++ "tl: error: " ++ message ++ "\n", status := .ok 2 }

/-- Runs the command for a command line. -/
def invoke (files : Files m) (args : List String) : m Outcome := do
  match Arguments.request args with
  | .help => return { stdout := helpText, status := .ok 0 }
  | .refuse message => return refused message (.ended 2)
  | .run options =>
    let o ← run files options
    match o.status with
    | .error f => return if f.isMisuse then refused f.message o else o
    | .ok _ => return o

end

end ToyLang
