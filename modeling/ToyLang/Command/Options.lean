import ToyLang.Parser.Builder
import ToyLang.Printer.Page
import ToyLang.Text.Utf8

/-!
# Options, results and failures of the command

What the command is asked to do, what it may fail with, and the texts that tell its user.
-/

set_option autoImplicit false

namespace ToyLang

/-- What the command is asked to do. `source` is a program or the name of a file that holds one. -/
structure Options where
  source : String
  inline : Bool := false
  ast : Bool := false
  tokens : Bool := false
  strict : Bool := false
  out : Option String := none
deriving DecidableEq

/-! ## Files that cannot be used -/

/-- Why a path cannot be opened. -/
inductive FileFault where
  | notFound | alreadyExists | notDirectory | isDirectory | nameTooLong
  | other (code : Nat) (text : String)
deriving DecidableEq

namespace FileFault

/-- The number of the fault. -/
def code : FileFault → Nat
  | notFound => 2
  | alreadyExists => 17
  | notDirectory => 20
  | isDirectory => 21
  | nameTooLong => 36
  | other code _ => code

/-- The fault in words. -/
def text : FileFault → String
  | notFound => "No such file or directory"
  | alreadyExists => "File exists"
  | notDirectory => "Not a directory"
  | isDirectory => "Is a directory"
  | nameTooLong => "File name too long"
  | other _ text => text

end FileFault

/-- A path that cannot be opened. -/
structure FileError where
  fault : FileFault
  path : String
deriving DecidableEq

/-- The error in words. -/
def FileError.message (e : FileError) : String :=
  s!"[Errno {e.fault.code}] {e.fault.text}: {Text.quoted e.path}"

/-! ## Failures -/

/-- What ends the command without a status. -/
inductive Failure where
  | notProgram
  | nulInPath
  | undecodable (e : Text.DecodeError)
  | file (e : FileError)
  | halted (h : Halt)
  | print (e : PrintError)
deriving DecidableEq

namespace Failure

/-- The failure in words. -/
def message : Failure → String
  | notProgram => "Only .tl files are supported."
  | nulInPath => "embedded null byte"
  | undecodable e => e.message
  | file e => e.message
  | halted h => h.message
  | print e => e.message

/-- Whether the failure lies in what the user asked for. -/
def isMisuse : Failure → Bool
  | notProgram | nulInPath | undecodable _ | halted (.lexical ⟨.tooLong _, _⟩) => true
  | file _ | halted _ | print _ => false

end Failure

end ToyLang
