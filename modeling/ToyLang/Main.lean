import ToyLang.Command.Run

/-!
# The program

The command on the files of the system: it reads its arguments, prints what the run prints and ends
with the status of the run, or with one and a message where the run fails.
-/

set_option autoImplicit false

namespace ToyLang

/-- The fault with a number. -/
def FileFault.ofCode (code : Nat) (text : String) : FileFault :=
  match code with
  | 2 => .notFound
  | 17 => .alreadyExists
  | 20 => .notDirectory
  | 21 => .isDirectory
  | 36 => .nameTooLong
  | code => .other code text

/-- The fault behind an error of the system. -/
def FileFault.ofSystem : IO.Error → FileFault
  | .otherError c t | .resourceBusy c t | .resourceVanished c t | .unsupportedOperation c t
  | .hardwareFault c t | .unsatisfiedConstraints c t | .illegalOperation c t | .protocolError c t
  | .timeExpired c t | .alreadyExists _ c t | .interrupted _ c t | .noFileOrDirectory _ c t
  | .invalidArgument _ c t | .permissionDenied _ c t | .resourceExhausted _ c t
  | .inappropriateType _ c t | .noSuchThing _ c t => .ofCode c.toNat t
  | .unexpectedEof => .other 0 "Unexpected end of file"
  | .userError text => .other 0 text

/-- An action on a file, its error caught. -/
def caught {α : Type} (action : IO α) : IO (Except FileFault α) :=
  try
    return .ok (← action)
  catch e =>
    return .error (.ofSystem e)

/-- The files of the system. -/
def systemFiles : Files IO where
  read path := caught do return (← IO.FS.readBinFile path).toList
  write path text := caught (IO.FS.writeFile path text)

end ToyLang

/-- Runs the command for the arguments of the program. -/
def main (args : List String) : IO UInt32 := do
  let o ← ToyLang.invoke ToyLang.systemFiles args
  (← IO.getStdout).putStr o.stdout
  (← IO.getStderr).putStr o.stderr
  match o.status with
  | .ok status => return status.toUInt32
  | .error failure =>
    (← IO.getStderr).putStr (failure.message ++ "\n")
    return 1
