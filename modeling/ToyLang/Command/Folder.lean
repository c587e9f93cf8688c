import ToyLang.Command.Run
import ToyLang.Text.Blank

/-!
# Folders

A folder holds files and folders, each at a row of names; it is the world of a run that touches no
other files. A path is walked name by name: every name but the last one must lead to a folder, a dot
stays, two dots go back. Going back from the folder itself leads outside, and so does a path that
starts with a slash; nothing but more of the outside is found there, and what is written there is
not kept.
-/

set_option autoImplicit false

namespace ToyLang

/-- Files with their bytes, and the folders that hold them. -/
structure Folder where
  files : List (List String × List UInt8) := []
  folders : List (List String) := []

namespace Folder

/-! ## Paths -/

/-- Where a path leads: to a file, a folder, a place where nothing is yet, or a place of that kind
outside. -/
inductive Place where
  | file (at_ : List String) (bytes : List UInt8)
  | folder
  | free (at_ : List String)
  | outside

/-- Refuses anything but a folder. -/
def Place.asFolder : Place → Except FileFault Unit
  | folder => .ok ()
  | file .. => .error .notDirectory
  | free _ | outside => .error .notFound

/-- The longest name, in bytes. -/
def maxName : Nat := 255

/-- The longest path, in bytes. -/
def maxPath : Nat := 4095

/-- One step back; `none` is the outside. -/
def back : Option (List String) → Option (List String)
  | some (name :: names) => some (name :: names).dropLast
  | _ => none

/-- Walks a row of names from a folder; `none` is the outside. -/
def walk (f : Folder) (here : Option (List String)) : List String → Except FileFault Place
  | [] => .ok .folder
  | name :: names =>
    if name = "" ∨ name = "." then f.walk here names
    else if name = ".." then f.walk (back here) names
    else if maxName < name.utf8ByteSize then .error .nameTooLong
    else
      match here with
      | none => if names.isEmpty then .ok .outside else .error .notFound
      | some here =>
        let there := here ++ [name]
        if there ∈ f.folders then f.walk (some there) names
        else
          match f.files.lookup there, names with
          | some bytes, [] => .ok (.file there bytes)
          | some _, _ :: _ => .error .notDirectory
          | none, [] => .ok (.free there)
          | none, _ :: _ => .error .notFound

/-- A path that may be walked: where it starts, and its names. -/
def route (path : String) : Except FileFault (Option (List String) × List String) :=
  if path = "" then .error .notFound
  else if maxPath < path.utf8ByteSize then .error .nameTooLong
  else .ok (if path.startsWith "/" then none else some [], path.splitOn "/")

/-- A row of names without the empty ones at its end, which slashes leave there. -/
def dropSlashes (names : List String) : List String :=
  Text.dropEndWhile (· = "") names

/-! ## Reading and writing -/

/-- The folder with a file put at a place. -/
def put (f : Folder) (at_ : List String) (bytes : List UInt8) : Folder :=
  { f with files := (at_, bytes) :: f.files.filter fun e => e.1 ≠ at_ }

/-- The bytes of a file. -/
def read (f : Folder) (path : String) : Except FileFault (List UInt8) := do
  let (here, names) ← route path
  match ← f.walk here names with
  | .file _ bytes => return bytes
  | .folder => .error .isDirectory
  | .free _ | .outside => .error .notFound

/-- The folder with bytes written to a file, which is made if need be. A path that ends in a slash
cannot be a file, whatever its last name leads to. -/
def write (f : Folder) (path : String) (bytes : List UInt8) : Except FileFault Folder := do
  let (here, names) ← route path
  if path.endsWith "/" then
    (← f.walk here (dropSlashes names).dropLast).asFolder
    .error .isDirectory
  else
    match ← f.walk here names with
    | .file at_ _ | .free at_ => return f.put at_ bytes
    | .folder => .error .isDirectory
    | .outside => return f

/-- The folder with one more folder in it. -/
def makeFolder (f : Folder) (path : String) : Except FileFault Folder := do
  let (here, names) ← route path
  match ← f.walk here (dropSlashes names) with
  | .free at_ => return { f with folders := f.folders ++ [at_] }
  | .file .. | .folder => .error .alreadyExists
  | .outside => return f

/-- A folder with some folders and files in it, made one after the other. -/
def build (folders : List String) (files : List (String × List UInt8)) :
    Except FileError Folder := do
  let f ← folders.foldlM (fun f path => (f.makeFolder path).mapError (⟨·, path⟩)) ({} : Folder)
  files.foldlM (fun f e => (f.write e.1 e.2).mapError (⟨·, e.1⟩)) f

/-! ## The world of a run -/

/-- The folder as the world of a run. -/
def world : Files (StateM Folder) where
  read path := do return (← get).read path
  write path text := do
    match (← get).write path text.toUTF8.data.toList with
    | .ok f =>
      set f
      return .ok ()
    | .error fault => return .error fault

/-- The files that lie directly in the folder and are not the same in `before`. -/
def changedSince (f before : Folder) : List (String × List UInt8) :=
  f.files.filterMap fun e =>
    match e.1 with
    | [name] => if before.files.lookup e.1 = some e.2 then none else some (name, e.2)
    | _ => none

end Folder

end ToyLang
