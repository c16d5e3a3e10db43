import StoryMachine.SortedMap
import StoryMachine.Text.Blank

/-!
# Consoles

The player writes text and diagnostics, reads lines, and reads and writes files. `Console`
says what it needs for this; `Desk` is a console in memory.

The files of a desk lie in one directory, and of those above it nothing is known but that
they are there. A name is a way through them: its parts are entered from left to right, and
the first of them that leads nowhere decides what is wrong with the name.
-/

namespace StoryMachine.Player

/-- Why a file cannot be read or written. -/
inductive FileFault where
  | missing
  | denied
  | notDirectory
  | isDirectory
  | nameTooLong
  | zeroInName
  | notText
  | other (message : String)
  deriving DecidableEq, Repr

/-- The wording of a cause. -/
def FileFault.message : FileFault → String
  | missing => "No such file or directory (os error 2)"
  | denied => "Permission denied (os error 13)"
  | notDirectory => "Not a directory (os error 20)"
  | isDirectory => "Is a directory (os error 21)"
  | nameTooLong => "File name too long (os error 36)"
  | zeroInName => "file name contained an unexpected NUL byte"
  | notText => "stream did not contain valid UTF-8"
  | other message => message

/-- Where a player writes and reads.

* `write` : write text;
* `report` : write a diagnostic;
* `readLine` : read a line with its line end, or nothing at the end of the input. -/
class Console (m : Type → Type) where
  write : String → m Unit
  report : String → m Unit
  readLine : m (Option String)
  readFile : String → m (Except FileFault String)
  writeFile : String → String → m (Except FileFault Unit)

/-- A directory that a name can lead to: the one of the desk, one so many levels above it,
or the root. -/
inductive Folder where
  | here
  | above (levels : Nat)
  | root
  deriving DecidableEq, Repr

namespace Folder

/-- The directory above; the root is above itself. -/
def parent : Folder → Folder
  | here => above 1
  | above n => above (n + 1)
  | root => root

/-- The name that a file in a directory is kept under. It has a slash in it unless the
directory is the one of the desk. -/
def fileName (name : String) : Folder → String
  | here => name
  | above n => String.join (List.replicate n "../") ++ name
  | root => "/" ++ name

end Folder

/-- What a name leads to: a directory, or the file that is kept under a name. -/
inductive Place where
  | folder (f : Folder)
  | file (name : String)
  deriving DecidableEq, Repr

/-- A console in memory.

* `files` : the files by the names they are kept under;
* `input` : what has not been read yet;
* `text`, `diagnostics` : what has been written. -/
structure Desk where
  files : Table String
  input : List Char
  text : String
  diagnostics : String

namespace Desk

/-- A console with files and input. -/
def new (files : Table String) (input : String) : Desk :=
  ⟨files, input.toList, "", ""⟩

/-- Read a line. -/
def takeLine (d : Desk) : Option String × Desk :=
  if d.input.isEmpty then (none, d)
  else
    let line := d.input.takeWhile (· ≠ '\n')
    let rest := d.input.dropWhile (· ≠ '\n')
    (some (String.ofList (line ++ rest.take 1)), { d with input := rest.drop 1 })

/-- The most bytes that a part of a name may have. -/
def maxPart : Nat := 255

/-- The most bytes that a name may have. -/
def maxName : Nat := 4095

/-- Refuse what is no name at all. -/
def checkName (name : String) : Except FileFault Unit :=
  if name.toList.contains '\x00' then .error .zeroInName
  else if name.isEmpty then .error .missing
  else if maxName < name.utf8ByteSize then .error .nameTooLong
  else .ok ()

/-- The parts of a name, which slashes separate. -/
def parts (name : String) : List String :=
  ((Text.splitOn '/' name.toList).map String.ofList).filter (· ≠ "")

/-- Whether a name ends in a slash, and so has to be that of a directory. -/
def namesFolder (name : String) : Bool :=
  name.toList.getLast? = some '/'

/-- The directory in which a name starts. -/
def start (name : String) : Folder :=
  if name.toList.head? = some '/' then .root else .here

/-- The place that a part of a name leads to from a place. -/
def enter (d : Desk) (p : Place) (part : String) : Except FileFault Place :=
  match p, part with
  | .file _, _ => .error .notDirectory
  | .folder f, "." => .ok (.folder f)
  | .folder f, ".." => .ok (.folder f.parent)
  | .folder f, part =>
    if maxPart < part.utf8ByteSize then .error .nameTooLong
    else if d.files.contains (f.fileName part) then .ok (.file (f.fileName part))
    else .error .missing

/-- The place that the parts of a name lead to. -/
def walk (d : Desk) (start : Folder) (parts : List String) : Except FileFault Place :=
  parts.foldlM d.enter (.folder start)

/-- The content of a file. -/
def read (d : Desk) (name : String) : Except FileFault String := do
  checkName name
  match ← d.walk (start name) (parts name) with
  | .folder _ => .error .isDirectory
  | .file file =>
    if namesFolder name then .error .notDirectory
    else
      match d.files.get? file with
      | some content => .ok content
      | none => .error .missing

/-- Write a file, which need not exist. -/
def write (d : Desk) (name content : String) : Except FileFault Desk := do
  checkName name
  match ← d.walk (start name) (parts name).dropLast with
  | .file _ => .error .notDirectory
  | .folder f =>
    let last := (parts name).getLast?.getD "."
    if last = "." ∨ last = ".." ∨ namesFolder name then .error .isDirectory
    else if maxPart < last.utf8ByteSize then .error .nameTooLong
    else .ok { d with files := d.files.insert (f.fileName last) content }

end Desk

instance : Console (StateM Desk) where
  write s := modify fun d => { d with text := d.text ++ s }
  report s := modify fun d => { d with diagnostics := d.diagnostics ++ s }
  readLine := modifyGet Desk.takeLine
  readFile name := return (← get).read name
  writeFile name content := do
    match (← get).write name content with
    | .ok d =>
      set d
      return .ok ()
    | .error e => return .error e

end StoryMachine.Player
