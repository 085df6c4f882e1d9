import FormattedOutput.Errno
import FormattedOutput.Text.Quoted

/-! Programs by their names. A name with a slash in it is a path; any other is looked
for in the directories of a search list. `Host.start` says what becomes of a name that
is started as a compiler. -/

namespace FormattedOutput.Selection

/-- An error of the operating system: its number, the kind that it is taken for, and its text. -/
structure SystemError where
  number : Int
  kind : String
  text : String
  deriving DecidableEq, Repr

namespace SystemError

/-- What is shown of an error. -/
def message (e : SystemError) : String :=
  "Os \x7b code: " ++ toString e.number ++ ", kind: " ++ e.kind ++ ", message: " ++
    Text.quote e.text ++ " \x7d"

/-- An error of some kind, by its number. -/
def ofNumber (number : Int) (kind : String) : SystemError := ⟨number, kind, Errno.text number⟩

/-- Nothing has that name. -/
def notFound : SystemError := ofNumber 2 "NotFound"

/-- What has that name is no program. -/
def permissionDenied : SystemError := ofNumber 13 "PermissionDenied"

/-- Something on the way is no directory. -/
def notADirectory : SystemError := ofNumber 20 "NotADirectory"

/-- The name, or a part of it, is too long. -/
def nameTooLong : SystemError := ofNumber 36 "InvalidFilename"

end SystemError

/-- What becomes of a program when it is started as a compiler and given the probe. -/
inductive Compiler where
  /-- The program cannot be started. -/
  | unstartable (error : SystemError)
  /-- The program closes its input before all of the probe is written to it. -/
  | unwritable (error : SystemError)
  /-- The program cannot be waited for. -/
  | unwaitable (error : SystemError)
  /-- The program refuses the probe. -/
  | rejects
  /-- The program accepts the probe. -/
  | accepts
  deriving DecidableEq, Repr

/-- What stands at a place in a file tree. -/
inductive Entry where
  | directory
  /-- A file that is no program. -/
  | file
  /-- A program, and whether it accepts the probe. -/
  | program (accepts : Bool)
  deriving DecidableEq, Repr

/-- A host, as far as it decides what a name starts. Places are given by their
parts from the root on. -/
structure Host where
  entry : List String → Option Entry
  /-- Where paths start that do not start at the root. -/
  workingDirectory : List String
  /-- Where names without a slash are looked for, in order. -/
  searchList : List (List String)

namespace Host

/-- The most bytes of a part of a path. -/
def maxPart : Nat := 255

/-- The most bytes of a path. -/
def maxPath : Nat := 4095

/-- The place at the end of some parts of a path, from a place on. Only a directory has places below
it, and an empty part stands for the directory itself. -/
def walk (h : Host) : (place parts : List String) → Except SystemError (List String)
  | place, [] => .ok place
  | place, part :: parts =>
    match h.entry place with
    | none => .error .notFound
    | some .directory =>
      if part = "" ∨ part = "." then h.walk place parts
      else if part = ".." then h.walk place.dropLast parts
      else if maxPart < part.utf8ByteSize then .error .nameTooLong
      else h.walk (place ++ [part]) parts
    | some _ => .error .notADirectory

/-- What becomes of what stands at the end of a path. -/
def startAt (h : Host) (place parts : List String) : Compiler :=
  match h.walk place parts with
  | .error error => .unstartable error
  | .ok place =>
    match h.entry place with
    | none => .unstartable .notFound
    | some (.program accepts) => if accepts then .accepts else .rejects
    | some _ => .unstartable .permissionDenied

/-- What becomes of a name that is looked for in some directories. The first program is started;
without one, something that is no program counts more than nothing. -/
def search (h : Host) (name : String) (places : List (List String)) : Compiler :=
  let found := places.map fun place => h.startAt place [name]
  let passed : List Compiler :=
    [.unstartable .notFound, .unstartable .notADirectory, .unstartable .permissionDenied]
  (found.find? (!passed.contains ·)).getD
    (.unstartable
      (if found.contains (.unstartable .permissionDenied) then .permissionDenied else .notFound))

/-- What becomes of a name that is started as a compiler. -/
def start (h : Host) (name : String) : Compiler :=
  let parts := (name.toList.splitOn '/').map String.ofList
  if name = "" then .unstartable .notFound
  else if maxPath < name.utf8ByteSize then .unstartable .nameTooLong
  else
    match parts with
    | [part] => h.search part h.searchList
    | "" :: parts => h.startAt [] parts
    | parts => h.startAt h.workingDirectory parts

end Host

end FormattedOutput.Selection
