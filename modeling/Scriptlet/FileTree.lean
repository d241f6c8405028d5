/-
  Scriptlet.FileTree — text files by path.

  A `FileTree` is what a file system holds, and `Location.read` finds a file in it by its path, from
  the folder where one stands.  A path is walked name by name: `.` stays, `..` goes one folder out,
  and each name must be there before what follows it is looked at.  A slash at the end asks for a
  folder.  `ReadFailure` is why a file cannot be read, and `ReadFailure.message` is the only place
  that words it.
-/
namespace Scriptlet

/-! ## §1. Why a file cannot be read -/

/-- Why a file cannot be read. -/
inductive ReadFailure where
  /-- Nothing has that path. -/
  | missing
  /-- The path goes on after a file. -/
  | notFolder
  /-- The path is that of a folder. -/
  | isFolder
  /-- Reading is not permitted. -/
  | denied
  /-- The path, or a name in it, is too long. -/
  | tooLong
  /-- The file is not text. -/
  | notText
  /-- Another reason, in words. -/
  | other (reason : String)
  deriving DecidableEq, Repr, Inhabited

/-- The reason in words. -/
def ReadFailure.message : ReadFailure → String
  | .missing => "No such file or directory (os error 2)"
  | .notFolder => "Not a directory (os error 20)"
  | .isFolder => "Is a directory (os error 21)"
  | .denied => "Permission denied (os error 13)"
  | .tooLong => "File name too long (os error 36)"
  | .notText => "stream did not contain valid UTF-8"
  | .other reason => reason

/-! ## §2. Trees and places in them -/

/-- A text file, or a folder of named trees. -/
inductive FileTree where
  | file (text : String)
  | folder (entries : List (String × FileTree))
  deriving Repr, Inhabited

/-- What a folder holds, by name. -/
abbrev Folder := List (String × FileTree)

/-- A folder, with the folders around it, innermost first. -/
structure Location where
  here : Folder
  around : List Folder := []
  deriving Repr, Inhabited

namespace Location

/-- The folder inside this one. -/
def enter (l : Location) (entries : Folder) : Location := ⟨entries, l.here :: l.around⟩

/-- The folder around this one; the outermost is around itself. -/
def leave (l : Location) : Location :=
  match l.around with
  | [] => l
  | outer :: more => ⟨outer, more⟩

/-- The outermost folder. -/
def outermost (l : Location) : Location := ⟨l.around.getLastD l.here, []⟩

/-- Leaving a folder undoes entering it. -/
@[simp]
theorem leave_enter (l : Location) (entries : Folder) : (l.enter entries).leave = l := rfl

end Location

/-! ## §3. Paths -/

namespace Path

/-- The most bytes that a path has. -/
def maxBytes : Nat := 4095

/-- The most bytes that a name in a path has. -/
def maxNameBytes : Nat := 255

/-- Whether the path begins at the outermost folder. -/
def isAbsolute (path : String) : Bool := path.toList.head? == some '/'

/-- The names of a path in order; a slash at the end counts as `.`. -/
def names (path : String) : List String :=
  let parts := (path.toList.splitOn '/').map String.ofList
  let named := parts.filter fun part => !part.isEmpty
  if path.toList.getLast? == some '/' then named ++ ["."] else named

end Path

namespace Location

/-- The text of the file that the names lead to. -/
def walk : Location → List String → Except ReadFailure String
  | _, [] => .error .isFolder
  | l, name :: rest =>
    if name == "." then l.walk rest
    else if name == ".." then l.leave.walk rest
    else if Path.maxNameBytes < name.utf8ByteSize then .error .tooLong
    else
      match l.here.lookup name with
      | none => .error .missing
      | some (.folder entries) => (l.enter entries).walk rest
      | some (.file text) => if rest.isEmpty then .ok text else .error .notFolder

/-- The text of the file that has this path. -/
def read (l : Location) (path : String) : Except ReadFailure String :=
  if path.isEmpty then .error .missing
  else if Path.maxBytes < path.utf8ByteSize then .error .tooLong
  else (if Path.isAbsolute path then l.outermost else l).walk (Path.names path)

end Location

end Scriptlet
