import TieredVM.Text.Bytes
/-!
Files in directories, and reading the file that a path leads to. A path is followed name by name
from the working directory, or from the top if it begins with a slash, and every name but the last
must lead to a directory.
-/
set_option autoImplicit false

namespace TieredVM

structure ReadError where
  reason : String
  code : Nat
  deriving DecidableEq, Repr

namespace ReadError

def missing : ReadError := ⟨"No such file or directory", 2⟩

def notDirectory : ReadError := ⟨"Not a directory", 20⟩

def isDirectory : ReadError := ⟨"Is a directory", 21⟩

def nameTooLong : ReadError := ⟨"File name too long", 36⟩

def permissionDenied : ReadError := ⟨"Permission denied", 13⟩

/-- The error with a number, in the given words if it is none of the usual ones. -/
def ofCode (code : Nat) (reason : String) : ReadError :=
  let usual := [missing, notDirectory, isDirectory, nameTooLong, permissionDenied]
  (usual.find? (·.code = code)).getD { reason, code }

def message (error : ReadError) : String := s!"{error.reason} (os error {error.code})"

end ReadError

inductive FileTree where
  | file (content : List UInt8)
  | directory (entries : List (String × FileTree))
  deriving Repr

abbrev FileEntries := List (String × FileTree)

structure Directory where
  entries : FileEntries
  above : List FileEntries := []
  deriving Repr

namespace Directory

def maxNameLength : Nat := 255

def maxPathLength : Nat := 4095

def top (directory : Directory) : Directory :=
  { entries := directory.above.getLast?.getD directory.entries }

def parent (directory : Directory) : Directory :=
  match directory.above with
  | [] => directory
  | entries :: above => { entries, above }

/-- What names lead to. The empty name and one dot stay where they are; two dots go up. -/
def follow (directory : Directory) : List String → Except ReadError FileTree
  | [] => .ok (.directory directory.entries)
  | name :: names =>
    if name = "" ∨ name = "." then directory.follow names
    else if name = ".." then directory.parent.follow names
    else if maxNameLength < (Text.bytes name).length then .error .nameTooLong
    else
      match directory.entries.lookup name with
      | none => .error .missing
      | some (.directory entries) =>
        follow { entries, above := directory.entries :: directory.above } names
      | some (.file content) =>
        if names.isEmpty then .ok (.file content) else .error .notDirectory

def read (directory : Directory) (path : String) : Except ReadError (List UInt8) :=
  if path = "" then .error .missing
  else if maxPathLength < (Text.bytes path).length then .error .nameTooLong
  else
    let names := path.splitOn "/"
    let start := if names.head? = some "" then directory.top else directory
    match start.follow names with
    | .error error => .error error
    | .ok (.directory _) => .error .isDirectory
    | .ok (.file content) => .ok content

end Directory
end TieredVM
