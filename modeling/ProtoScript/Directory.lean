import ProtoScript.FiniteMap
/-!
# Directories

A directory holds text files and folders, by name.  In every directory the name
`..` stands for the folder around it.  Reading a folder as a text fails, and so
does writing a text where a folder stands; where nothing stands, a text can be
written but not read.  These are the answers of a file system that `run_case` of
the interpreter's test runner relies on.
-/

namespace ProtoScript

/-- Why a file or a folder cannot be used. -/
inductive FileProblem where
  /-- Nothing stands there. -/
  | missing
  /-- The way there leads through a file. -/
  | notAFolder
  /-- A folder stands there. -/
  | isAFolder
deriving DecidableEq, Repr

namespace FileProblem

/-- The message that names the problem. -/
def message : FileProblem → String
  | missing => "No such file or directory (os error 2)"
  | notAFolder => "Not a directory (os error 20)"
  | isAFolder => "Is a directory (os error 21)"

end FileProblem

/-- What stands under a name. -/
inductive Node where
  /-- A file with its text. -/
  | file (text : String)
  /-- A folder. -/
  | folder
deriving DecidableEq, Repr

/-- The files and folders of a directory, by name. -/
abbrev Directory := FiniteMap String Node

namespace Directory

/-- The name of the folder around a directory. -/
def around : String := ".."

/-- What stands under a name. -/
def node? (d : Directory) (name : String) : Option Node :=
  if name = around then some .folder else d.get? name

/-- The text under a name, if anything stands there. -/
def find? (d : Directory) (name : String) : Except FileProblem (Option String) :=
  match d.node? name with
  | some (.file text) => .ok (some text)
  | some .folder => .error .isAFolder
  | none => .ok none

/-- The text under a name. -/
def read (d : Directory) (name : String) : Except FileProblem String := do
  match ← d.find? name with
  | some text => return text
  | none => throw .missing

/-- Writes a text under a name. -/
def write (d : Directory) (name : String) (text : String) : Except FileProblem Directory :=
  match d.node? name with
  | some .folder => .error .isAFolder
  | _ => .ok (d.insert name (.file text))

end Directory
end ProtoScript
