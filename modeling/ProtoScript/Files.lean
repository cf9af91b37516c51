import ProtoScript.Directory
/-!
# Files in folders

A tree of text files and folders, by the path from its root.  A written path is
a list of steps from the root: an empty step and `.` stay, `..` goes to the
folder around, and any other name goes to what it names.  Each step starts from
a folder that exists, so a path that goes on after a file, be it by a final
`/` alone, leads nowhere.  The folders around the root hold nothing else.  Paths
are what the commands of `ProtoScript.CommandLine` take.
-/

namespace ProtoScript

/-- The names on the way to a file or a folder; above the root, one `..` for each level. -/
abbrev Path := List String

namespace Path

/-- The steps of a written path. -/
def steps (text : String) : List String := text.splitOn "/"

/-- Where the steps of a written path start. -/
def start (text : String) : Path := if text.toList.head? = some '/' then ["/"] else []

/-- The path after a step. -/
def next (p : Path) (name : String) : Path :=
  if name = "" ∨ name = "." then p
  else if name = Directory.around then
    if p = ["/"] then p
    else if p.all (· = Directory.around) = true then p ++ [Directory.around]
    else p.dropLast
  else p ++ [name]

/-- The path that a text denotes, if every step of it can be taken. -/
def ofText (text : String) : Path := (steps text).foldl next (start text)

/-- The written form. -/
def text : Path → String
  | "/" :: p => "/" ++ "/".intercalate p
  | p => "/".intercalate p

/-- The paths above a path, the longest first. -/
def above (p : Path) : List Path := (List.range p.length).reverse.map fun n => p.take n

end Path

/-- The files and folders below a root. -/
structure Files where
  /-- What stands at each path below the root. -/
  nodes : FiniteMap Path Node

namespace Files

/-- No files. -/
def empty : Files := ⟨∅⟩

/-- Writes a file and makes the folders above it. -/
def write (f : Files) (p : Path) (text : String) : Files where
  nodes := (p.above.foldl (fun m q => m.insert q .folder) f.nodes).insert p (.file text)

/-- What stands at a path. -/
def node (f : Files) (p : Path) : Except FileProblem Node :=
  if p = ["/"] ∨ p.all (· = Directory.around) = true then .ok .folder
  else match f.nodes.get? p with
    | some n => .ok n
    | none => .error .missing

/-- Takes a step from a folder. -/
def step (f : Files) (p : Path) (name : String) : Except FileProblem Path := do
  match ← f.node p with
  | .file _ => throw .notAFolder
  | .folder => return p.next name

/-- The path that a text denotes. -/
def locate (f : Files) (text : String) : Except FileProblem Path :=
  (Path.steps text).foldlM f.step (Path.start text)

/-- The text of a file. -/
def read (f : Files) (path : String) : Except FileProblem String := do
  match ← f.node (← f.locate path) with
  | .file text => return text
  | .folder => throw .isAFolder

/-- What stands in the folder at a path. -/
def contents (f : Files) (p : Path) : Directory :=
  .ofList (f.nodes.entries.filterMap fun e =>
    e.1.getLast?.bind fun name => if e.1 = p ++ [name] then some (name, e.2) else none)

/-- A folder: its path and what stands in it. -/
def directory (f : Files) (path : String) : Except FileProblem (Path × Directory) := do
  let p ← f.locate path
  match ← f.node p with
  | .file _ => throw .notAFolder
  | .folder => return (p, f.contents p)

/-- Writes the text files of a directory into the folder at a path. -/
def writeAll (f : Files) (p : Path) (d : Directory) : Files :=
  d.entries.foldl (fun f e =>
    match e.2 with
    | .file text => f.write (p ++ [e.1]) text
    | .folder => f) f

/-- The text files with their paths. -/
def texts (f : Files) : List (Path × String) :=
  f.nodes.entries.filterMap fun e =>
    match e.2 with
    | .file text => some (e.1, text)
    | .folder => none

end Files
end ProtoScript
