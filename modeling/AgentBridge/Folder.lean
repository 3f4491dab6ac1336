import AgentBridge.Path
import AgentBridge.Text.Utf8

/-
  AgentBridge.Folder — the files that a command line can name.

  A folder holds files and further folders, each under the names that lead to it. A path is
  followed part by part. Whatever the part, only a folder can be gone on from, so a path
  behind a file leads nowhere, also one that ends with a slash or a dot. Two dots lead to the
  folder around; of the folders around the first one nothing more is known than that they are
  there.

  `find?` tells what a path leads to, `find?_nil` and `step_file` where it leads nowhere.
-/

namespace AgentBridge

inductive Entry where
  | file (bytes : List UInt8)
  | folder
  deriving DecidableEq

/-- What each path leads to, if it leads anywhere. -/
abbrev Files := List Char → Option Entry

/-- A folder with its entries, by path. -/
structure Folder where
  entries : List (Text × Entry)

namespace Folder

/-- How far a path has been followed. -/
inductive Place where
  /-- To one of the folders around the first. -/
  | outside
  /-- To the folder that the names lead to. -/
  | inside (names : List Text)
  /-- To a file. -/
  | file (bytes : List UInt8)
  deriving DecidableEq

def Place.entry : Place → Entry
  | .file bytes => .file bytes
  | _ => .folder

/-- The folder around the one that the names lead to. -/
def around : List Text → Place
  | [] => .outside
  | names => .inside names.dropLast

/-- The place that names lead to. A folder is there also if only something in it is listed. -/
def place? (d : Folder) (names : List Text) : Option Place :=
  match d.entries.find? fun e => Path.parts e.1 == names with
  | some (_, .file bytes) => some (.file bytes)
  | some (_, .folder) => some (.inside names)
  | none =>
    if d.entries.any fun e => names.isPrefixOf (Path.parts e.1) then some (.inside names)
    else none

def step (d : Folder) (place : Place) (part : Text) : Option Place :=
  match place with
  | .file _ => none
  | .outside =>
    if part = [] ∨ part = Path.here ∨ part = Path.above then some .outside else none
  | .inside names =>
    if part = [] ∨ part = Path.here then some (.inside names)
    else if part = Path.above then some (around names)
    else d.place? (names ++ [part])

/-- Where a path starts: with a slash in front, outside. -/
def start (path : Text) : Place := if path.head? = some Path.slash then .outside else .inside []

def longest : Nat := 4095

/-- What a path leads to. An empty path and one that is too long lead nowhere. -/
def find? (d : Folder) : Files := fun path =>
  if path = [] ∨ longest < (Utf8.encode path).length then none
  else
    let path := Text.ofChars path
    ((pieces Path.slash path).foldlM d.step (start path)).map Place.entry

theorem find?_nil (d : Folder) : d.find? [] = none := by simp [find?]

/-- Nothing is found behind a file. -/
theorem step_file (d : Folder) (bytes : List UInt8) (part : Text) :
    d.step (.file bytes) part = none := rfl

end Folder

end AgentBridge
