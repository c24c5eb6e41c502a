import SqlTree.CommandLine.Run

/-!
# A directory held in memory

Files under their paths below a directory, which is the working directory.  `Workspace.file` follows
a relative name from there: every part but the last has to be a directory, and names cannot leave
it.
-/

namespace SqlTree.CommandLine

/-- Files under their paths. -/
structure Workspace where
  /-- The parts of the path of each file, and its bytes. -/
  files : List (List String × ByteArray) := []

namespace Workspace

/-- The parts of a name between its slashes. -/
def parts (name : String) : List String :=
  (name.toList.splitOnP (· == '/')).map String.ofList

/-- The directory that holds files under relative names. -/
def ofFiles (files : List (String × String)) : Workspace :=
  ⟨files.map fun (name, content) =>
    ((parts name).filter fun part => part != "" && part != ".", content.toUTF8)⟩

/-- Whether a path is that of a directory. -/
def isDirectory (w : Workspace) (path : List String) : Bool :=
  path.isEmpty || w.files.any fun (other, _) => path.isPrefixOf other && path != other

/-- The path that parts of a name lead to from a path. -/
def walk (w : Workspace) (path : List String) : List String → Option (List String)
  | [] => some path
  | part :: rest =>
    if !w.isDirectory path then none
    else if part = "" ∨ part = "." then walk w path rest
    else if part = ".." then
      if path.isEmpty then none else walk w path.dropLast rest
    else walk w (path ++ [part]) rest

/-- What a name leads to. -/
def file (w : Workspace) (name : String) : FileContent :=
  if name = "" ∨ name.toList.head? = some '/' then .missing
  else
    match w.walk [] (parts name) with
    | none => .missing
    | some path =>
      match w.files.lookup path with
      | some bytes => .regular (some bytes)
      | none => if w.isDirectory path then .irregular else .missing

end Workspace

end SqlTree.CommandLine
