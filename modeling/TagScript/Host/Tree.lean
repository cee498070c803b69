import TagScript.Host.Basic
import TagScript.Host.Path

/-!
# A Host in Memory

A `FileTree` holds files and directories under their absolute paths. Reading a path walks through
the directories one segment after the other, so each of them has to exist, also one that is left
again by `..`.

`FileTree.host` is the host with these files. It keeps what is written in a `Transcript`.
-/

namespace TagScript

/-- Files and directories in memory. A directory also exists if something is in it. -/
structure FileTree where
  /-- The segments of the paths of the files, and what is in them. -/
  files : List (List (List Char) × Bytes)
  /-- The segments of the paths of the directories. -/
  directories : List (List (List Char))

namespace FileTree

/-- What is in the file with this path. -/
def file? (t : FileTree) (path : List (List Char)) : Option Bytes :=
  t.files.lookup path

/-- Whether there is a directory with this path. -/
def isDirectory (t : FileTree) (path : List (List Char)) : Bool :=
  path.isEmpty || t.directories.any path.isPrefixOf ||
    t.files.any fun (p, _) => path.isPrefixOf p.dropLast

/-- The path reached from a path by some more segments. -/
def walk (t : FileTree) (reached : List (List Char)) :
    List (List Char) → Except FileProblem (List (List Char))
  | [] => .ok reached
  | segment :: rest =>
    if ¬ t.isDirectory reached then .error .notDirectory
    else if segment = [] ∨ segment = Path.here then t.walk reached rest
    else if segment = Path.above then t.walk reached.dropLast rest
    else
      let next := reached ++ [segment]
      if (t.file? next).isSome ∨ t.isDirectory next then t.walk next rest else .error .missing

/-- The segments of an absolute path. -/
def segmentsOf (path : String) : List (List Char) :=
  (Path.segments path.toList).filter (· ≠ [])

/-- Reads the file with a path that is given in a directory. -/
def read (t : FileTree) (directory path : String) : Except FileProblem Bytes :=
  if path = "" then .error .missing
  else if '\x00' ∈ path.toList then .error .invalidName
  else do
    let start := if Path.isAbsolute path then [] else segmentsOf directory
    let reached ← t.walk start (Path.segments path.toList)
    match t.file? reached with
    | some contents => .ok contents
    | none => .error .isDirectory

end FileTree

/-- What was written, in order. -/
abbrev Transcript := Array (Stream × Bytes)

/-- What was written to a stream. -/
def Transcript.on (t : Transcript) (stream : Stream) : Bytes :=
  t.toList.flatMap fun (s, bytes) => if s = stream then bytes else []

/-- The host with the files of a tree. -/
def FileTree.host (t : FileTree) (directory : String) (home : Option String) (terminal : Bool)
    (seed : Int64) : Host (StateM Transcript) where
  directory := directory
  home := home
  terminal := terminal
  seed := seed
  read path := pure (t.read directory path)
  write stream bytes := modify (·.push (stream, bytes))

end TagScript
