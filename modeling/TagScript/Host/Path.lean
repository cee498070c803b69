/-!
# Paths

Paths are texts whose segments stand between slashes. A path that starts with a slash is absolute.

`Path.clean` is the shortest path that means the same by its text alone: empty segments and `.`
fall away, `..` takes the segment before it along, and above the root is the root. `Path.absolute`
places a path in a directory, and `Path.base` is the name at its end.
-/

namespace TagScript.Path

/-- The segments of a path, at least one. -/
def segments : List Char → List (List Char)
  | [] => [[]]
  | c :: rest =>
    if c = '/' then [] :: segments rest
    else
      match segments rest with
      | first :: others => (c :: first) :: others
      | [] => [[c]]

/-- Whether a path is absolute. -/
def isAbsolute (path : String) : Bool :=
  path.toList.head? = some '/'

/-- The segment that stands for the directory itself. -/
def here : List Char := ['.']

/-- The segment that stands for the directory above. -/
def above : List Char := ['.', '.']

/-- One more segment on a path that is clean already, whose last segment comes first. -/
def enter (rooted : Bool) (reached : List (List Char)) (segment : List Char) :
    List (List Char) :=
  if segment = [] ∨ segment = here then reached
  else if segment = above then
    match reached with
    | [] => if rooted then [] else [above]
    | last :: rest => if last = above then above :: reached else rest
  else segment :: reached

/-- The segments with a slash between each two. -/
def joined : List (List Char) → List Char
  | [] => []
  | [segment] => segment
  | segment :: rest => segment ++ '/' :: joined rest

/-- The shortest path that means the same by its text alone. -/
def clean (path : String) : String :=
  let rooted := isAbsolute path
  let text := joined ((segments path.toList).foldl (enter rooted) []).reverse
  String.ofList <|
    if rooted then '/' :: text
    else if text = [] then here
    else text

/-- The path of something in a directory. -/
def within (directory path : String) : String :=
  clean (directory ++ "/" ++ path)

/-- The absolute path of something whose path is given in a directory. -/
def absolute (directory path : String) : String :=
  if isAbsolute path then clean path else within directory path

/-- The last segment of a path, not counting slashes at its end. -/
def base (path : String) : String :=
  match ((segments path.toList).filter (· ≠ [])).getLast? with
  | some name => String.ofList name
  | none => if path = "" then "." else "/"

end TagScript.Path
