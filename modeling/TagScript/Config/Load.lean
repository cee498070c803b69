import TagScript.Config.Decode
import TagScript.Host.Basic

/-!
# Loading Settings

Settings are read from a file that is named, or else from a file `.filipe.yaml` in the working
directory or in the home directory, whichever comes first. Without either, the defaults stand.

What keeps settings from being loaded is a `ConfigError`: the file cannot be read, it is no settings
file, it says something wrongly, or the settings in it are unusable.
-/

namespace TagScript

/-- Why settings could not be loaded. -/
inductive ConfigError where
  | emptyPath
  | unreadable (path : String) (problem : FileProblem)
  /-- The file that is looked for cannot be examined. -/
  | hidden (path : String) (problem : FileProblem)
  | directory (path : String)
  | malformed (path : String) (problem : Yaml.Problem)
  /-- The file says something wrongly. -/
  | mistaken (path : String) (complaints : List Config.Complaint)
  | invalid (issues : List Config.Issue)

/-- The message about an error. -/
def ConfigError.message : ConfigError → Bytes
  | .emptyPath => Bytes.ofString "config: empty path"
  | .unreadable path problem =>
    Bytes.ofString ("config: open " ++ path ++ ": " ++ problem.message path)
  | .hidden path problem =>
    Bytes.ofString ("config: stat " ++ path ++ ": stat " ++ path ++ ": " ++ problem.reason)
  | .directory path =>
    Bytes.ofString ("config: parse " ++ path ++ ": yaml: input error: " ++
      FileProblem.isDirectory.message path)
  | .malformed path problem =>
    Bytes.ofString ("config: parse " ++ path ++ ": yaml: " ++ problem.text)
  | .mistaken path complaints =>
    Bytes.ofString ("config: parse " ++ path ++ ": yaml: unmarshal errors:") ++
      complaints.flatMap fun c => Bytes.ofString "\n  " ++ c.text
  | .invalid issues => Bytes.ofString (Config.issuesMessage issues)

namespace Config

/-- The name of the file with the settings. -/
def fileName : String := ".filipe.yaml"

/-- The settings in the file with an absolute path, from what reading it gave. -/
def ofFile (path : String) (contents : Except FileProblem Bytes) : Except ConfigError Config :=
  match contents with
  | .error .isDirectory => .error (.directory path)
  | .error problem => .error (.unreadable path problem)
  | .ok bytes =>
    match Yaml.read bytes with
    | .error problem => .error (.malformed path problem)
    | .ok node =>
      match decode node with
      | (c, []) =>
        match c.issues with
        | [] => .ok { c with path := some path }
        | issues => .error (.invalid issues)
      | (_, complaints) => .error (.mistaken path complaints)

variable {m : Type → Type} [Monad m]

/-- Loads the settings from a file. -/
def load (host : Host m) (path : String) : m (Except ConfigError Config) := do
  if path = "" then return .error .emptyPath
  let path := Path.absolute host.directory path
  return ofFile path (← host.read path)

/-- Loads the settings from the first of some files that is there; directories do not count. -/
def loadFirst (host : Host m) : List String → m (Except ConfigError Config)
  | [] => return .ok default
  | path :: rest => do
    match ← host.read path with
    | .error .missing => loadFirst host rest
    | .error .isDirectory => loadFirst host rest
    | .error problem => return .error (.hidden path problem)
    | .ok bytes => return ofFile path (.ok bytes)

/-- Loads the settings from where they are looked for. -/
def loadDefault (host : Host m) : m (Except ConfigError Config) :=
  loadFirst host ((host.directory :: host.home.toList).map (Path.within · fileName))

end Config

end TagScript
