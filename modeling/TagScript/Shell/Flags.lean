/-!
# Flags of the Command Line

Flags are letters behind a dash, several of which may share one dash. A letter that takes an
argument takes the rest of its word, or else the whole next word. Flags end before the first word
that is none, which a lone dash or an empty word is not, or after the word `--`.

`Flags.scan` reads all flags before any of them acts.
-/

namespace TagScript

/-- A flag. -/
inductive Flag where
  | config (path : String)
  /-- Write the log of each step. -/
  | debug
  /-- Run a script that is given here. -/
  | script (source : String)
  | help
  /-- Show no colours. -/
  | plain
  | seed (text : String)
  | version
  deriving DecidableEq, Repr

/-- Why the flags cannot be read. -/
inductive FlagProblem where
  /-- There is no flag with this letter. -/
  | unknown (letter : Char)
  /-- The argument of the flag with this letter is missing. -/
  | incomplete (letter : Char)
  deriving DecidableEq, Repr

/-- The name of the program. -/
def programName : String := "filipe"

/-- The message about flags that cannot be read. -/
def FlagProblem.message : FlagProblem → String
  | .unknown letter => programName ++ ": unknown option -" ++ String.ofList [letter]
  | .incomplete letter => programName ++ ": expected argument for -" ++ String.ofList [letter]

namespace Flags

/-- What a letter stands for. -/
inductive Letter where
  /-- A flag without an argument. -/
  | alone (f : Flag)
  /-- A flag with an argument. -/
  | taking (f : String → Flag)

/-- What a letter stands for, if anything. -/
def letter? : Char → Option Letter
  | 'c' => some (.taking .config)
  | 'd' => some (.alone .debug)
  | 'e' => some (.taking .script)
  | 'h' => some (.alone .help)
  | 'n' => some (.alone .plain)
  | 's' => some (.taking .seed)
  | 'v' => some (.alone .version)
  | _ => none

/-- The flags behind one dash, and the letter that still misses its argument with what it stands
for. -/
def cluster : List Char → Except FlagProblem (List Flag × Option (Char × (String → Flag)))
  | [] => .ok ([], none)
  | c :: rest =>
    match letter? c with
    | none => .error (.unknown c)
    | some (.alone f) => (cluster rest).map fun (flags, open?) => (f :: flags, open?)
    | some (.taking f) =>
      if rest = [] then .ok ([], some (c, f)) else .ok ([f (String.ofList rest)], none)

/-- The flags of the command line and the words that follow them. -/
def scan : List String → Except FlagProblem (List Flag × List String)
  | [] => .ok ([], [])
  | word :: rest =>
    match word.toList with
    | '-' :: c :: cs =>
      if word = "--" then .ok ([], rest)
      else
        match cluster (c :: cs) with
        | .error problem => .error problem
        | .ok (flags, none) => (scan rest).map fun (more, words) => (flags ++ more, words)
        | .ok (flags, some (letter, f)) =>
          match rest with
          | [] => .error (.incomplete letter)
          | argument :: rest =>
            (scan rest).map fun (more, words) => (flags ++ f argument :: more, words)
    | _ => .ok ([], word :: rest)

end Flags

/-- The lines that show how the command line is used. -/
def usageLines : List String :=
  ["Usage:",
    "  filipe [-c config] [-s seed] [-d] [-n] <file.fl>",
    "  filipe [-c config] [-s seed] [-d] [-n] -e <source>",
    "  filipe                     start the REPL",
    "",
    "Options:",
    "  -c FILE   read settings from FILE instead of .filipe.yaml",
    "  -s SEED   seed the random built-in",
    "  -d        debug logging",
    "  -n        no colour in diagnostics",
    "  -e SRC    evaluate SRC and exit",
    "  -h        show this help",
    "  -v        print the version"]

end TagScript
