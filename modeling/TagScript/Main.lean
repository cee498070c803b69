import TagScript.Shell.Run

/-!
# The Program

The command line on the machine it runs on: files, streams and the keyboard of the operating system.
-/

namespace TagScript

/-- Why a file could not be read. A directory opens, so that it fails without a file name. -/
def fileProblem : IO.Error → FileProblem
  | .noFileOrDirectory .. => .missing
  | .inappropriateType (some _) .. => .notDirectory
  | .inappropriateType none .. => .isDirectory
  | .invalidArgument .. => .invalidName
  | .permissionDenied .. => .other "permission denied"
  | e => .other (toString e)

/-- Reads a file. -/
def readFile (path : String) : IO (Except FileProblem Bytes) := do
  try
    return .ok (← IO.FS.readBinFile path).toList
  catch e =>
    return .error (fileProblem e)

/-- Writes to a stream at once. -/
def writeStream (stream : Stream) (bytes : Bytes) : IO Unit := do
  let out ←
    match stream with
    | .output => IO.getStdout
    | .errors => IO.getStderr
  out.write ⟨bytes.toArray⟩
  out.flush

/-- Whether the output is a terminal that shows colours. -/
def showsColours : IO Bool := do
  let refused := (← IO.getEnv "NO_COLOR").getD "" ≠ ""
  let dumb := (← IO.getEnv "TERM") = some "dumb"
  return !refused && !dumb && (← (← IO.getStdout).isTty)

/-- The machine the program runs on. -/
def machineHost : IO (Host IO) := do
  return {
    directory := (← IO.currentDir).toString
    home := (← IO.getEnv "HOME").filter (· ≠ "")
    terminal := ← showsColours
    seed := Int64.ofNat (← IO.monoNanosNow)
    read := readFile
    write := writeStream }

/-- Shows the prompt of the console if someone is there to see it. -/
def showPrompt (console : Console) : IO Unit := do
  if ← (← IO.getStdin).isTty then
    writeStream .output (Bytes.ofString (console.reader.prompt console.prompt))

/-- Takes characters to the console: what is typed then, and the console or how the program ends. -/
def takeCharacters (host : Host IO) (console : Console) (typed : List Char) :
    List Char → IO (Except Ending (Console × List Char))
  | [] => return .ok (console, typed)
  | c :: rest => do
    match Console.Keyboard.press typed c with
    | (typed, none) => takeCharacters host console typed rest
    | (typed, some input) =>
      match ← console.turn host input with
      | .ok console => takeCharacters host console typed rest
      | .error ending => return .error ending

/-- Runs the console on what is typed. -/
partial def converse (host : Host IO) (console : Console) (typed : List Char) : IO Ending := do
  showPrompt console
  let line ← (← IO.getStdin).getLine
  if line.isEmpty then
    console.run host (Console.Keyboard.inputs typed [])
  else
    match ← takeCharacters host console typed line.toList with
    | .ok (console, typed) => converse host console typed
    | .error ending => return ending

/-- Runs the program and gives its status. -/
def runProgram (arguments : List String) : IO UInt32 := do
  let host ← machineHost
  let ending ←
    match ← Shell.start host arguments with
    | .error ending => pure ending
    | .ok console => converse host console []
  match ending with
  | .status code => return code.toUInt32
  | .fault f =>
    writeStream .errors (Bytes.ofString ("panic: " ++ f.message ++ "\n"))
    return 2

end TagScript

/-- Runs the program with the arguments of the command line. -/
def main (arguments : List String) : IO UInt32 :=
  TagScript.runProgram arguments
