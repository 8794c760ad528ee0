import MotionScene.Cli.Run
import MotionScene.Yaml.Write

/-!
# The program

Gathers what a run needs from the system and carries out what the run decides.
-/

open MotionScene

/-- What the bytes of a file hold. -/
def contentOf (bytes : ByteArray) : Content :=
  match String.fromUTF8? bytes with
  | some text => .text text
  | none => .noText

def readContent? (name : String) : IO (Option Content) := do
  try
    return some (contentOf (← IO.FS.readBinFile name))
  catch
    | .permissionDenied .. => return some .locked
    | _ => return none

/-- What those of some files hold that are there. -/
def readContents (locations : List Location) : IO (List (Location × Content)) := do
  let contents ← locations.mapM fun location => do
    return (← readContent? location.text).map (location, ·)
  return contents.filterMap id

/-- The files that a run with the given arguments looks at, with the directory of the file
that it writes. -/
def gatherFiles (arguments : List String) (home : Location) (optionFile : String) : IO Files := do
  match Cli.readArguments arguments with
  | .ok ⟨_, some (_, job)⟩ =>
    let inputs := (job.input?.filter (· ≠ Cli.standardSign)).toList.map Location.ofText
    let options := (searchPaths job.config? ⟨⟨[], [], []⟩, home, optionFile⟩).getD []
    let directories := job.output?.toList.map fun name => (Location.ofText name).parent
    return ⟨← readContents (inputs ++ options), directories, []⟩
  | _ => return ⟨[], [], []⟩

/-- What is on the standard input, if the run reads it. -/
def gatherInput (arguments : List String) : IO Content := do
  match Cli.readArguments arguments with
  | .ok ⟨_, some (_, job)⟩ =>
    if job.input? = some Cli.standardSign then return contentOf (← readToEnd (← IO.getStdin))
    else return .text ""
  | _ => return .text ""
where
  readToEnd (stream : IO.FS.Stream) : IO ByteArray := do
    let mut bytes := ByteArray.empty
    repeat
      let more ← stream.read 65536
      if more.isEmpty then break
      bytes := bytes ++ more
    return bytes

def exitCode : Cli.Ending → UInt32
  | .exit code => code.toUInt32
  | .misused => 2
  | _ => 1

def main (arguments : List String) : IO UInt32 := do
  let home := Location.ofText ((← IO.getEnv "HOME").getD "")
  let optionFile := (← IO.getEnv "LOTTIEGRAPH_CONFIG").getD ""
  let files ← gatherFiles arguments home optionFile
  let world := ⟨⟨files, home, optionFile⟩, ← gatherInput arguments⟩
  let outcome := Cli.run Yaml.Codec.builtIn world arguments
  match outcome.written? with
  | some (location, text) => IO.FS.writeFile location.text text
  | none => pure ()
  (← IO.getStdout).putStr outcome.output
  (← IO.getStderr).putStr outcome.messages
  return exitCode outcome.ending
