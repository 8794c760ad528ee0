import MotionScene.Cli.Arguments
import MotionScene.Compile
import MotionScene.Config.Lookup

/-!
# Running a command

A command reads a document, works on it and writes the result; nothing is written before
everything else has succeeded.  A failure that the user can mend is reported in words and
ends the program with the code 1.  The notation of option files and of one of the output
formats is given to the program as a codec.
-/

namespace MotionScene.Cli

inductive Ending where
  | exit (code : Nat)
  /-- The arguments have no meaning; the message has been given. -/
  | misused
  /-- The compilation failed on a value. -/
  | failed (fault : Fault)
  /-- The result has no text in the format that is asked for. -/
  | unprinted
  /-- The result could not be written. -/
  | unwritten (fault : WriteFault)
  /-- The options could not be read, for a reason that has no words. -/
  | unconfigured (fault : ConfigFault Float)

structure Outcome where
  output : String
  messages : String
  written? : Option (Location × String)
  ending : Ending

namespace Outcome

def blank : Outcome := ⟨"", "", none, .exit 0⟩

def files (outcome : Outcome) (before : Files) : Files :=
  match outcome.written? with
  | none => before
  | some (location, text) =>
    match before.write location text with
    | .ok after => after
    | .error _ => before

def report (outcome : Outcome) (text : String) : Outcome :=
  { outcome with messages := outcome.messages ++ text }

def endWith (outcome : Outcome) (ending : Ending) : Outcome :=
  { outcome with ending }

end Outcome

structure World where
  surroundings : Surroundings
  input : Content

/-- The sign for the standard input and the standard output. -/
def standardSign : String := "-"

def World.readInput (world : World) (name : String) : Except ReadFault String :=
  if name = standardSign then world.input.read
  else world.surroundings.files.read (Location.ofText name)

def withFinalBreak (text : String) : String :=
  if text.endsWith "\n" then text else text ++ "\n"

/-- The least urgency that is reported. -/
def leastUrgency : (verbosity : Nat) → Urgency
  | 0 => .warning
  | 1 => .info
  | _ => .debug

def noticeText (verbosity : Nat) (notices : List (Notice Float)) : String :=
  String.join ((Notice.lines (leastUrgency verbosity) notices).map (· ++ "\n"))

def errorText (message : String) : String :=
  "Error: " ++ message ++ "\n"

/-- The end of a run that fails on a value.  A document that is none is reported. -/
def Outcome.fail (outcome : Outcome) (fault : Fault) : Outcome :=
  match fault, fault.message? with
  | .notADocument _, some message | .noLayerList, some message =>
    (outcome.report (errorText message)).endWith (.exit 1)
  | _, _ => outcome.endWith (.failed fault)

/-- Writes a text to where the job wants it. -/
def Outcome.deliver (outcome : Outcome) (files : Files) (job : Job) (text : String) : Outcome :=
  match job.output?.filter (· ≠ standardSign) with
  | none => { outcome with output := outcome.output ++ withFinalBreak text }
  | some name =>
    let location := Location.ofText name
    match files.write location (withFinalBreak text) with
    | .ok _ => { outcome with written? := some (location, withFinalBreak text) }
    | .error fault => outcome.endWith (.unwritten fault)

/-- Writes a result to where the job wants it, if it has a text. -/
def Outcome.finish (outcome : Outcome) (files : Files) (job : Job) (text? : Option String) :
    Outcome :=
  match text? with
  | some text => outcome.deliver files job text
  | none => outcome.endWith .unprinted

/-- The document of a job, or the run that reports that it cannot be read. -/
def World.readDocument (world : World) (job : Job) : Except Outcome (Value Float) :=
  let name := job.input?.getD ""
  let refuse := fun (reason : String) =>
    Except.error ((Outcome.blank.report
      (errorText ("cannot read " ++ name ++ ": " ++ reason))).endWith (.exit 1))
  match world.readInput name with
  | .error _ => refuse "no text"
  | .ok text =>
    match Json.parse? text with
    | none => refuse "not a document in the expected notation"
    | some document => .ok document

/-- The options of a job, with what there is to report, or the run that reports that
there are none. -/
def World.readOptions (world : World) (codec : Yaml.Codec Float) (verbosity : Nat) (job : Job) :
    Except Outcome (Outcome × Options Float) :=
  let overrides := if job.loop then [(OptionKey.loop.name, Yaml.bool true)] else []
  let lookup := loadOptions codec job.config? overrides world.surroundings
  let outcome := Outcome.blank.report (noticeText verbosity lookup.notices)
  match lookup.outcome with
  | .ok options => .ok (outcome, options)
  | .error fault =>
    match fault.message? with
    | some message => .error ((outcome.report (errorText message)).endWith (.exit 1))
    | none => .error (outcome.endWith (.unconfigured fault))

/-- Reports where a compiled document has been written. -/
def Outcome.announce (outcome : Outcome) (job : Job) (elements : Nat) : Outcome :=
  match outcome.written?, job.output? with
  | some _, some name =>
    if name = "" then outcome
    else outcome.report s!"Wrote {elements} top-level elements to {name}\n"
  | _, _ => outcome

section Commands

variable (codec : Yaml.Codec Float)

def runCompile (world : World) (verbosity : Nat) (job : Job) : Except Outcome Outcome := do
  let document ← world.readDocument job
  let (outcome, options) ← world.readOptions codec verbosity job
  let compiled := compile document options
  let outcome := outcome.report (noticeText verbosity compiled.trace)
  match compiled.outcome with
  | .error fault => .error (outcome.fail fault)
  | .ok scene =>
    let text? := job.format.write codec (some job.indent) scene.toValue
    let outcome := outcome.finish world.surroundings.files job text?
    return outcome.announce job scene.elements.length

def runNormalize (world : World) (verbosity : Nat) (job : Job) : Except Outcome Outcome := do
  let document ← world.readDocument job
  let migrated := migrate document
  let outcome := Outcome.blank.report (noticeText verbosity migrated.trace)
  match migrated.outcome with
  | .error fault => .error (outcome.fail fault)
  | .ok document =>
    let text? := Format.json.write codec (some job.indent) (.object document.members)
    return outcome.finish world.surroundings.files job text?

end Commands

/-- The outcome of a computation, whether it was cut short or not. -/
def settled : Except Outcome Outcome → Outcome
  | .ok outcome => outcome
  | .error outcome => outcome

/-! ## The program -/

def versionText : String := programName ++ " 0.1.0\n"

def usageText (program : String) : String :=
  let flags := if program = programName then "[-h] [--version] [-v] command ..."
    else if program = Verb.compile.program then
      "[-h] [-o FILE] [--loop] [--config FILE] [--format FORMAT] [--indent N] input"
    else "[-h] [-o FILE] [--indent N] input"
  "usage: " ++ program ++ " " ++ flags ++ "\n"

/-- What there is to know about the program or one of its commands. -/
def helpText (program : String) : String :=
  usageText program ++ "\n" ++
    (if program = programName then
      "Compile animations into keyframe-animated graphic elements.\n\n"
        ++ "commands: " ++ ", ".intercalate (Verb.all.map Verb.name) ++ "\n"
    else if program = Verb.compile.program then
      "Compile an animation into groups and shapes with timelines.\n"
    else "Migrate an animation to the current encoding.\n")

def Stop.outcome : Stop → Outcome
  | help program => { Outcome.blank with output := helpText program }
  | version => { Outcome.blank with output := versionText }
  | usage program message =>
    (Outcome.blank.report (usageText program ++ program ++ ": error: " ++ message ++ "\n")).endWith
      .misused

def run (codec : Yaml.Codec Float) (world : World) (arguments : List String) : Outcome :=
  match readArguments arguments with
  | .error stop => stop.outcome
  | .ok invocation =>
    match invocation.command? with
    | none => (Stop.help programName).outcome
    | some (.compile, job) => settled (runCompile codec world invocation.verbosity job)
    | some (.normalize, job) => settled (runNormalize codec world invocation.verbosity job)

end MotionScene.Cli
