import MotionScene.Cli.Flag
import MotionScene.Cli.Format
import MotionScene.Text.Printable

/-!
# Arguments

The program has two commands.  Its own flags come before the command, and everything
after the name of the command is for the command.  Arguments that nobody takes are
reported when all others have been read.
-/

namespace MotionScene.Cli

/-- What one argument after another builds up, and what ends the reading. -/
inductive Stop where
  | help (program : String)
  | version
  | usage (program message : String)
  deriving DecidableEq, Repr

def programName : String := "lottiegraph"

/-- How a command takes its arguments.  The command has a state of type `σ`. -/
structure Grammar (κ σ : Type) where
  program : String
  flags : List (Flag κ)
  /-- What a flag does, with its value if it takes one. -/
  apply : Flag κ → Option String → σ → Except Stop σ
  takesWord : σ → Bool
  word : String → σ → Except Stop σ

/-- The flags that an argument uses, with their values. -/
structure Expansion (κ : Type) where
  uses : List (Flag κ × Option String)
  /-- A flag after these that wants its value from the next argument. -/
  wanting? : Option (Flag κ)
  /-- A part of the argument that nobody takes. -/
  left? : Option String

namespace Grammar

variable {κ σ : Type}

/-- The failure with a message about a flag. -/
def flagFault {α : Type} (grammar : Grammar κ σ) (flag : Flag κ) (message : String) :
    Except Stop α :=
  .error (.usage grammar.program ("argument " ++ flag.label ++ ": " ++ message))

/-- The failure of a flag without a value that carries one. -/
def refuseValue {α : Type} (grammar : Grammar κ σ) (flag : Flag κ) (carried : Carried) :
    Except Stop α :=
  grammar.flagFault flag ("ignored explicit argument " ++ Text.quoted carried.text)

/-- What stands behind a short flag, as it is carried by that flag. -/
def carriedIn : List Char → Option Carried
  | [] => none
  | '=' :: value => some ⟨String.ofList value, true⟩
  | text => some ⟨String.ofList text, false⟩

/-- The flags that an argument uses.  A short flag without a value may carry more short
flags; what follows them and is none is left over. -/
def expand (grammar : Grammar κ σ) : (steps : Nat) → Use κ → Except Stop (Expansion κ)
  | 0, use => .ok ⟨[(use.flag, none)], none, none⟩
  | steps + 1, use =>
    match use.carried?, use.flag.takesValue with
    | none, true => .ok ⟨[], some use.flag, none⟩
    | none, false => .ok ⟨[(use.flag, none)], none, none⟩
    | some carried, true => .ok ⟨[(use.flag, some carried.text)], none, none⟩
    | some carried, false =>
      match carried.text.toList with
      | letter :: rest =>
        if use.name.startsWith "--" || carried.isMarked || letter = '-' then
          grammar.refuseValue use.flag carried
        else
          let name := String.ofList ['-', letter]
          match flagNamed? grammar.flags name with
          | some flag => do
            let later ← grammar.expand steps ⟨flag, name, carriedIn rest⟩
            return { later with uses := (use.flag, none) :: later.uses }
          | none => .ok ⟨[(use.flag, none)], none, some ("-" ++ carried.text)⟩
      | [] => grammar.refuseValue use.flag carried

def applyAll (grammar : Grammar κ σ) : List (Flag κ × Option String) → σ → Except Stop σ
  | [], state => .ok state
  | (flag, value?) :: rest, state => do
    grammar.applyAll rest (← grammar.apply flag value? state)

/-- Reads marked arguments; those that nobody takes are returned.  A separator goes with
the word beside it. -/
def read (grammar : Grammar κ σ) : (steps : Nat) → List (String × Mark κ) → σ →
    Except Stop (σ × List String)
  | 0, _, state => .ok (state, [])
  | _, [], state => .ok (state, [])
  | steps + 1, (argument, mark) :: rest, state =>
    let leave := fun (_ : Unit) => do
      let (state, left) ← grammar.read steps rest state
      return (state, argument :: left)
    let takeWord := fun (word : String) (rest : List (String × Mark κ)) => do
      let state ← grammar.word word state
      let rest := match rest with
        | (_, .separator) :: rest => rest
        | rest => rest
      grammar.read steps rest state
    match mark with
    | .unknownFlag => leave ()
    | .word => if grammar.takesWord state then takeWord argument rest else leave ()
    | .separator =>
      match rest with
      | (word, .word) :: rest => if grammar.takesWord state then takeWord word rest else leave ()
      | _ => leave ()
    | .flag use => do
      let ⟨uses, wanting?, left?⟩ ← grammar.expand (argument.length + 1) use
      match wanting? with
      | none => do
        let (state, left) ← grammar.read steps rest (← grammar.applyAll uses state)
        return (state, left?.toList ++ left)
      | some flag =>
        match rest with
        | (value, .word) :: rest =>
          grammar.read steps rest (← grammar.applyAll (uses ++ [(flag, some value)]) state)
        | _ => grammar.flagFault flag "expected one argument"

def run (grammar : Grammar κ σ) (arguments : List String) (state : σ) :
    Except Stop (σ × List String) :=
  match markAll grammar.flags arguments with
  | .error message => .error (.usage grammar.program message)
  | .ok marked => grammar.read arguments.length marked state

end Grammar

/-! ## The commands -/

inductive Verb where
  | compile
  | normalize
  deriving DecidableEq, Repr

namespace Verb

def all : List Verb := [compile, normalize]

def name : Verb → String
  | compile => "compile"
  | normalize => "normalize"

def program (verb : Verb) : String :=
  programName ++ " " ++ verb.name

end Verb

structure Job where
  /-- The file to read, or a dash for the standard input. -/
  input? : Option String
  /-- The file to write; the standard output where there is none. -/
  output? : Option String
  loop : Bool
  config? : Option String
  format : Format
  indent : Int

def Job.standard : Job := ⟨none, none, false, none, .json, 2⟩

inductive JobFlag where
  | help
  | output
  | loop
  | config
  | format
  | indent
  deriving DecidableEq, Repr

/-- The spellings of the flag that asks for help. -/
def helpNames : List String := ["-h", "--help"]

def Verb.flags : Verb → List (Flag JobFlag)
  | compile =>
    [⟨helpNames, false, .help⟩, ⟨["-o", "--output"], true, .output⟩, ⟨["--loop"], false, .loop⟩,
     ⟨["--config"], true, .config⟩, ⟨["--format"], true, .format⟩, ⟨["--indent"], true, .indent⟩]
  | normalize =>
    [⟨helpNames, false, .help⟩, ⟨["-o", "--output"], true, .output⟩, ⟨["--indent"], true, .indent⟩]

/-- The words for a choice that is none of those offered. -/
def invalidChoice (given : String) (offered : List String) : String :=
  "invalid choice: " ++ Text.quoted given ++ " (choose from "
    ++ ", ".intercalate (offered.map Text.quoted) ++ ")"

def Verb.apply (verb : Verb) (flag : Flag JobFlag) (value? : Option String) (job : Job) :
    Except Stop Job :=
  let value := value?.getD ""
  let fault := fun (message : String) =>
    Except.error (Stop.usage verb.program ("argument " ++ flag.label ++ ": " ++ message))
  match flag.key with
  | .help => .error (.help verb.program)
  | .output => .ok { job with output? := some value }
  | .loop => .ok { job with loop := true }
  | .config => .ok { job with config? := some value }
  | .format =>
    match Format.all.find? fun format => format.name == value with
    | some format => .ok { job with format }
    | none => fault (invalidChoice value (Format.all.map Format.name))
  | .indent =>
    match Text.integer? value.toList with
    | some indent => .ok { job with indent }
    | none => fault ("invalid int value: " ++ Text.quoted value)

def Verb.grammar (verb : Verb) : Grammar JobFlag Job where
  program := verb.program
  flags := verb.flags
  apply := verb.apply
  takesWord job := job.input?.isNone
  word input job := .ok { job with input? := some input }

/-- The job that the arguments of a command describe, and the arguments that are left. -/
def Verb.read (verb : Verb) (arguments : List String) : Except Stop (Job × List String) := do
  let (job, left) ← verb.grammar.run arguments .standard
  if job.input?.isNone then
    .error (.usage verb.program "the following arguments are required: input")
  else return (job, left)

/-! ## The program -/

inductive ProgramFlag where
  | help
  | version
  | verbose
  deriving DecidableEq, Repr

def programFlags : List (Flag ProgramFlag) :=
  [⟨helpNames, false, .help⟩, ⟨["--version"], false, .version⟩,
   ⟨["-v", "--verbose"], false, .verbose⟩]

structure Invocation where
  /-- How often the user asks for more messages. -/
  verbosity : Nat
  command? : Option (Verb × Job)

/-- The arguments from a command on, and those before it that nobody takes. -/
structure Outer where
  verbosity : Nat
  left : List String
  command? : Option (List String)

/-- Reads the flags of the program up to the command. -/
def readOuter : (steps : Nat) → List (String × Mark ProgramFlag) → Outer → Except Stop Outer
  | 0, _, outer => .ok outer
  | _, [], outer => .ok outer
  | steps + 1, (argument, mark) :: rest, outer =>
    let leave := { outer with left := outer.left ++ [argument] }
    let command := { outer with command? := some (argument :: rest.map (·.1)) }
    match mark with
    | .unknownFlag => readOuter steps rest leave
    | .word => .ok command
    | .separator => if rest.isEmpty then readOuter steps rest leave else .ok command
    | .flag use => do
      let ⟨uses, _, left?⟩ ← grammar.expand (argument.length + 1) use
      let outer ← grammar.applyAll uses outer
      readOuter steps rest { outer with left := outer.left ++ left?.toList }
where
  grammar : Grammar ProgramFlag Outer :=
    { program := programName
      flags := programFlags
      apply := fun flag _ outer =>
        match flag.key with
        | .help => .error (.help programName)
        | .version => .error .version
        | .verbose => .ok { outer with verbosity := outer.verbosity + 1 }
      takesWord := fun _ => false
      word := fun _ outer => .ok outer }

/-- What the arguments of the program ask for. -/
def readArguments (arguments : List String) : Except Stop Invocation := do
  let marked ← (markAll programFlags arguments).mapError (Stop.usage programName)
  let outer ← readOuter arguments.length marked ⟨0, [], none⟩
  let (command?, left) ← match outer.command? with
    | none | some [] => .ok (none, outer.left)
    | some (name :: rest) =>
      match Verb.all.find? fun verb => verb.name == name with
      | some verb => do
        let (job, left) ← verb.read rest
        .ok (some (verb, job), outer.left ++ left)
      | none =>
        .error (.usage programName ("argument command: "
          ++ invalidChoice name (Verb.all.map Verb.name)))
  if left.isEmpty then return ⟨outer.verbosity, command?⟩
  else .error (.usage programName ("unrecognized arguments: " ++ " ".intercalate left))

end MotionScene.Cli
