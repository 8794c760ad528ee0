import MotionScene.Text.Character

/-!
# Flags

Arguments that start with a dash name flags.  A long flag may be cut short as long as
only one flag starts that way, and may carry its value after an equals sign; a short flag
may carry its value, or further short flags, in the same argument.  After a double dash
nothing names a flag any more, and neither does a negative number or an argument with a
space that names none.
-/

namespace MotionScene.Cli

structure Flag (κ : Type) where
  /-- The names of the flag, each with its dashes. -/
  names : List String
  takesValue : Bool
  key : κ

/-- A flag as it is named in messages. -/
def Flag.label {κ : Type} (flag : Flag κ) : String :=
  "/".intercalate flag.names

/-- What stands behind the name of a flag in the same argument. -/
structure Carried where
  text : String
  /-- Whether an equals sign comes before it. -/
  isMarked : Bool
  deriving DecidableEq, Repr

structure Use (κ : Type) where
  flag : Flag κ
  /-- The name that the argument gives or stands for. -/
  name : String
  carried? : Option Carried

inductive Mark (κ : Type) where
  | word
  | separator
  | flag (use : Use κ)
  | unknownFlag

variable {κ : Type}

/-- The names of flags with their flags, in order. -/
def flagNames (flags : List (Flag κ)) : List (String × Flag κ) :=
  flags.flatMap fun flag => flag.names.map (·, flag)

def flagNamed? (flags : List (Flag κ)) (name : String) : Option (Flag κ) :=
  (flagNames flags).lookup name

/-- Splits an argument at its first equals sign. -/
def splitValue (argument : String) : String × Option Carried :=
  let characters := argument.toList
  let name := characters.takeWhile (· ≠ '=')
  match characters.drop name.length with
  | [] => (argument, none)
  | _ :: value => (String.ofList name, some ⟨String.ofList value, true⟩)

/-- The uses that an argument which is no name of a flag may stand for. -/
def readings (flags : List (Flag κ)) (argument : String) : List (Use κ) :=
  match argument.toList with
  | '-' :: '-' :: _ =>
    let (name, value?) := splitValue argument
    (flagNames flags).filterMap fun entry =>
      if entry.1.startsWith name then some ⟨entry.2, entry.1, value?⟩ else none
  | '-' :: letter :: rest =>
    let short := String.ofList ['-', letter]
    (flagNames flags).filterMap fun entry =>
      if entry.1 = short then some ⟨entry.2, entry.1, some ⟨String.ofList rest, false⟩⟩
      else if entry.1.startsWith argument then some ⟨entry.2, entry.1, none⟩
      else none
  | _ => []

/-- Whether an argument is a negative number: digits, perhaps with a point before the
last of them. -/
def isNegativeNumber (argument : String) : Bool :=
  let isDigit := fun c => (Text.digitValue? c).isSome
  match argument.toList with
  | '-' :: rest =>
    let whole := rest.takeWhile isDigit
    match rest.drop whole.length with
    | [] => !whole.isEmpty
    | '.' :: places => !places.isEmpty && places.all isDigit
    | _ => false
  | _ => false

/-- What an argument looks like; a failure is the message for one that may stand for
several flags. -/
def markOf (flags : List (Flag κ)) (argument : String) : Except String (Mark κ) :=
  if argument.length ≤ 1 || !argument.startsWith "-" then .ok .word
  else
    let (name, value?) := splitValue argument
    match flagNamed? flags argument, value?.bind fun _ => flagNamed? flags name with
    | some flag, _ => .ok (.flag ⟨flag, argument, none⟩)
    | none, some flag => .ok (.flag ⟨flag, name, value?⟩)
    | none, none =>
      match readings flags argument with
      | [use] => .ok (.flag use)
      | first :: second :: rest =>
        let names := (first :: second :: rest).map Use.name
        .error ("ambiguous option: " ++ argument ++ " could match " ++ ", ".intercalate names)
      | [] =>
        if isNegativeNumber argument || argument.contains ' ' then .ok .word
        else .ok .unknownFlag

def markAll (flags : List (Flag κ)) : List String → Except String (List (String × Mark κ))
  | [] => .ok []
  | argument :: rest => do
    if argument = "--" then
      return (argument, .separator) :: rest.map fun argument => (argument, Mark.word)
    else
      let mark ← markOf flags argument
      return (argument, mark) :: (← markAll flags rest)

end MotionScene.Cli
