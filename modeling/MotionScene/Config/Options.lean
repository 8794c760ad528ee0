import MotionScene.Clock
import MotionScene.Yaml.Value

/-!
# Compile options

Options are read from a mapping with the names of the options as keys.  Values that the
user gives elsewhere stand over those of the mapping.  Every key has to be the name of an
option and every value of its kind; the frame rate has to be positive.
-/

namespace MotionScene

open scoped Scalar

inductive OptionKey where
  | loop
  | defaultFrameRate
  | keepNames
  deriving DecidableEq, Repr

namespace OptionKey

def all : List OptionKey := [defaultFrameRate, keepNames, loop]

def name : OptionKey → String
  | loop => "loop"
  | defaultFrameRate => "default_frame_rate"
  | keepNames => "keep_names"

def ofName? (name : String) : Option OptionKey :=
  all.find? fun key => key.name == name

def sortName : OptionKey → String
  | defaultFrameRate => ValueSort.whole.name
  | _ => ValueSort.bool.name

end OptionKey

inductive OptionFault (R : Type) where
  | notAMapping (value : Yaml R)
  /-- A key that is no text cannot even be reported. -/
  | unnamedKey
  | unknownKeys (names : List String)
  | notANumber (key : OptionKey) (value : Yaml R)
  | wrongSort (key : OptionKey) (value : Yaml R)
  | notPositive

/-- The words for a fault, if there are any.  A value that cannot be shown has none. -/
def OptionFault.message? : OptionFault Float → Option String
  | notAMapping value => some ("expected a mapping, got " ++ value.sortName)
  | unnamedKey => none
  | unknownKeys names =>
    some ("unknown option(s) " ++ ", ".intercalate names ++ ".  Valid options: "
      ++ ", ".intercalate (OptionKey.all.map OptionKey.name))
  | notANumber key value => do
    return key.name ++ " must be a number, got " ++ (← value.shown?)
  | wrongSort key value => do
    return key.name ++ " must be " ++ key.sortName ++ ", got " ++ (← value.shown?)
  | notPositive => some (OptionKey.defaultFrameRate.name ++ " must be positive")

variable {R : Type}

/-- The keys of a mapping as texts, if they all are. -/
def namedEntries : List (Yaml R × Yaml R) → Option (List (String × Yaml R))
  | [] => some []
  | (.text name, value) :: rest => (namedEntries rest).map ((name, value) :: ·)
  | _ => none

/-- Writes an entry in the place of the one with its name, or at the end. -/
def setNamed (entries : List (String × Yaml R)) (name : String) (value : Yaml R) :
    List (String × Yaml R) :=
  match entries with
  | [] => [(name, value)]
  | (k, v) :: rest => if k = name then (k, value) :: rest else (k, v) :: setNamed rest name value

/-- Entries with others written over them.  A null is not given. -/
def override (entries overrides : List (String × Yaml R)) : List (String × Yaml R) :=
  (overrides.filter fun entry => !entry.2.isNull).foldl
    (fun entries entry => setNamed entries entry.1 entry.2) entries

variable [Scalar R]

/-- Options with one of them set anew. -/
def Options.with (options : Options R) (key : OptionKey) (value : Yaml R) :
    Except (OptionFault R) (Options R) :=
  match key, value with
  | .loop, .bool b => .ok { options with loop := b }
  | .keepNames, .bool b => .ok { options with keepNames := b }
  | .defaultFrameRate, .num n => .ok { options with defaultFrameRate := n }
  | .defaultFrameRate, .bool b => .error (.notANumber .defaultFrameRate (.bool b))
  | key, value => .error (.wrongSort key value)

/-- Options with the given entries set, all of which have the names of options. -/
def Options.withEntries (options : Options R) :
    List (OptionKey × Yaml R) → Except (OptionFault R) (Options R)
  | [] => .ok options
  | (key, value) :: rest => do (← options.with key value).withEntries rest

/-- The entries whose keys name options, and the keys that do not. -/
def splitEntries (entries : List (String × Yaml R)) :
    List (OptionKey × Yaml R) × List String :=
  (entries.filterMap fun entry => (OptionKey.ofName? entry.1).map (·, entry.2),
   entries.filterMap fun entry =>
    if (OptionKey.ofName? entry.1).isNone then some entry.1 else none)

/-- The options of entries. -/
def optionsOfEntries (entries : List (String × Yaml R)) :
    Except (OptionFault R) (Options R) := do
  let (known, unknown) := splitEntries entries
  if unknown.isEmpty then
    let options ← Options.standard.withEntries known
    if options.defaultFrameRate.atMost (.whole 0) then .error .notPositive else return options
  else .error (.unknownKeys (unknown.mergeSort fun a b => decide (a ≤ b)))

/-- The options of a value under those that are given elsewhere. -/
def parseOptions (value : Yaml R) (overrides : List (String × Yaml R)) :
    Except (OptionFault R) (Options R) :=
  match value with
  | .null => optionsOfEntries (override [] overrides)
  | .mapping entries =>
    match namedEntries entries with
    | some entries => optionsOfEntries (override entries overrides)
    | none => .error .unnamedKey
  | value => .error (.notAMapping value)

end MotionScene
