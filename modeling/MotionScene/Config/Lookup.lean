import MotionScene.Config.Options
import MotionScene.Files
import MotionScene.Notice

/-!
# Looking up options

Option files are looked for in three places: where the user says, where the environment
says, and in the home directory.  Only the first one that is there counts.  A file that
the user names has to be there.

What a caller gives beside a file is given by name.  Three names are not those of options,
but say where to look, what to parse, and what to call it in messages.
-/

namespace MotionScene

/-- What a program finds around it beside its arguments. -/
structure Surroundings where
  files : Files
  home : Location
  /-- The option file that the environment names; an empty name is none. -/
  optionFile : String

inductive ConfigFault (R : Type) where
  | notFound (name : String)
  | unreadable (file : String)
  /-- The value of a source is not one of options; the source is what it is called. -/
  | invalid (source : Yaml R) (fault : OptionFault R)
  /-- The first file that is there holds no text. -/
  | noText
  /-- The notation of a file is kept, but what it says does not exist. -/
  | noMeaning
  /-- The environment names a home directory that is not known. -/
  | unknownHome
  /-- Something that is known already is given once more, by its name. -/
  | takenName (name : String)

def ConfigFault.message? : ConfigFault Float → Option String
  | notFound name => some ("Config file not found: " ++ name)
  | unreadable file => some ("Cannot read config file " ++ file ++ ": not in the expected notation")
  | invalid source fault => do return (← source.words?) ++ ": " ++ (← fault.message?)
  | noText => none
  | noMeaning => none
  | unknownHome => none
  | takenName _ => none

/-- The name of what says where to look. -/
def pathName : String := "path"

/-- The name of what is parsed. -/
def valueName : String := "data"

/-- The name of what the parsed value is called. -/
def sourceName : String := "source"

def builtInSource : String := "<config>"

def userFile (home : Location) : Location :=
  home.join [".config", "lottiegraph", "config.yaml"]

/-- A location with the sign for the home directory at its start replaced. -/
def expandHome (home location : Location) : Option Location :=
  match location.isAbsolute, location.parts with
  | false, first :: rest =>
    if first = "~" then some (home.join rest)
    else if first.toList.head? = some '~' then none
    else some location
  | _, _ => some location

/-- The places where option files are looked for, in order. -/
def searchPaths (name? : Option String) (surroundings : Surroundings) : Option (List Location) := do
  let named := name?.toList.map Location.ofText
  let user := userFile surroundings.home
  if surroundings.optionFile = "" then return named ++ [user]
  else
    let environment ← expandHome surroundings.home (Location.ofText surroundings.optionFile)
    return named ++ [environment, user]

variable {R : Type}

/-- Whether something is given under a name. -/
def isGiven (overrides : List (String × Yaml R)) (name : String) : Bool :=
  overrides.any (·.1 == name)

/-- Options that were looked up, or why there are none, with what there is to say. -/
structure Lookup (R : Type) where
  notices : List (Notice R)
  outcome : Except (ConfigFault R) (Options R)

variable [Scalar R]

/-- The options of a value under what is given, none of which is called a source. -/
def parseCalled (source value : Yaml R) (overrides : List (String × Yaml R)) :
    Except (ConfigFault R) (Options R) :=
  if isGiven overrides valueName then .error (.takenName valueName)
  else
    match parseOptions value overrides with
    | .ok options => .ok options
    | .error fault => .error (.invalid source fault)

/-- The options of a value that comes from a source. -/
def parseFrom (source : String) (value : Yaml R) (overrides : List (String × Yaml R)) :
    Except (ConfigFault R) (Options R) :=
  if isGiven overrides sourceName then .error (.takenName sourceName)
  else parseCalled (.text source) value overrides

/-- The options that are given without a file.  What they are called may be given as well. -/
def parseGiven (overrides : List (String × Yaml R)) : Except (ConfigFault R) (Options R) :=
  parseCalled ((overrides.lookup sourceName).getD (.text builtInSource)) (.mapping [])
    (overrides.filter (·.1 ≠ sourceName))

/-- The options of a file that is there. -/
def loadFile (codec : Yaml.Codec R) (files : Files) (location : Location)
    (overrides : List (String × Yaml R)) : Lookup R :=
  match files.read location with
  | .error .noText => ⟨[], .error .noText⟩
  | .error _ => ⟨[], .error (.unreadable location.text)⟩
  | .ok text =>
    match codec.load text with
    | .error .malformed => ⟨[], .error (.unreadable location.text)⟩
    | .error .noMeaning => ⟨[], .error .noMeaning⟩
    | .ok value => ⟨[.loadedOptions location.text], parseFrom location.text value overrides⟩

/-- The options of the first file that is there, under those that are given. -/
def loadOptions (codec : Yaml.Codec R) (name? : Option String)
    (overrides : List (String × Yaml R)) (surroundings : Surroundings) : Lookup R :=
  let missing? := name?.filter fun name => !surroundings.files.isFile (Location.ofText name)
  if isGiven overrides pathName then ⟨[], .error (.takenName pathName)⟩
  else
    match missing?, searchPaths name? surroundings with
    | some name, _ => ⟨[], .error (.notFound name)⟩
    | none, none => ⟨[], .error .unknownHome⟩
    | none, some locations =>
      match locations.find? surroundings.files.isFile with
      | some location => loadFile codec surroundings.files location overrides
      | none => ⟨[], parseGiven overrides⟩

end MotionScene
