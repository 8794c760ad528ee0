import MotionScene.Document.Printer

/-!
# Values of option files

An option file holds values much like those of a document, but the keys of its mappings
may be values of any kind, and there are dates and values of further kinds.

The notation of these files is not ours: a program is given a codec for it, which reads the
text of a file and writes a document, and which may fail at both.
-/

namespace MotionScene

inductive Yaml (R : Type) where
  | null
  | bool (b : Bool)
  | num (n : Number R)
  | date (year month day : Nat)
  | text (s : String)
  | list (items : List (Yaml R))
  | mapping (entries : List (Yaml R × Yaml R))
  /-- A value that no option takes, such as a moment, bytes, a set or a list that holds
  itself: all that is told of it is the name of its kind and how it is shown, if it can be. -/
  | other (kind : String) (shown? : Option String)
  deriving Inhabited, Repr

namespace Yaml

variable {R : Type}

def sortName : Yaml R → String
  | null => ValueSort.null.name
  | bool _ => ValueSort.bool.name
  | num (.whole _) => ValueSort.whole.name
  | num (.real _) => ValueSort.real.name
  | date .. => "date"
  | text _ => ValueSort.text.name
  | list _ => ValueSort.list.name
  | mapping _ => ValueSort.object.name
  | other kind _ => kind

def isNull : Yaml R → Bool
  | null => true
  | _ => false

mutual

/-- A document value as a value of an option file. -/
def ofValue : Value R → Yaml R
  | .null => null
  | .bool b => bool b
  | .num n => num n
  | .text s => text s
  | .list items => list (ofItems items)
  | .object members => mapping (ofMembers members)

def ofItems : List (Value R) → List (Yaml R)
  | [] => []
  | v :: rest => ofValue v :: ofItems rest

def ofMembers : List (String × Value R) → List (Yaml R × Yaml R)
  | [] => []
  | (k, v) :: rest => (text k, ofValue v) :: ofMembers rest

end

mutual

/-- A value as a message shows it.  Nothing can be shown that has a number of too many
digits in it. -/
def shown? : Yaml Float → Option String
  | null => some "None"
  | bool true => some "True"
  | bool false => some "False"
  | num n => if n.hasText then some n.text else none
  | date year month day => some s!"datetime.date({year}, {month}, {day})"
  | text s => some (Text.quoted s)
  | list items => do return "[" ++ ", ".intercalate (← shownItems? items) ++ "]"
  | mapping entries => do return "\x7b" ++ ", ".intercalate (← shownEntries? entries) ++ "\x7d"
  | other _ words? => words?

def shownItems? : List (Yaml Float) → Option (List String)
  | [] => some []
  | v :: rest => do return (← shown? v) :: (← shownItems? rest)

def shownEntries? : List (Yaml Float × Yaml Float) → Option (List String)
  | [] => some []
  | (k, v) :: rest => do return ((← shown? k) ++ ": " ++ (← shown? v)) :: (← shownEntries? rest)

end

/-- The words that a value stands for inside a message: a text itself. -/
def words? : Yaml Float → Option String
  | text s => some s
  | value => value.shown?

/-- The number that a key counts as, where truth values are 0 and 1. -/
def keyNumber? : Yaml R → Option (Number R)
  | num n => some n
  | bool b => some (.whole (if b then 1 else 0))
  | _ => none

/-- Whether two values count as one key.  Numbers are equal by amount. -/
def sameKey [Scalar R] : Yaml R → Yaml R → Bool
  | null, null => true
  | text a, text b => a == b
  | date y m d, date y' m' d' => y == y' && m == m' && d == d'
  | other kind shown?, other kind' shown?' => kind == kind' && shown? == shown?'
  | a, b =>
    match a.keyNumber?, b.keyNumber? with
    | some m, some n => m.same n
    | _, _ => false

/-! ## Codecs -/

/-- Why a text has no value. -/
inductive LoadFault where
  /-- The text does not follow the notation. -/
  | malformed
  /-- The text follows the notation, but stands for nothing: a date, say, that does not
  exist. -/
  | noMeaning
  deriving DecidableEq, Repr

/-- What a program needs of a notation for option files and documents. -/
structure Codec (R : Type) where
  load : String → Except LoadFault (Yaml R)
  /-- The text of a document, if there is one. -/
  dump : Value R → Option String

end Yaml

end MotionScene
