import MotionScene.Yaml.Load
import MotionScene.Yaml.Scalar

/-!
# Documents in block notation

Every item of a list and every member of an object has a line of its own.  Items start
with a dash.  Members show their key and a colon; a key that is empty, long or of several
lines is announced by a question mark.  Lists under a key stand at the column of the key,
objects two columns further; what follows a dash starts on its line.

Together with the reader this makes up the codec that the program runs with.
-/

namespace MotionScene.Yaml

/-- The text of a scalar number.  An exponent always comes after a point. -/
def realText (x : Float) : String :=
  match Binary64.special? x with
  | some .notANumber => ".nan"
  | some (.infinity false) => ".inf"
  | some (.infinity true) => "-.inf"
  | none =>
    let text := (Binary64.text x).toList
    let mantissa := text.takeWhile (· ≠ 'e')
    String.ofList
      (if text.contains 'e' && !text.contains '.' then
        mantissa ++ '.' :: '0' :: text.drop mantissa.length
      else text)

/-- The text of a value at a place, for values that take no lines of their own. -/
def atomText (place : Place) : Value Float → String
  | .null => "null"
  | .bool true => "true"
  | .bool false => "false"
  | .num (.whole n) => toString n
  | .num (.real x) => realText x
  | .text s => scalarText place s
  | .list _ => "[]"
  | .object _ => "\x7b\x7d"

/-- The length that a key has at most if it stands before its colon. -/
def keyWidth : Nat := 122

/-- The characters that end a line. -/
def lineEnds : List Char := ['\n', '\u0085', '\u2028', '\u2029']

/-- Whether a key stands before its colon on one line. -/
def isSimpleKey (key : String) : Bool :=
  key ≠ "" && key.length ≤ keyWidth && !key.toList.any lineEnds.contains

/-- Puts lines below each other at a column, where the first one already is. -/
def stack (column : Nat) (lines : List String) : String :=
  (String.ofList (breakTo column)).intercalate lines

mutual

/-- A value whose parts stand at a column where the line already is. -/
def block (column : Nat) : Value Float → String
  | .list (item :: rest) => stack column (itemLines column (item :: rest))
  | .object (member :: rest) => stack column (memberLines column (member :: rest))
  | value => atomText ⟨column, column, true⟩ value

def itemLines (column : Nat) : List (Value Float) → List String
  | [] => []
  | item :: rest => ("- " ++ block (column + 2) item) :: itemLines column rest

/-- A value under a key of the given width at a column. -/
def underKey (column width : Nat) : Value Float → String
  | .list (item :: rest) =>
    String.ofList (breakTo column) ++ stack column (itemLines column (item :: rest))
  | .object (member :: rest) =>
    String.ofList (breakTo (column + 2))
      ++ stack (column + 2) (memberLines (column + 2) (member :: rest))
  | value => " " ++ atomText ⟨column + width + 2, column + 2, true⟩ value

/-- The members of an object at a column. -/
def memberLines (column : Nat) : List (String × Value Float) → List String
  | [] => []
  | (key, value) :: rest =>
    let line :=
      if isSimpleKey key then
        let shown := scalarText ⟨column, column + 2, false⟩ key
        shown ++ ":" ++ underKey column shown.length value
      else
        "? " ++ scalarText ⟨column + 2, column + 2, true⟩ key ++ String.ofList (breakTo column)
          ++ ": " ++ block (column + 2) value
    line :: memberLines column rest

end

/-- Whether a value is written as one scalar without quotes. -/
def isPlainAtom : Value Float → Bool
  | .text s => styleOf s.toList = .plain
  | .list _ | .object _ => false
  | _ => true

def documentText (value : Value Float) : String :=
  match value with
  | .list (_ :: _) | .object (_ :: _) => block 0 value ++ "\n"
  | _ => atomText ⟨0, 2, true⟩ value ++ (if isPlainAtom value then "\n...\n" else "\n")

/-- The notation as it is read and written here. -/
def Codec.builtIn : Codec Float where
  load := Yaml.load
  dump document := if document.hasText then some (documentText document) else none

end MotionScene.Yaml
