/-!
# Reading positions

A text that is read from the front, with the line and the column that have been reached.
-/

namespace MotionScene.Yaml

/-- What is left of a text, and where that stands. -/
structure Cursor where
  text : List Char
  line : Nat
  column : Nat

namespace Cursor

def start (text : List Char) : Cursor := ⟨text, 0, 0⟩

def advance : (count : Nat) → Cursor → Cursor
  | 0, cursor => cursor
  | _ + 1, ⟨[], line, column⟩ => ⟨[], line, column⟩
  | count + 1, ⟨'\n' :: rest, line, _⟩ => advance count ⟨rest, line + 1, 0⟩
  | count + 1, ⟨_ :: rest, line, column⟩ => advance count ⟨rest, line, column + 1⟩

/-- Passes over the spaces of a line. -/
def skipSpaces (cursor : Cursor) : Cursor :=
  cursor.advance (cursor.text.takeWhile (· = ' ')).length

/-- Whether a blank or nothing comes after some characters. -/
def isBlankAfter (cursor : Cursor) (count : Nat) : Bool :=
  match cursor.text.drop count with
  | [] => true
  | c :: _ => c = ' ' || c = '\t' || c = '\n'

/-- Passes over blank lines, spaces and comments; the steps bound the number of lines. -/
def skipBlanksFor : (steps : Nat) → Cursor → Cursor
  | 0, cursor => cursor
  | steps + 1, cursor =>
    let cursor := cursor.skipSpaces
    match cursor.text with
    | '#' :: _ =>
      skipBlanksFor steps (cursor.advance (cursor.text.takeWhile (· ≠ '\n')).length)
    | '\n' :: _ => skipBlanksFor steps (cursor.advance 1)
    | _ => cursor

def skipBlanks (cursor : Cursor) : Cursor :=
  skipBlanksFor (2 * cursor.text.length + 1) cursor

/-- Whether three equal marks stand alone at the start of the line. -/
def isMarker (mark : Char) (cursor : Cursor) : Bool :=
  cursor.column = 0 && [mark, mark, mark].isPrefixOf cursor.text && cursor.isBlankAfter 3

def isEnd (cursor : Cursor) : Bool :=
  cursor.text.isEmpty || cursor.isMarker '-' || cursor.isMarker '.'

/-- Whether a mark with a blank after it comes next. -/
def isAtMark (mark : Char) (cursor : Cursor) : Bool :=
  cursor.text.head? = some mark && cursor.isBlankAfter 1

end Cursor

end MotionScene.Yaml
