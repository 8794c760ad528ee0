import MotionScene.Document.Printer

/-!
# Documents as text

The textual form of documents.  A numeral with neither point nor exponent is a whole
number and keeps all its digits; any other is a scalar.  A key that an object writes
twice keeps its first place and its last value.  Reading also accepts the names of the
special values that writing produces for them, and refuses whole numerals that are too
long.

Writing uses the seven-bit alphabet only: other characters are escaped by their 16-bit
units.  A layout says whether parts stand on lines of their own and how they are
separated.  What holds a whole number that is too long has no text (`write?`).
-/

namespace MotionScene.Json

/-! ## Reading -/

section Reading

variable {R : Type} [Scalar R]

/-- The characters that may stand between two tokens. -/
def isSpace (c : Char) : Bool :=
  c = ' ' || c = '\t' || c = '\n' || c = '\r'

/-- The text from its first token on. -/
def skipSpace (text : List Char) : List Char :=
  text.dropWhile isSpace

def hexValue? (c : Char) : Option Nat :=
  if '0' ≤ c ∧ c ≤ '9' then some (c.toNat - 48)
  else if 'a' ≤ c ∧ c ≤ 'f' then some (c.toNat - 87)
  else if 'A' ≤ c ∧ c ≤ 'F' then some (c.toNat - 55)
  else none

/-- The 16-bit unit that four hexadecimal digits write. -/
def unit? (a b c d : Char) : Option Nat := do
  let a ← hexValue? a
  let b ← hexValue? b
  let c ← hexValue? c
  let d ← hexValue? d
  return ((a * 16 + b) * 16 + c) * 16 + d

/-- The character that a one-letter escape stands for. -/
def simpleEscape? (c : Char) : Option Char :=
  if c = '\x22' || c = '\\' || c = '/' then some c
  else if c = 'b' then some '\x08'
  else if c = 'f' then some '\x0C'
  else if c = 'n' then some '\n'
  else if c = 'r' then some '\r'
  else if c = 't' then some '\t'
  else none

/-- What stands for half a character. -/
def replacement : Char := Char.ofNat 0xFFFD

/-- The characters read so far, in reverse, after a high unit that no low one followed. -/
def settle (high? : Option Nat) (done : List Char) : List Char :=
  if high?.isSome then replacement :: done else done

/-- The state after an escaped unit: a low unit joins the high one just before it, and a
high unit waits for the next. -/
def afterUnit (high? : Option Nat) (done : List Char) (unit : Nat) : Option Nat × List Char :=
  if 0xD800 ≤ unit ∧ unit < 0xDC00 then (some unit, settle high? done)
  else if 0xDC00 ≤ unit ∧ unit < 0xE000 then
    match high? with
    | some high =>
      (none, Char.ofNat (0x10000 + (high - 0xD800) * 0x400 + (unit - 0xDC00)) :: done)
    | none => (none, replacement :: done)
  else (none, Char.ofNat unit :: settle high? done)

/-- Reads the characters of a text up to its closing quote. -/
def readCharacters (high? : Option Nat) (done : List Char) :
    List Char → Option (String × List Char)
  | [] => none
  | c :: rest =>
    if c = '\x22' then some (String.ofList (settle high? done).reverse, rest)
    else if c = '\\' then
      match rest with
      | [] => none
      | e :: rest =>
        if e = 'u' then
          match rest with
          | w :: x :: y :: z :: rest =>
            match unit? w x y z with
            | some unit =>
              let state := afterUnit high? done unit
              readCharacters state.1 state.2 rest
            | none => none
          | _ => none
        else
          match simpleEscape? e with
          | some character => readCharacters none (character :: settle high? done) rest
          | none => none
    else if c.toNat < 0x20 then none
    else readCharacters none (c :: settle high? done) rest

def readText (text : List Char) : Option (String × List Char) :=
  readCharacters none [] text

/-- The digits of a numeral, of the seven-bit alphabet alone. -/
def isDigit (c : Char) : Bool := '0' ≤ c && c ≤ '9'

def digitsValue (digits : List Char) : Nat :=
  Text.ofDigits (digits.map fun c => c.toNat - 48)

/-- The digits before the point; a zero at the front is the only one. -/
def wholePart : List Char → List Char
  | '0' :: _ => ['0']
  | text => text.takeWhile isDigit

/-- Splits a point with digits after it off the text, if it starts with them. -/
def takePlaces : List Char → List Char × List Char
  | '.' :: rest =>
    let digits := rest.takeWhile isDigit
    if digits.isEmpty then ([], '.' :: rest) else (digits, rest.dropWhile isDigit)
  | text => ([], text)

/-- Splits an exponent off the text, if it starts with one. -/
def takeExponent : List Char → Option Int × List Char
  | c :: rest =>
    if c = 'e' || c = 'E' then
      let (negative, signless) := Text.takeSign rest
      let digits := signless.takeWhile isDigit
      if digits.isEmpty then (none, c :: rest)
      else
        let n : Int := digitsValue digits
        (some (if negative then -n else n), signless.dropWhile isDigit)
    else (none, c :: rest)
  | [] => (none, [])

/-- Reads a number whose sign, if it had one, has been read. -/
def readMagnitude (negative : Bool) (text : List Char) : Option (Number R × List Char) :=
  let digits := wholePart text
  if digits.isEmpty then none
  else
    let (places, rest) := takePlaces (text.drop digits.length)
    let (exponent, rest) := takeExponent rest
    if places.isEmpty && exponent.isNone then
      if digits.length > Text.maximalDigits then none
      else
        let n : Int := digitsValue digits
        some (.whole (if negative then -n else n), rest)
    else
      let numeral := Numeral.finite negative (digitsValue (digits ++ places))
        (exponent.getD 0 - places.length)
      some (.real (Scalar.ofNumeral numeral), rest)

def takeWord? (word : String) (text : List Char) : Option (List Char) :=
  if word.toList.isPrefixOf text then some (text.drop word.length) else none

/-- The values that are written as names. -/
def names : List (String × Value R) :=
  [("null", .null), ("true", .bool true), ("false", .bool false),
   ("NaN", .num (.real (Scalar.ofNumeral (.special .notANumber)))),
   ("Infinity", .num (.real (Scalar.ofNumeral (.special (.infinity false))))),
   ("-Infinity", .num (.real (Scalar.ofNumeral (.special (.infinity true)))))]

def readAtom (text : List Char) : Option (Value R × List Char) :=
  match (names (R := R)).findSome? fun entry => (takeWord? entry.1 text).map (entry.2, ·) with
  | some result => some result
  | none =>
    let result := match text with
      | '-' :: rest => readMagnitude true rest
      | rest => readMagnitude false rest
    result.map fun (n, rest) => (.num n, rest)

mutual

/-- Reads a value.  The steps bound the depth and the number of parts together. -/
def readValue : (steps : Nat) → List Char → Option (Value R × List Char)
  | 0, _ => none
  | steps + 1, text =>
    match text with
    | '\x22' :: rest => (readText rest).map fun (s, rest) => (.text s, rest)
    | '[' :: rest =>
      match skipSpace rest with
      | ']' :: rest => some (.list [], rest)
      | rest => (readItems steps rest).map fun (items, rest) => (.list items, rest)
    | '\x7b' :: rest =>
      match skipSpace rest with
      | '\x7d' :: rest => some (.object [], rest)
      | rest => (readMembers steps [] rest).map fun (members, rest) => (.object members, rest)
    | text => readAtom text

def readItems : (steps : Nat) → List Char → Option (List (Value R) × List Char)
  | 0, _ => none
  | steps + 1, text => do
    let (item, rest) ← readValue steps text
    match skipSpace rest with
    | ',' :: rest =>
      let (items, rest) ← readItems steps (skipSpace rest)
      return (item :: items, rest)
    | ']' :: rest => return ([item], rest)
    | _ => none

/-- Reads the members of an object up to its closing bracket. -/
def readMembers : (steps : Nat) → Members R → List Char → Option (Members R × List Char)
  | 0, _, _ => none
  | steps + 1, members, text =>
    match text with
    | '\x22' :: rest => do
      let (key, rest) ← readText rest
      match skipSpace rest with
      | ':' :: rest =>
        let (value, rest) ← readValue steps (skipSpace rest)
        let members := members.set key value
        match skipSpace rest with
        | ',' :: rest => readMembers steps members (skipSpace rest)
        | '\x7d' :: rest => return (members, rest)
        | _ => none
      | _ => none
    | _ => none

end

/-- The document that a text is, if it is one and nothing else. -/
def parse? (text : String) : Option (Value R) :=
  let characters := skipSpace text.toList
  match readValue (2 * characters.length + 2) characters with
  | some (value, rest) => if (skipSpace rest).isEmpty then some value else none
  | none => none

end Reading

/-! ## Writing -/

/-- How the parts of a text are laid out. -/
structure Layout where
  /-- How far the parts of a list stand to the right of it, if each has a line. -/
  indent? : Option Nat
  itemSeparator : String
  keySeparator : String

/-- Everything on one line, with a space after each separator. -/
def Layout.plain : Layout := ⟨none, ", ", ": "⟩

/-- Everything on one line, without spaces. -/
def Layout.dense : Layout := ⟨none, ",", ":"⟩

/-- A line for each part. -/
def Layout.lines (indent : Nat) : Layout := ⟨some indent, ",", ": "⟩

/-- The escape of a 16-bit unit. -/
def unitEscape (unit : Nat) : List Char :=
  '\\' :: 'u' :: Text.hexadecimal 4 unit

/-- A character as it stands between quotes. -/
def escapedChar (c : Char) : List Char :=
  if c = '\x22' || c = '\\' then ['\\', c]
  else if c = '\n' then ['\\', 'n']
  else if c = '\r' then ['\\', 'r']
  else if c = '\t' then ['\\', 't']
  else if c = '\x08' then ['\\', 'b']
  else if c = '\x0C' then ['\\', 'f']
  else if 0x20 ≤ c.toNat ∧ c.toNat < 0x7F then [c]
  else if c.toNat < 0x10000 then unitEscape c.toNat
  else
    let beyond := c.toNat - 0x10000
    unitEscape (0xD800 + beyond / 0x400) ++ unitEscape (0xDC00 + beyond % 0x400)

/-- A text between quotes, with its escapes. -/
def textLiteral (s : String) : String :=
  String.ofList ('\x22' :: s.toList.flatMap escapedChar ++ ['\x22'])

def numberLiteral : Number Float → String
  | .whole n => toString n
  | .real x =>
    match Binary64.special? x with
    | some .notANumber => "NaN"
    | some (.infinity false) => "Infinity"
    | some (.infinity true) => "-Infinity"
    | none => Binary64.text x

/-- A line break and the indentation of a depth, where parts have lines. -/
def Layout.lineBreak (layout : Layout) (depth : Nat) : String :=
  match layout.indent? with
  | none => ""
  | some indent => "\n" ++ String.ofList (List.replicate (indent * depth) ' ')

/-- Puts parts between brackets. -/
def Layout.bracketed (layout : Layout) (depth : Nat) (opening closing : String)
    (parts : List String) : String :=
  if parts.isEmpty then opening ++ closing
  else
    let inner := layout.lineBreak (depth + 1)
    opening ++ inner ++ (layout.itemSeparator ++ inner).intercalate parts
      ++ layout.lineBreak depth ++ closing

mutual

/-- A value in the given layout, at a depth of nesting. -/
def render (layout : Layout) (depth : Nat) : Value Float → String
  | .null => "null"
  | .bool true => "true"
  | .bool false => "false"
  | .num n => numberLiteral n
  | .text s => textLiteral s
  | .list items => layout.bracketed depth "[" "]" (renderItems layout (depth + 1) items)
  | .object members =>
    layout.bracketed depth "\x7b" "\x7d" (renderMembers layout (depth + 1) members)

def renderItems (layout : Layout) (depth : Nat) : List (Value Float) → List String
  | [] => []
  | v :: rest => render layout depth v :: renderItems layout depth rest

def renderMembers (layout : Layout) (depth : Nat) : List (String × Value Float) → List String
  | [] => []
  | (k, v) :: rest =>
    (textLiteral k ++ layout.keySeparator ++ render layout depth v)
      :: renderMembers layout depth rest

end

def write (layout : Layout) (value : Value Float) : String :=
  render layout 0 value

/-- The text of a value, if it has one. -/
def write? (layout : Layout) (value : Value Float) : Option String :=
  if value.hasText then some (write layout value) else none

end MotionScene.Json
