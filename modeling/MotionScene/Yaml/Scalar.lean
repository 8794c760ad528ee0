import MotionScene.Yaml.Plain

/-!
# Scalars as they are written

A text is written without quotes where its form allows it and it would be read back as a
text; otherwise between single quotes, which double the quotes inside; and with
unprintable or foreign characters between double quotes, which escape them.  A line that
has grown too long is broken at a single space; inside double quotes a backslash marks
the break.
-/

namespace MotionScene.Yaml

inductive Style where
  | plain
  | single
  | double
  deriving DecidableEq, Repr

/-- A line is broken once it is longer than this. -/
def lineWidth : Nat := 80

/-- A space or a line break. -/
def isSpaceOrBreak (c : Char) : Bool := c = ' ' || c = '\n'

/-- Characters of the seven-bit alphabet that need no escape. -/
def isPlainChar (c : Char) : Bool := c = '\n' || (0x20 ≤ c.toNat && c.toNat ≤ 0x7E)

/-- Whether two characters follow each other somewhere in a text. -/
def hasPair (first second : Char) (text : List Char) : Bool :=
  (text.zip text.tail).any fun (a, b) => a = first && b = second

/-- Characters that have a meaning of their own at the start of a scalar. -/
def startIndicators : List Char :=
  ['#', ',', '[', ']', '\x7b', '\x7d', '&', '*', '!', '|', '>', '\x27', '\x22', '%', '@', '\x60']

/-- Whether a blank or nothing comes next. -/
def endsWord (rest : List Char) : Bool :=
  match rest with
  | [] => true
  | c :: _ => isSpaceOrBreak c

/-- Whether some character after the first has a meaning of its own: a colon at the end
of a word or a hash at the start of one. -/
def hasInnerIndicator : (previous : Char) → List Char → Bool
  | _, [] => false
  | previous, c :: rest =>
    (c = ':' && endsWord rest) || (c = '#' && isSpaceOrBreak previous) || hasInnerIndicator c rest

/-- Whether a text has a character with a meaning of its own. -/
def hasIndicator (text : List Char) : Bool :=
  ['-', '-', '-'].isPrefixOf text || ['.', '.', '.'].isPrefixOf text ||
    match text with
    | [] => false
    | first :: rest =>
      startIndicators.contains first
        || ((first = '?' || first = ':' || first = '-') && endsWord rest)
        || hasInnerIndicator first rest

/-- Whether a text can be written without quotes. -/
def allowsPlain (text : List Char) : Bool :=
  text.all isPlainChar && !text.contains '\n' && !text.head?.any isSpaceOrBreak
    && !text.getLast?.any isSpaceOrBreak && !hasIndicator text && isPlainText text

/-- Whether a text can be written between single quotes. -/
def allowsSingle (text : List Char) : Bool :=
  text.all isPlainChar && !hasPair '\n' ' ' text && !hasPair ' ' '\n' text

def styleOf (text : List Char) : Style :=
  if allowsPlain text then .plain else if allowsSingle text then .single else .double

/-- A line break and spaces up to a column. -/
def breakTo (column : Nat) : List Char :=
  '\n' :: List.replicate column ' '

/-- Where a scalar stands. -/
structure Place where
  column : Nat
  /-- The column of its later lines. -/
  margin : Nat
  folds : Bool

/-! ## Without quotes and between single quotes -/

/-- Writes a text of which each character is written as `shown`, with the column reached
so far.  A single space between two words breaks a long line; a break in the text is
written as one more break than it has.  `outer` tells that a space at either end of the
text breaks the line as well. -/
def foldWords (place : Place) (shown : Char → List Char) (first : Bool) (column : Nat) :
    List Char → List Char
  | [] => []
  | '\n' :: rest =>
    let breaks := rest.takeWhile (· = '\n')
    '\n' :: '\n' :: breaks ++ List.replicate place.margin ' '
      ++ foldWords place shown false place.margin (rest.drop breaks.length)
  | ' ' :: rest =>
    let spaces := rest.takeWhile (· = ' ')
    let later := rest.drop spaces.length
    if place.folds && spaces.isEmpty && lineWidth < column && !first && !later.isEmpty then
      breakTo place.margin ++ foldWords place shown false place.margin later
    else
      ' ' :: spaces ++ foldWords place shown false (column + 1 + spaces.length) later
  | c :: rest =>
    let out := shown c
    out ++ foldWords place shown false (column + out.length) rest
termination_by text => text.length
decreasing_by all_goals simp only [List.length_cons, List.length_drop]; omega

def singleQuoted (c : Char) : List Char :=
  if c = '\x27' then ['\x27', '\x27'] else [c]

/-! ## Between double quotes -/

/-- The characters with an escape of one letter. -/
def letterEscapes : List (Nat × Char) :=
  [(0, '0'), (7, 'a'), (8, 'b'), (9, 't'), (10, 'n'), (11, 'v'), (12, 'f'), (13, 'r'),
   (0x1B, 'e'), (0x22, '\x22'), (0x5C, '\\'), (0x85, 'N'), (0xA0, '_'), (0x2028, 'L'),
   (0x2029, 'P')]

/-- A number in capital hexadecimal digits. -/
def capitalHex (width n : Nat) : List Char :=
  (Text.hexadecimal width n).map Char.toUpper

def escapeOf (c : Char) : List Char :=
  match letterEscapes.lookup c.toNat with
  | some letter => ['\\', letter]
  | none =>
    if c.toNat ≤ 0xFF then '\\' :: 'x' :: capitalHex 2 c.toNat
    else if c.toNat ≤ 0xFFFF then '\\' :: 'u' :: capitalHex 4 c.toNat
    else '\\' :: 'U' :: capitalHex 8 c.toNat

def needsEscape (c : Char) : Bool :=
  c = '\x22' || c = '\\' || c.toNat < 0x20 || 0x7E < c.toNat

/-- The mark of a break inside double quotes: a backslash, and another one where the
text goes on with a space. -/
def markedBreak (place : Place) (next? : Option Char) : List Char :=
  '\\' :: breakTo place.margin ++ if next? = some ' ' then ['\\'] else []

/-- The column after a marked break. -/
def columnAfter (place : Place) (next? : Option Char) : Nat :=
  place.margin + if next? = some ' ' then 1 else 0

/-- Writes a text between double quotes.  Characters that need no escape wait in
`pending`, in reverse, until a space or an escape lets the line break before them. -/
def foldQuoted (place : Place) (first : Bool) (column : Nat) (pending : List Char) :
    List Char → List Char
  | [] => pending.reverse
  | c :: rest =>
    let inside := place.folds && !first && !rest.isEmpty
    if needsEscape c then
      let out := escapeOf c
      let reached := column + pending.length + out.length
      let done := pending.reverse ++ out
      if inside && lineWidth + 1 < reached then
        done ++ markedBreak place rest.head?
          ++ foldQuoted place false (columnAfter place rest.head?) [] rest
      else done ++ foldQuoted place false reached [] rest
    else if inside && (c = ' ' || pending.isEmpty) && lineWidth < column + pending.length then
      pending.reverse ++ markedBreak place (some c)
        ++ foldQuoted place false (columnAfter place (some c)) [c] rest
    else foldQuoted place false column (c :: pending) rest

/-! ## Every style -/

def scalarText (place : Place) (s : String) : String :=
  let text := s.toList
  match styleOf text with
  | .plain => String.ofList (foldWords place (fun c => [c]) true place.column text)
  | .single =>
    String.ofList
      ('\x27' :: foldWords place singleQuoted true (place.column + 1) text ++ ['\x27'])
  | .double =>
    String.ofList ('\x22' :: foldQuoted place true (place.column + 1) [] text ++ ['\x22'])

end MotionScene.Yaml
