import MotionScene.Document.Json
import MotionScene.Yaml.Cursor

/-!
# Reading option files

The reader takes a text to a tree of scalars, lists and mappings.  Collections are given
by indentation or by brackets.  A key stands on one line with its colon.  A plain scalar
may go on in later lines that stand further to the right, and a quoted one in any.
Anchors, tags, directives, keys after question marks and scalars in block notation are
refused, as is a second document.  What cannot be read is none.
-/

namespace MotionScene.Yaml

/-- A text with the structure that its notation gives it. -/
inductive Node where
  | scalar (isPlain : Bool) (text : List Char)
  | list (items : List Node)
  | mapping (entries : List (Node × Node))
  deriving Inhabited, Repr

namespace Node

/-- What stands where nothing is written. -/
def nothing : Node := scalar true []

end Node

/-- What breaks between lines amount to: a single one to a space, others to one less. -/
def foldBreaks (breaks : Nat) : List Char :=
  if breaks ≤ 1 then [' '] else List.replicate (breaks - 1) '\n'

/-! ## Plain scalars -/

/-- Characters that end a plain scalar between brackets. -/
def isBracketMark (c : Char) : Bool :=
  [',', '[', ']', '\x7b', '\x7d'].contains c

/-- The part of a plain scalar up to the next blank. -/
def plainRun (inBrackets : Bool) : List Char → List Char
  | [] => []
  | c :: rest =>
    let next? := rest.head?
    let isBlankNext := next?.all fun n => n = ' ' || n = '\t' || n = '\n'
    if c = ' ' || c = '\t' || c = '\n' then []
    else if c = ':' && (isBlankNext || (inBrackets && next?.any isBracketMark)) then []
    else if inBrackets && (isBracketMark c || c = '?') then []
    else c :: plainRun inBrackets rest

/-- The blanks after a part of a plain scalar: what they amount to and whether the scalar
may go on. -/
def plainBlanks (cursor : Cursor) : List Char × Bool × Cursor :=
  let afterSpaces := cursor.skipSpaces
  match afterSpaces.text with
  | '\n' :: _ =>
    let blanks := afterSpaces.text.takeWhile fun c => c = ' ' || c = '\n'
    -- a marker at the start of a line ends the scalar
    let breaks := blanks.filter (· = '\n')
    let after := afterSpaces.advance blanks.length
    (foldBreaks breaks.length, !(after.isMarker '-' || after.isMarker '.'), after)
  | _ => (List.replicate (afterSpaces.column - cursor.column) ' ', true, afterSpaces)

/-- The rest of a plain scalar, of which `done` has been read. -/
def readPlainFor (inBrackets : Bool) (margin : Nat) : (steps : Nat) → (done blanks : List Char) →
    Cursor → List Char × Cursor
  | 0, done, _, cursor => (done, cursor)
  | steps + 1, done, blanks, cursor =>
    let run := plainRun inBrackets cursor.text
    if cursor.text.head? = some '#' || run.isEmpty then (done, cursor)
    else
      let done := done ++ blanks ++ run
      let (blanks, goesOn, after) := plainBlanks (cursor.advance run.length)
      if blanks.isEmpty || !goesOn || after.text.head? = some '#'
          || (!inBrackets && after.column < margin) then (done, after)
      else readPlainFor inBrackets margin steps done blanks after

/-- Whether a plain scalar can start here. -/
def startsPlain (inBrackets : Bool) (cursor : Cursor) : Bool :=
  match cursor.text with
  | [] => false
  | c :: _ =>
    if c = '-' then !cursor.isBlankAfter 1
    else if c = '?' || c = ':' then !inBrackets && !cursor.isBlankAfter 1
    else !([',', '[', ']', '\x7b', '\x7d', '#', '&', '*', '!', '|', '>', '\x27', '\x22', '%', '@',
      '\x60', ' ', '\t', '\n'].contains c)

/-- Reads a plain scalar whose later lines start at the margin or to the right of it. -/
def readPlain (inBrackets : Bool) (margin : Nat) (cursor : Cursor) : Option (Node × Cursor) :=
  if startsPlain inBrackets cursor then
    let (text, after) := readPlainFor inBrackets margin cursor.text.length [] [] cursor
    some (.scalar true text, after)
  else none

/-! ## Quoted scalars -/

/-- The blanks inside quotes.  Breaks between lines take the spaces around them away. -/
def quotedBlanks (cursor : Cursor) : Option (List Char × Cursor) :=
  let blanks := cursor.text.takeWhile fun c => c = ' ' || c = '\t' || c = '\n'
  let after := cursor.advance blanks.length
  if !blanks.contains '\n' then some (blanks, after)
  else if after.isMarker '-' || after.isMarker '.' then none
  else some (foldBreaks (blanks.filter (· = '\n')).length, after)

/-- The characters that letters stand for after a backslash. -/
def escapes : List (Char × Nat) :=
  [('0', 0), ('a', 7), ('b', 8), ('t', 9), ('\t', 9), ('n', 10), ('v', 11), ('f', 12), ('r', 13),
   ('e', 0x1B), (' ', 0x20), ('\x22', 0x22), ('\\', 0x5C), ('/', 0x2F), ('N', 0x85), ('_', 0xA0),
   ('L', 0x2028), ('P', 0x2029)]

/-- How many digits follow a letter that announces a code. -/
def codeWidth? (c : Char) : Option Nat :=
  if c = 'x' then some 2 else if c = 'u' then some 4 else if c = 'U' then some 8 else none

/-- The character with the code that hexadecimal digits write. -/
def ofCode? (digits : List Char) : Option Char := do
  let values ← digits.mapM Json.hexValue?
  return Char.ofNat (values.foldl (fun code digit => 16 * code + digit) 0)

/-- Reads what a backslash stands before, which comes next: the characters it means. -/
def readEscape (cursor : Cursor) : Option (List Char × Cursor) :=
  match cursor.text with
  | [] => none
  | c :: rest =>
    if c = '\n' then
      let blanks := rest.takeWhile fun c => c = ' ' || c = '\t' || c = '\n'
      let after := cursor.advance (blanks.length + 1)
      some (blanks.filter (· = '\n'), after)
    else
      match escapes.lookup c, codeWidth? c with
      | some code, _ => some ([Char.ofNat code], cursor.advance 1)
      | none, some width =>
        if rest.length < width then none
        else (ofCode? (rest.take width)).map fun c => ([c], cursor.advance (width + 1))
      | none, none => none

/-- The rest of a quoted scalar up to its closing quote. -/
def readQuotedFor (quote : Char) :
    (steps : Nat) → (done : List Char) → Cursor → Option (Node × Cursor)
  | 0, _, _ => none
  | steps + 1, done, cursor =>
    match cursor.text with
    | [] => none
    | c :: rest =>
      if c = quote then
        if quote = '\x27' && rest.head? = some quote then
          readQuotedFor quote steps (done ++ [quote]) (cursor.advance 2)
        else some (.scalar false done, cursor.advance 1)
      else if c = ' ' || c = '\t' || c = '\n' then
        match quotedBlanks cursor with
        | some (blanks, after) => readQuotedFor quote steps (done ++ blanks) after
        | none => none
      else if c = '\\' && quote = '\x22' then
        match readEscape (cursor.advance 1) with
        | some (meant, after) => readQuotedFor quote steps (done ++ meant) after
        | none => none
      else readQuotedFor quote steps (done ++ [c]) (cursor.advance 1)

def readQuoted (quote : Char) (cursor : Cursor) : Option (Node × Cursor) :=
  readQuotedFor quote cursor.text.length [] (cursor.advance 1)

/-! ## Collections in brackets -/

/-- Whether a colon that makes a key of what was read comes next on the line where that
started. -/
def isKey (line : Nat) (inBrackets : Bool) (cursor : Cursor) : Bool :=
  cursor.line = line && cursor.text.head? = some ':' && (inBrackets || cursor.isBlankAfter 1)

mutual

/-- Reads a node between brackets. -/
def readInner : (steps : Nat) → Cursor → Option (Node × Cursor)
  | 0, _ => none
  | steps + 1, cursor =>
    match cursor.text with
    | '[' :: _ =>
      (readInnerItems steps [] (cursor.advance 1).skipBlanks).map fun (items, after) =>
        (.list items, after)
    | '\x7b' :: _ =>
      (readInnerEntries steps [] (cursor.advance 1).skipBlanks).map fun (entries, after) =>
        (.mapping entries, after)
    | '\x27' :: _ => readQuoted '\x27' cursor
    | '\x22' :: _ => readQuoted '\x22' cursor
    | _ => readPlain true 0 cursor

/-- Reads a node between brackets and, after a colon, the one that it is the key of. -/
def readInnerPair : (steps : Nat) → Cursor → Option ((Node × Option Node) × Cursor)
  | 0, _ => none
  | steps + 1, cursor => do
    let (key, after) ← readInner steps cursor
    let after := after.skipBlanks
    if isKey cursor.line true after then
      let after := (after.advance 1).skipBlanks
      match after.text with
      | c :: _ =>
        if c = ',' || c = ']' || c = '\x7d' then return ((key, some .nothing), after)
        else
          let (value, after) ← readInner steps after
          return ((key, some value), after.skipBlanks)
      | [] => none
    else return ((key, none), after)

def readInnerItems : (steps : Nat) → (done : List Node) → Cursor → Option (List Node × Cursor)
  | 0, _, _ => none
  | steps + 1, done, cursor =>
    match cursor.text with
    | ']' :: _ => some (done, cursor.advance 1)
    | _ => do
      let ((key, value?), after) ← readInnerPair steps cursor
      let item := match value? with
        | some value => Node.mapping [(key, value)]
        | none => key
      match after.text with
      | ',' :: _ => readInnerItems steps (done ++ [item]) (after.advance 1).skipBlanks
      | ']' :: _ => some (done ++ [item], after.advance 1)
      | _ => none

def readInnerEntries : (steps : Nat) → (done : List (Node × Node)) → Cursor →
    Option (List (Node × Node) × Cursor)
  | 0, _, _ => none
  | steps + 1, done, cursor =>
    match cursor.text with
    | '\x7d' :: _ => some (done, cursor.advance 1)
    | _ => do
      let ((key, value?), after) ← readInnerPair steps cursor
      let entry := (key, value?.getD .nothing)
      match after.text with
      | ',' :: _ => readInnerEntries steps (done ++ [entry]) (after.advance 1).skipBlanks
      | '\x7d' :: _ => some (done ++ [entry], after.advance 1)
      | _ => none

end

/-! ## Collections by indentation -/

/-- Reads a node that is no collection by indentation. -/
def readFlat (margin : Nat) (cursor : Cursor) : Option (Node × Cursor) :=
  match cursor.text with
  | '[' :: _ | '\x7b' :: _ | '\x27' :: _ | '\x22' :: _ =>
    readInner (3 * cursor.text.length + 3) cursor
  | _ => readPlain false margin cursor

/-- Where a node may stand. -/
structure Context where
  /-- One more than the column of the collection around it. -/
  margin : Nat
  /-- Whether it may start a collection here. -/
  opens : Bool
  /-- Whether dashes may stand at the column of the collection around it. -/
  dashesMayStay : Bool

/-- Whether nothing of a node stands here. -/
def Context.isOver (context : Context) (cursor : Cursor) : Bool :=
  cursor.isEnd ||
    (cursor.column < context.margin &&
      !(context.dashesMayStay && cursor.column + 1 = context.margin && cursor.isAtMark '-'))

mutual

/-- Reads the node that stands here, which may be none. -/
def readNode : (steps : Nat) → Context → Cursor → Option (Node × Cursor)
  | 0, _, _ => none
  | steps + 1, context, cursor =>
    if context.isOver cursor then some (.nothing, cursor)
    else if cursor.isAtMark '-' then
      if context.opens then
        let stays := cursor.column < context.margin
        (readItems steps cursor.column stays [] cursor).map fun (items, after) =>
          (.list items, after)
      else none
    else do
      let (node, after) ← readFlat context.margin cursor
      let after := after.skipSpaces
      if isKey cursor.line false after then
        if context.opens then
          let (entries, after) ← readEntries steps cursor.column [] node (after.advance 1)
          return (.mapping entries, after)
        else none
      else return (node, after)

/-- Reads the items of a list, the first of which starts here. -/
def readItems : (steps column : Nat) → (stays : Bool) → (done : List Node) → Cursor →
    Option (List Node × Cursor)
  | 0, _, _, _, _ => none
  | steps + 1, column, stays, done, cursor => do
    let (item, after) ← readNode steps ⟨column + 1, true, false⟩ (cursor.advance 1).skipBlanks
    let after := after.skipBlanks
    let done := done ++ [item]
    if after.isEnd || after.column < column then return (done, after)
    else if after.column = column && after.isAtMark '-' then
      readItems steps column stays done after
    else if after.column = column && stays then return (done, after)
    else none

/-- Reads the entries of a mapping, of which the first key and its colon have been read. -/
def readEntries : (steps column : Nat) → (done : List (Node × Node)) → (key : Node) → Cursor →
    Option (List (Node × Node) × Cursor)
  | 0, _, _, _, _ => none
  | steps + 1, column, done, key, cursor => do
    let start := cursor.skipBlanks
    let isBelow := cursor.line < start.line
    let (value, after) ← readNode steps ⟨column + 1, isBelow, isBelow⟩ start
    let after := after.skipBlanks
    let done := done ++ [(key, value)]
    if after.isEnd || after.column < column then return (done, after)
    else if after.column = column && cursor.line < after.line && !after.isAtMark '-' then
      let (key, next) ← readFlat (column + 1) after
      let next := next.skipSpaces
      if isKey after.line false next then readEntries steps column done key (next.advance 1)
      else none
    else none

end

/-! ## Documents -/

/-- Whether an option file may hold a character. -/
def isReadable (c : Char) : Bool :=
  c = '\t' || c = '\n' || c = '\r' || (0x20 ≤ c.toNat && c.toNat ≤ 0x7E) || c.toNat = 0x85
    || (0xA0 ≤ c.toNat && c.toNat ≤ 0xFFFD) || 0x10000 ≤ c.toNat

/-- Passes over the markers that end a document. -/
def skipEndMarkers : (steps : Nat) → Cursor → Cursor
  | 0, cursor => cursor
  | steps + 1, cursor =>
    let cursor := cursor.skipBlanks
    if cursor.isMarker '.' then skipEndMarkers steps (cursor.advance 3) else cursor

/-- The tree of a text that holds at most one document. -/
def readDocument (text : List Char) : Option Node :=
  if !text.all isReadable then none
  else
    let text := if text.head? = some (Char.ofNat 0xFEFF) then text.tail else text
    let steps := 3 * text.length + 3
    let cursor := skipEndMarkers steps (Cursor.start text)
    if cursor.text.isEmpty then some .nothing
    else do
      let isExplicit := cursor.isMarker '-'
      let start := (if isExplicit then cursor.advance 3 else cursor).skipBlanks
      let opens := !isExplicit || cursor.line < start.line
      let (node, after) ← readNode steps ⟨0, opens, false⟩ start
      if (skipEndMarkers steps after).text.isEmpty then some node else none

end MotionScene.Yaml
