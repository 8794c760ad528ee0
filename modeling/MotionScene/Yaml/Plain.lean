import MotionScene.Text.Numeral
import MotionScene.Yaml.Value

/-!
# Plain scalars

A scalar without quotes is a text unless its form says otherwise: it may be null, a truth
value in one of several words, a whole number in base two, eight, ten, sixteen or sixty,
a number with a point, or a date.  Low lines may stand between digits and mean nothing.
Two forms are reserved: `<<` merges mappings and `=` stands for a default value.
-/

namespace MotionScene.Yaml

/-- What the form of a plain scalar says that it is. -/
inductive Plain where
  | null
  | bool (b : Bool)
  | whole (n : Int)
  | real (negative : Bool) (digits : List Char)
  /-- Parts in base sixty, the last of which may have a point. -/
  | sexagesimal (negative : Bool) (parts : List (List Char))
  | special (value : Special)
  | date (year month day : Nat)
  /-- A date with a time of day. -/
  | moment
  | merge
  | default
  /-- A whole number without digits, or with more than a whole numeral may have. -/
  | noNumber
  | text
  deriving DecidableEq, Repr

def isDigit (c : Char) : Bool := '0' ≤ c && c ≤ '9'

def isDigitOrLow (c : Char) : Bool := isDigit c || c = '_'

/-- The number that a digit, or letter, stands for in bases up to sixteen. -/
def digit (c : Char) : Nat :=
  if isDigit c then c.toNat - 48
  else if 'a' ≤ c ∧ c ≤ 'f' then c.toNat - 87
  else c.toNat - 55

/-- The number that digits write in a base; low lines are passed over. -/
def inBase (base : Nat) (digits : List Char) : Nat :=
  (digits.filter (· ≠ '_')).foldl (fun value c => base * value + digit c) 0

/-- Splits a text at every occurrence of a character. -/
def splitAtChar (mark : Char) : List Char → List (List Char)
  | [] => [[]]
  | c :: rest =>
    if c = mark then [] :: splitAtChar mark rest
    else
      match splitAtChar mark rest with
      | part :: later => (c :: part) :: later
      | [] => [[c]]

/-- Whether a text starts with a digit and goes on with digits and low lines. -/
def isDigits : List Char → Bool
  | first :: rest => isDigit first && rest.all isDigitOrLow
  | [] => false

/-- Whether a text is one or two digits below sixty. -/
def isMinute : List Char → Bool
  | [a] => isDigit a
  | [a, b] => isDigit a && a ≤ '5' && isDigit b
  | _ => false

/-! ## Truth values and null -/

/-- The words for truth values in small letters. -/
def boolWords : List (String × Bool) :=
  [("yes", true), ("no", false), ("true", true), ("false", false), ("on", true), ("off", false)]

/-- A word in its three spellings: small, with a capital, and all in capitals. -/
def spellings (word : String) : List String :=
  [word, word.capitalize, word.toUpper]

/-- The truth value that a word names. -/
def bool? (word : String) : Option Bool :=
  (boolWords.find? fun entry => (spellings entry.1).contains word).map (·.2)

/-- Whether a word stands for null. -/
def isNullWord (word : String) : Bool :=
  word = "" || word = "~" || (spellings "null").contains word

/-! ## Numbers -/

/-- A signed whole number with the given digits in a base. -/
def wholeOf (negative : Bool) (base : Nat) (digits : List Char) : Plain :=
  if digits.all (· = '_') then .noNumber
  else
    let n : Int := inBase base digits
    .whole (if negative then -n else n)

/-- Whether the parts after the first write minutes and seconds. -/
def areMinutes (parts : List (List Char)) : Bool :=
  !parts.isEmpty && parts.all isMinute

/-- The number that parts write in base sixty. -/
def ofSixties (parts : List (List Char)) : Nat :=
  parts.foldl (fun value part => 60 * value + inBase 10 part) 0

/-- The whole number that a text without sign writes. -/
def magnitude? (negative : Bool) (text : List Char) : Option Plain :=
  match text with
  | ['0'] => some (.whole 0)
  | '0' :: 'b' :: d :: rest =>
    if (d :: rest).all fun c => c = '0' || c = '1' || c = '_' then
      some (wholeOf negative 2 (d :: rest))
    else none
  | '0' :: 'x' :: d :: rest =>
    if (d :: rest).all fun c =>
        isDigitOrLow c || ('a' ≤ c && c ≤ 'f') || ('A' ≤ c && c ≤ 'F') then
      some (wholeOf negative 16 (d :: rest))
    else none
  | '0' :: rest =>
    if rest.all fun c => ('0' ≤ c && c ≤ '7') || c = '_' then
      let n : Int := inBase 8 rest
      some (.whole (if negative then -n else n))
    else none
  | _ =>
    match splitAtChar ':' text with
    | [] => none
    | first :: minutes =>
      if !isDigits first then none
      else if minutes.isEmpty || areMinutes minutes then
        if (first.filter (· ≠ '_')).length > Text.maximalDigits then some .noNumber
        else
          let n : Int := ofSixties (first :: minutes)
          some (.whole (if negative then -n else n))
      else none

/-- Splits an exponent with its sign off a text. -/
def dropExponent (text : List Char) : Option (List Char) :=
  match text with
  | [] => some []
  | e :: sign :: digits =>
    if (e = 'e' || e = 'E') && (sign = '+' || sign = '-') && !digits.isEmpty
        && digits.all isDigit then some text
    else none
  | _ => none

/-- The number with a point that a text without sign writes. -/
def pointed? (signed negative : Bool) (text : List Char) : Option Plain :=
  let whole := text.takeWhile isDigitOrLow
  match text.dropWhile isDigitOrLow with
  | '.' :: rest =>
    let places := rest.takeWhile isDigitOrLow
    let fits := if whole.isEmpty then !signed && isDigits places else isDigits whole
    if fits && (dropExponent (rest.dropWhile isDigitOrLow)).isSome then
      some (.real negative (text.filter (· ≠ '_')))
    else none
  | _ => none

/-- The number in base sixty with a point that a text without sign writes. -/
def sexagesimal? (negative : Bool) (text : List Char) : Option Plain :=
  match splitAtChar '.' text with
  | [front, places] =>
    match splitAtChar ':' front with
    | first :: minutes =>
      if isDigits first && areMinutes minutes && places.all isDigitOrLow then
        let parts := splitAtChar ':' (text.filter (· ≠ '_'))
        some (.sexagesimal negative parts)
      else none
    | [] => none
  | _ => none

/-- The special value that a text without sign names. -/
def special? (signed negative : Bool) (text : List Char) : Option Plain :=
  let word := String.ofList text
  if [".inf", ".Inf", ".INF"].contains word then some (.special (.infinity negative))
  else if !signed && [".nan", ".NaN", ".NAN"].contains word then some (.special .notANumber)
  else none

/-- The number that a plain scalar writes. -/
def number? (text : List Char) : Option Plain :=
  let (negative, rest) := Text.takeSign text
  let signed := rest.length < text.length
  (special? signed negative rest).or ((pointed? signed negative rest).or
    ((sexagesimal? negative rest).or (magnitude? negative rest)))

/-! ## Dates -/

def decimalNat (digits : List Char) : Nat := inBase 10 digits

/-- Whether a text writes a time of day, perhaps with a distance from a meridian. -/
def isTime (text : List Char) : Bool :=
  let zone := text.dropWhile fun c => isDigit c || c = ':' || c = '.'
  let time := text.takeWhile fun c => isDigit c || c = ':' || c = '.'
  let offset := zone.dropWhile fun c => c = ' ' || c = '\t'
  let validTime := match splitAtChar ':' time with
    | [h, m, s] =>
      let seconds := splitAtChar '.' s
      (h.length = 1 || h.length = 2) && h.all isDigit && m.length = 2 && m.all isDigit
        && (seconds.head?.getD []).length = 2 && seconds.length ≤ 2
        && seconds.all (·.all isDigit)
    | _ => false
  let validZone := match offset with
    | [] => zone.isEmpty
    | ['Z'] => true
    | sign :: rest =>
      (sign = '+' || sign = '-') &&
        match splitAtChar ':' rest with
        | [h] => (h.length = 1 || h.length = 2) && h.all isDigit
        | [h, m] => (h.length = 1 || h.length = 2) && h.all isDigit && m.length = 2 && m.all isDigit
        | _ => false
  validTime && validZone

/-- A date with a time of day that a plain scalar writes. -/
def moment? (text : List Char) : Option Plain :=
  let front := text.takeWhile fun c => isDigit c || c = '-'
  let rest := text.drop front.length
  let time? := match rest with
    | 't' :: time | 'T' :: time => some time
    | ' ' :: _ | '\t' :: _ => some (rest.dropWhile fun c => c = ' ' || c = '\t')
    | _ => none
  match splitAtChar '-' front, time? with
  | [y, m, d], some time =>
    if y.length = 4 && (m.length = 1 || m.length = 2) && (d.length = 1 || d.length = 2)
        && isTime time then some .moment
    else none
  | _, _ => none

/-- The date that a plain scalar writes, perhaps with a time of day. -/
def date? (text : List Char) : Option Plain :=
  match splitAtChar '-' text with
  | [y, m, d] =>
    if y.length = 4 && m.length = 2 && d.length = 2 && (y ++ m ++ d).all isDigit then
      some (.date (decimalNat y) (decimalNat m) (decimalNat d))
    else moment? text
  | _ => moment? text

/-! ## All forms -/

def plainForm (text : List Char) : Plain :=
  let word := String.ofList text
  if isNullWord word then .null
  else
    match bool? word with
    | some b => .bool b
    | none =>
      if word = "<<" then .merge
      else if word = "=" then .default
      else ((number? text).or (date? text)).getD .text

/-- Whether a plain scalar with the characters of a text would be that text. -/
def isPlainText (text : List Char) : Bool :=
  match plainForm text with
  | .text => true
  | _ => false

end MotionScene.Yaml
