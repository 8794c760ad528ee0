import MotionScene.Scalar
import MotionScene.Text.Character

/-!
# Reading numerals from text

A whole numeral is an optional sign and decimal digits of any script; a decimal one may
also have a point, an exponent, or be the name of a special value.  Single low lines may
stand between digits.  Blanks around a numeral are passed over, the four separators of
the seven-bit alphabet excepted.  A whole numeral has at most 4300 digits.
-/

namespace MotionScene.Text

/-- A blank that may stand around a numeral. -/
def isNumeralBlank (c : Char) : Bool :=
  isBlank c && !(0x1C ≤ c.toNat && c.toNat ≤ 0x1F)

/-- The text without the blanks around it. -/
private def trim (text : List Char) : List Char :=
  ((text.dropWhile isNumeralBlank).reverse.dropWhile isNumeralBlank).reverse

/-- Splits a sign off. -/
def takeSign : List Char → Bool × List Char
  | '-' :: rest => (true, rest)
  | '+' :: rest => (false, rest)
  | rest => (false, rest)

/-- Takes the digits at the front.  A low line is passed over where it stands between
two digits; `joined` tells that a digit comes just before. -/
def digitsFrom (joined : Bool) : List Char → List Nat × List Char
  | [] => ([], [])
  | c :: rest =>
    match digitValue? c with
    | some d =>
      let (digits, tail) := digitsFrom true rest
      (d :: digits, tail)
    | none =>
      if joined && c = '_' && (rest.head?.bind digitValue?).isSome then digitsFrom false rest
      else ([], c :: rest)

def takeDigits (text : List Char) : List Nat × List Char :=
  digitsFrom false text

/-- The natural number with the given decimal digits. -/
def ofDigits (digits : List Nat) : Nat :=
  digits.foldl (fun value digit => 10 * value + digit) 0

/-- The greatest number of digits that a whole numeral may have. -/
def maximalDigits : Nat := 4300

/-- The whole number that a text names. -/
def integer? (text : List Char) : Option Int :=
  let (negative, rest) := takeSign (trim text)
  match takeDigits rest with
  | (digits, []) =>
    if digits.isEmpty || digits.length > maximalDigits then none
    else
      let n : Int := ofDigits digits
      some (if negative then -n else n)
  | _ => none

/-- Reads an exponent: nothing at all, or a mark, an optional sign and digits. -/
private def takeExponent : List Char → Option (Int × List Char)
  | c :: rest =>
    if c = 'e' || c = 'E' then
      let (negative, rest) := takeSign rest
      match takeDigits rest with
      | ([], _) => none
      | (digits, tail) =>
        let n : Int := ofDigits digits
        some (if negative then -n else n, tail)
    else some (0, c :: rest)
  | [] => some (0, [])

/-- The spellings of the numbers that are not finite, in any case. -/
private def special? (text : List Char) : Option (Bool → Special) :=
  match String.ofList (text.map Char.toLower) with
  | "inf" => some Special.infinity
  | "infinity" => some Special.infinity
  | "nan" => some fun _ => Special.notANumber
  | _ => none

/-- The numeral that a text is, blanks around it aside. -/
def numeral? (text : List Char) : Option Numeral :=
  let (negative, rest) := takeSign (trim text)
  match special? rest with
  | some value => some (.special (value negative))
  | none =>
    let (whole, rest) := takeDigits rest
    let (places, rest) := match rest with
      | '.' :: rest => takeDigits rest
      | rest => ([], rest)
    if whole.isEmpty && places.isEmpty then none
    else
      match takeExponent rest with
      | some (exponent, []) =>
        some (.finite negative (ofDigits (whole ++ places)) (exponent - places.length))
      | _ => none

/-! ## Plain numerals

A sign, some digits, and digits after a point where there are any: such a text is read as
the number that its digits name.
-/

theorem digitValue?_digitChar {d : Nat} (h : d < 10) : digitValue? d.digitChar = some d :=
  (by decide : ∀ d : Fin 10, digitValue? (Nat.digitChar d) = some d.val) ⟨d, h⟩

theorem isNumeralBlank_digitChar {d : Nat} (h : d < 10) : isNumeralBlank d.digitChar = false :=
  (by decide : ∀ d : Fin 10, isNumeralBlank (Nat.digitChar d) = false) ⟨d, h⟩

/-- Digits are taken up to a rest in which nothing more can be taken. -/
theorem digitsFrom_append {digits : List Nat} (hdigits : ∀ d ∈ digits, d < 10)
    {rest : List Char} (hrest : ∀ joined, digitsFrom joined rest = ([], rest)) (joined : Bool) :
    digitsFrom joined (digits.map Nat.digitChar ++ rest) = (digits, rest) := by
  induction digits generalizing joined with
  | nil => exact hrest joined
  | cons d digits ih =>
    rw [List.forall_mem_cons] at hdigits
    simp only [List.map_cons, List.cons_append, digitsFrom, digitValue?_digitChar hdigits.1,
      ih hdigits.2 true]

private theorem trim_eq_self {text : List Char} (h : ∀ c ∈ text, isNumeralBlank c = false) :
    trim text = text := by
  have hdrop : ∀ {l : List Char}, (∀ c ∈ l, isNumeralBlank c = false) →
      l.dropWhile isNumeralBlank = l := by
    intro l hl
    cases l with
    | nil => rfl
    | cons c l => rw [List.dropWhile_cons, if_neg (by simp [hl c])]
  rw [trim, hdrop h, hdrop fun c hc => h c (List.mem_reverse.mp hc), List.reverse_reverse]

private theorem special?_digitChar {d : Nat} (h : d < 10) (rest : List Char) :
    special? (d.digitChar :: rest) = none := by
  have hlower : ∀ d : Fin 10, (Nat.digitChar d).toLower ≠ 'i' ∧ (Nat.digitChar d).toLower ≠ 'n' := by
    decide
  have hname : ∀ name : String,
      (name.toList.head? = some 'i' ∨ name.toList.head? = some 'n') →
        String.ofList ((d.digitChar :: rest).map Char.toLower) ≠ name := by
    rintro name hhead rfl
    rw [String.toList_ofList, List.map_cons, List.head?_cons, Option.some.injEq,
      Option.some.injEq] at hhead
    exact hhead.elim (hlower ⟨d, h⟩).1 (hlower ⟨d, h⟩).2
  unfold special?
  split
  · exact absurd ‹_› (hname _ (.inl rfl))
  · exact absurd ‹_› (hname _ (.inl rfl))
  · exact absurd ‹_› (hname _ (.inr rfl))
  · rfl

private theorem takeSign_digitChar {d : Nat} (h : d < 10) (rest : List Char) :
    takeSign (d.digitChar :: rest) = (false, d.digitChar :: rest) := by
  have hsigns : ∀ d : Fin 10, Nat.digitChar d ≠ '-' ∧ Nat.digitChar d ≠ '+' := by decide
  unfold takeSign
  split
  · exact absurd (List.cons.inj ‹_›).1 (hsigns ⟨d, h⟩).1
  · exact absurd (List.cons.inj ‹_›).1 (hsigns ⟨d, h⟩).2
  · rfl

/-- The digits of a number that has a point only where digits follow it. -/
private def digitsText (whole places : List Nat) : List Char :=
  whole.map Nat.digitChar ++ if places.isEmpty then [] else '.' :: places.map Nat.digitChar

private theorem isNumeralBlank_digitsText {whole places : List Nat} (hwhole : ∀ d ∈ whole, d < 10)
    (hplaces : ∀ d ∈ places, d < 10) : ∀ c ∈ digitsText whole places, isNumeralBlank c = false := by
  have hdigits : ∀ {digits : List Nat}, (∀ d ∈ digits, d < 10) →
      ∀ c ∈ digits.map Nat.digitChar, isNumeralBlank c = false := by
    intro digits h c hc
    obtain ⟨d, hd, rfl⟩ := List.mem_map.mp hc
    exact isNumeralBlank_digitChar (h d hd)
  intro c hc
  rcases List.mem_append.mp hc with hc | hc
  · exact hdigits hwhole c hc
  · split at hc
    · exact absurd hc List.not_mem_nil
    · rcases List.mem_cons.mp hc with rfl | hc
      · decide
      · exact hdigits hplaces c hc

private theorem takeDigits_digitsText {whole places : List Nat} (h : ∀ d ∈ whole, d < 10) :
    takeDigits (digitsText whole places) =
      (whole, if places.isEmpty then [] else '.' :: places.map Nat.digitChar) := by
  refine digitsFrom_append h (fun joined => ?_) false
  split
  · rfl
  · cases joined <;> rfl

/-- A sign and digits name the number that all the digits make up, as many places down as
there are digits after the point. -/
theorem numeral?_plain (negative : Bool) {whole places : List Nat} (hwhole : ∀ d ∈ whole, d < 10)
    (hplaces : ∀ d ∈ places, d < 10) (hne : whole ≠ []) :
    numeral? ((if negative then ['-'] else []) ++ (whole.map Nat.digitChar ++
        if places.isEmpty then [] else '.' :: places.map Nat.digitChar)) =
      some (.finite negative (ofDigits (whole ++ places)) (-places.length)) := by
  obtain ⟨first, later, rfl⟩ := List.exists_cons_of_ne_nil hne
  have hfirst : first < 10 := hwhole first List.mem_cons_self
  have htrim : trim ((if negative then ['-'] else []) ++ digitsText (first :: later) places) =
      (if negative then ['-'] else []) ++ digitsText (first :: later) places := by
    refine trim_eq_self fun c hc => ?_
    rcases List.mem_append.mp hc with hc | hc
    · cases negative with
      | false => exact absurd hc List.not_mem_nil
      | true => rw [List.mem_singleton.mp hc]; decide
    · exact isNumeralBlank_digitsText hwhole hplaces c hc
  have hsign : takeSign ((if negative then ['-'] else []) ++ digitsText (first :: later) places) =
      (negative, digitsText (first :: later) places) := by
    cases negative with
    | false => exact takeSign_digitChar hfirst _
    | true => rfl
  have hspecial : special? (digitsText (first :: later) places) = none :=
    special?_digitChar hfirst _
  have hexponent : takeExponent [] = some (0, []) := rfl
  show numeral? (_ ++ digitsText (first :: later) places) = _
  simp only [numeral?, htrim, hsign, hspecial, takeDigits_digitsText hwhole]
  cases places with
  | nil => simp [hexponent]
  | cons d places =>
    have hnil : ∀ joined, digitsFrom joined [] = ([], []) := fun _ => rfl
    have hlater : takeDigits (d.digitChar :: places.map Nat.digitChar) = (d :: places, []) := by
      simpa [takeDigits] using digitsFrom_append hplaces hnil false
    simp [hlater, hexponent]

end MotionScene.Text
