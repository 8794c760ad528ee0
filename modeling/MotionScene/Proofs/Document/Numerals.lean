import MotionScene.Document.Json
import MotionScene.Proofs.Binary64.Shortest
import MotionScene.Proofs.Text.Compact

/-!
# Numbers of documents read back

The text of a number is a numeral: digits, after a point the places, and after a mark the exponent.
Reading stops where the numeral stops (`readMagnitude_numeral`), and what is read is the number that
was written, whole or not (`readAtom_numberLiteral`).
-/

namespace MotionScene

namespace Json

open Text (ofDigits wholeDigits)

/-! ## Numerals -/

/-- A numeral without its sign; a numeral with neither places nor an exponent is whole. -/
structure NumeralText where
  whole : List ℕ
  places : List ℕ
  /-- The digits of the exponent, and whether it is negative. -/
  power? : Option (Bool × List ℕ)

namespace NumeralText

/-- The characters of digits. -/
def digits (list : List ℕ) : List Char :=
  list.map Nat.digitChar

def placesText (places : List ℕ) : List Char :=
  if places.isEmpty then [] else '.' :: digits places

def powerText : Option (Bool × List ℕ) → List Char
  | none => []
  | some (negative, power) => 'e' :: (if negative then '-' else '+') :: digits power

def text (numeral : NumeralText) : List Char :=
  digits numeral.whole ++ (placesText numeral.places ++ powerText numeral.power?)

def power : Option (Bool × List ℕ) → ℤ
  | none => 0
  | some (negative, power) => if negative then -(ofDigits power : ℤ) else ofDigits power

/-- The digits are decimal, and zero is the only whole part that begins with one. -/
structure IsPlain (numeral : NumeralText) : Prop where
  whole : ∀ d ∈ numeral.whole, d < 10
  places : ∀ d ∈ numeral.places, d < 10
  power : ∀ negative power, numeral.power? = some (negative, power) →
    power ≠ [] ∧ ∀ d ∈ power, d < 10
  nonempty : numeral.whole ≠ []
  leading : numeral.whole.head? = some 0 → numeral.whole = [0]

def isWhole (numeral : NumeralText) : Bool :=
  numeral.places.isEmpty && numeral.power?.isNone

/-- The natural number that all the digits make up. -/
def significand (numeral : NumeralText) : ℕ :=
  ofDigits (numeral.whole ++ numeral.places)

/-- The power of ten of the last digit. -/
def exponent (numeral : NumeralText) : ℤ :=
  power numeral.power? - numeral.places.length

end NumeralText

open NumeralText

/-- What follows a numeral does not go on with it. -/
def EndsNumeral (rest : List Char) : Prop :=
  ∀ c, rest.head? = some c → isDigit c = false ∧ c ≠ '.' ∧ c ≠ 'e' ∧ c ≠ 'E'

theorem digits_append (list later : List ℕ) :
    digits (list ++ later) = digits list ++ digits later :=
  List.map_append

theorem isEmpty_digits {list : List ℕ} (h : list ≠ []) : (digits list).isEmpty = false := by
  rw [digits, List.isEmpty_map, List.isEmpty_eq_false_iff]
  exact h

theorem isDigit_digitChar {d : ℕ} (h : d < 10) : isDigit d.digitChar = true :=
  (by decide : ∀ d : Fin 10, isDigit (Nat.digitChar d) = true) ⟨d, h⟩

theorem digitsValue_digits {list : List ℕ} (h : ∀ d ∈ list, d < 10) :
    digitsValue (digits list) = ofDigits list := by
  have hvalue : ∀ d : Fin 10, (Nat.digitChar d).toNat - 48 = d := by decide
  have hmap : (digits list).map (fun c => c.toNat - 48) = list := by
    rw [digits, List.map_map]
    exact (List.map_congr_left fun d hd => hvalue ⟨d, h d hd⟩).trans (List.map_id _)
  rw [digitsValue, hmap]

/-- Digits are taken up to a character that is none. -/
theorem takeWhile_digits {list : List ℕ} (h : ∀ d ∈ list, d < 10) {rest : List Char}
    (hrest : ∀ c, rest.head? = some c → isDigit c = false) :
    (digits list ++ rest).takeWhile isDigit = digits list ∧
      (digits list ++ rest).dropWhile isDigit = rest := by
  have hall : ∀ c ∈ digits list, isDigit c = true := by
    intro c hc
    obtain ⟨d, hd, rfl⟩ := List.mem_map.mp hc
    exact isDigit_digitChar (h d hd)
  have hstop : rest.takeWhile isDigit = [] ∧ rest.dropWhile isDigit = rest := by
    cases rest with
    | nil => exact ⟨rfl, rfl⟩
    | cons c rest => simp [hrest c rfl]
  rw [List.takeWhile_append_of_pos hall, List.dropWhile_append_of_pos hall, hstop.1, hstop.2,
    List.append_nil]
  exact ⟨rfl, rfl⟩

theorem wholePart_digits {whole : List ℕ} (h : ∀ d ∈ whole, d < 10) (hne : whole ≠ [])
    (hleading : whole.head? = some 0 → whole = [0]) {rest : List Char}
    (hrest : ∀ c, rest.head? = some c → isDigit c = false) :
    wholePart (digits whole ++ rest) = digits whole := by
  unfold wholePart
  split
  · rename_i hzero
    cases whole with
    | nil => exact absurd rfl hne
    | cons d whole =>
        have hinj : ∀ d : Fin 10, Nat.digitChar d = '0' → d = 0 := by decide
        have hd := hinj ⟨d, h d List.mem_cons_self⟩ (List.cons.inj hzero).1
        rw [hleading (congrArg some (congrArg Fin.val hd))]
        rfl
  · exact (takeWhile_digits h hrest).1

section Parts

variable {rest : List Char} (hrest : EndsNumeral rest)

include hrest

theorem takeExponent_powerText {power? : Option (Bool × List ℕ)}
    (h : ∀ negative power, power? = some (negative, power) → power ≠ [] ∧ ∀ d ∈ power, d < 10) :
    takeExponent (powerText power? ++ rest) =
      (if power?.isNone then none else some (NumeralText.power power?), rest) := by
  cases power? with
  | none =>
      cases rest with
      | nil => rfl
      | cons c rest =>
          obtain ⟨-, -, hsmall, hlarge⟩ := hrest c rfl
          simp [powerText, takeExponent, hsmall, hlarge]
  | some power =>
      obtain ⟨negative, power⟩ := power
      obtain ⟨hne, hlt⟩ := h negative power rfl
      obtain ⟨htake, hdrop⟩ := takeWhile_digits hlt fun c hc => (hrest c hc).1
      have hsign : Text.takeSign ((if negative then '-' else '+') :: (digits power ++ rest)) =
          (negative, digits power ++ rest) := by
        cases negative <;> rfl
      show takeExponent ('e' :: (if negative then '-' else '+') :: (digits power ++ rest)) = _
      simp only [takeExponent, decide_true, Bool.true_or, if_true, hsign, htake, hdrop,
        isEmpty_digits hne, Bool.false_eq_true, if_false, digitsValue_digits hlt,
        NumeralText.power, Option.isNone_some]

theorem head_powerText (power? : Option (Bool × List ℕ)) {c : Char}
    (hc : (powerText power? ++ rest).head? = some c) : isDigit c = false ∧ c ≠ '.' := by
  cases power? with
  | none => exact ⟨(hrest c hc).1, (hrest c hc).2.1⟩
  | some power =>
      cases hc
      exact ⟨by decide, by decide⟩

theorem head_placesText (places : List ℕ) (power? : Option (Bool × List ℕ)) {c : Char}
    (hc : (placesText places ++ (powerText power? ++ rest)).head? = some c) :
    isDigit c = false := by
  cases places with
  | nil => exact (head_powerText hrest power? hc).1
  | cons d places =>
      cases hc
      decide

theorem takePlaces_placesText {places : List ℕ} (hplaces : ∀ d ∈ places, d < 10)
    (power? : Option (Bool × List ℕ)) :
    takePlaces (placesText places ++ (powerText power? ++ rest)) =
      (digits places, powerText power? ++ rest) := by
  cases places with
  | nil =>
      show takePlaces (powerText power? ++ rest) = ([], _)
      unfold takePlaces
      split
      · rename_i hpoint
        have hc := congrArg List.head? hpoint
        exact absurd rfl (head_powerText hrest power? hc).2
      · rfl
  | cons d places =>
      obtain ⟨htake, hdrop⟩ :=
        takeWhile_digits hplaces fun c hc => (head_powerText hrest power? hc).1
      show takePlaces ('.' :: (digits (d :: places) ++ (powerText power? ++ rest))) = _
      rw [takePlaces, htake, hdrop]
      rfl

/-- A numeral is read up to its end. -/
theorem readMagnitude_numeral {R : Type} [Scalar R] (negative : Bool) {numeral : NumeralText}
    (plain : numeral.IsPlain) :
    readMagnitude negative (numeral.text ++ rest) =
      if numeral.isWhole then
        if numeral.whole.length > Text.maximalDigits then none
        else
          let n : ℤ := ofDigits numeral.whole
          some (.whole (if negative then -n else n), rest)
      else
        some (.real (Scalar.ofNumeral (R := R)
          (.finite negative numeral.significand numeral.exponent)), rest) := by
  obtain ⟨whole, places, power?⟩ := numeral
  obtain ⟨hwhole, hplaces, hpower, hne, hleading⟩ := plain
  dsimp only at hwhole hplaces hpower hne hleading
  have htext : NumeralText.text ⟨whole, places, power?⟩ ++ rest =
      digits whole ++ (placesText places ++ (powerText power? ++ rest)) := by
    simp only [NumeralText.text, List.append_assoc]
  have hall : ∀ d ∈ whole ++ places, d < 10 := List.forall_mem_append.mpr ⟨hwhole, hplaces⟩
  rw [htext]
  unfold readMagnitude
  rw [wholePart_digits hwhole hne hleading fun c hc => head_placesText hrest places power? hc]
  simp only [isEmpty_digits hne, Bool.false_eq_true, if_false, List.drop_left,
    takePlaces_placesText hrest hplaces, takeExponent_powerText hrest hpower,
    ← digits_append, digitsValue_digits hwhole, digitsValue_digits hall]
  rw [digits, digits, List.length_map, List.length_map, List.isEmpty_map]
  cases power? with
  | none => cases places <;> rfl
  | some power => simp [isWhole, significand, exponent]

end Parts

/-! ## Decimals -/

section Decimals

open Binary64

/-- The numeral that a decimal is laid out as. -/
def numeralOf (d : Decimal) : NumeralText :=
  let list := wholeDigits d.digits
  let leading := d.exponent + list.length - 1
  if -4 ≤ leading ∧ leading < 16 then
    if leading < 0 then ⟨[0], List.replicate (-leading - 1).toNat 0 ++ list, none⟩
    else
      let whole := leading.toNat + 1
      if list.length ≤ whole then ⟨list ++ List.replicate (whole - list.length) 0, [0], none⟩
      else ⟨list.take whole, list.drop whole, none⟩
  else
    let power := wholeDigits leading.natAbs
    ⟨list.take 1, list.drop 1,
      some (leading < 0, List.replicate (2 - power.length) 0 ++ power)⟩

theorem digits_zeros (count : ℕ) : digits (List.replicate count 0) = zeros count :=
  List.map_replicate

/-- A decimal is laid out as a numeral. -/
theorem toList_text (d : Decimal) : d.text.toList = (numeralOf d).text := by
  have hdigits (n : ℕ) : Nat.toDigits 10 n = digits (wholeDigits n) := Text.toDigits_eq n
  have hlength (list : List ℕ) : (digits list).length = list.length := List.length_map _
  have hne := Text.wholeDigits_ne_nil d.digits
  unfold Decimal.text numeralOf
  simp only [hdigits, hlength]
  generalize wholeDigits d.digits = list at hne ⊢
  generalize d.exponent + list.length - 1 = leading
  split
  · split
    · rw [String.toList_ofList, NumeralText.text, placesText, if_neg (by simp [hne]),
        digits_append, digits_zeros]
      simp [powerText]
      rfl
    · split
      · rw [String.toList_ofList, NumeralText.text, placesText, digits_append, digits_zeros]
        rfl
      · rename_i hlonger
        rw [String.toList_ofList, NumeralText.text, placesText, if_neg (by simp; omega), powerText,
          digits, digits, digits, List.map_take, List.map_drop, List.append_nil]
  · rw [String.toList_ofList, NumeralText.text, powerText, digits_append, digits_zeros]
    match list with
    | [first] => simp [placesText, digits]
    | first :: second :: later => simp [placesText, digits]

theorem isWhole_numeralOf (d : Decimal) : (numeralOf d).isWhole = false := by
  unfold numeralOf
  dsimp only
  split
  · split
    · simp [isWhole, Text.wholeDigits_ne_nil]
    · split
      · rfl
      · simp [isWhole]
        omega
  · simp [isWhole]

theorem lt_of_mem_zeros (count : ℕ) : ∀ n ∈ List.replicate count 0, n < 10 := by
  intro n hn
  rw [(List.mem_replicate.mp hn).2]
  norm_num

theorem isPlain_numeralOf {d : Decimal} (h : 0 < d.digits) : (numeralOf d).IsPlain := by
  have hlt := Text.lt_of_mem_wholeDigits d.digits
  have hne := Text.wholeDigits_ne_nil d.digits
  have hhead : (wholeDigits d.digits).head? ≠ some 0 := by
    intro hzero
    have hvalue := congrArg ofDigits (Text.head?_wholeDigits _ hzero)
    rw [Text.ofDigits_wholeDigits] at hvalue
    exact h.ne' hvalue
  unfold numeralOf
  generalize wholeDigits d.digits = list at *
  dsimp only
  split
  · split
    · exact ⟨by simp, List.forall_mem_append.mpr ⟨lt_of_mem_zeros _, hlt⟩, nofun,
        List.cons_ne_nil _ _, fun _ => rfl⟩
    · split
      · refine ⟨List.forall_mem_append.mpr ⟨hlt, lt_of_mem_zeros _⟩, by simp, nofun,
          List.append_ne_nil_of_left_ne_nil hne _, ?_⟩
        rw [List.head?_append_of_ne_nil _ hne]
        exact fun hzero => absurd hzero hhead
      · refine ⟨fun n hn => hlt n (List.mem_of_mem_take hn),
          fun n hn => hlt n (List.mem_of_mem_drop hn), nofun, by simpa using hne, ?_⟩
        rw [List.head?_take, if_neg (by omega)]
        exact fun hzero => absurd hzero hhead
  · refine ⟨fun n hn => hlt n (List.mem_of_mem_take hn),
      fun n hn => hlt n (List.mem_of_mem_drop hn), fun negative power hpower => ?_,
      by simpa using hne, ?_⟩
    · obtain ⟨-, rfl⟩ := Prod.mk.inj (Option.some.inj hpower)
      exact ⟨List.append_ne_nil_of_right_ne_nil _ (Text.wholeDigits_ne_nil _),
        List.forall_mem_append.mpr ⟨lt_of_mem_zeros _, Text.lt_of_mem_wholeDigits _⟩⟩
    · rw [List.head?_take, if_neg (by omega)]
      exact fun hzero => absurd hzero hhead

theorem ofDigits_zeros (count : ℕ) : ofDigits (List.replicate count 0) = 0 := by
  induction count with
  | zero => rfl
  | succ count ih =>
      rw [List.replicate_succ', Text.ofDigits_append, ih]
      rfl

/-- The numeral of a decimal has its value. -/
theorem decimalValue_numeralOf (d : Decimal) :
    decimalValue (numeralOf d).significand (numeralOf d).exponent = d.value := by
  have hvalue : ofDigits (wholeDigits d.digits) = d.digits := Text.ofDigits_wholeDigits _
  have hpos : 0 < (wholeDigits d.digits).length :=
    List.length_pos_iff.mpr (Text.wholeDigits_ne_nil _)
  unfold numeralOf Decimal.value
  generalize wholeDigits d.digits = list at *
  rw [← hvalue]
  dsimp only
  split
  · rename_i hplain
    split
    · rename_i hsmall
      rw [significand, exponent, ← List.append_assoc, Text.ofDigits_append,
        show ofDigits ([0] ++ List.replicate _ 0) = 0 from ofDigits_zeros (_ + 1)]
      congr 1
      · omega
      · rw [NumeralText.power, List.length_append, List.length_replicate]
        omega
    · split
      · rename_i hshort
        have hcount : (d.exponent + list.length - 1).toNat + 1 - list.length =
            d.exponent.toNat := by omega
        obtain ⟨count, hexponent⟩ := Int.eq_ofNat_of_zero_le (by omega : 0 ≤ d.exponent)
        rw [hcount, significand, exponent, Text.ofDigits_append, Text.ofDigits_append,
          ofDigits_zeros, hexponent, decimalValue_eq, decimalValue_eq]
        simp [NumeralText.power, ofDigits]
      · rename_i hlong
        rw [significand, exponent, List.take_append_drop]
        congr 1
        rw [NumeralText.power, List.length_drop]
        omega
  · rw [significand, exponent, List.take_append_drop]
    simp only [NumeralText.power, Text.ofDigits_append, ofDigits_zeros, Nat.zero_mul, Nat.zero_add,
      Text.ofDigits_wholeDigits, List.length_drop, decide_eq_true_eq]
    congr 1
    split <;> omega

end Decimals

/-! ## Numbers -/

section Numbers

open Binary64

variable {rest : List Char}

/-- A minus sign, if there is one. -/
def signText (negative : Bool) : List Char :=
  if negative then ['-'] else []

/-- A numeral is none of the names, also with a sign. -/
theorem readAtom_numeral {R : Type} [Scalar R] (negative : Bool) {numeral : NumeralText}
    (plain : numeral.IsPlain) :
    readAtom (R := R) (signText negative ++ (numeral.text ++ rest)) =
      (readMagnitude negative (numeral.text ++ rest)).map fun (n, rest) => (.num n, rest) := by
  obtain ⟨d, whole, hwhole⟩ := List.exists_cons_of_ne_nil plain.nonempty
  obtain ⟨tail, htext⟩ : ∃ tail, numeral.text ++ rest = d.digitChar :: tail := by
    rw [NumeralText.text, hwhole]
    exact ⟨_, rfl⟩
  have hd : d < 10 := plain.whole d (hwhole ▸ List.mem_cons_self)
  have hnone : ∀ d : Fin 10, 'n' ≠ Nat.digitChar d ∧ 't' ≠ Nat.digitChar d ∧
      'f' ≠ Nat.digitChar d ∧ 'N' ≠ Nat.digitChar d ∧ 'I' ≠ Nat.digitChar d ∧
      '-' ≠ Nat.digitChar d := by decide
  obtain ⟨hn, ht, hf, hN, hI, hsign⟩ := hnone ⟨d, hd⟩
  dsimp only at hn ht hf hN hI hsign
  rw [htext]
  cases negative with
  | true =>
      simp [signText, readAtom, names, takeWord?, hI]
  | false =>
      simp [signText, readAtom, names, takeWord?, hn, ht, hf, hN, hI, hsign]

/-- A name is read as the value that it names. -/
theorem readAtom_name {R : Type} [Scalar R] {name : String} {value : Value R}
    (h : (name, value) ∈ names) : readAtom (name.toList ++ rest) = some (value, rest) := by
  simp only [names, List.mem_cons, Prod.mk.injEq, List.not_mem_nil, or_false] at h
  have hlengths : "null".length = 4 ∧ "true".length = 4 ∧ "false".length = 5 ∧
    "NaN".length = 3 ∧ "Infinity".length = 8 ∧ "-Infinity".length = 9 := by decide
  rcases h with ⟨rfl, rfl⟩ | ⟨rfl, rfl⟩ | ⟨rfl, rfl⟩ | ⟨rfl, rfl⟩ | ⟨rfl, rfl⟩ | ⟨rfl, rfl⟩ <;>
    simp only [String.reduceToList, List.cons_append, List.nil_append] <;>
    simp [readAtom, names, takeWord?, hlengths]

theorem length_wholeDigits_le {n places : ℕ} (hpos : 0 < places) (h : n < Nat.pow 10 places) :
    (wholeDigits n).length ≤ places := by
  have hdigits : (Nat.toDigits 10 n).length ≤ places :=
    (Nat.length_toDigits_le_iff (by norm_num) hpos).mpr h
  rwa [Text.toDigits_eq, List.length_map] at hdigits

/-- A whole number is a numeral of its digits. -/
theorem toList_toString (n : ℤ) :
    (toString n).toList = signText (n < 0) ++ digits (wholeDigits n.natAbs) := by
  cases n with
  | ofNat n =>
    show (Nat.repr n).toList = _
    simp [Nat.repr, Text.toDigits_eq, digits, signText]
  | negSucc n =>
    show ("-" ++ Nat.repr (n + 1)).toList = _
    simp [Nat.repr, Text.toDigits_eq, digits, signText, Int.negSucc_lt_zero]

theorem isPlain_whole (n : ℕ) : NumeralText.IsPlain ⟨wholeDigits n, [], none⟩ where
  whole := Text.lt_of_mem_wholeDigits n
  places := nofun
  power := nofun
  nonempty := Text.wholeDigits_ne_nil n
  leading := Text.head?_wholeDigits n

/-- A finite scalar is written as a numeral that is read as it. -/
theorem exists_numeral {x : Float} (h : Binary64.special? x = none) :
    ∃ numeral : NumeralText, numeral.IsPlain ∧ numeral.isWhole = false ∧
      (Binary64.text x).toList = signText (parts x).negative ++ numeral.text ∧
      ofNumeral (.finite (parts x).negative numeral.significand numeral.exponent) = x := by
  have htext (magnitude : String) :
      (if (parts x).negative then "-" ++ magnitude else magnitude).toList =
        signText (parts x).negative ++ magnitude.toList := by
    cases (parts x).negative <;> simp [signText]
  unfold Binary64.text
  rw [h]
  dsimp only
  rw [htext]
  by_cases hm : (parts x).m = 0
  · refine ⟨⟨[0], [0], none⟩, ?_, rfl, ?_, ofNumeral_zero h hm _⟩
    · exact ⟨by simp, by simp, nofun, List.cons_ne_nil _ _, fun _ => rfl⟩
    · rw [if_pos hm]
      rfl
  · have hround := roundsTo_shortest hm
    have hpos : 0 < (parts x).shortest.digits :=
      digits_pos_of_roundsTo (isNormal_parts h) hm hround
    refine ⟨numeralOf (parts x).shortest, isPlain_numeralOf hpos, isWhole_numeralOf _, ?_, ?_⟩
    · rw [if_neg hm, toList_text]
    · exact ofNumeral_of_roundsTo h hm (by rwa [decimalValue_numeralOf])

theorem readAtom_whole {n : ℤ} (short : n.natAbs < Nat.pow 10 Text.maximalDigits)
    (hrest : EndsNumeral rest) :
    readAtom (R := Float) ((toString n).toList ++ rest) = some (.num (.whole n), rest) := by
  have hplain := isPlain_whole n.natAbs
  have hlength : (wholeDigits n.natAbs).length ≤ Text.maximalDigits :=
    length_wholeDigits_le (by decide) short
  have htext : (toString n).toList ++ rest =
      signText (n < 0) ++ (NumeralText.text ⟨wholeDigits n.natAbs, [], none⟩ ++ rest) := by
    rw [toList_toString, List.append_assoc]
    simp [NumeralText.text, placesText, powerText]
  have hsign : (if decide (n < 0) then -(n.natAbs : ℤ) else n.natAbs) = n := by
    simp only [decide_eq_true_eq]
    split <;> omega
  rw [htext, readAtom_numeral _ hplain, readMagnitude_numeral hrest _ hplain,
    show isWhole ⟨wholeDigits n.natAbs, [], none⟩ = true from rfl, if_pos rfl,
    if_neg (not_lt.mpr hlength), Text.ofDigits_wholeDigits]
  show some (Value.num (.whole (if decide (n < 0) then -(n.natAbs : ℤ) else n.natAbs)), rest) = _
  rw [hsign]

theorem readAtom_special {x : Float} {special : Special} (h : Binary64.special? x = some special) :
    readAtom ((numberLiteral (.real x)).toList ++ rest) = some (.num (.real x), rest) := by
  have hname : readAtom ((numberLiteral (.real x)).toList ++ rest) =
      some (.num (.real (ofNumeral (.special special))), rest) := by
    rw [numberLiteral, h]
    clear h
    rcases special with _ | _ | _
    · exact readAtom_name (by simp [names]; rfl)
    · exact readAtom_name (by simp [names]; rfl)
    · exact readAtom_name (by simp [names]; rfl)
  rw [hname, ofNumeral_special h]

/-- A number is read back from its literal. -/
theorem readAtom_numberLiteral {n : Number Float} (short : n.hasText = true)
    (hrest : EndsNumeral rest) :
    readAtom ((numberLiteral n).toList ++ rest) = some (.num n, rest) := by
  cases n with
  | whole n =>
      rw [Number.hasText, decide_eq_true_eq] at short
      exact readAtom_whole short hrest
  | real x =>
      cases hspecial : Binary64.special? x with
      | none =>
          obtain ⟨numeral, hplain, hnot, htext, hvalue⟩ := exists_numeral hspecial
          rw [numberLiteral, hspecial]
          dsimp only
          rw [htext, List.append_assoc, readAtom_numeral _ hplain,
            readMagnitude_numeral hrest _ hplain, if_neg (by simp [hnot])]
          show some (Value.num (.real (ofNumeral _)), rest) = _
          rw [hvalue]
      | some special => exact readAtom_special hspecial

/-- A literal of a number begins with a sign, a digit or a capital letter. -/
theorem exists_head_numberLiteral (n : Number Float) : ∃ c tail,
    (numberLiteral n).toList = c :: tail ∧ (isDigit c = true ∨ c = '-' ∨ c = 'N' ∨ c = 'I') := by
  have hnumeral (negative : Bool) {numeral : NumeralText} (plain : numeral.IsPlain) : ∃ c tail,
      signText negative ++ numeral.text = c :: tail ∧ (isDigit c = true ∨ c = '-') := by
    obtain ⟨d, whole, hwhole⟩ := List.exists_cons_of_ne_nil plain.nonempty
    have hd : d < 10 := plain.whole d (hwhole ▸ List.mem_cons_self)
    rw [NumeralText.text, hwhole]
    cases negative with
    | false => exact ⟨_, _, rfl, .inl (isDigit_digitChar hd)⟩
    | true => exact ⟨_, _, rfl, .inr rfl⟩
  cases n with
  | whole n =>
      obtain ⟨c, tail, htext, hc⟩ := hnumeral (n < 0) (isPlain_whole n.natAbs)
      refine ⟨c, tail, ?_, hc.imp_right .inl⟩
      rw [numberLiteral, toList_toString, ← htext]
      simp [NumeralText.text, placesText, powerText]
  | real x =>
      cases hspecial : Binary64.special? x with
      | none =>
          obtain ⟨numeral, hplain, -, htext, -⟩ := exists_numeral hspecial
          obtain ⟨c, tail, hhead, hc⟩ := hnumeral (parts x).negative hplain
          refine ⟨c, tail, ?_, hc.imp_right .inl⟩
          rw [numberLiteral, hspecial, ← hhead]
          exact htext
      | some special =>
          rw [numberLiteral, hspecial]
          clear hspecial
          rcases special with _ | _ | _
          · exact ⟨'N', ['a', 'N'], by simp, by simp⟩
          · exact ⟨'I', ['n', 'f', 'i', 'n', 'i', 't', 'y'], by simp, by simp⟩
          · exact ⟨'-', ['I', 'n', 'f', 'i', 'n', 'i', 't', 'y'], by simp, by simp⟩

end Numbers

end Json

end MotionScene
