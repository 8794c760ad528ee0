import Mathlib.Tactic.NormNum
import MotionScene.Document.Json

/-!
# Texts of documents read back

Each character of a text is escaped on its own, and what it is escaped to is read as that character
before whatever follows (`readCharacters_escapedChar`).  A character beyond the 16-bit units is
escaped by two, of which the first waits for the second.
-/

namespace MotionScene

namespace Json

/-! ## Hexadecimal digits -/

theorem hexadecimal_one {n : ℕ} (h : n < 16) : Text.hexadecimal 1 n = [n.digitChar] := by
  rw [Text.hexadecimal, Nat.toDigits_of_lt_base h]
  rfl

theorem hexadecimal_succ {width : ℕ} (hpos : 0 < width) (n : ℕ) :
    Text.hexadecimal (width + 1) n = Text.hexadecimal width (n / 16) ++ [(n % 16).digitChar] := by
  unfold Text.hexadecimal
  dsimp only
  rw [Nat.toDigits_eq_if (by norm_num)]
  split
  · rename_i hsmall
    obtain ⟨width, rfl⟩ := Nat.exists_eq_succ_of_ne_zero hpos.ne'
    rw [Nat.div_eq_of_lt hsmall, Nat.mod_eq_of_lt hsmall, Nat.toDigits_of_lt_base (by norm_num)]
    show List.replicate (width + 1) '0' ++ [n.digitChar] =
      List.replicate width '0' ++ ['0'] ++ [n.digitChar]
    rw [List.replicate_succ']
  · rw [List.length_append, List.length_singleton, Nat.add_sub_add_right, List.append_assoc]

/-- Four digits write a 16-bit unit. -/
theorem hexadecimal_four {n : ℕ} (h : n < 0x10000) :
    Text.hexadecimal 4 n = [(n / 16 / 16 / 16).digitChar, (n / 16 / 16 % 16).digitChar,
      (n / 16 % 16).digitChar, (n % 16).digitChar] := by
  rw [hexadecimal_succ (by norm_num), hexadecimal_succ (by norm_num),
    hexadecimal_succ (by norm_num), hexadecimal_one (by omega)]
  rfl

theorem hexValue?_digitChar {d : ℕ} (h : d < 16) : hexValue? d.digitChar = some d :=
  (by decide : ∀ d : Fin 16, hexValue? (Nat.digitChar d) = some d.val) ⟨d, h⟩

/-! ## Escapes -/

/-- An escaped unit is read as that unit. -/
theorem readCharacters_unitEscape (high? : Option ℕ) (done : List Char) {unit : ℕ}
    (h : unit < 0x10000) (rest : List Char) :
    readCharacters high? done (unitEscape unit ++ rest) =
      readCharacters (afterUnit high? done unit).1 (afterUnit high? done unit).2 rest := by
  have hunit : unit? (unit / 16 / 16 / 16).digitChar (unit / 16 / 16 % 16).digitChar
      (unit / 16 % 16).digitChar (unit % 16).digitChar = some unit := by
    unfold unit?
    rw [hexValue?_digitChar (by omega), hexValue?_digitChar (by omega),
      hexValue?_digitChar (by omega), hexValue?_digitChar (by omega)]
    show some _ = _
    congr 1
    omega
  rw [unitEscape, hexadecimal_four h]
  show readCharacters high? done ('\\' :: 'u' :: _ :: _ :: _ :: _ :: rest) = _
  rw [readCharacters]
  simp [hunit]

/-- A character beyond the units is read back from its pair of them. -/
theorem readCharacters_pair (done : List Char) {c : Char} (h : 0x10000 ≤ c.toNat)
    (rest : List Char) :
    readCharacters none done (unitEscape (0xD800 + (c.toNat - 0x10000) / 0x400) ++
        unitEscape (0xDC00 + (c.toNat - 0x10000) % 0x400) ++ rest) =
      readCharacters none (c :: done) rest := by
  have hvalid : c.toNat < 0xD800 ∨ 0xDFFF < c.toNat ∧ c.toNat < 0x110000 := c.valid
  have hhigh : 0xD800 + (c.toNat - 0x10000) / 0x400 < 0xDC00 := by omega
  have hlow : 0xDC00 + (c.toNat - 0x10000) % 0x400 < 0xE000 := by omega
  have hjoined : 0x10000 + (0xD800 + (c.toNat - 0x10000) / 0x400 - 0xD800) * 0x400 +
      (0xDC00 + (c.toNat - 0x10000) % 0x400 - 0xDC00) = c.toNat := by omega
  rw [List.append_assoc, readCharacters_unitEscape none done (by omega), afterUnit,
    if_pos ⟨by omega, hhigh⟩]
  dsimp only
  rw [readCharacters_unitEscape _ _ (by omega), afterUnit, if_neg (by omega),
    if_pos ⟨by omega, hlow⟩]
  dsimp only
  rw [hjoined, Char.ofNat_toNat]
  rfl

/-- A character is read back from its escape. -/
theorem readCharacters_escapedChar (done : List Char) (c : Char) (rest : List Char) :
    readCharacters none done (escapedChar c ++ rest) = readCharacters none (c :: done) rest := by
  have hsimple {letter : Char} (hletter : letter ≠ 'u') (hc : simpleEscape? letter = some c) :
      readCharacters none done (['\\', letter] ++ rest) = readCharacters none (c :: done) rest := by
    show readCharacters none done ('\\' :: letter :: rest) = _
    rw [readCharacters.eq_def]
    simp [hletter, hc, settle]
  unfold escapedChar
  split
  · rename_i hquoted
    rw [Bool.or_eq_true, decide_eq_true_iff, decide_eq_true_iff] at hquoted
    rcases hquoted with rfl | rfl
    · exact hsimple (by decide) rfl
    · exact hsimple (by decide) rfl
  rename_i hplain
  rw [Bool.or_eq_true, decide_eq_true_iff, decide_eq_true_iff, not_or] at hplain
  split
  · exact hsimple (by decide) (‹c = '\n'› ▸ rfl)
  split
  · exact hsimple (by decide) (‹c = '\r'› ▸ rfl)
  split
  · exact hsimple (by decide) (‹c = '\t'› ▸ rfl)
  split
  · exact hsimple (by decide) (‹c = '\x08'› ▸ rfl)
  split
  · exact hsimple (by decide) (‹c = '\x0C'› ▸ rfl)
  split
  · rename_i hprintable
    show readCharacters none done (c :: rest) = _
    rw [readCharacters.eq_def]
    simp [hplain.1, hplain.2, not_lt.mpr hprintable.1, settle]
  -- no character is half of a pair
  have hvalid : c.toNat < 0xD800 ∨ 0xDFFF < c.toNat ∧ c.toNat < 0x110000 := c.valid
  split
  · rename_i hsmall
    rw [readCharacters_unitEscape none done hsmall, afterUnit, if_neg (by omega),
      if_neg (by omega), Char.ofNat_toNat]
    rfl
  · exact readCharacters_pair done (not_lt.mp ‹_›) rest

/-! ## Texts -/

theorem readCharacters_flatMap (done characters rest : List Char) :
    readCharacters none done (characters.flatMap escapedChar ++ '\x22' :: rest) =
      some (String.ofList (done.reverse ++ characters), rest) := by
  induction characters generalizing done with
  | nil =>
      rw [List.flatMap_nil, List.nil_append, readCharacters.eq_def, List.append_nil]
      rfl
  | cons c characters ih =>
      rw [List.flatMap_cons, List.append_assoc, readCharacters_escapedChar, ih, List.reverse_cons,
        List.append_assoc]
      rfl

/-- A text is read back from its literal. -/
theorem readText_textLiteral (s : String) (rest : List Char) :
    ∃ characters, (textLiteral s).toList ++ rest = '\x22' :: characters ∧
      readText characters = some (s, rest) := by
  refine ⟨s.toList.flatMap escapedChar ++ '\x22' :: rest, ?_, ?_⟩
  · simp [textLiteral]
  · rw [readText, readCharacters_flatMap]
    simp

end Json

end MotionScene
