import MotionScene.Files
import MotionScene.Proofs.Document.ReadBack

/-!
# The alphabet of written documents

Written documents consist of printable characters of the seven-bit alphabet and of line breaks
between their parts (`areWritten_write`).  So they stay as they are where every kind of line
break is read as the same.
-/

namespace MotionScene

namespace Json

/-- A printable character of the seven-bit alphabet, or a line break. -/
def IsWritten (c : Char) : Prop :=
  0x20 ≤ c.toNat ∧ c.toNat < 0x7F ∨ c = '\n'

instance : DecidablePred IsWritten := fun c =>
  inferInstanceAs (Decidable (0x20 ≤ c.toNat ∧ c.toNat < 0x7F ∨ c = '\n'))

def AreWritten (text : List Char) : Prop :=
  ∀ c ∈ text, IsWritten c

theorem areWritten_nil : AreWritten [] :=
  nofun

theorem AreWritten.cons {c : Char} {text : List Char} (hc : IsWritten c) (h : AreWritten text) :
    AreWritten (c :: text) :=
  List.forall_mem_cons.mpr ⟨hc, h⟩

theorem AreWritten.append {text later : List Char} (h : AreWritten text)
    (hlater : AreWritten later) : AreWritten (text ++ later) :=
  List.forall_mem_append.mpr ⟨h, hlater⟩

theorem areWritten_of_space {blank : List Char} (h : ∀ c ∈ blank, c = ' ' ∨ c = '\n') :
    AreWritten blank := by
  intro c hc
  rcases h c hc with rfl | rfl <;> decide

theorem isWritten_digitChar {d : ℕ} (h : d < 16) : IsWritten d.digitChar :=
  (by decide : ∀ d : Fin 16, IsWritten (Nat.digitChar d)) ⟨d, h⟩

theorem areWritten_name {name : String}
    (h : name ∈ ["null", "true", "false", "NaN", "Infinity", "-Infinity"]) :
    AreWritten name.toList := by
  simp only [List.mem_cons, List.not_mem_nil, or_false] at h
  rcases h with rfl | rfl | rfl | rfl | rfl | rfl <;> simp [AreWritten, IsWritten]

/-! ## Texts -/

theorem areWritten_unitEscape {unit : ℕ} (h : unit < 0x10000) : AreWritten (unitEscape unit) := by
  rw [unitEscape, hexadecimal_four h]
  refine .cons (by decide) (.cons (by decide) ?_)
  refine .cons (isWritten_digitChar (by omega)) (.cons (isWritten_digitChar (by omega)) ?_)
  exact .cons (isWritten_digitChar (by omega))
    (.cons (isWritten_digitChar (by omega)) areWritten_nil)

theorem areWritten_escapedChar (c : Char) : AreWritten (escapedChar c) := by
  have hvalid : c.toNat < 0xD800 ∨ 0xDFFF < c.toNat ∧ c.toNat < 0x110000 := c.valid
  have hpair {letter : Char} (hletter : IsWritten letter) : AreWritten ['\\', letter] :=
    .cons (by decide) (.cons hletter areWritten_nil)
  unfold escapedChar
  split
  · rename_i hquoted
    rw [Bool.or_eq_true, decide_eq_true_iff, decide_eq_true_iff] at hquoted
    rcases hquoted with rfl | rfl <;> exact hpair (by decide)
  split
  · exact hpair (by decide)
  split
  · exact hpair (by decide)
  split
  · exact hpair (by decide)
  split
  · exact hpair (by decide)
  split
  · exact hpair (by decide)
  split
  · exact .cons (.inl ‹_›) areWritten_nil
  split
  · exact areWritten_unitEscape ‹_›
  · exact (areWritten_unitEscape (by omega)).append (areWritten_unitEscape (by omega))

theorem areWritten_textLiteral (s : String) : AreWritten (textLiteral s).toList := by
  rw [textLiteral, String.toList_ofList]
  refine AreWritten.append (.cons (by decide) fun c hc => ?_) (.cons (by decide) areWritten_nil)
  obtain ⟨own, -, hown⟩ := List.mem_flatMap.mp hc
  exact areWritten_escapedChar own c hown

/-! ## Numbers -/

theorem areWritten_digits {list : List ℕ} (h : ∀ d ∈ list, d < 10) :
    AreWritten (NumeralText.digits list) := by
  intro c hc
  obtain ⟨d, hd, rfl⟩ := List.mem_map.mp hc
  exact isWritten_digitChar ((h d hd).trans (by norm_num))

theorem areWritten_numeral (negative : Bool) {numeral : NumeralText} (plain : numeral.IsPlain) :
    AreWritten (signText negative ++ numeral.text) := by
  have hsign : AreWritten (signText negative) := by
    cases negative with
    | false => exact areWritten_nil
    | true => exact .cons (by decide) areWritten_nil
  refine hsign.append ((areWritten_digits plain.whole).append (.append ?_ ?_))
  · unfold NumeralText.placesText
    split
    · exact areWritten_nil
    · exact .cons (by decide) (areWritten_digits plain.places)
  · cases hpower : numeral.power? with
    | none => exact areWritten_nil
    | some power =>
        obtain ⟨negative, power⟩ := power
        refine .cons (by decide) (.cons ?_ (areWritten_digits (plain.power _ _ hpower).2))
        cases negative <;> decide

theorem areWritten_numberLiteral (n : Number Float) : AreWritten (numberLiteral n).toList := by
  cases n with
  | whole n =>
      have h := areWritten_numeral (n < 0) (isPlain_whole n.natAbs)
      rw [numberLiteral, toList_toString]
      simpa [NumeralText.text, NumeralText.placesText, NumeralText.powerText] using h
  | real x =>
      cases hspecial : Binary64.special? x with
      | none =>
          obtain ⟨numeral, hplain, -, htext, -⟩ := exists_numeral hspecial
          rw [numberLiteral, hspecial]
          exact htext ▸ areWritten_numeral _ hplain
      | some special =>
          rw [numberLiteral, hspecial]
          clear hspecial
          cases special with
          | notANumber => exact areWritten_name (by simp)
          | infinity negative => cases negative <;> exact areWritten_name (by simp)

/-! ## Documents -/

theorem IsSpacedMark.areWritten {mark : Char} {separator : String}
    (spaced : IsSpacedMark mark separator) (hmark : IsWritten mark) :
    AreWritten separator.toList := by
  obtain ⟨count, hseparator⟩ := spaced
  rw [hseparator]
  exact .cons hmark (areWritten_of_space fun c hc => .inl (List.mem_replicate.mp hc).2)

theorem areWritten_lineBreak (layout : Layout) (depth : ℕ) :
    AreWritten (layout.lineBreak depth).toList := by
  unfold Layout.lineBreak
  split
  · rw [String.toList_empty]
    exact areWritten_nil
  · rw [String.toList_append]
    refine .append (areWritten_of_space ?_) (areWritten_of_space fun c hc => ?_)
    · simp
    · rw [String.toList_ofList] at hc
      exact .inl (List.mem_replicate.mp hc).2

section Documents

variable {layout : Layout}

theorem areWritten_bracketed (spaced : layout.IsSpaced) (depth : ℕ) {opening closing : String}
    {first mark : Char} (hopening : opening.toList = [first]) (hclosing : closing.toList = [mark])
    (hfirst : IsWritten first) (hmark : IsWritten mark) {parts : List String}
    (h : ∀ part ∈ parts, AreWritten part.toList) :
    AreWritten (layout.bracketed depth opening closing parts).toList := by
  have hparts (parts : List String) (h : ∀ part ∈ parts, AreWritten part.toList) :
      AreWritten (partsText layout depth mark (parts.map String.toList)) := by
    induction parts with
    | nil => exact areWritten_nil
    | cons part parts ih =>
        obtain ⟨hpart, hlater⟩ := List.forall_mem_cons.mp h
        cases parts with
        | nil => exact hpart.append ((areWritten_lineBreak _ _).append (.cons hmark areWritten_nil))
        | cons other parts =>
            exact hpart.append ((spaced.items.areWritten (by decide)).append
              ((areWritten_lineBreak _ _).append (ih hlater)))
  by_cases hne : parts = []
  · subst hne
    have htext : (layout.bracketed depth opening closing []).toList = [first, mark] := by
      simp [Layout.bracketed, hopening, hclosing]
    rw [htext]
    exact .cons hfirst (.cons hmark areWritten_nil)
  · rw [toList_bracketed layout depth hopening hclosing hne]
    exact .cons hfirst ((areWritten_lineBreak _ _).append (hparts parts h))

mutual

theorem areWritten_render (spaced : layout.IsSpaced) : ∀ (depth : ℕ) (value : Value Float),
    AreWritten (render layout depth value).toList
  | _, .null => areWritten_name (show "null" ∈ _ by simp)
  | _, .bool true => areWritten_name (show "true" ∈ _ by simp)
  | _, .bool false => areWritten_name (show "false" ∈ _ by simp)
  | _, .num n => areWritten_numberLiteral n
  | _, .text s => areWritten_textLiteral s
  | depth, .list items =>
      areWritten_bracketed spaced depth (show "[".toList = ['['] from rfl)
        (show "]".toList = [']'] from rfl) (by decide) (by decide)
        (areWritten_renderItems spaced (depth + 1) items)
  | depth, .object members =>
      areWritten_bracketed spaced depth (show "\x7b".toList = ['\x7b'] from rfl)
        (show "\x7d".toList = ['\x7d'] from rfl) (by decide) (by decide)
        (areWritten_renderMembers spaced (depth + 1) members)

theorem areWritten_renderItems (spaced : layout.IsSpaced) :
    ∀ (depth : ℕ) (items : List (Value Float)),
      ∀ part ∈ renderItems layout depth items, AreWritten part.toList
  | _, [] => nofun
  | depth, item :: items =>
      List.forall_mem_cons.mpr
        ⟨areWritten_render spaced depth item, areWritten_renderItems spaced depth items⟩

theorem areWritten_renderMembers (spaced : layout.IsSpaced) :
    ∀ (depth : ℕ) (members : Members Float),
      ∀ part ∈ renderMembers layout depth members, AreWritten part.toList
  | _, [] => nofun
  | depth, (key, value) :: members => by
      refine List.forall_mem_cons.mpr ⟨?_, areWritten_renderMembers spaced depth members⟩
      rw [String.toList_append, String.toList_append]
      exact ((areWritten_textLiteral key).append (spaced.keys.areWritten (by decide))).append
        (areWritten_render spaced depth value)

end

/-- A document is written in printable characters of the seven-bit alphabet and line breaks. -/
theorem areWritten_write (spaced : layout.IsSpaced) (value : Value Float) :
    AreWritten (write layout value).toList :=
  areWritten_render spaced 0 value

end Documents

/-- Written text has no line breaks of other kinds. -/
theorem unifyBreaks_eq_self {text : List Char} (h : AreWritten text) : unifyBreaks text = text := by
  induction text with
  | nil => rfl
  | cons c text ih =>
      obtain ⟨hc, hlater⟩ := List.forall_mem_cons.mp h
      have hne : c ≠ '\r' := by
        rintro rfl
        exact absurd hc (by decide)
      rw [unifyBreaks, ih hlater]
      · exact fun _ hreturn _ => hne hreturn
      · exact hne

end Json

end MotionScene
