import MotionScene.Property.Color
import MotionScene.Proofs.Property.Axes
import MotionScene.Proofs.Text.Compact

/-!
# Colors as text

The text of a color holds three whole numbers up to 255 and a decimal for alpha.  It can be read in
one way only (`ByteColor.IsWrittenAs.unique`), and what is read is as near to the color as these
numbers can be; written again, it gives the same text (`colorText_faithful`).
-/

namespace MotionScene

open Text

/-! ## Channels -/

namespace Value

/-- The red, green or blue of a color, 0 where it is missing. -/
noncomputable def channel (color : Value ℝ) (axis : Fin 3) : ℝ :=
  ((color.axisNumber? axis).map Number.value).getD 0

/-- The alpha of a color, 1 where it is missing. -/
noncomputable def alpha (color : Value ℝ) : ℝ :=
  ((color.axisNumber? 3).map Number.value).getD 1

end Value

/-- The number of the unit interval that is nearest to a number. -/
noncomputable def unitPart (x : ℝ) : ℝ :=
  max 0 (min 1 x)

/-! ## Written colors -/

/-- A plain decimal: digits, and at most so many more after a point. -/
structure IsDecimal (places : ℕ) (text : List Char) (x : ℝ) : Prop where
  names : real? text = some x
  spelled : ∃ whole later : List ℕ, (∀ d ∈ whole ++ later, d < 10) ∧ whole ≠ [] ∧
    later.length ≤ places ∧
    text = whole.map Nat.digitChar ++ if later.isEmpty then [] else '.' :: later.map Nat.digitChar

/-- A color as its text has it. -/
@[ext]
structure ByteColor where
  level : Fin 3 → ℕ
  alpha : ℝ

/-- The words of a color with some levels and some text for alpha. -/
def colorWords (level : Fin 3 → ℕ) (alpha : List Char) : String :=
  s!"rgba({level 0},{level 1},{level 2},{String.ofList alpha})"

namespace ByteColor

def IsWrittenAs (color : ByteColor) (text : String) : Prop :=
  ∃ alpha, IsDecimal 6 alpha color.alpha ∧ text = colorWords color.level alpha

/-- The color of a document that a written color stands for. -/
noncomputable def decoded (color : ByteColor) : Value ℝ :=
  .list [.num (.real (color.level 0 / (255 : ℕ))), .num (.real (color.level 1 / (255 : ℕ))),
    .num (.real (color.level 2 / (255 : ℕ))), .num (.real color.alpha)]

end ByteColor

theorem comma_not_mem_digits {digits : List ℕ} (h : ∀ d ∈ digits, d < 10) :
    ',' ∉ digits.map Nat.digitChar := by
  intro hmem
  obtain ⟨d, hd, hcomma⟩ := List.mem_map.mp hmem
  exact (by decide : ∀ d : Fin 10, Nat.digitChar d ≠ ',') ⟨d, h d hd⟩ hcomma

theorem IsDecimal.comma_not_mem {places : ℕ} {text : List Char} {x : ℝ}
    (h : IsDecimal places text x) : ',' ∉ text := by
  obtain ⟨whole, later, hdigits, -, -, rfl⟩ := h.spelled
  rw [List.forall_mem_append] at hdigits
  rw [List.mem_append, not_or]
  refine ⟨comma_not_mem_digits hdigits.1, ?_⟩
  split
  · exact List.not_mem_nil
  · rw [List.mem_cons, not_or]
    exact ⟨by decide, comma_not_mem_digits hdigits.2⟩

theorem toList_toString (n : ℕ) : (toString n).toList = (wholeDigits n).map Nat.digitChar := by
  rw [← toDigits_eq]
  exact String.toList_ofList

theorem comma_not_mem_toString (n : ℕ) : ',' ∉ (toString n).toList := by
  rw [toList_toString]
  exact comma_not_mem_digits (lt_of_mem_wholeDigits n)

/-- The text of a whole number is that of no other one. -/
theorem toString_toList_inj {m n : ℕ} (h : (toString m).toList = (toString n).toList) : m = n := by
  have hread : ∀ n : ℕ, takeDigits (toString n).toList = (wholeDigits n, []) := fun n => by
    rw [toList_toString, takeDigits, ← List.append_nil ((wholeDigits n).map _)]
    exact digitsFrom_append (lt_of_mem_wholeDigits n) (fun _ => rfl) false
  have hdigits : wholeDigits m = wholeDigits n := by
    have hsame := hread m
    rw [h, hread n] at hsame
    exact (Prod.ext_iff.mp hsame).1.symm
  rw [← ofDigits_wholeDigits m, hdigits, ofDigits_wholeDigits]

/-- The parts of a written color between its commas. -/
theorem splitOn_colorWords (level : Fin 3 → ℕ) {alpha : List Char} (h : ',' ∉ alpha) :
    (colorWords level alpha).toList.splitOn ',' =
      ["rgba(".toList ++ (toString (level 0)).toList, (toString (level 1)).toList,
        (toString (level 2)).toList, alpha ++ [')']] := by
  have htext : (colorWords level alpha).toList =
      ("rgba(".toList ++ (toString (level 0)).toList) ++ ',' :: ((toString (level 1)).toList ++
        ',' :: ((toString (level 2)).toList ++ ',' :: (alpha ++ [')']))) := by
    simp [colorWords, toString, String.toList_append]
  have hred : ',' ∉ "rgba(".toList ++ (toString (level 0)).toList := by
    rw [List.mem_append, not_or]
    exact ⟨by decide, comma_not_mem_toString _⟩
  have halpha : ',' ∉ alpha ++ [')'] := by
    rw [List.mem_append, not_or]
    exact ⟨h, by decide⟩
  rw [htext]
  simp only [List.splitOn_append_cons_self, List.splitOn_eq_singleton hred,
    List.splitOn_eq_singleton (comma_not_mem_toString _), List.splitOn_eq_singleton halpha,
    List.singleton_append]

/-- A text is that of one color only. -/
theorem ByteColor.IsWrittenAs.unique {color other : ByteColor} {text : String}
    (h : color.IsWrittenAs text) (hother : other.IsWrittenAs text) : color = other := by
  obtain ⟨alpha, halpha, rfl⟩ := h
  obtain ⟨alpha', halpha', hsame⟩ := hother
  have hparts := congrArg (fun text : String => text.toList.splitOn ',') hsame
  simp only [splitOn_colorWords _ halpha.comma_not_mem,
    splitOn_colorWords _ halpha'.comma_not_mem, List.cons.injEq, List.append_cancel_left_eq,
    List.append_cancel_right_eq, and_true] at hparts
  obtain ⟨hred, hgreen, hblue, rfl⟩ := hparts
  ext axis
  · match axis with
    | 0 => exact toString_toList_inj hred
    | 1 => exact toString_toList_inj hgreen
    | 2 => exact toString_toList_inj hblue
  · exact Option.some.inj (halpha.names.symm.trans halpha'.names)

/-! ## Levels -/

/-- The whole number between 0 and 255 that is nearest to a channel, halves upwards. -/
noncomputable def byteLevel (x : ℝ) : ℕ :=
  (min 255 (max 0 ⌊x * (255 : ℕ) + 1 / (2 : ℕ)⌋)).toNat

theorem byteLevel_eq (x : ℝ) : byteLevel x = (min 255 (max 0 ⌊x * 255 + 1 / 2⌋)).toNat := by
  rw [byteLevel, Nat.cast_ofNat, Nat.cast_ofNat]

theorem byteLevel_le (x : ℝ) : byteLevel x ≤ 255 := by
  rw [byteLevel_eq]
  omega

theorem byteLevel_mono {x y : ℝ} (h : x ≤ y) : byteLevel x ≤ byteLevel y := by
  have hfloor : ⌊x * 255 + 1 / 2⌋ ≤ ⌊y * 255 + 1 / 2⌋ := Int.floor_mono (by linarith)
  rw [byteLevel_eq, byteLevel_eq]
  omega

/-- A channel outside the unit interval has the level of the nearer end. -/
theorem cast_byteLevel (x : ℝ) : (byteLevel x : ℤ) = ⌊unitPart x * 255 + 1 / 2⌋ := by
  have hzero : ⌊(0 : ℝ) * 255 + 1 / 2⌋ = 0 := by rw [Int.floor_eq_iff]; norm_num
  have hone : ⌊(1 : ℝ) * 255 + 1 / 2⌋ = 255 := by rw [Int.floor_eq_iff]; norm_num
  rw [byteLevel_eq]
  unfold unitPart
  rcases le_total x 0 with hx | hx
  · have hle : ⌊x * 255 + 1 / 2⌋ ≤ 0 := by
      rw [← hzero]
      exact Int.floor_mono (by linarith)
    rw [min_eq_right (hx.trans zero_le_one), max_eq_left hx, hzero]
    omega
  · have hge : 0 ≤ ⌊x * 255 + 1 / 2⌋ := by
      rw [← hzero]
      exact Int.floor_mono (by linarith)
    rcases le_total x 1 with hx' | hx'
    · have hle : ⌊x * 255 + 1 / 2⌋ ≤ 255 := by
        rw [← hone]
        exact Int.floor_mono (by linarith)
      rw [min_eq_right hx', max_eq_right hx]
      omega
    · have hge' : 255 ≤ ⌊x * 255 + 1 / 2⌋ := by
        rw [← hone]
        exact Int.floor_mono (by linarith)
      rw [min_eq_left hx', max_eq_right zero_le_one, hone]
      omega

theorem abs_byteLevel_sub_le (x : ℝ) : |(byteLevel x : ℝ) / 255 - unitPart x| ≤ 1 / 510 := by
  have hcast : (byteLevel x : ℝ) = (⌊unitPart x * 255 + 1 / 2⌋ : ℤ) := by
    rw [← cast_byteLevel, Int.cast_natCast]
  have hle := Int.floor_le (unitPart x * 255 + 1 / 2)
  have hlt := Int.lt_floor_add_one (unitPart x * 255 + 1 / 2)
  rw [hcast, abs_le]
  constructor <;> linarith

theorem byteLevel_div {n : ℕ} (h : n ≤ 255) : byteLevel (n / 255) = n := by
  have hfloor : ⌊(n : ℝ) / 255 * 255 + 1 / 2⌋ = n := by
    rw [Int.floor_eq_iff, div_mul_cancel₀ _ (by norm_num)]
    push_cast
    constructor <;> linarith
  rw [byteLevel_eq, hfloor]
  omega

theorem channelByte_eq (channel : Number ℝ) :
    channelByte channel = .ok (byteLevel channel.value) := by
  have hhalf : (Scalar.decimal 5 1 : ℝ) = 1 / 2 := by
    show realOfNumeral (.finite false 5 (-(1 : ℕ))) = _
    norm_num [realOfNumeral]
  have hscaled : ∃ scaled, channel.mul (.whole 255) = .ok scaled ∧
      scaled.value = channel.value * 255 := by
    cases channel with
    | whole n => exact ⟨.whole (n * 255), rfl, by push_cast [Number.value_whole]; ring⟩
    | real x => exact ⟨.real (x * (255 : ℤ)), rfl, by push_cast [Number.value_real]; ring⟩
  obtain ⟨scaled, hscaled, hvalue⟩ := hscaled
  have hraised : scaled.add (.real (Scalar.decimal 5 1)) =
      .ok (.real (channel.value * 255 + 1 / 2)) := by
    rw [hhalf, ← hvalue]
    cases scaled <;> rfl
  rw [channelByte, hscaled, ok_bind, hraised]
  rfl

/-! ## Alpha -/

theorem unitPart_mem (x : ℝ) : unitPart x ∈ Set.Icc 0 1 :=
  ⟨le_max_left _ _, max_le zero_le_one (min_le_left _ _)⟩

theorem unitPart_of_mem {x : ℝ} (h : x ∈ Set.Icc 0 1) : unitPart x = x := by
  rw [unitPart, min_eq_right h.2, max_eq_right h.1]

/-- The number of millionths that alpha is written as. -/
noncomputable def alphaUnits (x : ℝ) : ℕ :=
  (nearestInt (unitPart x * (10 ^ 6 : ℕ))).toNat

theorem cast_alphaUnits (x : ℝ) : (alphaUnits x : ℤ) = nearestInt (unitPart x * 10 ^ 6) := by
  have hnonneg : 0 ≤ unitPart x * 10 ^ 6 := mul_nonneg (unitPart_mem x).1 (by norm_num)
  rw [alphaUnits, Nat.cast_pow, Nat.cast_ofNat, Int.toNat_of_nonneg (nearestInt_nonneg hnonneg)]

theorem alphaUnits_le (x : ℝ) : alphaUnits x ≤ 10 ^ 6 := by
  have hle : unitPart x * 10 ^ 6 ≤ ((10 ^ 6 : ℤ) : ℝ) := by
    have := (unitPart_mem x).2
    push_cast
    linarith
  have := nearestInt_le hle
  rw [← cast_alphaUnits] at this
  exact_mod_cast this

theorem abs_alphaUnits_sub_le (x : ℝ) :
    |(alphaUnits x : ℝ) / 10 ^ 6 - unitPart x| ≤ 5 / 10 ^ 7 := by
  have hnear := abs_le.mp (abs_nearestInt_sub_le (unitPart x * 10 ^ 6))
  rw [← cast_alphaUnits, Int.cast_natCast] at hnear
  rw [abs_le]
  constructor <;> linarith [hnear.1, hnear.2]

theorem alphaUnits_div {n : ℕ} (h : n ≤ 10 ^ 6) : alphaUnits (n / 10 ^ 6) = n := by
  have hmem : (n : ℝ) / 10 ^ 6 ∈ Set.Icc (0 : ℝ) 1 :=
    ⟨by positivity, div_le_one_of_le₀ (by exact_mod_cast h) (by positivity)⟩
  have hround : nearestInt (n : ℝ) = n := by rw [← Int.cast_natCast, nearestInt_intCast]
  have hunits := cast_alphaUnits ((n : ℝ) / 10 ^ 6)
  rw [unitPart_of_mem hmem, div_mul_cancel₀ _ (by norm_num), hround] at hunits
  exact_mod_cast hunits

theorem clampUnit_number (alpha : Number ℝ) : alpha.clampUnit = unitPart alpha.value := by
  cases alpha with
  | real x =>
      show Scalar.clampUnit x = _
      rw [clampUnit_eq, unitPart, Number.value_real, max_min_distrib_left, max_eq_right zero_le_one]
  | whole n =>
      show (if 0 < n then ((1 : ℕ) : ℝ) else ((0 : ℕ) : ℝ)) = _
      rw [unitPart, Number.value_whole]
      split
      · have hone : (1 : ℝ) ≤ n := by exact_mod_cast ‹0 < n›
        rw [min_eq_left hone, max_eq_right zero_le_one, Nat.cast_one]
      · have hzero : (n : ℝ) ≤ 0 := by exact_mod_cast not_lt.mp ‹¬0 < n›
        rw [min_eq_right (hzero.trans zero_le_one), max_eq_left hzero, Nat.cast_zero]

/-- A number of millionths is written as a plain decimal. -/
theorem isDecimal_unitsText (places n : ℕ) :
    IsDecimal places (unitsText places n) (n / 10 ^ places) where
  names := real?_unitsText places n
  spelled := by
    refine ⟨wholeDigits (n / 10 ^ places), placeDigits places (n % 10 ^ places), ?_,
      wholeDigits_ne_nil _, length_placeDigits_le _ _, ?_⟩
    · exact List.forall_mem_append.mpr
        ⟨lt_of_mem_wholeDigits _, lt_of_mem_placeDigits (Nat.mod_lt _ (by positivity))⟩
    · rw [unitsText_eq, Int.natAbs_natCast, if_neg (by simp), List.nil_append]

theorem compact_alpha (alpha : Number ℝ) :
    compact alpha.clampUnit = String.ofList (unitsText 6 (alphaUnits alpha.value)) := by
  rw [compact_eq rfl, clampUnit_number, cast_alphaUnits]
  rfl

/-! ## Colors -/

theorem componentOr_eq {R : Type} (color : Value R) (axis : ℕ) (default : Number R) :
    color.componentOr axis default = .ok ((color.axisNumber? axis).getD default) := by
  rw [Value.componentOr, component_eq_axisNumber?]
  rfl

open scoped Scalar in
/-- A color is written with its levels and its millionths of alpha. -/
theorem colorText_eq (color : Value ℝ) :
    colorText color = .ok (colorWords (fun axis => byteLevel (color.channel axis))
      (unitsText 6 (alphaUnits color.alpha))) := by
  have hchannel : ∀ axis : Fin 3,
      ((color.axisNumber? axis).getD (.real 0)).value = color.channel axis := by
    intro axis
    unfold Value.channel
    cases color.axisNumber? axis with
    | none => exact scalar_zero
    | some n => rfl
  have halpha : ((color.axisNumber? 3).getD (.real 1)).value = color.alpha := by
    unfold Value.alpha
    cases color.axisNumber? 3 with
    | none => exact (scalar_literal 1).trans Nat.cast_one
    | some n => rfl
  have hlevel : ∀ axis : Fin 3, (do channelByte (← color.componentOr (axis : ℕ) (.real 0))) =
      .ok (byteLevel (color.channel axis)) := by
    intro axis
    rw [componentOr_eq, ok_bind, channelByte_eq, hchannel]
  have hcolor : colorText color = (do
    let red ← (do channelByte (← color.componentOr ((0 : Fin 3) : ℕ) (.real 0)))
    let green ← (do channelByte (← color.componentOr ((1 : Fin 3) : ℕ) (.real 0)))
    let blue ← (do channelByte (← color.componentOr ((2 : Fin 3) : ℕ) (.real 0)))
    let alpha ← color.componentOr (3 : ℕ) (.real 1)
    return s!"rgba({red},{green},{blue},{compact alpha.clampUnit})") := by
    unfold colorText
    simp only [bind_assoc]
    rfl
  rw [hcolor, hlevel, hlevel, hlevel, componentOr_eq]
  simp only [ok_bind]
  rw [compact_alpha, halpha]
  rfl

/-- What a color is written as. -/
noncomputable def ByteColor.of (color : Value ℝ) : ByteColor where
  level axis := byteLevel (color.channel axis)
  alpha := alphaUnits color.alpha / (10 ^ 6 : ℕ)

theorem alpha_of (color : Value ℝ) :
    (ByteColor.of color).alpha = alphaUnits color.alpha / 10 ^ 6 := by
  rw [ByteColor.of, Nat.cast_pow, Nat.cast_ofNat]

theorem isWrittenAs_of {color : Value ℝ} {text : String} (h : colorText color = .ok text) :
    (ByteColor.of color).IsWrittenAs text := by
  obtain rfl := Except.ok.inj ((colorText_eq color).symm.trans h)
  exact ⟨_, alpha_of color ▸ isDecimal_unitsText 6 (alphaUnits color.alpha), rfl⟩

/-- A written color has the levels and the alpha of the color that it stands for. -/
theorem colorText_decoded (color : Value ℝ) :
    colorText (ByteColor.of color).decoded = colorText color := by
  have hlevels : (fun axis => byteLevel ((ByteColor.of color).decoded.channel axis)) =
      fun axis => byteLevel (color.channel axis) := by
    funext axis
    have hlevel : byteLevel (byteLevel (color.channel axis) / (255 : ℕ)) =
        byteLevel (color.channel axis) := by
      rw [Nat.cast_ofNat]
      exact byteLevel_div (byteLevel_le _)
    match axis with
    | 0 | 1 | 2 => exact hlevel
  have halpha : alphaUnits (ByteColor.of color).decoded.alpha = alphaUnits color.alpha := by
    show alphaUnits (ByteColor.of color).alpha = _
    rw [alpha_of]
    exact alphaUnits_div (alphaUnits_le color.alpha)
  rw [colorText_eq, colorText_eq, hlevels, halpha]

/-- **Colors are written faithfully.**  Every color has a text, which can be read as one color only.
Its red, green and blue are whole numbers up to 255 and its alpha a decimal of the unit interval
with at most six places; they are as near to the channels of the color as such numbers are to
anything in the unit interval.  A greater channel has no lower level, and the color that is read has
the same text. -/
theorem colorText_faithful (color : Value ℝ) :
    ∃ text written, colorText color = .ok text ∧
      (∀ read : ByteColor, read.IsWrittenAs text ↔ read = written) ∧
      (∀ axis, written.level axis ≤ 255) ∧ written.alpha ∈ Set.Icc 0 1 ∧
      (∀ axis, |(written.level axis : ℝ) / 255 - unitPart (color.channel axis)| ≤ 1 / 510) ∧
      |written.alpha - unitPart color.alpha| ≤ 5 / 10 ^ 7 ∧
      (∀ (other : Value ℝ) (text' : String) (written' : ByteColor), colorText other = .ok text' →
        written'.IsWrittenAs text' → ∀ axis, color.channel axis ≤ other.channel axis →
          written.level axis ≤ written'.level axis) ∧
      colorText written.decoded = .ok text := by
  have htext := colorText_eq color
  have hwritten := isWrittenAs_of htext
  refine ⟨_, ByteColor.of color, htext, fun read => ⟨fun h => h.unique hwritten, ?_⟩,
    fun axis => byteLevel_le _, ⟨?_, ?_⟩, fun axis => abs_byteLevel_sub_le _, ?_, ?_, ?_⟩
  · rintro rfl
    exact hwritten
  · rw [alpha_of]
    exact div_nonneg (Nat.cast_nonneg _) (by norm_num)
  · rw [alpha_of]
    exact div_le_one_of_le₀ (by exact_mod_cast alphaUnits_le color.alpha) (by norm_num)
  · rw [alpha_of]
    exact abs_alphaUnits_sub_le color.alpha
  · intro other text' written' htext' hwritten' axis hle
    rw [hwritten'.unique (isWrittenAs_of htext')]
    exact byteLevel_mono hle
  · rw [colorText_decoded, htext]

end MotionScene
