import Mathlib.Data.List.TakeWhile
import MotionScene.Proofs.Document.Keyed
import MotionScene.Proofs.Document.Numerals
import MotionScene.Proofs.Document.Texts

/-!
# Documents read back from their text

What is written of a value is read as that value, in every layout whose separators are a comma and a
colon with blanks after them (`parse?_write`).  The values are those that have a text: their objects
have distinct keys and their whole numbers are not too long.
-/

namespace MotionScene

namespace Json

/-! ## Layouts -/

/-- A mark with nothing but spaces after it. -/
def IsSpacedMark (mark : Char) (separator : String) : Prop :=
  ∃ count : ℕ, separator.toList = mark :: List.replicate count ' '

/-- The separators of a layout are those of the notation, with spaces after them. -/
structure Layout.IsSpaced (layout : Layout) : Prop where
  items : IsSpacedMark ',' layout.itemSeparator
  keys : IsSpacedMark ':' layout.keySeparator

theorem skipSpace_append {blank text : List Char} (hblank : ∀ c ∈ blank, isSpace c = true)
    (htext : ∀ c, text.head? = some c → isSpace c = false) : skipSpace (blank ++ text) = text := by
  rw [skipSpace, List.dropWhile_append_of_pos hblank]
  cases text with
  | nil => rfl
  | cons c text => rw [List.dropWhile_cons, if_neg (by simp [htext c rfl])]

theorem isSpace_of_mem_replicate (count : ℕ) :
    ∀ c ∈ List.replicate count ' ', isSpace c = true := by
  intro c hc
  rw [(List.mem_replicate.mp hc).2]
  rfl

theorem isSpace_of_mem_lineBreak (layout : Layout) (depth : ℕ) :
    ∀ c ∈ (layout.lineBreak depth).toList, isSpace c = true := by
  intro c hc
  unfold Layout.lineBreak at hc
  split at hc
  · simp at hc
  · simp only [String.toList_append, String.toList_ofList, List.mem_append] at hc
    rcases hc with hc | hc
    · obtain rfl : c = '\n' := by simpa using hc
      rfl
    · exact isSpace_of_mem_replicate _ c hc

/-! ## Parts between brackets -/

/-- Parts up to their closing bracket. -/
def partsText (layout : Layout) (depth : ℕ) (closing : Char) : List (List Char) → List Char
  | [] => []
  | [part] => part ++ ((layout.lineBreak depth).toList ++ [closing])
  | part :: rest => part ++ (layout.itemSeparator.toList ++
      ((layout.lineBreak (depth + 1)).toList ++ partsText layout depth closing rest))

theorem partsText_cons (layout : Layout) (depth : ℕ) (closing : Char) (part : List Char)
    {rest : List (List Char)} (hne : rest ≠ []) :
    partsText layout depth closing (part :: rest) = part ++ (layout.itemSeparator.toList ++
      ((layout.lineBreak (depth + 1)).toList ++ partsText layout depth closing rest)) := by
  cases rest with
  | nil => exact absurd rfl hne
  | cons other rest => rfl

theorem toList_bracketed (layout : Layout) (depth : ℕ) {opening closing : String}
    {first mark : Char} (hopening : opening.toList = [first]) (hclosing : closing.toList = [mark])
    {parts : List String} (hne : parts ≠ []) :
    (layout.bracketed depth opening closing parts).toList =
      first :: ((layout.lineBreak (depth + 1)).toList ++
        partsText layout depth mark (parts.map String.toList)) := by
  have hparts : ∀ parts : List String, parts ≠ [] →
      ((layout.itemSeparator ++ layout.lineBreak (depth + 1)).intercalate parts).toList ++
        ((layout.lineBreak depth).toList ++ [mark]) =
          partsText layout depth mark (parts.map String.toList) := by
    intro parts hne
    induction parts with
    | nil => exact absurd rfl hne
    | cons part parts ih =>
        cases parts with
        | nil => simp [partsText]
        | cons other parts =>
            have hrest := ih (List.cons_ne_nil _ _)
            rw [String.intercalate_cons_cons, List.map_cons, List.map_cons, partsText]
            · rw [List.map_cons] at hrest
              rw [← hrest]
              simp
            · exact nofun
  unfold Layout.bracketed
  rw [if_neg (by simp [hne])]
  simp [← hparts parts hne, hopening, hclosing]

/-! ## Heads -/

/-- What a value begins with is no blank and no closing bracket. -/
def BeginsPart (text : List Char) : Prop :=
  ∃ c tail, text = c :: tail ∧ isSpace c = false ∧ c ≠ ']' ∧ c ≠ '\x7d'

theorem BeginsPart.append {text : List Char} (h : BeginsPart text) (rest : List Char) :
    BeginsPart (text ++ rest) := by
  obtain ⟨c, tail, rfl, hc⟩ := h
  exact ⟨c, tail ++ rest, rfl, hc⟩

theorem BeginsPart.skipSpace {blank text : List Char} (h : BeginsPart text)
    (hblank : ∀ c ∈ blank, isSpace c = true) : Json.skipSpace (blank ++ text) = text := by
  obtain ⟨c, tail, rfl, hc, -⟩ := h
  exact skipSpace_append hblank fun c' hc' => Option.some.inj hc' ▸ hc

theorem beginsPart_partsText (layout : Layout) (depth : ℕ) (closing : Char) {part : List Char}
    (h : BeginsPart part) (parts : List (List Char)) :
    BeginsPart (partsText layout depth closing (part :: parts)) := by
  cases parts with
  | nil => exact h.append _
  | cons other parts => exact h.append _

theorem head_atom {c : Char} (h : isDigit c = true ∨ c = '-' ∨ c = 'N' ∨ c = 'I') :
    isSpace c = false ∧ c ≠ ']' ∧ c ≠ '\x7d' ∧ c ≠ '\x22' ∧ c ≠ '[' ∧ c ≠ '\x7b' := by
  rcases h with h | rfl | rfl | rfl
  · have hne {other : Char} (hother : isDigit other = false) : c ≠ other := by
      rintro rfl
      exact Bool.false_ne_true (hother.symm.trans h)
    refine ⟨?_, hne rfl, hne rfl, hne rfl, hne rfl, hne rfl⟩
    simp [isSpace, hne (by decide : isDigit ' ' = false), hne (by decide : isDigit '\t' = false),
      hne (by decide : isDigit '\n' = false), hne (by decide : isDigit '\r' = false)]
  · decide
  · decide
  · decide

theorem beginsPart_textLiteral (s : String) : BeginsPart (textLiteral s).toList := by
  obtain ⟨characters, htext, -⟩ := readText_textLiteral s []
  rw [List.append_nil] at htext
  exact ⟨_, characters, htext, by decide⟩

theorem exists_toList_bracketed (layout : Layout) (depth : ℕ) {opening : String} {mark : Char}
    (hopening : opening.toList = [mark]) (closing : String) (parts : List String) :
    ∃ tail, (layout.bracketed depth opening closing parts).toList = mark :: tail := by
  unfold Layout.bracketed
  split
  · simp [hopening]
  · simp [hopening]

theorem beginsPart_render (layout : Layout) (depth : ℕ) (value : Value Float) :
    BeginsPart (render layout depth value).toList := by
  cases value with
  | null => exact ⟨'n', ['u', 'l', 'l'], by simp [render], by decide⟩
  | bool b =>
      cases b with
      | false => exact ⟨'f', ['a', 'l', 's', 'e'], by simp [render], by decide⟩
      | true => exact ⟨'t', ['r', 'u', 'e'], by simp [render], by decide⟩
  | num n =>
      obtain ⟨c, tail, htext, hc⟩ := exists_head_numberLiteral n
      obtain ⟨hspace, hlist, hobject, -⟩ := head_atom hc
      exact ⟨c, tail, by rw [render, htext], hspace, hlist, hobject⟩
  | text s => exact beginsPart_textLiteral s
  | list items =>
      obtain ⟨tail, htext⟩ := exists_toList_bracketed layout depth
        (show "[".toList = ['['] from rfl) "]" (renderItems layout (depth + 1) items)
      exact ⟨'[', tail, by rw [render, htext], by decide⟩
  | object members =>
      obtain ⟨tail, htext⟩ := exists_toList_bracketed layout depth
        (show "\x7b".toList = ['\x7b'] from rfl) "\x7d" (renderMembers layout (depth + 1) members)
      exact ⟨'\x7b', tail, by rw [render, htext], by decide⟩

theorem beginsPart_member (layout : Layout) (depth : ℕ) (key : String) (value : Value Float) :
    BeginsPart (textLiteral key ++ layout.keySeparator ++ render layout depth value).toList := by
  rw [String.toList_append, String.toList_append, List.append_assoc]
  exact (beginsPart_textLiteral key).append _

theorem beginsPart_items (layout : Layout) (depth : ℕ) (items : List (Value Float))
    (hne : (renderItems layout (depth + 1) items).map String.toList ≠ []) :
    BeginsPart (partsText layout depth ']'
      ((renderItems layout (depth + 1) items).map String.toList)) := by
  cases items with
  | nil => exact absurd rfl hne
  | cons item items =>
      exact beginsPart_partsText layout depth ']' (beginsPart_render layout (depth + 1) item) _

theorem beginsPart_members (layout : Layout) (depth : ℕ) (members : Members Float)
    (hne : (renderMembers layout (depth + 1) members).map String.toList ≠ []) :
    BeginsPart (partsText layout depth '\x7d'
      ((renderMembers layout (depth + 1) members).map String.toList)) := by
  cases members with
  | nil => exact absurd rfl hne
  | cons entry members =>
      exact beginsPart_partsText layout depth '\x7d'
        (beginsPart_member layout (depth + 1) entry.1 entry.2) _

/-! ## Values -/

theorem readValue_of_head {R : Type} [Scalar R] (steps : ℕ) {c : Char} (hquote : c ≠ '\x22')
    (hlist : c ≠ '[') (hobject : c ≠ '\x7b') (text : List Char) :
    readValue (R := R) (steps + 1) (c :: text) = readAtom (c :: text) := by
  rw [readValue]
  · simpa using hquote
  · simpa using hlist
  · simpa using hobject

theorem endsNumeral_cons {c : Char} (hdigit : isDigit c = false)
    (hother : c ≠ '.' ∧ c ≠ 'e' ∧ c ≠ 'E') (rest : List Char) : EndsNumeral (c :: rest) := by
  intro other hhead
  obtain rfl := Option.some.inj hhead
  exact ⟨hdigit, hother⟩

/-- A blank ends a numeral, and so does what follows no blank. -/
theorem endsNumeral_append {blank rest : List Char} (hblank : ∀ c ∈ blank, isSpace c = true)
    (hrest : EndsNumeral rest) : EndsNumeral (blank ++ rest) := by
  cases blank with
  | nil => exact hrest
  | cons c blank =>
      have hc := hblank c List.mem_cons_self
      simp only [isSpace, Bool.or_eq_true, decide_eq_true_eq] at hc
      refine endsNumeral_cons ?_ ?_ _ <;>
        rcases hc with ((rfl | rfl) | rfl) | rfl <;> decide

theorem readValue_opening {R : Type} [Scalar R] {steps : ℕ} {blank text : List Char}
    (h : BeginsPart text) (hblank : ∀ c ∈ blank, isSpace c = true) :
    readValue (R := R) (steps + 1) ('[' :: (blank ++ text)) =
      (readItems steps text).map fun (items, rest) => (.list items, rest) := by
  rw [readValue, h.skipSpace hblank]
  obtain ⟨c, tail, rfl, -, hc, -⟩ := h
  split
  · exact absurd (List.cons.inj ‹_›).1 hc
  · rfl

theorem readValue_openingBrace {R : Type} [Scalar R] {steps : ℕ} {blank text : List Char}
    (h : BeginsPart text) (hblank : ∀ c ∈ blank, isSpace c = true) :
    readValue (R := R) (steps + 1) ('\x7b' :: (blank ++ text)) =
      (readMembers steps [] text).map fun (members, rest) => (.object members, rest) := by
  rw [readValue, h.skipSpace hblank]
  obtain ⟨c, tail, rfl, -, -, hc⟩ := h
  split
  · exact absurd (List.cons.inj ‹_›).1 hc
  · rfl

/-- A value is read back before whatever may follow it. -/
def ReadsBack (layout : Layout) (value : Value Float) : Prop :=
  ∀ (depth : ℕ) {rest : List Char}, EndsNumeral rest →
    ∀ {steps : ℕ}, 2 * (render layout depth value).toList.length ≤ steps →
      readValue steps ((render layout depth value).toList ++ rest) = some (value, rest)

section Parts

variable {layout : Layout} (spaced : layout.IsSpaced) (depth : ℕ) (rest : List Char)

/-- What stands after a part: the closing bracket, or a comma and the other parts. -/
structure Follows (layout : Layout) (depth : ℕ) (closing : Char) (parts : List (List Char))
    (rest follow : List Char) : Prop where
  ends : EndsNumeral follow
  last : parts = [] → skipSpace follow = closing :: rest
  others : parts ≠ [] → ∃ blank, skipSpace follow = ',' :: blank ∧
    skipSpace blank = partsText layout depth closing parts ++ rest

theorem follows_lineBreak {closing : Char} (hclosing : closing = ']' ∨ closing = '\x7d') :
    Follows layout depth closing [] rest ((layout.lineBreak depth).toList ++ closing :: rest) := by
  have hblank := isSpace_of_mem_lineBreak layout depth
  have hspace : isSpace closing = false := by rcases hclosing with rfl | rfl <;> decide
  refine ⟨endsNumeral_append hblank ?_, fun _ => ?_, fun hne => absurd rfl hne⟩
  · rcases hclosing with rfl | rfl
    · exact endsNumeral_cons (by decide) (by decide) rest
    · exact endsNumeral_cons (by decide) (by decide) rest
  · exact skipSpace_append hblank fun _ hc => Option.some.inj hc ▸ hspace

include spaced

theorem follows_separator (closing : Char) {parts : List (List Char)} (hne : parts ≠ [])
    (hbegins : BeginsPart (partsText layout depth closing parts)) :
    Follows layout depth closing parts rest (layout.itemSeparator.toList ++
      ((layout.lineBreak (depth + 1)).toList ++
        (partsText layout depth closing parts ++ rest))) := by
  obtain ⟨count, hseparator⟩ := spaced.items
  have hblank : ∀ c ∈ List.replicate count ' ' ++ (layout.lineBreak (depth + 1)).toList,
      isSpace c = true := by
    intro c hc
    rcases List.mem_append.mp hc with hc | hc
    · exact isSpace_of_mem_replicate count c hc
    · exact isSpace_of_mem_lineBreak layout (depth + 1) c hc
  rw [hseparator, List.cons_append]
  refine ⟨endsNumeral_cons (by decide) (by decide) _, fun hnil => absurd hnil hne,
    fun _ => ⟨_, rfl, ?_⟩⟩
  rw [← List.append_assoc]
  exact (hbegins.append rest).skipSpace hblank

/-- The text of parts is that of the first one and what follows it. -/
theorem exists_follows {closing : Char} (hclosing : closing = ']' ∨ closing = '\x7d')
    (part : List Char) {parts : List (List Char)}
    (hbegins : parts ≠ [] → BeginsPart (partsText layout depth closing parts)) :
    ∃ follow, partsText layout depth closing (part :: parts) ++ rest = part ++ follow ∧
      Follows layout depth closing parts rest follow := by
  by_cases hparts : parts = []
  · subst hparts
    exact ⟨_, by simp [partsText], follows_lineBreak depth rest hclosing⟩
  · refine ⟨_, ?_, follows_separator spaced depth rest closing hparts (hbegins hparts)⟩
    rw [partsText_cons layout depth closing part hparts]
    simp only [List.append_assoc]

/-- The first part and the others are apart. -/
theorem length_partsText_cons (closing : Char) (part : List Char) (parts : List (List Char)) :
    part.length + (partsText layout depth closing parts).length <
      (partsText layout depth closing (part :: parts)).length := by
  by_cases hparts : parts = []
  · subst hparts
    simp only [partsText, List.length_append, List.length_nil, List.length_singleton]
    omega
  · obtain ⟨count, hseparator⟩ := spaced.items
    rw [partsText_cons layout depth closing part hparts, hseparator]
    simp only [List.length_append, List.length_cons]
    omega

/-- The items of a list are read back up to its closing bracket. -/
theorem readItems_partsText {items : List (Value Float)} (hne : items ≠ [])
    (h : ∀ item ∈ items, ReadsBack layout item) (steps : ℕ)
    (hsteps : 2 * (partsText layout depth ']'
      ((renderItems layout (depth + 1) items).map String.toList)).length ≤ steps) :
    readItems steps (partsText layout depth ']'
      ((renderItems layout (depth + 1) items).map String.toList) ++ rest) = some (items, rest) := by
  induction items generalizing steps with
  | nil => exact absurd rfl hne
  | cons item items ih =>
      have hitem : ReadsBack layout item := h item List.mem_cons_self
      rw [renderItems, List.map_cons] at hsteps ⊢
      obtain ⟨follow, htext, hfollow⟩ := exists_follows spaced depth rest (.inl rfl)
        (render layout (depth + 1) item).toList (beginsPart_items layout depth items)
      -- one step is taken here, and the others are enough for the item and for those after it
      have hlength := length_partsText_cons spaced depth ']'
        (render layout (depth + 1) item).toList
        ((renderItems layout (depth + 1) items).map String.toList)
      obtain ⟨steps, rfl⟩ : ∃ before, steps = before + 1 :=
        Nat.exists_eq_succ_of_ne_zero (by omega)
      rw [htext, readItems, hitem (depth + 1) hfollow.ends (by omega)]
      cases items with
      | nil => simp [hfollow.last rfl]
      | cons other items =>
          obtain ⟨blank, hcomma, hskip⟩ := hfollow.others (List.cons_ne_nil _ _)
          have hother := ih (List.cons_ne_nil _ _) (fun own hown => h own (.tail _ hown)) steps
            (by omega)
          simp [hcomma, hskip, hother]

/-- A member is read back up to what follows its value. -/
theorem readMembers_member (own : Members Float) (key : String) {value : Value Float}
    (h : ReadsBack layout value) (hrest : EndsNumeral rest) {steps : ℕ}
    (hsteps : 2 * (render layout depth value).toList.length ≤ steps) :
    readMembers (steps + 1) own
        ((textLiteral key ++ layout.keySeparator ++ render layout depth value).toList ++ rest) =
      match skipSpace rest with
      | ',' :: rest => readMembers steps (own.set key value) (skipSpace rest)
      | '\x7d' :: rest => some (own.set key value, rest)
      | _ => none := by
  obtain ⟨count, hseparator⟩ := spaced.keys
  have hvalue := h depth hrest hsteps
  have hbegins := (beginsPart_render layout depth value).append rest
  have htext : (textLiteral key ++ layout.keySeparator ++ render layout depth value).toList ++
      rest = (textLiteral key).toList ++
        (':' :: (List.replicate count ' ' ++ ((render layout depth value).toList ++ rest))) := by
    simp [hseparator]
  rw [htext]
  generalize (render layout depth value).toList ++ rest = text at hvalue hbegins
  obtain ⟨characters, hliteral, hread⟩ := readText_textLiteral key
    (':' :: (List.replicate count ' ' ++ text))
  rw [hliteral, readMembers, hread]
  show (readValue steps (skipSpace (List.replicate count ' ' ++ text))).bind _ = _
  rw [hbegins.skipSpace (isSpace_of_mem_replicate count), hvalue]
  rfl

/-- The members of an object are read back up to its closing bracket. -/
theorem readMembers_partsText {members : Members Float} (hne : members ≠ [])
    (h : ∀ entry ∈ members, ReadsBack layout entry.2) (own : Members Float) (steps : ℕ)
    (hsteps : 2 * (partsText layout depth '\x7d'
      ((renderMembers layout (depth + 1) members).map String.toList)).length ≤ steps) :
    readMembers steps own (partsText layout depth '\x7d'
        ((renderMembers layout (depth + 1) members).map String.toList) ++ rest) =
      some (own.merge members, rest) := by
  induction members generalizing own steps with
  | nil => exact absurd rfl hne
  | cons entry members ih =>
      obtain ⟨key, value⟩ := entry
      have hvalue : ReadsBack layout value := h (key, value) List.mem_cons_self
      rw [renderMembers, List.map_cons] at hsteps ⊢
      have hlength := length_partsText_cons spaced depth '\x7d'
        (textLiteral key ++ layout.keySeparator ++ render layout (depth + 1) value).toList
        ((renderMembers layout (depth + 1) members).map String.toList)
      have hpart : (render layout (depth + 1) value).toList.length ≤
          (textLiteral key ++ layout.keySeparator ++
            render layout (depth + 1) value).toList.length := by
        simp only [String.toList_append, List.length_append]
        omega
      obtain ⟨follow, htext, hfollow⟩ := exists_follows spaced depth rest (.inr rfl)
        (textLiteral key ++ layout.keySeparator ++ render layout (depth + 1) value).toList
        (beginsPart_members layout depth members)
      obtain ⟨steps, rfl⟩ : ∃ before, steps = before + 1 :=
        Nat.exists_eq_succ_of_ne_zero (by omega)
      rw [htext, readMembers_member spaced (depth + 1) follow own key hvalue hfollow.ends
        (by omega)]
      cases members with
      | nil =>
          rw [hfollow.last rfl]
          rfl
      | cons other members =>
          obtain ⟨blank, hcomma, hskip⟩ := hfollow.others (List.cons_ne_nil _ _)
          have hother := ih (List.cons_ne_nil _ _) (fun own hown => h own (.tail _ hown))
            (own.set key value) steps (by omega)
          rw [hcomma]
          show readMembers steps (own.set key value) (skipSpace blank) = _
          rw [hskip, hother]
          rfl

end Parts

/-! ## Documents -/

theorem itemsHaveText_iff {R : Type} {items : List (Value R)} :
    Value.itemsHaveText items = true ↔ ∀ item ∈ items, item.hasText = true := by
  induction items with
  | nil => simp [Value.itemsHaveText]
  | cons item items ih => simp [Value.itemsHaveText, ih]

theorem membersHaveText_iff {R : Type} {members : Members R} :
    Value.membersHaveText members = true ↔ ∀ entry ∈ members, entry.2.hasText = true := by
  induction members with
  | nil => simp [Value.membersHaveText]
  | cons entry members ih => simp [Value.membersHaveText, ih]

section Documents

variable {layout : Layout} {value : Value Float}

theorem readsBack_atom {text : String} (hrender : ∀ depth, render layout depth value = text)
    {c : Char} {tail : List Char} (htext : text.toList = c :: tail)
    (hc : c ≠ '\x22' ∧ c ≠ '[' ∧ c ≠ '\x7b')
    (hread : ∀ {rest}, EndsNumeral rest → readAtom (text.toList ++ rest) = some (value, rest)) :
    ReadsBack layout value := by
  intro depth rest hrest steps hsteps
  rw [hrender, htext, List.length_cons] at hsteps
  obtain ⟨steps, rfl⟩ : ∃ before, steps = before + 1 :=
    Nat.exists_eq_succ_of_ne_zero (by omega)
  rw [hrender, htext, List.cons_append, readValue_of_head steps hc.1 hc.2.1 hc.2.2,
    ← List.cons_append, ← htext, hread hrest]

theorem length_render_pos (layout : Layout) (depth : ℕ) (value : Value Float) :
    0 < (render layout depth value).toList.length := by
  obtain ⟨c, tail, htext, -⟩ := beginsPart_render layout depth value
  rw [htext]
  exact Nat.succ_pos _

theorem readsBack_list (spaced : layout.IsSpaced) {items : List (Value Float)}
    (h : ∀ item ∈ items, ReadsBack layout item) : ReadsBack layout (.list items) := by
  intro depth rest _ steps hsteps
  have hpos := length_render_pos layout depth (.list items)
  obtain ⟨steps, rfl⟩ : ∃ before, steps = before + 1 :=
    Nat.exists_eq_succ_of_ne_zero (by omega)
  cases items with
  | nil =>
      have htext : (render layout depth (.list [])).toList = ['[', ']'] := by
        simp [render, renderItems, Layout.bracketed]
      rw [htext]
      rfl
  | cons item items =>
      have htext := toList_bracketed layout depth (show "[".toList = ['['] from rfl)
        (show "]".toList = [']'] from rfl)
        (show renderItems layout (depth + 1) (item :: items) ≠ [] from List.cons_ne_nil _ _)
      have hbegins := (beginsPart_items layout depth (item :: items) (List.cons_ne_nil _ _)).append
        rest
      rw [render, htext, List.length_cons, List.length_append] at hsteps
      rw [render, htext, List.cons_append, List.append_assoc,
        readValue_opening hbegins (isSpace_of_mem_lineBreak layout (depth + 1)),
        readItems_partsText spaced depth rest (List.cons_ne_nil _ _) h steps (by omega)]
      rfl

theorem readsBack_object (spaced : layout.IsSpaced) {members : Members Float}
    (distinct : members.keys.Nodup) (h : ∀ entry ∈ members, ReadsBack layout entry.2) :
    ReadsBack layout (.object members) := by
  intro depth rest _ steps hsteps
  have hpos := length_render_pos layout depth (.object members)
  obtain ⟨steps, rfl⟩ : ∃ before, steps = before + 1 :=
    Nat.exists_eq_succ_of_ne_zero (by omega)
  cases members with
  | nil =>
      have htext : (render layout depth (.object [])).toList = ['\x7b', '\x7d'] := by
        simp [render, renderMembers, Layout.bracketed]
      rw [htext]
      rfl
  | cons entry members =>
      obtain ⟨key, value⟩ := entry
      have htext := toList_bracketed layout depth (show "\x7b".toList = ['\x7b'] from rfl)
        (show "\x7d".toList = ['\x7d'] from rfl)
        (show renderMembers layout (depth + 1) ((key, value) :: members) ≠ [] from
          List.cons_ne_nil _ _)
      have hbegins := (beginsPart_members layout depth ((key, value) :: members)
        (List.cons_ne_nil _ _)).append rest
      -- with distinct keys no member takes the place of another
      have hown : Members.merge [] ((key, value) :: members) = (key, value) :: members :=
        Members.merge_eq_append distinct fun _ _ => List.not_mem_nil
      rw [render, htext, List.length_cons, List.length_append] at hsteps
      rw [render, htext, List.cons_append, List.append_assoc,
        readValue_openingBrace hbegins (isSpace_of_mem_lineBreak layout (depth + 1)),
        readMembers_partsText spaced depth rest (List.cons_ne_nil _ _) h [] steps (by omega), hown]
      rfl

/-- A value that has a text is read back from it. -/
theorem readsBack (spaced : layout.IsSpaced) (keyed : value.IsKeyed) (fit : value.hasText = true) :
    ReadsBack layout value := by
  -- the parts of a value come with its keys, and each part has a text of its own
  induction keyed with
  | null =>
      exact readsBack_atom (fun _ => rfl) (show "null".toList = 'n' :: _ by simp; rfl) (by decide)
        fun _ => readAtom_name (by simp [names])
  | bool b =>
      cases b with
      | false =>
          exact readsBack_atom (fun _ => rfl) (show "false".toList = 'f' :: _ by simp; rfl)
            (by decide) fun _ => readAtom_name (by simp [names])
      | true =>
          exact readsBack_atom (fun _ => rfl) (show "true".toList = 't' :: _ by simp; rfl)
            (by decide) fun _ => readAtom_name (by simp [names])
  | num n =>
      obtain ⟨c, tail, htext, hc⟩ := exists_head_numberLiteral n
      obtain ⟨-, -, -, hhead⟩ := head_atom hc
      exact readsBack_atom (fun _ => rfl) htext hhead fun hrest => readAtom_numberLiteral fit hrest
  | text s =>
      intro depth rest _ steps hsteps
      have hpos := length_render_pos layout depth (.text s)
      obtain ⟨steps, rfl⟩ : ∃ before, steps = before + 1 :=
        Nat.exists_eq_succ_of_ne_zero (by omega)
      obtain ⟨characters, htext, hread⟩ := readText_textLiteral s rest
      rw [render, htext, readValue, hread]
      rfl
  | list _ ih =>
      exact readsBack_list spaced fun item hitem =>
        ih item hitem (itemsHaveText_iff.mp fit item hitem)
  | object distinct _ ih =>
      exact readsBack_object spaced distinct fun entry hentry =>
        ih entry hentry (membersHaveText_iff.mp fit entry hentry)

/-- **What is written is read back.**  Blanks around the text are passed over. -/
theorem parse?_of_toList_eq (spaced : layout.IsSpaced) (keyed : value.IsKeyed)
    (fit : value.hasText = true) {text : String} {blank : List Char}
    (htext : text.toList = (write layout value).toList ++ blank)
    (hblank : ∀ c ∈ blank, isSpace c = true) : parse? text = some value := by
  have hbegins : BeginsPart ((write layout value).toList ++ blank) :=
    (beginsPart_render layout 0 value).append blank
  have hskip : skipSpace text.toList = (write layout value).toList ++ blank := by
    rw [htext]
    exact hbegins.skipSpace (List.forall_mem_nil _)
  have hnone : EndsNumeral [] := nofun
  have hends : EndsNumeral blank := List.append_nil blank ▸ endsNumeral_append hblank hnone
  have hread : readValue (2 * ((write layout value).toList ++ blank).length + 2)
      ((write layout value).toList ++ blank) = some (value, blank) :=
    readsBack spaced keyed fit 0 hends (by rw [List.length_append]; unfold write; omega)
  have hrest : skipSpace blank = [] := List.dropWhile_eq_nil_iff.mpr hblank
  unfold parse?
  rw [hskip]
  dsimp only
  rw [hread]
  dsimp only
  rw [hrest]
  rfl

/-- **What is written is read back.** -/
theorem parse?_write (spaced : layout.IsSpaced) (keyed : value.IsKeyed)
    (fit : value.hasText = true) : parse? (write layout value) = some value :=
  parse?_of_toList_eq spaced keyed fit (List.append_nil _).symm nofun

end Documents

end Json

end MotionScene
