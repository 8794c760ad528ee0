import Mathlib.Data.List.Basic
import MotionScene.Shape.Binding

/-!
# The nearest modifiers

Two passes over a shape list bind modifiers to outlines, one from each end.  What they
bind to an outline is told by the entries behind it and those before it alone: of each kind
the first one behind, and where there is none the last one before
(`of_boundBetween`).  In terms of places in the list, this is the entry of the kind with the
least place after the outline, else the one with the greatest place before it
(`bindModifiers_binds_nearest`).
-/

namespace MotionScene

variable {α : Type}

/-- Whether entries of this kind modify outlines. -/
def ShapeKind.isModifier : ShapeKind → Bool
  | fill | stroke | trim | repeater => true
  | _ => false

/-! ## The first of each kind -/

section Modifiers

variable {kind other : ShapeKind}

theorem Modifiers.of_empty : (Modifiers.empty : Modifiers α).of kind = none := by
  cases kind <;> rfl

theorem Modifiers.of_put (hkind : kind.isModifier = true) (modifiers : Modifiers α) (entry : α) :
    (modifiers.put other entry).of kind =
      if other = kind then some entry else modifiers.of kind := by
  cases kind <;> cases other <;> first | rfl | cases hkind

theorem Modifiers.of_orElse (first second : Modifiers α) :
    (first.orElse second).of kind = (first.of kind).or (second.of kind) := by
  cases kind <;> first | rfl | exact Option.orElse_eq_or

/-- Seen from the front, the nearest entry of a kind is the first one of the list. -/
theorem of_following (hkind : kind.isModifier = true) (entries : List (ShapeKind × α)) :
    (following entries).2.of kind = (entries.find? (·.1 = kind)).map (·.2) := by
  induction entries with
  | nil => exact Modifiers.of_empty
  | cons first rest ih =>
      obtain ⟨own, entry⟩ := first
      rw [following, Modifiers.of_put hkind, ih]
      by_cases h : own = kind
      · rw [if_pos h, List.find?_cons_of_pos (by simpa using h), Option.map_some]
      · rw [if_neg h, List.find?_cons_of_neg (by simpa using h)]

end Modifiers

/-! ## What is bound between two lists -/

/-- The modifiers that are bound to an outline with some entries before and some behind it. -/
def boundBetween (before after : List (ShapeKind × α)) : Modifiers α :=
  (following after).2.orElse (following before.reverse).2

theorem of_boundBetween {kind : ShapeKind} (hkind : kind.isModifier = true)
    (before after : List (ShapeKind × α)) :
    (boundBetween before after).of kind =
      ((after.find? (·.1 = kind)).or (before.reverse.find? (·.1 = kind))).map (·.2) := by
  rw [boundBetween, Modifiers.of_orElse, of_following hkind, of_following hkind, Option.map_or]

section Places

variable (before after : List (ShapeKind × α)) (entry : ShapeKind × α)

theorem getElem?_following : (following (before ++ entry :: after)).1[before.length]? =
    some (following after).2 := by
  induction before with
  | nil => rfl
  | cons first rest ih => exact ih

/-- The pass from the front has seen the entries before a place, the last one first. -/
theorem getElem?_preceding (nearest : Modifiers α) :
    (preceding nearest (before ++ entry :: after))[before.length]? =
      some (before.foldl (fun modifiers first => modifiers.put first.1 first.2) nearest) := by
  induction before generalizing nearest with
  | nil => rfl
  | cons first rest ih => exact ih _

theorem foldl_put_eq_following :
    before.foldl (fun modifiers first => modifiers.put first.1 first.2) .empty =
      (following before.reverse).2 := by
  have hfoldr : ∀ entries : List (ShapeKind × α), (following entries).2 =
      entries.foldr (fun first modifiers => modifiers.put first.1 first.2) .empty := by
    intro entries
    induction entries with
    | nil => rfl
    | cons first rest ih => exact congrArg (Modifiers.put · first.1 first.2) ih
  rw [hfoldr, List.foldr_reverse]

theorem getElem?_bindModifiers : (bindModifiers (before ++ entry :: after))[before.length]? =
    some (if entry.1.isGeometry then some (boundBetween before after) else none) := by
  have hkind : ((before ++ entry :: after).map (·.1))[before.length]? = some entry.1 := by
    rw [List.getElem?_map, List.getElem?_append_right (Nat.le_refl _), Nat.sub_self]
    rfl
  refine List.getElem?_zipWith_eq_some.mpr ⟨_, boundBetween before after, hkind, ?_, rfl⟩
  refine List.getElem?_zipWith_eq_some.mpr ⟨_, _, getElem?_following before after entry,
    getElem?_preceding before after entry .empty, ?_⟩
  rw [foldl_put_eq_following, boundBetween]

end Places

/-! ## Places in a list -/

/-- An entry is the one of its kind with the least place after a given one. -/
def FollowsNext (entries : List (ShapeKind × α)) (place : Nat) (kind : ShapeKind) (entry : α) :
    Prop :=
  ∃ next, place < next ∧ entries[next]? = some (kind, entry) ∧
    ∀ between other, place < between → between < next → entries[between]? ≠ some (kind, other)

/-- An entry is the one of its kind with the greatest place before a given one. -/
def PrecedesLast (entries : List (ShapeKind × α)) (place : Nat) (kind : ShapeKind) (entry : α) :
    Prop :=
  ∃ last, last < place ∧ entries[last]? = some (kind, entry) ∧
    ∀ between other, last < between → between < place → entries[between]? ≠ some (kind, other)

section First

variable {entries before after : List (ShapeKind × α)} {kind : ShapeKind} {entry : α}
  {outline : ShapeKind × α}

/-- The first entry of a kind is the one with the least place. -/
theorem find?_kind_eq_some : (entries.find? (·.1 = kind)).map (·.2) = some entry ↔
    ∃ first : Nat, entries[first]? = some (kind, entry) ∧
      ∀ (earlier : Nat) (other : α), earlier < first → entries[earlier]? ≠ some (kind, other) := by
  rw [Option.map_eq_some_iff]
  constructor
  · rintro ⟨⟨own, entry⟩, hfind, rfl⟩
    obtain ⟨hkind, first, hlt, hfirst, hnone⟩ := List.find?_eq_some_iff_getElem.mp hfind
    obtain rfl : own = kind := of_decide_eq_true hkind
    refine ⟨first, List.getElem?_eq_some_iff.mpr ⟨hlt, hfirst⟩, fun earlier other h hother => ?_⟩
    obtain ⟨_, hother⟩ := List.getElem?_eq_some_iff.mp hother
    have hkind := hnone earlier h
    rw [hother] at hkind
    simp at hkind
  · rintro ⟨first, hfirst, hnone⟩
    obtain ⟨hlt, hget⟩ := List.getElem?_eq_some_iff.mp hfirst
    refine ⟨(kind, entry), List.find?_eq_some_iff_getElem.mpr ⟨decide_eq_true rfl, first, hlt,
      hget, fun earlier h => ?_⟩, rfl⟩
    rw [Bool.not_eq_true', decide_eq_false_iff_not]
    intro hkind
    exact hnone earlier entries[earlier].2 h
      (List.getElem?_eq_some_iff.mpr ⟨Nat.lt_trans h hlt, Prod.ext hkind rfl⟩)

theorem find?_kind_eq_none : (entries.find? (·.1 = kind)).map (·.2) = none ↔
    ∀ entry ∈ entries, entry.1 ≠ kind := by
  simp only [Option.map_eq_none_iff, List.find?_eq_none, decide_eq_true_iff, ne_eq]

theorem getElem?_behind (offset : Nat) :
    (before ++ outline :: after)[before.length + 1 + offset]? = after[offset]? := by
  rw [List.getElem?_append_right (by omega)]
  have hsub : before.length + 1 + offset - before.length = offset + 1 := by omega
  rw [hsub, List.getElem?_cons_succ]

theorem followsNext_iff : FollowsNext (before ++ outline :: after) before.length kind entry ↔
    (after.find? (·.1 = kind)).map (·.2) = some entry := by
  rw [find?_kind_eq_some]
  constructor
  · rintro ⟨next, hafter, hnext, hnone⟩
    obtain ⟨first, rfl⟩ := Nat.exists_eq_add_of_le (Nat.succ_le_of_lt hafter)
    refine ⟨first, (getElem?_behind first).symm.trans hnext, fun earlier other h => ?_⟩
    rw [← getElem?_behind earlier]
    exact hnone _ other (by omega) (by omega)
  · rintro ⟨first, hfirst, hnone⟩
    refine ⟨before.length + 1 + first, by omega, (getElem?_behind first).trans hfirst,
      fun between other hafter hbefore => ?_⟩
    obtain ⟨earlier, rfl⟩ := Nat.exists_eq_add_of_le (Nat.succ_le_of_lt hafter)
    rw [getElem?_behind earlier]
    exact hnone earlier other (by omega)

theorem precedesLast_iff : PrecedesLast (before ++ outline :: after) before.length kind entry ↔
    (before.reverse.find? (·.1 = kind)).map (·.2) = some entry := by
  have hahead : ∀ place, place < before.length →
      (before ++ outline :: after)[before.length - 1 - place]? = before.reverse[place]? := by
    intro place h
    rw [List.getElem?_append_left (by omega), List.getElem?_reverse h]
  rw [find?_kind_eq_some]
  constructor
  · rintro ⟨last, hbefore, hlast, hnone⟩
    have hmirror : before.length - 1 - (before.length - 1 - last) = last := by omega
    refine ⟨before.length - 1 - last, ?_, fun earlier other h => ?_⟩
    · rw [← hahead _ (by omega), hmirror, hlast]
    · rw [← hahead _ (by omega)]
      exact hnone _ other (by omega) (by omega)
  · rintro ⟨first, hfirst, hnone⟩
    have hlt : first < before.length := by
      have h := (List.getElem?_eq_some_iff.mp hfirst).1
      rwa [List.length_reverse] at h
    refine ⟨before.length - 1 - first, by omega, (hahead first hlt).trans hfirst,
      fun between other hafter hbefore => ?_⟩
    have hmirror : before.length - 1 - (before.length - 1 - between) = between := by omega
    rw [← hmirror, hahead _ (by omega)]
    exact hnone _ other (by omega)

theorem exists_split {place : Nat} (h : entries[place]? = some outline) :
    ∃ before after, entries = before ++ outline :: after ∧ before.length = place := by
  obtain ⟨hlt, rfl⟩ := List.getElem?_eq_some_iff.mp h
  refine ⟨entries.take place, entries.drop (place + 1), ?_,
    List.length_take_of_le (Nat.le_of_lt hlt)⟩
  rw [← List.drop_eq_getElem_cons hlt, List.take_append_drop]

theorem drop_split : (before ++ outline :: after).drop (before.length + 1) = after := by
  rw [List.append_cons]
  exact List.drop_left' (by rw [List.length_append, List.length_singleton])

end First

/-! ## The binding law -/

theorem length_bindModifiers (entries : List (ShapeKind × α)) :
    (bindModifiers entries).length = entries.length := by
  have hfollowing : (following entries).1.length = entries.length := by
    induction entries with
    | nil => rfl
    | cons first rest ih => exact congrArg (· + 1) ih
  have hpreceding : ∀ nearest : Modifiers α,
      (preceding nearest entries).length = entries.length := by
    clear hfollowing
    induction entries with
    | nil => exact fun _ => rfl
    | cons first rest ih => exact fun nearest => congrArg (· + 1) (ih _)
  rw [bindModifiers, List.length_zipWith, List.length_zipWith, List.length_map, hfollowing,
    hpreceding, Nat.min_self, Nat.min_self]

/-- An outline has the modifiers between the entries before it and those behind it. -/
theorem bound_iff {entries : List (ShapeKind × α)} {place : Nat} {modifiers : Modifiers α} :
    (bindModifiers entries)[place]? = some (some modifiers) ↔
      ∃ before outline after, entries = before ++ outline :: after ∧ before.length = place ∧
        outline.1.isGeometry = true ∧ modifiers = boundBetween before after := by
  constructor
  · intro h
    have hlt : place < entries.length := by
      rw [← length_bindModifiers]
      exact (List.getElem?_eq_some_iff.mp h).1
    obtain ⟨before, after, hsplit, rfl⟩ := exists_split (List.getElem?_eq_getElem hlt)
    rw [hsplit, getElem?_bindModifiers, Option.some_inj] at h
    split at h
    · rename_i hkind
      exact ⟨before, _, after, hsplit, rfl, hkind, (Option.some_inj.mp h).symm⟩
    · cases h
  · rintro ⟨before, outline, after, rfl, rfl, hkind, rfl⟩
    rw [getElem?_bindModifiers, if_pos hkind]

theorem ShapeKind.ne_of_isModifier {kind other : ShapeKind} (hkind : kind.isGeometry = true)
    (hother : other.isModifier = true) : kind ≠ other := by
  rintro rfl
  revert hkind hother
  cases kind <;> decide

/-- The modifiers of a kind do not depend on entries of other kinds. -/
theorem of_boundBetween_congr {kind : ShapeKind} (hkind : kind.isModifier = true)
    {before after before' after' : List (ShapeKind × α)}
    (hbefore : before'.filter (·.1 = kind) = before.filter (·.1 = kind))
    (hafter : after'.filter (·.1 = kind) = after.filter (·.1 = kind)) :
    (boundBetween before' after').of kind = (boundBetween before after).of kind := by
  simp only [of_boundBetween hkind, ← List.head?_filter, List.filter_reverse, hbefore, hafter]

/-- **Outlines take the nearest modifiers.**  Every entry of a shape list has a place among the
bound modifiers, and only outlines have modifiers there.  Of each kind of modifier an outline
has the next one behind it, where there is none behind it the last one before it, and where
there is none at all nothing.  Which one that is depends on the entries of this kind alone:
two outlines with the same entries of a kind before and behind them have the same modifier
of this kind, whatever else stands in their lists. -/
theorem bindModifiers_binds_nearest (entries : List (ShapeKind × α)) :
    (bindModifiers entries).length = entries.length ∧
    ∀ (place : Nat) (kind : ShapeKind) (own : α), entries[place]? = some (kind, own) →
      (kind.isGeometry = false → (bindModifiers entries)[place]? = some none) ∧
      (kind.isGeometry = true →
        ∃ modifiers, (bindModifiers entries)[place]? = some (some modifiers) ∧
        ∀ other : ShapeKind, other.isModifier = true →
          (∀ entry, modifiers.of other = some entry ↔
            FollowsNext entries place other entry ∨
              (∀ later ∈ entries.drop (place + 1), later.1 ≠ other) ∧
                PrecedesLast entries place other entry) ∧
          (modifiers.of other = none ↔ ∀ entry ∈ entries, entry.1 ≠ other) ∧
          ∀ (entries' : List (ShapeKind × α)) (place' : Nat) (modifiers' : Modifiers α),
            (bindModifiers entries')[place']? = some (some modifiers') →
            (entries'.take place').filter (·.1 = other) =
              (entries.take place).filter (·.1 = other) →
            (entries'.drop (place' + 1)).filter (·.1 = other) =
              (entries.drop (place + 1)).filter (·.1 = other) →
            modifiers'.of other = modifiers.of other) := by
  refine ⟨length_bindModifiers entries, fun place kind own hplace => ?_⟩
  obtain ⟨before, after, rfl, rfl⟩ := exists_split hplace
  rw [getElem?_bindModifiers]
  refine ⟨fun hkind => by rw [if_neg (Bool.eq_false_iff.mp hkind)], fun hkind => ?_⟩
  refine ⟨boundBetween before after, by rw [if_pos hkind], fun other hother => ?_⟩
  refine ⟨fun entry => ?_, ?_, ?_⟩
  · rw [of_boundBetween hother, Option.map_or, Option.or_eq_some_iff, followsNext_iff,
      precedesLast_iff, find?_kind_eq_none, drop_split]
  · have hne := ShapeKind.ne_of_isModifier hkind hother
    rw [of_boundBetween hother, Option.map_or, Option.or_eq_none_iff, find?_kind_eq_none,
      find?_kind_eq_none, List.forall_mem_append, List.forall_mem_cons]
    simp only [List.mem_reverse]
    exact ⟨fun h => ⟨h.2, hne, h.1⟩, fun h => ⟨h.2.2, h.1⟩⟩
  · intro entries' place' modifiers' hbound hbefore hafter
    obtain ⟨before', outline, after', rfl, rfl, -, rfl⟩ := bound_iff.mp hbound
    rw [List.take_left, List.take_left] at hbefore
    rw [drop_split, drop_split] at hafter
    exact of_boundBetween_congr hother hbefore hafter

/-! ## Modifiers before and behind -/

/-- A list with a rectangle behind two fills, a stroke and a trim, and before another fill. -/
def mixedEntries : List (ShapeKind × String) :=
  [(.fill, "first"), (.stroke, "line"), (.ellipse, "disc"), (.trim, "part"), (.fill, "second"),
    (.rect, "box"), (.unknown, "merge"), (.fill, "third")]

theorem bindModifiers_mixedEntries : mixedEntries[5]? = some (.rect, "box") ∧
    ∃ modifiers, (bindModifiers mixedEntries)[5]? = some (some modifiers) ∧
      modifiers.of .fill = some "third" ∧ modifiers.of .stroke = some "line" ∧
      modifiers.of .repeater = none := by
  obtain ⟨-, hplaces⟩ := bindModifiers_binds_nearest mixedEntries
  obtain ⟨-, hbound⟩ := hplaces 5 .rect "box" rfl
  obtain ⟨modifiers, hmodifiers, hkinds⟩ := hbound rfl
  refine ⟨rfl, modifiers, hmodifiers, ?_, ?_, ?_⟩
  · refine ((hkinds .fill rfl).1 "third").mpr
      (.inl ⟨7, by decide, rfl, fun between other h h' => ?_⟩)
    obtain rfl : between = 6 := by omega
    simp [mixedEntries]
  · refine ((hkinds .stroke rfl).1 "line").mpr (.inr ⟨by decide, 1, by decide, rfl,
      fun between other h h' => ?_⟩)
    obtain rfl | rfl | rfl : between = 2 ∨ between = 3 ∨ between = 4 := by omega
    all_goals simp [mixedEntries]
  · exact (hkinds .repeater rfl).2.1.mpr (by decide)

end MotionScene
