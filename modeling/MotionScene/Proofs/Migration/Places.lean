import MotionScene.Document.Adjust
import MotionScene.Proofs.Members

/-!
# Places in a document

A place is the way from the root of a value to a part of it, through the keys of objects and
the indices of lists.  Two values are the same but for some places (`SameBut`) if a walk
through both of them in parallel, which stops at these places, meets the same values: lists
of one length, objects with the keys that they had, and everything else unchanged.

The rules of this relation follow the ways in which a migration changes a value: a member at
a time (`sameBut_adjust`, `sameBut_set`), an item at a time (`SameBut.list`), or in several
steps (`SameBut.trans`).
-/

namespace MotionScene

/-- A step to a part of a value: to the member under a key or to the item at an index. -/
inductive Step where
  | key (key : String)
  | item (index : Nat)
  deriving DecidableEq, Repr

abbrev Place := List Step

variable {R : Type}

/-- What stands at a place of a value, if the place is there. -/
def Value.at? : Value R → Place → Option (Value R)
  | value, [] => some value
  | .object members, .key key :: rest => (Members.get? members key).bind (Value.at? · rest)
  | .list items, .item index :: rest => items[index]?.bind (Value.at? · rest)
  | _, _ :: _ => none

/-- A value and one of the same kind: a list of the same length, an object with the same keys
and perhaps some added ones, or the same value. -/
def SameHead (added : String → Prop) (value result : Value R) : Prop :=
  match value with
  | .list items => ∃ own, result = .list own ∧ own.length = items.length
  | .object members => ∃ own : Members R, result = .object own ∧
      (∀ key, Members.has members key = true → own.has key = true) ∧
      ∀ key, own.has key = true → Members.has members key = true ∨ added key
  | value => result = value

/-- Two values that are the same but for the named places and all below them. -/
def SameBut (named : Place → Prop) (value result : Value R) : Prop :=
  ∀ place, (∀ part, part <+: place → ¬ named part) → ∀ found, value.at? place = some found →
    ∃ own, result.at? place = some own ∧
      SameHead (fun key => named (place ++ [.key key])) found own

namespace SameHead

variable {added : String → Prop} {first second third : Value R}

theorem refl (value : Value R) : SameHead added value value := by
  cases value with
  | list items => exact ⟨items, rfl, rfl⟩
  | object members => exact ⟨members, rfl, fun _ => id, fun _ => .inl⟩
  | _ => rfl

theorem trans (h : SameHead added first second) (h' : SameHead added second third) :
    SameHead added first third := by
  cases first with
  | list items =>
      obtain ⟨own, rfl, hown⟩ := h
      obtain ⟨more, rfl, hmore⟩ := h'
      exact ⟨more, rfl, hmore.trans hown⟩
  | object members =>
      obtain ⟨own, rfl, hkept, hadded⟩ := h
      obtain ⟨more, rfl, hkept', hadded'⟩ := h'
      refine ⟨more, rfl, fun key hkey => hkept' key (hkept key hkey), fun key hkey => ?_⟩
      exact (hadded' key hkey).elim (hadded key) .inr
  | _ =>
      cases h
      exact h'

theorem mono {more : String → Prop} (h : ∀ key, added key → more key)
    (same : SameHead added first second) : SameHead more first second := by
  cases first with
  | object members =>
      obtain ⟨own, rfl, hkept, hadded⟩ := same
      exact ⟨own, rfl, hkept, fun key hkey => (hadded key hkey).imp_right (h key)⟩
  | _ => exact same

end SameHead

namespace SameBut

variable {named : Place → Prop} {first second third : Value R}

theorem refl (value : Value R) : SameBut named value value :=
  fun _ _ found hfound => ⟨found, hfound, .refl found⟩

theorem trans (h : SameBut named first second) (h' : SameBut named second third) :
    SameBut named first third := by
  intro place unnamed found hfound
  obtain ⟨own, hown, hsame⟩ := h place unnamed found hfound
  obtain ⟨more, hmore, hsame'⟩ := h' place unnamed own hown
  exact ⟨more, hmore, hsame.trans hsame'⟩

theorem mono {more : Place → Prop} (h : ∀ place, named place → more place)
    (same : SameBut named first second) : SameBut more first second := by
  intro place unnamed found hfound
  obtain ⟨own, hown, hsame⟩ := same place (fun part hpart => mt (h part) (unnamed part hpart))
    found hfound
  exact ⟨own, hown, hsame.mono fun key => h _⟩

/-- A value that may change as a whole. -/
theorem of_named (h : named []) (value result : Value R) : SameBut named value result :=
  fun _ unnamed _ _ => absurd h (unnamed [] List.nil_prefix)

/-- What is unnamed below a step. -/
theorem unnamed_below {step : Step} {rest : Place}
    (unnamed : ∀ part, part <+: step :: rest → ¬ named part) :
    ∀ part, part <+: rest → ¬ named (step :: part) :=
  fun part hpart => unnamed (step :: part) (List.cons_prefix_cons.mpr ⟨rfl, hpart⟩)

theorem list {items own : List (Value R)} (hlength : own.length = items.length)
    (hitem : ∀ index item changed, items[index]? = some item → own[index]? = some changed →
      SameBut (fun rest => named (.item index :: rest)) item changed) :
    SameBut named (.list items) (.list own) := by
  intro place unnamed found hfound
  match place with
  | [] =>
      cases hfound
      exact ⟨_, rfl, own, rfl, hlength⟩
  | .key _ :: _ => cases hfound
  | .item index :: rest =>
      obtain ⟨item, hindex, hfound⟩ := Option.bind_eq_some_iff.mp hfound
      obtain ⟨hlt, -⟩ := List.getElem?_eq_some_iff.mp hindex
      have hchanged : own[index]? = some (own.get ⟨index, hlength.symm ▸ hlt⟩) :=
        List.getElem?_eq_getElem _
      obtain ⟨result, hresult, hsame⟩ :=
        hitem index item _ hindex hchanged rest (unnamed_below unnamed) found hfound
      exact ⟨result, Option.bind_eq_some_iff.mpr ⟨_, hchanged, hresult⟩, hsame⟩

/-- Lists with related items in their places. -/
theorem of_forall₂ {related : Value R → Value R → Prop} {items own : List (Value R)}
    (h : List.Forall₂ related items own)
    (hitem : ∀ index item changed, items[index]? = some item → related item changed →
      SameBut (fun rest => named (.item index :: rest)) item changed) :
    SameBut named (.list items) (.list own) := by
  refine list h.length_eq.symm fun index item changed hindex hchanged => ?_
  obtain ⟨other, hother, hrelated⟩ := exists_of_rel_left (forall₂_getElem? h index) hindex
  rw [hchanged] at hother
  cases hother
  exact hitem index item changed hindex hrelated

theorem object {members own : Members R}
    (hkept : ∀ key value, members.get? key = some value → ∃ result, own.get? key = some result ∧
      SameBut (fun rest => named (.key key :: rest)) value result)
    (hadded : ∀ key, members.get? key = none → own.get? key ≠ none → named [.key key]) :
    SameBut named (.object members) (.object own) := by
  intro place unnamed found hfound
  match place with
  | [] =>
      cases hfound
      refine ⟨_, rfl, own, rfl, fun key hkey => ?_, fun key hkey => ?_⟩
      · obtain ⟨value, hvalue⟩ := Option.isSome_iff_exists.mp hkey
        obtain ⟨result, hresult, -⟩ := hkept key value hvalue
        exact Option.isSome_iff_exists.mpr ⟨result, hresult⟩
      · cases hget : members.get? key with
        | some value => exact .inl (Option.isSome_iff_exists.mpr ⟨value, hget⟩)
        | none => exact .inr (hadded key hget (Option.isSome_iff_ne_none.mp hkey))
  | .item _ :: _ => cases hfound
  | .key key :: rest =>
      obtain ⟨value, hvalue, hfound⟩ := Option.bind_eq_some_iff.mp hfound
      obtain ⟨changed, hchanged, hsame⟩ := hkept key value hvalue
      obtain ⟨result, hresult, hhead⟩ := hsame rest (unnamed_below unnamed) found hfound
      exact ⟨result, Option.bind_eq_some_iff.mpr ⟨changed, hchanged, hresult⟩, hhead⟩

/-- Objects that differ in one member only. -/
theorem member {key : String} {members own : Members R}
    (hother : ∀ other, key ≠ other → own.get? other = members.get? other)
    (hkey : ∀ value, members.get? key = some value → ∃ result, own.get? key = some result ∧
      SameBut (fun rest => named (.key key :: rest)) value result)
    (hadded : members.get? key = none → own.get? key ≠ none → named [.key key]) :
    SameBut named (.object members) (.object own) := by
  refine object (fun other value hvalue => ?_) fun other hnone hsome => ?_
  · by_cases h : key = other
    · subst h
      exact hkey value hvalue
    · exact ⟨value, (hother other h).trans hvalue, refl value⟩
  · by_cases h : key = other
    · subst h
      exact hadded hnone hsome
    · exact absurd ((hother other h).trans hnone) hsome

end SameBut

/-! ## Changes of parts -/

section Changes

variable {named : Place → Prop}

theorem sameBut_set {members : Members R} {key : String} (h : named [.key key])
    (value : Value R) : SameBut named (.object members) (.object (members.set key value)) :=
  .member (fun _ hother => Members.get?_set_of_ne members value hother)
    (fun own _ => ⟨value, Members.get?_set_self members key value, .of_named h own value⟩)
    (fun _ _ => h)

theorem sameBut_adjust {key : String} {change : Change (Value R)} {members result : Members R}
    (adjusted : members.adjust key change = .ok result)
    (hchange : ∀ value own, members.get? key = some value → change value = .ok own →
      SameBut (fun rest => named (.key key :: rest)) value own) :
    SameBut named (.object members) (.object result) := by
  have hrel := Members.rel_adjust adjusted
  refine .member (fun _ hother => Members.get?_adjust_of_ne adjusted hother)
    (fun value hvalue => ?_) fun hnone hsome => ?_
  · obtain ⟨own, hown, hchanged⟩ := exists_of_rel_left hrel hvalue
    exact ⟨own, hown, hchange value own hvalue hchanged⟩
  · rw [hnone] at hrel
    generalize Members.get? result key = own? at hrel hsome
    cases hrel
    exact absurd rfl hsome

theorem sameBut_adjustMembers {change : Change (Members R)} {value result : Value R}
    (adjusted : value.adjustMembers change = .ok result)
    (hchange : ∀ members own, value = .object members → change members = .ok own →
      SameBut named (.object members) (.object own)) : SameBut named value result := by
  cases value with
  | object members =>
      obtain ⟨own, hown, rfl⟩ := map_eq_ok.mp adjusted
      exact hchange members own rfl hown
  | _ =>
      cases adjusted
      exact .refl _

theorem sameBut_adjustMember {key : String} {change : Change (Value R)} {value result : Value R}
    (adjusted : value.adjustMember key change = .ok result)
    (hchange : ∀ (members : Members R) own changed, value = .object members →
      members.get? key = some own → change own = .ok changed → SameBut (fun rest => named (.key key :: rest)) own changed) :
    SameBut named value result :=
  sameBut_adjustMembers adjusted fun members _ hmembers hadjusted =>
    sameBut_adjust hadjusted fun own changed => hchange members own changed hmembers

theorem sameBut_adjustItems {change : Change (Value R)} {value result : Value R}
    (adjusted : value.adjustItems change = .ok result)
    (hchange : ∀ items index item changed, value = .list items → items[index]? = some item →
      change item = .ok changed → SameBut (fun rest => named (.item index :: rest)) item changed) :
    SameBut named value result := by
  cases value with
  | list items =>
      obtain ⟨own, hown, rfl⟩ := map_eq_ok.mp adjusted
      exact .of_forall₂ (mapM_eq_ok.mp hown) fun index item changed hitem =>
        hchange items index item changed rfl hitem
  | _ =>
      cases adjusted
      exact .refl _

theorem sameBut_adjustFirst {change : Change (Value R)} {value result : Value R}
    (adjusted : value.adjustFirst change = .ok result)
    (hchange : ∀ first rest changed, value = .list (first :: rest) → change first = .ok changed →
      SameBut (fun rest => named (.item 0 :: rest)) first changed) : SameBut named value result := by
  unfold Value.adjustFirst at adjusted
  split at adjusted
  · rename_i first rest
    obtain ⟨changed, hchanged, hpure⟩ := bind_eq_ok.mp adjusted
    obtain rfl := pure_eq_ok.mp hpure
    refine .list rfl fun index item own hitem hown => ?_
    cases index with
    | zero =>
        cases hitem
        cases hown
        exact hchange first rest changed rfl hchanged
    | succ index =>
        obtain rfl : item = own := Option.some.inj (hitem.symm.trans hown)
        exact .refl item
  · cases adjusted
    exact .refl _

end Changes

end MotionScene
