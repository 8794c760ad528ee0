import MotionScene.Migration.Layers
import MotionScene.Proofs.Fault.Ends
import MotionScene.Proofs.Members

/-!
# Flaws of a document

A document may hold any value under any key, and nearly every value that makes no sense is
passed over.  A `Flaw` is a value for which this is not so: it has to be calculated with, or
looked up, or gone through, and cannot be.  Flaws belong to the objects that stand somewhere
in a value, and an object tells its flaws by itself (`Flaw.isIn`).

A value is `Excused` if the fault that flaws cause is admitted in case it has any.  A change
is `Safe` if it returns an excused value when given one, or fails with an admitted fault.
-/

namespace MotionScene

variable {R : Type}

/-- An object stands in a value: it is the value, or stands in an item or a member of it. -/
inductive StandsIn (inner : Members R) : Value R → Prop
  | here : StandsIn inner (.object inner)
  | item {items : List (Value R)} {item : Value R} (hitem : item ∈ items)
      (stands : StandsIn inner item) : StandsIn inner (.list items)
  | member {members : Members R} {entry : String × Value R} (hentry : entry ∈ members)
      (stands : StandsIn inner entry.2) : StandsIn inner (.object members)

/-! ## Flaws -/

namespace Value

/-- Lists and objects have parts and cannot be looked up. -/
def isCompound : Value R → Bool
  | list _ | object _ => true
  | _ => false

/-- Whether a coordinate takes up another one. -/
def isAddable : Value R → Value R → Bool
  | text _, text _ | list _, list _ | list _, text _ | list _, object _ => true
  | x, y => x.quantity?.isSome && y.quantity?.isSome

/-- Whether the coordinates of a handle, as far as there are two, take up those of its vertex. -/
def fitsVertex (handle vertex : Value R) : Bool :=
  ((handle.items.zip vertex.items).take 2).all fun pair => pair.1.isAddable pair.2

/-- Whether each handle of a list fits the vertex in its place. -/
def fitVertices (handles vertices : Value R) : Bool :=
  (handles.items.zip vertices.items).all fun pair => pair.1.fitsVertex pair.2

/-- Whether a value holds and is no number. -/
def isStrange [Scalar R] (value : Value R) : Bool :=
  value.holds && value.quantity?.isNone

end Value

/-- Whether layers of a kind leave an element. -/
def LayerKind.leavesElement : LayerKind → Bool
  | shape | null | precomp | solid => true
  | _ => false

/-- The ways in which an object holds a value that does not fit what the object is. -/
inductive Flaw where
  /-- A layer that is flagged to have masks has a number in the place of their list. -/
  | masks
  /-- Incoming handles of a bezier cannot be added to their vertices. -/
  | incoming
  /-- Outgoing handles of a bezier cannot be added to their vertices. -/
  | outgoing
  /-- A precomposition starts at something that is no number. -/
  | start
  /-- A solid is as wide as something that is no number. -/
  | width
  /-- A solid is as high as something that is no number. -/
  | height
  /-- A layer that leaves an element has a list or an object for its index. -/
  | index
  /-- A layer with an index names a list or an object as its parent. -/
  | parent
  /-- A stroke has a list or an object for the number of its line ends. -/
  | lineCap
  /-- A stroke has a list or an object for the number of its line corners. -/
  | lineJoin
  deriving DecidableEq

namespace Flaw

/-- The keys that tell whether an object has a flaw. -/
def keys : Flaw → List String
  | masks => ["hasMask", "masksProperties"]
  | incoming => ["i", "v"]
  | outgoing => ["o", "v"]
  | start => ["ty", "st"]
  | width => ["ty", "sw"]
  | height => ["ty", "sh"]
  | index => ["ty", "ind"]
  | parent => ["ty", "ind", "parent"]
  | lineCap => ["ty", "lc"]
  | lineJoin => ["ty", "lj"]

/-- Whether an object has a flaw. -/
def isIn [Scalar R] (members : Members R) : Flaw → Bool
  | masks => (members.get "hasMask").holds && (members.get "masksProperties").holds &&
      (members.get "masksProperties").quantity?.isSome
  | incoming => !(members.get "i").fitVertices (members.get "v")
  | outgoing => !(members.get "o").fitVertices (members.get "v")
  | start => LayerKind.ofCode (members.get "ty") = .precomp && (members.get "st").isStrange
  | width => LayerKind.ofCode (members.get "ty") = .solid && (members.get "sw").isStrange
  | height => LayerKind.ofCode (members.get "ty") = .solid && (members.get "sh").isStrange
  | index => (LayerKind.ofCode (members.get "ty")).leavesElement && (members.get "ind").isCompound
  | parent => (LayerKind.ofCode (members.get "ty")).leavesElement &&
      !(members.get "ind").isNull && (members.get "parent").isCompound
  | lineCap => ShapeKind.ofCode (members.get "ty") = .stroke && (members.get "lc").isCompound
  | lineJoin => ShapeKind.ofCode (members.get "ty") = .stroke && (members.get "lj").isCompound

theorem isIn_congr [Scalar R] {members result : Members R} (flaw : Flaw)
    (h : ∀ key ∈ flaw.keys, result.get key = members.get key) :
    flaw.isIn result = flaw.isIn members := by
  cases flaw with
  | parent =>
      rw [isIn, isIn, h "ty" (by decide), h "ind" (by decide), h "parent" (by decide)]
  | masks => rw [isIn, isIn, h "hasMask" (by decide), h "masksProperties" (by decide)]
  | incoming => rw [isIn, isIn, h "i" (by decide), h "v" (by decide)]
  | outgoing => rw [isIn, isIn, h "o" (by decide), h "v" (by decide)]
  | start => rw [isIn, isIn, h "ty" (by decide), h "st" (by decide)]
  | width => rw [isIn, isIn, h "ty" (by decide), h "sw" (by decide)]
  | height => rw [isIn, isIn, h "ty" (by decide), h "sh" (by decide)]
  | index => rw [isIn, isIn, h "ty" (by decide), h "ind" (by decide)]
  | lineCap => rw [isIn, isIn, h "ty" (by decide), h "lc" (by decide)]
  | lineJoin => rw [isIn, isIn, h "ty" (by decide), h "lj" (by decide)]

/-- The flaws that a key has to do with. -/
def concerning (key : String) : List Flaw :=
  [masks, incoming, outgoing, start, width, height, index, parent, lineCap, lineJoin].filter
    fun flaw => flaw.keys.contains key

theorem mem_concerning {flaw : Flaw} {key : String} (h : key ∈ flaw.keys) :
    flaw ∈ concerning key := by
  refine List.mem_filter.mpr ⟨?_, List.contains_iff_mem.mpr h⟩
  cases flaw <;> decide

end Flaw

section Flaws

variable [Scalar R] {admitted : Fault → Prop} {members result : Members R} {key : String}
  {value : Value R}

/-! ## Excused values -/

/-- The flaws of the objects in a value are excused by the fault that they cause. -/
def Excused (admitted : Fault → Prop) (value : Value R) : Prop :=
  ∀ inner, StandsIn inner value → ∀ flaw : Flaw, flaw.isIn inner = true → admitted .wrongKind

namespace Excused

theorem list_iff {items : List (Value R)} :
    Excused admitted (.list items) ↔ ∀ item ∈ items, Excused admitted item := by
  constructor
  · exact fun excused item hitem inner stands => excused inner (.item hitem stands)
  · rintro excused inner (_ | ⟨hitem, stands⟩)
    exact excused _ hitem inner stands

theorem object_iff : Excused admitted (.object members) ↔
    (∀ flaw : Flaw, flaw.isIn members = true → admitted .wrongKind) ∧
      ∀ entry ∈ members, Excused admitted entry.2 := by
  constructor
  · intro excused
    exact ⟨excused members .here, fun entry hentry inner stands =>
      excused inner (.member hentry stands)⟩
  · rintro ⟨own, entries⟩ inner (_ | _ | ⟨hentry, stands⟩)
    · exact own
    · exact entries _ hentry inner stands

/-- An object without a flaw of its own. -/
theorem of_plain (plain : ∀ flaw : Flaw, flaw.isIn members = false)
    (entries : ∀ entry ∈ members, Excused admitted entry.2) : Excused admitted (.object members) := by
  refine object_iff.mpr ⟨fun flaw h => ?_, entries⟩
  rw [plain flaw] at h
  cases h

theorem null : Excused admitted (.null : Value R) := fun _ stands => nomatch stands

theorem bool (b : Bool) : Excused admitted (.bool b : Value R) := fun _ stands => nomatch stands

theorem num (n : Number R) : Excused admitted (.num n) := fun _ stands => nomatch stands

theorem text (s : String) : Excused admitted (.text s : Value R) := fun _ stands => nomatch stands

theorem items (excused : Excused admitted value) : ∀ item ∈ value.items, Excused admitted item := by
  cases value with
  | list items => exact list_iff.mp excused
  | _ => exact fun _ h => nomatch h

theorem append {own more : List (Value R)} (hown : Excused admitted (.list own))
    (hmore : ∀ item ∈ more, Excused admitted item) : Excused admitted (.list (own ++ more)) :=
  list_iff.mpr (List.forall_mem_append.mpr ⟨list_iff.mp hown, hmore⟩)

theorem own (excused : Excused admitted (.object members)) (flaw : Flaw)
    (h : flaw.isIn members = true) : admitted .wrongKind :=
  (object_iff.mp excused).1 flaw h

theorem entries (excused : Excused admitted (.object members)) :
    ∀ entry ∈ members, Excused admitted entry.2 :=
  (object_iff.mp excused).2

theorem get (excused : Excused admitted (.object members)) (key : String) :
    Excused admitted (members.get key) := by
  rw [Members.get]
  cases h : members.get? key with
  | none => exact null
  | some value => exact excused.entries _ (Members.mem_of_get? h)

/-- Where one member has changed, the object has no flaws but those that it had and those
that the member has to do with. -/
theorem of_changed (excused : Excused admitted (.object members))
    (h : ∀ other, key ≠ other → result.get other = members.get other)
    (concerned : ∀ flaw ∈ Flaw.concerning key, flaw.isIn result = true → admitted .wrongKind)
    (entries : ∀ entry ∈ result, Excused admitted entry.2) : Excused admitted (.object result) := by
  refine object_iff.mpr ⟨fun flaw hflaw => ?_, entries⟩
  by_cases hkey : key ∈ flaw.keys
  · exact concerned flaw (Flaw.mem_concerning hkey) hflaw
  · refine excused.own flaw ?_
    rwa [← flaw.isIn_congr fun other hother => h other fun heq => hkey (heq ▸ hother)]

theorem set (excused : Excused admitted (.object members)) (hkey : Flaw.concerning key = [])
    (hvalue : Excused admitted value) : Excused admitted (.object (members.set key value)) := by
  refine excused.of_changed (fun other hne => Members.get_set_of_ne members value hne) ?_ ?_
  · simp [hkey]
  · intro entry hentry
    rcases Members.mem_set hentry with rfl | hentry
    · exact hvalue
    · exact excused.entries entry hentry

end Excused

/-! ## Safe changes -/

/-- A change keeps a value excused or fails with an admitted fault. -/
def Safe (admitted : Fault → Prop) (change : Change (Value R)) : Prop :=
  ∀ value, Excused admitted value → Ends admitted (Excused admitted) (change value)

/-- A change of members keeps their object excused or fails with an admitted fault. -/
def SafeMembers (admitted : Fault → Prop) (change : Change (Members R)) : Prop :=
  ∀ members, Excused admitted (.object members) →
    Ends admitted (fun result => Excused admitted (.object result)) (change members)

theorem SafeMembers.ite {change : Change (Members R)} (safe : SafeMembers admitted change)
    (due : Members R → Bool) :
    SafeMembers admitted fun members => if due members then change members else .ok members := by
  intro members excused
  dsimp only
  split
  · exact safe members excused
  · exact excused

theorem SafeMembers.bind {first second : Change (Members R)}
    (hfirst : SafeMembers admitted first) (hsecond : SafeMembers admitted second) :
    SafeMembers admitted (fun members => first members >>= second) :=
  fun members excused => (hfirst members excused).bind fun middle _ hmiddle =>
    hsecond middle hmiddle

theorem SafeMembers.adjustMembers {change : Change (Members R)}
    (safe : SafeMembers admitted change) : Safe admitted (Value.adjustMembers change) := by
  intro value excused
  cases value with
  | object members => exact (safe members excused).map fun _ h => h
  | _ => exact excused

omit [Scalar R] in
theorem ends_adjust {change : Change (Value R)} {good : Value R → Prop}
    (entries : ∀ entry ∈ members, good entry.2)
    (h : ∀ value, members.get? key = some value → Ends admitted good (change value)) :
    Ends admitted (fun result => ∀ entry ∈ result, good entry.2)
      (members.adjust key change) := by
  induction members with
  | nil => exact entries
  | cons first rest ih =>
      obtain ⟨k, v⟩ := first
      obtain ⟨hfirst, hrest⟩ := List.forall_mem_cons.mp entries
      rw [Members.adjust]
      simp only [Members.get?_cons] at h
      split
      · rename_i hk
        refine (h v (if_pos hk)).bind fun own _ hown => ?_
        exact List.forall_mem_cons.mpr ⟨hown, hrest⟩
      · rename_i hk
        simp only [if_neg hk] at h
        refine (ih hrest h).bind fun later _ hlater => ?_
        exact List.forall_mem_cons.mpr ⟨hfirst, hlater⟩

/-- A member may be changed if what it becomes is excused, and is such that a flaw that it has
to do with is admitted. -/
theorem ends_adjust_concerned {change : Change (Value R)} {good : Value R → Prop}
    (excused : Excused admitted (.object members)) (hnull : good .null)
    (hchange : Ends admitted (fun value => Excused admitted value ∧ good value)
      (change (members.get key)))
    (concerned : ∀ result : Members R, (∀ other, key ≠ other → result.get other = members.get other) →
      good (result.get key) → ∀ flaw ∈ Flaw.concerning key, flaw.isIn result = true →
        admitted .wrongKind) :
    Ends admitted (fun result => Excused admitted (.object result) ∧
        ∀ other, key ≠ other → Members.get result other = members.get other)
      (members.adjust key change) := by
  refine (ends_adjust excused.entries fun value hvalue => ?_).imp fun result h entries => ?_
  · have hget : members.get key = value := by rw [Members.get, hvalue, Option.getD_some]
    rw [hget] at hchange
    exact hchange.imp fun _ _ hresult => hresult.1
  · have hsame : ∀ other, key ≠ other → Members.get result other = members.get other :=
      fun other hne => Members.get_adjust_of_ne h hne
    refine ⟨excused.of_changed hsame (concerned result hsame ?_) entries, hsame⟩
    rcases Members.get_adjust_self h with ⟨-, hmissing⟩ | hadjusted
    · rwa [hmissing]
    · rw [hadjusted] at hchange
      exact hchange.2

namespace Safe

variable {change : Change (Value R)}

/-- A member that tells nothing about flaws may be changed. -/
theorem adjust (safe : Safe admitted change) (hkey : Flaw.concerning key = []) :
    SafeMembers admitted (Members.adjust key change) := by
  intro members excused
  have hchange := (safe _ (excused.get key)).imp fun _ _ h => And.intro h trivial
  refine (ends_adjust_concerned excused trivial hchange fun _ _ _ flaw hflaw => ?_).imp
    fun _ _ h => h.1
  rw [hkey] at hflaw
  cases hflaw

theorem adjustMember (safe : Safe admitted change) (hkey : Flaw.concerning key = []) :
    Safe admitted (Value.adjustMember key change) :=
  (safe.adjust hkey).adjustMembers

theorem adjustItems (safe : Safe admitted change) : Safe admitted (Value.adjustItems change) := by
  intro value excused
  cases value with
  | list items =>
      refine (Ends.mapM fun item hitem => ?_).map fun _ h => Excused.list_iff.mpr h
      exact safe item (Excused.list_iff.mp excused item hitem)
  | _ => exact excused

theorem adjustFirst (safe : Safe admitted change) : Safe admitted (Value.adjustFirst change) := by
  intro value excused
  cases value with
  | list items =>
      cases items with
      | nil => exact excused
      | cons first rest =>
          obtain ⟨hfirst, hrest⟩ := List.forall_mem_cons.mp (Excused.list_iff.mp excused)
          refine (safe first hfirst).bind fun own _ hown => ?_
          exact Excused.list_iff.mpr (List.forall_mem_cons.mpr ⟨hown, hrest⟩)
  | _ => exact excused

end Safe

end Flaws

end MotionScene
