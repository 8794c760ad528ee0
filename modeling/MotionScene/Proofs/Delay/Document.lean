import MotionScene.Document.Code
import MotionScene.Proofs.Members
import MotionScene.Proofs.Timeline.Clock

/-!
# Documents with later keyframes

A part of a document can be moved some frames later: every keyframe of every property in it,
at any depth, gets these frames added to its own (`Value.delayed`).  The start offsets of
precompositions can be taken up on the way (`Value.withoutStarts`): a keyframe then moves
by the sum of all starts around it.  Both are one walk (`Value.moved`), and what it leaves
to be read is what was there (`get?_movedMembers` and the lemmas after it).
-/

namespace MotionScene

/-! ## Later clocks -/

namespace Number

/-- The sum of two numbers, whole where both are. -/
noncomputable def plus : Number ℝ → Number ℝ → Number ℝ
  | whole m, whole n => whole (m + n)
  | a, b => real (a.value + b.value)

theorem add_eq (a b : Number ℝ) : a.add b = .ok (a.plus b) := by
  cases a <;> cases b <;> rfl

@[simp] theorem value_plus (a b : Number ℝ) : (a.plus b).value = a.value + b.value := by
  cases a <;> cases b <;> simp [plus]

theorem plus_comm (a b : Number ℝ) : a.plus b = b.plus a := by
  cases a <;> cases b <;> simp [plus, add_comm]

theorem plus_assoc (a b c : Number ℝ) : (a.plus b).plus c = a.plus (b.plus c) := by
  cases a <;> cases b <;> cases c <;> simp [plus, add_assoc]

@[simp] theorem plus_zero (a : Number ℝ) : a.plus (whole 0) = a := by
  cases a <;> simp [plus]

end Number

namespace Clock

/-- The clock of a composition that starts some frames later. -/
noncomputable def later (clock : Clock ℝ) (frames : Number ℝ) : Clock ℝ :=
  { clock with offset := clock.offset.plus frames }

theorem shifted_eq (clock : Clock ℝ) (frames : Number ℝ) :
    clock.shifted frames = .ok (clock.later frames) := by
  rw [shifted, Number.add_eq]
  rfl

@[simp] theorem later_zero (clock : Clock ℝ) : clock.later (.whole 0) = clock := by
  rw [later, Number.plus_zero]

theorem later_later (clock : Clock ℝ) (first second : Number ℝ) :
    (clock.later first).later second = clock.later (first.plus second) := by
  simp only [later, Number.plus_assoc]

/-- A frame of a later clock stands where the later frame of the clock does. -/
theorem percent_later (clock : Clock ℝ) (frames frame : Number ℝ) :
    (clock.later frames).percent frame = clock.percent (frame.plus frames) := by
  have hposition : (clock.later frames).position frame = clock.position (frame.plus frames) := by
    show (frame.value + (clock.offset.plus frames).value) / clock.span.value =
      ((frame.plus frames).value + clock.offset.value) / clock.span.value
    rw [Number.value_plus, Number.value_plus, add_comm clock.offset.value, ← add_assoc]
  rw [percent_eq, percent_eq, hposition]

end Clock

/-! ## Later keyframes -/

/-- A keyframe some frames later; a value without a numeric frame is none. -/
noncomputable def Value.delayKeyframe (frames : Number ℝ) : Value ℝ → Value ℝ
  | .object members =>
    match Members.get members "t" with
    | .num frame => .object (Members.set members "t" (.num (frame.plus frames)))
    | _ => .object members
  | value => value

/-- The content of a property with all its keyframes some frames later. -/
noncomputable def Value.delayKeyframes (frames : Number ℝ) : Value ℝ → Value ℝ
  | .list items => .list (items.map (delayKeyframe frames))
  | value => value

/-- The members that tell what a layer is and never hold properties. -/
def plainKeys : List String := ["ty", "nm", "ind", "parent", "sw", "sh", "sc"]

/-- The frames by which the layers inside a layer start later, if it is a precomposition
with a numeric start offset. -/
def startOf? {R : Type} [Scalar R] (layer : Members R) : Option (Number R) :=
  if LayerKind.ofCode (layer.get "ty") = .precomp then
    ((layer.get "st").orElse (.num (.whole 0))).quantity?
  else none

mutual

/-- A part of a document with all keyframes some frames later.  Where `starts` gives the
start offset of a layer, the layers inside move by that too, and it becomes zero. -/
noncomputable def Value.moved (starts : Members ℝ → Option (Number ℝ)) (frames : Number ℝ) :
    Value ℝ → Value ℝ
  | .list items => .list (movedItems starts frames items)
  | .object members => .object (movedMembers starts frames (starts members) members)
  | value => value

noncomputable def movedItems (starts : Members ℝ → Option (Number ℝ)) (frames : Number ℝ) :
    List (Value ℝ) → List (Value ℝ)
  | [] => []
  | item :: rest => item.moved starts frames :: movedItems starts frames rest

/-- The members of an object, whose start offset is given where it is taken up. -/
noncomputable def movedMembers (starts : Members ℝ → Option (Number ℝ)) (frames : Number ℝ)
    (start? : Option (Number ℝ)) : List (String × Value ℝ) → Members ℝ
  | [] => []
  | (key, value) :: rest =>
    (key,
      if key ∈ plainKeys then value
      else if key = "k" then value.delayKeyframes frames
      else if key = "layers" then value.moved starts (frames.plus (start?.getD (.whole 0)))
      else if key = "st" ∧ start?.isSome then .num (.whole 0)
      else value.moved starts frames) :: movedMembers starts frames start? rest

end

/-- A part of a document with every keyframe some frames later; start offsets stay. -/
noncomputable def Value.delayed (frames : Number ℝ) (value : Value ℝ) : Value ℝ :=
  value.moved (fun _ => none) frames

/-- A part of a document in which every precomposition starts at once and every keyframe
is later by the sum of the start offsets around it. -/
noncomputable def Value.withoutStarts (value : Value ℝ) : Value ℝ :=
  value.moved startOf? (.whole 0)

/-! ## Reading moved members -/

section Reading

variable {starts : Members ℝ → Option (Number ℝ)} {frames : Number ℝ}

/-- What becomes of the member under a key. -/
noncomputable def movedMember (starts : Members ℝ → Option (Number ℝ)) (frames : Number ℝ)
    (start? : Option (Number ℝ)) (key : String) (value : Value ℝ) : Value ℝ :=
  if key ∈ plainKeys then value
  else if key = "k" then value.delayKeyframes frames
  else if key = "layers" then value.moved starts (frames.plus (start?.getD (.whole 0)))
  else if key = "st" ∧ start?.isSome then .num (.whole 0)
  else value.moved starts frames

theorem get?_movedMembers (start? : Option (Number ℝ)) (members : Members ℝ) (key : String) :
    (movedMembers starts frames start? members).get? key =
      (members.get? key).map (movedMember starts frames start? key) := by
  induction members with
  | nil => rfl
  | cons entry rest ih =>
      obtain ⟨other, value⟩ := entry
      rw [movedMembers, Members.get?_cons, Members.get?_cons, ih]
      by_cases hkey : other = key
      · rw [if_pos hkey, if_pos hkey, hkey]
        rfl
      · rw [if_neg hkey, if_neg hkey]

theorem has_movedMembers (start? : Option (Number ℝ)) (members : Members ℝ) (key : String) :
    (movedMembers starts frames start? members).has key = members.has key := by
  rw [Members.has, get?_movedMembers, Option.isSome_map, Members.has]

theorem get_movedMembers_of_plain {key : String} (h : key ∈ plainKeys)
    (start? : Option (Number ℝ)) (members : Members ℝ) :
    (movedMembers starts frames start? members).get key = members.get key := by
  have hmember : movedMember starts frames start? key = id := by
    funext value
    rw [movedMember, if_pos h, id]
  rw [Members.get, get?_movedMembers, hmember, Option.map_id, id, Members.get]

/-- A key under which an object has a part that is moved with it. -/
def movesAlong (key : String) : Bool :=
  !(plainKeys ++ ["k", "layers", "st"]).contains key

theorem movedMember_eq_moved {key : String} (h : movesAlong key) (start? : Option (Number ℝ)) :
    movedMember starts frames start? key = Value.moved starts frames := by
  simp only [movesAlong, Bool.not_eq_true', List.contains_eq_mem, decide_eq_false_iff_not,
    List.mem_append, List.mem_cons, List.not_mem_nil, or_false, not_or] at h
  obtain ⟨hplain, hcontent, hlayers, hstart⟩ := h
  funext value
  rw [movedMember, if_neg hplain, if_neg hcontent, if_neg hlayers, if_neg (hstart ·.1)]

theorem get?_movedMembers_of_movesAlong {key : String} (h : movesAlong key)
    (start? : Option (Number ℝ)) (members : Members ℝ) :
    (movedMembers starts frames start? members).get? key =
      (members.get? key).map (Value.moved starts frames) := by
  rw [get?_movedMembers, movedMember_eq_moved h]

theorem get_movedMembers {key : String} (h : movesAlong key) (start? : Option (Number ℝ))
    (members : Members ℝ) :
    (movedMembers starts frames start? members).get key =
      (members.get key).moved starts frames := by
  rw [Members.get, get?_movedMembers_of_movesAlong h, Members.get]
  cases members.get? key <;> rfl

theorem get_content_movedMembers (start? : Option (Number ℝ)) (members : Members ℝ) :
    (movedMembers starts frames start? members).get "k" =
      (members.get "k").delayKeyframes frames := by
  rw [Members.get, get?_movedMembers, Members.get]
  cases members.get? "k" <;> rfl

theorem movedItems_eq_map (items : List (Value ℝ)) :
    movedItems starts frames items = items.map (Value.moved starts frames) := by
  induction items with
  | nil => rfl
  | cons item rest ih => rw [movedItems, ih, List.map_cons]

theorem isEmpty_movedMembers (start? : Option (Number ℝ)) (members : Members ℝ) :
    (movedMembers starts frames start? members).isEmpty = members.isEmpty := by
  cases members <;> rfl

/-! ## Moved values -/

namespace Value

theorem members_moved (value : Value ℝ) : (value.moved starts frames).members =
    movedMembers starts frames (starts value.members) value.members := by
  cases value <;> rfl

theorem get_members_moved {key : String} (h : movesAlong key) (value : Value ℝ) :
    (value.moved starts frames).members.get key =
      (value.members.get key).moved starts frames := by
  rw [members_moved, get_movedMembers h]

@[simp] theorem quantity?_moved (value : Value ℝ) :
    (value.moved starts frames).quantity? = value.quantity? := by
  cases value <;> rfl

@[simp] theorem holds_moved (value : Value ℝ) :
    (value.moved starts frames).holds = value.holds := by
  cases value with
  | list items => cases items <;> rfl
  | object members => exact congrArg (!·) (isEmpty_movedMembers _ members)
  | _ => rfl

theorem quantity?_orElse_moved (value : Value ℝ) (n : Number ℝ) :
    ((value.moved starts frames).orElse (.num n)).quantity? =
      (value.orElse (.num n)).quantity? := by
  rw [orElse, orElse, holds_moved]
  split
  · exact quantity?_moved value
  · rfl

/-- A value that counts as a number has nothing in it that could move. -/
theorem moved_of_quantity {value : Value ℝ} (h : value.quantity?.isSome) :
    value.moved starts frames = value := by
  cases value with
  | text _ | null => rfl
  | bool _ | num _ => rfl
  | list _ | object _ => cases h

end Value

end Reading

end MotionScene
