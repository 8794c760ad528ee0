import MotionScene.Proofs.Element.Forest
import MotionScene.Proofs.Members

/-!
# Elements are read back

An element is written as an object with its type, its name, its attributes, its children
and its timelines side by side.  Where no attribute has the name of one of the others, and
no patch that of a member of a keyframe, nothing is lost: `Element.read?` finds the element
again (`read?_toValue`), so different elements are written differently.
-/

namespace MotionScene

variable {R : Type}

/-! ## Members beside others -/

namespace Members

/-- The members that have none of some keys. -/
def without (members : Members R) (keys : List String) : Members R :=
  members.filter fun entry => !keys.contains entry.1

/-- Different keys, none of which is one of some others. -/
structure Beside (members : Members R) (others : List String) : Prop where
  distinct : members.keys.Nodup
  free : ∀ key ∈ members.keys, key ∉ others

variable {members : Members R} {keys : List String}

theorem without_of_forall_mem (h : ∀ key ∈ members.keys, key ∈ keys) :
    members.without keys = [] := by
  refine List.filter_eq_nil_iff.mpr fun entry hentry => ?_
  have hkey := h entry.1 (List.mem_map_of_mem hentry)
  rw [List.contains_iff_mem.mpr hkey, Bool.not_true]
  exact Bool.false_ne_true

theorem get?_append (members more : Members R) (key : String) :
    Members.get? (members ++ more) key = (members.get? key).or (more.get? key) := by
  induction members with
  | nil => rfl
  | cons entry rest ih =>
      rw [List.cons_append, get?_cons, get?_cons, ih]
      split <;> rfl

theorem without_append (members more : Members R) (keys : List String) :
    without (members ++ more) keys = members.without keys ++ more.without keys :=
  List.filter_append ..

namespace Beside

variable (beside : members.Beside keys)

include beside

theorem without_eq : members.without keys = members := by
  refine List.filter_eq_self.mpr fun entry hentry => ?_
  have hfree := beside.free entry.1 (List.mem_map_of_mem hentry)
  rwa [Bool.not_eq_true', ← Bool.not_eq_true, List.contains_iff_mem]

theorem get?_eq_none {key : String} (h : key ∈ keys) : members.get? key = none :=
  get?_eq_none_iff.mpr fun hkey => beside.free key hkey h

/-- Members that stand between some with other keys. -/
theorem get?_between (own : Members R) (more : Members R) {key : String} (h : key ∈ keys) :
    Members.get? (own ++ members ++ more) key = (own.get? key).or (more.get? key) := by
  rw [get?_append, get?_append, beside.get?_eq_none h, Option.or_none]

theorem without_between {own more : Members R} (hown : ∀ key ∈ own.keys, key ∈ keys)
    (hmore : ∀ key ∈ more.keys, key ∈ keys) :
    without (own ++ members ++ more) keys = members := by
  rw [without_append, without_append, without_of_forall_mem hown, without_of_forall_mem hmore,
    beside.without_eq, List.nil_append, List.append_nil]

theorem merge_eq {own : Members R} (h : ∀ key ∈ own.keys, key ∈ keys) :
    own.merge members = own ++ members :=
  merge_eq_append beside.distinct fun key hkey hown => beside.free key hkey (h key hown)

end Beside

end Members

/-! ## Keyframes and timelines -/

theorem mapM_map_eq_some {α β : Type} {write : α → β} {read : β → Option α} {items : List α}
    (h : ∀ item ∈ items, read (write item) = some item) :
    (items.map write).mapM read = some items := by
  induction items with
  | nil => rfl
  | cons item rest ih =>
      obtain ⟨hitem, hrest⟩ := List.forall_mem_cons.mp h
      rw [List.map_cons, List.mapM_cons, hitem, ih hrest]
      rfl

namespace Keyframe

/-- The keyframe that is written as a value. -/
def read? : Value R → Option (Keyframe R)
  | .object members => do
    let percent ← (Members.get members "percent").number?
    return ⟨percent, (Members.get members "easing").text?, Members.without members ownKeys⟩
  | _ => none

theorem read?_toMembers {keyframe : Keyframe R} (beside : keyframe.patch.Beside ownKeys) :
    read? (.object keyframe.toMembers) = some keyframe := by
  obtain ⟨percent, easing, patch⟩ := keyframe
  obtain ⟨own, hown, hkeys, hpercent, heasing⟩ : ∃ own : Members R,
      toMembers ⟨percent, easing, patch⟩ = own.merge patch ∧ (∀ key ∈ own.keys, key ∈ ownKeys) ∧
        own.get? "percent" = some (.num percent) ∧ own.get? "easing" = easing.map .text := by
    cases easing with
    | none =>
        refine ⟨_, rfl, fun key h => ?_, rfl, rfl⟩
        exact List.mem_cons.mpr (.inl (List.mem_singleton.mp h))
    | some easing => exact ⟨_, rfl, fun _ h => h, rfl, rfl⟩
  have hmembers : toMembers ⟨percent, easing, patch⟩ = own ++ patch ++ [] := by
    rw [hown, beside.merge_eq hkeys, List.append_nil]
  have hget : ∀ key ∈ ownKeys, Members.get? (own ++ patch ++ []) key = own.get? key := by
    intro key hkey
    rw [beside.get?_between own [] hkey, Members.get?_nil, Option.or_none]
  rw [read?, hmembers, Members.get, Members.get, hget "percent" (by decide),
    hget "easing" (by decide), hpercent, heasing,
    beside.without_between hkeys fun _ h => absurd h List.not_mem_nil]
  cases easing <;> rfl

end Keyframe

namespace Timeline

/-- The timeline that is written as a value. -/
def read? : Value R → Option (Timeline R)
  | .object members => do
    let duration ← (Members.get members "duration").number?
    let delay ← (Members.get members "delay").number?
    let keyframes ← (Members.get members "keyframes").items.mapM Keyframe.read?
    return ⟨duration, delay, keyframes, Members.has members "loop"⟩
  | _ => none

/-- All patches stand beside the members of their keyframes. -/
def Legible (timeline : Timeline R) : Prop :=
  ∀ keyframe ∈ timeline.keyframes, keyframe.patch.Beside Keyframe.ownKeys

theorem read?_toMembers {timeline : Timeline R} (legible : timeline.Legible) :
    read? (.object timeline.toMembers) = some timeline := by
  obtain ⟨duration, delay, keyframes, loop⟩ := timeline
  have hkeyframes : (keyframes.map fun keyframe => Value.object keyframe.toMembers).mapM
      Keyframe.read? = some keyframes :=
    mapM_map_eq_some fun keyframe h => Keyframe.read?_toMembers (legible keyframe h)
  cases loop with
  | false | true =>
      show ((keyframes.map fun keyframe => Value.object keyframe.toMembers).mapM
        Keyframe.read? >>= _) = _
      rw [hkeyframes]
      rfl

end Timeline

/-! ## Elements -/

/-- The type with a name. -/
def ElementType.ofName? (name : String) : Option ElementType :=
  [.group, .path, .ellipse, .rect].find? (·.name == name)

theorem ElementType.ofName?_name (type : ElementType) : ofName? type.name = some type := by
  cases type <;> decide

/-- The keys under which an element shows what is no attribute. -/
def Element.ownKeys : List String := ["type", "name", "children", "keyframeAnimation"]

/-- A body whose attributes stand beside the other members of an element, and whose patches
stand beside the other members of their keyframes. -/
structure Body.Legible (body : Body R) : Prop where
  attributes : body.attributes.Beside Element.ownKeys
  timelines : ∀ timeline ∈ body.timelines, timeline.Legible

namespace Element

mutual

/-- The element that is written as a value. -/
def read? : Value R → Option (Element R)
  | .object members => do
    let type ← (Members.get members "type").text?.bind ElementType.ofName?
    let timelines ← (Members.get members "keyframeAnimation").items.mapM Timeline.read?
    let children? ← readChildren? members
    return ⟨type, ⟨Members.without members ownKeys, timelines⟩, children?,
      (Members.get members "name").text?⟩
  | _ => none

/-- The children among the members of an element, if it shows any. -/
def readChildren? : List (String × Value R) → Option (Option (List (Element R)))
  | [] => some none
  | (key, value) :: rest =>
    if key = "children" then (readItems? value).map some else readChildren? rest

def readItems? : Value R → Option (List (Element R))
  | .list items => readAll? items
  | _ => none

def readAll? : List (Value R) → Option (List (Element R))
  | [] => some []
  | value :: rest => do
    let element ← read? value
    return element :: (← readAll? rest)

end

theorem readChildren?_eq (members : Members R) : readChildren? members =
    match members.get? "children" with
    | some value => (readItems? value).map some
    | none => some none := by
  induction members with
  | nil => rfl
  | cons entry rest ih =>
      obtain ⟨key, value⟩ := entry
      rw [readChildren?, Members.get?_cons, ih]
      split <;> rfl

/-- The members that an element shows before its attributes. -/
def head (type : ElementType) (name? : Option String) : Members R :=
  ("type", .text type.name) :: name?.toList.map fun name => ("name", .text name)

/-- The children of an element as a member, where it can have some. -/
def shownChildren (children? : Option (List (Element R))) : Members R :=
  children?.toList.map fun children => ("children", .list (toValues children))

/-- The timelines of an element as a member, where it has some. -/
def shownTimelines (timelines : List (Timeline R)) : Members R :=
  if timelines.isEmpty then []
  else [("keyframeAnimation", .list (timelines.map fun timeline => .object timeline.toMembers))]

theorem keys_head (type : ElementType) (name? : Option String) :
    ∀ key ∈ (head type name? : Members R).keys, key ∈ ["type", "name"] := by
  cases name? <;> simp [head, Members.keys]

theorem keys_shownChildren (children? : Option (List (Element R))) :
    ∀ key ∈ (shownChildren children?).keys, key = "children" := by
  cases children? <;> simp [shownChildren, Members.keys]

theorem keys_shownTimelines (timelines : List (Timeline R)) :
    ∀ key ∈ (shownTimelines timelines).keys, key = "keyframeAnimation" := by
  unfold shownTimelines
  split <;> simp [Members.keys]

theorem withTimelines_eq {timelines : List (Timeline R)} {members : Members R}
    (h : "keyframeAnimation" ∉ members.keys) :
    withTimelines timelines members = members ++ shownTimelines timelines := by
  unfold withTimelines shownTimelines
  split
  · rw [List.append_nil]
  · exact Members.set_of_notMem h _

/-- An element shows what is no attribute around its attributes. -/
theorem toMembers_eq {type : ElementType} {body : Body R} {children? : Option (List (Element R))}
    {name? : Option String} (legible : body.Legible) :
    toMembers ⟨type, body, children?, name?⟩ = head type name? ++ body.attributes ++
      (shownChildren children? ++ shownTimelines body.timelines) := by
  have hhead : ∀ key ∈ ["type", "name"],
      key ∈ ownKeys ∧ key ≠ "children" ∧ key ≠ "keyframeAnimation" := by decide
  have hmerge : ownMembers type name? body.attributes = head type name? ++ body.attributes :=
    legible.attributes.merge_eq fun key h => (hhead key (keys_head type name? key h)).1
  have hfresh : ∀ key ∈ (ownMembers type name? body.attributes).keys,
      key ≠ "children" ∧ key ≠ "keyframeAnimation" := by
    intro key h
    rw [hmerge, Members.keys, List.map_append, List.mem_append] at h
    rcases h with h | h
    · exact (hhead key (keys_head type name? key h)).2
    · have hfree := legible.attributes.free key h
      refine ⟨?_, ?_⟩ <;> rintro rfl <;> exact hfree (by decide)
  cases children? with
  | none =>
      show withTimelines body.timelines (ownMembers type name? body.attributes) = _
      rw [withTimelines_eq fun h => (hfresh _ h).2 rfl, hmerge]
      rfl
  | some children =>
      show withTimelines body.timelines
        ((ownMembers type name? body.attributes).set "children" (.list (toValues children))) = _
      have hset := Members.set_of_notMem (fun h => (hfresh _ h).1 rfl)
        (Value.list (toValues children))
      rw [hset, withTimelines_eq, hmerge, List.append_assoc]
      · rfl
      · intro h
        rw [Members.keys, List.map_append, List.mem_append] at h
        rcases h with h | h
        · exact (hfresh _ h).2 rfl
        · have hne : "keyframeAnimation" ≠ "children" := by decide
          exact hne (List.mem_singleton.mp h)

section Shown

variable {type : ElementType} {body : Body R} {children? : Option (List (Element R))}
  {name? : Option String} (legible : body.Legible)

include legible

/-- What an element shows under a key of its own. -/
theorem get?_toMembers {key : String} (h : key ∈ ownKeys) :
    Members.get? (toMembers ⟨type, body, children?, name?⟩) key =
      ((head type name? : Members R).get? key).or
        (((shownChildren children?).get? key).or ((shownTimelines body.timelines).get? key)) := by
  rw [toMembers_eq legible, legible.attributes.get?_between _ _ h, Members.get?_append]

theorem readChildren?_toMembers : readChildren? (toMembers ⟨type, body, children?, name?⟩) =
    match children? with
    | some children => (readAll? (toValues children)).map some
    | none => some none := by
  have hhead : (head type name? : Members R).get? "children" = none := by
    cases name? <;> rfl
  have htimelines : (shownTimelines body.timelines).get? "children" = none := by
    unfold shownTimelines
    split <;> rfl
  rw [readChildren?_eq, get?_toMembers legible (by decide), hhead, htimelines]
  cases children? <;> rfl

theorem get_type_toMembers :
    (toMembers ⟨type, body, children?, name?⟩).get "type" = .text type.name := by
  rw [Members.get, get?_toMembers legible (by decide)]
  rfl

theorem text?_name_toMembers :
    ((toMembers ⟨type, body, children?, name?⟩).get "name").text? = name? := by
  have hrest : ((shownChildren children?).get? "name").or
      ((shownTimelines body.timelines).get? "name") = none := by
    unfold shownTimelines
    cases children? <;> split <;> rfl
  rw [Members.get, get?_toMembers legible (by decide), hrest]
  cases name? <;> rfl

theorem items_timelines_toMembers :
    ((toMembers ⟨type, body, children?, name?⟩).get "keyframeAnimation").items =
      body.timelines.map fun timeline => .object timeline.toMembers := by
  have hhead : (head type name? : Members R).get? "keyframeAnimation" = none := by
    cases name? <;> rfl
  have hchildren : (shownChildren children?).get? "keyframeAnimation" = none := by
    cases children? <;> rfl
  rw [Members.get, get?_toMembers legible (by decide), hhead, hchildren]
  cases body.timelines <;> rfl

theorem without_toMembers :
    (toMembers ⟨type, body, children?, name?⟩).without ownKeys = body.attributes := by
  have hkeys : ∀ key ∈ ["type", "name"], key ∈ ownKeys := by decide
  rw [toMembers_eq legible]
  refine legible.attributes.without_between (fun key h => ?_) fun key h => ?_
  · exact hkeys key (keys_head type name? key h)
  · rw [Members.keys, List.map_append, List.mem_append] at h
    rcases h with h | h
    · rw [keys_shownChildren children? key h]
      decide
    · rw [keys_shownTimelines body.timelines key h]
      decide

theorem read?_toMembers
    (hchildren : readChildren? (toMembers ⟨type, body, children?, name?⟩) = some children?) :
    read? (.object (toMembers ⟨type, body, children?, name?⟩)) =
      some ⟨type, body, children?, name?⟩ := by
  have hread : (body.timelines.map fun timeline => Value.object timeline.toMembers).mapM
      Timeline.read? = some body.timelines :=
    mapM_map_eq_some fun timeline h => Timeline.read?_toMembers (legible.timelines timeline h)
  rw [read?, get_type_toMembers legible, text?_name_toMembers legible,
    items_timelines_toMembers legible, hread, hchildren, without_toMembers legible]
  show (ElementType.ofName? type.name >>= _) = _
  rw [ElementType.ofName?_name]
  rfl

end Shown

mutual

/-- An element is read back, with all below it; the recursion follows the tree. -/
theorem read?_toValue : ∀ (element : Element R),
    (∀ part ∈ element.all, part.body.Legible) → read? element.toValue = some element
  | ⟨type, body, some children, name?⟩, legible => by
      rw [all] at legible
      obtain ⟨hbody, hchildren⟩ := List.forall_mem_cons.mp legible
      refine read?_toMembers hbody ?_
      rw [readChildren?_toMembers hbody]
      show (readAll? (toValues children)).map some = _
      rw [readAll?_toValues children hchildren]
      rfl
  | ⟨type, body, none, name?⟩, legible => by
      rw [all] at legible
      have hbody := List.forall_mem_singleton.mp legible
      exact read?_toMembers hbody (readChildren?_toMembers hbody)

theorem readAll?_toValues : ∀ (elements : List (Element R)),
    (∀ part ∈ allOf elements, part.body.Legible) → readAll? (toValues elements) = some elements
  | [], _ => rfl
  | element :: rest, legible => by
      rw [allOf] at legible
      obtain ⟨hfirst, hrest⟩ := List.forall_mem_append.mp legible
      have hread := read?_toValue element hfirst
      rw [toValue] at hread
      rw [toValues, readAll?, hread, readAll?_toValues rest hrest]
      rfl

end

end Element

end MotionScene
