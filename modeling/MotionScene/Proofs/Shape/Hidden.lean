import MotionScene.Proofs.Fault.Shape
import MotionScene.Proofs.Shape.Drawn
import MotionScene.Proofs.Shape.Nearest

/-!
# Entries without an effect

Entries of unknown kind and hidden outlines and groups may be left out of a shape list, at
any depth, and it compiles to the same elements.  Hidden modifiers and transforms may be left
out where none of them is taken up: no visible outline is bound to one, and no visible group
has one as its first transform (`compileShapes_thinned`).  Where one is taken up it has an
effect (`compileShapes_hiddenModifiers`).
-/

namespace MotionScene

variable {R : Type} {hides : Members R → Bool}

/-! ## Leaving entries out -/

/-- Whether an entry is left out: one of unknown kind, or one of those that are hidden. -/
def leftOut (hides : Members R → Bool) : Value R → Bool
  | .object shape => shapeKind shape = .unknown || hides shape
  | _ => true

mutual

/-- A shape list without the entries that are left out, at any depth. -/
def thinned (hides : Members R → Bool) : Value R → Value R
  | .list items => .list (thinnedItems hides items)
  | shapes => shapes

def thinnedItems (hides : Members R → Bool) : List (Value R) → List (Value R)
  | [] => []
  | item :: rest =>
    if leftOut hides item then thinnedItems hides rest
    else thinnedEntry hides item :: thinnedItems hides rest

def thinnedEntry (hides : Members R → Bool) : Value R → Value R
  | .object shape =>
    if shapeKind shape = .group then .object (thinnedGroup hides shape) else .object shape
  | item => item

/-- The members of a group with what is left of its shape list. -/
def thinnedGroup (hides : Members R → Bool) : List (String × Value R) → List (String × Value R)
  | [] => []
  | (key, value) :: rest =>
    if key = "it" then (key, thinned hides value) :: rest
    else (key, value) :: thinnedGroup hides rest

end

theorem get_thinnedGroup_it (shape : Members R) :
    Members.get (thinnedGroup hides shape) "it" = thinned hides (shape.get "it") := by
  induction shape with
  | nil => rfl
  | cons entry rest ih =>
      obtain ⟨key, value⟩ := entry
      rw [thinnedGroup, Members.get, Members.get, Members.get?_cons]
      split
      · rename_i hkey
        rw [Members.get?_cons, if_pos hkey]
        rfl
      · rename_i hkey
        rw [Members.get?_cons, if_neg hkey]
        exact ih

theorem get_thinnedGroup {key : String} (hkey : key ≠ "it") (shape : Members R) :
    Members.get (thinnedGroup hides shape) key = shape.get key := by
  induction shape with
  | nil => rw [thinnedGroup]
  | cons entry rest ih =>
      obtain ⟨own, value⟩ := entry
      rw [thinnedGroup, Members.get, Members.get, Members.get?_cons]
      split
      · rename_i hit
        rw [Members.get?_cons, if_neg (hit ▸ hkey.symm), if_neg (hit ▸ hkey.symm)]
      · rw [Members.get?_cons]
        split
        · rfl
        · exact ih

theorem kind_thinnedGroup (shape : Members R) :
    shapeKind (thinnedGroup hides shape) = shapeKind shape := by
  rw [shapeKind, get_thinnedGroup (by decide), shapeKind]

theorem ofEntry_thinnedEntry (item : Value R) :
    ShapeKind.ofEntry (thinnedEntry hides item) = ShapeKind.ofEntry item := by
  cases item with
  | object shape =>
      rw [thinnedEntry]
      split
      · exact kind_thinnedGroup shape
      · rfl
  | _ => rfl

theorem thinnedEntry_eq {item : Value R} (h : ShapeKind.ofEntry item ≠ .group) :
    thinnedEntry hides item = item := by
  cases item with
  | object shape => exact if_neg h
  | _ => rfl

theorem leftOut_eq {item : Value R} (h : ShapeKind.ofEntry item ≠ .unknown) :
    leftOut hides item = hides item.members := by
  cases item with
  | object shape =>
      have hknown : decide (shapeKind shape = .unknown) = false := decide_eq_false h
      rw [leftOut, hknown]
      rfl
  | _ => exact absurd rfl h

theorem thinnedItems_append (first second : List (Value R)) :
    thinnedItems hides (first ++ second) =
      thinnedItems hides first ++ thinnedItems hides second := by
  induction first with
  | nil => rw [thinnedItems]; rfl
  | cons item rest ih =>
      rw [List.cons_append, thinnedItems, thinnedItems, ih]
      split <;> rfl

/-! ## Modifiers that are left -/

section Bound

variable {α : Type}

theorem Modifiers.ext_of {first second : Modifiers α}
    (h : ∀ kind : ShapeKind, kind.isModifier = true → first.of kind = second.of kind) :
    first = second := by
  obtain ⟨fill, stroke, trim, repeater⟩ := first
  obtain ⟨fill', stroke', trim', repeater'⟩ := second
  obtain rfl : fill = fill' := h .fill rfl
  obtain rfl : stroke = stroke' := h .stroke rfl
  obtain rfl : trim = trim' := h .trim rfl
  obtain rfl : repeater = repeater' := h .repeater rfl
  rfl

theorem Modifiers.isModifier_of_eq_some {modifiers : Modifiers α} {kind : ShapeKind} {entry : α}
    (h : modifiers.of kind = some entry) : kind.isModifier = true := by
  cases kind <;> first | rfl | cases h

/-- What is found in a list is found where other items are dropped. -/
theorem find?_filter_of_kept {keep wanted : α → Bool} {items : List α}
    (h : ∀ item, items.find? wanted = some item → keep item = true) :
    (items.filter keep).find? wanted = items.find? wanted := by
  induction items with
  | nil => rfl
  | cons item rest ih =>
      by_cases hwanted : wanted item = true
      · have hkeep := h item (List.find?_cons_of_pos hwanted)
        rw [List.filter_cons_of_pos hkeep, List.find?_cons_of_pos hwanted,
          List.find?_cons_of_pos hwanted]
      · rw [List.find?_cons_of_neg hwanted] at h ⊢
        by_cases hkeep : keep item = true
        · rw [List.filter_cons_of_pos hkeep, List.find?_cons_of_neg hwanted, ih h]
        · rw [List.filter_cons_of_neg hkeep, ih h]

/-- A modifier that is kept stays bound where others are dropped. -/
theorem of_boundBetween_filter (keep : α → Bool) {kind : ShapeKind}
    (hkind : kind.isModifier = true) {before after : List (ShapeKind × α)}
    (h : ∀ entry, (boundBetween before after).of kind = some entry → keep entry = true) :
    (boundBetween (before.filter fun entry => keep entry.2)
      (after.filter fun entry => keep entry.2)).of kind = (boundBetween before after).of kind := by
  rw [of_boundBetween hkind] at h
  rw [of_boundBetween hkind, of_boundBetween hkind, ← List.filter_reverse]
  have hafter : (after.filter fun entry => keep entry.2).find? (·.1 = kind) =
      after.find? (·.1 = kind) :=
    find?_filter_of_kept fun entry hfound => h entry.2 (by rw [hfound]; rfl)
  rw [hafter]
  cases hfound : after.find? (·.1 = kind) with
  | some entry => rfl
  | none =>
      -- nothing behind, so that what is bound is the last one before
      rw [hfound, Option.none_or] at h
      have hbefore : (before.reverse.filter fun entry => keep entry.2).find? (·.1 = kind) =
          before.reverse.find? (·.1 = kind) :=
        find?_filter_of_kept fun entry hentry => h entry.2 (by rw [hentry]; rfl)
      rw [hbefore]

/-- The modifiers of entries behind others, an entry at a time. -/
def boundBehind (before : List (ShapeKind × α)) :
    List (ShapeKind × α) → List (Option (Modifiers α))
  | [] => []
  | entry :: rest =>
    (if entry.1.isGeometry then some (boundBetween before rest) else none) ::
      boundBehind (before ++ [entry]) rest

theorem drop_bindModifiers (before entries : List (ShapeKind × α)) :
    (bindModifiers (before ++ entries)).drop before.length = boundBehind before entries := by
  induction entries generalizing before with
  | nil =>
      rw [List.append_nil, ← length_bindModifiers before, List.drop_length]
      rfl
  | cons entry rest ih =>
      have hrest := ih (before ++ [entry])
      rw [List.append_assoc, List.singleton_append, List.length_append,
        List.length_singleton] at hrest
      obtain ⟨hlt, hget⟩ := List.getElem?_eq_some_iff.mp (getElem?_bindModifiers before rest entry)
      rw [List.drop_eq_getElem_cons hlt, hget, hrest, boundBehind]

theorem bindModifiers_eq (entries : List (ShapeKind × α)) :
    bindModifiers entries = boundBehind [] entries :=
  drop_bindModifiers [] entries

end Bound

theorem shapeEntries_cons (item : Value R) (items : List (Value R)) :
    shapeEntries (item :: items) = (ShapeKind.ofEntry item, item.members) :: shapeEntries items :=
  rfl

theorem shapeEntries_append (first second : List (Value R)) :
    shapeEntries (first ++ second) = shapeEntries first ++ shapeEntries second :=
  List.map_append

theorem ShapeKind.ne_group_of_isModifier {kind : ShapeKind} (h : kind.isModifier = true) :
    kind ≠ .group ∧ kind ≠ .unknown := by
  constructor <;> (rintro rfl; cases h)

/-- The modifiers that are kept stand in what is left of a list as they stood before. -/
theorem filter_shapeEntries_thinnedItems {kind : ShapeKind} (hkind : kind.isModifier = true)
    (items : List (Value R)) : (shapeEntries (thinnedItems hides items)).filter (·.1 = kind) =
      ((shapeEntries items).filter fun entry => !hides entry.2).filter (·.1 = kind) := by
  rw [List.filter_filter]
  induction items with
  | nil => rfl
  | cons item rest ih =>
      by_cases hown : ShapeKind.ofEntry item = kind
      · obtain ⟨hgroup, hknown⟩ := ShapeKind.ne_group_of_isModifier (hown ▸ hkind)
        rw [thinnedItems, leftOut_eq hknown, thinnedEntry_eq hgroup, shapeEntries_cons item rest]
        by_cases hhides : hides item.members = true
        · rw [if_pos hhides, ih, List.filter_cons_of_neg (by simp [hhides])]
        · rw [if_neg hhides, shapeEntries_cons, List.filter_cons_of_pos (by simp [hown]),
            List.filter_cons_of_pos (by simp [hown, hhides]), ih]
      · rw [shapeEntries_cons, List.filter_cons_of_neg (by simp [hown]), ← ih, thinnedItems]
        split
        · rfl
        · rw [shapeEntries_cons, List.filter_cons_of_neg (by simp [ofEntry_thinnedEntry, hown])]

section Unused

variable [Scalar R] {clock : Clock R}

/-- Modifiers of a shape list beside those of what is left of it: an entry for each entry that
is left, with the same modifiers where it is visible. -/
inductive BoundAlike (hides : Members R → Bool) :
    List (Value R) → (all left : List (Option (Modifiers (Members R)))) → Prop
  | nil : BoundAlike hides [] [] []
  | leave {item : Value R} {items : List (Value R)} {own : Option (Modifiers (Members R))}
      {all left : List (Option (Modifiers (Members R)))} (h : leftOut hides item = true)
      (rest : BoundAlike hides items all left) : BoundAlike hides (item :: items) (own :: all) left
  | keep {item : Value R} {items : List (Value R)} {own kept : Option (Modifiers (Members R))}
      {all left : List (Option (Modifiers (Members R)))} (h : ¬ leftOut hides item = true)
      (alike : ∀ shape, item = .object shape → isHidden shape = false → kept = own)
      (rest : BoundAlike hides items all left) :
      BoundAlike hides (item :: items) (own :: all) (kept :: left)

omit [Scalar R] in
theorem boundBetween_thinnedItems {before after : List (Value R)}
    (h : (boundBetween (shapeEntries before) (shapeEntries after)).All
      fun _ modifier => hides modifier = false) :
    boundBetween (shapeEntries (thinnedItems hides before))
        (shapeEntries (thinnedItems hides after)) =
      boundBetween (shapeEntries before) (shapeEntries after) := by
  refine Modifiers.ext_of fun kind hkind => ?_
  rw [of_boundBetween_congr hkind (filter_shapeEntries_thinnedItems hkind before)
    (filter_shapeEntries_thinnedItems hkind after)]
  refine of_boundBetween_filter (fun entry => !hides entry) hkind fun entry hentry => ?_
  rw [h kind entry hentry]
  rfl

/-- The induction is on the entries behind those that are passed already. -/
theorem boundAlike_boundBehind (before items : List (Value R))
    (h : ∀ first shape rest, items = first ++ .object shape :: rest → isHidden shape = false →
      (shapeKind shape).isGeometry = true →
      (boundBetween (shapeEntries (before ++ first)) (shapeEntries rest)).All
        fun _ modifier => hides modifier = false) :
    BoundAlike hides items (boundBehind (shapeEntries before) (shapeEntries items))
      (boundBehind (shapeEntries (thinnedItems hides before))
        (shapeEntries (thinnedItems hides items))) := by
  induction items generalizing before with
  | nil => exact .nil
  | cons item rest ih =>
      have hrest := ih (before ++ [item]) fun first shape after hsplit visible hkind => by
        rw [List.append_assoc]
        exact h (item :: first) shape after (by rw [hsplit]; rfl) visible hkind
      rw [thinnedItems_append, thinnedItems, thinnedItems, shapeEntries_append] at hrest
      rw [thinnedItems, shapeEntries_cons, boundBehind]
      by_cases hleft : leftOut hides item = true
      · rw [if_pos hleft, List.append_nil] at hrest
        rw [if_pos hleft]
        exact .leave hleft hrest
      · rw [if_neg hleft, shapeEntries_append] at hrest
        rw [if_neg hleft, shapeEntries_cons, boundBehind]
        refine .keep hleft (fun shape hshape visible => ?_) hrest
        subst hshape
        rw [ofEntry_thinnedEntry]
        split
        · rename_i hkind
          have hbound := h [] shape rest rfl visible hkind
          rw [List.append_nil] at hbound
          rw [boundBetween_thinnedItems hbound]
        · rfl

/-! ## Lists in which nothing hidden is taken up -/

/-- The shape lists that are compiled for a value: the value itself, and those of its visible
groups, at any depth. -/
inductive ListedIn : Value R → List (Value R) → Prop
  | self (items : List (Value R)) : ListedIn (.list items) items
  | inGroup {items inner : List (Value R)} {group : Members R} (h : .object group ∈ items)
      (kind : shapeKind group = .group) (visible : isHidden group = false)
      (listed : ListedIn (group.get "it") inner) : ListedIn (.list items) inner

/-- No visible outline is bound to a modifier that is hidden, and no visible group has a hidden
transform as its first one, at any depth. -/
structure Unused (hides : Members R → Bool) (shapes : Value R) : Prop where
  modifiers : ∀ items, ListedIn shapes items → ∀ (place : Nat) (shape : Members R),
    items[place]? = some (.object shape) → isHidden shape = false →
    ∀ modifiers, (bindModifiers (shapeEntries items))[place]? = some (some modifiers) →
      modifiers.All fun _ modifier => hides modifier = false
  transforms : ∀ items, ListedIn shapes items → ∀ group, .object group ∈ items →
    shapeKind group = .group → isHidden group = false →
    ∀ transform, groupTransform? (group.get "it").items = some transform →
      hides transform.members = false

/-- A group in whose shape list nothing hidden is taken up. -/
structure UnusedIn (hides : Members R → Bool) (group : Members R) : Prop where
  below : Unused hides (group.get "it")
  transform : ∀ transform, groupTransform? (group.get "it").items = some transform →
    hides transform.members = false

theorem Unused.boundAlike {items : List (Value R)} (unused : Unused hides (.list items)) :
    BoundAlike hides items (bindModifiers (shapeEntries items))
      (bindModifiers (shapeEntries (thinnedItems hides items))) := by
  rw [bindModifiers_eq, bindModifiers_eq]
  refine boundAlike_boundBehind [] items fun first shape rest hsplit visible hkind => ?_
  subst hsplit
  refine unused.modifiers _ (.self _) first.length shape ?_ visible _ ?_
  · rw [List.getElem?_append_right (Nat.le_refl _), Nat.sub_self]
    rfl
  · have hbound := getElem?_bindModifiers (shapeEntries first) (shapeEntries rest)
      (ShapeKind.ofEntry (.object shape), shape)
    have hlength : (shapeEntries first).length = first.length := List.length_map _
    rw [hlength] at hbound
    rw [shapeEntries_append, shapeEntries_cons]
    exact hbound.trans (congrArg some (if_pos hkind))

theorem Unused.unusedIn {items : List (Value R)} (unused : Unused hides (.list items))
    {group : Members R} (h : .object group ∈ items) (kind : shapeKind group = .group)
    (visible : isHidden group = false) : UnusedIn hides group where
  below :=
    { modifiers := fun inner listed =>
        unused.modifiers inner (.inGroup h kind visible listed)
      transforms := fun inner listed =>
        unused.transforms inner (.inGroup h kind visible listed) }
  transform := unused.transforms items (.self items) group h kind visible

omit [Scalar R] in
theorem groupTransform?_thinnedItems {items : List (Value R)}
    (h : ∀ transform, groupTransform? items = some transform → hides transform.members = false) :
    groupTransform? (thinnedItems hides items) = groupTransform? items := by
  induction items with
  | nil => rfl
  | cons item rest ih =>
      by_cases hkind : ShapeKind.ofEntry item = .transform
      · have hfirst : groupTransform? (item :: rest) = some item :=
          List.find?_cons_of_pos (decide_eq_true hkind)
        have hkept : leftOut hides item = false := by
          rw [leftOut_eq (by rw [hkind]; decide)]
          exact h item hfirst
        rw [thinnedItems, hkept, if_neg Bool.false_ne_true,
          thinnedEntry_eq (by rw [hkind]; decide), hfirst]
        exact List.find?_cons_of_pos (decide_eq_true hkind)
      · have hskip : ∀ (first : Value R) (others : List (Value R)),
            ShapeKind.ofEntry first ≠ .transform →
            groupTransform? (first :: others) = groupTransform? others :=
          fun first others hfirst => List.find?_cons_of_neg (by simpa using hfirst)
        rw [hskip item rest hkind] at h ⊢
        rw [thinnedItems]
        split
        · exact ih h
        · rw [hskip _ _ (by rwa [ofEntry_thinnedEntry]), ih h]

theorem groupElement_thinnedGroup {group : Members R} (unused : UnusedIn hides group)
    (children : List (Element R)) :
    groupElement (thinnedGroup hides group) (thinned hides (group.get "it")).items children clock =
      groupElement group (group.get "it").items children clock := by
  have hname : nameOf (thinnedGroup hides group) clock.options = nameOf group clock.options := by
    rw [nameOf, get_thinnedGroup (by decide), nameOf]
  have htransform : groupTransform? (thinned hides (group.get "it")).items =
      groupTransform? (group.get "it").items := by
    have hkept := unused.transform
    cases hitems : group.get "it" with
    | list items =>
        rw [hitems] at hkept
        rw [thinned]
        exact groupTransform?_thinnedItems hkept
    | _ => rfl
  rw [groupElement, groupElement, hname, htransform]

end Unused

/-! ## Compiling what is left -/

/-- A step that leaves no elements may be left out. -/
theorem outcome_bind_nil {later own : Report R (List (Element R))} (h : own.outcome = .ok []) :
    (later >>= fun elements => own >>= fun more => pure (elements ++ more)).outcome =
      later.outcome := by
  calc (later >>= fun elements => own >>= fun more => pure (elements ++ more)).outcome
      = (later >>= pure).outcome := Traced.outcome_bind_congr rfl fun elements => by
        rw [Traced.outcome_bind_of_ok h, List.append_nil]
    _ = later.outcome := by rw [bind_pure]

section Compiling

variable [Scalar R] {clock : Clock R}

/-- Whether all entries that are left out are hidden. -/
def OnlyHidden (hides : Members R → Bool) : Prop :=
  ∀ shape, hides shape = true → isHidden shape = true

theorem outcome_compileEntry_leftOut (only : OnlyHidden hides) {item : Value R}
    (h : leftOut hides item = true) (modifiers : Modifiers (Members R)) :
    (compileEntry clock modifiers item).outcome = .ok [] := by
  cases item with
  | object shape =>
      rw [leftOut, Bool.or_eq_true, decide_eq_true_iff] at h
      rcases h with hunknown | hhides
      · exact outcome_compileEntry_nothing (.inr (by rw [hunknown]; decide))
      · exact outcome_compileEntry_nothing (.inl (only shape hhides))
  | _ => rfl

mutual

theorem outcome_compileShapes_thinned (only : OnlyHidden hides) :
    ∀ shapes : Value R, Unused hides shapes →
    (compileShapes clock (thinned hides shapes)).outcome = (compileShapes clock shapes).outcome
  | .list items, unused => by
      rw [thinned, compileShapes, compileShapes]
      exact outcome_compileEntries_thinned only items (fun _ => unused.unusedIn) unused.boundAlike
  | .null, _ | .bool _, _ | .num _, _ | .text _, _ | .object _, _ => rfl

theorem outcome_compileEntries_thinned (only : OnlyHidden hides) : ∀ (items : List (Value R))
    {all left : List (Option (Modifiers (Members R)))},
    (∀ group, .object group ∈ items → shapeKind group = .group → isHidden group = false →
      UnusedIn hides group) → BoundAlike hides items all left →
    (compileEntries clock (thinnedItems hides items) left).outcome =
      (compileEntries clock items all).outcome
  | [], _, _, _, alike => by
      cases alike
      rfl
  | item :: rest, _, _, unused, alike => by
      have hrest := fun group h => unused group (List.mem_cons_of_mem _ h)
      rw [thinnedItems]
      cases alike with
      | leave hleft alikeRest =>
          rw [if_pos hleft, compileEntries, outcome_bind_nil]
          · exact outcome_compileEntries_thinned only rest hrest alikeRest
          · exact outcome_compileEntry_leftOut only hleft _
      | keep hkept alike alikeRest =>
          rw [if_neg hkept, compileEntries, compileEntries]
          have hlater := outcome_compileEntries_thinned only rest hrest alikeRest
          refine Traced.outcome_bind_congr hlater fun later =>
            Traced.outcome_bind_congr ?_ fun own => rfl
          refine outcome_compileEntry_thinned only item (fun shape hshape visible => ?_)
            fun shape hshape => unused shape (hshape ▸ List.mem_cons_self)
          rw [List.head?_cons, List.head?_cons, alike shape hshape visible]

theorem outcome_compileEntry_thinned (only : OnlyHidden hides) : ∀ (item : Value R)
    {modifiers kept : Modifiers (Members R)},
    (∀ shape, item = .object shape → isHidden shape = false → kept = modifiers) →
    (∀ shape, item = .object shape → shapeKind shape = .group → isHidden shape = false →
      UnusedIn hides shape) →
    (compileEntry clock kept (thinnedEntry hides item)).outcome =
      (compileEntry clock modifiers item).outcome
  | .object shape, modifiers, kept, alike, unused => by
      have hhd : isHidden (thinnedGroup hides shape) = isHidden shape := by
        rw [isHidden, get_thinnedGroup (by decide), isHidden]
      by_cases hgroup : shapeKind shape = .group
      · rw [thinnedEntry, if_pos hgroup]
        by_cases hidden : isHidden shape = true
        · rw [outcome_compileEntry_nothing (.inl (hhd.trans hidden)),
            outcome_compileEntry_nothing (.inl hidden)]
        · have hbelow := unused shape rfl hgroup (Bool.eq_false_iff.mpr hidden)
          rw [compileEntry_group (hhd ▸ hidden) (kind_thinnedGroup shape ▸ hgroup),
            compileEntry_group hidden hgroup, get_thinnedGroup_it]
          refine Traced.outcome_bind_congr (outcome_compileItems_thinned only shape hbelow.below)
            fun children => ?_
          rw [groupElement_thinnedGroup hbelow]
      · rw [thinnedEntry, if_neg hgroup]
        by_cases hidden : isHidden shape = true
        · rw [outcome_compileEntry_nothing (.inl hidden),
            outcome_compileEntry_nothing (.inl hidden)]
        · rw [alike shape rfl (Bool.eq_false_iff.mpr hidden)]
  | .null, _, _, _, _ | .bool _, _, _, _, _ | .num _, _, _, _, _ | .text _, _, _, _, _
  | .list _, _, _, _, _ => rfl

theorem outcome_compileItems_thinned (only : OnlyHidden hides) :
    ∀ members : List (String × Value R), Unused hides (Members.get members "it") →
    (compileItems clock (thinnedGroup hides members)).outcome = (compileItems clock members).outcome
  | [], _ => rfl
  | (key, value) :: rest, unused => by
      rw [Members.get, Members.get?_cons] at unused
      rw [thinnedGroup]
      by_cases hkey : key = "it"
      · rw [if_pos hkey] at unused ⊢
        rw [compileItems, compileItems, if_pos hkey, if_pos hkey]
        exact outcome_compileShapes_thinned only value unused
      · rw [if_neg hkey] at unused ⊢
        rw [compileItems, compileItems, if_neg hkey, if_neg hkey]
        exact outcome_compileItems_thinned only rest unused

end

/-! ## Hidden entries -/

/-- Whether an entry is a hidden outline or a hidden group. -/
def isHiddenDrawing (shape : Members R) : Bool :=
  isHidden shape && (shapeKind shape = .group || (shapeKind shape).isGeometry)

/-- Modifiers and transforms are neither outlines nor groups. -/
theorem unused_isHiddenDrawing (shapes : Value R) : Unused isHiddenDrawing shapes where
  modifiers items _ place shape _ _ modifiers hbound kind modifier h := by
    have hall : ∀ bound ∈ bindModifiers (shapeEntries items), ∀ modifiers, bound = some modifiers →
        modifiers.All fun kind modifier => shapeKind modifier = kind :=
      all_bindModifiers fun entry hentry => by
        obtain ⟨item, -, rfl⟩ := List.mem_map.mp hentry
        cases item <;> rfl
    have hshape := hall _ (List.mem_of_getElem? hbound) modifiers rfl kind modifier h
    have hkind := Modifiers.isModifier_of_eq_some h
    show isHiddenDrawing modifier = false
    rw [isHiddenDrawing, hshape]
    revert hkind
    cases kind <;> simp [ShapeKind.isModifier, ShapeKind.isGeometry]
  transforms items _ group _ _ _ transform h := by
    have hkind : ShapeKind.ofEntry transform = .transform := by simpa using List.find?_some h
    cases transform with
    | object shape =>
        have hshape : shapeKind shape = .transform := hkind
        show isHiddenDrawing shape = false
        simp [isHiddenDrawing, hshape, ShapeKind.isGeometry]
    | _ => cases hkind

/-- **Hidden and unknown entries leave no elements.**  A shape list compiles to the same elements
where all entries of unknown kind and all hidden outlines and groups are left out of it, at any
depth.  The hidden modifiers and transforms may be left out as well where no visible outline is
bound to a hidden modifier and no visible group has a hidden transform as its first one. -/
theorem compileShapes_thinned (shapes : Value R) :
    (compileShapes clock (thinned isHiddenDrawing shapes)).outcome =
        (compileShapes clock shapes).outcome ∧
      (Unused isHidden shapes → (compileShapes clock (thinned isHidden shapes)).outcome =
        (compileShapes clock shapes).outcome) := by
  have hdrawing : OnlyHidden (isHiddenDrawing : Members R → Bool) :=
    fun _ h => (Bool.and_eq_true_iff.mp h).1
  exact ⟨outcome_compileShapes_thinned hdrawing shapes (unused_isHiddenDrawing shapes),
    outcome_compileShapes_thinned (fun _ => id) shapes⟩

end Compiling

/-- Visible modifiers and a visible transform before hidden ones. -/
def shadowedItems : List (Value ℝ) :=
  [.object [("ty", .text "el")], .object [("ty", .text "fl")],
   .object [("ty", .text "fl"), ("hd", .bool true)], .object [("ty", .text "tr")],
   .object [("ty", .text "tr"), ("hd", .bool true),
     ("p", .object [("k", .list [.num (.whole 5)])])]]

/-- A group with these items before a hidden stroke. -/
def shadowedShapes : List (Value ℝ) :=
  [.object [("ty", .text "gr"), ("it", .list shadowedItems)],
   .object [("ty", .text "st"), ("hd", .bool true)]]

theorem ofEntry_shadowedItems : ∀ item ∈ shadowedItems, ShapeKind.ofEntry item ≠ .group := by
  decide

theorem eq_of_listedIn_shadowedShapes {items : List (Value ℝ)}
    (listed : ListedIn (.list shadowedShapes) items) :
    items = shadowedShapes ∨ items = shadowedItems := by
  cases listed with
  | self => exact .inl rfl
  | inGroup h kind _ listed =>
      rcases List.mem_cons.mp h with hfirst | h
      · cases hfirst
        have listed : ListedIn (.list shadowedItems) items := listed
        cases listed with
        | self => exact .inr rfl
        | inGroup h kind => exact absurd kind (ofEntry_shadowedItems _ h)
      · cases List.mem_singleton.mp h
        exact absurd kind (by decide)

theorem unused_shadowedShapes : Unused isHidden (.list shadowedShapes) where
  modifiers items listed place shape _ _ modifiers hbound := by
    have hmem := List.mem_of_getElem? hbound
    rcases eq_of_listedIn_shadowedShapes listed with rfl | rfl
    · have hnone : bindModifiers (shapeEntries shadowedShapes) = [none, none] := rfl
      rw [hnone] at hmem
      simp at hmem
    · have hfill : bindModifiers (shapeEntries shadowedItems) =
          [some ⟨some [("ty", .text "fl")], none, none, none⟩, none, none, none, none] := rfl
      rw [hfill] at hmem
      obtain rfl : modifiers = ⟨some [("ty", .text "fl")], none, none, none⟩ := by
        simpa using hmem
      intro kind modifier h
      cases kind <;> cases h
      rfl
  transforms items listed group h kind _ transform htransform := by
    rcases eq_of_listedIn_shadowedShapes listed with rfl | rfl
    · rcases List.mem_cons.mp h with hfirst | h
      · cases hfirst
        cases htransform
        rfl
      · cases List.mem_singleton.mp h
        exact absurd kind (by decide)
    · exact absurd kind (ofEntry_shadowedItems _ h)

theorem compileShapes_shadowedShapes :
    Unused isHidden (.list shadowedShapes) ∧
      (compileShapes Clock.steady (thinned isHidden (.list shadowedShapes))).outcome =
        (compileShapes Clock.steady (.list shadowedShapes)).outcome :=
  ⟨unused_shadowedShapes, (compileShapes_thinned _).2 unused_shadowedShapes⟩

/-- A group with an ellipse, a stroke and a transform, of which the last two are hidden. -/
def hiddenModifiers : List (Value ℝ) :=
  [.object [("ty", .text "gr"), ("it", .list
     [.object [("ty", .text "el")],
      .object [("ty", .text "st"), ("hd", .bool true), ("w", .object [("k", .num (.whole 3))])],
      .object [("ty", .text "tr"), ("hd", .bool true),
        ("p", .object [("k", .list [.num (.whole 5), .num (.whole 6)])])]])]]

/-- The hidden transform moves the group, and the hidden stroke widens the ellipse. -/
theorem exists_compileShapes_hiddenModifiers : ∃ ellipse plain : Element ℝ,
    (compileShapes Clock.steady (.list hiddenModifiers)).outcome = .ok
        [⟨.group, ⟨[("x", .num (.whole 5)), ("y", .num (.whole 6))], []⟩, some [ellipse], none⟩] ∧
      (compileShapes Clock.steady (thinned isHidden (.list hiddenModifiers))).outcome =
        .ok [⟨.group, ⟨[], []⟩, some [plain], none⟩] ∧
      ellipse.body.attributes.get "style" =
        .object [("fill", .text "none"), ("lineWidth", .num (.whole 3))] ∧
      plain.body.attributes.get "style" = .object [("fill", .text "none")] :=
  ⟨_, _, rfl, rfl, rfl, rfl⟩

theorem compileShapes_hiddenModifiers :
    (compileShapes Clock.steady (thinned isHidden (.list hiddenModifiers))).outcome ≠
      (compileShapes Clock.steady (.list hiddenModifiers)).outcome := by
  obtain ⟨ellipse, plain, hall, hleft, -⟩ := exists_compileShapes_hiddenModifiers
  rw [hall, hleft]
  exact nofun

end MotionScene
