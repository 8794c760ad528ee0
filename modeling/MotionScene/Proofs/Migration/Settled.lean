import MotionScene.Proofs.Migration.Repeating

/-!
# Layers that are settled

Closed flags that were handed on to the beziers of a layer are there (`Closed`), also after
the layer was completed, and handing them on again changes nothing (`Closed.closePaths_eq`).
The content of a completed layer can be completed again, and if its outlines are at rest, the
shapes stay as they are (`exists_completeContent_again`).
-/

namespace MotionScene

variable {R : Type} [Scalar R]

/-! ## The beziers of a layer -/

theorem LayerBezierAt.congr {layer other : Members R}
    (same : ∀ key ∈ bezierKeys, other.get? key = layer.get? key) {place : Place}
    {flag? : Option (Value R)} {bezier : Members R} (h : LayerBezierAt other place flag? bezier) :
    LayerBezierAt layer place flag? bezier := by
  have hget : ∀ key ∈ bezierKeys, other.get key = layer.get key := fun key hkey => by
    exact Members.get_congr (same key hkey)
  cases h with
  | mask item flag path inner =>
      exact .mask (item.congr (hget _ (by decide)) (same _ (by decide))) flag path inner
  | outline kind content item outline flag path inner =>
      rw [isLayerKind, hget _ (by decide)] at kind
      rw [same _ (by decide)] at content
      exact .outline kind content item outline flag path inner

omit [Scalar R] in
theorem BezierAt.mem_beziersOf {property : Value R} {place : Place} {bezier : Members R}
    (h : BezierAt property place bezier) : bezier ∈ beziersOf property := by
  cases h with
  | @static members _ content isBezier =>
      have hcontent : members.get "k" = .object bezier := by
        rw [Members.get, content]
        rfl
      show bezier ∈ beziersIn (members.get "k")
      rw [hcontent, beziersIn, if_pos isBezier]
      exact List.mem_cons_self
  | @keyframe members keyframe _ items rest index side content item known first isBezier =>
      have hcontent : members.get "k" = .list items := by
        rw [Members.get, content]
        rfl
      have hside : keyframe.get side = .list (.object bezier :: rest) := by
        rw [Members.get, first]
        rfl
      have hfirst : bezier ∈ firstBezier (keyframe.get side) := by
        rw [hside, firstBezier, ownBezier, if_pos isBezier]
        exact List.mem_cons_self
      show bezier ∈ beziersIn (members.get "k")
      rw [hcontent]
      refine List.mem_flatMap.mpr ⟨_, List.mem_of_getElem? item, List.mem_append.mpr ?_⟩
      rcases List.mem_pair.mp known with rfl | rfl
      · exact .inl hfirst
      · exact .inr hfirst

omit [Scalar R] in
theorem leavesOfItems_eq (members : Members R) :
    leavesOfItems members = shapeLeaves (members.get "it") := by
  induction members with
  | nil =>
      rw [leavesOfItems, Members.get, Members.get?, Option.getD_none, shapeLeaves]
      rintro _ ⟨⟩
  | cons entry rest ih =>
      obtain ⟨key, value⟩ := entry
      rw [leavesOfItems, Members.get, Members.get?_cons]
      split
      · rfl
      · exact ih

omit [Scalar R] in
theorem EntryAt.mem_shapeLeaves {shapes : Value R} {place : Place} {entry : Members R}
    (h : EntryAt shapes place entry) : entry ∈ shapeLeaves shapes := by
  have hitems : ∀ {items : List (Value R)} {index : Nat} {item : Value R},
      items[index]? = some item → entry ∈ leavesOfEntry item → entry ∈ leavesOfEntries items := by
    intro items index item hitem hentry
    induction items generalizing index with
    | nil => cases hitem
    | cons first rest ih =>
        rw [leavesOfEntries]
        cases index with
        | zero =>
            obtain rfl : first = item := Option.some.inj hitem
            exact List.mem_append_left _ hentry
        | succ index => exact List.mem_append_right _ (ih hitem)
  induction h with
  | leaf item leaf =>
      rw [shapeLeaves]
      refine hitems item ?_
      rw [leavesOfEntry, if_neg (by simpa using leaf)]
      exact List.mem_cons_self
  | grouped item isGroup content _ ih =>
      rw [shapeLeaves]
      refine hitems item ?_
      rw [leavesOfEntry, if_pos isGroup, leavesOfItems_eq, Members.get, content]
      exact ih hitems

omit [Scalar R] in
/-- A change of outlines that leaves their kind alone leaves the kind of every entry alone. -/
theorem keepsKind_outlines {change : Change (Members R)}
    (hchange : ∀ entry own : Members R, change entry = .ok own → own.get "ty" = entry.get "ty") :
    KeepsKind fun entry : Members R =>
      if (entry.get "ty").isText "sh" then change entry else .ok entry := by
  intro entry own hown
  dsimp only at hown
  split at hown
  · exact hchange entry own hown
  · rw [Except.ok.inj hown]

/-- The masks of a completed layer are completed before its own content, which touches none of
them. -/
theorem exists_completeMasks {layer result : Members R}
    (completed : completeContent layer = .ok result) :
    ∃ masked, completeMasks layer = .ok masked ∧
      ∀ key ∈ ["hasMask", "masksProperties"], result.get? key = masked.get? key := by
  obtain ⟨masked, hmasked, hrest⟩ := bind_eq_ok.mp completed
  refine ⟨masked, hmasked, fun key hkey => ?_⟩
  have hshapes : "shapes" ≠ key := fun h => by
    subst h
    exact absurd hkey (by decide)
  have hwhole : "singleShape" ≠ key := fun h => by
    subst h
    exact absurd hkey (by decide)
  split at hrest
  · exact Members.get?_adjust_of_ne hrest hshapes
  · rw [← pure_eq_ok.mp hrest, completeText]
    split
    · exact Members.get?_set_of_ne _ _ hwhole
    · rfl
  · rw [← pure_eq_ok.mp hrest]

/-- The bezier at a place of a completed layer is the one that stood there, with absolute
handles. -/
theorem exists_layerBezierAt_completeContent {layer result : Members R}
    (completed : completeContent layer = .ok result) {place : Place} {flag? : Option (Value R)}
    {own : Members R} (h : LayerBezierAt result place flag? own) :
    ∃ bezier, LayerBezierAt layer place flag? bezier ∧ makeAbsolute bezier = .ok own := by
  have hbezier : ∀ {pathKey : String} {members made : Members R} {property : Value R}
      {within : Place}, members.adjust pathKey completeBeziers = .ok made →
      made.get? pathKey = some property → BezierAt property within own →
      ∃ given bezier, members.get? pathKey = some given ∧ BezierAt given within bezier ∧
        makeAbsolute bezier = .ok own := by
    intro pathKey members made property within hadjusted path inner
    obtain ⟨given, hgiven, hbeziers⟩ := exists_of_rel_right (Members.rel_adjust hadjusted) path
    obtain ⟨bezier, hat, habsolute⟩ := exists_bezierAt hbeziers inner
    exact ⟨given, bezier, hgiven, hat, habsolute⟩
  cases h with
  | mask item flag path inner =>
      obtain ⟨masked, hmasked, hsame⟩ := exists_completeMasks completed
      have hflagged : result.get "hasMask" = masked.get "hasMask" := by
        exact Members.get_congr (hsame _ (by decide))
      obtain ⟨mask, hmask, hown⟩ := exists_maskAt hmasked (item.congr hflagged (hsame _ (by decide)))
      obtain ⟨given, bezier, hgiven, hat, habsolute⟩ := hbezier hown path inner
      rw [Members.get?_adjust_of_ne hown (by decide)] at flag
      exact ⟨bezier, .mask hmask flag hgiven hat, habsolute⟩
  | outline kind content item outline flag path inner =>
      obtain ⟨masked, hmasked, hrest⟩ := bind_eq_ok.mp completed
      have hsame : result.get "ty" = layer.get "ty" := by
        exact Members.get_congr (get?_completeContent completed (by decide))
      have hkind : masked.get "ty" = layer.get "ty" := get_changeMasks hmasked (by decide)
      rw [isLayerKind, hsame] at kind
      rw [hkind, of_decide_eq_true kind] at hrest
      obtain ⟨shapes, hshapes, hchanged⟩ := exists_of_rel_right (Members.rel_adjust hrest) content
      have hkeeps : KeepsKind fun entry : Members R =>
          if (entry.get "ty").isText "sh" then entry.adjust "ks" completeBeziers else .ok entry :=
        keepsKind_outlines fun _ _ hown => Members.get_adjust_of_ne hown (by decide)
      obtain ⟨entry, hentry, hown⟩ := exists_entryAt hkeeps hchanged item
      rw [hkeeps _ _ hown] at outline
      rw [if_pos outline] at hown
      obtain ⟨given, bezier, hgiven, hat, habsolute⟩ := hbezier hown path inner
      rw [Members.get?_adjust_of_ne hown (by decide)] at flag
      rw [get?_changeMasks hmasked (by decide)] at hshapes
      exact ⟨bezier, .outline kind hshapes hentry outline flag hgiven hat, habsolute⟩

/-! ## Closed flags -/

/-- A layer whose closed flags have been handed on to the beziers that they are for. -/
structure Closed (layer : Members R) : Prop where
  fit : Flaw.masks.isIn layer = false
  flags : ∀ place flag bezier, LayerBezierAt layer place (some flag) bezier →
    bezier.get? "c" = some flag

omit [Scalar R] in
theorem get?_of_closeUnder {flagKey pathKey : String} {members result : Members R}
    (closed : closeUnder flagKey pathKey members = .ok result) (hne : pathKey ≠ flagKey)
    {flag property : Value R} (hflag : result.get? flagKey = some flag)
    (path : result.get? pathKey = some property) {place : Place} {bezier : Members R}
    (h : BezierAt property place bezier) : bezier.get? "c" = some flag := by
  have hkept := get?_closeUnder closed hne
  unfold closeUnder at closed
  rw [← hkept, hflag] at closed
  obtain ⟨given, -, hbeziers⟩ := exists_of_rel_right (Members.rel_adjust closed) path
  obtain ⟨source, -, hset⟩ := exists_bezierAt hbeziers h
  cases hset
  exact Members.get?_set_self _ _ _

theorem closed_closePaths {layer result : Members R} (closed : closePaths layer = .ok result) :
    Closed result := by
  obtain ⟨masked, hmasked, hrest⟩ := bind_eq_ok.mp closed
  -- the shapes are closed after the masks, and touch none of them
  have hother : ∀ key, "shapes" ≠ key → result.get? key = masked.get? key := by
    intro key hkey
    split at hrest
    · exact Members.get?_adjust_of_ne hrest hkey
    · rw [← pure_eq_ok.mp hrest]
  have hget : ∀ key, "shapes" ≠ key → result.get key = masked.get key := fun key hkey => by
    rw [Members.get, Members.get, hother key hkey]
  refine ⟨?_, fun place flag bezier h => ?_⟩
  · rw [Flaw.isIn_congr .masks fun key hkey => hget key fun h => ?_]
    · exact fit_changeMasks hmasked
    · subst h
      exact absurd hkey (by decide)
  · cases h with
    | mask item flag path inner =>
        obtain ⟨mask, -, hown⟩ :=
          exists_maskAt hmasked (item.congr (hget _ (by decide)) (hother _ (by decide)))
        exact get?_of_closeUnder hown (by decide) flag path inner
    | outline kind content item outline flag path inner =>
        have hkind : isLayerKind .shape masked = true := by
          rw [isLayerKind, ← hget _ (by decide)]
          exact kind
        rw [if_pos hkind] at hrest
        obtain ⟨shapes, -, hchanged⟩ := exists_of_rel_right (Members.rel_adjust hrest) content
        have hkeeps : KeepsKind fun entry : Members R =>
            if (entry.get "ty").isText "sh" then closeUnder "closed" "ks" entry else .ok entry :=
          keepsKind_outlines fun _ _ hown => get_closeUnder hown (by decide)
        obtain ⟨entry, -, hown⟩ := exists_entryAt hkeeps hchanged item
        rw [hkeeps _ _ hown] at outline
        rw [if_pos outline] at hown
        exact get?_of_closeUnder hown (by decide) flag path inner

namespace Closed

variable {layer result : Members R}

theorem congr (same : ∀ key ∈ bezierKeys, result.get? key = layer.get? key)
    (closed : Closed layer) : Closed result where
  fit := by
    rw [← closed.fit]
    refine Flaw.isIn_congr .masks fun key hkey => ?_
    exact Members.get_congr (same key (by revert key; decide))
  flags place flag bezier h := closed.flags place flag bezier (h.congr same)

theorem completeContent (closed : Closed layer)
    (completed : completeContent layer = .ok result) : Closed result where
  fit := by
    obtain ⟨masked, hmasked, hsame⟩ := exists_completeMasks completed
    rw [← fit_changeMasks hmasked]
    refine Flaw.isIn_congr .masks fun key hkey => ?_
    exact Members.get_congr (hsame key hkey)
  flags place flag own h := by
    obtain ⟨bezier, hbezier, habsolute⟩ := exists_layerBezierAt_completeContent completed h
    rw [get?_makeAbsolute habsolute (by decide)]
    exact closed.flags place flag bezier hbezier

/-- Closed flags that have been handed on can be handed on again. -/
theorem closePaths_eq (closed : Closed layer) : closePaths layer = .ok layer := by
  have hunder : ∀ {flagKey pathKey : String} {members : Members R},
      (∀ flag property place bezier, members.get? flagKey = some flag →
        members.get? pathKey = some property → BezierAt property place bezier →
        bezier.get? "c" = some flag) →
      Passes True (closeUnder flagKey pathKey) members := by
    intro flagKey pathKey members hflags
    unfold Passes closeUnder
    split
    · rename_i flag hflag
      refine passes_adjust fun property hproperty => passes_changeBeziers fun place bezier hat => ?_
      refine .of_eq ?_
      rw [Members.set_of_get? (hflags flag property place bezier hflag hproperty hat)]
    · exact ⟨members, rfl, fun _ => rfl⟩
  have hmasks : Passes True (changeMasks (closeUnder "cl" "pt")) layer := by
    refine passes_changeMasks closed.fit fun place mask item => hunder ?_
    exact fun flag property within bezier hflag hpath hat =>
      closed.flags _ flag bezier (.mask item hflag hpath hat)
  rw [closePaths, hmasks.eq, ok_bind]
  split
  · rename_i hkind
    refine Passes.eq (passes_adjust fun shapes hshapes => passes_changeShapes shapes ?_)
    refine fun place entry item => .ite fun houtline => hunder ?_
    exact fun flag property within bezier hflag hpath hat =>
      closed.flags _ flag bezier (.outline hkind hshapes item houtline hflag hpath hat)
  · rfl

end Closed

/-! ## Completing content again -/

/-- The content of a completed layer can be completed again.  The shapes stay if the outlines
among them are at rest. -/
theorem exists_completeContent_again {layer own other : Members R}
    (completed : completeContent layer = .ok own)
    (same : ∀ key ∈ bezierKeys, other.get? key = own.get? key)
    (rest : ∀ bezier ∈ shapeBeziers own, makeAbsolute bezier = .ok bezier) :
    ∃ result, completeContent other = .ok result ∧
      (isLayerKind .shape own = true → result.get? "shapes" = own.get? "shapes") := by
  have hget : ∀ key ∈ bezierKeys, other.get key = own.get key := fun key hkey => by
    exact Members.get_congr (same key hkey)
  obtain ⟨masked, hmasked, -⟩ : Passes False completeMasks other := by
    refine passes_changeMasks ?_ fun place mask item => ?_
    · obtain ⟨first, hfirst, hsame⟩ := exists_completeMasks completed
      rw [← fit_changeMasks hfirst]
      refine Flaw.isIn_congr .masks fun key hkey => ?_
      rw [hget key (by revert key; decide), Members.get, Members.get, hsame key hkey]
    · refine passes_adjust fun property hpath => passes_changeBeziers fun within bezier hat => ?_
      have hown : LayerBezierAt own _ _ bezier := .congr same (.mask item rfl hpath hat)
      obtain ⟨source, -, habsolute⟩ := exists_layerBezierAt_completeContent completed hown
      exact repeatable_makeAbsolute source bezier habsolute
  have hkey : ∀ key, "masksProperties" ≠ key → masked.get? key = other.get? key :=
    fun _ hkey => get?_changeMasks hmasked hkey
  have hkind : masked.get "ty" = own.get "ty" := by
    rw [Members.get, hkey _ (by decide), ← hget _ (by decide), Members.get]
  by_cases kind : isLayerKind .shape own = true
  · refine ⟨masked, ?_, fun _ => by rw [hkey _ (by decide), same _ (by decide)]⟩
    rw [completeContent, hmasked, ok_bind, hkind, of_decide_eq_true kind]
    refine Passes.eq (passes_adjust fun shapes hshapes => passes_changeShapes shapes ?_)
    refine fun place entry item => .ite fun houtline => passes_adjust fun property hpath => ?_
    refine passes_changeBeziers fun within bezier hat => .of_eq (rest bezier ?_)
    rw [hkey _ (by decide), same _ (by decide)] at hshapes
    rw [shapeBeziers, if_pos kind, Members.get, hshapes]
    refine List.mem_flatMap.mpr ⟨entry, item.mem_shapeLeaves, ?_⟩
    rw [outlineBeziers, if_pos houtline, Members.get, hpath]
    exact hat.mem_beziersOf
  · -- nothing but shapes is completed with a fault
    obtain ⟨result, hresult⟩ : ∃ result, completeContent other = .ok result := by
      rw [completeContent, hmasked, ok_bind]
      split
      · rename_i hshape
        rw [hkind] at hshape
        exact absurd (decide_eq_true hshape) kind
      · exact ⟨_, rfl⟩
      · exact ⟨_, rfl⟩
    exact ⟨result, hresult, fun h => absurd h kind⟩

end MotionScene
