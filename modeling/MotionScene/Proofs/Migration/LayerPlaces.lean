import MotionScene.Proofs.Migration.Encodings
import MotionScene.Proofs.Migration.Named

/-!
# The places of a layer that a migration names

A layer has channels in the colors of its shapes, closed flags and handles in the beziers of
its masks and outlines, and a text with path options.  Migrating an encoding of a layer
changes the places that the migration names, and makes no others that a later migration would
name (`NoNewPlaces`): so the places named by all migrations together are known from the layer
as it was given.
-/

namespace MotionScene

variable {R : Type} [Scalar R]

/-! ## Beziers and colors of a layer -/

/-- The beziers of a layer with their places, and with the closed flag of the mask or outline
around them if it has one. -/
inductive LayerBezierAt (layer : Members R) : Place → Option (Value R) → Members R → Prop
  | mask {place within : Place} {flag? : Option (Value R)} {mask bezier : Members R}
      {property : Value R} (item : MaskAt layer place mask) (flag : mask.get? "cl" = flag?)
      (path : mask.get? "pt" = some property) (inner : BezierAt property within bezier) :
      LayerBezierAt layer (place ++ .key "pt" :: within) flag? bezier
  | outline {place within : Place} {flag? : Option (Value R)} {entry bezier : Members R}
      {shapes property : Value R} (kind : isLayerKind .shape layer = true)
      (content : layer.get? "shapes" = some shapes) (item : EntryAt shapes place entry)
      (outline : (entry.get "ty").isText "sh" = true) (flag : entry.get? "closed" = flag?)
      (path : entry.get? "ks" = some property) (inner : BezierAt property within bezier) :
      LayerBezierAt layer (.key "shapes" :: (place ++ .key "ks" :: within)) flag? bezier

/-- The closed flags of the beziers in a layer that a mask or an outline has a flag for. -/
inductive FlagAt (layer : Members R) : Place → Prop
  | intro {place : Place} {flag : Value R} {bezier : Members R}
      (path : LayerBezierAt layer place (some flag) bezier) : FlagAt layer (place ++ [.key "c"])

/-- The coordinates of the handles in a layer. -/
inductive HandleAt (layer : Members R) : Place → Prop
  | intro {place inner : Place} {flag? : Option (Value R)} {bezier : Members R}
      (path : LayerBezierAt layer place flag? bezier) (coordinate : CoordinateAt bezier inner) :
      HandleAt layer (place ++ inner)

omit [Scalar R] in
/-- The channels of the colors in a shape layer. -/
inductive LayerChannelAt (layer : Members R) : Place → Prop
  | intro {place inner : Place} {entry : Members R} {shapes : Value R}
      (content : layer.get? "shapes" = some shapes) (item : EntryAt shapes place entry)
      (channel : EntryChannelAt entry inner) :
      LayerChannelAt layer (.key "shapes" :: (place ++ inner))

theorem sameBut_rescaled {layer result : Members R}
    (rescaled : layer.adjust "shapes" (changeShapes rescaleEntry) = .ok result) :
    SameBut (LayerChannelAt layer) (.object layer) (.object result) := by
  refine sameBut_adjust rescaled fun shapes own hshapes hown => ?_
  refine sameBut_changeShapes shapes (fun place entry own hentry hown => ?_) hown
  exact (sameBut_rescaleEntry hown).mono fun _ hchannel => .intro hshapes hentry hchannel

/-! ## Closed flags -/

omit [Scalar R] in
theorem sameBut_closeUnder {flagKey pathKey : String} {named : Place → Prop}
    {members result : Members R}
    (hnamed : ∀ flag property place bezier, members.get? flagKey = some flag →
      members.get? pathKey = some property → BezierAt property place bezier →
      named (.key pathKey :: (place ++ [.key "c"])))
    (closed : closeUnder flagKey pathKey members = .ok result) :
    SameBut named (.object members) (.object result) := by
  unfold closeUnder at closed
  split at closed
  · rename_i flag hflag
    refine sameBut_adjust closed fun property own hproperty hown => ?_
    refine sameBut_changeBeziers (fun place bezier own hbezier hset => ?_) hown
    cases hset
    exact sameBut_set (hnamed flag property place bezier hflag hproperty hbezier) flag
  · cases closed
    exact .refl _

theorem sameBut_closePaths {layer result : Members R} (closed : closePaths layer = .ok result) :
    SameBut (FlagAt layer) (.object layer) (.object result) := by
  obtain ⟨masked, hmasked, hrest⟩ := bind_eq_ok.mp closed
  have hmasks : SameBut (FlagAt layer) (.object layer) (.object masked) := by
    refine sameBut_changeMasks (fun place mask own hmask hown => ?_) hmasked
    refine sameBut_closeUnder (fun flag property within bezier hflag hpath hbezier => ?_) hown
    have hnamed : FlagAt layer _ := .intro (.mask hmask hflag hpath hbezier)
    rwa [List.append_assoc] at hnamed
  refine hmasks.trans ?_
  split at hrest
  · rename_i hkind
    refine sameBut_adjust hrest fun shapes own hshapes hown => ?_
    refine sameBut_changeShapes shapes (fun place entry own hentry hown => ?_) hown
    split at hown
    · rename_i houtline
      refine sameBut_closeUnder (fun flag property within bezier hflag hpath hbezier => ?_) hown
      rw [get?_changeMasks hmasked (by decide)] at hshapes
      rw [isLayerKind, get_changeMasks hmasked (by decide)] at hkind
      have hnamed : FlagAt layer _ :=
        .intro (.outline hkind hshapes hentry houtline hflag hpath hbezier)
      rwa [List.cons_append, List.append_assoc] at hnamed
    · cases hown
      exact .refl _
  · rw [← pure_eq_ok.mp hrest]
    exact .refl _

/-! ## Completed content -/

/-- The places that completing a layer by itself names. -/
inductive ContentAt (layer : Members R) : Place → Prop
  | handle {place : Place} (handle : HandleAt layer place) : ContentAt layer place
  | whole (kind : isLayerKind .text layer = true) : ContentAt layer [.key "singleShape"]

theorem sameBut_completeMasks {layer result : Members R}
    (completed : completeMasks layer = .ok result) :
    SameBut (HandleAt layer) (.object layer) (.object result) := by
  refine sameBut_changeMasks (fun place mask own hmask hown => ?_) completed
  refine sameBut_adjust hown fun property own hpath hbeziers => ?_
  refine sameBut_changeBeziers (fun within bezier own hbezier habsolute => ?_) hbeziers
  refine (sameBut_makeAbsolute habsolute).mono fun inner hcoordinate => ?_
  have hnamed : HandleAt layer _ := .intro (.mask hmask rfl hpath hbezier) hcoordinate
  rwa [List.append_assoc] at hnamed

theorem sameBut_completeShapes {layer masked result : Members R}
    (kind : isLayerKind .shape layer = true)
    (same : masked.get? "shapes" = layer.get? "shapes")
    (completed : completeShapes masked = .ok result) :
    SameBut (HandleAt layer) (.object masked) (.object result) := by
  refine sameBut_adjust completed fun shapes own hshapes hown => ?_
  refine sameBut_changeShapes shapes (fun place entry own hentry hown => ?_) hown
  split at hown
  · rename_i houtline
    refine sameBut_adjust hown fun property own hpath hbeziers => ?_
    refine sameBut_changeBeziers (fun within bezier own hbezier habsolute => ?_) hbeziers
    refine (sameBut_makeAbsolute habsolute).mono fun inner hcoordinate => ?_
    have hnamed : HandleAt layer _ :=
      .intro (.outline kind (same ▸ hshapes) hentry houtline rfl hpath hbezier) hcoordinate
    rwa [List.cons_append, List.append_assoc] at hnamed
  · cases hown
    exact .refl _

theorem sameBut_completeContent {layer result : Members R}
    (completed : completeContent layer = .ok result) :
    SameBut (ContentAt layer) (.object layer) (.object result) := by
  obtain ⟨masked, hmasked, hrest⟩ := bind_eq_ok.mp completed
  have hkind : masked.get "ty" = layer.get "ty" := get_changeMasks hmasked (by decide)
  have hhandle : ∀ place, HandleAt layer place → ContentAt layer place := fun _ => .handle
  refine ((sameBut_completeMasks hmasked).mono hhandle).trans ?_
  rw [hkind] at hrest
  split at hrest
  · rename_i hshape
    refine (sameBut_completeShapes (decide_eq_true hshape) ?_ hrest).mono hhandle
    exact get?_changeMasks hmasked (by decide)
  · rename_i htext
    rw [← pure_eq_ok.mp hrest, completeText]
    split
    · exact sameBut_set (.whole (decide_eq_true htext)) _
    · exact .refl _
  · rw [← pure_eq_ok.mp hrest]
    exact .refl _

/-! ## Layers with no new places -/

/-- A layer that says the same about itself as another one, and has no places that a later
migration names but those that the other one has. -/
structure NoNewPlaces (source layer : Members R) : Prop where
  members : ∀ key ∉ ["shapes", "t", "masksProperties"], layer.get? key = source.get? key
  options : ∀ place, OptionAt layer place → OptionAt source place
  beziers : ∀ place flag? own, LayerBezierAt layer place flag? own →
    ∃ bezier, LayerBezierAt source place flag? bezier ∧ SameHandles bezier own

namespace NoNewPlaces

variable {first second third : Members R}

theorem refl (layer : Members R) : NoNewPlaces layer layer where
  members _ _ := rfl
  options _ := id
  beziers _ _ own h := ⟨own, h, fun _ _ => rfl⟩

theorem trans (h : NoNewPlaces first second) (h' : NoNewPlaces second third) :
    NoNewPlaces first third where
  members key hkey := (h'.members key hkey).trans (h.members key hkey)
  options place := h.options place ∘ h'.options place
  beziers place flag? own hown := by
    obtain ⟨middle, hmiddle, hsame⟩ := h'.beziers place flag? own hown
    obtain ⟨bezier, hbezier, hsame'⟩ := h.beziers place flag? middle hmiddle
    exact ⟨bezier, hbezier, IsTrans.trans _ _ _ hsame' hsame⟩

theorem get (h : NoNewPlaces first second) {key : String}
    (hkey : key ∉ ["shapes", "t", "masksProperties"]) : second.get key = first.get key := by
  exact Members.get_congr (h.members key hkey)

theorem isLayerKind (h : NoNewPlaces first second) (kind : LayerKind) :
    isLayerKind kind second = MotionScene.isLayerKind kind first := by
  rw [MotionScene.isLayerKind, MotionScene.isLayerKind, h.get (by decide)]

theorem isCompletable (h : NoNewPlaces first second) :
    isCompletable second = MotionScene.isCompletable first := by
  rw [MotionScene.isCompletable, MotionScene.isCompletable, Members.has, Members.has,
    h.members _ (by decide)]

theorem flag (h : NoNewPlaces first second) {place : Place} (named : FlagAt second place) :
    FlagAt first place := by
  obtain ⟨path⟩ := named
  obtain ⟨bezier, hbezier, -⟩ := h.beziers _ _ _ path
  exact .intro hbezier

theorem content (h : NoNewPlaces first second) {place : Place} (named : ContentAt second place) :
    ContentAt first place := by
  cases named with
  | handle handle =>
      obtain ⟨path, coordinate⟩ := handle
      obtain ⟨bezier, hbezier, hsame⟩ := h.beziers _ _ _ path
      exact .handle (.intro hbezier (coordinate.of_same hsame))
  | whole kind => exact .whole ((h.isLayerKind .text).symm.trans kind)

end NoNewPlaces

theorem MaskAt.congr {layer own mask : Members R} {place : Place}
    (hflag : own.get "hasMask" = layer.get "hasMask")
    (hmasks : own.get? "masksProperties" = layer.get? "masksProperties")
    (h : MaskAt own place mask) : MaskAt layer place mask := by
  obtain ⟨flagged, content, item⟩ := h
  exact .intro (hflag ▸ flagged) (hmasks ▸ content) item

/-- Rescaling colors makes no new places. -/
theorem noNewPlaces_rescaled {layer result : Members R}
    (rescaled : layer.adjust "shapes" (changeShapes rescaleEntry) = .ok result) :
    NoNewPlaces layer result := by
  have hother : ∀ key, "shapes" ≠ key → result.get? key = layer.get? key :=
    fun _ hkey => Members.get?_adjust_of_ne rescaled hkey
  have hget : ∀ key, "shapes" ≠ key → result.get key = layer.get key :=
    fun _ hkey => Members.get_adjust_of_ne rescaled hkey
  -- only the color of an entry is touched
  have hentry : ∀ entry own : Members R, rescaleEntry entry = .ok own → ∀ key, "c" ≠ key →
      own.get? key = entry.get? key := by
    intro entry own hown key hkey
    unfold rescaleEntry at hown
    split at hown
    · exact Members.get?_adjust_of_ne hown hkey
    · rw [Except.ok.inj hown]
  have hkind : KeepsKind (rescaleEntry (R := R)) := fun entry own hown => by
    exact Members.get_congr (hentry entry own hown _ (by decide))
  refine ⟨fun key hkey => hother key fun h => hkey (h ▸ by decide), fun place h => ?_,
    fun place flag? own h => ?_⟩
  · obtain ⟨words, options, known, number⟩ := h
    exact .intro ((hother _ (by decide)).symm.trans words) options known number
  · refine ⟨own, ?_, fun _ _ => rfl⟩
    cases h with
    | mask item flag path inner =>
        exact .mask (item.congr (hget _ (by decide)) (hother _ (by decide))) flag path inner
    | outline kind content item outline flag path inner =>
        obtain ⟨given, hgiven, hchanged⟩ :=
          exists_of_rel_right (Members.rel_adjust rescaled) content
        obtain ⟨entry, hat, hown⟩ := exists_entryAt hkind hchanged item
        rw [isLayerKind, hget _ (by decide)] at kind
        rw [hkind _ _ hown] at outline
        rw [hentry _ _ hown _ (by decide)] at flag path
        exact .outline kind hgiven hat outline flag path inner

/-- A change of the text of a layer makes no new beziers. -/
theorem noNewPlaces_words {change : Change (Value R)} {layer result : Members R}
    (changed : layer.adjust "t" change = .ok result)
    (hoptions : ∀ place, OptionAt result place → OptionAt layer place) :
    NoNewPlaces layer result := by
  have hother : ∀ key, "t" ≠ key → result.get? key = layer.get? key :=
    fun _ hkey => Members.get?_adjust_of_ne changed hkey
  have hget : ∀ key, "t" ≠ key → result.get key = layer.get key :=
    fun _ hkey => Members.get_adjust_of_ne changed hkey
  refine ⟨fun key hkey => hother key fun h => hkey (h ▸ by decide), hoptions,
    fun place flag? own h => ⟨own, ?_, fun _ _ => rfl⟩⟩
  cases h with
  | mask item flag path inner =>
      exact .mask (item.congr (hget _ (by decide)) (hother _ (by decide))) flag path inner
  | outline kind content item outline flag path inner =>
      rw [isLayerKind, hget _ (by decide)] at kind
      rw [hother _ (by decide)] at content
      exact .outline kind content item outline flag path inner

theorem noNewPlaces_wrapTextDocument {layer result : Members R}
    (wrapped : wrapTextDocument layer = .ok result) : NoNewPlaces layer result := by
  refine noNewPlaces_words wrapped fun place h => ?_
  obtain ⟨words, options, known, number⟩ := h
  obtain ⟨given, hgiven, htext⟩ := exists_of_rel_right (Members.rel_adjust wrapped) words
  obtain ⟨text, rfl, hadjusted⟩ := adjustMembers_eq_object htext
  rw [Members.get?_adjust_of_ne hadjusted (by decide)] at options
  exact .intro hgiven options known number

omit [Scalar R] in
/-- No path option is a number any more once they have been wrapped. -/
theorem not_optionAt_wrapTextPath {layer result : Members R}
    (wrapped : wrapTextPath layer = .ok result) (place : Place) : ¬ OptionAt result place := by
  rintro @⟨text, path, key, n, words, options, known, number⟩
  obtain ⟨given, -, htext⟩ := exists_of_rel_right (Members.rel_adjust wrapped) words
  obtain ⟨text, rfl, hadjusted⟩ := adjustMembers_eq_object htext
  obtain ⟨given, -, hpath⟩ := exists_of_rel_right (Members.rel_adjust hadjusted) options
  obtain ⟨path, rfl, hsteps⟩ := adjustMembers_eq_object hpath
  obtain ⟨first, hfirst, hrest⟩ := bind_eq_ok.mp hsteps
  obtain ⟨second, hsecond, hthird⟩ := bind_eq_ok.mp hrest
  have hwrapped : ∀ {before after : Members R}, before.adjust key wrapOption = .ok after →
      after.get? key ≠ some (.num n) := by
    intro before after hadjusted hnumber
    obtain ⟨value, -, hvalue⟩ := exists_of_rel_right (Members.rel_adjust hadjusted) hnumber
    cases value <;> cases hvalue
  simp only [List.mem_cons, List.not_mem_nil, or_false] at known
  rcases known with rfl | rfl | rfl
  · rw [Members.get?_adjust_of_ne hthird (by decide),
      Members.get?_adjust_of_ne hsecond (by decide)] at number
    exact hwrapped hfirst number
  · rw [Members.get?_adjust_of_ne hthird (by decide)] at number
    exact hwrapped hsecond number
  · exact hwrapped hthird number

theorem noNewPlaces_wrapTextPath {layer result : Members R}
    (wrapped : wrapTextPath layer = .ok result) : NoNewPlaces layer result :=
  noNewPlaces_words wrapped fun place h => absurd h (not_optionAt_wrapTextPath wrapped place)

omit [Scalar R] in
/-- Handing a closed flag on leaves every bezier where it was, with its handles. -/
theorem exists_bezierAt_closeUnder {flagKey pathKey : String} {members result : Members R}
    (closed : closeUnder flagKey pathKey members = .ok result) {property : Value R}
    (path : result.get? pathKey = some property) {place : Place} {own : Members R}
    (h : BezierAt property place own) : ∃ given bezier, members.get? pathKey = some given ∧
      BezierAt given place bezier ∧ SameHandles bezier own := by
  unfold closeUnder at closed
  split at closed
  · obtain ⟨given, hgiven, hbeziers⟩ := exists_of_rel_right (Members.rel_adjust closed) path
    obtain ⟨bezier, hbezier, hset⟩ := exists_bezierAt hbeziers h
    cases hset
    refine ⟨given, bezier, hgiven, hbezier, fun key hkey => Members.get_set_of_ne _ _ ?_⟩
    rintro rfl
    exact absurd hkey (by decide)
  · rw [← Except.ok.inj closed] at path
    exact ⟨property, own, path, h, fun _ _ => rfl⟩

theorem noNewPlaces_closedMasks {layer result : Members R}
    (closed : changeMasks (closeUnder "cl" "pt") layer = .ok result) :
    NoNewPlaces layer result := by
  have hother : ∀ key, "masksProperties" ≠ key → result.get? key = layer.get? key :=
    fun _ hkey => get?_changeMasks closed hkey
  refine ⟨fun key hkey => hother key fun h => hkey (h ▸ by decide), fun place h => ?_,
    fun place flag? own h => ?_⟩
  · obtain ⟨words, options, known, number⟩ := h
    exact .intro ((hother _ (by decide)).symm.trans words) options known number
  · cases h with
    | mask item flag path inner =>
        obtain ⟨mask, hmask, hown⟩ := exists_maskAt closed item
        obtain ⟨given, bezier, hgiven, hbezier, hsame⟩ := exists_bezierAt_closeUnder hown path inner
        rw [get?_closeUnder hown (by decide)] at flag
        exact ⟨bezier, .mask hmask flag hgiven hbezier, hsame⟩
    | outline kind content item outline flag path inner =>
        rw [isLayerKind, get_changeMasks closed (by decide)] at kind
        rw [hother _ (by decide)] at content
        exact ⟨own, .outline kind content item outline flag path inner, fun _ _ => rfl⟩

theorem noNewPlaces_closedShapes {layer result : Members R}
    (closed : layer.adjust "shapes" (changeShapes fun entry =>
      if (entry.get "ty").isText "sh" then closeUnder "closed" "ks" entry else .ok entry) =
        .ok result) : NoNewPlaces layer result := by
  have hother : ∀ key, "shapes" ≠ key → result.get? key = layer.get? key :=
    fun _ hkey => Members.get?_adjust_of_ne closed hkey
  have hget : ∀ key, "shapes" ≠ key → result.get key = layer.get key :=
    fun _ hkey => Members.get_adjust_of_ne closed hkey
  refine ⟨fun key hkey => hother key fun h => hkey (h ▸ by decide), fun place h => ?_,
    fun place flag? own h => ?_⟩
  · obtain ⟨words, options, known, number⟩ := h
    exact .intro ((hother _ (by decide)).symm.trans words) options known number
  · cases h with
    | mask item flag path inner =>
        have hitem := item.congr (hget _ (by decide)) (hother _ (by decide))
        exact ⟨own, .mask hitem flag path inner, fun _ _ => rfl⟩
    | @outline place within _ changed _ _ _ kind content item outline flag path inner =>
        obtain ⟨shapes, hshapes, hchanged⟩ :=
          exists_of_rel_right (Members.rel_adjust closed) content
        have hkind : KeepsKind fun entry : Members R =>
            if (entry.get "ty").isText "sh" then closeUnder "closed" "ks" entry else .ok entry := by
          intro entry own hown
          dsimp only at hown
          split at hown
          · exact get_closeUnder hown (by decide)
          · rw [Except.ok.inj hown]
        obtain ⟨entry, hat, hown⟩ := exists_entryAt hkind hchanged item
        rw [isLayerKind, hget _ (by decide)] at kind
        rw [hkind _ _ hown] at outline
        rw [if_pos outline] at hown
        obtain ⟨given, bezier, hgiven, hbezier, hsame⟩ := exists_bezierAt_closeUnder hown path inner
        rw [get?_closeUnder hown (by decide)] at flag
        exact ⟨bezier, .outline kind hshapes hat outline flag hgiven hbezier, hsame⟩

theorem noNewPlaces_closePaths {layer result : Members R} (closed : closePaths layer = .ok result) :
    NoNewPlaces layer result := by
  obtain ⟨masked, hmasked, hrest⟩ := bind_eq_ok.mp closed
  refine (noNewPlaces_closedMasks hmasked).trans ?_
  split at hrest
  · exact noNewPlaces_closedShapes hrest
  · rw [← pure_eq_ok.mp hrest]
    exact .refl masked

end MotionScene
