import MotionScene.Proofs.Document.Keyed
import MotionScene.Proofs.Lookup
import MotionScene.Proofs.Migration.Expansion
import MotionScene.Proofs.Migration.Steps

/-!
# Migration keeps keys apart

A document whose objects have distinct keys is migrated to one whose objects have distinct keys
(`isKeyed_migrate`): members are only changed in their places, set under a key, or made anew with
keys of their own.
-/

namespace MotionScene

variable {R : Type}

/-- Whatever a change returns has a property if what it was given has it. -/
def Maintains {α : Type} (holds : α → Prop) (change : Change α) : Prop :=
  ∀ ⦃value result : α⦄, change value = .ok result → holds value → holds result

namespace Maintains

variable {α : Type} {holds : α → Prop} {change next : Change α}

theorem ok : Maintains holds (fun value => .ok value) := by
  rintro value _ ⟨⟩ h
  exact h

theorem bind (first : Maintains holds change) (second : Maintains holds next) :
    Maintains holds (fun value => change value >>= next) := by
  intro value result returned h
  obtain ⟨middle, hmiddle, hlast⟩ := bind_eq_ok.mp returned
  exact second hlast (first hmiddle h)

/-- A change of the values for which a condition holds. -/
theorem ite {condition : α → Prop} [DecidablePred condition] (h : Maintains holds change) :
    Maintains holds (fun value => if condition value then change value else .ok value) := by
  intro value result returned
  dsimp only at returned
  split at returned
  · exact h returned
  · exact ok returned

theorem mapM (h : Maintains holds change) :
    Maintains (fun items => ∀ item ∈ items, holds item) (List.mapM change) := by
  intro items result returned hitems
  have hrelated := mapM_eq_ok.mp returned
  intro own hown
  obtain ⟨item, hitem, hchanged⟩ := exists_of_mem_right hrelated hown
  exact h hchanged (hitems item hitem)

end Maintains

/-! ## Parts of a value -/

section Parts

variable {change : Change (Value R)}

theorem areKeyed_adjust {key : String} {members result : Members R}
    (returned : members.adjust key change = .ok result) (keyed : members.AreKeyed)
    (h : ∀ entry ∈ members, ∀ own, change entry.2 = .ok own → own.IsKeyed) : result.AreKeyed := by
  have hentries : result.keys = members.keys ∧ ∀ entry ∈ result, entry.2.IsKeyed := by
    obtain ⟨-, hvalues⟩ := keyed
    induction members generalizing result with
    | nil =>
        cases returned
        exact ⟨rfl, hvalues⟩
    | cons entry rest ih =>
        obtain ⟨hentry, hrest⟩ := List.forall_mem_cons.mp hvalues
        obtain ⟨hfirst, hlater⟩ := List.forall_mem_cons.mp h
        obtain ⟨k, v⟩ := entry
        rw [Members.adjust] at returned
        split at returned
        · obtain ⟨own, hown, hpure⟩ := bind_eq_ok.mp returned
          rw [← pure_eq_ok.mp hpure]
          exact ⟨rfl, List.forall_mem_cons.mpr ⟨hfirst own hown, hrest⟩⟩
        · obtain ⟨later, hadjusted, hpure⟩ := bind_eq_ok.mp returned
          obtain ⟨hkeys, hvalues⟩ := ih hadjusted hlater hrest
          rw [← pure_eq_ok.mp hpure]
          exact ⟨congrArg (k :: ·) hkeys, List.forall_mem_cons.mpr ⟨hentry, hvalues⟩⟩
  exact ⟨hentries.1 ▸ keyed.distinct, hentries.2⟩

theorem maintains_adjust (key : String) (h : Maintains Value.IsKeyed change) :
    Maintains Members.AreKeyed (Members.adjust key change) :=
  fun _ _ returned keyed => areKeyed_adjust returned keyed fun entry hentry _ hown =>
    h hown (keyed.values entry hentry)

theorem maintains_adjustMembers {change : Change (Members R)}
    (h : Maintains Members.AreKeyed change) :
    Maintains Value.IsKeyed (Value.adjustMembers change) := by
  intro value result returned keyed
  unfold Value.adjustMembers at returned
  split at returned
  · obtain ⟨own, hown, rfl⟩ := map_eq_ok.mp returned
    exact Value.isKeyed_object.mpr (h hown (Value.isKeyed_object.mp keyed))
  · cases returned
    exact keyed

theorem maintains_adjustMember (key : String) (h : Maintains Value.IsKeyed change) :
    Maintains Value.IsKeyed (Value.adjustMember key change) :=
  maintains_adjustMembers (maintains_adjust key h)

theorem maintains_adjustItems (h : Maintains Value.IsKeyed change) :
    Maintains Value.IsKeyed (Value.adjustItems change) := by
  intro value result returned keyed
  unfold Value.adjustItems at returned
  split at returned
  · obtain ⟨own, hown, rfl⟩ := map_eq_ok.mp returned
    exact .list (h.mapM hown (Value.isKeyed_list.mp keyed))
  · cases returned
    exact keyed

theorem maintains_adjustFirst (h : Maintains Value.IsKeyed change) :
    Maintains Value.IsKeyed (Value.adjustFirst change) := by
  intro value result returned keyed
  unfold Value.adjustFirst at returned
  split at returned
  · obtain ⟨own, hown, hpure⟩ := bind_eq_ok.mp returned
    obtain ⟨hfirst, hrest⟩ := List.forall_mem_cons.mp (Value.isKeyed_list.mp keyed)
    rw [← pure_eq_ok.mp hpure]
    exact .list (List.forall_mem_cons.mpr ⟨h hown hfirst, hrest⟩)
  · cases returned
    exact keyed

end Parts

/-! ## Walks -/

section Walks

variable {change : Change (Members R)} (h : Maintains Members.AreKeyed change)

include h

theorem maintains_changeBezier : Maintains Value.IsKeyed (changeBezier change) :=
  (maintains_adjustMembers h).ite

theorem maintains_changeBeziers : Maintains Value.IsKeyed (changeBeziers change) := by
  refine maintains_adjustMember "k" fun content result returned => ?_
  have hkeyframe := (maintains_adjust "s" (maintains_adjustFirst (maintains_changeBezier h))).bind
    (maintains_adjust "e" (maintains_adjustFirst (maintains_changeBezier h)))
  split at returned
  · exact maintains_adjustMembers h returned
  · exact maintains_adjustItems (maintains_adjustMembers hkeyframe) returned

omit h in
theorem forall_mem_changeEntries {holds : Value R → Prop} {items result : List (Value R)}
    (returned : changeEntries change items = .ok result)
    (h : ∀ item ∈ items, ∀ own, changeEntry change item = .ok own → holds own) :
    ∀ own ∈ result, holds own := by
  induction items generalizing result with
  | nil =>
      cases returned
      exact nofun
  | cons item items ih =>
      obtain ⟨hitem, hlater⟩ := List.forall_mem_cons.mp h
      rw [changeEntries] at returned
      obtain ⟨later, hchanged, hrest⟩ := bind_eq_ok.mp returned
      obtain ⟨own, hown, hpure⟩ := bind_eq_ok.mp hrest
      rw [← pure_eq_ok.mp hpure]
      exact List.forall_mem_cons.mpr ⟨hitem own hown, ih hchanged hlater⟩

theorem maintains_changeShapes : Maintains Value.IsKeyed (changeShapes change) := by
  have hwalk : ∀ {value : Value R}, value.IsKeyed →
      (∀ result, changeShapes change value = .ok result → result.IsKeyed) ∧
        ∀ result, changeEntry change value = .ok result → result.IsKeyed := by
    intro value keyed
    induction keyed with
    | null | bool | num | text =>
        constructor
        · rintro result ⟨⟩
          constructor
        · rintro result ⟨⟩
          constructor
    | @list items values ih =>
        constructor
        · intro result returned
          rw [changeShapes] at returned
          obtain ⟨own, hown, rfl⟩ := map_eq_ok.mp returned
          exact .list (forall_mem_changeEntries hown fun item hitem => (ih item hitem).2)
        · rintro result ⟨⟩
          exact .list values
    | @object members distinct values ih =>
        constructor
        · rintro result ⟨⟩
          exact .object distinct values
        · intro result returned
          rw [changeEntry] at returned
          split at returned
          · obtain ⟨own, hown, rfl⟩ := map_eq_ok.mp returned
            rw [changeItems_eq] at hown
            exact Value.isKeyed_object.mpr (areKeyed_adjust hown ⟨distinct, values⟩
              fun entry hentry => (ih entry hentry).1)
          · obtain ⟨own, hown, rfl⟩ := map_eq_ok.mp returned
            exact Value.isKeyed_object.mpr (h hown ⟨distinct, values⟩)
  exact fun _ result returned keyed => (hwalk keyed).1 result returned

theorem maintains_changeMasks [Scalar R] : Maintains Members.AreKeyed (changeMasks change) := by
  refine Maintains.ite (maintains_adjust "masksProperties" fun masks result returned keyed => ?_)
  split at returned
  · exact maintains_adjustItems (maintains_adjustMembers h) returned keyed
  · cases returned
  · split at returned
    · cases returned
      exact keyed
    · cases returned
  · cases returned
    exact keyed

theorem maintains_changeLayers : Maintains Members.AreKeyed (changeLayers change) := by
  refine (maintains_adjust "layers" ?lists).bind
    (maintains_adjust "assets" (maintains_adjustItems (maintains_adjustMember "layers" ?lists)))
  intro value result returned keyed
  dsimp only at returned
  split at returned
  · obtain ⟨own, hown, rfl⟩ := map_eq_ok.mp returned
    exact .list ((maintains_adjustMembers h).mapM hown (Value.isKeyed_list.mp keyed))
  · cases returned
    exact keyed

theorem maintains_changeLayersOf (kind : LayerKind) :
    Maintains Members.AreKeyed (changeLayersOf kind change) :=
  maintains_changeLayers h.ite

end Walks

/-! ## Handles -/

section Steps

variable [Scalar R]

theorem isKeyed_addCoordinate {coordinate addend result : Value R}
    (returned : addCoordinate coordinate addend = .ok result) (keyed : coordinate.IsKeyed)
    (more : addend.IsKeyed) : result.IsKeyed := by
  unfold addCoordinate at returned
  split at returned
  · cases returned
    exact .text _
  · cases returned
    exact .list (List.forall_mem_append.mpr
      ⟨Value.isKeyed_list.mp keyed, Value.isKeyed_list.mp more⟩)
  · cases returned
    refine .list (List.forall_mem_append.mpr ⟨Value.isKeyed_list.mp keyed, fun item hitem => ?_⟩)
    obtain ⟨c, -, rfl⟩ := List.mem_map.mp hitem
    exact .text _
  · cases returned
    refine .list (List.forall_mem_append.mpr ⟨Value.isKeyed_list.mp keyed, fun item hitem => ?_⟩)
    obtain ⟨key, -, rfl⟩ := List.mem_map.mp hitem
    exact .text _
  · split at returned
    · obtain ⟨n, -, rfl⟩ := map_eq_ok.mp returned
      exact .num n
    · cases returned

theorem isKeyed_addCoordinates {limit : ℕ} {coordinates addends sums : List (Value R)}
    (returned : addCoordinates limit coordinates addends = .ok sums)
    (keyed : ∀ coordinate ∈ coordinates, coordinate.IsKeyed)
    (more : ∀ addend ∈ addends, addend.IsKeyed) : ∀ sum ∈ sums, sum.IsKeyed := by
  induction limit generalizing coordinates addends sums with
  | zero =>
      cases returned
      exact keyed
  | succ limit ih =>
      cases coordinates with
      | nil =>
          cases returned
          exact keyed
      | cons coordinate coordinates =>
          cases addends with
          | nil =>
              cases returned
              exact keyed
          | cons addend addends =>
              obtain ⟨hfirst, hlater⟩ := List.forall_mem_cons.mp keyed
              obtain ⟨hmore, hrest⟩ := List.forall_mem_cons.mp more
              rw [addCoordinates] at returned
              obtain ⟨sum, hsum, hreturned⟩ := bind_eq_ok.mp returned
              obtain ⟨later, hsums, hpure⟩ := bind_eq_ok.mp hreturned
              rw [← pure_eq_ok.mp hpure]
              exact List.forall_mem_cons.mpr
                ⟨isKeyed_addCoordinate hsum hfirst hmore, ih hsums hlater hrest⟩

theorem isKeyed_absoluteHandle {handle vertex result : Value R}
    (returned : absoluteHandle handle vertex = .ok result) (keyed : handle.IsKeyed)
    (hvertex : vertex.IsKeyed) : result.IsKeyed := by
  unfold absoluteHandle at returned
  split at returned
  · obtain ⟨sums, hsums, rfl⟩ := map_eq_ok.mp returned
    exact .list (isKeyed_addCoordinates hsums (Value.isKeyed_list.mp keyed)
      (Value.isKeyed_list.mp hvertex))
  · cases returned
    exact keyed

theorem isKeyed_absoluteHandles {handles vertices results : List (Value R)}
    (returned : absoluteHandles handles vertices = .ok results)
    (keyed : ∀ handle ∈ handles, handle.IsKeyed)
    (hvertices : ∀ vertex ∈ vertices, vertex.IsKeyed) : ∀ result ∈ results, result.IsKeyed := by
  induction handles generalizing vertices results with
  | nil =>
      cases returned
      exact keyed
  | cons handle handles ih =>
      cases vertices with
      | nil =>
          cases returned
          exact keyed
      | cons vertex vertices =>
          obtain ⟨hfirst, hlater⟩ := List.forall_mem_cons.mp keyed
          obtain ⟨hvertex, hrest⟩ := List.forall_mem_cons.mp hvertices
          rw [absoluteHandles] at returned
          obtain ⟨first, hmoved, hreturned⟩ := bind_eq_ok.mp returned
          obtain ⟨later, hresults, hpure⟩ := bind_eq_ok.mp hreturned
          rw [← pure_eq_ok.mp hpure]
          exact List.forall_mem_cons.mpr
            ⟨isKeyed_absoluteHandle hmoved hfirst hvertex, ih hresults hlater hrest⟩

theorem maintains_makeAbsolute : Maintains Members.AreKeyed (makeAbsolute (R := R)) := by
  intro bezier result returned keyed
  have hvertices : ∀ vertex ∈ (bezier.get "v").items, vertex.IsKeyed := (keyed.get "v").items
  have hside : Maintains Value.IsKeyed (absoluteSide (bezier.get "v").items) := by
    intro value result returned keyed
    unfold absoluteSide at returned
    split at returned
    · obtain ⟨own, hown, rfl⟩ := map_eq_ok.mp returned
      exact .list (isKeyed_absoluteHandles hown (Value.isKeyed_list.mp keyed) hvertices)
    · cases returned
      exact keyed
  exact (maintains_adjust "i" hside).bind (maintains_adjust "o" hside) returned keyed

/-! ## Encodings -/

theorem isKeyed_rescaleChannels {limit : ℕ} {channels results : List (Value R)}
    (returned : rescaleChannels limit channels = .ok results)
    (keyed : ∀ channel ∈ channels, channel.IsKeyed) : ∀ result ∈ results, result.IsKeyed := by
  induction limit generalizing channels results with
  | zero =>
      cases returned
      exact keyed
  | succ limit ih =>
      cases channels with
      | nil =>
          cases returned
          exact keyed
      | cons channel channels =>
          obtain ⟨hfirst, hlater⟩ := List.forall_mem_cons.mp keyed
          have hrest : ∀ {own : Value R}, own.IsKeyed →
              (do return own :: (← rescaleChannels limit channels)) = Except.ok results →
                ∀ result ∈ results, result.IsKeyed := by
            intro own hown hreturned
            obtain ⟨later, hresults, hpure⟩ := bind_eq_ok.mp hreturned
            rw [← pure_eq_ok.mp hpure]
            exact List.forall_mem_cons.mpr ⟨hown, ih hresults hlater⟩
          rw [rescaleChannels] at returned
          split at returned
          · obtain ⟨own, hown, hreturned⟩ := bind_eq_ok.mp returned
            obtain ⟨x, -, rfl⟩ := map_eq_ok.mp hown
            exact hrest (.num _) hreturned
          · exact hrest hfirst returned

theorem maintains_rescaleColor : Maintains Value.IsKeyed (rescaleColor (R := R)) := by
  intro value result returned keyed
  unfold rescaleColor at returned
  split at returned
  · obtain ⟨own, hown, rfl⟩ := map_eq_ok.mp returned
    exact .list (isKeyed_rescaleChannels hown (Value.isKeyed_list.mp keyed))
  · cases returned
    exact keyed

theorem maintains_rescaleEntry : Maintains Members.AreKeyed (rescaleEntry (R := R)) := by
  have hkeyframe := (maintains_adjust "s" (maintains_rescaleColor (R := R))).bind
    (maintains_adjust "e" maintains_rescaleColor)
  refine (maintains_adjust "c" (maintains_adjustMember "k" fun content result returned => ?_)).ite
  split at returned
  · exact maintains_adjustItems (maintains_adjustMembers hkeyframe) returned
  · exact maintains_rescaleColor returned

omit [Scalar R] in
theorem maintains_wrapTextDocument : Maintains Members.AreKeyed (wrapTextDocument (R := R)) := by
  refine maintains_adjust "t" (maintains_adjustMember "d" ?_)
  rintro text _ ⟨⟩ keyed
  have hkeyframe : (Value.object [("s", text), ("t", .num (.whole 0))]).IsKeyed :=
    .object (by simp [Members.keys])
      (List.forall_mem_cons.mpr ⟨keyed, List.forall_mem_singleton.mpr (.num _)⟩)
  exact .object (by simp [Members.keys])
    (List.forall_mem_singleton.mpr (.list (List.forall_mem_singleton.mpr hkeyframe)))

omit [Scalar R] in
theorem maintains_wrapTextPath : Maintains Members.AreKeyed (wrapTextPath (R := R)) := by
  have hoption : Maintains Value.IsKeyed (wrapOption (R := R)) := by
    intro value result returned keyed
    unfold wrapOption at returned
    split at returned
    · cases returned
      exact .object (by simp [Members.keys])
        (List.forall_mem_cons.mpr ⟨.num _, List.forall_mem_singleton.mpr (.num _)⟩)
    · cases returned
      exact keyed
  exact maintains_adjust "t" (maintains_adjustMember "p" (maintains_adjustMembers
    ((maintains_adjust "a" hoption).bind
      ((maintains_adjust "p" hoption).bind (maintains_adjust "r" hoption)))))

theorem maintains_completeGlyphs : Maintains Members.AreKeyed (completeGlyphs (R := R)) :=
  maintains_adjust "chars" <| maintains_adjustItems <| maintains_adjustMember "data" <|
    maintains_adjustMember "shapes" <| maintains_adjustFirst <| maintains_adjustMember "it" <|
      maintains_adjustItems <| maintains_adjustMember "ks" <| maintains_adjustMember "k" <|
        maintains_changeBezier maintains_makeAbsolute

omit [Scalar R] in
theorem maintains_closeUnder (flagKey pathKey : String) :
    Maintains Members.AreKeyed (closeUnder (R := R) flagKey pathKey) := by
  intro members result returned keyed
  unfold closeUnder at returned
  split at returned
  · rename_i flag hflag
    have hclose : Maintains Members.AreKeyed fun bezier : Members R =>
        .ok (bezier.set "c" flag) := by
      rintro bezier _ ⟨⟩ hbezier
      exact hbezier.set "c" (keyed.get? hflag)
    exact maintains_adjust pathKey (maintains_changeBeziers hclose) returned keyed
  · cases returned
    exact keyed

theorem maintains_closePaths : Maintains Members.AreKeyed (closePaths (R := R)) := by
  have hshapes : Maintains Members.AreKeyed (Members.adjust (R := R) "shapes"
      (changeShapes fun entry =>
        if (entry.get "ty").isText "sh" then closeUnder "closed" "ks" entry else .ok entry)) :=
    maintains_adjust "shapes" (maintains_changeShapes (maintains_closeUnder "closed" "ks").ite)
  exact (maintains_changeMasks (maintains_closeUnder "cl" "pt")).bind hshapes.ite

theorem areKeyed_migrateEncodings {version : Version} {document result : Members R}
    (returned : (migrateEncodings version document).outcome = .ok result)
    (keyed : document.AreKeyed) : result.AreKeyed := by
  have htaken : ∀ {due : Bool} {change : Change (Members R)} {before after : Members R},
      Taken due change before after → Maintains Members.AreKeyed change → before.AreKeyed →
        after.AreKeyed := by
    intro due change before after taken hchange hbefore
    rcases taken.cases with ⟨-, hchanged⟩ | rfl
    · exact hchange hchanged hbefore
    · exact hbefore
  obtain ⟨colored, worded, lettered, laid, steps⟩ := migrateEncodings_eq_ok.mp returned
  have hcolored := htaken steps.colors (maintains_changeLayersOf
    (maintains_adjust "shapes" (maintains_changeShapes maintains_rescaleEntry)) .shape) keyed
  have hworded := htaken steps.texts
    (maintains_changeLayersOf maintains_wrapTextDocument .text) hcolored
  have hlettered := htaken steps.glyphs maintains_completeGlyphs hworded
  have hlaid := htaken steps.paths (maintains_changeLayersOf maintains_wrapTextPath .text) hlettered
  exact htaken steps.flags (maintains_changeLayers maintains_closePaths) hlaid

/-! ## Completion -/

theorem maintains_completeContent : Maintains Members.AreKeyed (completeContent (R := R)) := by
  intro layer result returned keyed
  have hbeziers := maintains_changeBeziers (maintains_makeAbsolute (R := R))
  obtain ⟨masked, hmasked, hrest⟩ := bind_eq_ok.mp returned
  have hkeyed := maintains_changeMasks (maintains_adjust "pt" hbeziers) hmasked keyed
  split at hrest
  · exact maintains_adjust "shapes" (maintains_changeShapes (maintains_adjust "ks" hbeziers).ite)
      hrest hkeyed
  · rw [← pure_eq_ok.mp hrest]
    unfold completeText
    split
    · exact hkeyed.set "singleShape" (.bool true)
    · exact hkeyed
  · rw [← pure_eq_ok.mp hrest]
    exact hkeyed

/-- The layers of finished assets have distinct keys. -/
def FinishedKeyed (finished : Finished R) : Prop :=
  ∀ entry ∈ finished, ∀ layer ∈ entry.2, layer.IsKeyed

/-- An expander returns layers with distinct keys. -/
def ExpandsKeyed (expand : Expander R) : Prop :=
  ∀ {reference finished layers finished'}, (expand reference finished).outcome =
    .ok (layers, finished') → FinishedKeyed finished →
      (∀ layer ∈ layers, layer.IsKeyed) ∧ FinishedKeyed finished'

theorem areKeyed_completeLayer {expand : Expander R} (hexpand : ExpandsKeyed expand)
    {layer result : Members R} {finished finished' : Finished R}
    (returned : (completeLayer expand layer finished).outcome = .ok (result, finished'))
    (keyed : layer.AreKeyed) (hfinished : FinishedKeyed finished) :
    result.AreKeyed ∧ FinishedKeyed finished' := by
  obtain ⟨own, hown, hrest⟩ := Traced.outcome_bind_eq_ok.mp returned
  have hkeyed := maintains_completeContent hown keyed
  split at hrest
  · obtain ⟨⟨layers, later⟩, hlayers, hpure⟩ := Traced.outcome_bind_eq_ok.mp hrest
    obtain ⟨hlayersKeyed, hlater⟩ := hexpand hlayers hfinished
    cases hpure
    exact ⟨hkeyed.set "layers" (.list hlayersKeyed), hlater⟩
  · cases hrest
    exact ⟨hkeyed, hfinished⟩

theorem isKeyed_markMatte {layer : Members R} (keyed : layer.AreKeyed) {before : List (Value R)}
    (hbefore : ∀ value ∈ before, value.IsKeyed) :
    ∀ value ∈ markMatte layer before, value.IsKeyed := by
  unfold markMatte
  split
  · split
    · obtain ⟨hprevious, hearlier⟩ := List.forall_mem_cons.mp hbefore
      refine List.forall_mem_cons.mpr ⟨Value.isKeyed_object.mpr ?_, hearlier⟩
      exact (Value.isKeyed_object.mp hprevious).set "td" (keyed.get "tt")
    · exact hbefore
  · exact hbefore

theorem isKeyed_completeLayers {expand : Expander R} (hexpand : ExpandsKeyed expand)
    {before layers result : List (Value R)} {finished finished' : Finished R}
    (returned : (completeLayers expand before layers finished).outcome = .ok (result, finished'))
    (hbefore : ∀ value ∈ before, value.IsKeyed) (keyed : ∀ layer ∈ layers, layer.IsKeyed)
    (hfinished : FinishedKeyed finished) :
    (∀ layer ∈ result, layer.IsKeyed) ∧ FinishedKeyed finished' := by
  induction layers generalizing before finished with
  | nil =>
      cases returned
      exact ⟨fun layer hlayer => hbefore layer (List.mem_reverse.mp hlayer), hfinished⟩
  | cons layer layers ih =>
      obtain ⟨hlayer, hlater⟩ := List.forall_mem_cons.mp keyed
      have hkept := List.forall_mem_cons.mpr ⟨hlayer, hbefore⟩
      cases layer with
      | object members =>
          have hmembers := Value.isKeyed_object.mp hlayer
          rw [completeLayers] at returned
          split at returned
          · obtain ⟨⟨own, later⟩, hown, hrest⟩ := Traced.outcome_bind_eq_ok.mp returned
            obtain ⟨hkeyed, hlaterKeyed⟩ := areKeyed_completeLayer hexpand hown hmembers hfinished
            exact ih hrest (List.forall_mem_cons.mpr ⟨Value.isKeyed_object.mpr hkeyed,
              isKeyed_markMatte hmembers hbefore⟩) hlater hlaterKeyed
          · exact ih returned hkept hlater hfinished
      | _ => exact ih returned hkept hlater hfinished

theorem isKeyed_referencedAsset {assets : List (Value R)} (keyed : ∀ asset ∈ assets, asset.IsKeyed)
    {reference : Value R} {position : ℕ} {layers : List (Value R)}
    (h : referencedAsset? assets reference = some (position, layers)) :
    ∀ layer ∈ layers, layer.IsKeyed := by
  obtain ⟨asset, hasset, hlayers⟩ :=
    Option.bind_eq_some_iff.mp (assetLayers?_of_referencedAsset? h)
  have hkeyed := (keyed asset (List.mem_of_getElem? hasset)).members.get "layers"
  have hitems : (asset.members.get "layers").items = layers := by
    rw [Value.items, hlayers]
    rfl
  exact hitems ▸ hkeyed.items

theorem expandsKeyed_expandReference {assets : List (Value R)}
    (keyed : ∀ asset ∈ assets, asset.IsKeyed) (levels : ℕ) (active : List ℕ) :
    ExpandsKeyed (expandReference assets levels active) := by
  -- one level down the same holds of every list of active assets
  induction levels using Nat.strongRecOn generalizing active with
  | ind levels ih =>
      intro reference finished layers finished' returned hfinished
      rw [expandReference] at returned
      split at returned
      · cases returned
        exact ⟨List.forall_mem_nil _, hfinished⟩
      · rename_i position source hasset
        split at returned
        · cases returned
          exact ⟨List.forall_mem_nil _, hfinished⟩
        · split at returned
          · rename_i known hknown
            cases returned
            exact ⟨hfinished (position, layers) (mem_of_lookup hknown), hfinished⟩
          · cases returned
            exact ⟨List.forall_mem_nil _, hfinished⟩
          · obtain ⟨⟨own, later⟩, hown, hpure⟩ := Traced.outcome_bind_eq_ok.mp returned
            cases hpure
            obtain ⟨hlayers, hlater⟩ := isKeyed_completeLayers (ih _ (Nat.lt_succ_self _) _) hown
              (List.forall_mem_nil _) (isKeyed_referencedAsset keyed hasset) hfinished
            exact ⟨hlayers, List.forall_mem_cons.mpr ⟨hlayers, hlater⟩⟩

omit [Scalar R] in
theorem isKeyed_finishAssets {finished : Finished R} (hfinished : FinishedKeyed finished)
    {assets : List (Value R)} (keyed : ∀ asset ∈ assets, asset.IsKeyed) :
    ∀ asset ∈ finishAssets finished assets, asset.IsKeyed := by
  intro asset hasset
  obtain ⟨position, hposition, rfl⟩ := List.mem_mapIdx.mp hasset
  have hkeyed := keyed _ (List.getElem_mem hposition)
  generalize assets[position] = source at hkeyed
  unfold finishAsset
  split
  · rename_i hlookup
    exact Value.isKeyed_object.mpr ((Value.isKeyed_object.mp hkeyed).set "layers"
      (.list (hfinished _ (mem_of_lookup hlookup))))
  · exact hkeyed

theorem areKeyed_completeDocument {document result : Members R}
    (returned : (completeDocument document).outcome = .ok result) (keyed : document.AreKeyed) :
    result.AreKeyed := by
  have hassets := (keyed.get "assets").items
  obtain ⟨⟨layers, finished⟩, htop, hrest⟩ := Traced.outcome_bind_eq_ok.mp returned
  obtain ⟨hlayers, hfinished⟩ := isKeyed_completeLayers
    (expandsKeyed_expandReference hassets _ []) htop nofun (keyed.get "layers").items nofun
  have hset := keyed.set "layers" (.list hlayers)
  dsimp only at hrest
  split at hrest
  · cases hrest
    exact hset.set "assets" (.list (isKeyed_finishAssets hfinished hassets))
  · cases hrest
    exact hset

/-- A migrated document has distinct keys if the document that it was made from has. -/
theorem isKeyed_migrate {value : Value R} {document : MigratedDocument R}
    (returned : (migrate value).outcome = .ok document) (keyed : value.IsKeyed) :
    (Value.object document.members).IsKeyed := by
  obtain ⟨members, encoded, hmembers, -, hencoded, hcompleted⟩ := migrate_eq_ok.mp returned
  obtain ⟨rfl, -⟩ := documentMembers_eq_ok.mp hmembers
  exact Value.isKeyed_object.mpr (areKeyed_completeDocument hcompleted
    (areKeyed_migrateEncodings hencoded (Value.isKeyed_object.mp keyed)))

end Steps

end MotionScene
