import MotionScene.Proofs.Migration.Conversion
import MotionScene.Proofs.Migration.LayerPlaces
import MotionScene.Proofs.Migration.Steps

/-!
# A migration changes what it names

The places that a migration names are known from the document as it was given (`Named`): what
every encoding that is due names in its layers and glyphs, and what completing names in the
layers at the top and in the assets that they use.  Everything else in the migrated document
is as it was (`migrate_changes_named_places`), unknown members at any depth included.
-/

namespace MotionScene

variable {R : Type} [Scalar R]

/-! ## The named places of a document -/

/-- The layer lists of a document with their places: the one at the top, and those of assets,
which are told by their position. -/
inductive ListAt (document : Members R) : Option Nat → Place → List (Value R) → Prop
  | top {layers : List (Value R)} (content : document.get? "layers" = some (.list layers)) :
      ListAt document none [.key "layers"] layers
  | asset {assets layers : List (Value R)} {asset : Members R} {position : Nat}
      (list : document.get? "assets" = some (.list assets))
      (item : assets[position]? = some (.object asset))
      (content : asset.get? "layers" = some (.list layers)) :
      ListAt document (some position) [.key "assets", .item position, .key "layers"] layers

/-- The layers of a document with their places. -/
inductive LayerAt (document : Members R) : Place → Members R → Prop
  | intro {owner? : Option Nat} {place : Place} {layers : List (Value R)} {index : Nat}
      {layer : Members R} (list : ListAt document owner? place layers)
      (item : layers[index]? = some (.object layer)) :
      LayerAt document (place ++ [.item index]) layer

/-- The places that completing a layer list names: in every layer with a transform the handles
and the mark of a text, the layers within a precomposition, and the matte that the next layer
asks for. -/
inductive CompletedAt (layers : List (Value R)) : Place → Prop
  | content {index : Nat} {layer : Members R} {place : Place}
      (item : layers[index]? = some (.object layer)) (completable : isCompletable layer = true)
      (content : ContentAt layer place) : CompletedAt layers (.item index :: place)
  | expansion {index : Nat} {layer : Members R} (item : layers[index]? = some (.object layer))
      (completable : isCompletable layer = true) (precomp : isPrecomp layer = true) :
      CompletedAt layers [.item index, .key "layers"]
  | matte {index : Nat} {next : Members R} (item : layers[index + 1]? = some (.object next))
      (completable : isCompletable next = true) (asks : (next.get "tt").holds = true) :
      CompletedAt layers [.item index, .key "td"]

/-- The places of a document that its migration names, each only if it is due. -/
inductive Named (version : Version) (document : Members R) : Place → Prop
  | color {place inner : Place} {layer : Members R}
      (due : usesByteColors version document = true) (item : LayerAt document place layer)
      (kind : isLayerKind .shape layer = true) (channel : LayerChannelAt layer inner) :
      Named version document (place ++ inner)
  | text {place : Place} {layer : Members R} (due : version.before textDocumentVersion = true)
      (item : LayerAt document place layer) (kind : isLayerKind .text layer = true) :
      Named version document (place ++ [.key "t", .key "d"])
  | option {place inner : Place} {layer : Members R}
      (due : version.before textPathVersion = true) (item : LayerAt document place layer)
      (kind : isLayerKind .text layer = true) (option : OptionAt layer inner) :
      Named version document (place ++ inner)
  | flag {place inner : Place} {layer : Members R}
      (due : version.before closedFlagVersion = true) (item : LayerAt document place layer)
      (flag : FlagAt layer inner) : Named version document (place ++ inner)
  | glyph {place inner : Place} {bezier : Members R}
      (due : version.before glyphsVersion = false) (glyph : GlyphAt document place bezier)
      (coordinate : CoordinateAt bezier inner) : Named version document (place ++ inner)
  | completed {owner? : Option Nat} {place inner : Place} {layers : List (Value R)}
      (list : ListAt document owner? place layers)
      (used : ∀ position, owner? = some position → IsUsed document position)
      (completed : CompletedAt layers inner) : Named version document (place ++ inner)

/-! ## Layers that are changed where they stand -/

section Layers

variable {change : Change (Members R)} {document result : Members R}

omit [Scalar R] in
theorem sameBut_changeLayers {named : Place → Prop}
    (hchange : ∀ place layer own, LayerAt document place layer → change layer = .ok own →
      SameBut (fun rest => named (place ++ rest)) (.object layer) (.object own))
    (changed : changeLayers change document = .ok result) :
    SameBut named (.object document) (.object result) := by
  rw [changeLayers_eq] at changed
  obtain ⟨middle, htop, hassets⟩ := bind_eq_ok.mp changed
  have hlist : ∀ {owner? place} {value own : Value R},
      (∀ layers, value = .list layers → ListAt document owner? place layers) →
      value.adjustItems (Value.adjustMembers change) = .ok own →
      SameBut (fun rest => named (place ++ rest)) value own := by
    intro owner? place value own hlists hadjusted
    refine sameBut_adjustItems hadjusted fun layers index layer own hvalue hitem hmembers => ?_
    refine sameBut_adjustMembers hmembers fun layer own hobject hown => ?_
    subst hobject
    have hsame := hchange _ layer own (.intro (hlists layers hvalue) hitem) hown
    simpa only [List.append_assoc, List.singleton_append] using hsame
  refine SameBut.trans (sameBut_adjust htop fun value own hvalue hown => ?_)
    (sameBut_adjust hassets fun value own hvalue hown => ?_)
  · exact hlist (fun layers hlayers => .top (hlayers ▸ hvalue)) hown
  · rw [Members.get?_adjust_of_ne htop (by decide)] at hvalue
    refine sameBut_adjustItems hown fun assets position asset own hlists hitem hasset => ?_
    refine sameBut_adjustMember hasset fun asset value own hobject hlayers hadjusted => ?_
    subst hlists hobject
    exact hlist (fun layers hvalues => .asset hvalue hitem (hvalues ▸ hlayers)) hadjusted

omit [Scalar R] in
/-- The list at a place was made of the one that stood there, layer by layer. -/
theorem exists_listAt (changed : changeLayers change document = .ok result) {owner? : Option Nat}
    {place : Place} {own : List (Value R)} (h : ListAt result owner? place own) :
    ∃ layers, ListAt document owner? place layers ∧
      List.Forall₂ (fun layer own => layer.adjustMembers change = .ok own) layers own := by
  rw [changeLayers_eq] at changed
  obtain ⟨middle, htop, hassets⟩ := bind_eq_ok.mp changed
  cases h with
  | top content =>
      rw [Members.get?_adjust_of_ne hassets (by decide)] at content
      obtain ⟨value, hvalue, hlist⟩ := exists_of_rel_right (Members.rel_adjust htop) content
      obtain ⟨layers, rfl, hlayers⟩ := adjustItems_eq_list hlist
      exact ⟨layers, .top hvalue, hlayers⟩
  | @asset assets _ asset position list item content =>
      obtain ⟨value, hvalue, hlist⟩ := exists_of_rel_right (Members.rel_adjust hassets) list
      rw [Members.get?_adjust_of_ne htop (by decide)] at hvalue
      obtain ⟨sources, rfl, hitems⟩ := adjustItems_eq_list hlist
      obtain ⟨source, hsource, hasset⟩ := exists_of_rel_right (forall₂_getElem? hitems position) item
      obtain ⟨given, rfl, hadjusted⟩ := adjustMembers_eq_object hasset
      obtain ⟨value, hcontent, hown⟩ := exists_of_rel_right (Members.rel_adjust hadjusted) content
      obtain ⟨layers, rfl, hlayers⟩ := adjustItems_eq_list hown
      exact ⟨layers, .asset hvalue hsource hcontent, hlayers⟩

end Layers

/-! ## Documents with no new places -/

/-- A document whose layers stand where those of another one stand, with no new places. -/
def NoNewLayers (document result : Members R) : Prop :=
  ∀ owner? place own, ListAt result owner? place own →
    ∃ layers, ListAt document owner? place layers ∧
      List.Forall₂ (OnMembers NoNewPlaces) layers own

theorem NoNewLayers.refl (document : Members R) : NoNewLayers document document := by
  intro owner? place own h
  refine ⟨own, h, List.forall₂_same.mpr fun layer _ => ?_⟩
  cases layer with
  | object members => exact ⟨members, rfl, .refl members⟩
  | _ => rfl

theorem NoNewLayers.trans {first second third : Members R} (h : NoNewLayers first second)
    (h' : NoNewLayers second third) : NoNewLayers first third := by
  intro owner? place own hown
  obtain ⟨middle, hmiddle, hlater⟩ := h' owner? place own hown
  obtain ⟨layers, hlayers, hfirst⟩ := h owner? place middle hmiddle
  refine ⟨layers, hlayers, forall₂_comp (fun _ _ _ hx hy => ?_) hfirst hlater⟩
  exact hx.comp (fun x y z (h : NoNewPlaces x y) (h' : NoNewPlaces y z) => h.trans h') hy

theorem NoNewLayers.exists_layerAt {document result : Members R} (h : NoNewLayers document result)
    {place : Place} {own : Members R} (hown : LayerAt result place own) :
    ∃ layer, LayerAt document place layer ∧ NoNewPlaces layer own := by
  obtain @⟨owner?, place, layers, index, _, list, item⟩ := hown
  obtain ⟨sources, hsources, hlayers⟩ := h owner? place layers list
  obtain ⟨source, hsource, hrelated⟩ := exists_of_rel_right (forall₂_getElem? hlayers index) item
  obtain ⟨layer, rfl, hlayer⟩ := hrelated.exists_object
  exact ⟨layer, .intro hsources hsource, hlayer⟩

theorem CompletedAt.of_noNewPlaces {layers own : List (Value R)}
    (h : List.Forall₂ (OnMembers NoNewPlaces) layers own) {place : Place}
    (completed : CompletedAt own place) : CompletedAt layers place := by
  have hsource : ∀ {index : Nat} {layer : Members R}, own[index]? = some (.object layer) →
      ∃ source, layers[index]? = some (.object source) ∧ NoNewPlaces source layer := by
    intro index layer item
    obtain ⟨value, hvalue, hrelated⟩ := exists_of_rel_right (forall₂_getElem? h index) item
    obtain ⟨source, rfl, hsource⟩ := hrelated.exists_object
    exact ⟨source, hvalue, hsource⟩
  cases completed with
  | content item completable content =>
      obtain ⟨source, hitem, hplaces⟩ := hsource item
      exact .content hitem (hplaces.isCompletable ▸ completable) (hplaces.content content)
  | expansion item completable precomp =>
      obtain ⟨source, hitem, hplaces⟩ := hsource item
      exact .expansion hitem (hplaces.isCompletable ▸ completable)
        ((hplaces.isLayerKind .precomp).symm.trans precomp)
  | matte item completable asks =>
      obtain ⟨source, hitem, hplaces⟩ := hsource item
      rw [hplaces.get (by decide)] at asks
      exact .matte hitem (hplaces.isCompletable ▸ completable) asks

/-- Changing layers makes no new ones. -/
theorem noNewLayers_taken {due : Bool} {change : Change (Members R)} {before after : Members R}
    (hchange : ∀ layer own, change layer = .ok own → NoNewPlaces layer own)
    (taken : Taken due (changeLayers change) before after) : NoNewLayers before after := by
  obtain ⟨-, changed⟩ | rfl := taken.cases
  · intro owner? place own h
    obtain ⟨layers, hlayers, hown⟩ := exists_listAt changed h
    exact ⟨layers, hlayers, hown.imp fun _ _ => onMembers_adjustMembers hchange⟩
  · exact .refl _

theorem noNewPlaces_of_kind {kind : LayerKind} {change : Change (Members R)} {layer own : Members R}
    (hchange : ∀ own, change layer = .ok own → NoNewPlaces layer own)
    (changed : (if isLayerKind kind layer then change layer else .ok layer) = .ok own) :
    NoNewPlaces layer own := by
  split at changed
  · exact hchange own changed
  · rw [← Except.ok.inj changed]
    exact .refl layer

omit [Scalar R] in
/-- Layer lists are found through two members of a document. -/
theorem ListAt.congr {document result : Members R}
    (same : ∀ key ∈ layerKeys, result.get? key = document.get? key) {owner? : Option Nat}
    {place : Place} {layers : List (Value R)} (h : ListAt result owner? place layers) :
    ListAt document owner? place layers := by
  cases h with
  | top content => exact .top ((same _ (by decide)).symm.trans content)
  | asset list item content => exact .asset ((same _ (by decide)).symm.trans list) item content

/-! ## Migrated encodings -/

/-- Migrating the older encodings of a document changes the places that they name, and makes
no new ones. -/
theorem sameBut_migrateEncodings {version : Version} {document result : Members R}
    (returned : (migrateEncodings version document).outcome = .ok result) :
    SameBut (Named version document) (.object document) (.object result) ∧
      NoNewLayers document result := by
  obtain ⟨colored, worded, lettered, laid, steps⟩ := migrateEncodings_eq_ok.mp returned
  have hcolored : NoNewLayers document colored := noNewLayers_taken
    (fun _ _ => noNewPlaces_of_kind fun _ => noNewPlaces_rescaled) steps.colors
  have hworded : NoNewLayers document worded := hcolored.trans <| noNewLayers_taken
    (fun _ _ => noNewPlaces_of_kind fun _ => noNewPlaces_wrapTextDocument) steps.texts
  have hlettered : NoNewLayers document lettered := by
    refine hworded.trans fun owner? place own h => ?_
    refine NoNewLayers.refl worded owner? place own (h.congr fun key hkey => ?_)
    refine steps.glyphs.get? fun _ changed => Members.get?_adjust_of_ne changed ?_
    rintro rfl
    exact absurd hkey (by decide)
  have hlaid : NoNewLayers document laid := hlettered.trans <| noNewLayers_taken
    (fun _ _ => noNewPlaces_of_kind fun _ => noNewPlaces_wrapTextPath) steps.paths
  refine ⟨?_, hlaid.trans (noNewLayers_taken (fun _ _ => noNewPlaces_closePaths) steps.flags)⟩
  have hstep : ∀ {due : Bool} {change : Change (Members R)} {before after : Members R},
      (due = true → change before = .ok after →
        SameBut (Named version document) (.object before) (.object after)) →
      Taken due change before after →
      SameBut (Named version document) (.object before) (.object after) := by
    intro due change before after hchange taken
    obtain ⟨hdue, changed⟩ | rfl := taken.cases
    · exact hchange hdue changed
    · exact .refl _
  have hcolors := hstep (fun due => sameBut_changeLayers fun place layer own hlayer hown => by
    split at hown
    · rename_i hkind
      exact (sameBut_rescaled hown).mono fun inner => .color due hlayer hkind
    · rw [← Except.ok.inj hown]
      exact .refl _) steps.colors
  have htexts := hstep (fun due => sameBut_changeLayers fun place layer own hlayer hown => by
    split at hown
    · rename_i hkind
      obtain ⟨source, hsource, hplaces⟩ := hcolored.exists_layerAt hlayer
      refine (sameBut_wrapTextDocument hown).mono ?_
      rintro inner rfl
      exact .text due hsource ((hplaces.isLayerKind .text).symm.trans hkind)
    · rw [← Except.ok.inj hown]
      exact .refl _) steps.texts
  have hglyphs := hstep (fun due => sameBut_completeGlyphs fun place bezier inner hglyph => by
    have hchars : worded.get? "chars" = document.get? "chars" :=
      (steps.texts.get? fun _ => get?_changeLayers (by decide)).trans
        (steps.colors.get? fun _ => get?_changeLayers (by decide))
    exact .glyph (by simpa using due) (hglyph.congr hchars)) steps.glyphs
  have hpaths := hstep (fun due => sameBut_changeLayers fun place layer own hlayer hown => by
    split at hown
    · rename_i hkind
      obtain ⟨source, hsource, hplaces⟩ := hlettered.exists_layerAt hlayer
      refine (sameBut_wrapTextPath hown).mono fun inner hoption => ?_
      exact .option due hsource ((hplaces.isLayerKind .text).symm.trans hkind)
        (hplaces.options inner hoption)
    · rw [← Except.ok.inj hown]
      exact .refl _) steps.paths
  have hflags := hstep (fun due => sameBut_changeLayers fun place layer own hlayer hown => by
    obtain ⟨source, hsource, hplaces⟩ := hlaid.exists_layerAt hlayer
    exact (sameBut_closePaths hown).mono fun inner hflag =>
      .flag due hsource (hplaces.flag hflag)) steps.flags
  exact (((hcolors.trans htexts).trans hglyphs).trans hpaths).trans hflags

/-! ## Completed layers -/

/-- Every completed layer is told what the next of the given layers asks for. -/
theorem getElem?_tellMattes {layers completed : List (Value R)}
    (h : completed.length = layers.length) (index : Nat) :
    (tellMattes layers completed)[index]? =
      completed[index]?.map (toldBy layers[index + 1]?) := by
  induction layers generalizing completed index with
  | nil =>
      obtain rfl := List.eq_nil_of_length_eq_zero h
      rfl
  | cons layer rest ih =>
      cases completed with
      | nil => cases h
      | cons first later =>
          rw [tellMattes]
          cases index with
          | zero =>
              rw [List.getElem?_cons_zero, List.getElem?_cons_zero, List.head?_eq_getElem?]
              rfl
          | succ index => exact ih (Nat.succ.inj h) index

theorem sameBut_toldBy {named : Place → Prop} {next? : Option (Value R)} {layer : Value R}
    (hnamed : ∀ next : Members R, next? = some (.object next) → isCompletable next = true →
      (next.get "tt").holds = true → named [.key "td"]) :
    SameBut named layer (toldBy next? layer) := by
  unfold toldBy
  split
  · split
    · rename_i hasks
      obtain ⟨hcompletable, htt⟩ := (Bool.and_eq_true ..).mp hasks
      exact sameBut_set (hnamed _ rfl hcompletable htt) _
    · exact .refl _
  · exact .refl _

/-- Completing a layer list changes the places that it names. -/
theorem sameBut_completed {expands : Value R → List (Value R) → Prop}
    {layers result : List (Value R)} (completed : Completed expands layers result) :
    SameBut (CompletedAt layers) (.list layers) (.list result) := by
  obtain ⟨own, hown, rfl⟩ := completed
  refine .list ((forall₂_told layers own).length_eq.symm.trans hown.length_eq.symm)
    fun index layer told hlayer htold => ?_
  rw [getElem?_tellMattes hown.length_eq.symm] at htold
  obtain ⟨done, hdone, rfl⟩ := Option.map_eq_some_iff.mp htold
  obtain ⟨other, hother, hcompleted⟩ := exists_of_rel_left (forall₂_getElem? hown index) hlayer
  obtain rfl : done = other := Option.some.inj (hdone.symm.trans hother)
  refine SameBut.trans ?_ (sameBut_toldBy fun next hnext => .matte hnext)
  cases hcompleted with
  | kept incomplete => exact .refl _
  | content completable hcontent plain =>
      exact (sameBut_completeContent hcontent).mono fun _ => .content hlayer completable
  | expanded completable hcontent precomp expansion =>
      refine ((sameBut_completeContent hcontent).mono fun _ => .content hlayer completable).trans ?_
      exact sameBut_set (.expansion hlayer completable
        (isPrecomp_completeContent hcontent ▸ precomp)) _

omit [Scalar R] in
theorem get?_eq_list {members : Members R} {key : String} {items : List (Value R)}
    (h : (members.get key).items? = some items) : members.get? key = some (.list items) := by
  rw [Members.get] at h
  cases hget : members.get? key with
  | none =>
      rw [hget] at h
      cases h
  | some value =>
      rw [hget] at h
      cases value <;> cases h
      rfl

/-- Finishing the assets that a document uses changes the places that completing their layers
names. -/
theorem sameBut_finishAssets {named : Place → Prop} {document : Members R}
    {layers assets : List (Value R)} {finished : Finished R}
    (list : document.get? "assets" = some (.list assets))
    (returned : (completeTop document).outcome = .ok (layers, finished))
    (hnamed : ∀ position place sources inner, ListAt document (some position) place sources →
      IsUsed document position → CompletedAt sources inner → named (place ++ inner)) :
    SameBut (fun rest => named (.key "assets" :: rest)) (.list assets)
      (.list (finishAssets finished assets)) := by
  have hitems : (document.get "assets").items = assets := by
    rw [Members.get, list]
    rfl
  obtain ⟨horder, -⟩ := completed_top returned
  rw [hitems] at horder
  refine .list List.length_mapIdx fun position asset own hasset hown => ?_
  rw [getElem?_finishAssets, hasset] at hown
  obtain rfl := Option.some.inj hown
  unfold finishAsset
  split
  · rename_i members done hlookup
    obtain ⟨sources, hsources⟩ := horder.exists_source hlookup
    have hcontent : Members.get? members "layers" = some (.list sources) := by
      rw [assetLayers?, hasset] at hsources
      exact get?_eq_list hsources
    have hused := (finished_iff_used returned position).mp (by rw [hlookup]; rfl)
    refine .member (fun _ hother => Members.get?_set_of_ne _ _ hother) (fun value hvalue => ?_) ?_
    · obtain rfl : .list sources = value := Option.some.inj (hcontent.symm.trans hvalue)
      refine ⟨_, Members.get?_set_self _ _ _, ?_⟩
      refine (sameBut_completed (horder.completed_from hlookup hsources)).mono fun inner hat => ?_
      exact hnamed _ _ _ _ (.asset list hasset hcontent) hused hat
    · intro hnone
      rw [hcontent] at hnone
      cases hnone
  · exact .refl _

/-- Completing a document changes the places that completing its layers names, at the top and
in the assets that are used. -/
theorem sameBut_completeDocument {named : Place → Prop} {document result : Members R}
    {sources : List (Value R)} (list : document.get? "layers" = some (.list sources))
    (returned : (completeDocument document).outcome = .ok result)
    (hnamed : ∀ owner? place layers inner, ListAt document owner? place layers →
      (∀ position, owner? = some position → IsUsed document position) →
      CompletedAt layers inner → named (place ++ inner)) :
    SameBut named (.object document) (.object result) := by
  obtain ⟨⟨layers, finished⟩, htop, hrest⟩ := Traced.outcome_bind_eq_ok.mp returned
  obtain ⟨horder, hcompleted⟩ := completed_top htop
  have hlayers : (document.get "layers").items = sources := by
    rw [Members.get, list]
    rfl
  rw [hlayers] at hcompleted
  have hfirst : SameBut named (.object document)
      (.object (document.set "layers" (.list layers))) := by
    refine .member (fun _ hother => Members.get?_set_of_ne _ _ hother) (fun value hvalue => ?_) ?_
    · obtain rfl : .list sources = value := Option.some.inj (list.symm.trans hvalue)
      refine ⟨_, Members.get?_set_self _ _ _, (sameBut_completed hcompleted).mono fun inner hat => ?_⟩
      exact hnamed _ _ _ _ (.top list) (fun _ howner => by cases howner) hat
    · intro hnone
      rw [list] at hnone
      cases hnone
  dsimp only at hrest
  split at hrest
  · rename_i hfinished
    cases hrest
    refine hfirst.trans (.member (fun _ hother => Members.get?_set_of_ne _ _ hother)
      (fun value hvalue => ?_) fun hnone => ?_)
    · rw [Members.get?_set_of_ne _ _ (by decide)] at hvalue
      refine ⟨_, Members.get?_set_self _ _ _, ?_⟩
      have hitems : (document.get "assets").items = value.items := by
        rw [Members.get, hvalue]
        rfl
      cases value with
      | list assets =>
          rw [hitems]
          exact sameBut_finishAssets hvalue htop fun position place layers inner hlist hused =>
            hnamed _ _ _ _ hlist fun other hother => by cases hother; exact hused
      | _ =>
          -- nothing is finished where there are no assets
          rw [hitems] at horder
          cases finished with
          | nil => simp at hfinished
          | cons entry known =>
              obtain ⟨-, ⟨source, hsource, -⟩, -⟩ := horder
              cases hsource
    · rw [Members.has, hnone] at hfinished
      cases hfinished
  · cases hrest
    exact hfirst

/-! ## Migrated documents -/

/-- **A migration changes what it names.**  In a migrated document every list has the length
and every object the keys that it had, and everything is as it was, but for the places that
the migrations which are due for the version of the document name, and what completing names
in the layers at the top and in the used assets. -/
theorem migrate_changes_named_places {input : Members R} {document : MigratedDocument R}
    (returned : (migrate (.object input)).outcome = .ok document) :
    SameBut (Named (Version.ofValue (input.get "v")) input) (.object input)
      (.object document.members) := by
  obtain ⟨members, encoded, hmembers, hversion, hencoded, hcompleted⟩ := migrate_eq_ok.mp returned
  obtain ⟨hobject, hlist⟩ := documentMembers_eq_ok.mp hmembers
  obtain rfl : input = members := Value.object.inj hobject
  rw [hversion] at hencoded
  obtain ⟨hsame, hlayers⟩ := sameBut_migrateEncodings hencoded
  have alike := alike_migrateEncodings hencoded
  obtain ⟨layers, hget⟩ := Option.isSome_iff_exists.mp hlist
  obtain ⟨own, hown, -⟩ := exists_of_rel_left alike.layers.items? hget
  refine hsame.trans (sameBut_completeDocument (get?_eq_list hown) hcompleted ?_)
  intro owner? place layers inner hat hused hcompleted
  obtain ⟨sources, hsources, hplaces⟩ := hlayers owner? place layers hat
  exact .completed hsources (fun position howner => (isUsed_iff alike position).mp
    (hused position howner)) (hcompleted.of_noNewPlaces hplaces)

/-- A document without a version has the layers within its precompositions and the handles of
its outlines replaced, and nothing else. -/
theorem migrate_knottedUse_changes :
    (migrate (.object knottedUse)).outcome = .ok ⟨knottedMigrated, .unknown⟩ ∧
      SameBut (Named .unknown knottedUse) (.object knottedUse) (.object knottedMigrated) := by
  have returned : (migrate (.object knottedUse)).outcome = .ok ⟨knottedMigrated, .unknown⟩ := rfl
  exact ⟨returned, migrate_changes_named_places returned⟩

end MotionScene
