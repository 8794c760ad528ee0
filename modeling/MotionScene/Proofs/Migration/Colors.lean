import MotionScene.Proofs.Exact
import MotionScene.Proofs.Migration.Recolored

/-!
# Colors are rescaled together and once

The channels of colors in older documents go up to 255.  A migration divides all of them by
255 or leaves all of them alone (`migrate_rescales_all_colors_or_none`), and the test that
decides this looks at the same colors that are changed (`usesByteColors_iff`).  No later step
changes a color, so the layers that a precomposition is filled with have the colors of their
asset, divided once like those of the asset itself.
-/

namespace MotionScene

/-! ## Colors as fractions -/

/-- A channel as a fraction of 255, if it is a number; truth values count as 0 and 1. -/
noncomputable def channelFraction (channel : Value ℝ) : Value ℝ :=
  match channel.quantity? with
  | some n => .num (.real (n.value / 255))
  | none => channel

/-- A color with its first four channels as fractions of 255. -/
noncomputable def colorFractions (color : List (Value ℝ)) : List (Value ℝ) :=
  (color.take 4).map channelFraction ++ color.drop 4

/-- A color and what it is in fractions. -/
def InFractions (color own : List (Value ℝ)) : Prop :=
  own = colorFractions color

theorem rescaleChannels_eq (limit : ℕ) (channels : List (Value ℝ)) :
    rescaleChannels limit channels =
      .ok ((channels.take limit).map channelFraction ++ channels.drop limit) := by
  induction limit generalizing channels with
  | zero => rfl
  | succ limit ih =>
      cases channels with
      | nil => rfl
      | cons channel rest =>
          rw [rescaleChannels, ih]
          have hvalue : (Number.whole 255 : Number ℝ).value = 255 := Int.cast_ofNat 255
          cases hquantity : channel.quantity? with
          | none =>
              have hkept : channelFraction channel = channel := by
                rw [channelFraction, hquantity]
              rw [List.take_succ_cons, List.map_cons, hkept]
              rfl
          | some n =>
              have hdivided : channelFraction channel = .num (.real (n.value / 255)) := by
                rw [channelFraction, hquantity]
              rw [List.take_succ_cons, List.map_cons, hdivided]
              dsimp only
              rw [Number.divide_of_ne (by rw [hvalue]; norm_num), hvalue]
              rfl

theorem rel_rescaleColor {value own : Value ℝ} (rescaled : rescaleColor value = .ok own) :
    Option.Rel InFractions value.items? own.items? := by
  cases value with
  | list channels =>
      obtain ⟨result, hresult, rfl⟩ := map_eq_ok.mp rescaled
      rw [rescaleChannels_eq] at hresult
      exact .some (Except.ok.inj hresult).symm
  | _ =>
      cases rescaled
      exact .none

/-- The colors in the content of a color property. -/
def colorsIn {R : Type} (content : Value R) : List (List (Value R)) :=
  match content with
  | .list (.object first :: rest) =>
    (Value.object first :: rest).flatMap fun keyframe =>
      ["s", "e"].filterMap fun key => (keyframe.members.get key).items?
  | .list channels => [channels]
  | _ => []

theorem colorLists_eq {R : Type} (entry : Members R) :
    colorLists entry =
      if hasColor entry then colorsIn ((entry.get "c").members.get "k") else [] := rfl

/-- The colors of a keyframe, of which the one at the start is changed first. -/
theorem colors_keyframe {keyframe result : Members ℝ}
    (rescaled : (do
      let keyframe ← keyframe.adjust "s" rescaleColor
      keyframe.adjust "e" rescaleColor) = .ok result) :
    List.Forall₂ InFractions (["s", "e"].filterMap fun key => (keyframe.get key).items?)
      (["s", "e"].filterMap fun key => (result.get key).items?) := by
  obtain ⟨started, hstarted, hended⟩ := bind_eq_ok.mp rescaled
  have hside : ∀ {side : String} {before after : Members ℝ},
      before.adjust side rescaleColor = .ok after →
      Option.Rel InFractions (before.get side).items? (after.get side).items? := by
    intro side before after hadjusted
    rcases Members.get_adjust_self hadjusted with ⟨hnull, hnull'⟩ | hcolor
    · rw [hnull, hnull']
      exact .none
    · exact rel_rescaleColor hcolor
  have hstart := hside hstarted
  have hend := hside hended
  rw [← Members.get_adjust_of_ne hended (by decide)] at hstart
  rw [Members.get_adjust_of_ne hstarted (by decide)] at hend
  refine List.rel_filterMap (R := fun key other => other = key ∧
      Option.Rel InFractions (keyframe.get key).items? (result.get other).items?)
    (fun _ _ h => h.2) (.cons ⟨rfl, hstart⟩ (.cons ⟨rfl, hend⟩ .nil))

/-- A keyframed color, whose first keyframe stays an object. -/
theorem colors_rescaleKeyframes {first : Members ℝ} {rest : List (Value ℝ)} {result : Value ℝ}
    (rescaled : (Value.list (.object first :: rest)).adjustItems
      (Value.adjustMembers fun keyframe => do
        let keyframe ← keyframe.adjust "s" rescaleColor
        keyframe.adjust "e" rescaleColor) = .ok result) :
    List.Forall₂ InFractions (colorsIn (.list (.object first :: rest))) (colorsIn result) := by
  obtain ⟨own, hown, rfl⟩ := map_eq_ok.mp rescaled
  have hframes := mapM_eq_ok.mp hown
  obtain ⟨_, later, hfirst, -, rfl⟩ := List.forall₂_cons_left_iff.mp hframes
  obtain ⟨members, -, rfl⟩ := map_eq_ok.mp hfirst
  refine List.rel_flatMap hframes fun keyframe own hkeyframe => ?_
  cases keyframe with
  | object members =>
      obtain ⟨own, hown, rfl⟩ := map_eq_ok.mp hkeyframe
      exact colors_keyframe hown
  | _ =>
      cases hkeyframe
      exact .nil

theorem colorsIn_of_plain {R : Type} {channels : List (Value R)}
    (plain : ∀ first rest, channels ≠ .object first :: rest) :
    colorsIn (.list channels) = [channels] := by
  unfold colorsIn
  split
  · rename_i heq
    cases heq
    exact absurd rfl (plain _ _)
  · rename_i heq
    cases heq
    rfl
  · rename_i hlist
    exact absurd rfl (hlist channels)

/-- A static color: its first channel stays none that is an object. -/
theorem colors_rescaleStatic {content result : Value ℝ}
    (plain : ∀ first rest, content ≠ .list (.object first :: rest))
    (rescaled : rescaleColor content = .ok result) :
    List.Forall₂ InFractions (colorsIn content) (colorsIn result) := by
  cases content with
  | list channels =>
      obtain ⟨own, hown, rfl⟩ := map_eq_ok.mp rescaled
      have hchannels : ∀ first rest, channels ≠ .object first :: rest :=
        fun first rest h => plain first rest (congrArg Value.list h)
      have hfractions : own = colorFractions channels :=
        (Except.ok.inj ((rescaleChannels_eq 4 channels).symm.trans hown)).symm
      have hplain : ∀ first rest, own ≠ .object first :: rest := by
        rintro first rest rfl
        cases channels with
        | nil => cases hfractions
        | cons channel later =>
            obtain ⟨hchannel, -⟩ := List.cons.inj hfractions
            rw [channelFraction] at hchannel
            split at hchannel
            · cases hchannel
            · exact hchannels first later (hchannel ▸ rfl)
      rw [colorsIn_of_plain hchannels, colorsIn_of_plain hplain]
      exact .cons hfractions .nil
  | _ =>
      cases rescaled
      exact .nil

/-- Rescaling an entry rescales each of its colors in its place. -/
theorem colors_rescaleEntry {entry result : Members ℝ} (rescaled : rescaleEntry entry = .ok result) :
    List.Forall₂ InFractions (colorLists entry) (colorLists result) := by
  rw [colorLists_eq, colorLists_eq]
  unfold rescaleEntry at rescaled
  split at rescaled
  · rename_i hcolored
    have hsame : hasColor result = true := by
      rw [hasColor, Members.get_adjust_of_ne rescaled (by decide)]
      exact hcolored
    rw [if_pos hcolored, if_pos hsame]
    rcases Members.get_adjust_self rescaled with ⟨hnull, hnull'⟩ | hproperty
    · rw [hnull, hnull']
      exact .nil
    generalize entry.get "c" = property at hproperty ⊢
    generalize result.get "c" = own at hproperty ⊢
    cases property with
    | object members =>
        obtain ⟨own, hown, rfl⟩ := map_eq_ok.mp hproperty
        show List.Forall₂ InFractions (colorsIn (Members.get members "k"))
          (colorsIn (Members.get own "k"))
        rcases Members.get_adjust_self hown with ⟨hnull, hnull'⟩ | hcontent
        · rw [hnull, hnull']
          exact .nil
        · split at hcontent
          · rename_i hkeyframes
            rw [hkeyframes] at hcontent ⊢
            exact colors_rescaleKeyframes hcontent
          · rename_i hplain
            exact colors_rescaleStatic hplain hcontent
    | _ =>
        cases hproperty
        exact .nil
  · rename_i hplain
    cases rescaled
    rw [if_neg hplain]
    exact .nil

/-! ## Which documents have colors of 255 levels -/

/-- A document from before colors had fractions, or one that tells no version and has a color
with one of the first three channels above 1. -/
def InByteColors (document : Members ℝ) : Prop :=
  (Version.ofValue (document.get "v")).before colorsVersion = true ∨
    Version.ofValue (document.get "v") = .unknown ∧
      ∃ layer ∈ layersOf document, ∃ color ∈ layerColors layer, ∃ channel ∈ color.take 3,
        ∃ n, channel.quantity? = some n ∧ 1 < n.value

theorem isByteChannel_iff (channel : Value ℝ) :
    isByteChannel channel = true ↔ ∃ n, channel.quantity? = some n ∧ 1 < n.value := by
  rw [isByteChannel]
  cases channel.quantity? with
  | none => simp
  | some n => simp [Number.below_iff]

theorem mem_layerColors {R : Type} {layer : Members R} {color : List (Value R)} :
    color ∈ layerColors layer ↔ isLayerKind .shape layer = true ∧
      ∃ entry ∈ shapeLeaves (layer.get "shapes"), color ∈ colorLists entry := by
  rw [layerColors, shapeParts]
  split
  · rename_i hkind
    rw [List.mem_flatMap, and_iff_right hkind]
  · rename_i hkind
    exact iff_of_false List.not_mem_nil fun h => hkind h.1

theorem hasByteColors_iff (document : Members ℝ) :
    hasByteColors document = true ↔
      ∃ layer ∈ layersOf document, ∃ color ∈ layerColors layer, ∃ channel ∈ color.take 3,
        ∃ n, channel.quantity? = some n ∧ 1 < n.value := by
  simp only [hasByteColors, List.any_eq_true, List.mem_filter, isByteChannel_iff,
    mem_layerColors]
  constructor
  · rintro ⟨layer, ⟨hlayer, hkind⟩, entry, hentry, color, hcolor, hchannel⟩
    exact ⟨layer, hlayer, color, ⟨hkind, entry, hentry, hcolor⟩, hchannel⟩
  · rintro ⟨layer, hlayer, color, ⟨hkind, entry, hentry, hcolor⟩, hchannel⟩
    exact ⟨layer, ⟨hlayer, hkind⟩, entry, hentry, color, hcolor, hchannel⟩

/-- The test looks at the colors that are rescaled. -/
theorem usesByteColors_iff (document : Members ℝ) :
    usesByteColors (Version.ofValue (document.get "v")) document = true ↔
      InByteColors document := by
  rw [usesByteColors, Bool.or_eq_true, Bool.and_eq_true, decide_eq_true_iff, hasByteColors_iff,
    InByteColors]

/-! ## Rescaled documents -/

/-- Rescaling rescales the colors of all layers. -/
theorem recolored_rescaleColors {document result : Members ℝ}
    (rescaled : rescaleColors document = .ok result) :
    OnLayers (Recolored InFractions) document result := by
  have hkind : KeepsKind (rescaleEntry (R := ℝ)) := by
    intro entry own hown
    unfold rescaleEntry at hown
    split at hown
    · exact Members.get_adjust_of_ne hown (by decide)
    · rw [Except.ok.inj hown]
  refine onLayers_changeLayers (fun layer own hown => ?_) rescaled
  split at hown
  · exact shapeParts_changeShapes hkind (fun _ _ => colors_rescaleEntry) hown
  · rename_i hplain
    cases hown
    rw [Recolored, layerColors, shapeParts, if_neg hplain]
    exact .nil

/-- The steps after the one for colors keep all of them. -/
theorem recolored_later {R : Type} [Scalar R] {version : Version}
    {document colored worded lettered laid result : Members R}
    (steps : EncodingSteps version document colored worded lettered laid result) :
    OnLayers (Recolored Eq) colored result := by
  have step : ∀ {due : Bool} {change : Change (Members R)} {before after : Members R},
      (change before = .ok after → OnLayers (Recolored Eq) before after) →
      Taken due change before after → OnLayers (Recolored Eq) before after := by
    intro due change before after hchange taken
    obtain ⟨-, changed⟩ | rfl := taken.cases
    · exact hchange changed
    · exact .of_get fun _ _ => rfl
  have hword : ∀ {change : Change (Value R)} {layer own : Members R},
      (if isLayerKind .text layer then Members.adjust "t" change layer else .ok layer) = .ok own →
        Recolored Eq layer own := by
    intro change layer own hown
    split at hown
    · exact recolored_of_adjust (by decide) hown
    · cases hown
      exact refl layer
  have htexts : OnLayers (Recolored Eq) colored worded :=
    step (onLayers_changeLayers fun _ _ => hword) steps.texts
  have hglyphs : OnLayers (Recolored Eq) worded lettered :=
    step (fun changed => .of_get fun key hkey => Members.get_adjust_of_ne changed (by
      rintro rfl
      exact absurd hkey (by decide))) steps.glyphs
  have hpaths : OnLayers (Recolored Eq) lettered laid :=
    step (onLayers_changeLayers fun _ _ => hword) steps.paths
  have hflags : OnLayers (Recolored Eq) laid result :=
    step (onLayers_changeLayers fun _ _ => recolored_closePaths) steps.flags
  exact .comp IsTrans.trans (.comp IsTrans.trans htexts hglyphs)
    (.comp IsTrans.trans hpaths hflags)

/-- A document and one with its colors by a rule: those of its layers, and those of what its
precompositions are filled with. -/
structure ColoredBy (rule : List (Value ℝ) → List (Value ℝ) → Prop) (input output : Members ℝ) :
    Prop where
  layers : OnLayers (Recolored rule) input output
  filled : ∀ layer, IsFilled input output layer → FilledFrom (Recolored rule) input output layer

theorem ColoredBy.of_encoded {rule : List (Value ℝ) → List (Value ℝ) → Prop}
    {input encoded output : Members ℝ} (alike : AlikeDocuments input encoded)
    (h : OnLayers (Recolored rule) input encoded)
    (completed : (completeDocument encoded).outcome = .ok output) : ColoredBy rule input output where
  layers := h.comp (fun _ _ _ => Recolored.trans_eq) (recolored_completeDocument completed)
  filled _ filled := .of_alike alike h
    (filledFrom_completeDocument completed (filled.of_alike alike))

/-- A channel that is a fraction of itself is zero. -/
theorem value_of_channelFraction {channel : Value ℝ} {n : Number ℝ}
    (hquantity : channel.quantity? = some n) (h : channelFraction channel = channel) :
    n.value = 0 := by
  have hfraction : channelFraction channel = .num (.real (n.value / 255)) := by
    rw [channelFraction, hquantity]
  rw [← h, hfraction] at hquantity
  have hvalue : n.value / 255 = n.value :=
    congrArg Number.value (Option.some.inj hquantity : Number.real (n.value / 255) = n)
  linarith

theorem channel_of_inFractions {color : List (Value ℝ)} (h : InFractions color color)
    {channel : Value ℝ} (hchannel : channel ∈ color.take 4) : channelFraction channel = channel := by
  have hsplit : color.take 4 ++ color.drop 4 = colorFractions color :=
    (List.take_append_drop 4 color).trans h
  have hkept : color.take 4 = (color.take 4).map channelFraction :=
    (List.append_inj hsplit (List.length_map _).symm).1
  obtain ⟨index, hindex⟩ := List.getElem?_of_mem hchannel
  have hown := hindex
  rw [hkept, List.getElem?_map, hindex] at hown
  exact Option.some.inj hown

/-- A document with a color that has a channel other than zero shows which rule it went by. -/
theorem not_both_rules {input output : Members ℝ} {layer : Members ℝ} {color : List (Value ℝ)}
    {channel : Value ℝ} {n : Number ℝ} (hlayer : layer ∈ layersOf input)
    (hcolor : color ∈ layerColors layer) (hchannel : channel ∈ color.take 4)
    (hquantity : channel.quantity? = some n) (hne : n.value ≠ 0)
    (fractions : OnLayers (Recolored InFractions) input output) :
    ¬ OnLayers (Recolored Eq) input output := by
  intro same
  have hself : OnLayers (Recolored InFractions) input input :=
    fractions.comp (fun _ _ _ => Recolored.trans_eq) same.symm
  have hfraction := List.forall₂_same.mp (hself.of_mem_layersOf hlayer) color hcolor
  exact hne (value_of_channelFraction hquantity (channel_of_inFractions hfraction hchannel))

/-- **Colors are rescaled together and once.**  Migrating a document divides all of its colors
by 255 if they have 255 levels, and keeps all of them if not; what its precompositions are
filled with has the colors of the assets, changed as little or as much as in the assets
themselves.  Which of the two it was shows as soon as some channel is not zero. -/
theorem migrate_rescales_all_colors_or_none {input : Members ℝ} {document : MigratedDocument ℝ}
    (returned : (migrate (.object input)).outcome = .ok document) :
    (InByteColors input → ColoredBy InFractions input document.members) ∧
    (¬ InByteColors input → ColoredBy Eq input document.members) ∧
    ((∃ layer ∈ layersOf input, ∃ color ∈ layerColors layer, ∃ channel ∈ color.take 4,
        ∃ n, channel.quantity? = some n ∧ n.value ≠ 0) →
      (ColoredBy InFractions input document.members ↔ InByteColors input)) := by
  obtain ⟨members, encoded, hmembers, hversion, hencoded, hcompleted⟩ := migrate_eq_ok.mp returned
  obtain ⟨hinput, -⟩ := documentMembers_eq_ok.mp hmembers
  obtain rfl : input = members := Value.object.inj hinput
  rw [hversion] at hencoded
  have alike := alike_migrateEncodings hencoded
  obtain ⟨colored, worded, lettered, laid, steps⟩ := migrateEncodings_eq_ok.mp hencoded
  have hlater := recolored_later steps
  have hcolors := steps.colors
  unfold Taken at hcolors
  have hbytes : InByteColors input → ColoredBy InFractions input document.members := by
    intro bytes
    rw [if_pos ((usesByteColors_iff input).mpr bytes)] at hcolors
    exact .of_encoded alike
      ((recolored_rescaleColors hcolors).comp (fun _ _ _ => Recolored.trans_eq) hlater) hcompleted
  have hkept : ¬ InByteColors input → ColoredBy Eq input document.members := by
    intro plain
    rw [if_neg (mt (usesByteColors_iff input).mp plain)] at hcolors
    obtain rfl := Except.ok.inj hcolors
    exact .of_encoded alike hlater hcompleted
  refine ⟨hbytes, hkept, ?_⟩
  rintro ⟨layer, hlayer, color, hcolor, channel, hchannel, n, hquantity, hne⟩
  refine ⟨fun colored => ?_, hbytes⟩
  by_contra plain
  exact not_both_rules hlayer hcolor hchannel hquantity hne colored.layers (hkept plain).layers

/-! ## An asset with a color, used twice -/

/-- A shape layer with a fill inside a group. -/
def filledLayer (channels : List (Value ℝ)) : Members ℝ :=
  [("ty", .text "shape"), ("ks", .null), ("shapes", .list [.object [("ty", .text "gr"),
    ("it", .list [.object [("ty", .text "fl"), ("c", .object [("k", .list channels)])]])]])]

/-- A channel between 0 and 1 that is one of 256 levels. -/
noncomputable def levelOf (n : ℤ) : Value ℝ := .num (.real (n / (255 : ℤ)))

def byteChannels : List (Value ℝ) :=
  [.num (.whole 255), .bool true, .num (.whole 51), .num (.whole 255), .text "red"]

noncomputable def fractionChannels : List (Value ℝ) :=
  [levelOf 255, levelOf 1, levelOf 51, levelOf 255, .text "red"]

/-- A use of the asset with the color. -/
def swatchUse (more : Members ℝ) : Members ℝ :=
  [("ty", .text "precomp"), ("ks", .null), ("refId", .text "swatch")] ++ more

def swatchAsset (layers : List (Value ℝ)) : Value ℝ :=
  .object [("id", .text "swatch"), ("layers", .list layers)]

/-- A document without a version that uses the color twice. -/
def swatchDocument : Members ℝ :=
  [("layers", .list [.object (swatchUse []), .object (swatchUse [])]),
    ("assets", .list [swatchAsset [.object (filledLayer byteChannels)]])]

/-- The document migrated. -/
noncomputable def swatchMigrated : Members ℝ :=
  let layers : Value ℝ := .list [.object (filledLayer fractionChannels)]
  [("layers", .list [.object (swatchUse [("layers", layers)]),
      .object (swatchUse [("layers", layers)])]),
    ("assets", .list [swatchAsset [.object (filledLayer fractionChannels)]])]

theorem inByteColors_swatchDocument : InByteColors swatchDocument := by
  have hlayer : filledLayer byteChannels ∈ layersOf swatchDocument :=
    mem_layersOf.mpr (.inr ⟨0, _, rfl, List.mem_cons_self⟩)
  have hcolor : byteChannels ∈ layerColors (filledLayer byteChannels) := List.mem_cons_self
  refine .inr ⟨rfl, _, hlayer, _, hcolor, .num (.whole 255), List.mem_cons_self, _, rfl, ?_⟩
  norm_num

theorem migrate_swatchDocument :
    (migrate (.object swatchDocument)).outcome = .ok ⟨swatchMigrated, .unknown⟩ ∧
      InByteColors swatchDocument ∧ ColoredBy InFractions swatchDocument swatchMigrated := by
  have returned : (migrate (.object swatchDocument)).outcome = .ok ⟨swatchMigrated, .unknown⟩ := rfl
  obtain ⟨hbytes, -, -⟩ := migrate_rescales_all_colors_or_none returned
  exact ⟨returned, inByteColors_swatchDocument, hbytes inByteColors_swatchDocument⟩

end MotionScene
