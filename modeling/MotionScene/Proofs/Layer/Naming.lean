import MotionScene.Proofs.Layer.Assembly

/-!
# Layers that name each other

Layers name their parents by index.  A layer is known under an index if it leaves an
element and none behind it has the same index (`Known`).  These are the layers that stand
in the registry with a key, so looking an index up finds the layer known under it
(`BuiltFrom.placeOf?_iff`), and the links between places are the names of known layers
(`BuiltFrom.parentOf_iff`, `BuiltFrom.cycle_iff`).
-/

namespace MotionScene

open Relation

variable {R : Type} [Scalar R] {clock : Clock R} {items : List (Value R)}

/-! ## Named layers -/

instance [PartialEquivBEq R] : PartialEquivBEq (LayerKey R) where
  symm {first second} h := by
    cases first <;> cases second <;> try cases h
    case text.text s t => exact BEq.symm (a := s) h
    case whole.whole m n => exact BEq.symm (a := m) h
    case broken.broken x y => exact BEq.symm (a := x) h
  trans {first second third} h h' := by
    cases first <;> cases second <;> try cases h
    all_goals cases third <;> try cases h'
    case text.text.text s t u => exact BEq.trans (a := s) h h'
    case whole.whole.whole m n k => exact BEq.trans (a := m) h h'
    case broken.broken.broken x y z => exact BEq.trans (a := x) h h'

/-- The index that a layer of a list writes under a name. -/
def keyUnder (items : List (Value R)) (name : String) (index : Nat) : Option (LayerKey R) :=
  items[index]?.bind fun layer => (LayerKey.ofValue? (layer.members.get name)).toOption.join

/-- A layer is known under its index: it leaves an element, and none behind it that does
has the same index. -/
structure Known (clock : Clock R) (items : List (Value R)) (index : Nat) (key : LayerKey R) :
    Prop where
  built : (builtAt clock items index).isSome
  own : keyUnder items "ind" index = some key
  first : ∀ {later other}, index < later → (builtAt clock items later).isSome →
    keyUnder items "ind" later = some other → (other == key) = false

/-- The index that a layer names as its parent is that of a layer that leaves an element. -/
def FindsParent (clock : Clock R) (items : List (Value R)) (index : Nat) : Prop :=
  ∃ key above other, keyUnder items "parent" index = some key ∧
    (builtAt clock items above).isSome ∧ keyUnder items "ind" above = some other ∧ other == key

/-- A layer names another one, which is known under the index, as its parent. -/
def NamesParent (clock : Clock R) (items : List (Value R)) (child parent : Nat) : Prop :=
  ∃ key own, keyUnder items "parent" child = some key ∧ Known clock items parent own ∧ own == key

theorem NamesParent.known {child parent : Nat} (names : NamesParent clock items child parent) :
    ∃ key, Known clock items parent key := by
  obtain ⟨-, own, -, known, -⟩ := names
  exact ⟨own, known⟩

theorem Known.unique [PartialEquivBEq R] {index index' : Nat} {key key' : LayerKey R}
    (known : Known clock items index key) (known' : Known clock items index' key')
    (same : key == key') : index = index' := by
  rcases Nat.lt_trichotomy index index' with hlt | heq | hlt
  · exact absurd (BEq.symm same) (Bool.eq_false_iff.mp (known.first hlt known'.built known'.own))
  · exact heq
  · exact absurd same (Bool.eq_false_iff.mp (known'.first hlt known.built known.own))

/-! ## Registered layers -/

section Registered

variable {indices : List Nat} {layers before : List (BuiltLayer R)} {layer : BuiltLayer R}
  {key other : LayerKey R} {index place : Nat}

theorem placeOf?_eq_none : placeOf? layers key = none ↔
    ∀ layer ∈ layers, ∀ other, layer.key? = some other → (other == key) = false := by
  rw [placeOf?, List.findIdx?_eq_none_iff]
  refine forall₂_congr fun layer _ => ?_
  cases layer.key? with
  | none => simp
  | some other => simp

theorem exists_of_placeOf?_eq_some (h : placeOf? layers key = some place) :
    ∃ layer other, layers[place]? = some layer ∧ layer.key? = some other ∧ other == key ∧
      placeOf? (layers.take place) key = none := by
  obtain ⟨hlt, hkey, hbefore⟩ := List.findIdx?_eq_some_iff_getElem.mp h
  cases hown : layers[place].key? with
  | none => simp [hown] at hkey
  | some other =>
      refine ⟨_, other, List.getElem?_eq_getElem hlt, hown, by simpa [hown] using hkey, ?_⟩
      rw [placeOf?, List.findIdx?_eq_none_iff]
      intro layer hlayer
      obtain ⟨earlier, hearlier, rfl⟩ := List.mem_take_iff_getElem.mp hlayer
      simpa using hbefore earlier (by omega)

theorem key?_of_registeredAt (registered : RegisteredAt items index before layer) :
    layer.key? = (keyUnder items "ind" index).filter fun key => (placeOf? before key).isNone := by
  obtain ⟨members, hitem, hregister⟩ := registered
  obtain ⟨key?, hkey, hlayer⟩ := eq_of_register hregister
  rw [keyUnder, hitem, Option.bind_some, Value.members, Value.members?, Option.getD_some, hkey,
    hlayer]
  rfl

theorem parent_of_registeredAt (registered : RegisteredAt items index before layer) :
    (LayerKey.ofValue? layer.parent).toOption.join = keyUnder items "parent" index := by
  obtain ⟨members, hitem, hregister⟩ := registered
  obtain ⟨key?, -, hlayer⟩ := eq_of_register hregister
  rw [keyUnder, hitem, hlayer]
  rfl

theorem linkOf_eq_layer {parent : Nat} : linkOf layers layer = .ok (.layer parent) ↔
    ∃ own key, layer.key? = some own ∧ LayerKey.ofValue? layer.parent = .ok (some key) ∧
      placeOf? layers key = some parent := by
  unfold linkOf
  cases layer.key? with
  | none => simp
  | some own =>
      cases hparent : LayerKey.ofValue? layer.parent with
      | error fault => simp [bind, Except.bind]
      | ok key? =>
          cases key? with
          | none => simp
          | some key => cases hplace : placeOf? layers key <;> simp [hplace]

end Registered

/-! ## Places and indices -/

namespace BuiltFrom

variable {indices : List Nat} {layers : List (BuiltLayer R)}
  (known : BuiltFrom clock items indices layers) {layer : BuiltLayer R} {key : LayerKey R}
  {index place : Nat}

include known

theorem builtAt_place (hindex : indices[place]? = some index)
    (hlayer : layers[place]? = some layer) :
    builtAt clock items index = some layer.pivoted := by
  have hbuilt := known.builtAt_getD hlayer
  rwa [List.getD_eq_getElem?_getD, hindex, Option.getD_some] at hbuilt

theorem exists_place (built : (builtAt clock items index).isSome) :
    ∃ (place : Nat) (layer : BuiltLayer R),
      indices[place]? = some index ∧ layers[place]? = some layer := by
  obtain ⟨place, hplace⟩ := List.mem_iff_getElem?.mp (known.complete index built)
  have hlt : place < layers.length := by
    rw [← known.built.length_eq]
    exact (List.getElem?_eq_some_iff.mp hplace).1
  exact ⟨place, _, hplace, List.getElem?_eq_getElem hlt⟩

theorem exists_index (hlayer : layers[place]? = some layer) :
    ∃ index : Nat, indices[place]? = some index := by
  have hlt : place < indices.length := by
    rw [known.built.length_eq]
    exact (List.getElem?_eq_some_iff.mp hlayer).1
  exact ⟨_, List.getElem?_eq_getElem hlt⟩

/-- A layer that stands later in its list was built earlier. -/
theorem index_lt_iff {later earlier : Nat} (hplace : indices[place]? = some index)
    (hearlier : indices[earlier]? = some later) : index < later ↔ earlier < place := by
  obtain ⟨hlt, rfl⟩ := List.getElem?_eq_some_iff.mp hplace
  obtain ⟨hlt', rfl⟩ := List.getElem?_eq_some_iff.mp hearlier
  have hfalling := List.pairwise_iff_getElem.mp known.falling
  constructor
  · intro hless
    rcases Nat.lt_trichotomy earlier place with hplaces | rfl | hplaces
    · exact hplaces
    · exact absurd hless (lt_irrefl _)
    · exact absurd hless (hfalling place earlier hlt hlt' hplaces).le.not_gt
  · exact hfalling earlier place hlt' hlt

theorem known_of_key? [PartialEquivBEq R] (hindex : indices[place]? = some index)
    (hlayer : layers[place]? = some layer) (hkey : layer.key? = some key) :
    Known clock items index key := by
  rw [key?_of_registeredAt (known.registered hindex hlayer), Option.filter_eq_some_iff] at hkey
  obtain ⟨hown, hfree⟩ := hkey
  rw [Option.isNone_iff_eq_none, placeOf?_eq_none] at hfree
  refine ⟨by rw [known.builtAt_place hindex hlayer]; rfl, hown, ?_⟩
  intro later other hlt hbuilt hother
  obtain ⟨earlier, behind, hearlier, hbehind⟩ := known.exists_place hbuilt
  have hplaces := (known.index_lt_iff hindex hearlier).mp hlt
  have hregistered := key?_of_registeredAt (known.registered hearlier hbehind)
  rw [hother] at hregistered
  cases htaken : placeOf? (layers.take earlier) other with
  | none =>
      have hmem : behind ∈ layers.take place :=
        List.mem_of_getElem? (by rwa [List.getElem?_take_of_lt hplaces])
      exact hfree behind hmem other (by simpa [Option.filter, htaken] using hregistered)
  | some taken =>
      -- the layer behind has no key of its own, but the one that took it has
      obtain ⟨lower, taking, hlower, htaking, hsame, -⟩ := exists_of_placeOf?_eq_some htaken
      have hmem : lower ∈ layers.take place :=
        List.take_subset_take_left layers hplaces.le (List.mem_of_getElem? hlower)
      rw [Bool.eq_false_iff]
      intro hequal
      exact absurd (BEq.trans hsame hequal) (Bool.eq_false_iff.mp (hfree lower hmem taking htaking))

/-- The layer that is known under an index is the one that has it as its key. -/
theorem key?_of_known [PartialEquivBEq R] (hindex : indices[place]? = some index)
    (hlayer : layers[place]? = some layer) (hknown : Known clock items index key) :
    layer.key? = some key := by
  rw [key?_of_registeredAt (known.registered hindex hlayer), hknown.own,
    Option.filter_eq_some_iff]
  refine ⟨rfl, ?_⟩
  rw [Option.isNone_iff_eq_none, placeOf?_eq_none]
  intro behind hmem other hother
  obtain ⟨earlier, hlt, rfl⟩ := List.mem_take_iff_getElem.mp hmem
  have hbehind := List.getElem?_eq_getElem (l := layers) (i := earlier) (by omega)
  obtain ⟨later, hlater⟩ := known.exists_index hbehind
  have hknown' := known.known_of_key? hlater hbehind hother
  exact hknown.first ((known.index_lt_iff hindex hlater).mpr (by omega)) hknown'.built hknown'.own

theorem place_unique {other : Nat} (hplace : indices[place]? = some index)
    (hother : indices[other]? = some index) : place = other := by
  have hlt := known.index_lt_iff hplace hother
  have hgt := known.index_lt_iff hother hplace
  omega

/-- Looking an index up finds the layer that is known under it. -/
theorem placeOf?_iff [PartialEquivBEq R] (hindex : indices[place]? = some index) :
    placeOf? layers key = some place ↔ ∃ own, Known clock items index own ∧ own == key := by
  constructor
  · intro hplace
    obtain ⟨layer, own, hlayer, hown, hsame, -⟩ := exists_of_placeOf?_eq_some hplace
    exact ⟨own, known.known_of_key? hindex hlayer hown, hsame⟩
  · rintro ⟨own, hknown, hsame⟩
    obtain ⟨again, layer, hagain, hlayer⟩ := known.exists_place hknown.built
    obtain rfl := known.place_unique hindex hagain
    have hown := known.key?_of_known hindex hlayer hknown
    cases hfound : placeOf? layers key with
    | none =>
        have hdiffers := placeOf?_eq_none.mp hfound layer (List.mem_of_getElem? hlayer) own hown
        simp [hdiffers] at hsame
    | some found =>
        obtain ⟨other, taking, hother, htaking, hsame', -⟩ := exists_of_placeOf?_eq_some hfound
        obtain ⟨index', hindex'⟩ := known.exists_index hother
        have hknown' := known.known_of_key? hindex' hother htaking
        obtain rfl := hknown'.unique hknown (BEq.trans hsame' (BEq.symm hsame))
        rw [known.place_unique hindex hindex']

/-- A layer that has an index is known under it, unless another one is. -/
theorem known_or [PartialEquivBEq R] (built : (builtAt clock items index).isSome)
    (own : keyUnder items "ind" index = some key) :
    Known clock items index key ∨ ∃ first other, Known clock items first other ∧ other == key := by
  obtain ⟨place, layer, hindex, hlayer⟩ := known.exists_place built
  have hregistered := key?_of_registeredAt (known.registered hindex hlayer)
  rw [own] at hregistered
  cases htaken : placeOf? (layers.take place) key with
  | none =>
      refine .inl (known.known_of_key? hindex hlayer ?_)
      simpa [Option.filter, htaken] using hregistered
  | some taken =>
      obtain ⟨lower, other, hlower, hother, hsame, -⟩ := exists_of_placeOf?_eq_some htaken
      obtain ⟨lowerPlace, hlower'⟩ := List.mem_iff_getElem?.mp
        (List.mem_of_mem_take (List.mem_of_getElem? hlower))
      obtain ⟨first, hfirst⟩ := known.exists_index hlower'
      exact .inr ⟨first, other, known.known_of_key? hfirst hlower' hother, hsame⟩

/-- An index that a layer leaves is one that a layer is known under. -/
theorem findsParent_iff [PartialEquivBEq R] :
    FindsParent clock items index ↔ ∃ parent, NamesParent clock items index parent := by
  constructor
  · rintro ⟨key, above, other, hparent, hbuilt, hother, hsame⟩
    rcases known.known_or hbuilt hother with hknown | ⟨first, own, hknown, hsame'⟩
    · exact ⟨above, key, other, hparent, hknown, hsame⟩
    · exact ⟨first, key, own, hparent, hknown, BEq.trans hsame' hsame⟩
  · rintro ⟨parent, key, own, hparent, hknown, hsame⟩
    exact ⟨key, parent, own, hparent, hknown.built, hknown.own, hsame⟩

/-! ## Links -/

/-- The link of a layer leads to the place of the layer that it names. -/
theorem linkOf_iff [PartialEquivBEq R] (hindex : indices[place]? = some index)
    (hlayer : layers[place]? = some layer) {parent above : Nat}
    (hparent : indices[parent]? = some above) :
    linkOf layers layer = .ok (.layer parent) ↔
      (∃ key, Known clock items index key) ∧ NamesParent clock items index above := by
  have hnamed := parent_of_registeredAt (known.registered hindex hlayer)
  rw [linkOf_eq_layer]
  constructor
  · rintro ⟨own, key, hown, hkey, hplace⟩
    rw [toOption_join_eq_some.mpr hkey] at hnamed
    obtain ⟨other, hknown, hsame⟩ := (known.placeOf?_iff hparent).mp hplace
    exact ⟨⟨own, known.known_of_key? hindex hlayer hown⟩, key, other, hnamed.symm, hknown, hsame⟩
  · rintro ⟨⟨own, hown⟩, key, other, hkey, hknown, hsame⟩
    rw [hkey] at hnamed
    exact ⟨own, key, known.key?_of_known hindex hlayer hown, toOption_join_eq_some.mp hnamed,
      (known.placeOf?_iff hparent).mpr ⟨other, hknown, hsame⟩⟩

section Parents

variable [PartialEquivBEq R] {parents : List ParentLink}
  (hparents : List.Forall₂ (fun layer link => linkOf layers layer = .ok link) layers parents)

include hparents

theorem parentOf_iff {parent above : Nat} (hindex : indices[place]? = some index)
    (hparent : indices[parent]? = some above) :
    ParentOf (linksOf parents) place parent ↔
      (∃ key, Known clock items index key) ∧ NamesParent clock items index above := by
  have hplace : place < layers.length := by
    rw [← known.built.length_eq]
    exact (List.getElem?_eq_some_iff.mp hindex).1
  have hplace' : place < parents.length := hparents.length_eq ▸ hplace
  have hlink : linkOf layers layers[place] = .ok parents[place] :=
    List.Forall₂.get hparents hplace hplace'
  rw [← known.linkOf_iff hindex (List.getElem?_eq_getElem hplace) hparent, hlink, ParentOf,
    parentOf_linksOf, List.getElem?_eq_getElem hplace', Option.bind_some]
  cases parents[place] <;> simp [ParentLink.place?]

omit [PartialEquivBEq R] in
theorem index_of_parentOf {parent : Nat} (h : ParentOf (linksOf parents) place parent) :
    ∃ above : Nat, indices[parent]? = some above := by
  rw [ParentOf, parentOf_linksOf] at h
  obtain ⟨link, hlink, hplace⟩ := Option.bind_eq_some_iff.mp h
  obtain ⟨layer, -, hlayer⟩ := exists_of_mem_right hparents (List.mem_of_getElem? hlink)
  cases link with
  | layer named =>
      cases hplace
      have hlt := linkOf_lt hlayer
      rw [← known.built.length_eq] at hlt
      exact ⟨_, List.getElem?_eq_getElem hlt⟩
  | _ => cases hplace

theorem namesParent_of_parentOf {parent : Nat} (hindex : indices[place]? = some index)
    (leads : TransGen (ParentOf (linksOf parents)) place parent) :
    ∃ above, indices[parent]? = some above ∧ TransGen (NamesParent clock items) index above := by
  induction leads with
  | single h =>
      obtain ⟨above, habove⟩ := known.index_of_parentOf hparents h
      exact ⟨above, habove, .single ((known.parentOf_iff hparents hindex habove).mp h).2⟩
  | tail _ h ih =>
      obtain ⟨middle, hmiddle, hleads⟩ := ih
      obtain ⟨above, habove⟩ := known.index_of_parentOf hparents h
      exact ⟨above, habove, hleads.tail ((known.parentOf_iff hparents hmiddle habove).mp h).2⟩

/-- All layers on the way but the first are known, since they are named. -/
theorem parentOf_of_namesParent {above : Nat} (hindex : indices[place]? = some index)
    (hknown : ∃ key, Known clock items index key)
    (leads : TransGen (NamesParent clock items) index above) :
    ∃ parent : Nat, indices[parent]? = some above ∧
      TransGen (ParentOf (linksOf parents)) place parent := by
  induction leads with
  | single h =>
      obtain ⟨key, habove⟩ := h.known
      obtain ⟨parent, -, hparent, -⟩ := known.exists_place habove.built
      exact ⟨parent, hparent,
        .single ((known.parentOf_iff hparents hindex hparent).mpr ⟨hknown, h⟩)⟩
  | tail hbefore h ih =>
      obtain ⟨middle, hmiddle, hleads⟩ := ih
      obtain ⟨last, -, hnamed⟩ := TransGen.tail'_iff.mp hbefore
      obtain ⟨key, habove⟩ := h.known
      obtain ⟨parent, -, hparent, -⟩ := known.exists_place habove.built
      have hlink := (known.parentOf_iff hparents hmiddle hparent).mpr ⟨hnamed.known, h⟩
      exact ⟨parent, hparent, hleads.tail hlink⟩

theorem cycle_iff (hindex : indices[place]? = some index) :
    TransGen (ParentOf (linksOf parents)) place place ↔
      TransGen (NamesParent clock items) index index := by
  constructor
  · intro cycle
    obtain ⟨again, hagain, hleads⟩ := known.namesParent_of_parentOf hparents hindex cycle
    rw [hindex] at hagain
    cases hagain
    exact hleads
  · intro cycle
    obtain ⟨last, -, hnamed⟩ := TransGen.tail'_iff.mp cycle
    obtain ⟨again, hagain, hleads⟩ :=
      known.parentOf_of_namesParent hparents hindex hnamed.known cycle
    rwa [known.place_unique hindex hagain] at hleads ⊢

end Parents

end BuiltFrom

end MotionScene
