import MotionScene.Proofs.Migration.Nesting
import MotionScene.Proofs.Migration.Settled
import MotionScene.Proofs.Migration.Steps

/-!
# Encodings that were migrated

The older encodings of a migrated document are migrated again when it is read again: its
version is the one that it had.  Texts and their path options are wrapped once more and the
glyphs are completed once more, all of which no scene shows; the closed flags are there
already.  If the colors are not rescaled once more, nothing else is new
(`exists_migrateEncodings_again`).
-/

namespace MotionScene

variable {R : Type} [Scalar R]

/-! ## The layer lists of a document -/

/-- The layers of an owner: of the document itself, or of the asset at a position. -/
def layersOwned? (document : Members R) : (owner? : Option Nat) → Option (List (Value R))
  | none => some (document.get "layers").items
  | some position => assetLayers? (document.get "assets").items position

section Lists

variable {change : Change (Members R)} {document result : Members R}

omit [Scalar R] in
theorem passes_changeLayers {stays : Prop}
    (h : ∀ owner? layers, layersOwned? document owner? = some layers → ∀ layer : Members R,
      .object layer ∈ layers → Passes stays change layer) :
    Passes stays (changeLayers change) document := by
  have hlist : ∀ owner? {value : Value R},
      (∀ layers, value = .list layers → layersOwned? document owner? = some layers) →
      Passes stays (Value.adjustItems (Value.adjustMembers change)) value := by
    intro owner? value howner
    refine passes_adjustItems fun layers index item hlayers hitem => ?_
    refine passes_adjustMembers fun layer hobject => ?_
    subst hobject
    exact h owner? layers (howner layers hlayers) layer (List.mem_of_getElem? hitem)
  refine Passes.bind (passes_adjust fun value hvalue => hlist none ?_)
    fun middle hmiddle => passes_adjust fun assets hassets => ?_
  · rintro layers rfl
    rw [layersOwned?, Members.get, hvalue]
    rfl
  · rw [Members.get?_adjust_of_ne hmiddle (by decide)] at hassets
    refine passes_adjustItems fun items position asset hitems hasset => ?_
    refine passes_adjustMember fun members value hobject hvalue => ?_
    subst hitems hobject
    refine hlist (some position) ?_
    rintro layers rfl
    rw [layersOwned?, assetLayers?, Members.get, hassets]
    show (items[position]? >>= _) = _
    rw [hasset]
    show (Members.get members "layers").items? = _
    rw [Members.get, hvalue]
    rfl

omit [Scalar R] in
/-- Changing layers leaves every layer list in its place. -/
theorem rel_layersOwned? (changed : changeLayers change document = .ok result)
    (owner? : Option Nat) :
    Option.Rel (List.Forall₂ fun layer own => layer.adjustMembers change = .ok own)
      (layersOwned? document owner?) (layersOwned? result owner?) := by
  rw [changeLayers_eq] at changed
  obtain ⟨middle, htop, hassets⟩ := bind_eq_ok.mp changed
  cases owner? with
  | none =>
      refine .some ?_
      rw [Members.get_adjust_of_ne hassets (by decide)]
      exact (onItems_adjust (fun _ _ => id) htop).items
  | some position =>
      rw [layersOwned?, layersOwned?, ← Members.get_adjust_of_ne htop (by decide)]
      have hitems := (onItems_adjust (fun _ _ => id) hassets).items
      refine rel_bind (forall₂_getElem? hitems position) fun asset own hasset => ?_
      have hlayers : OnMembers (fun asset own : Members R =>
          OnItems (fun layer own => layer.adjustMembers change = .ok own) (asset.get "layers")
            (own.get "layers")) asset own :=
        onMembers_adjustMembers (fun _ _ => onItems_adjust fun _ _ => id) hasset
      cases asset with
      | object members =>
          obtain ⟨own, rfl, hown⟩ := hlayers
          exact hown.items?
      | _ =>
          cases hlayers
          exact .none

end Lists

/-! ## Layers that are reworded -/

/-- A layer and one that differs in its text only. -/
def Reworded (layer other : Members R) : Prop :=
  ∀ key, "t" ≠ key → other.get? key = layer.get? key

instance : IsEquiv (Members R) Reworded where
  refl _ _ _ := rfl
  symm _ _ h key hkey := (h key hkey).symm
  trans _ _ _ h h' key hkey := (h' key hkey).trans (h key hkey)

/-- A document and one whose layers differ in their texts only. -/
def RewordedLists (document result : Members R) : Prop :=
  ∀ owner?, Option.Rel (List.Forall₂ (OnMembers Reworded)) (layersOwned? document owner?)
    (layersOwned? result owner?)

namespace RewordedLists

variable {document middle result : Members R}

omit [Scalar R] in
theorem of_get? (same : ∀ key ∈ layerKeys, result.get? key = document.get? key) :
    RewordedLists document result := by
  intro owner?
  have hlists : layersOwned? result owner? = layersOwned? document owner? := by
    have hget : ∀ key ∈ layerKeys, result.get key = document.get key := fun key hkey => by
      exact Members.get_congr (same key hkey)
    cases owner? with
    | none => rw [layersOwned?, layersOwned?, hget _ (by decide)]
    | some position => rw [layersOwned?, layersOwned?, hget _ (by decide)]
  rw [hlists]
  cases layersOwned? document owner? with
  | none => exact .none
  | some layers => exact .some (List.forall₂_refl _)

omit [Scalar R] in
theorem trans (h : RewordedLists document middle) (h' : RewordedLists middle result) :
    RewordedLists document result := by
  intro owner?
  have hfirst := h owner?
  have hsecond := h' owner?
  revert hfirst hsecond
  generalize layersOwned? document owner? = layers?
  generalize layersOwned? middle owner? = between?
  generalize layersOwned? result owner? = own?
  rintro (hlayers | _) hown
  · obtain hown | _ := hown
    exact .some (forall₂_comp IsTrans.trans hlayers hown)
  · exact hown

omit [Scalar R] in
/-- Changing the texts of text layers changes nothing else. -/
theorem of_adjust {change : Change (Value R)}
    (changed : changeLayersOf .text (Members.adjust "t" change) document = .ok result) :
    RewordedLists document result := by
  intro owner?
  have hrel := rel_layersOwned? changed owner?
  revert hrel
  generalize layersOwned? document owner? = layers?
  generalize layersOwned? result owner? = own?
  rintro (hlayers | _)
  · refine .some (hlayers.imp fun _ _ => onMembers_adjustMembers fun layer own hown => ?_)
    split at hown
    · exact fun key hkey => Members.get?_adjust_of_ne hown hkey
    · rw [Except.ok.inj hown]
      exact refl _
  · exact .none

end RewordedLists

/-! ## Completed layers -/

/-- A layer with a transform in a completed list has the content of one that was completed. -/
theorem exists_completedContent {expands : Value R → List (Value R) → Prop}
    {sources layers : List (Value R)} (completed : Completed expands sources layers)
    {layer : Members R} (hmem : .object layer ∈ layers) :
    ∃ source : Members R, .object source ∈ sources ∧
      ((∀ key, "td" ≠ key → layer.get? key = source.get? key) ∧ isCompletable layer = false ∨
        isCompletable layer = true ∧ ∃ content, completeContent source = .ok content ∧
          ∀ key ∉ ["td", "layers"], layer.get? key = content.get? key) := by
  obtain ⟨own, hown, rfl⟩ := completed
  obtain ⟨next?, told, htold, heq⟩ := exists_of_mem_tellMattes hmem
  obtain ⟨told, rfl, hsame⟩ := toldBy_object heq.symm
  obtain ⟨source, hsource, hcompleted⟩ := exists_of_mem_right hown htold
  have hcompletable : isCompletable layer = isCompletable told := by
    rw [isCompletable, isCompletable, Members.has, Members.has, hsame _ (by decide)]
  cases hcompleted with
  | kept incomplete =>
      exact ⟨told, hsource, .inl ⟨hsame, hcompletable.trans (incomplete told rfl)⟩⟩
  | content completable hcontent plain =>
      refine ⟨_, hsource, .inr ⟨?_, told, hcontent, fun key hkey => ?_⟩⟩
      · rw [hcompletable, isCompletable, Members.has, get?_completeContent hcontent (by decide)]
        exact completable
      · exact hsame key fun h => hkey (h ▸ by decide)
  | @expanded given content _ completable hcontent precomp expansion =>
      refine ⟨given, hsource, .inr ⟨?_, content, hcontent, fun key hkey => ?_⟩⟩
      · rw [hcompletable, isCompletable, Members.has_set_of_ne _ _ (by decide), Members.has,
          get?_completeContent hcontent (by decide)]
        exact completable
      · have hne : "layers" ≠ key := fun h => hkey (h ▸ by decide)
        rw [hsame key fun h => hkey (h ▸ by decide), Members.get?_set_of_ne _ _ hne]

/-- The layers of an owner in a completed document are those that it had, or were completed
from them. -/
theorem exists_layersOwned {document result : Members R}
    (returned : (completeDocument document).outcome = .ok result) {owner? : Option Nat}
    {own : List (Value R)} (h : layersOwned? result owner? = some own) :
    ∃ layers, layersOwned? document owner? = some layers ∧
      (own = layers ∨ ∃ expands, Completed expands layers own) := by
  obtain ⟨layers, finished, htop, hlayers, hassets⟩ := members_completeDocument returned
  obtain ⟨horder, hcompleted⟩ := completed_top htop
  cases owner? with
  | none =>
      rw [layersOwned?, hlayers] at h
      obtain rfl : layers = own := Option.some.inj h
      exact ⟨_, rfl, .inr ⟨_, hcompleted⟩⟩
  | some position =>
      rw [layersOwned?, hassets, assetLayers?_finishAssets horder] at h
      obtain ⟨source, hsource, rfl⟩ := Option.map_eq_some_iff.mp h
      refine ⟨source, hsource, ?_⟩
      cases hlookup : finished.lookup position with
      | none => exact .inl rfl
      | some own => exact .inr ⟨_, horder.completed_from hlookup hsource⟩

/-! ## Migrating encodings again -/

/-- The layers of a document whose closed flags were handed on are closed, also after they
were completed. -/
theorem closed_of_completeDocument {document encoded result : Members R}
    (closed : changeLayers closePaths document = .ok encoded)
    (returned : (completeDocument encoded).outcome = .ok result) {owner? : Option Nat}
    {layers : List (Value R)} (hlayers : layersOwned? result owner? = some layers)
    {layer : Members R} (hmem : .object layer ∈ layers) : Closed layer := by
  obtain ⟨sources, hsources, hcompleted⟩ := exists_layersOwned returned hlayers
  have hsource : ∀ {source : Members R}, .object source ∈ sources → Closed source := by
    intro source hmem
    obtain ⟨given, -, hgiven⟩ := exists_of_rel_right (rel_layersOwned? closed owner?) hsources
    obtain ⟨value, -, hvalue⟩ := exists_of_mem_right hgiven hmem
    obtain ⟨members, rfl, hclosed⟩ := adjustMembers_eq_object hvalue
    exact closed_closePaths hclosed
  rcases hcompleted with rfl | ⟨expands, hcompleted⟩
  · exact hsource hmem
  · obtain ⟨source, hmem, ⟨hsame, -⟩ | ⟨-, content, hcontent, hsame⟩⟩ :=
      exists_completedContent hcompleted hmem
    · exact (hsource hmem).congr fun key hkey => hsame key (by revert key; decide)
    · exact ((hsource hmem).completeContent hcontent).congr fun key hkey =>
        hsame key (by revert key; decide)

omit [Scalar R] in
theorem exists_taken {due : Bool} {change : Change (Members R)} (before : Members R)
    (h : due = true → Passes False change before) : ∃ after, Taken due change before after := by
  unfold Taken
  split
  · rename_i hdue
    obtain ⟨after, hafter, -⟩ := h hdue
    exact ⟨after, hafter⟩
  · exact ⟨before, rfl⟩

omit [Scalar R] in
theorem passes_wrapTextDocument (layer : Members R) : Passes False wrapTextDocument layer :=
  passes_adjust fun _ _ => passes_adjustMember fun _ _ _ _ => .of_ok rfl

omit [Scalar R] in
theorem passes_wrapTextPath (layer : Members R) : Passes False wrapTextPath layer := by
  have hoption : ∀ (key : String) (path : Members R),
      Passes False (Members.adjust key wrapOption) path := fun key path =>
    passes_adjust fun value _ => by cases value <;> exact .of_ok rfl
  refine passes_adjust fun _ _ => passes_adjustMember fun _ _ _ _ => ?_
  refine passes_adjustMembers fun path _ => (hoption "a" path).bind fun first _ => ?_
  exact (hoption "p" first).bind fun second _ => hoption "r" second

/-- The encodings of a migrated document can be migrated again.  If its colors are left alone,
nothing but the texts of its layers is new in them. -/
theorem exists_migrateEncodings_again {version : Version} {document encoded result : Members R}
    (returned : (migrateEncodings version document).outcome = .ok encoded)
    (completed : (completeDocument encoded).outcome = .ok result)
    (colors : usesByteColors version result = true → rescaleColors result = .ok result) :
    ∃ again, (migrateEncodings version result).outcome = .ok again ∧
      RewordedLists result again := by
  obtain ⟨_, worded, lettered, laid, steps⟩ := migrateEncodings_eq_ok.mp returned
  have htexts : ∀ {change : Change (Members R)}, (∀ layer, Passes False change layer) →
      ∀ document, Passes False (changeLayersOf .text change) document :=
    fun hchange document => passes_changeLayers fun _ _ _ layer _ => .ite fun _ => hchange layer
  have hreworded : ∀ {due : Bool} {change : Change (Value R)} {before after : Members R},
      Taken due (changeLayersOf .text (Members.adjust "t" change)) before after →
      RewordedLists before after := by
    intro due change before after taken
    obtain ⟨-, changed⟩ | rfl := taken.cases
    · exact .of_adjust changed
    · exact .of_get? fun _ _ => rfl
  obtain ⟨worded', hworded⟩ := exists_taken result
    fun (_ : version.before textDocumentVersion = true) => htexts passes_wrapTextDocument _
  -- the glyphs are the completed ones
  have hchars : worded'.get? "chars" = lettered.get? "chars" := by
    rw [hworded.get? fun _ => get?_changeLayers (by decide),
      get?_completeDocument (by decide) completed,
      steps.flags.get? fun _ => get?_changeLayers (by decide),
      steps.paths.get? fun _ => get?_changeLayers (by decide)]
  obtain ⟨lettered', hlettered⟩ := exists_taken worded'
    fun (hdue : (!version.before glyphsVersion) = true) => by
      have hglyphs := steps.glyphs
      rw [Taken, if_pos hdue] at hglyphs
      exact passes_completeGlyphs hglyphs hchars
  obtain ⟨laid', hlaid⟩ := exists_taken lettered'
    fun (_ : version.before textPathVersion = true) => htexts passes_wrapTextPath _
  have hlists : RewordedLists result laid' := by
    refine (hreworded hworded).trans (RewordedLists.trans (.of_get? fun key hkey => ?_)
      (hreworded hlaid))
    refine hlettered.get? fun _ changed => Members.get?_adjust_of_ne changed ?_
    rintro rfl
    exact absurd hkey (by decide)
  refine ⟨laid', migrateEncodings_eq_ok.mpr ⟨result, worded', lettered', laid', ?_⟩, hlists⟩
  refine ⟨?_, hworded, hlettered, hlaid, ?_⟩
  · unfold Taken
    split
    · rename_i hdue
      exact colors hdue
    · rfl
  · unfold Taken
    split
    · rename_i hdue
      have hflags := steps.flags
      rw [Taken, if_pos hdue] at hflags
      refine Passes.eq (passes_changeLayers fun owner? layers hlayers layer hmem => .of_eq ?_)
      obtain ⟨own, hown, hrelated⟩ := exists_of_rel_right (hlists owner?) hlayers
      obtain ⟨value, hvalue, hreword⟩ := exists_of_mem_right hrelated hmem
      obtain ⟨members, rfl, hsame⟩ := hreword.exists_object
      have hclosed := closed_of_completeDocument hflags completed hown hvalue
      exact (hclosed.congr fun key hkey => hsame key (by revert key; decide)).closePaths_eq
    · rfl

end MotionScene
