import MotionScene.Migration.Expansion
import MotionScene.Proofs.Members

/-!
# What the completion of a layer list does

The loop that completes a layer list carries the layers that are done and the assets
that are finished.  Neither shows in what it returns: every layer is completed on its
own, with some layers under each precomposition, and is then told the kind of the matte
that the next layer asks for.  `Completed` says this, for any rule `expands` about the
layers that a reference may be expanded to, and `completeLayers_outcome` says that the
loop does it whenever its expander keeps the rule.

Completion leaves the members alone that say what a layer is and what it refers to
(`get?_completeContent`), so the precompositions of a completed list are those of the
list it comes from, and `Completed.expands` reads off a completed layer what its
reference was expanded to.
-/

namespace MotionScene

variable {R : Type} [Scalar R]

/-- The members that completing the content of a layer may change. -/
def contentKeys : List String := ["masksProperties", "shapes", "singleShape"]

theorem get?_completeMasks {layer result : Members R} {key : String}
    (completed : completeMasks layer = .ok result) (h : key ∉ contentKeys) :
    result.get? key = layer.get? key := by
  have hkey : "masksProperties" ≠ key := by
    rintro rfl
    exact h (by decide)
  unfold completeMasks changeMasks at completed
  split at completed
  · exact Members.get?_adjust_of_ne completed hkey
  · cases completed
    rfl

theorem get?_completeContent {layer result : Members R} {key : String}
    (completed : completeContent layer = .ok result) (h : key ∉ contentKeys) :
    result.get? key = layer.get? key := by
  have hshapes : "shapes" ≠ key := by
    rintro rfl
    exact h (by decide)
  have hsingle : "singleShape" ≠ key := by
    rintro rfl
    exact h (by decide)
  obtain ⟨masked, hmasked, hrest⟩ := bind_eq_ok.mp completed
  rw [← get?_completeMasks hmasked h]
  split at hrest
  · exact Members.get?_adjust_of_ne hrest hshapes
  · rw [← pure_eq_ok.mp hrest, completeText]
    split
    · exact Members.get?_set_of_ne _ _ hsingle
    · rfl
  · rw [← pure_eq_ok.mp hrest]

theorem isPrecomp_completeContent {layer result : Members R}
    (completed : completeContent layer = .ok result) : isPrecomp result = isPrecomp layer := by
  rw [isPrecomp, isPrecomp, isLayerKind, isLayerKind, Members.get, Members.get,
    get?_completeContent completed (by decide)]

theorem reference_completeContent {layer result : Members R}
    (completed : completeContent layer = .ok result) :
    result.get "refId" = layer.get "refId" := by
  exact Members.get_congr (get?_completeContent completed (by decide))

/-! ## Mattes -/

/-- A completed layer, told the kind of the matte that the next layer asks for. -/
def toldBy (next? : Option (Value R)) (layer : Value R) : Value R :=
  match next?, layer with
  | some (.object next), .object members =>
    if isCompletable next && (Members.get next "tt").holds then
      .object (Members.set members "td" (Members.get next "tt"))
    else layer
  | _, layer => layer

/-- Completed layers, each told what the layer after it in the given list asks for. -/
def tellMattes : (layers completed : List (Value R)) → List (Value R)
  | _ :: rest, first :: later => toldBy rest.head? first :: tellMattes rest later
  | _, completed => completed

/-- A list of done layers whose latest is told what the next layer asks for. -/
def tellLatest (next? : Option (Value R)) : List (Value R) → List (Value R)
  | [] => []
  | latest :: earlier => toldBy next? latest :: earlier

theorem markMatte_eq_tellLatest {layer : Members R} (before : List (Value R))
    (h : isCompletable layer = true) :
    markMatte layer before = tellLatest (some (.object layer)) before := by
  cases before with
  | nil => rfl
  | cons latest earlier =>
      cases latest <;> simp only [markMatte, tellLatest, toldBy, h, Bool.true_and]
      split <;> rfl

theorem tellLatest_of_not_completable {layer : Members R} (before : List (Value R))
    (h : isCompletable layer = false) :
    tellLatest (some (.object layer)) before = before := by
  cases before with
  | nil => rfl
  | cons latest earlier => cases latest <;> simp [tellLatest, toldBy, h]

@[simp] theorem tellLatest_none (before : List (Value R)) : tellLatest none before = before := by
  cases before <;> rfl

/-- Being told about a matte changes no member but the one that says so. -/
theorem toldBy_object {next? : Option (Value R)} {layer : Value R} {members : Members R}
    (h : toldBy next? layer = .object members) :
    ∃ own : Members R, layer = .object own ∧
      ∀ key, "td" ≠ key → members.get? key = own.get? key := by
  unfold toldBy at h
  split at h
  · split at h
    · cases h
      exact ⟨_, rfl, fun key hkey => Members.get?_set_of_ne _ _ hkey⟩
    · exact ⟨members, h, fun _ _ => rfl⟩
  · exact ⟨members, h, fun _ _ => rfl⟩

/-- Every layer of a told list comes from a completed one. -/
theorem exists_of_mem_tellMattes {layers completed : List (Value R)} {layer : Value R}
    (h : layer ∈ tellMattes layers completed) :
    ∃ next? : Option (Value R), ∃ own ∈ completed, layer = toldBy next? own := by
  induction layers generalizing completed with
  | nil => exact ⟨none, layer, by simpa [tellMattes] using h, by cases layer <;> rfl⟩
  | cons first rest ih =>
      cases completed with
      | nil => simp [tellMattes] at h
      | cons own later =>
          rcases List.mem_cons.mp h with rfl | h
          · exact ⟨rest.head?, own, List.mem_cons_self, rfl⟩
          · obtain ⟨next?, own, hown, heq⟩ := ih h
            exact ⟨next?, own, List.mem_cons_of_mem _ hown, heq⟩

/-! ## Completed lists -/

/-- What completing does to one layer of a list, before the layer after it is looked at.
The layers that a reference is expanded to follow the rule `expands`. -/
inductive CompletedLayer (expands : Value R → List (Value R) → Prop) :
    Value R → Value R → Prop
  | kept {layer : Value R}
      (incomplete : ∀ members, layer = .object members → isCompletable members = false) :
      CompletedLayer expands layer layer
  | content {layer result : Members R} (completable : isCompletable layer = true)
      (completed : completeContent layer = .ok result) (plain : isPrecomp result = false) :
      CompletedLayer expands (.object layer) (.object result)
  | expanded {layer result : Members R} {layers : List (Value R)}
      (completable : isCompletable layer = true)
      (completed : completeContent layer = .ok result) (precomp : isPrecomp result = true)
      (expansion : expands (result.get "refId") layers) :
      CompletedLayer expands (.object layer) (.object (result.set "layers" (.list layers)))

/-- A layer list and what it is completed to: every layer is completed on its own and
then told about the matte of the next. -/
def Completed (expands : Value R → List (Value R) → Prop) (layers result : List (Value R)) :
    Prop :=
  ∃ own, List.Forall₂ (CompletedLayer expands) layers own ∧ result = tellMattes layers own

/-- A layer list refers to what the completable precompositions in it name. -/
def RefersTo (layers : List (Value R)) (reference : Value R) : Prop :=
  ∃ members : Members R, .object members ∈ layers ∧ isCompletable members = true ∧
    isPrecomp members = true ∧ members.get "refId" = reference

omit [Scalar R] in
theorem RefersTo.mono {layers more : List (Value R)} {reference : Value R}
    (refers : RefersTo layers reference) (h : layers ⊆ more) : RefersTo more reference := by
  obtain ⟨members, hmem, hmembers⟩ := refers
  exact ⟨members, h hmem, hmembers⟩

theorem CompletedLayer.imp {first second : Value R → List (Value R) → Prop}
    {layer result : Value R} (completed : CompletedLayer first layer result)
    (h : ∀ reference layers, RefersTo [layer] reference →
      first reference layers → second reference layers) :
    CompletedLayer second layer result := by
  cases completed with
  | kept incomplete => exact .kept incomplete
  | content completable completed plain => exact .content completable completed plain
  | expanded completable completed precomp expansion =>
      refine .expanded completable completed precomp (h _ _ ?_ expansion)
      exact ⟨_, List.mem_singleton_self _, completable,
        isPrecomp_completeContent completed ▸ precomp, (reference_completeContent completed).symm⟩

theorem Completed.imp {first second : Value R → List (Value R) → Prop}
    {layers result : List (Value R)} (completed : Completed first layers result)
    (h : ∀ reference expansion, RefersTo layers reference →
      first reference expansion → second reference expansion) :
    Completed second layers result := by
  obtain ⟨own, hown, rfl⟩ := completed
  refine ⟨own, forall₂_imp_of_mem hown fun layer hlayer _ hcompleted => ?_, rfl⟩
  exact hcompleted.imp fun reference expansion refers =>
    h reference expansion (refers.mono (by simpa using hlayer))

/-- The completable precompositions of a completed list have an expansion of their
reference for their layers. -/
theorem Completed.exists_expansion {expands : Value R → List (Value R) → Prop}
    {layers result : List (Value R)} (completed : Completed expands layers result)
    {members : Members R} (hmem : .object members ∈ result)
    (completable : isCompletable members = true) (precomp : isPrecomp members = true) :
    ∃ expansion, RefersTo layers (members.get "refId") ∧
      expands (members.get "refId") expansion ∧ members.get "layers" = .list expansion := by
  obtain ⟨own, hown, rfl⟩ := completed
  obtain ⟨next?, layer, hlayer, htold⟩ := exists_of_mem_tellMattes hmem
  obtain ⟨told, rfl, hsame⟩ := toldBy_object htold.symm
  obtain ⟨source, hsource, hcompleted⟩ := exists_of_mem_right hown hlayer
  -- the matte flag is none of the members that the statement reads
  have hget : ∀ key, "td" ≠ key → members.get key = told.get key := by
    intro key hkey
    exact Members.get_congr (hsame key hkey)
  have hcompletable : isCompletable told = true := by
    rwa [isCompletable, Members.has, ← hsame "ks" (by decide)]
  have hprecomp : isPrecomp told = true := by
    rwa [isPrecomp, isLayerKind, ← hget "ty" (by decide)]
  rw [hget "refId" (by decide), hget "layers" (by decide)]
  cases hcompleted with
  | kept incomplete => rw [incomplete told rfl] at hcompletable; cases hcompletable
  | content _ _ plain => rw [hprecomp] at plain; cases plain
  | @expanded layer result expansion completable completed precomp hexpands =>
      rw [Members.get_set_of_ne _ _ (by decide), Members.get_set_self]
      refine ⟨expansion, ⟨layer, hsource, completable, ?_, ?_⟩, hexpands, rfl⟩
      · exact isPrecomp_completeContent completed ▸ precomp
      · exact (reference_completeContent completed).symm

/-! ## The loop -/

/-- An expander keeps a rule about expansions: whenever it returns it has finished more
assets in a sound way, and what it returns follows the rule, also when still more assets
are finished later. -/
structure Keeps (expand : Expander R) (sound : Finished R → Prop)
    (expands : Finished R → Value R → List (Value R) → Prop) (refers : Value R → Prop) :
    Prop where
  step : ∀ {reference layers finished finished'}, refers reference → sound finished →
    (expand reference finished).outcome = .ok (layers, finished') →
    sound finished' ∧ finished <:+ finished' ∧ expands finished' reference layers
  stable : ∀ {reference layers finished finished'}, sound finished' → finished <:+ finished' →
    expands finished reference layers → expands finished' reference layers

section Loop

variable {expand : Expander R} {sound : Finished R → Prop}
  {expands : Finished R → Value R → List (Value R) → Prop} {refers : Value R → Prop}

/-- Completing one layer. -/
theorem completeLayer_outcome (keeps : Keeps expand sound expands refers)
    {layer result : Members R} {finished finished' : Finished R}
    (completable : isCompletable layer = true)
    (hrefers : isPrecomp layer = true → refers (layer.get "refId")) (hsound : sound finished)
    (returned : (completeLayer expand layer finished).outcome = .ok (result, finished')) :
    sound finished' ∧ finished <:+ finished' ∧
      CompletedLayer (expands finished') (.object layer) (.object result) := by
  obtain ⟨own, hown, hrest⟩ := Traced.outcome_bind_eq_ok.mp returned
  rw [Traced.outcome_lift] at hown
  by_cases hprecomp : isPrecomp own = true
  · rw [if_pos hprecomp] at hrest
    obtain ⟨⟨layers, later⟩, hexpand, hpure⟩ := Traced.outcome_bind_eq_ok.mp hrest
    cases hpure
    have hreference : refers (own.get "refId") := by
      rw [reference_completeContent hown]
      exact hrefers (isPrecomp_completeContent hown ▸ hprecomp)
    -- completing the content has not touched the reference
    obtain ⟨hsound', hsuffix, hexpands⟩ := keeps.step hreference hsound hexpand
    exact ⟨hsound', hsuffix, .expanded completable hown hprecomp hexpands⟩
  · rw [if_neg hprecomp] at hrest
    cases hrest
    exact ⟨hsound, List.suffix_refl _, .content completable hown (by simpa using hprecomp)⟩

/-- **The loop completes every layer on its own.**  Whatever was done before the list is
only told about the matte of its first layer. -/
theorem completeLayers_outcome (keeps : Keeps expand sound expands refers)
    {before layers result : List (Value R)} {finished finished' : Finished R}
    (hrefers : ∀ reference, RefersTo layers reference → refers reference)
    (hsound : sound finished)
    (returned : (completeLayers expand before layers finished).outcome =
      .ok (result, finished')) :
    sound finished' ∧ finished <:+ finished' ∧
      ∃ own, List.Forall₂ (CompletedLayer (expands finished')) layers own ∧
        result = (tellLatest layers.head? before).reverse ++ tellMattes layers own := by
  induction layers generalizing before finished with
  | nil =>
      cases returned
      exact ⟨hsound, List.suffix_refl _, [], .nil, by simp [tellMattes]⟩
  | cons layer rest ih =>
      have hrest : ∀ reference, RefersTo rest reference → refers reference :=
        fun reference h => hrefers reference (h.mono (by simp))
      -- a layer that is not completed is carried over as it is
      have carried : tellLatest (some layer) before = before →
          CompletedLayer (expands finished') layer layer →
          (completeLayers expand (layer :: before) rest finished).outcome =
            .ok (result, finished') →
          sound finished' ∧ finished <:+ finished' ∧
            ∃ own, List.Forall₂ (CompletedLayer (expands finished')) (layer :: rest) own ∧
              result = (tellLatest (layer :: rest).head? before).reverse ++
                tellMattes (layer :: rest) own := by
        intro hbefore hlayer hreturned
        obtain ⟨hsound', hsuffix, own, hown, rfl⟩ := ih hrest hsound hreturned
        refine ⟨hsound', hsuffix, layer :: own, .cons hlayer hown, ?_⟩
        rw [List.head?_cons, hbefore]
        simp [tellLatest, tellMattes]
      cases layer with
      | object members =>
          rw [completeLayers] at returned
          by_cases completable : isCompletable members = true
          · rw [if_pos completable] at returned
            obtain ⟨⟨done, later⟩, hdone, hreturned⟩ := Traced.outcome_bind_eq_ok.mp returned
            obtain ⟨hsound', hsuffix', hlayer⟩ := completeLayer_outcome keeps completable
              (fun hprecomp => hrefers _ ⟨members, List.mem_cons_self, completable, hprecomp, rfl⟩)
              hsound hdone
            obtain ⟨hsound'', hsuffix'', own, hown, rfl⟩ := ih hrest hsound' hreturned
            refine ⟨hsound'', hsuffix'.trans hsuffix'', .object done :: own, .cons ?_ hown, ?_⟩
            · -- the layers after this one may have finished more assets
              exact hlayer.imp fun _ _ _ => keeps.stable hsound'' hsuffix''
            · rw [List.head?_cons, markMatte_eq_tellLatest _ completable]
              simp [tellLatest, tellMattes]
          · rw [if_neg completable] at returned
            have hnot : isCompletable members = false := by simpa using completable
            exact carried (tellLatest_of_not_completable _ hnot)
              (.kept fun _ h => by cases h; exact hnot) returned
      | _ =>
          exact carried (by cases before <;> rfl) (.kept fun _ h => by cases h) returned

/-- A list completed from its first layer on. -/
theorem completed_of_completeLayers (keeps : Keeps expand sound expands refers)
    {layers result : List (Value R)} {finished finished' : Finished R}
    (hrefers : ∀ reference, RefersTo layers reference → refers reference)
    (hsound : sound finished)
    (returned : (completeLayers expand [] layers finished).outcome = .ok (result, finished')) :
    sound finished' ∧ finished <:+ finished' ∧ Completed (expands finished') layers result := by
  obtain ⟨hsound', hsuffix, own, hown, rfl⟩ :=
    completeLayers_outcome keeps hrefers hsound returned
  exact ⟨hsound', hsuffix, own, hown, by simp [tellLatest]⟩

end Loop

end MotionScene
