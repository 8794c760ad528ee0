import MotionScene.Proofs.Layer.Shown
import MotionScene.Proofs.Migration.Finishing

/-!
# Completing what was completed

A second completion of a document goes in lock step with the first: it follows the same
references in the same order, cuts the same ones, and finishes the same assets
(`follows_expandReference`).  So what it makes of a layer list shows what the first one made
of it (`exists_completeLayers`), if that holds of the content of every single layer
(`Ready`).
-/

namespace MotionScene

variable {R : Type} [Scalar R]

/-! ## One layer after the other -/

/-- Completes one value of a layer list. -/
def completeValue (expand : Expander R) (layer : Value R) (finished : Finished R) :
    Report R (Value R × Finished R) :=
  match layer with
  | .object members =>
    if isCompletable members then do
      let (completed, finished) ← completeLayer expand members finished
      return (.object completed, finished)
    else pure (layer, finished)
  | layer => pure (layer, finished)

/-- Completes the layers of a list in order, and tells none about its matte. -/
def completeEach (expand : Expander R) :
    List (Value R) → Finished R → Report R (List (Value R) × Finished R)
  | [], finished => pure ([], finished)
  | layer :: rest, finished => do
    let (completed, finished) ← completeValue expand layer finished
    let (later, finished) ← completeEach expand rest finished
    return (completed :: later, finished)

theorem completeLayers_cons (expand : Expander R) (before rest : List (Value R)) (layer : Value R)
    (finished : Finished R) :
    (completeLayers expand before (layer :: rest) finished).outcome =
      (completeValue expand layer finished >>= fun result =>
        completeLayers expand (result.1 :: tellLatest (some layer) before) rest result.2).outcome := by
  cases layer with
  | object members =>
      rw [completeLayers, completeValue]
      by_cases completable : isCompletable members = true
      · rw [if_pos completable, if_pos completable, markMatte_eq_tellLatest _ completable]
        simp only [bind_assoc, pure_bind]
      · rw [if_neg completable, if_neg completable,
          tellLatest_of_not_completable _ (by simpa using completable)]
        rfl
  | _ => cases before <;> rfl

/-- The loop completes one layer after the other, and tells each about its matte. -/
theorem completeLayers_eq (expand : Expander R) (before layers : List (Value R))
    (finished : Finished R) :
    (completeLayers expand before layers finished).outcome =
      (completeEach expand layers finished).outcome.map fun result =>
        ((tellLatest layers.head? before).reverse ++ tellMattes layers result.1, result.2) := by
  induction layers generalizing before finished with
  | nil =>
      rw [completeLayers, completeEach, List.head?_nil, tellLatest_none]
      simp [Except.map, tellMattes]
  | cons layer rest ih =>
      rw [completeLayers_cons, completeEach]
      cases hfirst : (completeValue expand layer finished).outcome with
      | error fault =>
          rw [Traced.outcome_bind_of_error hfirst, Traced.outcome_bind_of_error hfirst]
          rfl
      | ok first =>
          rw [Traced.outcome_bind_of_ok hfirst, Traced.outcome_bind_of_ok hfirst, ih]
          dsimp only
          cases hlater : (completeEach expand rest first.2).outcome with
          | error fault =>
              rw [Traced.outcome_bind_of_error hlater]
              rfl
          | ok later =>
              rw [Traced.outcome_bind_of_ok hlater]
              simp [Except.map, tellLatest, tellMattes]

/-! ## Nothing that is finished is lost -/

/-- An expander finishes further assets and keeps the finished ones. -/
def Grows (expand : Expander R) : Prop :=
  ∀ reference layers finished finished',
    (expand reference finished).outcome = .ok (layers, finished') → finished <:+ finished'

theorem Grows.completeValue {expand : Expander R} (grows : Grows expand) {layer own : Value R}
    {finished finished' : Finished R}
    (returned : (completeValue expand layer finished).outcome = .ok (own, finished')) :
    finished <:+ finished' := by
  unfold MotionScene.completeValue at returned
  split at returned
  · split at returned
    · obtain ⟨⟨done, later⟩, hdone, hpure⟩ := Traced.outcome_bind_eq_ok.mp returned
      cases hpure
      obtain ⟨content, -, hrest⟩ := Traced.outcome_bind_eq_ok.mp hdone
      split at hrest
      · obtain ⟨_, hexpand, hpure⟩ := Traced.outcome_bind_eq_ok.mp hrest
        cases hpure
        exact grows _ _ _ _ hexpand
      · cases hrest
        exact List.suffix_refl _
    · cases returned
      exact List.suffix_refl _
  · cases returned
    exact List.suffix_refl _

theorem Grows.completeEach {expand : Expander R} (grows : Grows expand)
    {layers own : List (Value R)} {finished finished' : Finished R}
    (returned : (completeEach expand layers finished).outcome = .ok (own, finished')) :
    finished <:+ finished' := by
  induction layers generalizing own finished with
  | nil =>
      cases returned
      exact List.suffix_refl _
  | cons layer rest ih =>
      obtain ⟨first, hfirst, hrest⟩ := Traced.outcome_bind_eq_ok.mp returned
      obtain ⟨later, hlater, hpure⟩ := Traced.outcome_bind_eq_ok.mp hrest
      cases hpure
      exact (grows.completeValue hfirst).trans (ih hlater)

/-- Expanding references finishes further assets; the induction is on the levels. -/
theorem grows_expandReference (assets : List (Value R)) (levels : Nat) (active : List Nat) :
    Grows (expandReference assets levels active) := by
  induction levels using Nat.strongRecOn generalizing active with
  | ind levels ih =>
      intro reference layers finished finished' returned
      rw [expandReference] at returned
      split at returned
      · cases returned
        exact List.suffix_refl _
      · rename_i position source hasset
        split at returned
        · cases returned
          exact List.suffix_refl _
        · split at returned
          · cases returned
            exact List.suffix_refl _
          · cases returned
            exact List.suffix_refl _
          · rename_i fewer hlookup
            obtain ⟨⟨own, later⟩, hown, hpure⟩ := Traced.outcome_bind_eq_ok.mp returned
            cases hpure
            rw [completeLayers_eq] at hown
            obtain ⟨result, hresult, hpair⟩ := map_eq_ok.mp hown
            obtain rfl : result.2 = later := (Prod.mk.inj hpair).2
            have hgrows := ih fewer (Nat.lt_succ_self _) (position :: active)
            exact (hgrows.completeEach hresult).trans (List.suffix_cons _ _)

/-! ## Layers that are ready -/

/-- A completed layer, and one whose completion shows what the first one shows. -/
structure Ready (layer other : Members R) : Prop where
  members : ∀ key ∉ ["t", "td"], other.get? key = layer.get? key
  content : isCompletable layer = true → ∃ result, completeContent other = .ok result ∧
    (isLayerKind .shape layer = true → result.get? "shapes" = layer.get? "shapes")

namespace Ready

variable {layer other : Members R}

theorem get (ready : Ready layer other) {key : String} (hkey : key ∉ ["t", "td"]) :
    other.get key = layer.get key := by
  exact Members.get_congr (ready.members key hkey)

theorem isCompletable (ready : Ready layer other) :
    isCompletable other = MotionScene.isCompletable layer := by
  rw [MotionScene.isCompletable, MotionScene.isCompletable, Members.has, Members.has,
    ready.members _ (by decide)]

theorem isPrecomp (ready : Ready layer other) : isPrecomp other = MotionScene.isPrecomp layer := by
  rw [MotionScene.isPrecomp, MotionScene.isPrecomp, isLayerKind, isLayerKind, ready.get (by decide)]

/-- A layer that is kept shows what it is. -/
theorem builtAlike (ready : Ready layer other) : BuiltAlike layer other := by
  refine .of_shown (fun key hkey => ready.members key fun h => ?_)
    (fun _ => ready.members _ (by decide)) fun _ clock => by rw [ready.get (by decide)]
  rcases List.mem_pair.mp h with rfl | rfl <;> exact absurd hkey (by decide)

/-- Being ready does not depend on the matte. -/
theorem of_told {told : Members R}
    (same : ∀ key, "td" ≠ key → told.get? key = layer.get? key) (ready : Ready told other) :
    Ready layer other where
  members key hkey := by
    rw [ready.members key hkey, same key fun h => hkey (h ▸ by decide)]
  content completable := by
    have hget : ∀ key, "td" ≠ key → told.get key = layer.get key := fun key hkey => by
      exact Members.get_congr (same key hkey)
    have htold : MotionScene.isCompletable told = true := by
      rw [MotionScene.isCompletable, Members.has, same _ (by decide)]
      exact completable
    obtain ⟨result, hresult, hshapes⟩ := ready.content htold
    refine ⟨result, hresult, fun kind => ?_⟩
    rw [hshapes (by rwa [isLayerKind, hget _ (by decide)]), same _ (by decide)]

end Ready

theorem BuiltAlike.of_told {layer told : Members R}
    (same : ∀ key, "td" ≠ key → told.get? key = layer.get? key) : BuiltAlike layer told := by
  refine .of_shown (fun key hkey => same key fun h => ?_) (fun _ => same _ (by decide))
    fun _ clock => ?_
  · subst h
    exact absurd hkey (by decide)
  · rw [Members.get, Members.get, same _ (by decide)]

/-! ## Following a completion -/

/-- Two records of finished assets: the same ones in the same order, with layers that show the
same. -/
def Echoes (finished other : Finished R) : Prop :=
  List.Forall₂ (fun entry echo => echo.1 = entry.1 ∧ ShownAlike (.list entry.2) (.list echo.2))
    finished other

theorem Echoes.lookup {finished other : Finished R} (echoes : Echoes finished other)
    (position : Nat) :
    Option.Rel (fun layers own => ShownAlike (.list layers) (.list own))
      (finished.lookup position) (other.lookup position) := by
  induction echoes with
  | nil => exact .none
  | @cons entry echo _ _ hfirst _ ih =>
      obtain ⟨hposition, hshown⟩ := hfirst
      rw [List.lookup_cons, List.lookup_cons, hposition]
      cases position == entry.1 with
      | true => exact .some hshown
      | false => exact ih

/-- An expander returns what shows the same as what another one returns, as long as that
finishes no assets but some. -/
def Follows (all : Finished R) (expand again : Expander R) : Prop :=
  ∀ reference layers finished finished' known,
    (expand reference finished).outcome = .ok (layers, finished') → finished' <:+ all →
    Echoes finished known → ∃ own known', (again reference known).outcome = .ok (own, known') ∧
      Echoes finished' known' ∧ ShownAlike (.list layers) (.list own)

section Follows

variable {all : Finished R} {expand again : Expander R} (follows : Follows all expand again)

include follows

omit follows in
theorem get?_completeLayer {layer done own : Members R} {finished finished' : Finished R}
    (content : completeContent layer = .ok own)
    (returned : (completeLayer expand layer finished).outcome = .ok (done, finished'))
    {key : String} (hkey : "layers" ≠ key) : done.get? key = own.get? key := by
  obtain ⟨_, hown, hrest⟩ := Traced.outcome_bind_eq_ok.mp returned
  rw [Traced.outcome_lift, content] at hown
  obtain rfl := Except.ok.inj hown
  split at hrest
  · obtain ⟨_, -, hpure⟩ := Traced.outcome_bind_eq_ok.mp hrest
    cases hpure
    exact Members.get?_set_of_ne _ _ hkey
  · cases hrest
    rfl

theorem exists_completeLayer {layer done other : Members R} {finished finished' known : Finished R}
    (returned : (completeLayer expand layer finished).outcome = .ok (done, finished'))
    (within : finished' <:+ all) (completable : isCompletable layer = true)
    (ready : Ready done other) (echoes : Echoes finished known) :
    isCompletable other = true ∧
      ∃ result known', (completeLayer again other known).outcome = .ok (result, known') ∧
      Echoes finished' known' ∧ BuiltAlike done result := by
  obtain ⟨own, hown, hrest⟩ := Traced.outcome_bind_eq_ok.mp returned
  rw [Traced.outcome_lift] at hown
  have hcontent : ∀ {key}, "layers" ≠ key → done.get? key = own.get? key :=
    get?_completeLayer hown returned
  have hcompletable : isCompletable done = true := by
    rw [isCompletable, Members.has, hcontent (by decide), get?_completeContent hown (by decide)]
    exact completable
  refine ⟨ready.isCompletable.trans hcompletable, ?_⟩
  -- what the second completion makes of the content
  obtain ⟨result, hresult, hshapes⟩ := ready.content hcompletable
  have hsame : ∀ key ∉ contentKeys ++ ["t", "td"], result.get? key = done.get? key := by
    intro key hkey
    rw [List.mem_append, not_or] at hkey
    rw [get?_completeContent hresult hkey.1, ready.members key hkey.2]
  have hshown : ∀ key ∈ shownKeys, result.get? key = done.get? key := fun key hkey =>
    hsame key fun h => by
      have happart : ∀ other ∈ contentKeys ++ ["t", "td"], other ∉ shownKeys := by decide
      exact happart key h hkey
  have hget : ∀ {key}, key ∉ contentKeys ++ ["t", "td"] → result.get key = done.get key := by
    intro key hkey
    exact Members.get_congr (hsame key hkey)
  have hprecomp : isPrecomp result = isPrecomp own := by
    rw [isPrecomp, isPrecomp, isLayerKind, isLayerKind, hget (by decide), Members.get, Members.get,
      hcontent (by decide)]
  by_cases precomp : isPrecomp own = true
  · rw [if_pos precomp] at hrest
    obtain ⟨⟨layers, later⟩, hexpand, hpure⟩ := Traced.outcome_bind_eq_ok.mp hrest
    cases hpure
    have hreference : result.get "refId" = own.get "refId" := by
      rw [hget (by decide), Members.get_set_of_ne _ _ (by decide)]
    obtain ⟨expansion, known', hagain, hechoes, hlayers⟩ :=
      follows _ _ _ _ _ hexpand within echoes
    refine ⟨result.set "layers" (.list expansion), known', ?_, hechoes, ?_⟩
    · refine Traced.outcome_bind_eq_ok.mpr ⟨result, hresult, ?_⟩
      rw [if_pos (hprecomp.trans precomp), hreference]
      exact Traced.outcome_bind_eq_ok.mpr ⟨_, hagain, rfl⟩
    · refine .of_shown (fun key hkey => ?_) (fun kind => ?_) fun _ => ?_
      · rw [← hshown key hkey]
        refine Members.get?_set_of_ne _ _ fun h => ?_
        subst h
        exact absurd hkey (by decide)
      · rw [Members.get?_set_of_ne _ _ (by decide), hshapes kind]
      · rwa [Members.get_set_self, Members.get_set_self]
  · rw [if_neg precomp] at hrest
    cases hrest
    refine ⟨result, known, ?_, echoes, .of_shown hshown hshapes fun h => absurd h precomp⟩
    refine Traced.outcome_bind_eq_ok.mpr ⟨result, hresult, ?_⟩
    rw [if_neg (by rwa [hprecomp])]
    rfl

theorem exists_completeValue {layer own other : Value R} {finished finished' known : Finished R}
    (returned : (completeValue expand layer finished).outcome = .ok (own, finished'))
    (within : finished' <:+ all) (ready : OnMembers Ready own other)
    (echoes : Echoes finished known) :
    ∃ result known', (completeValue again other known).outcome = .ok (result, known') ∧
      Echoes finished' known' ∧ OnMembers BuiltAlike own result := by
  cases layer with
  | object members =>
      rw [completeValue] at returned
      split at returned
      · rename_i completable
        obtain ⟨⟨done, later⟩, hdone, hpure⟩ := Traced.outcome_bind_eq_ok.mp returned
        cases hpure
        obtain ⟨other, rfl, hready⟩ := ready
        obtain ⟨hcompletable, result, known', hresult, hechoes, hbuilt⟩ :=
          exists_completeLayer follows hdone within completable hready echoes
        refine ⟨.object result, known', ?_, hechoes, result, rfl, hbuilt⟩
        rw [completeValue, if_pos hcompletable]
        exact Traced.outcome_bind_eq_ok.mpr ⟨_, hresult, rfl⟩
      · rename_i hincomplete
        cases returned
        obtain ⟨other, rfl, hready⟩ := ready
        refine ⟨.object other, known, ?_, echoes, other, rfl, hready.builtAlike⟩
        rw [completeValue, if_neg (by rwa [hready.isCompletable])]
        rfl
  | _ =>
      cases returned
      cases ready
      exact ⟨_, known, rfl, echoes, refl _⟩

theorem exists_completeEach {layers own others : List (Value R)}
    {finished finished' known : Finished R} (grows : Grows expand)
    (returned : (completeEach expand layers finished).outcome = .ok (own, finished'))
    (within : finished' <:+ all) (ready : List.Forall₂ (OnMembers Ready) own others)
    (echoes : Echoes finished known) :
    ∃ results known', (completeEach again others known).outcome = .ok (results, known') ∧
      Echoes finished' known' ∧ List.Forall₂ (OnMembers BuiltAlike) own results := by
  induction layers generalizing own others finished known with
  | nil =>
      cases returned
      cases ready
      exact ⟨[], known, rfl, echoes, .nil⟩
  | cons layer rest ih =>
      obtain ⟨⟨first, middle⟩, hfirst, hrest⟩ := Traced.outcome_bind_eq_ok.mp returned
      obtain ⟨⟨later, last⟩, hlater, hpure⟩ := Traced.outcome_bind_eq_ok.mp hrest
      cases hpure
      obtain _ | ⟨hready, hothers⟩ := ready
      obtain ⟨result, known', hresult, hechoes, hbuilt⟩ := exists_completeValue follows hfirst
        ((grows.completeEach hlater).trans within) hready echoes
      obtain ⟨results, known'', hresults, hechoes', hall⟩ := ih hlater hothers hechoes
      refine ⟨result :: results, known'', ?_, hechoes', .cons hbuilt hall⟩
      refine Traced.outcome_bind_eq_ok.mpr ⟨_, hresult, ?_⟩
      exact Traced.outcome_bind_eq_ok.mpr ⟨_, hresults, rfl⟩

/-- Completing a ready list again shows what completing it first showed. -/
theorem exists_completeLayers {sources layers others : List (Value R)}
    {finished finished' known : Finished R} (grows : Grows expand)
    (returned : (completeLayers expand [] sources finished).outcome = .ok (layers, finished'))
    (within : finished' <:+ all) (ready : List.Forall₂ (OnMembers Ready) layers others)
    (echoes : Echoes finished known) :
    ∃ own known', (completeLayers again [] others known).outcome = .ok (own, known') ∧
      Echoes finished' known' ∧ ShownAlike (.list layers) (.list own) := by
  rw [completeLayers_eq] at returned
  obtain ⟨⟨each, later⟩, heach, hpair⟩ := map_eq_ok.mp returned
  obtain ⟨rfl, rfl⟩ := Prod.mk.inj hpair
  -- the layers were ready before they were told about their mattes
  have htold := forall₂_told sources each
  have hready : List.Forall₂ (OnMembers Ready) each others :=
    forall₂_comp (fun _ _ _ h h' => h.comp (fun _ _ _ same ready => ready.of_told same) h') htold
      ready
  obtain ⟨results, known', hresults, hechoes, hbuilt⟩ :=
    exists_completeEach follows grows heach within hready echoes
  refine ⟨tellMattes others results, known', ?_, hechoes, .of_layers ?_⟩
  · rw [completeLayers_eq, hresults]
    simp [Except.map, tellLatest]
  · have hbefore : List.Forall₂ (OnMembers BuiltAlike) (tellMattes sources each) each :=
      forall₂_symm (htold.imp fun _ _ h => h.imp fun _ _ => BuiltAlike.of_told)
    have hafter : List.Forall₂ (OnMembers BuiltAlike) results (tellMattes others results) :=
      (forall₂_told others results).imp fun _ _ h => h.imp fun _ _ => BuiltAlike.of_told
    exact forall₂_comp IsTrans.trans (forall₂_comp IsTrans.trans hbefore hbuilt) hafter

end Follows

/-! ## Expanding the same references -/

/-- Assets of a completed document, whose layers are known when they are finished, and those of
one that is completed again. -/
structure Mirrored (all : Finished R) (assets others : List (Value R)) : Prop where
  known : ∀ finished position layers, finished <:+ all →
    finished.lookup position = some layers → all.lookup position = some layers
  referenced : ∀ reference, Option.Rel (fun found other => other.1 = found.1 ∧
      ∀ layers, all.lookup found.1 = some layers → List.Forall₂ (OnMembers Ready) layers other.2)
    (referencedAsset? assets reference) (referencedAsset? others reference)

/-- Expanding references again follows how they were expanded first; the induction is on the
levels. -/
theorem follows_expandReference {all : Finished R} {assets others : List (Value R)}
    (mirrored : Mirrored all assets others) (levels : Nat) (active : List Nat) :
    Follows all (expandReference assets levels active) (expandReference others levels active) := by
  induction levels using Nat.strongRecOn generalizing active with
  | ind levels ih =>
      intro reference layers finished finished' known returned within echoes
      have hnothing : ShownAlike (R := R) (.list []) (.list []) := fun _ => rfl
      have hreferenced := mirrored.referenced reference
      rw [expandReference] at returned ⊢
      cases hasset : referencedAsset? assets reference with
      | none =>
          rw [hasset] at returned
          rw [eq_none_of_rel hreferenced hasset]
          cases returned
          exact ⟨[], known, rfl, echoes, hnothing⟩
      | some found =>
          obtain ⟨⟨position, other⟩, hother, hposition, hready⟩ :=
            exists_of_rel_left hreferenced hasset
          obtain ⟨owner, source⟩ := found
          obtain rfl : position = owner := hposition
          rw [hasset] at returned
          rw [hother]
          dsimp only at returned ⊢
          split at returned
          · -- cut in both
            rename_i hactive
            cases returned
            rw [if_pos hactive]
            exact ⟨[], known, rfl, echoes, hnothing⟩
          · rename_i hactive
            rw [if_neg hactive]
            cases hlookup : finished.lookup position with
            | some layers =>
                -- finished in both
                obtain ⟨own, hown, hshown⟩ := exists_of_rel_left (echoes.lookup position) hlookup
                rw [hlookup] at returned
                cases returned
                rw [hown]
                exact ⟨own, known, rfl, echoes, hshown⟩
            | none =>
                rw [hlookup] at returned
                rw [eq_none_of_rel (echoes.lookup position) hlookup]
                cases levels with
                | zero =>
                    cases returned
                    exact ⟨[], known, rfl, echoes, hnothing⟩
                | succ levels =>
                    -- begun in both
                    obtain ⟨⟨own, later⟩, hown, hpure⟩ := Traced.outcome_bind_eq_ok.mp returned
                    cases hpure
                    have hlater : later <:+ all := (List.suffix_cons _ _).trans within
                    obtain ⟨results, known', hresults, hechoes, hshown⟩ :=
                      exists_completeLayers (ih levels (Nat.lt_succ_self _) _)
                        (grows_expandReference _ _ _) hown hlater
                        (hready _ (mirrored.known _ _ _ within List.lookup_cons_self)) echoes
                    refine ⟨results, (position, results) :: known', ?_,
                      .cons ⟨rfl, hshown⟩ hechoes, hshown⟩
                    exact Traced.outcome_bind_eq_ok.mpr ⟨_, hresults, rfl⟩

end MotionScene
