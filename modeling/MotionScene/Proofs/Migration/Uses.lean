import MotionScene.Proofs.Migration.Sharing

/-!
# Which assets are finished

The assets that are finished for a document are exactly those that its layers at the top
use, directly or through the layers of other assets (`finished_iff_used`).  While assets
are being completed, whatever a finished one uses is at least begun: it is finished too or
still active.
-/

namespace MotionScene

open Relation

variable {R : Type} [Scalar R]

/-- The assets that the layers at the top of a document lead to. -/
inductive IsUsed (document : Members R) : Nat → Prop
  | top {reference : Value R} {position : Nat} {source : List (Value R)}
      (refers : RefersTo (document.get "layers").items reference)
      (names : referencedAsset? (document.get "assets").items reference =
        some (position, source)) : IsUsed document position
  | nested {user used : Nat} (outer : IsUsed document user)
      (uses : Uses (document.get "assets").items user used) : IsUsed document used

/-! ## Assets that are begun -/

/-- An asset is begun when it is active or finished. -/
def Begun (active : List Nat) (finished : Finished R) (position : Nat) : Prop :=
  position ∈ active ∨ (finished.lookup position).isSome

omit [Scalar R] in
theorem isSome_lookup_of_suffix {known finished : Finished R} (h : known <:+ finished)
    {position : Nat} (hknown : (known.lookup position).isSome) :
    (finished.lookup position).isSome := by
  obtain ⟨extra, rfl⟩ := h
  rw [List.lookup_append, Option.isSome_or, hknown, Bool.or_true]

omit [Scalar R] in
theorem Begun.of_suffix {active : List Nat} {known finished : Finished R} {position : Nat}
    (begun : Begun active known position) (h : known <:+ finished) :
    Begun active finished position :=
  begun.imp_right (isSome_lookup_of_suffix h)

omit [Scalar R] in
/-- Finishing an asset that was active begins no other. -/
theorem Begun.of_cons {active : List Nat} {finished : Finished R} {position owner : Nat}
    (begun : Begun (owner :: active) finished position) (layers : List (Value R)) :
    Begun active ((owner, layers) :: finished) position := by
  by_cases howner : position = owner
  · subst howner
    exact .inr (by simp)
  · rw [Begun, Finished.lookup_cons_of_ne _ _ howner]
    exact begun.imp_left fun hmem => (List.mem_cons.mp hmem).resolve_left howner

/-- What a reference names is begun. -/
def NamesBegun (assets : List (Value R)) (active : List Nat) (finished : Finished R)
    (reference : Value R) : Prop :=
  ∀ position source, referencedAsset? assets reference = some (position, source) →
    Begun active finished position

/-- Finished assets are used, and what they use is begun. -/
structure UsedBelow (document : Members R) (active : List Nat) (finished : Finished R) :
    Prop where
  used : ∀ position, (finished.lookup position).isSome → IsUsed document position
  closed : ∀ position other, (finished.lookup position).isSome →
    Uses (document.get "assets").items position other → Begun active finished other

/-- A reference stands in the innermost active asset, if there is one, and names an asset
that is used. -/
structure UsedReference (document : Members R) (active : List Nat) (reference : Value R) :
    Prop where
  referred : ReferredBelow (document.get "assets").items active reference
  used : ∀ position source, referencedAsset? (document.get "assets").items reference =
    some (position, source) → IsUsed document position

/-- The references of a completed list all follow the rule of their expansion. -/
theorem Completed.expands_of_refersTo {expands : Value R → List (Value R) → Prop}
    {layers result : List (Value R)} (completed : Completed expands layers result)
    {reference : Value R} (refers : RefersTo layers reference) :
    ∃ expansion, expands reference expansion := by
  obtain ⟨members, hmem, completable, precomp, rfl⟩ := refers
  obtain ⟨own, hown, -⟩ := completed
  obtain ⟨result, -, hresult⟩ := exists_of_mem_left hown hmem
  cases hresult with
  | kept incomplete => rw [incomplete members rfl] at completable; cases completable
  | content _ hcontent plain =>
      rw [isPrecomp_completeContent hcontent, precomp] at plain
      cases plain
  | @expanded _ _ layers _ hcontent _ expansion =>
      exact ⟨layers, reference_completeContent hcontent ▸ expansion⟩

/-- What is left when a used asset has been begun and all of its layers are completed. -/
theorem used_of_begun {document : Members R} {position : Nat} {active : List Nat}
    {source layers : List (Value R)} {later : Finished R}
    (hsource : assetLayers? (document.get "assets").items position = some source)
    (hused : IsUsed document position) (hsound : UsedBelow document (position :: active) later)
    (hcompleted : Completed (fun reference _ =>
      NamesBegun (document.get "assets").items (position :: active) later reference)
      source layers) :
    UsedBelow document active ((position, layers) :: later) := by
  refine ⟨fun other hother => ?_, fun owner other howner huses => ?_⟩
  · by_cases h : other = position
    · exact h ▸ hused
    · rw [Finished.lookup_cons_of_ne _ _ h] at hother
      exact hsound.used other hother
  · refine Begun.of_cons ?_ layers
    by_cases h : owner = position
    · -- all references of the asset itself were followed
      subst h
      obtain ⟨given, reference, own, hgiven, hreference, hnames⟩ := huses
      rw [hsource] at hgiven
      cases hgiven
      obtain ⟨-, hbegun⟩ := hcompleted.expands_of_refersTo hreference
      exact hbegun other own hnames
    · rw [Finished.lookup_cons_of_ne _ _ h] at howner
      exact hsound.closed owner other howner huses

/-- Every expansion finishes used assets only, and begins what it names. -/
theorem usedRule (document : Members R) :
    ExpansionRule (document.get "assets").items (UsedBelow document)
      (fun active finished reference _ =>
        NamesBegun (document.get "assets").items active finished reference)
      (UsedReference document) where
  referred refers := refers.referred
  stable _ hsuffix begun position source hnames := (begun position source hnames).of_suffix hsuffix
  missing hasset position source hnames := by
    rw [hasset] at hnames
    cases hnames
  cut hasset hposition _ position source hnames := by
    rw [hasset] at hnames
    cases hnames
    exact .inl hposition
  known hasset hlookup position source hnames := by
    rw [hasset] at hnames
    cases hnames
    exact .inr (by rw [hlookup]; rfl)
  begun hasset hrefers hsound _ := by
    have hsource := assetLayers?_of_referencedAsset? hasset
    have hused := hrefers.used _ _ hasset
    refine ⟨⟨hsound.used, fun owner other howner huses => ?_⟩, fun inner hinner => ⟨?_, ?_⟩⟩
    · exact (hsound.closed owner other howner huses).imp_left (List.mem_cons_of_mem _)
    · intro owner howner
      cases howner
      exact ⟨_, hsource, hinner⟩
    · exact fun other own hnames => hused.nested ⟨_, inner, own, hsource, hinner, hnames⟩
  done _ hasset hrefers hlater hcompleted :=
    used_of_begun (assetLayers?_of_referencedAsset? hasset) (hrefers.used _ _ hasset) hlater
      hcompleted

/-- **Exactly the used assets are finished.** -/
theorem finished_iff_used {document : Members R} {layers : List (Value R)}
    {finished : Finished R} (returned : (completeTop document).outcome = .ok (layers, finished))
    (position : Nat) : (finished.lookup position).isSome ↔ IsUsed document position := by
  have keeps := (usedRule document).keeps _ _ (Active.top (document.get "assets").items)
  have hrefers : ∀ reference, RefersTo (document.get "layers").items reference →
      UsedReference document [] reference :=
    fun reference hreference => ⟨nofun, fun _ _ hnames => .top hreference hnames⟩
  obtain ⟨⟨hused, hclosed⟩, -, hcompleted⟩ :=
    completed_of_completeLayers keeps hrefers ⟨by simp, by simp⟩ returned
  refine ⟨hused position, fun used => ?_⟩
  -- nothing is active any more, so what is begun is finished
  induction used with
  | top refers names =>
      obtain ⟨-, hbegun⟩ := hcompleted.expands_of_refersTo refers
      simpa [Begun] using hbegun _ _ names
  | nested outer uses ih => simpa [Begun] using hclosed _ _ ih uses

end MotionScene
