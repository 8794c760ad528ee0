import MotionScene.Proofs.Descendants
import MotionScene.Proofs.Migration.Expansion

/-!
# Completing with fresh copies

The layers of an asset could also be completed anew for every use, with nothing kept from
one use to the next: `freshLayers`.  Where no asset uses itself, a finished asset has the
layers that this gives (`freshLayers_of_finished`).
-/

namespace MotionScene

open Relation

variable {R : Type} [Scalar R]

/-! ## Completing with fresh copies -/

/-- A layer completed on its own, with the expansion of its reference below it if it is
a precomposition. -/
def freshLayer (expand : Value R → Except Fault (List (Value R))) :
    Value R → Except Fault (Value R)
  | .object members =>
    if isCompletable members then do
      let members ← completeContent members
      if isPrecomp members then
        return .object (members.set "layers" (.list (← expand (members.get "refId"))))
      else return .object members
    else .ok (.object members)
  | layer => .ok layer

/-- The layers of a list, completed, with a fresh copy of the completed layers of its
asset below every precomposition, down to a number of levels. -/
def freshLayers (assets : List (Value R)) :
    (levels : Nat) → List (Value R) → Except Fault (List (Value R))
  | 0, _ => .error .endless
  | levels + 1, layers => do
    let own ← layers.mapM <| freshLayer fun reference =>
      match referencedAsset? assets reference with
      | none => .ok []
      | some (_, layers) => freshLayers assets levels layers
    return tellMattes layers own

theorem freshLayer_of_completedLayer {expand : Value R → Except Fault (List (Value R))}
    {expands : Value R → List (Value R) → Prop} {layer result : Value R}
    (completed : CompletedLayer expands layer result)
    (h : ∀ reference layers, RefersTo [layer] reference → expands reference layers →
      expand reference = .ok layers) : freshLayer expand layer = .ok result := by
  cases completed with
  | kept incomplete =>
      cases layer with
      | object members => rw [freshLayer, if_neg (by simp [incomplete members rfl])]
      | _ => rfl
  | content completable completed plain =>
      rw [freshLayer, if_pos completable, completed, ok_bind, if_neg (by simp [plain])]
      rfl
  | expanded completable completed precomp expansion =>
      have hrefers : RefersTo [.object _] _ := ⟨_, List.mem_singleton_self _, completable,
        isPrecomp_completeContent completed ▸ precomp, (reference_completeContent completed).symm⟩
      rw [freshLayer, if_pos completable, completed, ok_bind, if_pos precomp,
        h _ _ hrefers expansion]
      rfl

/-- A completed list is what completing with fresh copies gives, if one level below that
is so for everything the list refers to. -/
theorem freshLayers_of_completed {assets : List (Value R)} {levels : Nat}
    {expands : Value R → List (Value R) → Prop} {layers result : List (Value R)}
    (completed : Completed expands layers result)
    (hmissing : ∀ reference expansion, referencedAsset? assets reference = none →
      expands reference expansion → expansion = [])
    (hfound : ∀ reference expansion position source, RefersTo layers reference →
      referencedAsset? assets reference = some (position, source) →
      expands reference expansion → freshLayers assets levels source = .ok expansion) :
    freshLayers assets (levels + 1) layers = .ok result := by
  obtain ⟨own, hown, rfl⟩ := completed
  refine bind_eq_ok.mpr ⟨own, mapM_eq_ok.mpr ?_, rfl⟩
  refine forall₂_imp_of_mem hown fun layer hlayer _ hcompleted => ?_
  refine freshLayer_of_completedLayer hcompleted fun reference expansion hrefers hexpands => ?_
  cases hasset : referencedAsset? assets reference with
  | none => rw [hmissing reference expansion hasset hexpands]
  | some found =>
      exact hfound reference expansion found.1 found.2 (hrefers.mono (by simpa using hlayer))
        hasset hexpands

/-! ## Assets that do not use themselves -/

/-- No asset leads back to itself through the assets it uses. -/
def Acyclic (assets : List (Value R)) : Prop :=
  NoCycle (Uses assets)

/-- Finished assets have the layers that completing with fresh copies gives them: the
induction is on the order in which they were finished. -/
theorem freshLayers_of_finished {assets : List (Value R)} (acyclic : Acyclic assets)
    {finished : Finished R} (hfinished : FinishedInOrder assets finished) {position : Nat}
    {source layers : List (Value R)} (hlookup : finished.lookup position = some layers)
    (hsource : assetLayers? assets position = some source) {levels : Nat}
    (hlevels : (descendants (Uses assets) assets.length position).card < levels) :
    freshLayers assets levels source = .ok layers := by
  induction finished generalizing position source layers levels with
  | nil => cases hlookup
  | cons entry known ih =>
      obtain ⟨owner, own⟩ := entry
      obtain ⟨-, ⟨given, hgiven, hcompleted⟩, hknown⟩ := hfinished
      by_cases howner : position = owner
      · -- the asset that was finished last: all others were known to it
        subst howner
        rw [List.lookup_cons_self] at hlookup
        cases hlookup
        rw [hsource] at hgiven
        cases hgiven
        obtain ⟨fewer, rfl⟩ : ∃ fewer, levels = fewer + 1 :=
          Nat.exists_eq_succ_of_ne_zero (Nat.ne_zero_of_lt hlevels)
        refine freshLayers_of_completed hcompleted ?_ ?_
        · intro reference expansion hmissing hexpands
          simpa [ExpandsTo, hmissing] using hexpands
        · intro reference expansion used usedSource hrefers hasset hexpands
          have huses : Uses assets position used :=
            ⟨source, reference, usedSource, hsource, hrefers, hasset⟩
          have hfewer := card_descendants_lt acyclic
            (lt_length_of_assetLayers? (assetLayers?_of_referencedAsset? hasset)) huses
          simp only [ExpandsTo, hasset] at hexpands
          rcases hexpands with hfound | ⟨-, hleads, -⟩
          · exact ih hknown hfound (assetLayers?_of_referencedAsset? hasset) (by omega)
          · -- a use that is cut closes a cycle
            exact absurd (TransGen.tail' hleads huses) (acyclic used)
      · rw [Finished.lookup_cons_of_ne _ _ howner] at hlookup
        exact ih hknown hlookup hsource hlevels

end MotionScene
