import MotionScene.Migration.Document
import MotionScene.Proofs.Fault.Encodings
import MotionScene.Proofs.Lookup

/-!
# Migrating a document is safe

Completing the layers of a list makes handles absolute and expands references.  What an
expansion returns are completed layers of an asset, and those that are kept for later uses
are excused as well (`safe_expandReference`, by the levels of the expansion).  So a migrated
document has no flaws but those that its source has (`ends_migrate`), and what is no
document at all is refused.
-/

namespace MotionScene

variable {R : Type} [Scalar R] {admitted : Fault → Prop}

/-! ## Layers -/

/-- The layers of finished assets are excused. -/
def FinishedExcused (admitted : Fault → Prop) (finished : Finished R) : Prop :=
  ∀ entry ∈ finished, ∀ layer ∈ entry.2, Excused admitted layer

/-- An expander returns excused layers and keeps such layers, or fails with an admitted
fault. -/
def SafeExpander (admitted : Fault → Prop) (expand : Expander R) : Prop :=
  ∀ reference finished, FinishedExcused admitted finished →
    Ends admitted (fun result => (∀ layer ∈ result.1, Excused admitted layer) ∧
      FinishedExcused admitted result.2) (expand reference finished).outcome

theorem excused_completeText {layer : Members R} (excused : Excused admitted (.object layer)) :
    Excused admitted (.object (completeText layer)) := by
  unfold completeText
  split
  · exact excused.set (by decide) (.bool true)
  · exact excused

theorem excused_markMatte {layer : Members R} {before : List (Value R)}
    (excused : Excused admitted (.object layer))
    (hbefore : ∀ earlier ∈ before, Excused admitted earlier) :
    ∀ earlier ∈ markMatte layer before, Excused admitted earlier := by
  unfold markMatte
  split
  · rename_i previous earlier
    obtain ⟨hprevious, hearlier⟩ := List.forall_mem_cons.mp hbefore
    split
    · exact List.forall_mem_cons.mpr
        ⟨hprevious.set (by decide) (excused.get "tt"), hearlier⟩
    · exact hbefore
  · exact hbefore

section Completion

variable (arithmetic : AdmitsArithmetic R admitted)

include arithmetic

theorem safe_completeContent : SafeMembers admitted (completeContent : Change (Members R)) := by
  have hbeziers : Safe admitted (completeBeziers : Change (Value R)) :=
    safe_changeBeziers (safe_makeAbsolute arithmetic)
  have hmasks : SafeMembers admitted (completeMasks : Change (Members R)) :=
    safe_changeMasks (hbeziers.adjust (by decide))
  have hshapes : SafeMembers admitted (completeShapes : Change (Members R)) := by
    refine Safe.adjust (safe_changeShapes ?_) (by decide)
    exact (hbeziers.adjust (by decide)).ite fun entry => (entry.get "ty").isText "sh"
  refine hmasks.bind fun layer excused => ?_
  split
  · exact hshapes layer excused
  · exact excused_completeText excused
  · exact excused

theorem ends_completeLayer {expand : Expander R} (safe : SafeExpander admitted expand)
    {layer : Members R} {finished : Finished R} (excused : Excused admitted (.object layer))
    (hfinished : FinishedExcused admitted finished) :
    Ends admitted (fun result => Excused admitted (.object result.1) ∧
      FinishedExcused admitted result.2) (completeLayer expand layer finished).outcome := by
  refine Ends.report (safe_completeContent arithmetic layer excused) fun own _ hown => ?_
  split
  · refine (safe (Members.get own "refId") finished hfinished).report ?_
    rintro ⟨layers, later⟩ - ⟨hlayers, hlater⟩
    exact ⟨hown.set (by decide) (Excused.list_iff.mpr hlayers), hlater⟩
  · exact ⟨hown, hfinished⟩

theorem ends_completeLayers {expand : Expander R} (safe : SafeExpander admitted expand)
    {before layers : List (Value R)} {finished : Finished R}
    (hbefore : ∀ layer ∈ before, Excused admitted layer)
    (hlayers : ∀ layer ∈ layers, Excused admitted layer)
    (hfinished : FinishedExcused admitted finished) :
    Ends admitted (fun result => (∀ layer ∈ result.1, Excused admitted layer) ∧
      FinishedExcused admitted result.2)
      (completeLayers expand before layers finished).outcome := by
  induction layers generalizing before finished with
  | nil =>
      rw [completeLayers]
      exact ⟨fun layer h => hbefore layer (List.mem_reverse.mp h), hfinished⟩
  | cons layer rest ih =>
      obtain ⟨hlayer, hrest⟩ := List.forall_mem_cons.mp hlayers
      have hkept := ih (List.forall_mem_cons.mpr ⟨hlayer, hbefore⟩) hrest hfinished
      cases layer with
      | object members =>
          rw [completeLayers]
          split
          · refine (ends_completeLayer arithmetic safe hlayer hfinished).report ?_
            rintro ⟨done, later⟩ - ⟨hdone, hlater⟩
            refine ih (List.forall_mem_cons.mpr ⟨hdone, ?_⟩) hrest hlater
            exact excused_markMatte hlayer hbefore
          · exact hkept
      | _ => exact hkept

end Completion

/-! ## References -/

theorem excused_assetLayers {assets layers : List (Value R)} {reference : Value R} {position : Nat}
    (hassets : ∀ asset ∈ assets, Excused admitted asset)
    (h : referencedAsset? assets reference = some (position, layers)) :
    ∀ layer ∈ layers, Excused admitted layer := by
  obtain ⟨found, -, h⟩ := Option.bind_eq_some_iff.mp h
  obtain ⟨own, hown, h⟩ := Option.bind_eq_some_iff.mp h
  cases h
  obtain ⟨asset, hasset, hitems⟩ := Option.bind_eq_some_iff.mp hown
  have hexcused := hassets asset (List.mem_of_getElem? hasset)
  cases asset with
  | object members =>
      have hlist := (hexcused.get "layers").items
      rw [Value.items, show (Members.get members "layers").items? = some layers from hitems] at hlist
      exact hlist
  | _ => cases hitems

/-- Expanding references is safe; the induction is on the levels. -/
theorem safe_expandReference (arithmetic : AdmitsArithmetic R admitted) {assets : List (Value R)}
    (hassets : ∀ asset ∈ assets, Excused admitted asset) (levels : Nat) (active : List Nat) :
    SafeExpander admitted (expandReference assets levels active) := by
  induction levels using Nat.strongRecOn generalizing active with
  | ind levels ih =>
      intro reference finished hfinished
      have hnothing : (∀ layer ∈ ([] : List (Value R)), Excused admitted layer) ∧
          FinishedExcused admitted finished := ⟨List.forall_mem_nil _, hfinished⟩
      rw [expandReference]
      cases hasset : referencedAsset? assets reference with
      | none => exact hnothing
      | some found =>
          obtain ⟨position, source⟩ := found
          dsimp only
          split
          · -- the asset is being expanded, and the reference is cut
            exact hnothing
          · cases hlookup : finished.lookup position with
            | some layers => exact ⟨hfinished _ (mem_of_lookup hlookup), hfinished⟩
            | none =>
                cases levels with
                | zero => exact hnothing
                | succ levels =>
                    have hinner := ih levels (Nat.lt_succ_self _) (position :: active)
                    refine (ends_completeLayers arithmetic hinner (List.forall_mem_nil _)
                      (excused_assetLayers hassets hasset) hfinished).report ?_
                    rintro ⟨layers, later⟩ - ⟨hlayers, hlater⟩
                    exact ⟨hlayers, List.forall_mem_cons.mpr ⟨hlayers, hlater⟩⟩

/-! ## Documents -/

theorem excused_finishAssets {finished : Finished R} {assets : List (Value R)}
    (hfinished : FinishedExcused admitted finished)
    (hassets : ∀ asset ∈ assets, Excused admitted asset) :
    ∀ asset ∈ finishAssets finished assets, Excused admitted asset := by
  intro asset h
  obtain ⟨position, hposition, rfl⟩ := List.mem_mapIdx.mp h
  have hown := hassets _ (List.getElem_mem hposition)
  unfold finishAsset
  split
  · rename_i members layers hmembers hlookup
    rw [hmembers] at hown
    exact hown.set (by decide) (Excused.list_iff.mpr (hfinished _ (mem_of_lookup hlookup)))
  · exact hown

theorem ends_completeDocument (arithmetic : AdmitsArithmetic R admitted) {document : Members R}
    (excused : Excused admitted (.object document)) :
    Ends admitted (fun result => Excused admitted (.object result))
      (completeDocument document).outcome := by
  have hassets := (excused.get "assets").items
  refine (ends_completeLayers arithmetic (safe_expandReference arithmetic hassets _ [])
    (List.forall_mem_nil _) (excused.get "layers").items (List.forall_mem_nil _)).report ?_
  rintro ⟨layers, finished⟩ - ⟨hlayers, hfinished⟩
  have hcompleted := excused.set (show Flaw.concerning "layers" = [] by decide)
    (Excused.list_iff.mpr hlayers)
  dsimp only
  split
  · exact hcompleted.set (by decide) (Excused.list_iff.mpr (excused_finishAssets hfinished hassets))
  · exact hcompleted

/-- A document is an object with a list of layers. -/
def isDocument (members : Members R) : Bool :=
  (members.get "layers").items?.isSome

/-- Migrating a document keeps it excused. -/
theorem ends_migrate (arithmetic : AdmitsArithmetic R admitted) {members : Members R}
    (document : isDocument members = true) (excused : Excused admitted (.object members)) :
    Ends admitted (fun migrated => Excused admitted (.object migrated.members))
      (migrate (.object members)).outcome := by
  have hmembers : Ends admitted (· = members) (documentMembers (.object members)) := by
    rw [show documentMembers (.object members) = .ok members from if_pos document]
    rfl
  refine Ends.report hmembers ?_
  rintro _ - rfl
  refine (ends_migrateEncodings arithmetic _ excused).report fun current _ hcurrent => ?_
  exact (ends_completeDocument arithmetic hcurrent).report fun completed _ hcompleted => hcompleted

end MotionScene
