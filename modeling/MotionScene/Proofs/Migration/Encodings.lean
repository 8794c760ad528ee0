import MotionScene.Proofs.Migration.Alike
import MotionScene.Proofs.Migration.Steps

/-!
# Encodings leave handles alone

Migrating the older encodings of a document changes colors, texts, glyphs and closed flags.
Every layer stays in its place, with the members that say what it is and what it refers to,
and its beziers keep their handles (`alike_migrateEncodings`).
-/

namespace MotionScene

variable {R : Type}

/-! ## Closed flags -/

theorem sameHandles_closeBeziers {flag property result : Value R}
    (closed : closeBeziers flag property = .ok result) :
    List.Forall₂ SameHandles (beziersOf property) (beziersOf result) := by
  refine beziersOf_changeBeziers (fun _ _ same => same "v" List.mem_cons_self) ?_ closed
  rintro bezier _ ⟨⟩ key hkey
  refine Members.get_set_of_ne _ _ fun h => ?_
  subst h
  exact absurd hkey (by decide)

theorem sameHandles_closeUnder {flagKey pathKey : String} {members result : Members R}
    (closed : closeUnder flagKey pathKey members = .ok result) :
    List.Forall₂ SameHandles (beziersOf (members.get pathKey))
      (beziersOf (result.get pathKey)) := by
  unfold closeUnder at closed
  split at closed
  · rcases Members.get_adjust_self closed with ⟨hnull, hnull'⟩ | hproperty
    · rw [hnull, hnull']
      exact List.forall₂_refl _
    · exact sameHandles_closeBeziers hproperty
  · rw [Except.ok.inj closed]
    exact List.forall₂_refl _

theorem get?_closeUnder {flagKey pathKey key : String} {members result : Members R}
    (closed : closeUnder flagKey pathKey members = .ok result) (h : pathKey ≠ key) :
    result.get? key = members.get? key := by
  unfold closeUnder at closed
  split at closed
  · exact Members.get?_adjust_of_ne closed h
  · rw [Except.ok.inj closed]

theorem get_closeUnder {flagKey pathKey key : String} {members result : Members R}
    (closed : closeUnder flagKey pathKey members = .ok result) (h : pathKey ≠ key) :
    result.get key = members.get key := by
  exact Members.get_congr (get?_closeUnder closed h)

variable [Scalar R]

/-! ## Migrated encodings -/

theorem alike_rescaled {layer result : Members R}
    (rescaled : layer.adjust "shapes" (changeShapes rescaleEntry) = .ok result) :
    Alike layer result := by
  -- only the color of an entry is touched
  have hother : ∀ entry changed : Members R, rescaleEntry entry = .ok changed → ∀ key, "c" ≠ key →
      changed.get key = entry.get key := by
    intro entry changed hentry key hkey
    unfold rescaleEntry at hentry
    split at hentry
    · exact Members.get_adjust_of_ne hentry hkey
    · rw [Except.ok.inj hentry]
  refine .of_changeShapes (fun entry changed hentry => hother _ _ hentry _ (by decide))
    (fun entry changed hentry => ?_) rescaled
  rw [outlineBeziers, outlineBeziers, hother _ _ hentry _ (by decide),
    hother _ _ hentry _ (by decide)]
  exact List.forall₂_refl _

theorem alike_closePaths {layer result : Members R} (closed : closePaths layer = .ok result) :
    Alike layer result := by
  obtain ⟨masked, hmasked, hrest⟩ := bind_eq_ok.mp closed
  have hmask : Alike layer masked := by
    refine ⟨fun key hkey => get?_changeMasks hmasked fun h => ?_, List.rel_append ?_ ?_⟩
    · subst h
      exact absurd hkey (by decide)
    · exact maskBeziers_changeMasks (fun _ _ => sameHandles_closeUnder) hmasked
    · rw [shapeBeziers_congr (get_changeMasks hmasked (by decide))
        (get_changeMasks hmasked (by decide))]
      exact List.forall₂_refl _
  split at hrest
  · refine IsTrans.trans _ _ _ hmask (.of_changeShapes (fun entry changed hentry => ?_)
      (fun entry changed hentry => ?_) hrest)
    · split at hentry
      · exact get_closeUnder hentry (by decide)
      · rw [Except.ok.inj hentry]
    · split at hentry
      · rename_i hkind
        rw [outlineBeziers, outlineBeziers, get_closeUnder hentry (by decide), if_pos hkind,
          if_pos hkind]
        exact sameHandles_closeUnder hentry
      · rw [Except.ok.inj hentry]
        exact List.forall₂_refl _
  · rw [← pure_eq_ok.mp hrest]
    exact hmask

omit [Scalar R] in
/-- Changing every layer goes through the list at the top, then through those of assets. -/
theorem changeLayers_eq (change : Change (Members R)) (document : Members R) :
    changeLayers change document = (do
      let document ← document.adjust "layers" (Value.adjustItems (Value.adjustMembers change))
      document.adjust "assets" (Value.adjustItems (Value.adjustMember "layers"
        (Value.adjustItems (Value.adjustMembers change))))) := rfl

theorem alike_changeLayers {change : Change (Members R)}
    (hchange : ∀ layer changed, change layer = .ok changed → Alike layer changed)
    {document result : Members R} (changed : changeLayers change document = .ok result) :
    AlikeDocuments document result := by
  rw [changeLayers_eq] at changed
  obtain ⟨middle, htop, hassets⟩ := bind_eq_ok.mp changed
  have hlist : ∀ value own, value.adjustMembers change = .ok own → OnMembers Alike value own :=
    fun _ _ => onMembers_adjustMembers hchange
  refine ⟨?_, ?_⟩
  · rw [Members.get_adjust_of_ne hassets (by decide)]
    exact onItems_adjust hlist htop
  · rw [← Members.get_adjust_of_ne htop (by decide)]
    refine onItems_adjust (fun _ _ => onMembers_adjustMembers fun asset own hown => ?_) hassets
    exact ⟨Members.get_adjust_of_ne hown (by decide), onItems_adjust hlist hown⟩

theorem alike_changeLayersOf {kind : LayerKind} {change : Change (Members R)}
    (hchange : ∀ layer changed, change layer = .ok changed → Alike layer changed)
    {document result : Members R} (changed : changeLayersOf kind change document = .ok result) :
    AlikeDocuments document result := by
  refine alike_changeLayers (fun layer own hown => ?_) changed
  split at hown
  · exact hchange layer own hown
  · cases hown
    exact refl layer

/-- Migrating the older encodings of a document leaves every layer alike. -/
theorem alike_migrateEncodings {version : Version} {document result : Members R}
    (returned : (migrateEncodings version document).outcome = .ok result) :
    AlikeDocuments document result := by
  obtain ⟨colored, worded, lettered, laid, steps⟩ := migrateEncodings_eq_ok.mp returned
  have step : ∀ {due : Bool} {change : Change (Members R)} {before after : Members R},
      (∀ changed, change before = .ok changed → AlikeDocuments before changed) →
      Taken due change before after → AlikeDocuments before after := by
    intro due change before after hchange taken
    obtain ⟨-, changed⟩ | rfl := taken.cases
    · exact hchange after changed
    · exact refl _
  have hcolors : AlikeDocuments document colored :=
    step (fun _ => alike_changeLayersOf fun _ _ => alike_rescaled) steps.colors
  have htexts : AlikeDocuments colored worded :=
    step (fun _ => alike_changeLayersOf fun _ _ => Alike.of_adjust (by decide)) steps.texts
  have hglyphs : AlikeDocuments worded lettered := step (fun changed hchanged => by
    refine ⟨?_, ?_⟩ <;> rw [Members.get_adjust_of_ne hchanged (by decide)] <;>
      exact refl _) steps.glyphs
  have hpaths : AlikeDocuments lettered laid :=
    step (fun _ => alike_changeLayersOf fun _ _ => Alike.of_adjust (by decide)) steps.paths
  have hflags : AlikeDocuments laid result :=
    step (fun _ => alike_changeLayers fun _ _ => alike_closePaths) steps.flags
  exact IsTrans.trans _ _ _ (IsTrans.trans _ _ _ hcolors htexts)
    (IsTrans.trans _ _ _ hglyphs (IsTrans.trans _ _ _ hpaths hflags))

end MotionScene
