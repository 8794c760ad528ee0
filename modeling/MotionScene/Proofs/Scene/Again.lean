import MotionScene.Proofs.Fault.Compile
import MotionScene.Proofs.Migration.Conversion
import MotionScene.Proofs.Migration.Rest
import MotionScene.Proofs.Presentation.Compile

/-!
# Compiling a migrated document

A document that is written out after it was migrated is migrated again when it is read: it
keeps the version that it had.  A migrated document at rest compiles to the scene of the
document that it was made from (`compile_of_atRest`).
-/

namespace MotionScene

variable {R : Type} [Scalar R]

/-- The layers and the timing of a document make up its scene. -/
theorem outcome_compileMigrated_congr {document other : MigratedDocument R}
    (shown : ShownAlike (document.members.get "layers") (other.members.get "layers"))
    (same : ∀ key ∈ ["fr", "ip", "op", "w", "h"],
      other.members.get? key = document.members.get? key) (options : Options R) :
    (compileMigrated other options).outcome = (compileMigrated document options).outcome := by
  have hnumber : ∀ key ∈ ["fr", "ip", "op", "w", "h"], ∀ default,
      numberOr other.members key default = numberOr document.members key default := by
    intro key hkey default
    rw [numberOr, numberOr, Members.get, Members.get, same key hkey]
  have hclock : (documentClock other.members options).outcome =
      (documentClock document.members options).outcome := by
    rw [outcome_documentClock, outcome_documentClock, frameRateOf, frameRateOf]
    simp only [hnumber "fr" (by decide), hnumber "ip" (by decide), hnumber "op" (by decide)]
  unfold compileMigrated
  refine Traced.outcome_bind_congr hclock fun clock => ?_
  refine Traced.outcome_bind_congr (shown clock) fun elements => ?_
  refine Traced.outcome_bind_congr rfl fun duration => ?_
  refine Traced.outcome_bind_congr rfl fun _ => ?_
  rw [hnumber "w" (by decide), hnumber "h" (by decide)]

/-- A migrated document at rest is migrated to one that shows the same. -/
theorem outcome_compile_migrated {value : Value R} {document : MigratedDocument R}
    (returned : (migrate value).outcome = .ok document) (rest : AtRest document.members)
    (options : Options R) :
    (compile (.object document.members) options).outcome = (compile value options).outcome := by
  obtain ⟨members, encoded, hmembers, hversion, hencoded, hcompleted⟩ := migrate_eq_ok.mp returned
  obtain ⟨rfl, hlist⟩ := documentMembers_eq_ok.mp hmembers
  -- the version that was migrated from is told again
  have hagain : Version.ofValue (document.members.get "v") = document.version := by
    rw [hversion, Members.get, get?_migrate (by decide) returned]
    rfl
  have hcolors := rest.colors
  rw [hagain] at hcolors
  obtain ⟨again, hmigrated, hreworded⟩ :=
    exists_migrateEncodings_again hencoded hcompleted hcolors
  obtain ⟨last, hlast, hshown⟩ := exists_completeDocument_again hcompleted rest hreworded
    (alike_migrateEncodings hmigrated)
  obtain ⟨layers, -, -, hlayers, -⟩ := members_completeDocument hcompleted
  have hdocument : (migrate (.object document.members)).outcome = .ok ⟨last, document.version⟩ := by
    refine migrate_eq_ok.mpr ⟨document.members, again, ?_, hagain.symm, hmigrated, hlast⟩
    refine documentMembers_eq_ok.mpr ⟨rfl, ?_⟩
    rw [hlayers]
    rfl
  unfold compile
  rw [Traced.outcome_bind_of_ok hdocument, Traced.outcome_bind_of_ok returned]
  refine outcome_compileMigrated_congr hshown (fun key hkey => ?_) options
  exact get?_migrate (by revert key; decide) hdocument

/-- **A migrated document compiles like its original.**  If it is at rest, compiling it gives
the scene that the original compiles to, under any options. -/
theorem compile_of_atRest {value : Value R} {document : MigratedDocument R}
    (returned : (migrate value).outcome = .ok document) (rest : AtRest document.members)
    (options : Options R) :
    (compile (.object document.members) options).outcome = (compile value options).outcome :=
  outcome_compile_migrated returned rest options

/-! ## A document at rest -/

/-- A layer with a closed mask and a closed path that starts at the origin. -/
def maskedLayer (handle : Value Float) (flag : Members Float) : Members Float :=
  let mask : Members Float := ("v", .list [wholePoint 1 2]) :: ("i", .list [handle]) :: flag
  let path : Members Float := ("v", .list [wholePoint 0 0, wholePoint 9 0]) ::
    ("i", .list [wholePoint 3 4]) :: flag
  [("ty", .num (.whole 4)), ("ks", .object []), ("hasMask", .bool true),
    ("masksProperties", .list [.object [("cl", .bool true), ("pt", .object [("k", .object mask)])]]),
    ("shapes", .list [.object [("ty", .text "sh"), ("closed", .bool true),
      ("ks", .object [("k", .object path)])]])]

/-- A layer with a text. -/
def wordLayer (text : Value Float) (rest : Members Float) : Members Float :=
  ("ty", .num (.whole 5)) :: ("ks", .object []) :: ("t", .object [("d", text)]) :: rest

/-- A document with one composition, from before texts had keyframes. -/
def loopDocument (loop layers : List (Value Float)) : Members Float :=
  [("v", .text "4.4.0"), ("fr", .num (.whole 30)), ("op", .num (.whole 30)),
    ("assets", .list [assetOf "loop" loop]), ("layers", .list layers)]

/-- A document whose composition shows itself. -/
def oldLoop : Members Float :=
  loopDocument [precompOf "loop" [], .object (maskedLayer (wholePoint 3 4) [])]
    [precompOf "loop" [], .object (wordLayer (.text "hi") [])]

/-- The same document migrated. -/
def migratedLoop : Members Float :=
  let loop : List (Value Float) :=
    [.object (expandedOf "loop" []), .object (maskedLayer (wholePoint 4 6) [("c", .bool true)])]
  let text : Value Float :=
    .object [("k", .list [.object [("s", .text "hi"), ("t", .num (.whole 0))]])]
  loopDocument loop
    [.object (expandedOf "loop" loop), .object (wordLayer text [("singleShape", .bool true)])]

theorem atRest_migratedLoop : AtRest migratedLoop where
  colors := nofun
  outlines owner? layers howned _ layer hlayer _ := by
    have hmasked : OutlinesRest (maskedLayer (wholePoint 4 6) [("c", .bool true)]) := by
      intro bezier h
      obtain rfl := List.mem_singleton.mp h
      rfl
    match owner? with
    | none =>
        cases howned
        rcases hlayer with _ | ⟨_, _ | ⟨_, ⟨⟩⟩⟩
        · exact .of_kind rfl
        · exact .of_kind rfl
    | some 0 =>
        cases howned
        rcases hlayer with _ | ⟨_, _ | ⟨_, ⟨⟩⟩⟩
        · exact .of_kind rfl
        · exact hmasked
    | some (position + 1) => cases howned

theorem exists_compile_oldLoop :
    ∃ scene, (compile (.object oldLoop) .standard).outcome = .ok scene := by
  have hmigrated : (migrate (.object oldLoop)).outcome = .ok ⟨migratedLoop, ⟨4, 4, 0⟩⟩ := rfl
  have hclock : (documentClock migratedLoop .standard).outcome =
      .ok ⟨.whole 30, .real 0, .whole 30, .real 0, .standard⟩ := rfl
  obtain ⟨elements, hassembled⟩ : ∃ elements,
      (assembleLayers ⟨.whole 30, .real 0, .whole 30, .real 0, .standard⟩
        (migratedLoop.get "layers")).outcome = .ok elements := by
    show ∃ elements, (assembleLayers _ (.list _)).outcome = .ok elements
    simp only [assembleLayers, buildLayers, buildMembers, assembleNested, expandedOf]
    exact ⟨_, rfl⟩
  obtain ⟨scene, returned, -⟩ := exists_compile_of_assembled hmigrated hclock hassembled rfl
  exact ⟨scene, returned⟩

/-- A text, closed flags and a composition that shows itself are migrated once, and once more. -/
theorem compile_migratedLoop : ∃ scene,
    (migrate (.object oldLoop)).outcome = .ok ⟨migratedLoop, ⟨4, 4, 0⟩⟩ ∧ AtRest migratedLoop ∧
      (compile (.object oldLoop) .standard).outcome = .ok scene ∧
      (compile (.object migratedLoop) .standard).outcome = .ok scene := by
  have returned : (migrate (.object oldLoop)).outcome = .ok ⟨migratedLoop, ⟨4, 4, 0⟩⟩ := rfl
  obtain ⟨scene, hscene⟩ := exists_compile_oldLoop
  exact ⟨scene, returned, atRest_migratedLoop, hscene,
    (compile_of_atRest returned atRest_migratedLoop .standard).trans hscene⟩

/-! ## Handles that are moved twice -/

/-- A curve between two vertices, with the handles that lead to each and one that leaves the
first. -/
def bend (first second leaving : Value Float) : Members Float :=
  [("v", .list [wholePoint 10 10, wholePoint 20 20]), ("i", .list [first, second]),
    ("o", .list [leaving, second]), ("c", .bool false)]

/-- A shape layer with such a curve. -/
def bentLayer (first second leaving : Value Float) : Members Float :=
  [("ty", .num (.whole 4)), ("ks", .object []), ("shapes", .list [.object [("ty", .text "sh"),
    ("ks", .object [("k", .object (bend first second leaving))])]])]

/-- A document with such a layer. -/
def bentDocument (first second leaving : Value Float) : Members Float :=
  ("v", .text "5.5.2") :: documentOf (bentLayer first second leaving)

/-- The element of the layer: a group around the path. -/
def bentElement (first second leaving : Value Float) : Element Float :=
  .group [.leaf .path [("shape", .object (pathGeometry (bend first second leaving))),
    ("style", .object [("fill", .text "none")])] none] none

theorem exists_compile_bent {value first second leaving : Value Float}
    (migrated : (migrate value).outcome = .ok ⟨bentDocument first second leaving, ⟨5, 5, 2⟩⟩) :
    ∃ scene, (compile value .standard).outcome = .ok scene ∧
      scene.elements = [bentElement first second leaving] := by
  let clock : Clock Float := ⟨.whole 30, .whole 0, .whole 30, .real 0, .standard⟩
  let layer := bentLayer first second leaving
  have hclock : (documentClock (bentDocument first second leaving) .standard).outcome =
      .ok clock := rfl
  have hbuilt : (buildMembers clock layer layer).outcome =
      .ok (some ⟨none, bentElement first second leaving⟩) := by
    rw [buildMembers]
    simp only [layer, bentLayer]
    rfl
  exact exists_compile_of_assembled migrated hclock (assembleLayers_alone hbuilt rfl rfl) rfl

/-- A curve that is migrated leaves its first vertex at `15, 10`.  Compiled after that, it
leaves it at `25, 20`. -/
theorem compile_bentDocument_again :
    let drawn : Members Float := bentDocument (wholePoint 0 0) (wholePoint 0 0) (wholePoint 5 0)
    let migrated : Members Float :=
      bentDocument (wholePoint 10 10) (wholePoint 20 20) (wholePoint 15 10)
    (migrate (.object drawn)).outcome = .ok ⟨migrated, ⟨5, 5, 2⟩⟩ ∧ ∃ scene again,
      (compile (.object drawn) .standard).outcome = .ok scene ∧
      (compile (.object migrated) .standard).outcome = .ok again ∧
      scene.elements = [bentElement (wholePoint 10 10) (wholePoint 20 20) (wholePoint 15 10)] ∧
      again.elements = [bentElement (wholePoint 20 20) (wholePoint 40 40) (wholePoint 25 20)] ∧
      again.elements ≠ scene.elements := by
  intro drawn migrated
  have hdrawn : (migrate (.object drawn)).outcome = .ok ⟨migrated, ⟨5, 5, 2⟩⟩ := rfl
  have hmigrated : (migrate (.object migrated)).outcome = .ok ⟨bentDocument (wholePoint 20 20)
    (wholePoint 40 40) (wholePoint 25 20), ⟨5, 5, 2⟩⟩ := rfl
  obtain ⟨scene, hscene, helements⟩ := exists_compile_bent hdrawn
  obtain ⟨again, hagain, hothers⟩ := exists_compile_bent hmigrated
  refine ⟨hdrawn, scene, again, hscene, hagain, helements, hothers, ?_⟩
  rw [helements, hothers]
  intro h
  injection h with h
  cases h

end MotionScene
