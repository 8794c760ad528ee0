import MotionScene.Migration.Document
import MotionScene.Proofs.Members

/-!
# The steps of a migration

Migrating a document takes a step for every older encoding that its version may have, and
then completes its layers (`migrateEncodings_eq_ok`, `migrate_eq_ok`).  All of them are
changes of its layers, its assets and its glyphs: every other member of the document stays
(`get?_migrate`).
-/

namespace MotionScene

variable {R : Type} [Scalar R]

/-- A change was made if it was due, and otherwise nothing was. -/
def Taken (due : Bool) (change : Change (Members R)) (before after : Members R) : Prop :=
  (if due then change before else .ok before) = .ok after

omit [Scalar R] in
theorem Taken.cases {due : Bool} {change : Change (Members R)} {before after : Members R}
    (taken : Taken due change before after) :
    due = true ∧ change before = .ok after ∨ after = before := by
  unfold Taken at taken
  split at taken
  · rename_i hdue
    exact .inl ⟨hdue, taken⟩
  · exact .inr (Except.ok.inj taken).symm

/-- The steps by which the older encodings of a document are migrated. -/
structure EncodingSteps (version : Version) (document colored worded lettered laid result :
    Members R) : Prop where
  colors : Taken (usesByteColors version document) rescaleColors document colored
  texts : Taken (version.before textDocumentVersion) (changeLayersOf .text wrapTextDocument)
    colored worded
  glyphs : Taken (!version.before glyphsVersion) completeGlyphs worded lettered
  paths : Taken (version.before textPathVersion) (changeLayersOf .text wrapTextPath)
    lettered laid
  flags : Taken (version.before closedFlagVersion) (changeLayers closePaths) laid result

theorem migrateEncodings_eq_ok {version : Version} {document result : Members R} :
    (migrateEncodings version document).outcome = .ok result ↔
      ∃ colored worded lettered laid,
        EncodingSteps version document colored worded lettered laid result := by
  unfold migrateEncodings
  extract_lets due later
  -- all steps behind that for colors
  have hlater : ∀ {colored : Members R}, (later colored).outcome = .ok result ↔
      ∃ worded lettered laid, Taken (version.before textDocumentVersion)
          (changeLayersOf .text wrapTextDocument) colored worded ∧
        Taken (!version.before glyphsVersion) completeGlyphs worded lettered ∧
        Taken (version.before textPathVersion) (changeLayersOf .text wrapTextPath) lettered laid ∧
        Taken (version.before closedFlagVersion) (changeLayers closePaths) laid result := by
    intro colored
    constructor
    · intro returned
      obtain ⟨worded, hworded, hrest⟩ := Traced.outcome_bind_eq_ok.mp returned
      obtain ⟨lettered, hlettered, hrest⟩ := Traced.outcome_bind_eq_ok.mp hrest
      obtain ⟨laid, hlaid, hclosed⟩ := Traced.outcome_bind_eq_ok.mp hrest
      exact ⟨worded, lettered, laid, hworded, hlettered, hlaid, hclosed⟩
    · rintro ⟨worded, lettered, laid, hworded, hlettered, hlaid, hclosed⟩
      refine Traced.outcome_bind_eq_ok.mpr ⟨worded, hworded, ?_⟩
      refine Traced.outcome_bind_eq_ok.mpr ⟨lettered, hlettered, ?_⟩
      exact Traced.outcome_bind_eq_ok.mpr ⟨laid, hlaid, hclosed⟩
  have hcolored : (∃ colored worded lettered laid,
      EncodingSteps version document colored worded lettered laid result) ↔
        ∃ colored, Taken (usesByteColors version document) rescaleColors document colored ∧
          (later colored).outcome = .ok result := by
    constructor
    · rintro ⟨colored, worded, lettered, laid, hcolors, hworded, hlettered, hlaid, hclosed⟩
      exact ⟨colored, hcolors, hlater.mpr ⟨worded, lettered, laid, hworded, hlettered, hlaid,
        hclosed⟩⟩
    · rintro ⟨colored, hcolors, hrest⟩
      obtain ⟨worded, lettered, laid, hworded, hlettered, hlaid, hclosed⟩ := hlater.mp hrest
      exact ⟨colored, worded, lettered, laid, hcolors, hworded, hlettered, hlaid, hclosed⟩
  rw [hcolored]
  unfold Taken
  split
  · constructor
    · intro returned
      obtain ⟨-, -, hrest⟩ := Traced.outcome_bind_eq_ok.mp returned
      exact Traced.outcome_bind_eq_ok.mp hrest
    · intro h
      exact Traced.outcome_bind_eq_ok.mpr ⟨(), rfl, Traced.outcome_bind_eq_ok.mpr h⟩
  · constructor
    · intro returned
      exact ⟨document, rfl, returned⟩
    · rintro ⟨_, ⟨⟩, returned⟩
      exact returned

/-- A document is migrated by migrating its older encodings and completing its layers. -/
theorem migrate_eq_ok {value : Value R} {document : MigratedDocument R} :
    (migrate value).outcome = .ok document ↔
      ∃ members encoded, documentMembers value = .ok members ∧
        document.version = Version.ofValue (members.get "v") ∧
        (migrateEncodings document.version members).outcome = .ok encoded ∧
        (completeDocument encoded).outcome = .ok document.members := by
  constructor
  · intro returned
    obtain ⟨members, hmembers, hrest⟩ := Traced.outcome_bind_eq_ok.mp returned
    obtain ⟨encoded, hencoded, hrest⟩ := Traced.outcome_bind_eq_ok.mp hrest
    obtain ⟨completed, hcompleted, hrest⟩ := Traced.outcome_bind_eq_ok.mp hrest
    obtain ⟨-, -, hrest⟩ := Traced.outcome_bind_eq_ok.mp hrest
    cases hrest
    exact ⟨members, encoded, hmembers, rfl, hencoded, hcompleted⟩
  · rintro ⟨members, encoded, hmembers, hversion, hencoded, hcompleted⟩
    obtain ⟨migrated, version⟩ := document
    obtain rfl : version = Version.ofValue (members.get "v") := hversion
    refine Traced.outcome_bind_eq_ok.mpr ⟨members, hmembers, ?_⟩
    refine Traced.outcome_bind_eq_ok.mpr ⟨encoded, hencoded, ?_⟩
    exact Traced.outcome_bind_eq_ok.mpr ⟨migrated, hcompleted, rfl⟩

omit [Scalar R] in
theorem documentMembers_eq_ok {value : Value R} {members : Members R} :
    documentMembers value = .ok members ↔
      value = .object members ∧ (members.get "layers").items?.isSome := by
  unfold documentMembers
  split
  · split
    · rename_i hlist
      constructor
      · rintro ⟨⟩
        exact ⟨rfl, hlist⟩
      · rintro ⟨⟨⟩, -⟩
        rfl
    · rename_i hnone
      constructor
      · rintro ⟨⟩
      · rintro ⟨⟨⟩, hlist⟩
        exact absurd hlist hnone
  · rename_i hobject
    constructor
    · rintro ⟨⟩
    · rintro ⟨rfl, -⟩
      exact absurd rfl (hobject members)

/-! ## Members that stay -/

/-- The members of a document that hold its layers. -/
def layerKeys : List String := ["layers", "assets"]

/-- The members of a document that a migration may change. -/
def migratedKeys : List String := "chars" :: layerKeys

variable {document result : Members R} {key : String}

omit [Scalar R] in
theorem Taken.get? {due : Bool} {change : Change (Members R)}
    (hchange : ∀ after, change document = .ok after → after.get? key = document.get? key)
    (taken : Taken due change document result) : result.get? key = document.get? key := by
  obtain ⟨-, changed⟩ | rfl := taken.cases
  · exact hchange result changed
  · rfl

omit [Scalar R] in
theorem get?_changeLayers {change : Change (Members R)} (hkey : key ∉ layerKeys)
    (changed : changeLayers change document = .ok result) :
    result.get? key = document.get? key := by
  obtain ⟨middle, hlayers, hassets⟩ := bind_eq_ok.mp changed
  have hne : ∀ other ∈ layerKeys, other ≠ key := fun other hother h => hkey (h ▸ hother)
  rw [Members.get?_adjust_of_ne hassets (hne _ (by decide)),
    Members.get?_adjust_of_ne hlayers (hne _ (by decide))]

theorem get?_migrateEncodings {version : Version} (hkey : key ∉ migratedKeys)
    (returned : (migrateEncodings version document).outcome = .ok result) :
    result.get? key = document.get? key := by
  obtain ⟨colored, worded, lettered, laid, steps⟩ := migrateEncodings_eq_ok.mp returned
  have hlayers : ∀ {change : Change (Members R)} {before : Members R} (after : Members R),
      changeLayers change before = .ok after → after.get? key = before.get? key :=
    fun _ => get?_changeLayers (mt (List.mem_cons_of_mem _) hkey)
  have hglyphs : "chars" ≠ key := fun h => hkey (h ▸ by decide)
  rw [steps.flags.get? hlayers, steps.paths.get? hlayers,
    steps.glyphs.get? fun _ changed => Members.get?_adjust_of_ne changed hglyphs,
    steps.texts.get? hlayers, steps.colors.get? hlayers]

theorem get?_completeDocument (hkey : key ∉ layerKeys)
    (returned : (completeDocument document).outcome = .ok result) :
    result.get? key = document.get? key := by
  have hlayers : "layers" ≠ key := fun h => hkey (h ▸ by decide)
  have hassets : "assets" ≠ key := fun h => hkey (h ▸ by decide)
  obtain ⟨completed, -, hrest⟩ := Traced.outcome_bind_eq_ok.mp returned
  dsimp only at hrest
  split at hrest
  · cases hrest
    rw [Members.get?_set_of_ne _ _ hassets, Members.get?_set_of_ne _ _ hlayers]
  · cases hrest
    exact Members.get?_set_of_ne _ _ hlayers

/-- Migrating a document leaves every member alone but its layers, assets and glyphs. -/
theorem get?_migrate {value : Value R} {migrated : MigratedDocument R} (hkey : key ∉ migratedKeys)
    (returned : (migrate value).outcome = .ok migrated) :
    migrated.members.get? key = value.members.get? key := by
  obtain ⟨members, encoded, hmembers, -, hencoded, hcompleted⟩ := migrate_eq_ok.mp returned
  obtain ⟨rfl, -⟩ := documentMembers_eq_ok.mp hmembers
  rw [get?_completeDocument (mt (List.mem_cons_of_mem _) hkey) hcompleted,
    get?_migrateEncodings hkey hencoded]
  rfl

end MotionScene
