import MotionScene.Proofs.Cli.Delivery
import MotionScene.Proofs.Document.Alphabet
import MotionScene.Proofs.Migration.Keyed
import MotionScene.Proofs.Scene.Again

/-!
# Compiling a migrated file

A run that migrates a document leaves its text in a file, and a later run reads the file.  What it
reads is the migrated document, down to the last bit of each number (`document?_afterRun`): the text
of a document is read back, and a document that was read and migrated has distinct keys.  So a file
that holds a migrated document at rest compiles to the text that the original compiles to
(`compiledText?_afterRun`).
-/

namespace MotionScene.Cli

/-! ## Files with a document -/

theorem isSpaced_layout (indent? : Option Int) : (Format.layout indent?).IsSpaced := by
  have hcomma : Json.IsSpacedMark ',' "," := ⟨0, rfl⟩
  have hcolon : Json.IsSpacedMark ':' ": " := ⟨1, rfl⟩
  unfold Format.layout
  split
  · exact ⟨⟨1, rfl⟩, hcolon⟩
  · split
    · exact ⟨hcomma, ⟨0, rfl⟩⟩
    · exact ⟨hcomma, hcolon⟩

theorem exists_toList_withFinalBreak (text : String) : ∃ blank : List Char,
    (withFinalBreak text).toList = text.toList ++ blank ∧ ∀ c ∈ blank, c = '\n' := by
  unfold withFinalBreak
  split
  · exact ⟨[], (List.append_nil _).symm, nofun⟩
  · exact ⟨['\n'], by rw [String.toList_append]; rfl, by simp⟩

/-- A document is read back from a file with its text. -/
theorem parse?_read_withFinalBreak {layout : Json.Layout} (spaced : layout.IsSpaced)
    {value : Value Float} (keyed : value.IsKeyed) {text : String}
    (htext : Json.write? layout value = some text) :
    (Content.text (withFinalBreak text)).read.toOption.bind Json.parse? = some value := by
  unfold Json.write? at htext
  split at htext
  · rename_i fit
    cases htext
    obtain ⟨blank, htext, hblank⟩ := exists_toList_withFinalBreak (Json.write layout value)
    have hwritten : Json.AreWritten (withFinalBreak (Json.write layout value)).toList := by
      rw [htext]
      exact (Json.areWritten_write spaced value).append
        (Json.areWritten_of_space fun c hc => .inr (hblank c hc))
    rw [Content.read, Json.unifyBreaks_eq_self hwritten, String.ofList_toList]
    exact Json.parse?_of_toList_eq spaced keyed fit htext fun c hc => by rw [hblank c hc]; rfl
  · cases htext

/-! ## A run after another -/

/-- The world after a run. -/
def World.afterRun (world : World) (outcome : Outcome) : World :=
  { world with surroundings :=
    { world.surroundings with files := outcome.files world.surroundings.files } }

variable {codec : Yaml.Codec Float} {world : World} {verbosity : Nat} {first next : Job}
  {name : String}

/-- A file with a migrated document is read as that document. -/
theorem document?_afterRun
    (succeeded : (settled (runNormalize codec world verbosity first)).ending = .exit 0)
    (hname : name ≠ standardSign) (hinput : next.input? = some name)
    (houtput : first.destination? = some (Location.ofText name)) :
    ∃ value document, world.document? first = some value ∧ (migrate value).outcome = .ok document ∧
      (world.afterRun (settled (runNormalize codec world verbosity first))).document? next =
        some (.object document.members) := by
  obtain ⟨text, htext, hdelivers⟩ :=
    (runNormalize_writes codec world verbosity first).delivers succeeded
  rw [Outcome.Delivers, houtput] at hdelivers
  obtain ⟨-, hfile, -⟩ := hdelivers
  obtain ⟨value, hvalue, hrest⟩ := Option.bind_eq_some_iff.mp htext
  obtain ⟨document, hdocument, hwrite⟩ := Option.bind_eq_some_iff.mp hrest
  have hmigrated := eq_ok_of_toOption hdocument
  have hkeyed : value.IsKeyed := by
    obtain ⟨source, -, hparse⟩ := Option.bind_eq_some_iff.mp hvalue
    exact Json.isKeyed_of_parse? hparse
  refine ⟨value, document, hvalue, hmigrated, ?_⟩
  -- an option for the layout changes the blanks, and these are passed over
  have hread := parse?_read_withFinalBreak (isSpaced_layout _) (isKeyed_migrate hmigrated hkeyed)
    hwrite
  unfold World.document? World.readInput
  rw [hinput, Option.getD_some, if_neg hname, Files.read]
  dsimp only [World.afterRun]
  rw [hfile]
  exact hread

/-- A file with a migrated document at rest compiles to the text that the original compiles to, if
the later run finds the options that it would have found before. -/
theorem compiledText?_afterRun
    (succeeded : (settled (runNormalize codec world verbosity first)).ending = .exit 0)
    (hname : name ≠ standardSign) (hinput : next.input? = some name)
    (houtput : first.destination? = some (Location.ofText name))
    (rest : ∀ value document, world.document? first = some value →
      (migrate value).outcome = .ok document → AtRest document.members)
    (options : (world.afterRun (settled (runNormalize codec world verbosity first))).options?
      codec next = world.options? codec next) :
    (world.afterRun (settled (runNormalize codec world verbosity first))).compiledText? codec next =
      world.compiledText? codec { next with input? := first.input? } := by
  obtain ⟨value, document, hvalue, hmigrated, hdocument⟩ :=
    document?_afterRun succeeded hname hinput houtput
  have hscene (options : Options Float) := outcome_compile_migrated hmigrated
    (rest value document hvalue hmigrated) options
  have hsource : world.document? { next with input? := first.input? } = some value := hvalue
  have hoptions : world.options? codec { next with input? := first.input? } =
    world.options? codec next := rfl
  unfold World.compiledText?
  rw [hdocument, hsource, options, hoptions]
  show (world.options? codec next).bind _ = (world.options? codec next).bind _
  congr 1
  funext options
  rw [hscene]

end MotionScene.Cli
