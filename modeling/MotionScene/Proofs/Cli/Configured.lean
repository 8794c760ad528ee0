import MotionScene.Proofs.Cli.Delivery
import MotionScene.Proofs.Config.Refused

/-!
# Runs with options that are refused

What is wrong with an option file is told by the run that reads it: the run ends with the code 1 and
a line that names the file and the fault, and has written nothing (`bad_options_are_told`).  The
exceptions are a key that is no text and a value that cannot be shown
(`unnamed_key_and_undefined_rate`).
-/

namespace MotionScene.Cli

/-- What a job gives by name beside an option file. -/
def Job.overrides (job : Job) : List (String × Yaml Float) :=
  if job.loop then [(OptionKey.loop.name, .bool true)] else []

/-- A run that fails with a line of words at the end of its messages, and has written nothing. -/
structure Outcome.TellsError (outcome : Outcome) (before : Files) (words : String) : Prop where
  code : outcome.ending = .exit 1
  line : ∃ earlier, outcome.messages = earlier ++ errorText words
  nothing : outcome.WroteNothing before

section Runs

variable {codec : Yaml.Codec Float} {world : World} {job : Job}

theorem overrides_notTaken (job : Job) :
    ∀ name ∈ [pathName, valueName, sourceName], isGiven job.overrides name = false := by
  unfold Job.overrides
  cases job.loop <;> decide

/-- A run without options ends before it compiles: in words, if there are any for the reason. -/
theorem runCompile_of_fault (verbosity : ℕ) (hdocument : (world.document? job).isSome)
    {fault : ConfigFault Float}
    (hoptions : (loadOptions codec job.config? job.overrides world.surroundings).outcome =
      .error fault) :
    ∃ notices, settled (runCompile codec world verbosity job) =
      match fault.message? with
      | some message =>
        ((Outcome.blank.report notices).report (errorText message)).endWith (.exit 1)
      | none => (Outcome.blank.report notices).endWith (.unconfigured fault) := by
  obtain ⟨document, hdocument⟩ := Option.isSome_iff_exists.mp hdocument
  rw [← toOption_readDocument] at hdocument
  refine ⟨noticeText verbosity
    (loadOptions codec job.config? job.overrides world.surroundings).notices, ?_⟩
  unfold Job.overrides at hoptions ⊢
  rw [runCompile, eq_ok_of_toOption hdocument]
  simp only [World.readOptions, hoptions]
  cases fault.message? with
  | some message => rfl
  | none => rfl

theorem tellsError_of_fault (verbosity : ℕ) (hdocument : (world.document? job).isSome)
    {fault : ConfigFault Float} {message : String} (hmessage : fault.message? = some message)
    (hoptions : (loadOptions codec job.config? job.overrides world.surroundings).outcome =
      .error fault) :
    (settled (runCompile codec world verbosity job)).TellsError world.surroundings.files
      message := by
  obtain ⟨notices, hrun⟩ := runCompile_of_fault verbosity hdocument hoptions
  rw [hrun, hmessage]
  exact ⟨rfl, ⟨_, rfl⟩, ⟨rfl, rfl⟩⟩

end Runs

/-- A value whose keys are texts makes up options or is refused in words, and is refused where a
name is not that of an option or the rate is no number above zero; and a run that reads its options
from such a value has them, or ends with the code 1 and a line with the source and the fault.  What
is of the wrong kind has to be shown for that.  What values there are in which files is up to the
codec. -/
theorem bad_options_are_told {value : Yaml Float} (hkeyed : value.IsKeyed)
    (hnamed : ¬ value.HasUnnamedKey) :
    (∀ overrides,
      (∀ entries, value.named? = some entries →
        Reported (laid? entries overrides) (parseOptions value overrides)) ∧
      (value.named? = none → RefusedInWords (parseOptions value overrides))) ∧
    ∀ (codec : Yaml.Codec Float) (world : World) (verbosity : ℕ) (job : Job) (source : String),
      KnownHome world.surroundings → (world.document? job).isSome →
      optionSource? codec job.config? world.surroundings = some (source, value) →
      (∀ entries, value.named? = some entries → Tellable (laid? entries job.overrides)) →
      (∃ options, parseOptions value job.overrides = .ok options ∧
          world.options? codec job = some options) ∨
        ∃ fault message, parseOptions value job.overrides = .error fault ∧
          fault.message? = some message ∧
          (settled (runCompile codec world verbosity job)).TellsError world.surroundings.files
            (source ++ ": " ++ message) := by
  have hparse : ∀ overrides,
      (∀ entries, value.named? = some entries → Tellable (laid? entries overrides)) →
      (∃ options, parseOptions value overrides = .ok options) ∨
        RefusedInWords (parseOptions value overrides) := by
    intro overrides told
    cases hvalue : value.named? with
    | none => exact .inr (refusedInWords_parseOptions hnamed hvalue)
    | some entries => exact (reported_parseOptions hkeyed hvalue).ends (told entries hvalue)
  refine ⟨fun overrides => ⟨fun entries => reported_parseOptions hkeyed,
    refusedInWords_parseOptions hnamed⟩, ?_⟩
  intro codec world verbosity job source hhome hdocument hsource told
  have hload := outcome_loadOptions (overrides_notTaken job) hhome hsource
  rcases hparse job.overrides told with ⟨options, hoptions⟩ | ⟨fault, message, hfault, hmessage⟩
  · refine .inl ⟨options, hoptions, ?_⟩
    rw [hoptions] at hload
    show (loadOptions codec job.config? job.overrides world.surroundings).outcome.toOption = _
    rw [hload]
    rfl
  · refine .inr ⟨fault, message, hfault, hmessage, ?_⟩
    rw [hfault] at hload
    refine tellsError_of_fault verbosity hdocument ?_ hload
    rw [ConfigFault.message?, Yaml.words?, hmessage]
    rfl

/-! ## Three files -/

/-- An option file, and a document on the input. -/
def worldOf (text : String) : World where
  surroundings := ⟨⟨[(Location.ofText "a.yaml", .text text)], [], []⟩, Location.ofText "home", ""⟩
  input := .text "null"

/-- A job that reads the input and takes its options from the file. -/
def configuredJob : Job :=
  { Job.standard with input? := some standardSign, config? := some "a.yaml" }

theorem knownHome_worldOf (text : String) : KnownHome (worldOf text).surroundings :=
  fun hfile => absurd rfl hfile

theorem document?_worldOf (text : String) :
    ((worldOf text).document? configuredJob).isSome := by
  have hread : (Content.text "null").read = .ok "null" := by decide +kernel
  have hinput : (worldOf text).readInput (configuredJob.input?.getD "") = .ok "null" :=
    (if_pos rfl).trans hread
  rw [World.document?, hinput, Except.toOption, Option.bind_some]
  decide +kernel

theorem optionSource?_worldOf {codec : Yaml.Codec Float} {text : String} {value : Yaml Float}
    (hbreaks : String.ofList (unifyBreaks text.toList) = text) (h : codec.load text = .ok value) :
    optionSource? codec configuredJob.config? (worldOf text).surroundings =
      some ("a.yaml", value) := by
  have hread : (worldOf text).surroundings.files.read (Location.ofText "a.yaml") = .ok text := by
    rw [Files.read, worldOf, List.lookup_cons_self]
    exact congrArg Except.ok hbreaks
  have hname : (Location.ofText "a.yaml").text = "a.yaml" := by decide +kernel
  simp only [optionSource?, configuredJob, winner?, hread, h, hname, Option.bind_eq_bind,
    Option.bind_some, Except.toOption]
  rfl

/-- The value of a file that misnames its only option. -/
def misnamed : Yaml Float :=
  .mapping [(.text "fps", .bool true)]

theorem load_misnamed : Yaml.Codec.builtIn.load "fps: true\n" = .ok misnamed :=
  Yaml.load_entry "fps" "true" .text (.bool true) rfl (by decide +kernel) (by decide) rfl rfl

/-- A name that is not that of an option is refused, and the run says so. -/
theorem bad_options_misnamed :
    misnamed.IsKeyed ∧ ¬ misnamed.HasUnnamedKey ∧
      RefusedInWords (parseOptions misnamed [(OptionKey.loop.name, .bool true)]) ∧
      KnownHome (worldOf "fps: true\n").surroundings ∧
      ((worldOf "fps: true\n").document? configuredJob).isSome ∧
      optionSource? .builtIn configuredJob.config? (worldOf "fps: true\n").surroundings =
        some ("a.yaml", misnamed) ∧
      (∀ entries, misnamed.named? = some entries →
        Tellable (laid? entries configuredJob.overrides)) ∧
      (settled (runCompile .builtIn (worldOf "fps: true\n") 0 configuredJob)).TellsError
        (worldOf "fps: true\n").surroundings.files
        "a.yaml: unknown option(s) fps.  Valid options: default_frame_rate, keep_names, loop" := by
  have hkeyed : misnamed.IsKeyed := Yaml.loadsKeyed_builtIn _ _ load_misnamed
  have hnamed : ¬ misnamed.HasUnnamedKey := by
    rintro ⟨entry, hentry, hname⟩
    rw [List.mem_singleton] at hentry
    exact hname "fps" (congrArg Prod.fst hentry)
  have hhome := knownHome_worldOf "fps: true\n"
  have hdocument := document?_worldOf "fps: true\n"
  have hsource := optionSource?_worldOf (by decide +kernel) load_misnamed
  obtain ⟨hparse, hruns⟩ := bad_options_are_told hkeyed hnamed
  have hunknown : ∀ key : OptionKey, key.name ≠ "fps" := by
    intro key
    cases key <;> decide
  have told : ∀ entries, misnamed.named? = some entries →
      Tellable (laid? entries configuredJob.overrides) := by
    intro entries hentries hall
    cases hentries
    obtain ⟨key, hkey⟩ := hall "fps" (.bool true) rfl
    exact absurd hkey (hunknown key)
  refine ⟨hkeyed, hnamed, ((hparse _).1 _ rfl).unknown_name "fps" _ rfl hunknown, hhome, hdocument,
    hsource, told, ?_⟩
  have hfault : parseOptions misnamed configuredJob.overrides = .error (.unknownKeys ["fps"]) := by
    have hsplit : splitEntries [("fps", (.bool true : Yaml Float))] = ([], ["fps"]) := rfl
    show optionsOfEntries [("fps", .bool true)] = _
    simp only [optionsOfEntries, hsplit, List.isEmpty_cons, Bool.false_eq_true, if_false,
      List.mergeSort_singleton]
  obtain ⟨options, hoptions, -⟩ | ⟨fault, message, hrefused, hmessage, htells⟩ :=
    hruns _ _ 0 _ _ hhome hdocument hsource told
  · rw [hfault] at hoptions
    cases hoptions
  · rw [hfault] at hrefused
    cases hrefused
    cases hmessage
    exact htells

/-! ## What is left out -/

/-- The value of a file with a key that is no text. -/
def numbered : Yaml Float :=
  .mapping [(.num (.whole 1), .bool true)]

theorem load_numbered : Yaml.Codec.builtIn.load "1: true\n" = .ok numbered :=
  Yaml.load_entry "1" "true" (.whole 1) (.bool true) rfl (by decide +kernel) (by decide) rfl rfl

/-- The value of a file with a rate that is undefined. -/
def undefinedRate : Yaml Float :=
  .mapping [(.text OptionKey.defaultFrameRate.name,
    .num (.real (Scalar.ofNumeral (.special .notANumber))))]

theorem load_undefinedRate :
    Yaml.Codec.builtIn.load "default_frame_rate: .nan\n" = .ok undefinedRate :=
  Yaml.load_entry "default_frame_rate" ".nan" .text (.special .notANumber) rfl
    (by decide +kernel) (by decide) rfl rfl

/-- A key that is no text is refused without words, and so the run ends without any; a rate that is
undefined is kept, although it is not above zero; and a number of too many digits in the place of a
truth value is refused without words. -/
theorem unnamed_key_and_undefined_rate :
    (Yaml.Codec.builtIn.load "1: true\n" = .ok numbered ∧
        (¬ ∃ options, parseOptions numbered [] = .ok options) ∧
        ¬ RefusedInWords (parseOptions numbered []) ∧
        (settled (runCompile .builtIn (worldOf "1: true\n") 0 configuredJob)).ending ≠ .exit 1) ∧
      Yaml.Codec.builtIn.load "default_frame_rate: .nan\n" = .ok undefinedRate ∧
        (∃ options, parseOptions undefinedRate [] = .ok options ∧
          ¬ options.defaultFrameRate.IsAboveZero) ∧
        (¬ ∃ options, parseOptions (.mapping [(.text OptionKey.loop.name, hugeNumber)]) [] =
          .ok options) ∧
        ¬ RefusedInWords
          (parseOptions (.mapping [(.text OptionKey.loop.name, hugeNumber)]) []) := by
  have hkey : numbered.HasUnnamedKey := ⟨_, List.mem_singleton_self _, nofun⟩
  have hfault : parseOptions numbered [] = .error .unnamedKey := parseOptions_of_hasUnnamedKey hkey
  obtain ⟨hhuge, hwordless⟩ := parseOptions_of_not_isShown not_isShown_hugeNumber
  refine ⟨⟨load_numbered, ?_, ?_, ?_⟩, load_undefinedRate, ?_, ?_, ?_⟩
  · rintro ⟨options, hoptions⟩
    rw [hfault] at hoptions
    cases hoptions
  · rintro ⟨fault, message, hrefused, hmessage⟩
    rw [hfault] at hrefused
    cases hrefused
    cases hmessage
  · have hload := outcome_loadOptions (overrides_notTaken configuredJob) (knownHome_worldOf _)
      (optionSource?_worldOf (by decide +kernel) load_numbered)
    have hnone : parseOptions numbered configuredJob.overrides = .error .unnamedKey := hfault
    rw [hnone] at hload
    obtain ⟨notices, hrun⟩ := runCompile_of_fault 0 (document?_worldOf _) hload
    rw [hrun]
    exact nofun
  · have hspecial : Binary64.special? (Scalar.ofNumeral (.special .notANumber)) =
      some .notANumber := by decide +kernel
    refine ⟨_, rfl, ?_⟩
    show ¬ (Number.real (Scalar.ofNumeral (.special .notANumber))).IsAboveZero
    rw [Number.IsAboveZero, hspecial]
    exact not_false
  · rintro ⟨options, hoptions⟩
    cases hhuge.symm.trans hoptions
  · rintro ⟨fault, message, hrefused, hmessage⟩
    cases hhuge.symm.trans hrefused
    cases hwordless.symm.trans hmessage

end MotionScene.Cli
