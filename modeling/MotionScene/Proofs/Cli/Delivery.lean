import MotionScene.Cli.Run
import MotionScene.Proofs.Lookup

/-!
# What a run writes

A command prepares its whole result before it writes any of it.  So a run that ends in another way
than with success leaves the output empty and all files as they were, and a run that succeeds leaves
its result at one place, on the output or in a file, and changes nothing else
(`runs_write_all_or_nothing`).
-/

namespace MotionScene.Cli

/-! ## Results -/

/-- The document that a job is about, if there is one to read. -/
def World.document? (world : World) (job : Job) : Option (Value Float) :=
  (world.readInput (job.input?.getD "")).toOption.bind Json.parse?

section Results

variable (codec : Yaml.Codec Float) (world : World) (job : Job)

/-- The options of a job, if there are valid ones. -/
def World.options? : Option (Options Float) :=
  (loadOptions codec job.config? (if job.loop then [(OptionKey.loop.name, .bool true)] else [])
    world.surroundings).outcome.toOption

/-- The text of the scene that a job compiles its document to. -/
def World.compiledText? : Option String := do
  let document ← world.document? job
  let options ← world.options? codec job
  let scene ← (compile document options).outcome.toOption
  job.format.write codec (some job.indent) scene.toValue

/-- The text of the document that a job migrates its own to. -/
def World.migratedText? : Option String := do
  let document ← world.document? job
  let migrated ← (migrate document).outcome.toOption
  Format.json.write codec (some job.indent) (.object migrated.members)

end Results

/-- The file that a job writes; the output where there is none. -/
def Job.destination? (job : Job) : Option Location :=
  (job.output?.filter (· ≠ standardSign)).map Location.ofText

/-- A text can be written to where a job wants it. -/
def CanWrite (files : Files) (job : Job) (text : String) : Prop :=
  ∀ location ∈ job.destination?, ∃ after, files.write location text = .ok after

namespace Outcome

/-- A run that has written nothing: neither on the output nor to any file. -/
structure WroteNothing (outcome : Outcome) (before : Files) : Prop where
  output : outcome.output = ""
  files : outcome.files before = before

/-- A run that has written a text to where a job wants it, and nothing else. -/
def Delivers (outcome : Outcome) (before : Files) (job : Job) (text : String) : Prop :=
  match job.destination? with
  | none => outcome.output = text ∧ outcome.files before = before
  | some location => outcome.output = "" ∧
      (outcome.files before).contents.lookup location = some (.text text) ∧
      (∀ other, other ≠ location →
        (outcome.files before).contents.lookup other = before.contents.lookup other) ∧
      (outcome.files before).directories = before.directories

end Outcome

/-- A run writes all of a text, if there is one, or nothing at all. -/
structure WritesAllOrNothing (files : Files) (job : Job) (text? : Option String)
    (outcome : Outcome) : Prop where
  succeeds : outcome.ending = .exit 0 ↔
    ∃ text, text? = some text ∧ CanWrite files job (withFinalBreak text)
  delivers : outcome.ending = .exit 0 →
    ∃ text, text? = some text ∧ outcome.Delivers files job (withFinalBreak text)
  nothing : outcome.ending ≠ .exit 0 → outcome.WroteNothing files
  code : ∀ code, outcome.ending = .exit code → code = 0 ∨ code = 1

/-! ## Runs that end early -/

namespace Outcome

/-- A run that has nothing to write so far. -/
structure IsSilent (outcome : Outcome) : Prop where
  output : outcome.output = ""
  written : outcome.written? = none

/-- A run that has ended without success. -/
structure Refuses (outcome : Outcome) : Prop extends IsSilent outcome where
  code : ∀ code, outcome.ending = .exit code → code = 1

theorem IsSilent.wroteNothing {outcome : Outcome} (h : outcome.IsSilent) (before : Files) :
    outcome.WroteNothing before :=
  ⟨h.output, by rw [files, h.written]⟩

theorem isSilent_blank : blank.IsSilent := ⟨rfl, rfl⟩

theorem IsSilent.report {outcome : Outcome} (h : outcome.IsSilent) (text : String) :
    (outcome.report text).IsSilent := ⟨h.output, h.written⟩

theorem IsSilent.endWith {outcome : Outcome} (h : outcome.IsSilent) {ending : Ending}
    (hending : ∀ code, ending = .exit code → code = 1) : (outcome.endWith ending).Refuses :=
  ⟨⟨h.output, h.written⟩, hending⟩

theorem exit_one : ∀ code, Ending.exit 1 = .exit code → code = 1 := by
  rintro code ⟨⟩
  rfl

theorem IsSilent.fail {outcome : Outcome} (h : outcome.IsSilent) (fault : Fault) :
    (outcome.fail fault).Refuses := by
  unfold Outcome.fail
  split
  · exact (h.report _).endWith exit_one
  · exact (h.report _).endWith exit_one
  · exact h.endWith nofun

/-- A run that refuses has nothing to write. -/
theorem Refuses.writesNothing {outcome : Outcome} (h : outcome.Refuses) (files : Files)
    (job : Job) : WritesAllOrNothing files job none outcome where
  succeeds := by
    constructor
    · intro hending
      exact absurd (h.code 0 hending) Nat.zero_ne_one
    · rintro ⟨text, htext, -⟩
      cases htext
  delivers hending := absurd (h.code 0 hending) Nat.zero_ne_one
  nothing _ := h.wroteNothing files
  code code hending := .inr (h.code code hending)

end Outcome

/-! ## Delivery -/

/-- A file that was written holds the text, and the other files hold what they held. -/
theorem lookup_write {files after : Files} {place : Location} {text : String}
    (h : files.write place text = .ok after) :
    after.contents.lookup place = some (.text text) ∧
      (∀ other, other ≠ place → after.contents.lookup other = files.contents.lookup other) ∧
      after.directories = files.directories := by
  unfold Files.write at h
  split at h
  · cases h
  · split at h
    · split at h
      · cases h
      · cases h
        refine ⟨List.lookup_cons_self, fun other hother => ?_, rfl⟩
        rw [lookup_cons_eq_ite, if_neg hother]
        exact lookup_filter_of_ne hother files.contents
    · split at h <;> cases h

section Deliver

variable {files : Files} {job : Job} {outcome : Outcome}

/-- Messages are not among what a run writes. -/
theorem WritesAllOrNothing.report {text? : Option String}
    (h : WritesAllOrNothing files job text? outcome) (words : String) :
    WritesAllOrNothing files job text? (outcome.report words) where
  succeeds := h.succeeds
  delivers := h.delivers
  nothing hending := ⟨(h.nothing hending).output, (h.nothing hending).files⟩
  code := h.code

theorem WritesAllOrNothing.announce {text? : Option String}
    (h : WritesAllOrNothing files job text? outcome) (elements : Nat) :
    WritesAllOrNothing files job text? (outcome.announce job elements) := by
  unfold Outcome.announce
  split
  · split
    · exact h
    · exact h.report _
  · exact h

theorem WritesAllOrNothing.of_delivers {text : String} (hending : outcome.ending = .exit 0)
    (hcan : CanWrite files job (withFinalBreak text))
    (h : outcome.Delivers files job (withFinalBreak text)) :
    WritesAllOrNothing files job (some text) outcome where
  succeeds := ⟨fun _ => ⟨text, rfl, hcan⟩, fun _ => hending⟩
  delivers _ := ⟨text, rfl, h⟩
  nothing hne := absurd hending hne
  code code hcode := by
    rw [hending] at hcode
    cases hcode
    exact .inl rfl

theorem WritesAllOrNothing.of_unwritten {text : String} {fault : WriteFault}
    (hending : outcome.ending = .unwritten fault)
    (hcannot : ¬ CanWrite files job (withFinalBreak text)) (h : outcome.WroteNothing files) :
    WritesAllOrNothing files job (some text) outcome where
  succeeds := by
    constructor
    · intro hexit
      rw [hending] at hexit
      cases hexit
    · rintro ⟨_, ⟨⟩, hcan⟩
      exact absurd hcan hcannot
  delivers hexit := by
    rw [hending] at hexit
    cases hexit
  nothing _ := h
  code code hcode := by
    rw [hending] at hcode
    cases hcode

/-- A run that has succeeded so far writes its result where the job wants it, or fails to. -/
theorem Outcome.IsSilent.deliver (h : outcome.IsSilent) (hending : outcome.ending = .exit 0)
    (text : String) :
    WritesAllOrNothing files job (some text) (outcome.deliver files job text) := by
  unfold Outcome.deliver
  cases hname : job.output?.filter (· ≠ standardSign) with
  | none =>
      have hplace : job.destination? = none := by rw [Job.destination?, hname]; rfl
      refine .of_delivers hending (by simp [CanWrite, hplace]) ?_
      rw [Outcome.Delivers, hplace]
      exact ⟨by rw [h.output, String.empty_append], by rw [Outcome.files, h.written]⟩
  | some name =>
      have hplace : job.destination? = some (Location.ofText name) := by
        rw [Job.destination?, hname]; rfl
      cases hwrite : files.write (Location.ofText name) (withFinalBreak text) with
      | ok after =>
          have hcan : CanWrite files job (withFinalBreak text) := by
            simp [CanWrite, hplace, hwrite]
          refine .of_delivers (by simpa only [hwrite] using hending) hcan ?_
          have hplaces := lookup_write hwrite
          simp only [Outcome.Delivers, hplace, Outcome.files, hwrite]
          exact ⟨h.output, hplaces⟩
      | error fault =>
          have hcannot : ¬ CanWrite files job (withFinalBreak text) := by
            simp [CanWrite, hplace, hwrite]
          simp only [hwrite]
          exact .of_unwritten rfl hcannot
            ⟨h.output, by simp only [Outcome.files, Outcome.endWith, h.written]⟩

/-- A result without a text is not written. -/
theorem Outcome.IsSilent.finish (h : outcome.IsSilent) (hending : outcome.ending = .exit 0)
    (text? : Option String) :
    WritesAllOrNothing files job text? (outcome.finish files job text?) := by
  cases text? with
  | none =>
      have hrefuses : (outcome.endWith .unprinted).Refuses := h.endWith nofun
      exact hrefuses.writesNothing files job
  | some text => exact h.deliver hending text

end Deliver

/-! ## Reading -/

variable (codec : Yaml.Codec Float) (world : World) (verbosity : Nat) (job : Job)

theorem toOption_readDocument : (world.readDocument job).toOption = world.document? job := by
  unfold World.readDocument World.document?
  dsimp only
  cases world.readInput (job.input?.getD "") with
  | error fault => rfl
  | ok text =>
      dsimp only [Except.toOption, Option.bind_some]
      cases (Json.parse? text : Option (Value Float)) with
      | none => rfl
      | some document => rfl

theorem readDocument_refuses {outcome : Outcome} (h : world.readDocument job = .error outcome) :
    outcome.Refuses := by
  have hrefuses (words : String) : ((Outcome.blank.report words).endWith (.exit 1)).Refuses :=
    (Outcome.isSilent_blank.report words).endWith Outcome.exit_one
  unfold World.readDocument at h
  dsimp only at h
  split at h
  · cases h
    exact hrefuses _
  · split at h
    · cases h
      exact hrefuses _
    · cases h

theorem toOption_readOptions :
    (world.readOptions codec verbosity job).toOption.map Prod.snd = world.options? codec job := by
  unfold World.readOptions World.options?
  dsimp only
  split
  next options hlookup =>
    rw [hlookup]
    rfl
  next fault hlookup =>
    rw [hlookup]
    split <;> rfl

theorem readOptions_silent {outcome : Outcome} {options : Options Float}
    (h : world.readOptions codec verbosity job = .ok (outcome, options)) :
    outcome.IsSilent ∧ outcome.ending = .exit 0 := by
  unfold World.readOptions at h
  dsimp only at h
  split at h
  · cases h
    exact ⟨Outcome.isSilent_blank.report _, rfl⟩
  · split at h <;> cases h

theorem readOptions_refuses {outcome : Outcome}
    (h : world.readOptions codec verbosity job = .error outcome) : outcome.Refuses := by
  unfold World.readOptions at h
  dsimp only at h
  split at h
  · cases h
  · split at h
    · cases h
      exact ((Outcome.isSilent_blank.report _).report _).endWith Outcome.exit_one
    · cases h
      exact (Outcome.isSilent_blank.report _).endWith nofun

/-! ## Runs -/

theorem runCompile_writes :
    WritesAllOrNothing world.surroundings.files job (world.compiledText? codec job)
      (settled (runCompile codec world verbosity job)) := by
  unfold runCompile World.compiledText?
  rw [← toOption_readDocument, ← toOption_readOptions codec world verbosity]
  cases hdocument : world.readDocument job with
  | error outcome => exact (readDocument_refuses world job hdocument).writesNothing _ _
  | ok document =>
      cases hoptions : world.readOptions codec verbosity job with
      | error outcome =>
          exact (readOptions_refuses codec world verbosity job hoptions).writesNothing _ _
      | ok read =>
          obtain ⟨outcome, options⟩ := read
          obtain ⟨hsilent, hending⟩ := readOptions_silent codec world verbosity job hoptions
          have hreport := hsilent.report (noticeText verbosity (compile document options).trace)
          dsimp only [bind, Except.bind, Except.toOption, Option.map_some, Option.bind_some]
          cases hscene : (compile document options).outcome with
          | error fault => exact (hreport.fail fault).writesNothing _ _
          | ok scene => exact (hreport.finish hending _).announce _

theorem runNormalize_writes :
    WritesAllOrNothing world.surroundings.files job (world.migratedText? codec job)
      (settled (runNormalize codec world verbosity job)) := by
  unfold runNormalize World.migratedText?
  rw [← toOption_readDocument]
  cases hdocument : world.readDocument job with
  | error outcome => exact (readDocument_refuses world job hdocument).writesNothing _ _
  | ok document =>
      have hreport := Outcome.isSilent_blank.report (noticeText verbosity (migrate document).trace)
      dsimp only [bind, Except.bind, Except.toOption, Option.bind_some]
      cases hmigrated : (migrate document).outcome with
      | error fault => exact (hreport.fail fault).writesNothing _ _
      | ok migrated => exact hreport.finish rfl _

/-- Whatever there is to read, and whatever the codec makes of it, each command writes its whole
result to the one place where the job wants it, or writes nothing. -/
theorem runs_write_all_or_nothing (codec : Yaml.Codec Float) (world : World) (verbosity : Nat)
    (job : Job) :
    WritesAllOrNothing world.surroundings.files job (world.compiledText? codec job)
        (settled (runCompile codec world verbosity job)) ∧
      WritesAllOrNothing world.surroundings.files job (world.migratedText? codec job)
        (settled (runNormalize codec world verbosity job)) :=
  ⟨runCompile_writes codec world verbosity job, runNormalize_writes codec world verbosity job⟩

end MotionScene.Cli
