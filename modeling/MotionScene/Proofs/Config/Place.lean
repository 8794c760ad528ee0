import MotionScene.Config.Lookup
import MotionScene.Proofs.Outcome

/-!
# Where options are read

Options are read in one place only: where the user says, or else where the environment says, or else
in the home directory.  The search finds this place (`find?_searchPaths`), and what the codec loads
from the file there, or an empty mapping if there is no file, is parsed under what is given by name
(`outcome_loadOptions`).
-/

namespace MotionScene

/-- The option file that the environment names. -/
def environmentFile? (surroundings : Surroundings) : Option Location :=
  if surroundings.optionFile = "" then none
  else expandHome surroundings.home (Location.ofText surroundings.optionFile)

/-- What the environment names does not lie in a home directory that is not known. -/
def KnownHome (surroundings : Surroundings) : Prop :=
  surroundings.optionFile ≠ "" → (environmentFile? surroundings).isSome

/-- The one place where options are read. -/
def winner? (name? : Option String) (surroundings : Surroundings) : Option Location :=
  let isThere := surroundings.files.isFile
  match name? with
  | some name => some (Location.ofText name)
  | none => ((environmentFile? surroundings).filter isThere).or
      ((some (userFile surroundings.home)).filter isThere)

/-- What options are read from, and what it is called: what the file holds at the one place where
they are read, or an empty mapping where there is no file. -/
def optionSource? (codec : Yaml.Codec Float) (name? : Option String)
    (surroundings : Surroundings) : Option (String × Yaml Float) :=
  match winner? name? surroundings with
  | none => some (builtInSource, .mapping [])
  | some location => do
    let text ← (surroundings.files.read location).toOption
    let value ← (codec.load text).toOption
    return (location.text, value)

theorem isFile_of_read {files : Files} {location : Location} {text : String}
    (h : files.read location = .ok text) : files.isFile location = true := by
  unfold Files.read at h
  rw [Files.isFile]
  cases hcontent : files.contents.lookup location with
  | none =>
      rw [hcontent] at h
      cases h
  | some content => rfl

section Search

variable {name? : Option String} {surroundings : Surroundings}

theorem searchPaths_eq (hhome : KnownHome surroundings) :
    searchPaths name? surroundings = some (name?.toList.map Location.ofText ++
      ((environmentFile? surroundings).toList ++ [userFile surroundings.home])) := by
  unfold KnownHome at hhome
  unfold searchPaths
  unfold environmentFile? at hhome ⊢
  by_cases hempty : surroundings.optionFile = ""
  · rw [if_pos hempty, if_pos hempty]
    rfl
  · rw [if_neg hempty] at hhome
    obtain ⟨environment, hplace⟩ := Option.isSome_iff_exists.mp (hhome hempty)
    rw [if_neg hempty, if_neg hempty, hplace]
    rfl

theorem find?_toList {α : Type} (place? : Option α) (test : α → Bool) :
    place?.toList.find? test = place?.filter test := by
  cases place? with
  | none => rfl
  | some place =>
      rw [Option.toList_some, List.find?_singleton, Option.filter_some]

/-- The search finds the one place where options are read. -/
theorem find?_searchPaths (hhome : KnownHome surroundings)
    (hthere : ∀ name ∈ name?, surroundings.files.isFile (Location.ofText name) = true) :
    ∃ locations, searchPaths name? surroundings = some locations ∧
      locations.find? surroundings.files.isFile = winner? name? surroundings := by
  refine ⟨_, searchPaths_eq hhome, ?_⟩
  cases name? with
  | some name =>
      rw [Option.toList_some, List.map_singleton, List.singleton_append,
        List.find?_cons_of_pos (hthere name rfl)]
      rfl
  | none =>
      rw [Option.toList_none, List.map_nil, List.nil_append, List.find?_append, find?_toList,
        ← Option.toList_some, find?_toList]
      rfl

end Search

section Loading

variable {codec : Yaml.Codec Float} {name? : Option String} {surroundings : Surroundings}

/-- A file that the user names is there if options are read from it. -/
theorem isFile_of_optionSource {source : String} {value : Yaml Float}
    (hsource : optionSource? codec name? surroundings = some (source, value)) :
    ∀ name ∈ name?, surroundings.files.isFile (Location.ofText name) = true := by
  rintro name ⟨⟩
  obtain ⟨text, htext, -⟩ := Option.bind_eq_some_iff.mp hsource
  exact isFile_of_read (eq_ok_of_toOption htext)

variable {overrides : List (String × Yaml Float)}
  (hnames : ∀ name ∈ [pathName, valueName, sourceName], isGiven overrides name = false)

include hnames

theorem parseCalled_eq (source value : Yaml Float) :
    parseCalled source value overrides =
      (parseOptions value overrides).mapError (.invalid source) := by
  have hdata : isGiven overrides valueName = false := hnames _ (by simp)
  rw [parseCalled, hdata, if_neg Bool.false_ne_true]
  cases parseOptions value overrides with
  | ok options => rfl
  | error fault => rfl

theorem parseGiven_eq : parseGiven overrides =
    (parseOptions (.mapping []) overrides).mapError (.invalid (.text builtInSource)) := by
  have hothers : ∀ entry ∈ overrides, entry.1 ≠ sourceName := by
    intro entry hentry
    simpa using List.any_eq_false.mp (hnames sourceName (by simp)) entry hentry
  have hgiven : overrides.lookup sourceName = none := by
    rw [List.lookup_eq_none_iff]
    exact fun entry hentry => bne_iff_ne.mpr (hothers entry hentry).symm
  have hfilter : (overrides.filter fun entry => entry.1 ≠ sourceName) = overrides := by
    rw [List.filter_eq_self]
    exact fun entry hentry => decide_eq_true (hothers entry hentry)
  rw [parseGiven, hgiven, hfilter]
  exact parseCalled_eq hnames _ _

/-- The outcome depends on what options are read from, and on what is given. -/
theorem outcome_loadOptions (hhome : KnownHome surroundings) {source : String}
    {value : Yaml Float}
    (hsource : optionSource? codec name? surroundings = some (source, value)) :
    (loadOptions codec name? overrides surroundings).outcome =
      (parseOptions value overrides).mapError (.invalid (.text source)) := by
  have hpath : isGiven overrides pathName = false := hnames _ (by simp)
  have hcalled : isGiven overrides sourceName = false := hnames _ (by simp)
  have hthere := isFile_of_optionSource hsource
  have hmissing : (name?.filter fun name =>
      !surroundings.files.isFile (Location.ofText name)) = none := by
    rw [Option.filter_eq_none_iff]
    intro name hname
    simp [hthere name hname]
  obtain ⟨locations, hlocations, hfirst⟩ := find?_searchPaths hhome hthere
  simp only [loadOptions, hpath, Bool.false_eq_true, if_false, hmissing, hlocations, hfirst]
  unfold optionSource? at hsource
  split at hsource
  · rename_i hwinner
    cases hsource
    simp only [hwinner]
    exact parseGiven_eq hnames
  · rename_i location hwinner
    obtain ⟨text, htext, hvalue⟩ := Option.bind_eq_some_iff.mp hsource
    obtain ⟨loaded, hload, hpair⟩ := Option.bind_eq_some_iff.mp hvalue
    cases hpair
    simp only [hwinner, loadFile, eq_ok_of_toOption htext, eq_ok_of_toOption hload, parseFrom,
      hcalled, Bool.false_eq_true, if_false]
    exact parseCalled_eq hnames _ _

end Loading

end MotionScene
