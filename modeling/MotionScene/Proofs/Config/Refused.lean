import MotionScene.Proofs.Config.Winner

/-!
# Options that are refused

A value whose keys are all texts makes up options under what a caller gives, or is refused in words;
and it is refused where a name is not that of an option or the rate is not greater than zero
(`reported_parseOptions`, `refusedInWords_parseOptions`).

Three cases are left out.  A key that is no text cannot be reported, so the value is refused without
words (`parseOptions_of_hasUnnamedKey`).  A number of too many digits cannot be shown, and so there
are no words for a value of the wrong kind that has one in it (`parseOptions_of_not_isShown`).  And
a rate that is undefined is not at most zero, so it is kept.
-/

namespace MotionScene

/-- A mapping with a key that is no text. -/
def Yaml.HasUnnamedKey : Yaml Float → Prop
  | .mapping entries => ∃ entry ∈ entries, ∀ name, entry.1 ≠ .text name
  | _ => False

/-- A number that is undefined. -/
def Yaml.IsUndefined : Yaml Float → Prop
  | .num n => n.IsUndefined
  | _ => False

/-- There are no options, and there are words for the reason. -/
def RefusedInWords (outcome : Except (OptionFault Float) (Options Float)) : Prop :=
  ∃ fault message, outcome = .error fault ∧ fault.message? = some message

/-- What is laid under names becomes options with these values or is refused in words, and is
refused where a name is not that of an option or the rate is no number greater than zero.  Words
that show a value take one that can be shown. -/
structure Reported (laid : String → Option (Yaml Float))
    (outcome : Except (OptionFault Float) (Options Float)) : Prop where
  ends : Tellable laid → (∃ options, outcome = .ok options) ∨ RefusedInWords outcome
  values : ∀ options, outcome = .ok options → ∀ key,
    options.value key = (laid key.name).getD (Options.standard.value key)
  unknown_name : ∀ name given, laid name = some given →
    (∀ key : OptionKey, key.name ≠ name) → RefusedInWords outcome
  bad_rate : ∀ given, laid OptionKey.defaultFrameRate.name = some given →
    ¬ OptionKey.defaultFrameRate.Takes given → ¬ given.IsUndefined →
    (∀ options, outcome ≠ .ok options) ∧ (Tellable laid → RefusedInWords outcome)

/-! ## Parsing -/

section Parsing

variable {overrides : List (String × Yaml Float)} {value : Yaml Float}

theorem reported_optionsOfEntries {entries : List (String × Yaml Float)}
    (hnames : (entries.map Prod.fst).Nodup) {laid : String → Option (Yaml Float)}
    (hlaid : ∀ name, entries.lookup name = laid name) :
    Reported laid (optionsOfEntries entries) := by
  have hends : Tellable laid → (∃ options, optionsOfEntries entries = .ok options) ∨
      RefusedInWords (optionsOfEntries entries) := by
    intro told
    cases hoptions : optionsOfEntries entries with
    | ok options => exact .inl ⟨options, rfl⟩
    | error fault =>
        obtain ⟨message, hmessage⟩ := message_of_optionsOfEntries hnames hlaid told hoptions
        exact .inr ⟨fault, message, rfl, hmessage⟩
  have hvalues : ∀ options, optionsOfEntries entries = .ok options → ∀ key,
      options.value key = (laid key.name).getD (Options.standard.value key) := by
    intro options hoptions key
    rw [← hlaid]
    exact value_of_optionsOfEntries hnames (optionsOfEntries_eq_ok_iff.mp hoptions).2.1 key
  refine ⟨hends, hvalues, fun name given hgiven hunknown => ?_,
    fun given hgiven hbad hdefined => ?_⟩
  · refine message_of_unknown fun hall => ?_
    rw [← hlaid] at hgiven
    obtain ⟨key, hkey⟩ := (splitEntries_snd_eq_nil_iff entries).mp hall _ (mem_of_lookup hgiven)
    exact hunknown key hkey
  · have hnone : ∀ options, optionsOfEntries entries ≠ .ok options := by
      intro options hoptions
      have hrate := hvalues options hoptions .defaultFrameRate
      rw [hgiven, Option.getD_some] at hrate
      rw [← hrate] at hbad hdefined
      exact hbad ((Number.atMost_zero hdefined).mp (optionsOfEntries_eq_ok_iff.mp hoptions).2.2)
    exact ⟨hnone, fun told => (hends told).resolve_left fun ⟨options, hoptions⟩ =>
      hnone options hoptions⟩

theorem reported_parseOptions (hkeyed : value.IsKeyed) {entries : List (String × Yaml Float)}
    (hvalue : value.named? = some entries) :
    Reported (laid? entries overrides) (parseOptions value overrides) := by
  rw [parseOptions_eq hvalue]
  exact reported_optionsOfEntries (nodup_override overrides (hkeyed.nodup hvalue))
    (lookup_override entries overrides)

theorem namedEntries_eq_none_iff {entries : List (Yaml Float × Yaml Float)} :
    namedEntries entries = none ↔ ∃ entry ∈ entries, ∀ name, entry.1 ≠ .text name := by
  induction entries with
  | nil => simp [namedEntries]
  | cons entry rest ih =>
      obtain ⟨key, value⟩ := entry
      cases key with
      | text name => simp [namedEntries, ih]
      | null | bool | num | date | list | mapping | other => simp [namedEntries]

/-- What is neither null nor a mapping is refused by its kind. -/
theorem refusedInWords_parseOptions (hnamed : ¬ value.HasUnnamedKey)
    (hvalue : value.named? = none) : RefusedInWords (parseOptions value overrides) := by
  cases value with
  | null => cases hvalue
  | mapping entries => exact absurd (namedEntries_eq_none_iff.mp hvalue) hnamed
  | bool | num | date | text | list | other => exact ⟨_, _, rfl, rfl⟩

theorem parseOptions_of_hasUnnamedKey (h : value.HasUnnamedKey) :
    parseOptions value overrides = .error .unnamedKey := by
  cases value with
  | mapping entries => rw [parseOptions, namedEntries_eq_none_iff.mpr h]
  | null | bool | num | date | text | list | other => exact h.elim

/-- There are no words for the refusal of a value that cannot be shown. -/
theorem parseOptions_of_not_isShown {given : Yaml Float} (h : ¬ given.IsShown) :
    parseOptions (.mapping [(.text OptionKey.loop.name, given)]) [] =
        .error (.wrongSort .loop given) ∧
      (OptionFault.wrongSort .loop given).message? = none := by
  constructor
  · cases given with
    | bool b => cases b <;> exact absurd rfl h
    | null | num | date | text | list | mapping | other => rfl
  · rw [OptionFault.message?, Option.not_isSome_iff_eq_none.mp h]
    rfl

/-- A number of too many digits. -/
def hugeNumber : Yaml Float :=
  .num (.whole (Nat.pow 10 Text.maximalDigits))

theorem not_isShown_hugeNumber : ¬ hugeNumber.IsShown := by
  rw [hugeNumber, Yaml.IsShown, Yaml.shown?, Number.hasText, Int.natAbs_natCast,
    decide_eq_false (lt_irrefl _)]
  exact Bool.false_ne_true

end Parsing

end MotionScene
