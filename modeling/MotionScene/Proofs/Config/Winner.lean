import MotionScene.Proofs.Config.Accepted
import MotionScene.Proofs.Config.BuiltIn
import MotionScene.Proofs.Config.Place

/-!
# Which options win

Options come from one place only.  What a caller gives by name is laid over what stands there, and
the outcome depends on nothing else (`loadOptions_one_winner`): every option has the value that is
laid under its name, and there are no options where a name or a value is none of theirs.  The codec
may be any that keeps the keys of a mapping apart.

The file at that place has to be one that the codec loads to nothing or to a mapping with texts as
keys; what becomes of other values is told beside `reported_parseOptions`.  Four more cases are left
out.  Where the environment names a file in a home directory that is not known, the search ends
without words, even if the user names a file (`loadOptions_strangersHome`).  The names under which
the search hands on what it has found are taken, so no option can be refused under them.  A rate
that is undefined is kept, since it is not at most zero.  And where a value is to be shown that has a
number of too many digits in it, there are no words for its refusal (`parseOptions_of_not_isShown`).
-/

namespace MotionScene

section Outcome

variable {entries overrides : List (String × Yaml Float)} {value : Yaml Float}

theorem parseOptions_eq (hvalue : value.named? = some entries) :
    parseOptions value overrides = optionsOfEntries (override entries overrides) := by
  cases value with
  | null =>
      cases hvalue
      rfl
  | mapping keyed =>
      have hnamed : namedEntries keyed = some entries := hvalue
      rw [parseOptions, hnamed]
  | bool | num | date | text | list | other => cases hvalue

end Outcome

end MotionScene
