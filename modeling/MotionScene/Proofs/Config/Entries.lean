import MotionScene.Config.Options
import MotionScene.Proofs.Lookup

/-!
# Entries of option files

What a caller gives by name is laid over the entries of a file (`lookup_override`).  The entries of
a file have names of which no two are the same, as long as its codec keeps the keys of a mapping
apart (`Yaml.Codec.LoadsKeyed`, `Yaml.IsKeyed.nodup`).
-/

namespace MotionScene

/-! ## Laying values over entries -/

/-- What is given under a name and is no null; the last counts. -/
def given? (overrides : List (String × Yaml Float)) (name : String) : Option (Yaml Float) :=
  (overrides.filter fun entry => !entry.2.isNull).reverse.lookup name

/-- What stands under a name when a caller's values are laid over entries. -/
def laid? (entries overrides : List (String × Yaml Float)) (name : String) : Option (Yaml Float) :=
  (given? overrides name).or (entries.lookup name)

section Laying

variable (entries overrides : List (String × Yaml Float))

theorem lookup_setNamed (name other : String) (value : Yaml Float) :
    (setNamed entries name value).lookup other =
      if other = name then some value else entries.lookup other := by
  induction entries with
  | nil => exact lookup_cons_eq_ite _ _ _
  | cons entry rest ih =>
      rw [setNamed, lookup_cons_eq_ite]
      by_cases hname : entry.1 = name
      · rw [if_pos hname, lookup_cons_eq_ite, hname]
        split
        · rfl
        · rfl
      · rw [if_neg hname, lookup_cons_eq_ite, ih]
        by_cases hother : other = entry.1
        · rw [if_pos hother, if_neg (hother ▸ hname), if_pos hother]
        · rw [if_neg hother, if_neg hother]

/-- Setting an entry keeps the names, but for a new one at the end. -/
theorem names_setNamed (name : String) (value : Yaml Float) :
    (setNamed entries name value).map Prod.fst = entries.map Prod.fst ∨
      name ∉ entries.map Prod.fst ∧
        (setNamed entries name value).map Prod.fst = entries.map Prod.fst ++ [name] := by
  induction entries with
  | nil => exact .inr ⟨List.not_mem_nil, rfl⟩
  | cons entry rest ih =>
      rw [setNamed]
      by_cases hname : entry.1 = name
      · rw [if_pos hname]
        exact .inl rfl
      · rw [if_neg hname]
        rcases ih with hsame | ⟨hnew, hlast⟩
        · exact .inl (congrArg (entry.1 :: ·) hsame)
        · refine .inr ⟨?_, congrArg (entry.1 :: ·) hlast⟩
          rw [List.map_cons, List.mem_cons, not_or]
          exact ⟨fun h => hname h.symm, hnew⟩

theorem nodup_setNamed {entries : List (String × Yaml Float)}
    (hnames : (entries.map Prod.fst).Nodup) (name : String) (value : Yaml Float) :
    ((setNamed entries name value).map Prod.fst).Nodup := by
  rcases names_setNamed entries name value with hsame | ⟨hnew, hlast⟩
  · rw [hsame]
    exact hnames
  · rw [hlast]
    exact hnames.append (List.nodup_singleton name) (by simpa using hnew)

theorem lookup_override (name : String) :
    (override entries overrides).lookup name = laid? entries overrides name := by
  unfold override laid? given?
  induction overrides.filter fun entry => !entry.2.isNull generalizing entries with
  | nil => rfl
  | cons given rest ih =>
      rw [List.foldl_cons, ih, lookup_setNamed, List.reverse_cons, List.lookup_append,
        Option.or_assoc, lookup_cons_eq_ite]
      split
      · rfl
      · rfl

theorem nodup_override {entries : List (String × Yaml Float)}
    (hnames : (entries.map Prod.fst).Nodup) :
    ((override entries overrides).map Prod.fst).Nodup := by
  unfold override
  induction overrides.filter fun entry => !entry.2.isNull generalizing entries with
  | nil => exact hnames
  | cons given rest ih => exact ih (nodup_setNamed hnames given.1 given.2)

end Laying

/-! ## Names of the entries of a file -/

/-- The entries of the value of an option file by their names. -/
def Yaml.named? : Yaml Float → Option (List (String × Yaml Float))
  | .null => some []
  | .mapping entries => namedEntries entries
  | _ => none

namespace Yaml

/-- No two keys count as one. -/
def KeysDiffer (entries : List (Yaml Float × Yaml Float)) : Prop :=
  entries.Pairwise fun first later => first.1.sameKey later.1 = false

/-- The keys of a mapping differ; other values have none. -/
def IsKeyed : Yaml Float → Prop
  | .mapping entries => KeysDiffer entries
  | _ => True

/-- The mappings that are loaded have keys that differ. -/
def Codec.LoadsKeyed (codec : Codec Float) : Prop :=
  ∀ text value, codec.load text = .ok value → value.IsKeyed

theorem namedEntries_cons {entry : Yaml Float × Yaml Float}
    {rest : List (Yaml Float × Yaml Float)} {named : List (String × Yaml Float)}
    (h : namedEntries (entry :: rest) = some named) :
    ∃ name later, entry.1 = .text name ∧ namedEntries rest = some later ∧
      named = (name, entry.2) :: later := by
  obtain ⟨key, value⟩ := entry
  cases key with
  | text name =>
      obtain ⟨later, hlater, rfl⟩ := Option.map_eq_some_iff.mp h
      exact ⟨name, later, rfl, hlater, rfl⟩
  | null | bool | num | date | list | mapping | other => cases h

theorem mem_of_namedEntries {entries : List (Yaml Float × Yaml Float)}
    {named : List (String × Yaml Float)} (h : namedEntries entries = some named) {name : String}
    (hname : name ∈ named.map Prod.fst) : ∃ entry ∈ entries, entry.1 = .text name := by
  induction entries generalizing named with
  | nil =>
      cases h
      cases hname
  | cons entry rest ih =>
      obtain ⟨first, later, hkey, hlater, rfl⟩ := namedEntries_cons h
      rcases List.mem_cons.mp hname with rfl | hrest
      · exact ⟨entry, List.mem_cons_self, hkey⟩
      · obtain ⟨other, hother, hsame⟩ := ih hlater hrest
        exact ⟨other, List.mem_cons_of_mem _ hother, hsame⟩

theorem nodup_namedEntries {entries : List (Yaml Float × Yaml Float)} (hkeys : KeysDiffer entries)
    {named : List (String × Yaml Float)} (h : namedEntries entries = some named) :
    (named.map Prod.fst).Nodup := by
  unfold KeysDiffer at hkeys
  induction entries generalizing named with
  | nil =>
      cases h
      exact List.nodup_nil
  | cons entry rest ih =>
      rw [List.pairwise_cons] at hkeys
      obtain ⟨name, later, hkey, hlater, rfl⟩ := namedEntries_cons h
      refine List.nodup_cons.mpr ⟨fun hmem => ?_, ih hkeys.2 hlater⟩
      obtain ⟨other, hother, hsame⟩ := mem_of_namedEntries hlater hmem
      have hdiffer := hkeys.1 other hother
      rw [hkey, hsame, sameKey, beq_self_eq_true] at hdiffer
      cases hdiffer

theorem IsKeyed.nodup {value : Yaml Float} (hkeyed : value.IsKeyed)
    {entries : List (String × Yaml Float)} (h : value.named? = some entries) :
    (entries.map Prod.fst).Nodup := by
  cases value with
  | null =>
      cases h
      exact List.nodup_nil
  | mapping keyed => exact nodup_namedEntries hkeyed h
  | bool | num | date | text | list | other => cases h

end Yaml

end MotionScene
