import Mathlib.Data.List.Nodup

/-!
# Looking up in lists of pairs

A lookup takes the first pair with a name.  Where no two pairs have the same name, the pairs of a
list are what can be looked up in it (`mem_of_lookup`, `lookup_eq_some_of_mem`).
-/

namespace MotionScene

variable {α β : Type} [DecidableEq α]

theorem lookup_cons_eq_ite (entry : α × β) (rest : List (α × β)) (name : α) :
    (entry :: rest).lookup name = if name = entry.1 then some entry.2 else rest.lookup name := by
  rw [List.lookup_cons]
  by_cases h : name = entry.1
  · rw [beq_iff_eq.mpr h, if_pos h]
  · rw [beq_eq_false_iff_ne.mpr h, if_neg h]

theorem mem_of_lookup {entries : List (α × β)} {name : α} {value : β}
    (h : entries.lookup name = some value) : (name, value) ∈ entries := by
  obtain ⟨before, behind, rfl, -⟩ := List.lookup_eq_some_iff.mp h
  exact List.mem_append_right _ List.mem_cons_self

theorem lookup_eq_some_of_mem {entries : List (α × β)} (hnames : (entries.map Prod.fst).Nodup)
    {entry : α × β} (h : entry ∈ entries) : entries.lookup entry.1 = some entry.2 := by
  induction entries with
  | nil => cases h
  | cons first rest ih =>
      rw [List.map_cons, List.nodup_cons] at hnames
      rw [lookup_cons_eq_ite]
      rcases List.mem_cons.mp h with rfl | hrest
      · rw [if_pos rfl]
      · have hne : entry.1 ≠ first.1 := fun heq =>
          hnames.1 (heq ▸ List.mem_map_of_mem hrest)
        rw [if_neg hne, ih hnames.2 hrest]

/-- Leaving out the entries with one name does not change what has another one. -/
theorem lookup_filter_of_ne {name other : α} (hother : other ≠ name) (entries : List (α × β)) :
    (entries.filter fun entry => entry.1 ≠ name).lookup other = entries.lookup other := by
  induction entries with
  | nil => rfl
  | cons entry rest ih =>
      by_cases hname : entry.1 = name
      · rw [List.filter_cons_of_neg (by simpa using hname), ih, lookup_cons_eq_ite,
          if_neg (hname ▸ hother)]
      · rw [List.filter_cons_of_pos (by simpa using hname), lookup_cons_eq_ite,
          lookup_cons_eq_ite, ih]

end MotionScene
