import MotionScene.Proofs.Layer.Cycle

/-!
# A search that remembers

Whether an index lies on a cycle can be found out without a count of steps, by following the links
and remembering what has been passed: the search ends where the links end, where it is back at the
index, or where it meets another index once more.  It ends after at most as many rounds as there
are links (`exists_search`), since it remembers one more index with a parent in each round but the
last, and its answer is that of the search by counting (`search_eq_closesCycle`).  Both find the
indices from which one step or more lead back, and no index from which the links only lead into a
cycle (`closesCycle_exact`).
-/

namespace MotionScene

open Function

variable {κ : Type} [DecidableEq κ] {links : List (κ × κ)}

/-- The search from an index on for a target, and its answer after a number of rounds.  Where there
is no index to go on from, the search is over. -/
inductive CycleSearch (links : List (κ × κ)) (target : κ) : ℕ → List κ → Option κ → Bool → Prop
  | ended {seen : List κ} : CycleSearch links target 0 seen none false
  | back {seen : List κ} : CycleSearch links target 1 seen (some target) true
  | again {seen : List κ} {current : κ} :
    current ≠ target → current ∈ seen → CycleSearch links target 1 seen (some current) false
  | onward {rounds : ℕ} {seen : List κ} {current : κ} {answer : Bool} :
    current ≠ target → current ∉ seen →
      CycleSearch links target rounds (current :: seen) (parentOf links current) answer →
      CycleSearch links target (rounds + 1) seen (some current) answer

/-! ## The search ends -/

/-- The links from indices that a search has not passed. -/
def untried (links : List (κ × κ)) (seen : List κ) : List (κ × κ) :=
  links.filter fun link => link.1 ∉ seen

theorem untried_cons (current : κ) (seen : List κ) :
    untried links (current :: seen) = (untried links seen).filter fun link => link.1 ≠ current := by
  rw [untried, untried, List.filter_filter]
  refine List.filter_congr fun link _ => ?_
  simp only [List.mem_cons, not_or, Bool.decide_and]

/-- An index with a parent is tried once. -/
theorem length_untried_cons {current : κ} {seen : List κ} (hnew : current ∉ seen)
    (hparent : (parentOf links current).isSome) :
    (untried links (current :: seen)).length < (untried links seen).length := by
  obtain ⟨link, hlink, rfl⟩ := List.mem_map.mp (mem_of_parentOf_isSome hparent)
  rw [untried_cons]
  refine List.length_filter_lt_length_iff_exists.mpr ⟨link, ?_, by simp⟩
  exact List.mem_filter.mpr ⟨hlink, decide_eq_true hnew⟩

/-- However far a search has come, it ends after one round more than there are links to try. -/
theorem exists_search (links : List (κ × κ)) (target : κ) (seen : List κ) (current? : Option κ) :
    ∃ rounds answer, CycleSearch links target rounds seen current? answer ∧
      rounds ≤ (untried links seen).length + 1 := by
  induction hcount : (untried links seen).length using Nat.strong_induction_on
    generalizing seen current? with
  | _ count ih =>
    cases current? with
    | none => exact ⟨0, false, .ended, Nat.zero_le _⟩
    | some current =>
        by_cases hback : current = target
        · subst hback
          exact ⟨1, true, .back, Nat.le_add_left 1 count⟩
        by_cases hseen : current ∈ seen
        · exact ⟨1, false, .again hback hseen, Nat.le_add_left 1 count⟩
        cases hparent : parentOf links current with
        | none =>
            refine ⟨1, false, .onward hback hseen ?_, Nat.le_add_left 1 count⟩
            rw [hparent]
            exact .ended
        | some parent =>
            have hless := length_untried_cons hseen (by rw [hparent, Option.isSome_some])
            rw [hcount] at hless
            obtain ⟨rounds, answer, hsearch, hrounds⟩ :=
              ih _ hless (current :: seen) (parentOf links current) rfl
            exact ⟨rounds + 1, answer, .onward hback hseen hsearch, by omega⟩

/-- The search from the parent of an index on takes at most as many rounds as there are links. -/
theorem exists_search_le_length (links : List (κ × κ)) (index : κ) :
    ∃ rounds answer, CycleSearch links index rounds [index] (parentOf links index) answer ∧
      rounds ≤ links.length := by
  cases hparent : parentOf links index with
  | none => exact ⟨0, false, .ended, Nat.zero_le _⟩
  | some parent =>
      obtain ⟨rounds, answer, hsearch, hrounds⟩ :=
        exists_search links index [index] (some parent)
      have hless : (untried links [index]).length < (untried links []).length :=
        length_untried_cons List.not_mem_nil (by rw [hparent, Option.isSome_some])
      have hall : (untried links []).length ≤ links.length := List.length_filter_le _ _
      exact ⟨rounds, answer, hsearch, by omega⟩

/-! ## The search answers right -/

/-- What a search remembers after some steps from its target: indices that these steps pass, none of
which is the target once more. -/
structure Passed (links : List (κ × κ)) (target : κ) (steps : ℕ) (seen : List κ) : Prop where
  passed : ∀ index ∈ seen, ∃ taken ≤ steps, (climb links)^[taken] (some target) = some index
  no_return : ∀ taken, 0 < taken → taken ≤ steps →
    (climb links)^[taken] (some target) ≠ some target

theorem passed_start (target : κ) : Passed links target 0 [target] where
  passed _ hindex := ⟨0, le_rfl, congrArg some (List.mem_singleton.mp hindex).symm⟩
  no_return _ hpos hle := absurd hpos (Nat.not_lt.mpr hle)

section Passed

variable {target current : κ} {steps : ℕ} {seen : List κ}

theorem Passed.onward (h : Passed links target steps seen)
    (hcurrent : (climb links)^[steps + 1] (some target) = some current) (hne : current ≠ target) :
    Passed links target (steps + 1) (current :: seen) where
  passed index hindex := by
    rcases List.mem_cons.mp hindex with rfl | hseen
    · exact ⟨steps + 1, le_rfl, hcurrent⟩
    · obtain ⟨taken, htaken, hleads⟩ := h.passed index hseen
      exact ⟨taken, Nat.le_succ_of_le htaken, hleads⟩
  no_return taken hpos hle hreturn := by
    rcases Nat.le_succ_iff.mp hle with hle | rfl
    · exact h.no_return taken hpos hle hreturn
    · exact hne (Option.some_inj.mp (hcurrent.symm.trans hreturn))

/-- The links do not end on the way round a cycle. -/
theorem ne_none_of_periodic (h : some target ∈ periodicPts (climb links)) (taken : ℕ) :
    (climb links)^[taken] (some target) ≠ none := by
  intro hend
  obtain ⟨period, hpos, hperiod⟩ := h
  have hround : (climb links)^[period * taken] (some target) = some target :=
    hperiod.mul_const taken
  have hsplit : period * taken = (period * taken - taken) + taken :=
    (Nat.sub_add_cancel (Nat.le_mul_of_pos_left taken hpos)).symm
  rw [hsplit, iterate_add_apply, hend, iterate_climb_none] at hround
  cases hround

/-- On a cycle no index is met once more before the target. -/
theorem Passed.not_periodic (h : Passed links target steps seen) (hseen : current ∈ seen)
    (hcurrent : (climb links)^[steps + 1] (some target) = some current) (hne : current ≠ target) :
    some target ∉ periodicPts (climb links) := by
  intro hcycle
  have hlater : steps + 1 < minimalPeriod (climb links) (some target) := by
    by_contra hle
    rcases Nat.le_succ_iff.mp (not_lt.mp hle) with hle | heq
    · exact h.no_return _ (minimalPeriod_pos_of_mem_periodicPts hcycle) hle iterate_minimalPeriod
    · have hreturn := iterate_minimalPeriod (f := climb links) (x := some target)
      rw [heq] at hreturn
      exact hne (Option.some_inj.mp (hcurrent.symm.trans hreturn))
  obtain ⟨taken, htaken, hleads⟩ := h.passed current hseen
  have hsame : taken = steps + 1 := iterate_injOn_Iio_minimalPeriod
    (Set.mem_Iio.mpr (by omega)) (Set.mem_Iio.mpr hlater) (hleads.trans hcurrent.symm)
  omega

/-- A search that has passed what its steps pass finds out whether its target is on a cycle. -/
theorem CycleSearch.answer_iff {rounds : ℕ} {current? : Option κ} {answer : Bool}
    (h : CycleSearch links target rounds seen current? answer)
    (hpassed : Passed links target steps seen)
    (hcurrent : (climb links)^[steps + 1] (some target) = current?) :
    answer = true ↔ some target ∈ periodicPts (climb links) := by
  -- the induction is on the rounds; each of them takes one step more from the target
  induction h generalizing steps with
  | ended =>
      refine iff_of_false Bool.false_ne_true fun hcycle => ?_
      exact ne_none_of_periodic hcycle _ hcurrent
  | back => exact iff_of_true rfl (mk_mem_periodicPts (Nat.succ_pos steps) hcurrent)
  | again hne hseen =>
      exact iff_of_false Bool.false_ne_true (hpassed.not_periodic hseen hcurrent hne)
  | onward hne _ _ ih =>
      refine ih (hpassed.onward hcurrent hne) ?_
      rw [iterate_succ_apply', hcurrent, climb_some]

end Passed

theorem mem_periodicPts_iff {index : κ} :
    some index ∈ periodicPts (climb links) ↔
      ∃ steps, 1 ≤ steps ∧ (climb links)^[steps] (some index) = some index :=
  Iff.rfl

/-- An index is found exactly where one step or more lead back to it. -/
theorem closesCycle_iff_mem_periodicPts {index : κ} :
    closesCycle links index = true ↔ some index ∈ periodicPts (climb links) := by
  rw [closesCycle_iff, transGen_parentOf_iff, mem_periodicPts_iff]
  constructor
  · rintro ⟨steps, hsteps⟩
    exact ⟨steps + 1, Nat.le_add_left 1 steps, hsteps⟩
  · rintro ⟨steps, hpos, hsteps⟩
    exact ⟨steps - 1, by rwa [Nat.sub_add_cancel hpos]⟩

/-- Counting steps and remembering indices give the same answer. -/
theorem search_eq_closesCycle {rounds : ℕ} {index : κ} {answer : Bool}
    (h : CycleSearch links index rounds [index] (parentOf links index) answer) :
    answer = closesCycle links index := by
  rw [Bool.eq_iff_iff, closesCycle_iff_mem_periodicPts]
  exact h.answer_iff (passed_start index) rfl

/-! ## Ways into a cycle -/

/-- What a cycle passes leads back to where it started. -/
theorem leads_back {index other : κ} (h : some index ∈ periodicPts (climb links)) {steps : ℕ}
    (hother : (climb links)^[steps] (some index) = some other) :
    ∃ more, (climb links)^[more] (some other) = some index := by
  obtain ⟨period, hpos, hperiod⟩ := h
  refine ⟨period * steps - steps, ?_⟩
  rw [← hother, ← iterate_add_apply,
    Nat.sub_add_cancel (Nat.le_mul_of_pos_left steps hpos)]
  exact hperiod.mul_const steps

/-- **Cycles are found, and the search for them ends.**  For all links, the search that remembers
what it has passed ends after at most as many rounds as there are links, with the answer that
counting gives.  The answer is yes exactly where one step or more lead back to the index.  It is no
where the links lead on to an index from which none lead back, as they do on a way into a cycle that
does not come by the index. -/
theorem closesCycle_exact (links : List (κ × κ)) (index : κ) :
    (∃ rounds ≤ links.length,
        CycleSearch links index rounds [index] (parentOf links index) (closesCycle links index)) ∧
      (∀ rounds answer, CycleSearch links index rounds [index] (parentOf links index) answer →
        answer = closesCycle links index) ∧
      (closesCycle links index = true ↔
        ∃ steps, 1 ≤ steps ∧ (climb links)^[steps] (some index) = some index) ∧
      ∀ other steps, (climb links)^[steps] (some index) = some other →
        (∀ more, (climb links)^[more] (some other) ≠ some index) →
        closesCycle links index = false := by
  refine ⟨?_, fun rounds answer => search_eq_closesCycle, ?_, ?_⟩
  · obtain ⟨rounds, answer, hsearch, hrounds⟩ := exists_search_le_length links index
    exact ⟨rounds, hrounds, search_eq_closesCycle hsearch ▸ hsearch⟩
  · exact closesCycle_iff_mem_periodicPts.trans mem_periodicPts_iff
  · intro other steps hother haway
    rw [← Bool.not_eq_true, closesCycle_iff_mem_periodicPts]
    intro hcycle
    obtain ⟨more, hmore⟩ := leads_back hcycle hother
    exact haway more hmore

/-- Two cycles, a way into the first of them, and a link to an index that has none. -/
def tangledLinks : List (ℕ × ℕ) :=
  [(1, 2), (2, 3), (3, 2), (4, 9), (5, 5)]

/-- The way from the first index goes round a cycle without it, and is given up. -/
theorem closesCycle_tangledLinks :
    CycleSearch tangledLinks 1 3 [1] (some 2) false ∧
      (climb tangledLinks)^[1] (some 1) = some 2 ∧
      (∀ more, (climb tangledLinks)^[more] (some 2) ≠ some 1) ∧
      closesCycle tangledLinks 1 = false ∧ closesCycle tangledLinks 2 = true := by
  have hround : ∀ more, (climb tangledLinks)^[more] (some 2) = some 2 ∨
      (climb tangledLinks)^[more] (some 2) = some 3 := by
    intro more
    induction more with
    | zero => exact .inl rfl
    | succ more ih =>
        rw [iterate_succ_apply']
        rcases ih with h | h
        · exact .inr (by rw [h]; rfl)
        · exact .inl (by rw [h]; rfl)
  have haway : ∀ more, (climb tangledLinks)^[more] (some 2) ≠ some 1 := by
    intro more hmore
    rcases hround more with h | h <;> rw [h] at hmore <;> cases hmore
  have hsearch : CycleSearch tangledLinks 1 3 [1] (some 2) false :=
    .onward (by decide) (by decide)
      (.onward (by decide) (by decide) (.again (by decide) (by decide)))
  exact ⟨hsearch, rfl, haway, (closesCycle_exact tangledLinks 1).2.2.2 2 1 rfl haway,
    (closesCycle_exact tangledLinks 2).2.2.1.mpr ⟨2, by decide, rfl⟩⟩

end MotionScene
