import MotionScene.Proofs.Fault.Flaw
import MotionScene.Proofs.Migration.Walks

/-!
# Changes that pass

Where a change is known to return, and possibly to return what it was given, at every place
that a walk comes to, the whole walk returns, and returns what it was given
(`passes_changeBeziers`, `passes_changeShapes`, `passes_changeMasks`).  So a walk that left
nothing to do has nothing to do when it is taken again.
-/

namespace MotionScene

/-- A change of a value returns, and returns the value itself if that is to stay. -/
def Passes {α : Type} (stays : Prop) (change : Change α) (value : α) : Prop :=
  ∃ own, change value = .ok own ∧ (stays → own = value)

variable {R : Type} {stays : Prop}

namespace Passes

variable {α : Type} {change next : Change α} {value own : α}

theorem of_ok (returned : change value = .ok own) : Passes False change value :=
  ⟨own, returned, False.elim⟩

theorem of_eq (returned : change value = .ok value) : Passes stays change value :=
  ⟨value, returned, fun _ => rfl⟩

theorem eq (passes : Passes True change value) : change value = .ok value := by
  obtain ⟨own, returned, heq⟩ := passes
  rw [returned, heq trivial]

/-- Two changes in a row, of which the second may count on what the first returned. -/
theorem bind (passes : Passes stays change value)
    (hnext : ∀ own, change value = .ok own → Passes stays next own) :
    Passes stays (fun value => change value >>= next) value := by
  obtain ⟨middle, hmiddle, heq⟩ := passes
  obtain ⟨last, hlast, heq'⟩ := hnext middle hmiddle
  exact ⟨last, bind_eq_ok.mpr ⟨middle, hmiddle, hlast⟩, fun h => (heq' h).trans (heq h)⟩

/-- A change of the values for which a condition holds. -/
theorem ite {condition : α → Bool} (h : condition value = true → Passes stays change value) :
    Passes stays (fun value => if condition value then change value else .ok value) value := by
  unfold Passes
  dsimp only
  split
  · rename_i holds
    exact h holds
  · exact ⟨value, rfl, fun _ => rfl⟩

theorem mapM {items : List α} (h : ∀ item ∈ items, Passes stays change item) :
    Passes stays (List.mapM change) items := by
  obtain ⟨own, hown, hrelated⟩ := exists_mapM_eq_ok h
  refine ⟨own, hown, fun hstays => ?_⟩
  clear h hown
  induction hrelated with
  | nil => rfl
  | cons hfirst _ ih => rw [hfirst hstays, ih]

end Passes

/-! ## Parts of a value -/

theorem passes_adjust {key : String} {change : Change (Value R)} {members : Members R}
    (h : ∀ value, members.get? key = some value → Passes stays change value) :
    Passes stays (Members.adjust key change) members := by
  induction members with
  | nil => exact .of_eq rfl
  | cons entry rest ih =>
      obtain ⟨k, v⟩ := entry
      by_cases hk : k = key
      · obtain ⟨own, hown, heq⟩ := h v (by rw [Members.get?_cons, if_pos hk])
        refine ⟨(k, own) :: rest, ?_, fun hstays => by rw [heq hstays]⟩
        rw [Members.adjust, if_pos hk, hown]
        rfl
      · obtain ⟨own, hown, heq⟩ := ih fun value hvalue => h value (by
          rw [Members.get?_cons, if_neg hk, hvalue])
        refine ⟨(k, v) :: own, ?_, fun hstays => by rw [heq hstays]⟩
        rw [Members.adjust, if_neg hk, hown]
        rfl

theorem passes_adjustMembers {change : Change (Members R)} {value : Value R}
    (h : ∀ members, value = .object members → Passes stays change members) :
    Passes stays (Value.adjustMembers change) value := by
  cases value with
  | object members =>
      obtain ⟨own, hown, heq⟩ := h members rfl
      exact ⟨.object own, map_eq_ok.mpr ⟨own, hown, rfl⟩, fun hstays => by rw [heq hstays]⟩
  | _ => exact .of_eq rfl

theorem passes_adjustMember {key : String} {change : Change (Value R)} {value : Value R}
    (h : ∀ (members : Members R) own, value = .object members → members.get? key = some own →
      Passes stays change own) : Passes stays (Value.adjustMember key change) value :=
  passes_adjustMembers fun members hvalue => passes_adjust fun own hown => h members own hvalue hown

theorem passes_adjustItems {change : Change (Value R)} {value : Value R}
    (h : ∀ (items : List (Value R)) (index : Nat) item, value = .list items →
      items[index]? = some item → Passes stays change item) :
    Passes stays (Value.adjustItems change) value := by
  cases value with
  | list items =>
      obtain ⟨own, hown, heq⟩ := Passes.mapM fun item (hmem : item ∈ items) => by
        obtain ⟨index, hindex⟩ := List.mem_iff_getElem?.mp hmem
        exact h items index item rfl hindex
      exact ⟨.list own, map_eq_ok.mpr ⟨own, hown, rfl⟩, fun hstays => by rw [heq hstays]⟩
  | _ => exact .of_eq rfl

theorem passes_adjustFirst {change : Change (Value R)} {value : Value R}
    (h : ∀ first rest, value = .list (first :: rest) → Passes stays change first) :
    Passes stays (Value.adjustFirst change) value := by
  unfold Passes Value.adjustFirst
  split
  · rename_i first rest
    obtain ⟨own, hown, heq⟩ := h first rest rfl
    exact ⟨.list (own :: rest), bind_eq_ok.mpr ⟨own, hown, rfl⟩, fun hstays => by rw [heq hstays]⟩
  · exact ⟨value, rfl, fun _ => rfl⟩

/-! ## Walks -/

section Walks

variable {change : Change (Members R)}

theorem passes_changeBezier {value : Value R}
    (h : ∀ bezier, value = .object bezier → isBezier value = true → Passes stays change bezier) :
    Passes stays (changeBezier change) value := by
  unfold Passes changeBezier
  split
  · rename_i hbezier
    exact passes_adjustMembers fun bezier hvalue => h bezier hvalue hbezier
  · exact ⟨value, rfl, fun _ => rfl⟩

theorem passes_changeBeziers {property : Value R}
    (h : ∀ place bezier, BezierAt property place bezier → Passes stays change bezier) :
    Passes stays (changeBeziers change) property := by
  refine passes_adjustMember fun members content hproperty hcontent => ?_
  subst hproperty
  unfold Passes
  dsimp only
  split
  · rename_i hbezier
    refine passes_adjustMembers fun bezier hobject => ?_
    subst hobject
    exact h _ _ (.static hcontent hbezier)
  · refine passes_adjustItems fun items index item hitems hitem => ?_
    refine passes_adjustMembers fun keyframe hkeyframe => ?_
    subst hitems hkeyframe
    have hside : ∀ {side : String} {before : Members R}, side ∈ ["s", "e"] →
        before.get? side = Members.get? keyframe side →
        Passes stays (Members.adjust side (Value.adjustFirst (changeBezier change))) before := by
      intro side before hknown hsame
      refine passes_adjust fun value hvalue => passes_adjustFirst fun first rest hlist => ?_
      refine passes_changeBezier fun bezier hobject hbezier => ?_
      subst hlist hobject
      exact h _ _ (.keyframe hcontent hitem hknown (hsame.symm.trans hvalue) hbezier)
    refine (hside (by decide) rfl).bind fun started hstarted => hside (by decide) ?_
    exact Members.get?_adjust_of_ne hstarted (by decide)

theorem passes_changeEntries {items : List (Value R)}
    (h : ∀ item ∈ items, Passes stays (changeEntry change) item) :
    Passes stays (changeEntries change) items := by
  induction items with
  | nil => exact .of_eq (by rw [changeEntries])
  | cons entry rest ih =>
      obtain ⟨hentry, hrest⟩ := List.forall_mem_cons.mp h
      obtain ⟨first, hfirst, heq⟩ := hentry
      obtain ⟨later, hlater, heq'⟩ := ih hrest
      refine ⟨first :: later, ?_, fun hstays => by rw [heq hstays, heq' hstays]⟩
      rw [changeEntries, hlater, ok_bind, hfirst]
      rfl

theorem passes_changeShapes : ∀ shapes : Value R,
    (∀ place entry, EntryAt shapes place entry → Passes stays change entry) →
    Passes stays (changeShapes change) shapes
  | .list items, h => by
      have hentries : ∀ item ∈ items, Passes stays (changeEntry change) item := by
        intro item hmem
        obtain ⟨index, hitem⟩ := List.mem_iff_getElem?.mp hmem
        cases item with
        | object members =>
            unfold Passes
            rw [changeEntry]
            split
            · rename_i hgroup
              have hinner : ∀ inner, Members.get? members "it" = some inner →
                  Passes stays (changeShapes change) inner := fun inner hinner => by
                have hsize : sizeOf inner < sizeOf (Value.list items) := by
                  have hmember := sizeOf_lt_of_get? hinner
                  have hlist := List.sizeOf_lt_of_mem hmem
                  simp only [Value.object.sizeOf_spec, Value.list.sizeOf_spec] at hlist ⊢
                  omega
                exact passes_changeShapes inner fun place entry hat =>
                  h _ entry (.grouped hitem hgroup hinner hat)
              obtain ⟨own, hown, heq⟩ := passes_adjust hinner
              rw [changeItems_eq]
              exact ⟨.object own, map_eq_ok.mpr ⟨own, hown, rfl⟩, fun hstays => by rw [heq hstays]⟩
            · rename_i hleaf
              obtain ⟨own, hown, heq⟩ := h _ _ (.leaf hitem (by simpa using hleaf))
              exact ⟨.object own, map_eq_ok.mpr ⟨own, hown, rfl⟩, fun hstays => by rw [heq hstays]⟩
        | _ => exact .of_eq (by rw [changeEntry]; rintro _ ⟨⟩)
      obtain ⟨own, hown, heq⟩ := passes_changeEntries hentries
      refine ⟨.list own, ?_, fun hstays => by rw [heq hstays]⟩
      rw [changeShapes]
      exact map_eq_ok.mpr ⟨own, hown, rfl⟩
  | .null, _ | .bool _, _ | .num _, _ | .text _, _ | .object _, _ =>
      .of_eq (by rw [changeShapes]; rintro _ ⟨⟩)
termination_by shapes => sizeOf shapes
decreasing_by exact hsize

/-- Masks are looked for where there is no number in the place of their list. -/
theorem passes_changeMasks [Scalar R] {layer : Members R} (fit : Flaw.masks.isIn layer = false)
    (h : ∀ place mask, MaskAt layer place mask → Passes stays change mask) :
    Passes stays (changeMasks change) layer := by
  unfold Passes changeMasks
  split
  · rename_i hflagged
    rw [Flaw.isIn, hflagged, Bool.true_and] at fit
    refine passes_adjust fun masks hmasks => ?_
    rw [Members.get, hmasks, Option.getD_some] at fit
    have hitems : Passes stays (Value.adjustItems (Value.adjustMembers change)) masks := by
      refine passes_adjustItems fun items index item hlist hitem => ?_
      refine passes_adjustMembers fun mask hmask => ?_
      subst hlist hmask
      exact h _ _ (.intro hflagged hmasks hitem)
    cases masks with
    | bool b =>
        cases b with
        | true => cases fit
        | false => exact .of_eq rfl
    | num n =>
        have hzero : n.isZero = true := by simpa [Value.holds, Value.quantity?] using fit
        exact .of_eq (if_pos hzero)
    | _ => exact hitems
  · exact ⟨layer, rfl, fun _ => rfl⟩

/-- Where masks were looked for, there is no number in the place of their list. -/
theorem fit_changeMasks [Scalar R] {layer result : Members R}
    (changed : changeMasks change layer = .ok result) : Flaw.masks.isIn result = false := by
  have hflag := get_changeMasks changed (show "masksProperties" ≠ "hasMask" by decide)
  unfold changeMasks at changed
  rw [Flaw.isIn, hflag]
  split at changed
  · rename_i hflagged
    rw [hflagged, Bool.true_and]
    rcases Members.get_adjust_self changed with ⟨-, hnull⟩ | hmasks
    · rw [hnull]
      rfl
    · generalize layer.get "masksProperties" = masks at hmasks
      generalize result.get "masksProperties" = own at hmasks ⊢
      cases masks with
      | list items =>
          obtain ⟨_, -, rfl⟩ := map_eq_ok.mp hmasks
          simp [Value.quantity?]
      | bool b =>
          cases b with
          | true => cases hmasks
          | false =>
              cases hmasks
              rfl
      | num n =>
          dsimp only at hmasks
          split at hmasks
          · rename_i hzero
            cases hmasks
            simp [Value.holds, hzero]
          · cases hmasks
      | _ =>
          cases hmasks
          simp [Value.quantity?]
  · rename_i hflagged
    rw [Bool.not_eq_true] at hflagged
    rw [hflagged]
    rfl

end Walks

end MotionScene
