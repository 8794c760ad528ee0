import MotionScene.Proofs.Migration.LayerPlaces
import MotionScene.Proofs.Migration.Passing

/-!
# Migrating what was migrated

Where a migration has returned once, it returns again on what it made: vertices that were
added to handles can be added once more (`repeatable_makeAbsolute`), and so the glyphs of a
migrated document and the beziers of a completed layer can be completed again.
-/

namespace MotionScene

variable {R : Type}

/-! ## Repeatable changes -/

/-- A change that returned once returns again on what it made. -/
def Repeatable {α : Type} (change : Change α) : Prop :=
  ∀ value own, change value = .ok own → Passes False change own

namespace Repeatable

variable {change : Change (Value R)}

/-- A member that was adjusted can be adjusted again, wherever it stands now. -/
theorem passes_adjust (repeatable : Repeatable change) {key : String}
    {members own other : Members R} (adjusted : members.adjust key change = .ok own)
    (same : other.get? key = own.get? key) : Passes False (Members.adjust key change) other :=
  MotionScene.passes_adjust fun value hvalue => by
    obtain ⟨source, -, hchanged⟩ :=
      exists_of_rel_right (Members.rel_adjust adjusted) (same.symm.trans hvalue)
    exact repeatable source value hchanged

theorem adjust (repeatable : Repeatable change) (key : String) :
    Repeatable (Members.adjust key change) :=
  fun _ _ adjusted => repeatable.passes_adjust adjusted rfl

theorem adjustMembers {change : Change (Members R)} (repeatable : Repeatable change) :
    Repeatable (Value.adjustMembers change) := fun _ _ adjusted =>
  passes_adjustMembers fun members hvalue => by
    subst hvalue
    obtain ⟨source, -, hchanged⟩ := adjustMembers_eq_object adjusted
    exact repeatable source members hchanged

theorem adjustMember (repeatable : Repeatable change) (key : String) :
    Repeatable (Value.adjustMember key change) :=
  (repeatable.adjust key).adjustMembers

theorem adjustItems (repeatable : Repeatable change) : Repeatable (Value.adjustItems change) :=
  fun _ _ adjusted => passes_adjustItems fun items index item hvalue hitem => by
    subst hvalue
    obtain ⟨sources, -, hitems⟩ := adjustItems_eq_list adjusted
    obtain ⟨source, -, hchanged⟩ := exists_of_rel_right (forall₂_getElem? hitems index) hitem
    exact repeatable source item hchanged

theorem adjustFirst (repeatable : Repeatable change) : Repeatable (Value.adjustFirst change) :=
  fun _ _ adjusted => passes_adjustFirst fun first rest hvalue => by
    subst hvalue
    obtain ⟨source, -, hchanged⟩ := adjustFirst_eq_cons adjusted
    exact repeatable source first hchanged

theorem changeBezier {change : Change (Members R)} (repeatable : Repeatable change) :
    Repeatable (MotionScene.changeBezier change) := fun value _ changed =>
  passes_changeBezier fun bezier hobject hbezier => by
    unfold MotionScene.changeBezier at changed
    split at changed
    · subst hobject
      obtain ⟨source, -, hchanged⟩ := adjustMembers_eq_object changed
      exact repeatable source bezier hchanged
    · rename_i hother
      rw [Except.ok.inj changed] at hother
      exact absurd hbezier hother

end Repeatable

/-! ## Handles -/

section Handles

variable [Scalar R]

/-- What a number was added to can be added to it again. -/
theorem Number.exists_add_again {m n sum : Number R} (h : m.add n = .ok sum) :
    ∃ total, sum.add n = .ok total := by
  have hreal : ∀ {a b : Number R}, (do
      let x ← a.toReal
      let y ← b.toReal
      return .real (x + y) : Except Fault (Number R)) = .ok sum →
      ∃ total, sum.add b = .ok total := by
    intro a b hsum
    obtain ⟨x, -, hrest⟩ := bind_eq_ok.mp hsum
    obtain ⟨y, hy, hpure⟩ := bind_eq_ok.mp hrest
    rw [← pure_eq_ok.mp hpure]
    refine ⟨.real (x + y + y), ?_⟩
    show (Number.real (x + y)).toReal >>= _ = _
    rw [hy]
    rfl
  cases m with
  | real x => exact hreal h
  | whole m =>
      cases n with
      | real y => exact hreal h
      | whole n =>
          cases h
          exact ⟨_, rfl⟩

theorem repeatable_addCoordinate (addend : Value R) : Repeatable (addCoordinate · addend) := by
  intro coordinate sum added
  dsimp only at added
  unfold addCoordinate at added
  split at added
  · cases added
    exact .of_ok rfl
  · cases added
    exact .of_ok rfl
  · cases added
    exact .of_ok rfl
  · cases added
    exact .of_ok rfl
  · split at added
    · rename_i m n hm hn
      obtain ⟨number, hnumber, rfl⟩ := map_eq_ok.mp added
      obtain ⟨total, htotal⟩ := Number.exists_add_again hnumber
      have hagain : addCoordinate (.num number) addend = (number.add n).map .num := by
        cases addend <;> cases hn <;> rfl
      have htwice : addCoordinate (.num number) addend = .ok (.num total) := by
        rw [hagain, htotal]
        rfl
      exact .of_ok htwice
    · cases added

theorem repeatable_addCoordinates (limit : Nat) (addends : List (Value R)) :
    Repeatable (addCoordinates limit · addends) := by
  intro coordinates sums added
  dsimp only at added
  induction limit generalizing coordinates addends sums with
  | zero => exact .of_ok rfl
  | succ limit ih =>
      cases coordinates with
      | nil =>
          cases added
          exact .of_ok rfl
      | cons x xs =>
          cases addends with
          | nil =>
              cases added
              exact .of_ok rfl
          | cons y ys =>
              obtain ⟨sum, hsum, hrest⟩ := bind_eq_ok.mp added
              obtain ⟨later, hlater, hpure⟩ := bind_eq_ok.mp hrest
              obtain rfl := pure_eq_ok.mp hpure
              obtain ⟨total, htotal, -⟩ := repeatable_addCoordinate y x sum hsum
              obtain ⟨totals, htotals, -⟩ := ih _ _ _ hlater
              exact .of_ok (bind_eq_ok.mpr ⟨total, htotal, bind_eq_ok.mpr ⟨totals, htotals, rfl⟩⟩)

theorem repeatable_absoluteHandle (vertex : Value R) : Repeatable (absoluteHandle · vertex) := by
  intro handle result absolute
  dsimp only at absolute
  unfold absoluteHandle at absolute
  split at absolute
  · obtain ⟨sums, hsums, rfl⟩ := map_eq_ok.mp absolute
    obtain ⟨totals, htotals, -⟩ := repeatable_addCoordinates 2 _ _ _ hsums
    exact .of_ok (map_eq_ok.mpr ⟨totals, htotals, rfl⟩)
  · rename_i hother
    cases absolute
    refine .of_eq ?_
    unfold absoluteHandle
    split
    · exact absurd rfl (hother _ _ rfl)
    · rfl

theorem repeatable_absoluteHandles (vertices : List (Value R)) :
    Repeatable (absoluteHandles · vertices) := by
  intro handles results absolute
  dsimp only at absolute
  induction handles generalizing vertices results with
  | nil =>
      cases absolute
      exact .of_ok rfl
  | cons handle handles ih =>
      cases vertices with
      | nil =>
          cases absolute
          exact .of_ok rfl
      | cons vertex vertices =>
          obtain ⟨first, hfirst, hrest⟩ := bind_eq_ok.mp absolute
          obtain ⟨later, hlater, hpure⟩ := bind_eq_ok.mp hrest
          obtain rfl := pure_eq_ok.mp hpure
          obtain ⟨again, hagain, -⟩ := repeatable_absoluteHandle vertex handle first hfirst
          obtain ⟨others, hothers, -⟩ := ih _ _ hlater
          exact .of_ok (bind_eq_ok.mpr ⟨again, hagain, bind_eq_ok.mpr ⟨others, hothers, rfl⟩⟩)

theorem repeatable_absoluteSide (vertices : List (Value R)) :
    Repeatable (absoluteSide vertices) := by
  intro value result absolute
  unfold absoluteSide at absolute
  split at absolute
  · obtain ⟨moved, hmoved, rfl⟩ := map_eq_ok.mp absolute
    obtain ⟨again, hagain, -⟩ := repeatable_absoluteHandles vertices _ _ hmoved
    exact .of_ok (map_eq_ok.mpr ⟨again, hagain, rfl⟩)
  · rename_i hother
    cases absolute
    refine .of_eq ?_
    unfold absoluteSide
    split
    · exact absurd rfl (hother _)
    · rfl

theorem get?_makeAbsolute {bezier result : Members R} {key : String}
    (absolute : makeAbsolute bezier = .ok result) (hkey : key ∉ handleKeys) :
    result.get? key = bezier.get? key := by
  obtain ⟨incoming, hincoming, houtgoing⟩ := bind_eq_ok.mp absolute
  have hne : ∀ side ∈ handleKeys, side ≠ key := fun side hside h => hkey (h ▸ hside)
  rw [Members.get?_adjust_of_ne houtgoing (hne _ (by decide)),
    Members.get?_adjust_of_ne hincoming (hne _ (by decide))]

theorem repeatable_makeAbsolute : Repeatable (makeAbsolute (R := R)) := by
  intro bezier result absolute
  obtain ⟨incoming, hincoming, houtgoing⟩ := bind_eq_ok.mp absolute
  have hvertices : result.get "v" = bezier.get "v" := by
    exact Members.get_congr (get?_makeAbsolute absolute (by decide))
  have hside := repeatable_absoluteSide (bezier.get "v").items
  unfold Passes makeAbsolute
  rw [hvertices]
  refine (hside.passes_adjust hincoming (Members.get?_adjust_of_ne houtgoing (by decide))).bind
    fun first hfirst => hside.passes_adjust houtgoing ?_
  exact Members.get?_adjust_of_ne hfirst (by decide)

/-- Glyphs that were completed can be completed again. -/
theorem passes_completeGlyphs {document result other : Members R}
    (completed : completeGlyphs document = .ok result)
    (same : other.get? "chars" = result.get? "chars") : Passes False completeGlyphs other := by
  have hentry := (repeatable_makeAbsolute (R := R)).changeBezier.adjustMember "k"
  have hdata := ((hentry.adjustMember "ks").adjustItems.adjustMember "it").adjustFirst
  have hglyphs := ((hdata.adjustMember "shapes").adjustMember "data").adjustItems
  exact hglyphs.passes_adjust completed same

end Handles

end MotionScene
