import Mathlib.Data.List.Forall2

/-!
# Related lists and options

Lists with related items in their places (`List.Forall₂`) and options that hold related
values or nothing on both sides (`Option.Rel`).
-/

namespace MotionScene

variable {α β γ δ : Type}

/-! ## Lists -/

theorem forall₂_imp_of_mem {first second : α → β → Prop} {xs : List α} {ys : List β}
    (h : List.Forall₂ first xs ys) (himp : ∀ x ∈ xs, ∀ y, first x y → second x y) :
    List.Forall₂ second xs ys := by
  induction h with
  | nil => exact .nil
  | cons hfirst _ ih =>
      refine .cons (himp _ List.mem_cons_self _ hfirst) (ih fun x hx => ?_)
      exact himp x (List.mem_cons_of_mem _ hx)

theorem forall₂_comp {first : α → β → Prop} {second : β → γ → Prop} {both : α → γ → Prop}
    (hboth : ∀ x y z, first x y → second y z → both x z) {xs : List α} {ys : List β}
    {zs : List γ} (h : List.Forall₂ first xs ys) (h' : List.Forall₂ second ys zs) :
    List.Forall₂ both xs zs := by
  induction h generalizing zs with
  | nil =>
      cases h'
      exact .nil
  | cons hfirst _ ih =>
      obtain _ | ⟨hsecond, hrest⟩ := h'
      exact .cons (hboth _ _ _ hfirst hsecond) (ih hrest)

theorem forall₂_symm {related : α → α → Prop} [Std.Symm related] {xs ys : List α}
    (h : List.Forall₂ related xs ys) : List.Forall₂ related ys xs :=
  (h.imp fun _ _ hrelated => symm hrelated).flip

theorem exists_of_mem_left {related : α → β → Prop} {xs : List α} {ys : List β}
    (h : List.Forall₂ related xs ys) {x : α} (hx : x ∈ xs) : ∃ y ∈ ys, related x y := by
  induction h with
  | nil => cases hx
  | cons hfirst _ ih =>
      rcases List.mem_cons.mp hx with rfl | hx
      · exact ⟨_, List.mem_cons_self, hfirst⟩
      · obtain ⟨y, hy, hrelated⟩ := ih hx
        exact ⟨y, List.mem_cons_of_mem _ hy, hrelated⟩

theorem exists_of_mem_right {related : α → β → Prop} {xs : List α} {ys : List β}
    (h : List.Forall₂ related xs ys) {y : β} (hy : y ∈ ys) : ∃ x ∈ xs, related x y :=
  exists_of_mem_left h.flip hy

theorem forall₂_getElem? {related : α → β → Prop} {xs : List α} {ys : List β}
    (h : List.Forall₂ related xs ys) (index : Nat) : Option.Rel related xs[index]? ys[index]? := by
  induction h generalizing index with
  | nil => exact .none
  | cons hfirst _ ih =>
      cases index with
      | zero => exact .some hfirst
      | succ index => exact ih index

/-- What holds of every two items of a list carries over to a related list. -/
theorem pairwise_of_forall₂ {related : α → β → Prop} {before : α → α → Prop}
    {after : β → β → Prop}
    (hstep : ∀ x x' y y', related x y → related x' y' → before x x' → after y y')
    {xs : List α} {ys : List β} (h : List.Forall₂ related xs ys) (hbefore : xs.Pairwise before) :
    ys.Pairwise after := by
  induction h with
  | nil => exact .nil
  | cons hfirst hrest ih =>
      obtain ⟨hhead, htail⟩ := List.pairwise_cons.mp hbefore
      refine List.pairwise_cons.mpr ⟨fun y hy => ?_, ih htail⟩
      obtain ⟨x, hx, hrelated⟩ := exists_of_mem_right hrest hy
      exact hstep _ _ _ _ hfirst hrelated (hhead x hx)

/-! ## Options -/

theorem rel_bind {related : α → β → Prop} {next : γ → δ → Prop} {x? : Option α} {y? : Option β}
    (h : Option.Rel related x? y?) {f : α → Option γ} {g : β → Option δ}
    (hnext : ∀ x y, related x y → Option.Rel next (f x) (g y)) :
    Option.Rel next (x?.bind f) (y?.bind g) := by
  cases h with
  | some hrelated => exact hnext _ _ hrelated
  | none => exact .none

theorem eq_none_of_rel {related : α → β → Prop} {x? : Option α} {y? : Option β}
    (h : Option.Rel related x? y?) (hx : x? = none) : y? = none := by
  cases h with
  | some _ => cases hx
  | none => rfl

theorem exists_of_rel_left {related : α → β → Prop} {x? : Option α} {y? : Option β}
    (h : Option.Rel related x? y?) {x : α} (hx : x? = some x) : ∃ y, y? = some y ∧ related x y := by
  cases h with
  | some hrelated =>
      cases hx
      exact ⟨_, rfl, hrelated⟩
  | none => cases hx

theorem exists_of_rel_right {related : α → β → Prop} {x? : Option α} {y? : Option β}
    (h : Option.Rel related x? y?) {y : β} (hy : y? = some y) : ∃ x, x? = some x ∧ related x y := by
  cases h with
  | some hrelated =>
      cases hy
      exact ⟨_, rfl, hrelated⟩
  | none => cases hy

end MotionScene
