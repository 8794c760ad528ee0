import MotionScene.Proofs.Related
import MotionScene.Trace

/-!
# Computations that returned

Every step of a computation that returned has returned.  These lemmas take such a
computation apart: `bind_eq_ok` and `map_eq_ok` for two steps in a row, `mapM_eq_ok` for
a step taken for every item of a list, and `outcome_lift` where a step without notices
stands among steps that leave some.
-/

namespace MotionScene

section Outcome

variable {α β : Type}

@[simp] theorem pure_eq_ok {a b : α} : (pure a : Except Fault α) = .ok b ↔ a = b := by
  simp [pure, Except.pure]

theorem bind_eq_ok {x : Except Fault α} {f : α → Except Fault β} {b : β} :
    x >>= f = .ok b ↔ ∃ a, x = .ok a ∧ f a = .ok b := by
  cases x <;> simp [bind, Except.bind]

@[simp] theorem ok_bind (a : α) (f : α → Except Fault β) :
    (.ok a : Except Fault α) >>= f = f a := rfl

/-- A step behind both branches of a conditional. -/
theorem ite_bind (c : Prop) [Decidable c] (x y : Except Fault α) (f : α → Except Fault β) :
    (if c then x else y) >>= f = if c then x >>= f else y >>= f := by
  split <;> rfl

theorem map_eq_ok {x : Except Fault α} {f : α → β} {b : β} :
    x.map f = .ok b ↔ ∃ a, x = .ok a ∧ f a = b := by
  cases x <;> simp [Except.map]

theorem eq_ok_of_toOption {ε : Type} {x : Except ε α} {a : α} (h : x.toOption = some a) :
    x = .ok a := by
  cases x with
  | error fault => cases h
  | ok b => exact congrArg _ (Option.some_inj.mp h)

theorem toOption_join_eq_some {x : Except Fault (Option α)} {a : α} :
    x.toOption.join = some a ↔ x = .ok (some a) := by
  cases x with
  | error fault => simp [Except.toOption]
  | ok left? => cases left? <;> simp [Except.toOption]

/-- A step was taken for every item of a list, and the results stand in its order. -/
theorem mapM_eq_ok {f : α → Except Fault β} {xs : List α} {ys : List β} :
    xs.mapM f = .ok ys ↔ List.Forall₂ (fun x y => f x = .ok y) xs ys := by
  induction xs generalizing ys with
  | nil => cases ys <;> simp
  | cons x xs ih =>
      rw [List.mapM_cons, bind_eq_ok]
      constructor
      · rintro ⟨y, hy, hrest⟩
        obtain ⟨rest, hxs, hpure⟩ := bind_eq_ok.mp hrest
        rw [← pure_eq_ok.mp hpure]
        exact .cons hy (ih.mp hxs)
      · rintro (_ | ⟨hy, hrest⟩)
        exact ⟨_, hy, bind_eq_ok.mpr ⟨_, ih.mpr hrest, rfl⟩⟩

theorem exists_mapM_eq_ok {f : α → Except Fault β} {related : α → β → Prop} {xs : List α}
    (h : ∀ x ∈ xs, ∃ y, f x = .ok y ∧ related x y) :
    ∃ ys, xs.mapM f = .ok ys ∧ List.Forall₂ related xs ys := by
  induction xs with
  | nil => exact ⟨[], rfl, .nil⟩
  | cons x xs ih =>
      obtain ⟨y, hy, hrelated⟩ := h x List.mem_cons_self
      obtain ⟨ys, hys, hrest⟩ := ih fun x hx => h x (List.mem_cons_of_mem _ hx)
      refine ⟨y :: ys, ?_, .cons hrelated hrest⟩
      rw [List.mapM_cons, hy, ok_bind, hys]
      rfl

theorem mapM_ok (f : α → β) (xs : List α) :
    (xs.mapM fun x => (.ok (f x) : Except Fault β)) = .ok (xs.map f) :=
  List.mapM_pure

theorem foldlM_induction {holds : β → Prop} {f : β → α → Except Fault β} {xs : List α}
    {start result : β} (returned : xs.foldlM f start = .ok result) (hstart : holds start)
    (step : ∀ x ∈ xs, ∀ before after, holds before → f before x = .ok after → holds after) :
    holds result := by
  induction xs generalizing start with
  | nil => exact pure_eq_ok.mp returned ▸ hstart
  | cons x xs ih =>
      rw [List.foldlM_cons] at returned
      obtain ⟨middle, hmiddle, hrest⟩ := bind_eq_ok.mp returned
      refine ih hrest (step x List.mem_cons_self start middle hstart hmiddle) fun y hy => ?_
      exact step y (List.mem_cons_of_mem x hy)

end Outcome

namespace Traced

variable {ε α : Type}

@[simp] theorem outcome_lift (outcome : Except Fault α) :
    (liftM outcome : Traced ε α).outcome = outcome := rfl

theorem lift_ok_bind {β : Type} (a : α) (f : α → Traced ε β) :
    (liftM (.ok a : Except Fault α) : Traced ε α) >>= f = f a := rfl

@[simp] theorem outcome_pure (a : α) : (pure a : Traced ε α).outcome = .ok a := rfl

@[simp] theorem outcome_tell (event : ε) : (tell event).outcome = .ok () := rfl

theorem outcome_bind_of_ok {α β : Type} {x : Traced ε α} {a : α} (h : x.outcome = .ok a)
    (f : α → Traced ε β) : (x >>= f).outcome = (f a).outcome := by
  obtain ⟨trace, outcome⟩ := x
  obtain rfl : outcome = .ok a := h
  rfl

theorem outcome_bind_of_error {α β : Type} {x : Traced ε α} {fault : Fault}
    (h : x.outcome = .error fault) (f : α → Traced ε β) : (x >>= f).outcome = .error fault := by
  obtain ⟨trace, outcome⟩ := x
  obtain rfl : outcome = .error fault := h
  rfl

/-- Two computations return alike if their first steps do and all that follows does. -/
theorem outcome_bind_congr {α β : Type} {x y : Traced ε α} {f g : α → Traced ε β}
    (h : x.outcome = y.outcome) (hrest : ∀ a, (f a).outcome = (g a).outcome) :
    (x >>= f).outcome = (y >>= g).outcome := by
  obtain ⟨trace, outcome⟩ := x
  obtain ⟨trace', outcome'⟩ := y
  obtain rfl : outcome = outcome' := h
  cases outcome with
  | error fault => rfl
  | ok a => exact hrest a

private theorem id_map {α : Type} (x : Traced ε α) : id <$> x = x := by
  obtain ⟨trace, outcome⟩ := x
  cases outcome <;> simp [Functor.map, bind]

private theorem bind_assoc {α β γ : Type} (x : Traced ε α) (f : α → Traced ε β)
    (g : β → Traced ε γ) : x >>= f >>= g = x >>= fun a => f a >>= g := by
  obtain ⟨trace, outcome⟩ := x
  cases outcome with
  | error fault => rfl
  | ok a =>
      rw [bind_ok, bind_ok]
      obtain ⟨inner, result⟩ := f a
      cases result with
      | error fault => rfl
      | ok b =>
          simp only [bind_ok]
          rw [List.append_assoc]

instance : LawfulMonad (Traced ε) :=
  LawfulMonad.mk' (Traced ε) id_map (fun _ _ => rfl) bind_assoc

/-- What a step taken for every item of a list returns does not depend on the notices. -/
theorem outcome_mapM {α β : Type} (f : α → Traced ε β) (xs : List α) :
    (xs.mapM f).outcome = xs.mapM fun x => (f x).outcome := by
  induction xs with
  | nil => rfl
  | cons x xs ih =>
      rw [List.mapM_cons, List.mapM_cons, ← ih]
      obtain ⟨trace, outcome⟩ := f x
      cases outcome with
      | error fault => rfl
      | ok y =>
          obtain ⟨inner, rest⟩ := xs.mapM f
          cases rest <;> rfl

end Traced

end MotionScene
