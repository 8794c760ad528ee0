import MotionScene.Fault

/-!
# Traced computations

A computation that leaves a trace of events and either returns or fails.  What was
traced before a failure stays: the commands drawn before a malformed point, the
notices given before a rejected option.
-/

namespace MotionScene

/-- A computation with the events it left, in order, and its outcome. -/
structure Traced (ε α : Type) where
  trace : List ε
  outcome : Except Fault α

namespace Traced

variable {ε α β : Type}

/-- Runs the second computation on the result of the first; the traces are joined. -/
def bind (x : Traced ε α) (f : α → Traced ε β) : Traced ε β :=
  match x.outcome with
  | .ok a =>
    let y := f a
    ⟨x.trace ++ y.trace, y.outcome⟩
  | .error fault => ⟨x.trace, .error fault⟩

instance : Monad (Traced ε) where
  pure a := ⟨[], .ok a⟩
  bind := bind

instance : MonadLift (Except Fault) (Traced ε) := ⟨fun outcome => ⟨[], outcome⟩⟩

def tell (event : ε) : Traced ε Unit := ⟨[event], .ok ()⟩

def tellAll (events : List ε) : Traced ε Unit := ⟨events, .ok ()⟩

/-- Fails without leaving an event. -/
def fail (fault : Fault) : Traced ε α := ⟨[], .error fault⟩

@[simp] theorem pure_eq (a : α) : (pure a : Traced ε α) = ⟨[], .ok a⟩ := rfl

@[simp] theorem bind_ok (trace : List ε) (a : α) (f : α → Traced ε β) :
    (⟨trace, .ok a⟩ : Traced ε α) >>= f = ⟨trace ++ (f a).trace, (f a).outcome⟩ := rfl

@[simp] theorem bind_error (trace : List ε) (fault : Fault) (f : α → Traced ε β) :
    (⟨trace, .error fault⟩ : Traced ε α) >>= f = ⟨trace, .error fault⟩ := rfl

/-- Two computations in a row return what the second returns on the result of the first. -/
theorem outcome_bind_eq_ok {x : Traced ε α} {f : α → Traced ε β} {b : β} :
    (x >>= f).outcome = .ok b ↔ ∃ a, x.outcome = .ok a ∧ (f a).outcome = .ok b := by
  obtain ⟨trace, outcome⟩ := x
  cases outcome <;> simp

end Traced

end MotionScene
