import ShapeRules.Compile.Event

/-!
# Runs that report events

A run ends with a value or an error, and has reported events up to that point. Runs are chained: the
second starts with the value of the first, and its events follow; an error ends the chain and keeps
the events reported so far.

## Main definitions

* `Traced ε α`: a run with errors in `ε` and values in `α`
* `Traced.report`, `Traced.ofExcept`: a run that reports one event, and one that reports none

## Main results

* `Traced.bind_eq_ok_iff`: a chain succeeds exactly if both its parts do
-/

namespace ShapeRules.Compile

/-- **A run:** the events reported and the outcome. -/
structure Traced (ε α : Type) where
  events : List Event
  result : Except ε α

namespace Traced

variable {ε α β : Type}

/-- A run that reports nothing and ends with a value. -/
protected def pure (a : α) : Traced ε α := ⟨[], .ok a⟩

/-- A run followed by another one that starts with its value. -/
protected def bind (x : Traced ε α) (f : α → Traced ε β) : Traced ε β :=
  match x.result with
  | .ok a => ⟨x.events ++ (f a).events, (f a).result⟩
  | .error e => ⟨x.events, .error e⟩

instance : Monad (Traced ε) where
  pure := Traced.pure
  bind := Traced.bind

/-- A run that reports nothing. -/
def ofExcept (x : Except ε α) : Traced ε α := ⟨[], x⟩

/-- A run that fails. -/
def refuse (e : ε) : Traced ε α := ⟨[], .error e⟩

/-- A run with its error put in other words. -/
def mapError {ε' : Type} (f : ε → ε') (x : Traced ε α) : Traced ε' α :=
  ⟨x.events, x.result.mapError f⟩

/-- A run that reports one event. -/
def report (event : Event) : Traced ε Unit := ⟨[event], .ok ()⟩

@[simp]
theorem pure_def (a : α) : (pure a : Traced ε α) = ⟨[], .ok a⟩ := rfl

@[simp]
theorem bind_ok (es : List Event) (a : α) (f : α → Traced ε β) :
    (⟨es, .ok a⟩ : Traced ε α) >>= f = ⟨es ++ (f a).events, (f a).result⟩ := rfl

@[simp]
theorem bind_error (es : List Event) (e : ε) (f : α → Traced ε β) :
    (⟨es, .error e⟩ : Traced ε α) >>= f = ⟨es, .error e⟩ := rfl

/-- A chain succeeds exactly if both its parts do. -/
theorem bind_eq_ok_iff {x : Traced ε α} {f : α → Traced ε β} {b : β} :
    (x >>= f).result = .ok b ↔ ∃ a, x.result = .ok a ∧ (f a).result = .ok b := by
  obtain ⟨es, e | a⟩ := x <;> simp

end Traced

end ShapeRules.Compile
