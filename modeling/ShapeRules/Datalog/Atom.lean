import ShapeRules.Datalog.Predicate

/-!
# Atoms

An atom is a predicate applied to arguments that are already written out. Atoms are ordered by
predicate, in declaration order, and then by their arguments, compared as lists of texts.

## Main definitions

* `Atom`: a predicate with its arguments
* `Atom.text`: the written form
-/

namespace ShapeRules.Datalog

/-- **A predicate applied to written arguments.** -/
structure Atom where
  predicate : Predicate
  args : List String
  deriving DecidableEq, Repr

namespace Atom

/-- The written form: the predicate's name, then the arguments in parentheses. -/
def text (a : Atom) : String :=
  a.predicate.name ++ "(" ++ String.intercalate ", " a.args ++ ")"

/-! ## The order of atoms -/

instance : Ord Atom := ⟨compareLex (compareOn predicate) (compareOn args)⟩

instance : Std.TransOrd Atom :=
  inferInstanceAs (Std.TransCmp (compareLex (compareOn predicate) (compareOn args)))

instance : Std.LawfulEqOrd Atom where
  eq_of_compare {a b} h := by
    have h' : (compare a.predicate b.predicate).then (compare a.args b.args) = .eq := h
    rw [Ordering.then_eq_eq] at h'
    cases a
    cases b
    simp_all

end Atom

end ShapeRules.Datalog
