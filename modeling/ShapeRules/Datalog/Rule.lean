import ShapeRules.Datalog.Atom
import ShapeRules.OrderedSet
import ShapeRules.Text.Lines

/-!
# Rules

A rule derives its head from the conjunction of its body, a set of atoms; a rule with an empty body
is a fact. Comments are written above a rule and are no part of what it says: two rules with the
same clause, that is the same head and body, are taken for the same rule.

## Main definitions

* `Clause`, `Rule`: head and body, with or without comments
* `Rule.fact`, `Rule.derive`: a fact, and a rule with a body
* `Rule.text`: the written form
-/

namespace ShapeRules.Datalog

/-- The head of a rule with the set of the atoms of its body. -/
structure Clause where
  head : Atom
  body : OrderedSet Atom
  deriving DecidableEq

/-- **A clause with the comments written above it.** -/
structure Rule extends Clause where
  comments : List String := []
  deriving DecidableEq

namespace Rule

/-- A rule with an empty body. -/
def fact (head : Atom) : Rule :=
  { head, body := ∅ }

/-- The rule that derives `head` from the conjunction of `body`. -/
def derive (head : Atom) (body : List Atom) : Rule :=
  { head, body := OrderedSet.ofList body }

/-- A rule with one more comment. -/
def withComment (r : Rule) (comment : String) : Rule :=
  { r with comments := r.comments ++ [comment] }

@[simp]
theorem toClause_withComment (r : Rule) (c : String) : (r.withComment c).toClause = r.toClause :=
  rfl

/-- The lines written above a rule, each with its line end. -/
def commentText (r : Rule) : String :=
  String.join ((r.comments.flatMap Text.lines).map fun line => "// " ++ line ++ "\n")

end Rule

namespace Clause

/-- The blanks that put a body atom under the first one. The width of the head is counted in
bytes. -/
def indent (c : Clause) : String :=
  String.ofList (List.replicate (c.head.text.utf8ByteSize + 4) ' ')

/-- The written body: the first atom after ` :- `, each other one on a line of its own. -/
def bodyText (c : Clause) : String :=
  match c.body.toList with
  | [] => ""
  | a :: rest => " :- " ++ a.text ++ String.join (rest.map fun b => ",\n" ++ c.indent ++ b.text)

/-- The written clause. -/
def text (c : Clause) : String :=
  c.head.text ++ c.bodyText ++ "."

/-! ## The order of clauses -/

instance : Ord Clause := ⟨compareLex (compareOn head) (compareOn (·.body.toList))⟩

instance : Std.TransOrd Clause :=
  inferInstanceAs (Std.TransCmp (compareLex (compareOn head) (compareOn (·.body.toList))))

instance : Std.LawfulEqOrd Clause where
  eq_of_compare {c d} h := by
    have h' : (compare c.head d.head).then (compare c.body.toList d.body.toList) = .eq := h
    rw [Ordering.then_eq_eq, Std.compare_eq_iff_eq, Std.compare_eq_iff_eq] at h'
    obtain ⟨hhead, hbody⟩ := h'
    cases c
    cases d
    congr 1
    exact OrderedSet.toList_injective hbody

end Clause

/-- **The written form of a rule:** its comment lines, then its clause. -/
def Rule.text (r : Rule) : String :=
  r.commentText ++ r.toClause.text

end ShapeRules.Datalog
