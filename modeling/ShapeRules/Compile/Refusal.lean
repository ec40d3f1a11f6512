import ShapeRules.Rdf.NTriples
import ShapeRules.Shacl.Vocabulary
import ShapeRules.Text.Diagnostic

/-!
# Refusals

The reasons for which a shape is not written out. Any of them ends the whole run.

## Main definitions

* `Refusal`: the reasons
* `Refusal.message`: their wording
-/

namespace ShapeRules.Compile

open Rdf Shacl

/-- **Why a shape is not written out.** The shape at fault is given by its name in the program. -/
inductive Refusal where
  /-- A value of a parameter is a triple term. -/
  | unsupportedTerm (shape : String) (parameter : Vocab) (term : Term)
  /-- The library has nothing for a constraint. -/
  | unsupportedConstraint (shape : String) (parameter : Vocab)
  /-- A shape refers to one that is still being written out. -/
  | cyclicReference (shape : String) (reference : Node)
  /-- A shape refers to one that the source does not have. -/
  | unknownShape (shape : String) (reference : Node)
  /-- The name asked for is no identifier. -/
  | malformedName (name : String)
  deriving DecidableEq, Repr

/-- The wording of a refusal. -/
def Refusal.message : Refusal → String
  | .unsupportedTerm shape parameter term =>
    "Shape " ++ shape ++ " has the sh:" ++ parameter.localName ++ " value " ++ term.text ++
      " that cannot be written as a Datalog constant"
  | .unsupportedConstraint shape parameter =>
    "Shape " ++ shape ++ " uses the constraint sh:" ++ parameter.localName ++
      " that has no Datalog translation"
  | .cyclicReference shape reference =>
    "Shape " ++ shape ++ " references " ++ reference.text ++
      " which is already being translated"
  | .unknownShape shape reference =>
    "Shape " ++ shape ++ " references the unknown shape " ++ reference.text
  | .malformedName name => Text.diagnostic name ++ " is not a valid Datalog identifier"

end ShapeRules.Compile
