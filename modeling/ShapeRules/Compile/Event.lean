import ShapeRules.Rdf.NTriples
import ShapeRules.Shacl.Vocabulary

/-!
# Events

A run reports what it does as it goes: which shape it writes out under which name, and what it has
to leave out. Events are data, kept in the order in which they happened.

## Main definitions

* `Event`: what can happen during a run
* `Event.level`, `Event.message`, `Event.fields`: how an event is reported
-/

namespace ShapeRules.Compile

open Rdf Shacl

/-- How much an event matters. -/
inductive Level where
  | debug
  | warning
  deriving DecidableEq, Repr

/-- **What happens during a run.** -/
inductive Event where
  /-- The shapes of a graph were read. -/
  | shapesRead (count : Nat)
  /-- A shape is about to be written out under a name. -/
  | shapeStarted (id : Node) (name : String)
  /-- The flags of a regular expression were left out. -/
  | flagsIgnored (name : String) (flags : Term)
  /-- A constraint without a counterpart was left out. -/
  | constraintSkipped (name : String) (parameter : Vocab)
  /-- All shapes were written out. -/
  | finished (rules : Nat)
  deriving DecidableEq, Repr

namespace Event

/-- How much an event matters. -/
def level : Event → Level
  | shapesRead _ => .debug
  | shapeStarted .. => .debug
  | flagsIgnored .. => .warning
  | constraintSkipped .. => .warning
  | finished _ => .debug

/-- The wording of an event. -/
def message : Event → String
  | shapesRead _ => "shapes graph built"
  | shapeStarted .. => "translating shape"
  | flagsIgnored .. => "regular expression flags have no Datalog translation, ignoring them"
  | constraintSkipped .. => "skipping constraint without Datalog translation"
  | finished _ => "translated shapes graph"

/-- The details of an event, by name. -/
def fields : Event → List (String × String)
  | shapesRead count => [("shapes", toString count)]
  | shapeStarted id name => [("shape", id.text), ("name", name)]
  | flagsIgnored name flags => [("name", name), ("flags", flags.text)]
  | constraintSkipped name parameter => [("name", name), ("kind", parameter.localName)]
  | finished rules => [("rules", toString rules)]

end Event

end ShapeRules.Compile
