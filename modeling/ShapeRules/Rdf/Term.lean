/-!
# RDF terms

A node is an IRI or a blank node; only nodes can be subjects. A term is a node, a literal, or a
triple term, and any term can be an object. Nothing is validated: any text can be an IRI, a label,
a datatype or a language tag.

Terms and triples carry a linear order, by kind first: IRIs, blank nodes, literals (plain strings,
language strings, typed literals), triple terms. Triples are ordered by predicate, then object, then
subject. The order goes through `key`, which spells a term as a list of texts.

## Main definitions

* `Node`, `Literal`, `Term`, `Triple`
* `Term.key`, `Triple.key`: the spellings that the order compares

## Main results

* `Term.key_append_inj`: no spelling is the beginning of another, so spellings can be chained
-/

namespace ShapeRules.Rdf

/-- **An IRI or a blank node.** -/
inductive Node where
  | iri (value : String)
  | blank (label : String)
  deriving DecidableEq, Repr

/-- The base direction of a text. -/
inductive Direction where
  | leftToRight
  | rightToLeft
  deriving DecidableEq, Repr

/-- The datatype of plain strings. -/
def xsdString : String := "http://www.w3.org/2001/XMLSchema#string"

/-- **A literal:** a lexical form with a datatype or a language tag. A plain string has the
datatype `xsdString`. -/
inductive Literal where
  | typed (lexical datatype : String)
  | tagged (lexical language : String)
  | directed (lexical language : String) (direction : Direction)
  deriving DecidableEq, Repr

namespace Literal

/-- The lexical form. -/
def lexical : Literal → String
  | typed s _ => s
  | tagged s _ => s
  | directed s _ _ => s

/-- The datatype; a literal with a language tag has one of the two datatypes for such texts. -/
def datatype : Literal → String
  | typed _ d => d
  | tagged _ _ => "http://www.w3.org/1999/02/22-rdf-syntax-ns#langString"
  | directed _ _ _ => "http://www.w3.org/1999/02/22-rdf-syntax-ns#dirLangString"

end Literal

/-- **A node, a literal, or a triple term.** -/
inductive Term where
  | node (node : Node)
  | literal (literal : Literal)
  | triple (subject : Node) (predicate : String) (object : Term)
  deriving DecidableEq, Repr

namespace Term

/-- The term of an IRI. -/
@[match_pattern]
abbrev iri (value : String) : Term := .node (.iri value)

/-- The term of a blank node. -/
@[match_pattern]
abbrev blank (label : String) : Term := .node (.blank label)

end Term

instance : Coe Node Term := ⟨.node⟩

/-- **A statement of a graph.** -/
structure Triple where
  subject : Node
  predicate : String
  object : Term
  deriving DecidableEq, Repr

/-! ## The order of nodes, terms and triples -/

/-- The spelling of a node: its kind, then its text. -/
def Node.key : Node → List String
  | .iri s => ["0", s]
  | .blank s => ["1", s]

/-- The spelling of a direction. -/
def Direction.key : Direction → String
  | .leftToRight => "0"
  | .rightToLeft => "1"

/-- The spelling of a literal: its kind, then its texts. Plain strings come first. -/
def Literal.key : Literal → List String
  | .typed s d => if d = xsdString then ["2", s] else ["5", s, d]
  | .tagged s l => ["3", s, l]
  | .directed s l d => ["4", s, l, d.key]

/-- The spelling of a term: its kind, then its parts. -/
def Term.key : Term → List String
  | .node n => n.key
  | .literal l => l.key
  | .triple s p o => "6" :: (s.key ++ p :: o.key)

/-- The spelling of a triple: predicate, object, subject. -/
def Triple.key (t : Triple) : List String :=
  t.predicate :: (t.object.key ++ t.subject.key)

theorem Node.key_append_inj {a b : Node} {x y : List String} (h : a.key ++ x = b.key ++ y) :
    a = b ∧ x = y := by
  cases a <;> cases b <;> simp_all [Node.key]

theorem Direction.key_inj {a b : Direction} (h : a.key = b.key) : a = b := by
  cases a <;> cases b <;> simp_all [Direction.key]

theorem Literal.key_append_inj {a b : Literal} {x y : List String}
    (h : a.key ++ x = b.key ++ y) : a = b ∧ x = y := by
  cases a <;> cases b <;> simp only [Literal.key] at h <;> (repeat' split at h) <;> simp_all
  exact Direction.key_inj h.2.2.1

/-- No spelling of a term is the beginning of another. -/
theorem Term.key_append_inj {a b : Term} {x y : List String} (h : a.key ++ x = b.key ++ y) :
    a = b ∧ x = y := by
  induction a generalizing b x y with
  | node m =>
    cases b with
    | node n => simpa using Node.key_append_inj h
    | literal l =>
      cases m <;> cases l <;> simp only [Term.key, Node.key, Literal.key] at h <;>
        (try split at h) <;> simp at h
    | triple s p o => cases m <;> simp [Term.key, Node.key] at h
  | literal m =>
    cases b with
    | node n =>
      cases m <;> cases n <;> simp only [Term.key, Node.key, Literal.key] at h <;>
        (try split at h) <;> simp at h
    | literal l => simpa using Literal.key_append_inj h
    | triple s p o =>
      cases m <;> simp only [Term.key, Literal.key] at h <;> (try split at h) <;> simp at h
  | triple s p o ih =>
    cases b with
    | node n => cases n <;> simp [Term.key, Node.key] at h
    | literal l =>
      cases l <;> simp only [Term.key, Literal.key] at h <;> (try split at h) <;> simp at h
    | triple s' p' o' =>
      simp only [Term.key, List.cons_append, List.append_assoc, List.cons.injEq, true_and] at h
      obtain ⟨rfl, hp⟩ := Node.key_append_inj h
      obtain ⟨rfl, ho⟩ := List.cons.inj hp
      obtain ⟨rfl, rfl⟩ := ih ho
      simp

theorem Node.key_inj {a b : Node} (h : a.key = b.key) : a = b :=
  (Node.key_append_inj (congrArg (· ++ []) h)).1

theorem Term.key_inj {a b : Term} (h : a.key = b.key) : a = b :=
  (Term.key_append_inj (congrArg (· ++ []) h)).1

theorem Triple.key_inj {a b : Triple} (h : a.key = b.key) : a = b := by
  simp only [Triple.key, List.cons.injEq] at h
  obtain ⟨hp, h⟩ := h
  obtain ⟨ho, h⟩ := Term.key_append_inj h
  have hs := Node.key_inj h
  cases a
  cases b
  simp_all

instance : Ord Node := ⟨compareOn Node.key⟩

instance : Std.TransOrd Node := inferInstanceAs (Std.TransCmp (compareOn Node.key))

instance : Std.LawfulEqOrd Node where
  eq_of_compare h := Node.key_inj (Std.LawfulEqOrd.eq_of_compare h)

instance : Ord Triple := ⟨compareOn Triple.key⟩

instance : Std.TransOrd Triple := inferInstanceAs (Std.TransCmp (compareOn Triple.key))

instance : Std.LawfulEqOrd Triple where
  eq_of_compare h := Triple.key_inj (Std.LawfulEqOrd.eq_of_compare h)

end ShapeRules.Rdf
