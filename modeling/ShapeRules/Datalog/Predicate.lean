/-!
# Predicates of the validation library

A program is written over the predicates of one fixed library of validation rules. Their names are
reserved, and their declaration order is the order in which atoms are compared.

## Main definitions

* `Predicate`: the predicates, in declaration order
* `Predicate.name`: the name of a predicate in a program
* `Predicate.all`: every predicate, in declaration order
* `Predicate.ofName?`: the predicate of a name

## Main results

* `Predicate.mem_all`: no predicate is missing from `Predicate.all`
* `Predicate.name_injective`: different predicates have different names
-/

namespace ShapeRules.Datalog

/-- **The predicates of the validation library**, in declaration order: validation, typing,
literals, shape metadata, then constraints. -/
inductive Predicate where
  | satisfied
  | conforms
  | target
  | valueNode
  | path
  | instanceOf
  | subclass
  | datatype
  | nodeKind
  | value
  | language
  | description
  | severity
  | message
  | deactivated
  | nodeShape
  | propertyShape
  | propertyPath
  | minCountConstr
  | maxCountConstr
  | notConstr
  | andConstr
  | andShape
  | orConstr
  | orShape
  | xoneConstr
  | xoneShape
  | equalsConstr
  | disjointConstr
  | lessThanConstr
  | lessThanOrEqConstr
  | propertyConstr
  | nodeConstr
  | qualifiedValueConstr
  | qualifiedValueShape
  | qualifiedValueDisjoint
  | qualifiedMinCount
  | qualifiedMaxCount
  | minLengthConstr
  | maxLengthConstr
  | patternConstr
  | regexMatch
  | languageInConstr
  | constrLanguageTag
  | uniqueLangConstr
  | classConstr
  | datatypeConstr
  | nodeKindConstr
  | minExclusiveConstr
  | minInclusiveConstr
  | maxExclusiveConstr
  | maxInclusiveConstr
  deriving DecidableEq, Repr

namespace Predicate

/-- The name of a predicate in a program. -/
def name : Predicate → String
  | .satisfied => "satisfied"
  | .conforms => "conforms"
  | .target => "target"
  | .valueNode => "value_node"
  | .path => "path"
  | .instanceOf => "instance_of"
  | .subclass => "subclass"
  | .datatype => "datatype"
  | .nodeKind => "node_kind"
  | .value => "value"
  | .language => "language"
  | .description => "description"
  | .severity => "severity"
  | .message => "message"
  | .deactivated => "deactivated"
  | .nodeShape => "node_shape"
  | .propertyShape => "property_shape"
  | .propertyPath => "property_path"
  | .minCountConstr => "min_count_constr"
  | .maxCountConstr => "max_count_constr"
  | .notConstr => "not_constr"
  | .andConstr => "and_constr"
  | .andShape => "and_shape"
  | .orConstr => "or_constr"
  | .orShape => "or_shape"
  | .xoneConstr => "xone_constr"
  | .xoneShape => "xone_shape"
  | .equalsConstr => "equals_constr"
  | .disjointConstr => "disjoint_constr"
  | .lessThanConstr => "less_than_constr"
  | .lessThanOrEqConstr => "less_than_or_eq_constr"
  | .propertyConstr => "property_constr"
  | .nodeConstr => "node_constr"
  | .qualifiedValueConstr => "qualified_value_constr"
  | .qualifiedValueShape => "qualified_value_shape"
  | .qualifiedValueDisjoint => "qualified_value_disjoint"
  | .qualifiedMinCount => "qualified_min_count"
  | .qualifiedMaxCount => "qualified_max_count"
  | .minLengthConstr => "min_length_constr"
  | .maxLengthConstr => "max_length_constr"
  | .patternConstr => "pattern_constr"
  | .regexMatch => "regex_match"
  | .languageInConstr => "language_in_constr"
  | .constrLanguageTag => "constr_language_tag"
  | .uniqueLangConstr => "unique_lang_constr"
  | .classConstr => "class_constr"
  | .datatypeConstr => "datatype_constr"
  | .nodeKindConstr => "node_kind_constr"
  | .minExclusiveConstr => "min_exclusive_constr"
  | .minInclusiveConstr => "min_inclusive_constr"
  | .maxExclusiveConstr => "max_exclusive_constr"
  | .maxInclusiveConstr => "max_inclusive_constr"

/-- Every predicate, in declaration order. -/
def all : List Predicate :=
  [.satisfied, .conforms, .target, .valueNode, .path, .instanceOf, .subclass, .datatype, .nodeKind,
    .value, .language, .description, .severity, .message, .deactivated, .nodeShape, .propertyShape,
    .propertyPath, .minCountConstr, .maxCountConstr, .notConstr, .andConstr, .andShape, .orConstr,
    .orShape, .xoneConstr, .xoneShape, .equalsConstr, .disjointConstr, .lessThanConstr,
    .lessThanOrEqConstr, .propertyConstr, .nodeConstr, .qualifiedValueConstr, .qualifiedValueShape,
    .qualifiedValueDisjoint, .qualifiedMinCount, .qualifiedMaxCount, .minLengthConstr,
    .maxLengthConstr, .patternConstr, .regexMatch, .languageInConstr, .constrLanguageTag,
    .uniqueLangConstr, .classConstr, .datatypeConstr, .nodeKindConstr, .minExclusiveConstr,
    .minInclusiveConstr, .maxExclusiveConstr, .maxInclusiveConstr]

theorem mem_all (p : Predicate) : p ∈ all := by
  cases p <;> decide

theorem nodup_all : all.Nodup := by decide +kernel

/-- The predicate of a given name. -/
def ofName? (s : String) : Option Predicate :=
  all.find? (·.name == s)

@[simp]
theorem ofName?_name (p : Predicate) : ofName? p.name = some p :=
  (by decide +kernel : ∀ p ∈ all, ofName? p.name = some p) p (mem_all p)

theorem name_injective {p q : Predicate} (h : p.name = q.name) : p = q := by
  have hq := ofName?_name q
  rw [← h, ofName?_name] at hq
  exact Option.some.inj hq

/-! ## The order of declaration -/

instance : Ord Predicate := ⟨compareOn Predicate.ctorIdx⟩

instance : Std.TransOrd Predicate :=
  inferInstanceAs (Std.TransCmp (compareOn Predicate.ctorIdx))

instance : Std.LawfulEqOrd Predicate where
  eq_of_compare {p q} h := by
    have h' : p.ctorIdx = q.ctorIdx := Std.LawfulEqOrd.eq_of_compare h
    rw [← ofNat_ctorIdx p, h', ofNat_ctorIdx q]

end Predicate

end ShapeRules.Datalog
