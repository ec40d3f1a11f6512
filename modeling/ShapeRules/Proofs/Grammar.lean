import ShapeRules.Rdf.Canonical
import ShapeRules.Proofs.Spelling

/-!
# The grammar of programs

No rule is checked when it is written, and an engine takes a predicate with one argument more or
less for another relation. The grammar here says what may be written: which predicates occur, how
many arguments each of them has, and what each argument is. Every program follows it, whatever the
names, IRIs and literals of its shapes are. If moreover no label of a blank node has a character
that structures a text, then all arguments are tokens, and the program can be read back.

## Main definitions

* `Datalog.Clause.InGrammar`: the clauses of the grammar
* `Datalog.Predicate.arity?`: the number of arguments of each predicate that is written

## Main results

* `Form.inGrammar`, `Form.tokenized`: rules about a shape follow the grammar
* `program_in_grammar`: every program follows the grammar
-/

namespace ShapeRules

open Rdf Shacl Datalog Compile

/-! ## The grammar -/

/-- **The clauses of the grammar:** marks and kinds of shapes, counts below `2 ^ 64`, links between
two names, constants of terms, severities, and rules that select nodes by one atom. -/
inductive Datalog.Clause.InGrammar : Clause → Prop
  | mark {p : Predicate} {name : String} (mem : p ∈ markPredicates ++ kindPredicates)
      (identifier : isIdentifier name) : InGrammar ⟨⟨p, [name]⟩, ∅⟩
  | count {p : Predicate} {name : String} {n : Nat} (mem : p ∈ countPredicates)
      (identifier : isIdentifier name) (bound : n < 2 ^ 64) (pos : p = .minCountConstr → n ≠ 0) :
      InGrammar ⟨⟨p, [name, toString n]⟩, ∅⟩
  | link {p : Predicate} {name child : String} (mem : p ∈ linkPredicates)
      (identifier : isIdentifier name) (nested : isIdentifier child) :
      InGrammar ⟨⟨p, [name, child]⟩, ∅⟩
  | value {p : Predicate} {name c : String} {t : Term} (mem : p ∈ valuePredicates)
      (identifier : isIdentifier name) (constant : t.constant? = .ok c) :
      InGrammar ⟨⟨p, [name, c]⟩, ∅⟩
  | severity {name iri : String} (identifier : isIdentifier name) :
      InGrammar ⟨⟨.severity, [name, Text.quote iri]⟩, ∅⟩
  | select {name c : String} {t : Term} {atom : Atom} (identifier : isIdentifier name)
      (constant : t.constant? = .ok c)
      (mem : atom ∈ [⟨.instanceOf, [c, "X"]⟩, ⟨.path, ["_", c, "X"]⟩, ⟨.path, ["X", c, "_"]⟩]) :
      InGrammar ⟨⟨.target, [name, "X"]⟩, .ofList [atom]⟩

/-- **The number of arguments of a predicate that is written;** the other predicates of the library
are never written. -/
def Datalog.Predicate.arity? (p : Predicate) : Option Nat :=
  if p ∈ markPredicates ++ kindPredicates then some 1
  else if p ∈ .severity :: .instanceOf ::
      (countPredicates ++ linkPredicates ++ valuePredicates) then some 2
  else if p = .path then some 3
  else none

namespace Datalog.Clause.InGrammar

variable {c : Clause}

/-- Each predicate has one number of arguments, in heads and in bodies. -/
theorem arity (h : c.InGrammar) :
    ∀ a ∈ c.head :: c.body.toList, a.predicate.arity? = some a.args.length := by
  have hmark : ∀ p ∈ markPredicates ++ kindPredicates, p.arity? = some 1 := by decide
  have hcount : ∀ p ∈ countPredicates, p.arity? = some 2 := by decide
  have hlink : ∀ p ∈ linkPredicates, p.arity? = some 2 := by decide
  have hvalue : ∀ p ∈ valuePredicates, p.arity? = some 2 := by decide
  cases h with
  | mark mem _ => exact List.forall_mem_singleton.2 (hmark _ mem)
  | count mem _ _ _ => exact List.forall_mem_singleton.2 (hcount _ mem)
  | link mem _ _ => exact List.forall_mem_singleton.2 (hlink _ mem)
  | value mem _ _ => exact List.forall_mem_singleton.2 (hvalue _ mem)
  | severity _ => exact List.forall_mem_singleton.2 rfl
  | select _ _ mem =>
    refine List.forall_mem_cons.2 ⟨rfl, List.forall_mem_singleton.2 ?_⟩
    simp only [List.mem_cons, List.not_mem_nil, or_false] at mem
    rcases mem with rfl | rfl | rfl <;> rfl

end Datalog.Clause.InGrammar

/-! ## Rules about a shape -/

theorem Rdf.Term.constant?_of_mem_written {t : Term} {c : String} (h : c ∈ t.written) :
    t.constant? = .ok c := by
  cases t with
  | node n =>
    obtain rfl := List.mem_singleton.1 h
    rfl
  | literal l =>
    obtain rfl := List.mem_singleton.1 h
    rfl
  | triple s p o => cases h

namespace Form

variable {terms : List Term} {names : List String} {name : String} {r : Rule}

/-- **A rule about a shape follows the grammar,** if the names are identifiers. -/
theorem inGrammar (h : Form terms names name r) (hname : isIdentifier name)
    (hnames : ∀ child ∈ names, isIdentifier child) : r.toClause.InGrammar := by
  cases h with
  | plain h =>
    cases h with
    | mark mem => exact .mark (List.mem_append_left _ mem) hname
    | @count p n mem pos =>
      -- a count is written as the number that it stands for
      refine .count (n := n.toNat) mem hname n.toNat_lt fun hp hn => pos hp ?_
      exact UInt64.toNat_inj.1 hn
    | value mem constant _ => exact .value mem hname (Term.constant?_of_mem_written constant)
    | select constant mem _ => exact .select hname (Term.constant?_of_mem_written constant) mem
  | severity iri => exact .severity hname
  | kind mem comment => exact .mark (List.mem_append_right _ mem) hname
  | link mem nested => exact .link mem hname (hnames _ nested)

/-- **The arguments of a rule about a shape are tokens,** if moreover the labels of the blank nodes
among its terms are. -/
theorem tokenized (h : Form terms names name r) (hname : isIdentifier name)
    (hnames : ∀ child ∈ names, isIdentifier child)
    (hlabels : ∀ b, Term.blank b ∈ terms → ∀ c ∈ b.toList, isTokenChar c) :
    r.toClause.Tokenized := by
  have hself : IsToken name := isToken_of_isIdentifier hname
  have hconstant : ∀ {t c}, c ∈ t.written → t ∈ terms → IsToken c := by
    intro t c hc ht
    refine t.isToken_of_mem_written hc ?_
    rintro b rfl
    exact hlabels b ht
  -- a fact has its arguments in the head
  have hfact : ∀ {p args}, (∀ arg ∈ args, IsToken arg) → (about p name args).toClause.Tokenized :=
    fun hargs => ⟨List.forall_mem_cons.2 ⟨hself, hargs⟩, fun a ha => absurd ha List.not_mem_nil⟩
  cases h with
  | plain h =>
    cases h with
    | mark mem => exact hfact (by simp)
    | @count p n mem pos => exact hfact (List.forall_mem_singleton.2 (isToken_count n.toNat))
    | value mem constant stated =>
      exact hfact (List.forall_mem_singleton.2 (hconstant constant stated))
    | select constant mem stated =>
      have hfocus : IsToken focusVariable := isToken_of_isIdentifier (by decide)
      have hanonymous : IsToken anonymousVariable := isToken_of_isIdentifier (by decide)
      have hvalue := hconstant constant stated
      refine ⟨by simp [Atom.Tokenized, selectRule, Rule.derive, hself, hfocus], fun a ha => ?_⟩
      obtain rfl := List.mem_singleton.1 (OrderedSet.mem_ofList.1 ha)
      simp only [List.mem_cons, List.not_mem_nil, or_false] at mem
      rcases mem with rfl | rfl | rfl <;> simp [Atom.Tokenized, hvalue, hfocus, hanonymous]
  | severity iri => exact hfact (List.forall_mem_singleton.2 (isToken_quote iri))
  | kind mem comment => exact (hfact (by simp) : (about _ name []).toClause.Tokenized)
  | link mem nested =>
    exact hfact (List.forall_mem_singleton.2 (isToken_of_isIdentifier (hnames _ nested)))

end Form

/-! ## Where occurrences come from -/

theorem Nests.mem_known {src : ShapeSource} {options : Options} {around references : List Node}
    {f : Forest Shape} (hf : Nests src options around references f) : f.preorder ⊆ src.known := by
  induction hf with
  | nil => exact List.nil_subset _
  | cons _ resolved _ _ _ ih₁ ih₂ =>
    exact List.cons_subset.2
      ⟨ShapeSource.mem_of_resolve resolved, List.append_subset.2 ⟨ih₁, ih₂⟩⟩

/-- Every occurrence is that of a shape to write out or of a known one. -/
theorem Grows.mem_shapes_or_known {src : ShapeSource} {options : Options} {shapes : List Shape}
    {f : Forest Shape} (hf : Grows src options shapes f) : f.preorder ⊆ shapes ++ src.known := by
  induction hf with
  | nil => exact List.nil_subset _
  | cons _ inner _ ih =>
    refine List.cons_subset.2 ⟨List.mem_cons_self, List.append_subset.2 ⟨?_, ?_⟩⟩
    · exact List.Subset.trans inner.mem_known (List.subset_append_right _ _)
    · exact List.Subset.trans ih (List.subset_cons_self _ _)

/-! ## The programs of sources -/

/-- **Every program follows the grammar,** with a fixed number of arguments for each predicate. If
no label of a blank node that a shape writes has a quote, a comma, a parenthesis or a line end, then
every argument is a token. -/
theorem program_in_grammar {src : ShapeSource} {options : Options} {program : Program}
    (h : (compile src options).result = .ok program) :
    (∀ r ∈ program.rules, r.toClause.InGrammar) ∧
    (∀ r ∈ program.rules, ∀ a ∈ r.head :: r.body.toList,
      a.predicate.arity? = some a.args.length) ∧
    ((∀ s ∈ src.shapes ++ src.known, ∀ b, Term.blank b ∈ s.writtenTerms →
      ∀ c ∈ b.toList, c ∉ ['"', ',', '(', ')', '\n']) → program.Tokenized) := by
  obtain ⟨f, hf, rfl⟩ := compile_eq_ok_iff.1 h
  obtain ⟨-, -, -, hidentifiers⟩ := Forest.names_named .initial f
  have hnames : ∀ name ∈ (f.named .initial).1.preorder.map Occurrence.name, isIdentifier name :=
    List.forall_mem_map.2 hidentifiers
  -- every rule is about an occurrence of one of the shapes of the source
  have hform : ∀ r ∈ (Program.ofRules options.library (f.named .initial).1.rules).rules,
      ∃ o ∈ (f.named .initial).1.preorder, o.shape ∈ src.shapes ++ src.known ∧
        Form o.shape.writtenTerms ((f.named .initial).1.preorder.map Occurrence.name) o.name r := by
    intro r hr
    rw [Program.rules_ofRules] at hr
    obtain ⟨o, ho, hr⟩ := Forest.exists_form_of_mem_rules (distinct_subset _ hr)
    refine ⟨o, ho, hf.mem_shapes_or_known ?_, hr⟩
    rw [← Forest.map_shape_named .initial f, Forest.preorder_map]
    exact List.mem_map_of_mem ho
  have hgrammar : ∀ r ∈ (Program.ofRules options.library (f.named .initial).1.rules).rules,
      r.toClause.InGrammar := by
    intro r hr
    obtain ⟨o, ho, -, hr⟩ := hform r hr
    exact hr.inGrammar (hidentifiers o ho) hnames
  refine ⟨hgrammar, fun r hr => (hgrammar r hr).arity, fun hlabels r hr => ?_⟩
  obtain ⟨o, ho, hsrc, hr⟩ := hform r hr
  exact hr.tokenized (hidentifiers o ho) hnames fun b hb c hc =>
    decide_eq_true (hlabels o.shape hsrc b hb c hc)

/-- A shape whose name and values have characters that structure a text. -/
def structuredTexts : Shape where
  id := .iri "a"
  names := ["p(\"q\"),\n"]
  descriptions := [.literal (.tagged "target(x, y).\n" "en")]
  targets := [.node (.blank "b-1"), .subjectsOf (.iri "p, \"q\"")]
  constraints := [.node [.blank "b-2"], .not [.blank "b-1"], .maxCount 0]

/-- A shape that nests another one. -/
def structuredSource : ShapeSource where
  shapes := [structuredTexts]
  known := [structuredTexts,
    { id := .blank "b-2", isProperty := true, constraints := [.uniqueLang, .minCount 3] }]

theorem program_in_grammar_structuredSource :
    ∃ program, (compile structuredSource {}).result = .ok program ∧ program.size = 12 ∧
      (∀ r ∈ program.rules, r.toClause.InGrammar) ∧ program.Tokenized := by
  have h : (compile structuredSource {}).result =
      .ok ((compile structuredSource {}).result.toOption.getD {}) := by decide +kernel
  obtain ⟨hgrammar, -, htokens⟩ := program_in_grammar h
  refine ⟨_, h, by decide +kernel, hgrammar, htokens ?_⟩
  have hlabels : ∀ s ∈ structuredSource.shapes ++ structuredSource.known,
      ∀ t ∈ s.writtenTerms, ∀ b ∈ t.blanks, b.toList.all isTokenChar := by decide +kernel
  intro s hs b hb c hc
  exact of_decide_eq_true
    (List.all_eq_true.1 (hlabels s hs _ hb b (List.mem_singleton_self b)) c hc)

end ShapeRules
