import ShapeRules.Proofs.Links

/-!
# Variables and the names of shapes

The rules that select nodes use two variables, `X` for the node that is selected and `_` for a node
that does not matter. Constants and counts never look like one of them. A name may: neither variable
is taken from the start, so the first occurrence of a shape that asks for it gets it. A program
keeps its variables apart from its names exactly if no shape in it asks for one of them.

## Main definitions

* `isVariable`: whether an argument is a variable
* `Hygienic`: names are no variables, facts are ground, and the head of a rule that selects nodes
  has no variable but the one for the node

## Main results

* `Datalog.Namespace.mem_allocateAll_iff`: a variable becomes a name exactly if it is asked for
* `Rdf.Term.not_isVariable_of_mem_written`: the constant of a term is no variable
* `hygienic_iff_no_variable_preferred`: which programs are hygienic
-/

namespace ShapeRules

open Rdf Shacl Datalog Compile

/-- Whether an argument is a variable: the one for the selected node, or the anonymous one. -/
def isVariable (arg : String) : Bool := arg = focusVariable || arg = anonymousVariable

/-- The variables among the arguments of an atom, in order. -/
def Datalog.Atom.variables (a : Atom) : List String := a.args.filter isVariable

theorem isVariable_iff {v : String} : isVariable v ↔ v = focusVariable ∨ v = anonymousVariable := by
  simp [isVariable]

theorem isDigit_eq_false_of_isVariable {v : String} (hv : isVariable v) {c : Char}
    (hc : c ∈ v.toList) : c.isDigit = false := by
  rcases isVariable_iff.1 hv with rfl | rfl
  · obtain rfl : c = 'X' := List.mem_singleton.1 hc
    rfl
  · obtain rfl : c = '_' := List.mem_singleton.1 hc
    rfl

/-! ## Names that are variables -/

namespace Datalog

theorem keepIf_eq_self_of_ne {allowed : Char → Bool} {c : Char}
    (h : keepIf allowed c ≠ placeholder) : keepIf allowed c = c := by
  unfold keepIf at h ⊢
  split
  · rfl
  next hc => exact absurd (if_neg hc) h

/-- A text that is sanitized without placeholders is left alone. -/
theorem sanitize_eq_self {s : String} (h : placeholder ∉ (sanitize s).toList) : sanitize s = s := by
  rw [← String.toList_inj]
  rw [sanitize, String.toList_ofList] at h ⊢
  cases hs : s.toList with
  | nil => rfl
  | cons c cs =>
    rw [hs, sanitizeChars, List.mem_cons, not_or] at h
    have hmap : cs.map (keepIf isIdentifierPart) = cs := by
      apply (List.map_congr_left _).trans (List.map_id cs)
      intro d hd
      have hne : keepIf isIdentifierPart d ≠ placeholder :=
        fun he => h.2 (he ▸ List.mem_map_of_mem hd)
      exact keepIf_eq_self_of_ne hne
    rw [sanitizeChars, keepIf_eq_self_of_ne fun he => h.1 he.symm, hmap]

/-- A candidate without digits is its base. -/
theorem candidate_eq_base {base : String} {n : Nat}
    (h : ∀ c ∈ (candidate base n).toList, c.isDigit = false) : candidate base n = base := by
  cases n with
  | zero => rfl
  | succ n =>
    obtain ⟨c, hc⟩ := List.exists_mem_of_ne_nil (Nat.toDigits 10 n) Nat.toDigits_ne_nil
    have hdigit := Nat.isDigit_of_mem_toDigits (by decide) (by decide) hc
    have hnot : c.isDigit = false := by
      apply h
      rw [toList_candidate]
      exact List.mem_append_right _ hc
    rw [hnot] at hdigit
    cases hdigit

namespace Namespace

/-- **A variable that is free is allocated exactly if it is asked for.** -/
theorem allocate_eq_variable_iff {ns : Namespace} {v : String} (hv : isVariable v)
    (hfree : v ∉ ns.names) (preferred : Option String) :
    (ns.allocate preferred).1 = v ↔ preferred = some v := by
  -- what the two variables have in common
  have hspec : sanitize v = v ∧ placeholder ∉ v.toList ∧ v ≠ "" ∧ v ≠ defaultName := by
    rcases isVariable_iff.1 hv with rfl | rfl <;> decide
  obtain ⟨hsanitize, hplaceholder, hempty, hdefault⟩ := hspec
  obtain ⟨m, -, hm, -, htaken⟩ := firstFreeFrom_spec (sanitize (baseName preferred)) 0 ns.names
  have hname : (ns.allocate preferred).1 = candidate (sanitize (baseName preferred)) m := hm
  rw [hname]
  constructor
  · intro he
    -- no number was added and nothing was replaced
    have hbase := candidate_eq_base fun c hc => isDigit_eq_false_of_isVariable hv (he ▸ hc)
    rw [he] at hbase
    have hname := sanitize_eq_self (hbase ▸ hplaceholder)
    rw [← hbase] at hname
    cases preferred with
    | none => exact absurd hname hdefault
    | some s =>
      rw [baseName] at hname
      split at hname
      · exact absurd hname hdefault
      · rw [hname]
  · rintro rfl
    have hbase : sanitize (baseName (some v)) = v := by rw [baseName, if_neg hempty, hsanitize]
    rw [hbase] at htaken ⊢
    cases m with
    | zero => rfl
    | succ m => exact absurd (htaken 0 (Nat.zero_le 0) (Nat.succ_pos m)) hfree

/-- **A variable becomes a name exactly if it is asked for.** -/
theorem mem_allocateAll_iff {ns : Namespace} {v : String} (hv : isVariable v)
    (hfree : v ∉ ns.names) (l : List (Option String)) : v ∈ (ns.allocateAll l).1 ↔ some v ∈ l := by
  induction l generalizing ns with
  | nil => simp [allocateAll]
  | cons preferred l ih =>
    have hfirst := allocate_eq_variable_iff hv hfree preferred
    rw [allocateAll, List.mem_cons, List.mem_cons, eq_comm, hfirst, eq_comm]
    by_cases hp : some v = preferred
    · simp [hp]
    · -- it is still free after the first name
      have hfree' : v ∉ (ns.allocate preferred).2.names := by
        rw [names_allocate, List.mem_append, List.mem_singleton, not_or]
        exact ⟨hfree, fun he => hp (hfirst.1 he.symm).symm⟩
      rw [ih hfree']

theorem variable_not_mem_initial {v : String} (hv : isVariable v) : v ∉ initial.names := by
  rcases isVariable_iff.1 hv with rfl | rfl <;> decide

end Namespace

end Datalog

/-! ## Constants are no variables -/

/-- Some character is a digit. -/
def HasDigit (cs : List Char) : Prop := ∃ c ∈ cs, c.isDigit

theorem HasDigit.mono {cs ds : List Char} (h : HasDigit cs) (hsub : cs ⊆ ds) : HasDigit ds := by
  obtain ⟨c, hc, hdigit⟩ := h
  exact ⟨c, hsub hc, hdigit⟩

theorem hasDigit_toDigits (n : Nat) : HasDigit (Nat.toDigits 10 n) := by
  obtain ⟨c, hc⟩ := List.exists_mem_of_ne_nil (Nat.toDigits 10 n) Nat.toDigits_ne_nil
  exact ⟨c, hc, Nat.isDigit_of_mem_toDigits (by decide) (by decide) hc⟩

theorem not_isVariable_of_hasDigit {s : String} (h : HasDigit s.toList) : ¬ isVariable s := by
  intro hv
  obtain ⟨c, hc, hdigit⟩ := h
  rw [isDigit_eq_false_of_isVariable hv hc] at hdigit
  cases hdigit

theorem not_isVariable_of_head {s : String} {c : Char} {cs : List Char} (h : s.toList = c :: cs)
    (hc : c ≠ 'X') (hc' : c ≠ '_') : ¬ isVariable s := by
  intro hv
  rcases isVariable_iff.1 hv with rfl | rfl
  · exact hc (List.cons.inj h).1.symm
  · exact hc' (List.cons.inj h).1.symm

theorem not_isVariable_quote (s : String) : ¬ isVariable (Text.quote s) :=
  not_isVariable_of_head (Text.toList_quote s) (by decide) (by decide)

theorem not_isVariable_count (n : Count) : ¬ isVariable (toString n) := by
  apply not_isVariable_of_hasDigit
  have h : (toString n).toList = Nat.toDigits 10 n.toNat := by simp [toString]
  rw [h]
  exact hasDigit_toDigits n.toNat

theorem Rdf.Node.not_isVariable_constant (n : Node) : ¬ isVariable n.constant := by
  cases n with
  | iri s => exact not_isVariable_quote s
  | blank s =>
    have h : (Node.blank s).constant.toList = 'b' :: ("lank_node".toList ++ s.toList) :=
      String.toList_append
    exact not_isVariable_of_head h (by decide) (by decide)

namespace Value

theorem hasDigit_padded (width n : Nat) : HasDigit (padded width n) :=
  (hasDigit_toDigits n).mono (List.subset_append_right _ _)

theorem hasDigit_positional (negative : Bool) (places n : Nat) :
    HasDigit (positional negative places n) :=
  (hasDigit_toDigits (n / tenTo places)).mono
    (List.Subset.trans (List.subset_append_right _ _) (List.subset_append_left _ _))

theorem hasDigit_finite (f : BinaryFormat) (negative : Bool) (mantissa : Nat) (exponent : Int) :
    HasDigit (f.text (.finite negative mantissa exponent)) := by
  rw [BinaryFormat.text]
  split
  · exact hasDigit_positional ..
  · exact hasDigit_positional ..

theorem hasDigit_integer (n : Int) : HasDigit (toString n).toList := by
  rw [toList_integer]
  exact (hasDigit_toDigits n.natAbs).mono (List.subset_append_right _ _)

theorem hasDigit_day (d : Day) : HasDigit d.text :=
  (hasDigit_padded 2 d.day).mono fun _ hc =>
    List.mem_append_right _ (List.mem_cons_of_mem _ hc)

theorem hasDigit_clock (c : Clock) : HasDigit c.text := by
  apply (hasDigit_padded 2 c.hour).mono
  simp [Clock.text]

theorem hasDigit_moment (d : Day) (c : Clock) (z : Option Zone) : HasDigit (momentText d c z) := by
  unfold momentText
  split
  next day clock _ =>
    exact (hasDigit_day day).mono
      (List.Subset.trans (List.subset_append_left _ _) (List.subset_append_left _ _))

/-- A digit is no hyphen, so it stays. -/
theorem hasDigit_dashless {cs : List Char} (h : HasDigit cs) : HasDigit (dashless cs).toList := by
  obtain ⟨c, hc, hdigit⟩ := h
  have hne : c ≠ '-' := by
    rintro rfl
    cases hdigit
  refine ⟨c, ?_, hdigit⟩
  rw [dashless, String.toList_ofList]
  exact List.mem_map.2 ⟨c, hc, if_neg hne⟩

theorem not_isVariable_binary (f : BinaryFormat) (x : Binary) :
    ¬ isVariable (binaryConstant f x) := by
  cases x with
  | nan => exact not_isVariable_quote _
  | infinite negative => exact not_isVariable_quote _
  | finite negative mantissa exponent =>
    apply not_isVariable_of_hasDigit
    rw [binaryConstant, String.toList_ofList]
    exact hasDigit_finite f negative mantissa exponent

/-- The constant of a value is no variable: it is quoted or has a digit, unless it is a truth
value. -/
theorem not_isVariable_constant (v : Value) : ¬ isVariable v.constant := by
  cases v with
  | boolean b => cases b <;> decide
  | integer n => exact not_isVariable_of_hasDigit (hasDigit_integer n)
  | decimal d =>
    apply not_isVariable_of_hasDigit
    rw [constant, String.toList_ofList]
    exact hasDigit_positional ..
  | float x => exact not_isVariable_binary .single x
  | double x => exact not_isVariable_binary .double x
  | date day zone =>
    apply not_isVariable_of_hasDigit
    exact hasDigit_dashless ((hasDigit_day day).mono (List.subset_append_left _ _))
  | dateTime day clock zone =>
    apply not_isVariable_of_hasDigit
    exact hasDigit_dashless (hasDigit_moment day clock zone)
  | time clock zone =>
    apply not_isVariable_of_hasDigit
    exact hasDigit_dashless ((hasDigit_clock clock).mono (List.subset_append_left _ _))
  | string s => exact not_isVariable_quote s

end Value

/-- **The constant of a term is no variable.** -/
theorem Rdf.Term.not_isVariable_of_mem_written {t : Term} {c : String} (h : c ∈ t.written) :
    ¬ isVariable c := by
  cases t with
  | node n =>
    obtain rfl := List.mem_singleton.1 h
    exact n.not_isVariable_constant
  | literal l =>
    obtain rfl := List.mem_singleton.1 h
    exact (Value.ofLiteral l).not_isVariable_constant
  | triple s p o => cases h

/-! ## Variables of rules -/

/-- After the name that a fact is about, only the name of a nested shape can be a variable. -/
theorem Form.args_of_fact {terms : List Term} {names : List String} {name : String} {r : Rule}
    (h : Form terms names name r) (hbody : r.body = ∅) :
    ∃ args, r.head.args = name :: args ∧ ∀ arg ∈ args, arg ∈ names ∨ ¬ isVariable arg := by
  cases h with
  | plain h =>
    cases h with
    | mark mem => exact ⟨[], rfl, by simp⟩
    | count mem pos => exact ⟨_, rfl, List.forall_mem_singleton.2 (.inr (not_isVariable_count _))⟩
    | value mem constant =>
      exact ⟨_, rfl,
        List.forall_mem_singleton.2 (.inr (Term.not_isVariable_of_mem_written constant))⟩
    | select constant mem => cases hbody
  | severity iri => exact ⟨_, rfl, List.forall_mem_singleton.2 (.inr (not_isVariable_quote iri))⟩
  | kind mem comment => exact ⟨[], rfl, by simp⟩
  | link mem nested => exact ⟨_, rfl, List.forall_mem_singleton.2 (.inl nested)⟩

/-- A rule with a body selects nodes, and the variable of its head is in its only atom. -/
theorem Form.eq_select {terms : List Term} {names : List String} {name : String} {r : Rule}
    (h : Form terms names name r) (hbody : r.body ≠ ∅) :
    ∃ atom, r.head = ⟨.target, [name, focusVariable]⟩ ∧ r.body.toList = [atom] ∧
      focusVariable ∈ atom.args := by
  cases h with
  | plain h =>
    cases h with
    | mark mem => exact absurd rfl hbody
    | count mem pos => exact absurd rfl hbody
    | value mem constant => exact absurd rfl hbody
    | select constant mem =>
      refine ⟨_, rfl, rfl, ?_⟩
      simp only [List.mem_cons, List.not_mem_nil, or_false] at mem
      rcases mem with rfl | rfl | rfl <;> simp
  | severity iri => exact absurd rfl hbody
  | kind mem comment => exact absurd rfl hbody
  | link mem nested => exact absurd rfl hbody

theorem body_and_args_of_severity {r : Rule} {name : String}
    (h : r.entry = some (.severity name)) : r.body = ∅ ∧ name ∈ r.head.args := by
  unfold Rule.entry at h
  split at h
  next hbody =>
    refine ⟨hbody, ?_⟩
    split at h <;> simp_all
  next => cases h

/-- **A program keeps its variables apart from its names:** no name is a variable, facts are ground,
and the head of a rule with a body has no variable but the one for the selected node, which is in
the body. -/
structure Hygienic (f : Forest Occurrence) (p : Program) : Prop where
  names : ∀ o ∈ f.preorder, ¬ isVariable o.name
  facts : ∀ r ∈ p.rules, r.body = ∅ → r.head.variables = []
  heads : ∀ r ∈ p.rules, r.body ≠ ∅ →
    r.head.variables = [focusVariable] ∧ ∃ atom ∈ r.body, focusVariable ∈ atom.args

section Layout

variable {f : Forest Occurrence} {p : Program}

/-- If no name is a variable, then no name is mistaken for one. -/
theorem Hygienic.of_names (hp : p.rules ⊆ f.rules) (h : ∀ o ∈ f.preorder, ¬ isVariable o.name) :
    Hygienic f p := by
  refine ⟨h, ?_, ?_⟩
  · intro r hr hbody
    obtain ⟨o, ho, hform⟩ := Forest.exists_form_of_mem_rules (hp hr)
    obtain ⟨args, hargs, hnot⟩ := hform.args_of_fact hbody
    rw [Atom.variables, hargs]
    apply List.filter_eq_nil_iff.2
    intro arg harg
    rcases List.mem_cons.1 harg with rfl | harg
    · exact h o ho
    · rcases hnot arg harg with hname | hvariable
      · obtain ⟨o', ho', rfl⟩ := List.mem_map.1 hname
        exact h o' ho'
      · exact hvariable
  · intro r hr hbody
    obtain ⟨o, ho, hform⟩ := Forest.exists_form_of_mem_rules (hp hr)
    obtain ⟨atom, hhead, hatom, hfocus⟩ := hform.eq_select hbody
    refine ⟨?_, atom, ?_, hfocus⟩
    · rw [hhead, Atom.variables, List.filter_cons_of_neg (h o ho)]
      rfl
    · rw [OrderedSet.mem_def, hatom]
      exact List.mem_singleton_self atom

/-- A name that is a variable shows in a fact, that for its severity. -/
theorem names_of_ground_facts
    (houtline : p.rules.filterMap Rule.entry = (f.map Occurrence.name).outline none)
    (h : ∀ r ∈ p.rules, r.body = ∅ → r.head.variables = []) :
    ∀ o ∈ f.preorder, ¬ isVariable o.name := by
  intro o ho
  have hmem : .severity o.name ∈ p.rules.filterMap Rule.entry := by
    rw [houtline, Forest.severity_mem_outline_iff, Forest.preorder_map]
    exact List.mem_map_of_mem ho
  obtain ⟨r, hr, hentry⟩ := List.mem_filterMap.1 hmem
  obtain ⟨hbody, hname⟩ := body_and_args_of_severity hentry
  exact List.filter_eq_nil_iff.1 (h r hr hbody) o.name hname

end Layout

/-- **Which programs are hygienic.** In every program the rules with a body select nodes through the
variable of their head; a variable becomes the name of an occurrence exactly if a shape asks for it;
and a program is hygienic, and its facts are ground, exactly if no shape asks for a variable. -/
theorem hygienic_iff_no_variable_preferred {src : ShapeSource} {options : Options}
    {program : Program} (h : (compile src options).result = .ok program) :
    ∃ f, IsLayout src f ∧
      (∀ r ∈ program.rules, r.body ≠ ∅ → ∃ o ∈ f.preorder, ∃ atom,
        r.head = ⟨.target, [o.name, focusVariable]⟩ ∧ r.body.toList = [atom] ∧
          focusVariable ∈ atom.args) ∧
      (∀ v, isVariable v →
        (v ∈ f.preorder.map Occurrence.name ↔ some v ∈ f.preorder.map (·.shape.preferredName))) ∧
      (Hygienic f program ↔
        ∀ o ∈ f.preorder, ∀ v, isVariable v → o.shape.preferredName ≠ some v) ∧
      ((∀ r ∈ program.rules, r.body = ∅ → r.head.variables = []) ↔
        ∀ o ∈ f.preorder, ∀ v, isVariable v → o.shape.preferredName ≠ some v) := by
  obtain ⟨f, hlayout, -, hrules, houtline⟩ := exists_outline h
  have hsub : program.rules ⊆ f.rules := hrules ▸ distinct_subset f.rules
  have hnames : ∀ v, isVariable v → (v ∈ f.preorder.map Occurrence.name ↔
      some v ∈ f.preorder.map (·.shape.preferredName)) := by
    intro v hv
    rw [hlayout.names]
    exact Namespace.mem_allocateAll_iff hv (Namespace.variable_not_mem_initial hv) _
  have hpreferred : (∀ o ∈ f.preorder, ¬ isVariable o.name) ↔
      ∀ o ∈ f.preorder, ∀ v, isVariable v → o.shape.preferredName ≠ some v := by
    constructor
    · intro hno o ho v hv he
      obtain ⟨o', ho', rfl⟩ := List.mem_map.1 ((hnames v hv).2 (List.mem_map.2 ⟨o, ho, he⟩))
      exact hno o' ho' hv
    · intro hno o ho hv
      obtain ⟨o', ho', he⟩ := List.mem_map.1 ((hnames _ hv).1 (List.mem_map_of_mem ho))
      exact hno o' ho' o.name hv he
  refine ⟨f, hlayout, ?_, hnames, ?_, ?_⟩
  · intro r hr hbody
    obtain ⟨o, ho, hform⟩ := Forest.exists_form_of_mem_rules (hsub hr)
    exact ⟨o, ho, hform.eq_select hbody⟩
  · rw [← hpreferred]
    exact ⟨Hygienic.names, Hygienic.of_names hsub⟩
  · rw [← hpreferred]
    exact ⟨names_of_ground_facts houtline, fun hno => (Hygienic.of_names hsub hno).facts⟩

/-- A shape that asks for a name close to the anonymous variable. -/
def nearAnonymous : Shape where
  id := .blank "b"
  names := ["__"]
  targets := [.objectsOf (.iri "p")]

/-- A shape that nests it and asks for a name close to the variable of the selected node. -/
def nearFocus : Shape where
  id := .iri "a"
  names := ["X "]
  targets := [.ofClass (.iri "c"), .node (.iri "X")]
  constraints := [.node [.blank "b"], .maxCount 0]

/-- Shapes that ask for names close to the variables. -/
def nearVariables : ShapeSource where
  shapes := [nearFocus]
  known := [nearFocus, nearAnonymous]

theorem isLayout_nearVariables :
    IsLayout nearVariables
      (.cons ⟨"X?", nearFocus⟩ (.cons ⟨"__", nearAnonymous⟩ .nil .nil) .nil) where
  roots := rfl
  unfolded := ⟨rfl, ⟨rfl, trivial, trivial⟩, trivial⟩
  names := by decide +kernel

theorem hygienic_iff_no_variable_preferred_nearVariables :
    ∃ program, (compile nearVariables {}).result = .ok program ∧ program.size = 9 ∧
      ∃ f, IsLayout nearVariables f ∧ f.preorder.map Occurrence.name = ["X?", "__"] ∧
        Hygienic f program := by
  have h : (compile nearVariables {}).result =
      .ok ((compile nearVariables {}).result.toOption.getD {}) := by decide +kernel
  obtain ⟨f, hlayout, -, -, hhygienic, -⟩ := hygienic_iff_no_variable_preferred h
  obtain rfl := hlayout.unique isLayout_nearVariables
  refine ⟨_, h, by decide +kernel, _, hlayout, rfl, hhygienic.2 ?_⟩
  intro o ho v hv
  simp only [Forest.preorder, List.mem_cons, List.append_nil, List.not_mem_nil, or_false] at ho
  rcases isVariable_iff.1 hv with rfl | rfl <;> rcases ho with rfl | rfl <;> decide

/-- A shape that asks for the variable of the selected node as its name. -/
def focusNamed : ShapeSource :=
  let shape : Shape := {
    id := .iri "http://example.org/S"
    names := ["X"]
    targets := [.ofClass (.iri "http://example.org/C")] }
  { shapes := [shape], known := [shape] }

/-- **A shape gets a variable as its name.** Its severity is no ground fact, and the rule that
selects its nodes has the same variable for the shape and for the node. -/
theorem focus_variable_captured :
    ∃ program, (compile focusNamed {}).result = .ok program ∧
      program.rules = [
        about .severity "X" ["\"http://www.w3.org/ns/shacl#Violation\""],
        (about .nodeShape "X" []).withComment "<http://example.org/S>",
        .derive ⟨.target, ["X", "X"]⟩ [⟨.instanceOf, ["\"http://example.org/C\"", "X"]⟩]] ∧
      ∀ f, ¬ Hygienic f program := by
  have h : (compile focusNamed {}).result =
      .ok ((compile focusNamed {}).result.toOption.getD {}) := by decide +kernel
  have hrules : ((compile focusNamed {}).result.toOption.getD {}).rules = [
      about .severity "X" ["\"http://www.w3.org/ns/shacl#Violation\""],
      (about .nodeShape "X" []).withComment "<http://example.org/S>",
      .derive ⟨.target, ["X", "X"]⟩ [⟨.instanceOf, ["\"http://example.org/C\"", "X"]⟩]] := by
    decide +kernel
  refine ⟨_, h, hrules, ?_⟩
  intro f hf
  have hground := hf.facts _ (hrules ▸ List.mem_cons_self) rfl
  exact absurd hground (by decide)

end ShapeRules
