import ShapeRules.Datalog.Program
import ShapeRules.Proofs.Readers

/-!
# Reading programs back

The text of a program tells the library and the clauses, in order. Comments cannot pass for rules,
whatever they say and however many lines they have; the text of a quoted argument cannot end the
argument; and the rules are told apart by their ends. What it takes is that each argument is a
token: quoted, or free of the characters that structure the text.

## Main definitions

* `IsToken`: the arguments that a reader can tell from what surrounds them
* `Program.Tokenized`: programs whose arguments are all tokens
* `Program.read?`: the library and the clauses of a text

## Main results

* `Reader.clause_append`, `Reader.rule_append`: clauses and rules are read back
* `program_readable`: a program is read back, and determined by its text
-/

namespace ShapeRules

open Datalog Text

namespace Text

/-! ## Lines of comments -/

/-- A line has no line end inside. -/
theorem newline_not_mem_of_mem_lines {s line : String} (h : line ∈ lines s) :
    '\n' ∉ line.toList := by
  obtain ⟨cs, hcs, rfl⟩ := List.mem_map.1 h
  rw [String.toList_ofList]
  rcases List.mem_append.1 hcs with hcs | hcs
  · obtain ⟨piece, hpiece, rfl⟩ := List.mem_map.1 hcs
    have hn := not_mem_of_mem_splitOn (List.dropLast_subset _ hpiece)
    unfold dropReturn
    split_ifs
    · exact fun hmem => hn (List.dropLast_subset _ hmem)
    · exact hn
  · exact not_mem_of_mem_splitOn
      (List.mem_of_mem_getLast? (Option.mem_toList.1 (List.mem_filter.1 hcs).1))

end Text

namespace Datalog

/-! ## Tokens -/

/-- Whether a character can stand in an argument that is not quoted. -/
def isTokenChar (c : Char) : Bool := c ∉ ['"', ',', '(', ')', '\n']

/-- **A token:** a quoted string, or a nonempty text without quotes, commas, parentheses and line
ends. -/
def IsToken (arg : String) : Prop :=
  (∃ s, arg = Text.quote s) ∨ arg ≠ "" ∧ ∀ c ∈ arg.toList, isTokenChar c

/-- The arguments of an atom are tokens. -/
def Atom.Tokenized (a : Atom) : Prop := ∀ arg ∈ a.args, IsToken arg

/-- The arguments in the head and in the body of a clause are tokens. -/
structure Clause.Tokenized (c : Clause) : Prop where
  head : c.head.Tokenized
  body : ∀ a ∈ c.body, a.Tokenized

/-- The arguments of all rules of a program are tokens. -/
def Program.Tokenized (p : Program) : Prop := ∀ r ∈ p.rules, r.toClause.Tokenized

end Datalog

/-! ## The reader -/

namespace Text.Reader

/-- An argument. -/
def argument : Reader String :=
  ifNext '"' (Text.quote <$> quoted) (String.ofList <$> span isTokenChar)

/-- An argument after another one. -/
def nextArgument : Reader String := do
  skip ", ".toList
  argument

/-- Arguments between parentheses. -/
def arguments : Reader (List String) :=
  ifNext ')' (pure []) do
    let first ← argument
    let others ← many (· = ',') nextArgument
    return first :: others

/-- An atom. -/
def atom : Reader Atom := do
  let name ← span (· ≠ '(')
  let predicate ← ofOption (Predicate.ofName? (String.ofList name))
  skip ['(']
  let args ← arguments
  skip [')']
  return ⟨predicate, args⟩

/-- An atom of a body after another one. -/
def nextAtom : Reader Atom := do
  skip ",\n".toList
  let _ ← span (· = ' ')
  atom

/-- The atoms of a body, or none where the clause ends. -/
def body : Reader (List Atom) :=
  ifNext '.' (pure []) do
    skip " :- ".toList
    let first ← atom
    let others ← many (· = ',') nextAtom
    return first :: others

/-- A clause with its full stop. -/
def clause : Reader Clause := do
  let head ← atom
  let atoms ← body
  skip ['.']
  return ⟨head, OrderedSet.ofList atoms⟩

/-- The rest of a line, with its end. -/
def line : Reader Unit := do
  let _ ← span (· ≠ '\n')
  skip ['\n']

/-- A rule, without the comments above it. -/
def rule : Reader Clause := do
  let _ ← many (· = '/') line
  let c ← clause
  skip ['\n']
  return c

/-- A program: the library of the include directive and the clauses. -/
def program : Reader (String × List Clause) := do
  skip ".include ".toList
  let library ← quoted
  skip ['\n']
  let clauses ← many (fun _ => true) rule
  return (library, clauses)

end Text.Reader

/-- **The library and the clauses that a text tells.** -/
def Datalog.Program.read? (s : String) : Option (String × List Clause) :=
  (Reader.program s.toList).map Prod.fst

/-! ## Written forms are read back -/

namespace Text.Reader

/-- The end of an argument: a comma or a closing parenthesis. -/
def EndsArgument (rest : List Char) : Prop := rest.head? = some ',' ∨ rest.head? = some ')'

theorem exists_cons_of_isToken {arg : String} (h : IsToken arg) :
    ∃ c cs, arg.toList = c :: cs ∧ c ≠ ')' := by
  rcases h with ⟨s, rfl⟩ | ⟨hne, hchars⟩
  · exact ⟨'"', _, toList_quote s, by decide⟩
  · obtain ⟨c, cs, hcs⟩ := List.exists_cons_of_ne_nil (mt String.toList_eq_nil_iff.1 hne)
    refine ⟨c, cs, hcs, ?_⟩
    rintro rfl
    exact absurd (hchars ')' (by simp [hcs])) (by decide)

/-- A token is read back before the end of an argument. -/
theorem argument_append {arg : String} (h : IsToken arg) {rest : List Char}
    (hrest : EndsArgument rest) : argument (arg.toList ++ rest) = some (arg, rest) := by
  rcases h with ⟨s, rfl⟩ | ⟨hne, hchars⟩
  · rw [argument, ifNext_pos (by simp [quoteChars])]
    exact map_eq _ (quoted_quote s rest)
  · obtain ⟨c, cs, hcs⟩ := List.exists_cons_of_ne_nil (mt String.toList_eq_nil_iff.1 hne)
    have hc : c ≠ '"' := by
      rintro rfl
      exact absurd (hchars '"' (by simp [hcs])) (by decide)
    have hspan : span isTokenChar (arg.toList ++ rest) = some (arg.toList, rest) := by
      refine span_append hchars ?_
      rcases hrest with hrest | hrest
      · rw [hrest]; rfl
      · rw [hrest]; rfl
    rw [argument, ifNext_neg (by simp [hcs, hc]), map_eq _ hspan, String.ofList_toList]

theorem toList_intercalate_cons (sep s : String) (l : List String) :
    (String.intercalate sep (s :: l)).toList = s.toList ++ l.flatMap (sep.toList ++ ·.toList) := by
  rw [String.toList_intercalate]
  induction l generalizing s with
  | nil => simp
  | cons t l ih =>
    have ht := ih t
    rw [List.map_cons] at ht
    rw [List.map_cons, List.map_cons, List.intercalate_cons_cons, ht, List.flatMap_cons]
    simp

theorem nextArgument_append {arg : String} (h : IsToken arg) {rest : List Char}
    (hrest : EndsArgument rest) :
    nextArgument (", ".toList ++ arg.toList ++ rest) = some (arg, rest) := by
  rw [List.append_assoc, nextArgument, bind_eq (skip_append _ _)]
  exact argument_append h hrest

theorem arguments_append {args : List String} (h : ∀ arg ∈ args, IsToken arg) (rest : List Char) :
    arguments ((String.intercalate ", " args).toList ++ ')' :: rest) =
      some (args, ')' :: rest) := by
  cases args with
  | nil => rfl
  | cons first others =>
    rw [List.forall_mem_cons] at h
    obtain ⟨c, cs, hcs, hc⟩ := exists_cons_of_isToken h.1
    have hothers : many (· = ',') nextArgument
        (others.flatMap (", ".toList ++ ·.toList) ++ ')' :: rest) =
          some (others.map id, ')' :: rest) := by
      refine many_flatMap id (fun _ _ => rfl) (fun arg harg after hafter => ?_) (by simp)
      refine nextArgument_append (h.2 arg harg) ?_
      rcases hafter with hafter | rfl
      · exact .inl (by cases after <;> simp_all)
      · exact .inr rfl
    have hends : EndsArgument (others.flatMap (", ".toList ++ ·.toList) ++ ')' :: rest) := by
      cases others with
      | nil => exact .inr rfl
      | cons => exact .inl rfl
    rw [toList_intercalate_cons, List.append_assoc, arguments, ifNext_neg (by simp [hcs, hc]),
      bind_eq (argument_append h.1 hends), bind_eq hothers, List.map_id]
    rfl

/-- Neither parentheses nor slashes nor blanks stand in the name of a predicate. -/
theorem of_mem_name {p : Predicate} {c : Char} (h : c ∈ p.name.toList) :
    c ≠ '(' ∧ c ≠ '/' ∧ c ≠ ' ' := by
  have hall : ∀ p ∈ Predicate.all, p.name.toList.all fun c => c ≠ '(' ∧ c ≠ '/' ∧ c ≠ ' ' := by
    decide +kernel
  simpa using List.all_eq_true.1 (hall p p.mem_all) c h

theorem toList_atom_text (a : Atom) : a.text.toList = a.predicate.name.toList ++
    '(' :: ((String.intercalate ", " a.args).toList ++ [')']) := by
  simp [Atom.text]

/-- An atom begins neither with a slash nor with a blank. -/
theorem exists_cons_of_atom (a : Atom) : ∃ c cs, a.text.toList = c :: cs ∧ c ≠ '/' ∧ c ≠ ' ' := by
  rw [toList_atom_text]
  cases hname : a.predicate.name.toList with
  | nil => exact ⟨'(', _, rfl, by decide, by decide⟩
  | cons c cs => exact ⟨c, _, rfl, (of_mem_name (hname ▸ List.mem_cons_self)).2⟩

/-- **An atom is read back.** -/
theorem atom_append {a : Atom} (h : a.Tokenized) (rest : List Char) :
    atom (a.text.toList ++ rest) = some (a, rest) := by
  have hname : span (· ≠ '(') (a.text.toList ++ rest) = some (a.predicate.name.toList,
      '(' :: ((String.intercalate ", " a.args).toList ++ ')' :: rest)) := by
    rw [toList_atom_text, List.append_assoc, List.cons_append, List.append_assoc]
    exact span_append (fun c hc => by simpa using (of_mem_name hc).1) rfl
  rw [atom, bind_eq hname, String.ofList_toList, Predicate.ofName?_name,
    bind_eq (ofOption_some _ _), bind_eq (skip_cons _ _), bind_eq (arguments_append h rest),
    bind_eq (skip_cons _ _)]
  rfl

theorem toList_bodyText_cons {c : Clause} {first : Atom} {others : List Atom}
    (h : c.body.toList = first :: others) : c.bodyText.toList = " :- ".toList ++
      (first.text.toList ++
        others.flatMap fun a => ",\n".toList ++ (c.indent.toList ++ a.text.toList)) := by
  rw [Clause.bodyText, h]
  simp [List.flatMap_map]

theorem nextAtom_append (c : Clause) {a : Atom} (h : a.Tokenized) (rest : List Char) :
    nextAtom (",\n".toList ++ (c.indent.toList ++ a.text.toList) ++ rest) = some (a, rest) := by
  have hindent : span (· = ' ') (c.indent.toList ++ (a.text.toList ++ rest)) =
      some (c.indent.toList, a.text.toList ++ rest) := by
    obtain ⟨d, ds, hd, _, hblank⟩ := exists_cons_of_atom a
    refine span_append (fun x hx => ?_) (by simpa [hd] using hblank)
    simp_all [Clause.indent]
  rw [List.append_assoc, List.append_assoc, nextAtom, bind_eq (skip_append _ _), bind_eq hindent]
  exact atom_append h rest

/-- A body is read back, up to the full stop after it. -/
theorem body_append {c : Clause} (h : ∀ a ∈ c.body, a.Tokenized) (rest : List Char) :
    body (c.bodyText.toList ++ '.' :: rest) = some (c.body.toList, '.' :: rest) := by
  cases hb : c.body.toList with
  | nil =>
    rw [Clause.bodyText, hb]
    rfl
  | cons first others =>
    have hatoms : ∀ a ∈ first :: others, a.Tokenized := hb ▸ h
    rw [List.forall_mem_cons] at hatoms
    have hothers : many (· = ',') nextAtom
        (others.flatMap (fun a => ",\n".toList ++ (c.indent.toList ++ a.text.toList)) ++
          '.' :: rest) = some (others.map id, '.' :: rest) :=
      many_flatMap id (fun _ _ => rfl) (fun a ha after _ => nextAtom_append c (hatoms.2 a ha) after)
        (by simp)
    rw [toList_bodyText_cons hb, List.append_assoc, List.append_assoc, body, ifNext_neg (by simp),
      bind_eq (skip_append _ _), bind_eq (atom_append hatoms.1 _), bind_eq hothers, List.map_id]
    rfl

theorem toList_clause_text (c : Clause) :
    c.text.toList = c.head.text.toList ++ (c.bodyText.toList ++ ['.']) := by
  simp [Clause.text]

/-- **A clause is read back.** -/
theorem clause_append {c : Clause} (h : c.Tokenized) (rest : List Char) :
    clause (c.text.toList ++ rest) = some (c, rest) := by
  have hset : OrderedSet.ofList c.body.toList = c.body :=
    OrderedSet.ext fun _ => OrderedSet.mem_ofList
  rw [toList_clause_text, List.append_assoc, List.append_assoc, clause,
    bind_eq (atom_append h.head _), List.singleton_append, bind_eq (body_append h.body rest),
    bind_eq (skip_cons _ _), hset]
  rfl

/-- A line without a line end inside is read back with its end. -/
theorem line_append {cs : List Char} (h : '\n' ∉ cs) (rest : List Char) :
    line (cs ++ '\n' :: rest) = some ((), rest) := by
  have hspan : span (· ≠ '\n') (cs ++ '\n' :: rest) = some (cs, '\n' :: rest) :=
    span_append (fun c hc => by simpa using ne_of_mem_of_not_mem hc h) rfl
  rw [line, bind_eq hspan]
  exact skip_cons _ _

theorem toList_rule_text (r : Rule) : r.text.toList =
    ((r.comments.flatMap lines).flatMap fun l => "// ".toList ++ (l.toList ++ ['\n'])) ++
      r.toClause.text.toList := by
  simp [Rule.text, Rule.commentText, List.flatMap_map]

/-- **A rule is read back,** whatever its comments say. -/
theorem rule_append {r : Rule} (h : r.toClause.Tokenized) (rest : List Char) :
    rule (r.text.toList ++ '\n' :: rest) = some (r.toClause, rest) := by
  have hcomments : many (· = '/') line
      (((r.comments.flatMap lines).flatMap fun l => "// ".toList ++ (l.toList ++ ['\n'])) ++
        (r.toClause.text.toList ++ '\n' :: rest)) =
      some ((r.comments.flatMap lines).map fun _ => (),
        r.toClause.text.toList ++ '\n' :: rest) := by
    refine many_flatMap _ (fun _ _ => rfl) (fun l hl after _ => ?_) ?_
    · obtain ⟨comment, _, hl⟩ := List.mem_flatMap.1 hl
      have hn : '\n' ∉ "// ".toList ++ l.toList := by
        simpa using newline_not_mem_of_mem_lines hl
      simpa using line_append hn after
    · -- the clause begins with the name of a predicate
      obtain ⟨c, cs, hc, hslash, _⟩ := exists_cons_of_atom r.head
      simpa [toList_clause_text, hc] using hslash
  rw [toList_rule_text, List.append_assoc, rule, bind_eq hcomments, bind_eq (clause_append h _),
    bind_eq (skip_cons _ _)]
  rfl

end Text.Reader

/-! ## The text of a program determines it -/

theorem Datalog.Program.toList_render (p : Program) : p.render.toList = ".include ".toList ++
    ((Text.quote p.library).toList ++
      '\n' :: p.rules.flatMap fun r => r.text.toList ++ ['\n']) := by
  simp [Program.render, List.flatMap_map]

/-- A program is read back from its text. -/
theorem Datalog.Program.read?_render {p : Program} (h : p.Tokenized) :
    Program.read? p.render = some (p.library, p.rules.map Rule.toClause) := by
  have hrules : Reader.many (fun _ => true) Reader.rule
      (p.rules.flatMap fun r => r.text.toList ++ ['\n']) =
      some (p.rules.map Rule.toClause, []) := by
    rw [← List.append_nil (p.rules.flatMap _)]
    refine Reader.many_flatMap _ (fun r _ => ?_) (fun r hr after _ => ?_) (by simp)
    · simp
    · simpa using Reader.rule_append (h r hr) after
  rw [Program.read?, toList_render, Reader.program, Reader.bind_eq (Reader.skip_append _ _),
    Reader.bind_eq (Reader.quoted_quote _ _), Reader.bind_eq (Reader.skip_cons _ _),
    Reader.bind_eq hrules]
  rfl

/-- **Programs can be read.** One reader recovers the library and the clauses of every program whose
arguments are tokens from its text, so programs with the same text have the same library and the
same clauses in the same order. -/
theorem program_readable :
    (∀ p : Program, p.Tokenized →
      Program.read? p.render = some (p.library, p.rules.map Rule.toClause)) ∧
    ∀ p q : Program, p.Tokenized → q.Tokenized → p.render = q.render →
      p.library = q.library ∧ p.rules.map Rule.toClause = q.rules.map Rule.toClause := by
  refine ⟨fun p hp => Program.read?_render hp, fun p q hp hq h => ?_⟩
  have hread := Program.read?_render hp
  rw [h, Program.read?_render hq] at hread
  simpa [eq_comm] using hread

/-- A program over a library with quotes in its path, whose arguments read like ends of rules,
directives and comments. -/
def deceptive (comments : List String) : Program where
  library := "a\".dl\n//"
  rules := [
    { Rule.derive ⟨.target, [Text.quote "x\", y). // \n.include", "blank node :- ."]⟩
        [⟨.path, ["_", Text.quote "),\n"]⟩, ⟨.instanceOf, [Text.quote "", "_"]⟩] with comments },
    .fact ⟨.deactivated, []⟩]

theorem tokenized_deceptive (comments : List String) : (deceptive comments).Tokenized := by
  have hquoted : ∀ s, IsToken (Text.quote s) := fun s => .inl ⟨s, rfl⟩
  have hbare : ∀ s ∈ ["blank node :- .", "_"], IsToken s := by
    have hchars : ∀ s ∈ ["blank node :- .", "_"], s ≠ "" ∧ s.toList.all isTokenChar := by decide
    exact fun s hs => .inr ⟨(hchars s hs).1, List.all_eq_true.1 (hchars s hs).2⟩
  rintro r (_ | ⟨_, _ | ⟨_, ⟨⟩⟩⟩)
  · refine ⟨?_, fun a ha => ?_⟩
    · simpa [Atom.Tokenized, Rule.derive, hquoted] using hbare "blank node :- ." (by simp)
    · obtain _ | ⟨_, _ | ⟨_, ⟨⟩⟩⟩ := OrderedSet.mem_ofList.1 ha
      · simpa [Atom.Tokenized, hquoted] using hbare "_" (by simp)
      · simpa [Atom.Tokenized, hquoted] using hbare "_" (by simp)
  · exact ⟨by simp [Atom.Tokenized, Rule.fact], by simp [Rule.fact, OrderedSet.mem_def]⟩

/-- Comments that spell out facts on lines of their own are no rules, and two ways to divide the
same lines among comments give one text. -/
theorem program_readable_deceptive :
    let p := deceptive ["first\r\ntarget(x, y).\n\n.", "", "/"]
    let q := deceptive ["first\ntarget(x, y).\n", "\n.\n/"]
    (p.Tokenized ∧ q.Tokenized ∧ p.render = q.render ∧ p.rules ≠ q.rules) ∧
    Program.read? p.render = some (p.library, p.rules.map Rule.toClause) ∧
    p.library = q.library ∧ p.rules.map Rule.toClause = q.rules.map Rule.toClause := by
  intro p q
  have hp : p.Tokenized := tokenized_deceptive _
  have hq : q.Tokenized := tokenized_deceptive _
  have h : p.render = q.render := by decide +kernel
  exact ⟨⟨hp, hq, h, by decide +kernel⟩, program_readable.1 p hp, program_readable.2 p q hp hq h⟩

end ShapeRules
