import ShapeRules.Datalog.Rule
import ShapeRules.Text.Quoted

/-!
# Programs

A program names the library it is written over and lists its rules. A rule whose clause is already
there is dropped, so the first of several equal rules stays, at its place and with its comments. The
clauses are kept a second time, as a set, which answers whether a clause is there.

## Main definitions

* `ClauseIndex`: the set of the clauses of a list of rules
* `Program`: the library path and the rules
* `Program.addRule`, `Program.extend`, `Program.merge`: the operations
* `Program.render`: the text of a program
-/

namespace ShapeRules.Datalog

/-- The library that a program is written over unless another is named. -/
def defaultLibrary : String := "shacl.dl"

/-- The set of the clauses of a list of rules. -/
structure ClauseIndex (rules : List Rule) where
  /-- The clauses. -/
  clauses : OrderedSet Clause
  /-- The set is that of the list. -/
  clauses_eq : clauses = .ofList (rules.map Rule.toClause)

namespace ClauseIndex

variable {rules : List Rule}

/-- The index of a list. -/
def ofRules (rules : List Rule) : ClauseIndex rules := ⟨.ofList (rules.map Rule.toClause), rfl⟩

/-- The index of a list with one more rule at its end. -/
def insert (index : ClauseIndex rules) (r : Rule) : ClauseIndex (rules ++ [r]) where
  clauses := index.clauses.insert r.toClause
  clauses_eq := by
    apply OrderedSet.ext
    intro c
    rw [index.clauses_eq, OrderedSet.mem_insert, OrderedSet.mem_ofList, OrderedSet.mem_ofList,
      List.map_append, List.mem_append, List.map_singleton, List.mem_singleton]
    exact or_comm

/-- A list has one index. -/
theorem unique (i j : ClauseIndex rules) : i = j := by
  cases i
  cases j
  simp_all

instance : DecidableEq (ClauseIndex rules) := fun i j => isTrue (unique i j)

end ClauseIndex

/-- **A list of rules over a library,** with the set of their clauses, in which a rule is looked up
before it is added. -/
structure Program where
  /-- The path of the library in the include directive. -/
  library : String := defaultLibrary
  /-- The rules, in order of first insertion. -/
  rules : List Rule := []
  /-- The clauses of the rules. -/
  index : ClauseIndex rules := .ofRules rules
  deriving DecidableEq

namespace Program

/-- The program without rules over the default library. -/
def empty : Program := {}

/-- The clauses of the rules, as a set. -/
def seen (p : Program) : OrderedSet Clause := p.index.clauses

theorem seen_eq (p : Program) : p.seen = .ofList (p.rules.map Rule.toClause) :=
  p.index.clauses_eq

/-- Whether a rule with the same clause is there. -/
def hasClause (p : Program) (r : Rule) : Bool :=
  r.toClause ∈ p.seen

/-- **Adds a rule** at the end unless its clause is already there, and says whether it did. -/
def addRule (p : Program) (r : Rule) : Bool × Program :=
  if p.hasClause r then (false, p)
  else (true, { library := p.library, rules := p.rules ++ [r], index := p.index.insert r })

/-- Adds a fact unless it is already there, and says whether it did. -/
def addFact (p : Program) (head : Atom) : Bool × Program :=
  p.addRule (.fact head)

/-- The program with a rule added. -/
def push (p : Program) (r : Rule) : Program :=
  (p.addRule r).2

/-- Adds the rules of a list, one after the other. -/
def pushAll (p : Program) (rules : List Rule) : Program :=
  rules.foldl push p

/-- Adds the rules of another program. -/
def extend (p q : Program) : Program :=
  p.pushAll q.rules

/-- The union of two programs, over the library of the first. -/
def merge (p q : Program) : Program :=
  p.extend q

/-- The program over a library with the rules of a list. -/
def ofRules (library : String) (rules : List Rule) : Program :=
  pushAll { library } rules

/-- The number of rules. -/
def size (p : Program) : Nat := p.rules.length

/-- **The text of a program:** the include directive, then the rules, each with a line end. -/
def render (p : Program) : String :=
  ".include " ++ Text.quote p.library ++ "\n" ++ String.join (p.rules.map (·.text ++ "\n"))

end Program

end ShapeRules.Datalog
