import ShapeRules.Rdf.Collection
import ShapeRules.Rdf.Token

/-!
# Documents

A reader tells which base IRIs it accepts for a format, and which triples a document holds in it.
What the command does with the triples is the same for every reader.

The plain reader is one. Its documents are lists of statements, each a subject, a predicate and an
object followed by a dot, with IRIs, blank nodes and quoted literals written in full. Such documents
mean the same in the text formats. Depending on the format, each statement has a line of its own,
`a` stands for the type predicate, IRIs may be relative to a base, and a statement may name a graph,
which is dropped. It refuses all other documents, and so all those in the structured formats.

## Main definitions

* `Reader`: a reader of documents
* `Dialect`: what a format adds to plain statements
* `Reader.plain`: the reader of plain statements
-/

namespace ShapeRules.Rdf

/-- **A reader of documents.** -/
structure Reader where
  /-- Whether an IRI can be the base of documents in a format. -/
  acceptsBase : Format → String → Bool
  /-- The triples of a document in a format with an optional base, if it is in order. -/
  read? : Format → Option String → ByteArray → Option (List Triple)

/-- **What a format adds to plain statements.** -/
structure Dialect where
  /-- The IRI that relative ones start from. -/
  base : Option Reference := none
  /-- Whether `a` stands for the type predicate. -/
  typeWord : Bool := false
  /-- Whether a statement may name a graph. -/
  graphNames : Bool := false
  /-- Whether each statement has a line of its own. -/
  byLine : Bool := false

/-- Whether a text can be the base of relative IRIs. -/
def isBase (s : String) : Bool :=
  (Reference.ofChars s.toList).isIri

namespace Dialect

variable (d : Dialect)

/-- The IRI of a reference. Without a base, the reference is an IRI by itself. -/
def resolve? (reference : String) : Option String :=
  let r := Reference.ofChars reference.toList
  match d.base with
  | none => if r.isIri then some reference else none
  | some base => if r.isValid then some (String.ofList (base.resolve r).text) else none

/-- The node of a word. -/
def node? : Token → Option Node
  | .iri s => (d.resolve? s).map .iri
  | .blank s => some (.blank s)
  | _ => none

/-- The predicate of a word. -/
def predicate? : Token → Option String
  | .iri s => d.resolve? s
  | .word "a" => if d.typeWord then some rdfType else none
  | _ => none

/-- The object at the start of some words, and what follows. -/
def object? : List Token → Option (Term × List Token)
  | .quoted s :: .language tag :: rest => some (.literal (.tagged s tag), rest)
  | .quoted s :: .datatypeMark :: .iri t :: rest =>
    (d.resolve? t).map fun t => (.literal (.typed s t), rest)
  | .quoted s :: rest => some (.literal (.typed s xsdString), rest)
  | t :: rest => (d.node? t).map fun n => (.node n, rest)
  | [] => none

/-- The statement of some words. -/
def statement? : List Token → Option Triple
  | s :: p :: rest => do
    let subject ← d.node? s
    let predicate ← d.predicate? p
    let (object, rest) ← d.object? rest
    match rest with
    | [] => some ⟨subject, predicate, object⟩
    | [g] => if d.graphNames && (d.node? g).isSome then some ⟨subject, predicate, object⟩ else none
    | _ => none
  | _ => none

/-- The statements of some words, each ended by a dot. -/
def statements? (tokens : List Token) : Option (List Triple) :=
  let pieces := tokens.splitOn .dot
  if pieces.getLast? = some [] then pieces.dropLast.mapM d.statement? else none

/-- The statement of a line, if there is one. -/
def line? (cs : List Char) : Option (List Triple) :=
  ((tokens? cs).bind d.statements?).filter (·.length ≤ 1)

/-- The statements of a text. -/
def read? (cs : List Char) : Option (List Triple) :=
  if d.byLine then
    ((cs.splitOnP fun c => c = '\n' || c = '\r').mapM d.line?).map List.flatten
  else (tokens? cs).bind d.statements?

end Dialect

/-- What a format adds to plain statements; the structured formats have none. -/
def Format.dialect? (base : Option String) : Format → Option Dialect
  | .nTriples => some { byLine := true }
  | .nQuads => some { byLine := true, graphNames := true }
  | .turtle | .triG | .n3 =>
    some { base := base.map (Reference.ofChars ·.toList), typeWord := true }
  | .jsonLd | .rdfXml => none

/-- **The reader of plain statements.** The line-based formats do not use a base. -/
def Reader.plain : Reader where
  acceptsBase format base := format.isLineBased || isBase base
  read? format base document := do
    let dialect ← format.dialect? base
    let text ← String.fromUTF8? document
    dialect.read? text.toList

end ShapeRules.Rdf
