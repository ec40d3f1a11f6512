import ShapeRules.Command.Arguments
import ShapeRules.Command.Files
import ShapeRules.Command.Host
import ShapeRules.Command.Manual
import ShapeRules.Command.Run
import ShapeRules.Compile.Basic
import ShapeRules.Compile.Emission
import ShapeRules.Compile.Event
import ShapeRules.Compile.FromGraph
import ShapeRules.Compile.Refusal
import ShapeRules.Compile.Traced
import ShapeRules.Datalog.Atom
import ShapeRules.Datalog.Constant
import ShapeRules.Datalog.Identifier
import ShapeRules.Datalog.Namespace
import ShapeRules.Datalog.Predicate
import ShapeRules.Datalog.Program
import ShapeRules.Datalog.Rule
import ShapeRules.FiniteMap
import ShapeRules.Main
import ShapeRules.OrderedSet
import ShapeRules.Proofs.Allocation
import ShapeRules.Proofs.Attribution
import ShapeRules.Proofs.Bodies
import ShapeRules.Proofs.Calls
import ShapeRules.Proofs.Chains
import ShapeRules.Proofs.Closure
import ShapeRules.Proofs.Counts
import ShapeRules.Proofs.Deduplication
import ShapeRules.Proofs.Defects
import ShapeRules.Proofs.Delivery
import ShapeRules.Proofs.Depth
import ShapeRules.Proofs.Designation
import ShapeRules.Proofs.ExactNumbers
import ShapeRules.Proofs.Extension
import ShapeRules.Proofs.Forest
import ShapeRules.Proofs.Fragment
import ShapeRules.Proofs.FreshNames
import ShapeRules.Proofs.GivenName
import ShapeRules.Proofs.Grammar
import ShapeRules.Proofs.Hygiene
import ShapeRules.Proofs.Identifiers
import ShapeRules.Proofs.Invocation
import ShapeRules.Proofs.Journal
import ShapeRules.Proofs.Layout
import ShapeRules.Proofs.LexicalClasses
import ShapeRules.Proofs.LineForm
import ShapeRules.Proofs.Links
import ShapeRules.Proofs.LiteralForms
import ShapeRules.Proofs.Magnitudes
import ShapeRules.Proofs.Ownership
import ShapeRules.Proofs.Permissive
import ShapeRules.Proofs.Quoting
import ShapeRules.Proofs.Readback
import ShapeRules.Proofs.Readers
import ShapeRules.Proofs.Reading
import ShapeRules.Proofs.References
import ShapeRules.Proofs.Refusals
import ShapeRules.Proofs.Relevance
import ShapeRules.Proofs.Renaming
import ShapeRules.Proofs.Replacement
import ShapeRules.Proofs.ScanOrder
import ShapeRules.Proofs.ShapeByShape
import ShapeRules.Proofs.Statements
import ShapeRules.Proofs.Success
import ShapeRules.Proofs.Tables
import ShapeRules.Proofs.TemporalForms
import ShapeRules.Proofs.Traversal
import ShapeRules.Proofs.Unions
import ShapeRules.Proofs.UniqueNames
import ShapeRules.Rdf.Canonical
import ShapeRules.Rdf.Collection
import ShapeRules.Rdf.Document
import ShapeRules.Rdf.Format
import ShapeRules.Rdf.Graph
import ShapeRules.Rdf.NTriples
import ShapeRules.Rdf.Reference
import ShapeRules.Rdf.Term
import ShapeRules.Rdf.Token
import ShapeRules.Shacl.Discovery
import ShapeRules.Shacl.Fault
import ShapeRules.Shacl.FromGraph
import ShapeRules.Shacl.Reading
import ShapeRules.Shacl.Shape
import ShapeRules.Shacl.Table
import ShapeRules.Shacl.Vocabulary
import ShapeRules.Text.Blank
import ShapeRules.Text.Combining
import ShapeRules.Text.Diagnostic
import ShapeRules.Text.Digest
import ShapeRules.Text.Hexadecimal
import ShapeRules.Text.Lines
import ShapeRules.Text.Printable
import ShapeRules.Text.Quoted
import ShapeRules.Value.Basic
import ShapeRules.Value.Binary
import ShapeRules.Value.Calendar
import ShapeRules.Value.Exact
import ShapeRules.Value.Numeral
import ShapeRules.Value.Shortest
