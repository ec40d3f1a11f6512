import ShapeRules.Command.Arguments
import ShapeRules.Command.Host
import ShapeRules.Compile.FromGraph
import ShapeRules.Rdf.Document

/-!
# A run of the command

The command settles the format, checks the base IRI, reads the document, writes the shapes of its
graph out as a program, and only then writes anything: the program goes to the output file, or to
standard output. A run that fails has no other effect.

The reader of documents and the manual come from elsewhere. A run is the same on every host; `run`
is the one in the world.

## Main definitions

* `Tool`: what the command is made from
* `Failure`, `Failure.exitCode`, `Failure.messages`: why a run fails, and how it tells
* `Request.format?`, `Request.checkBase`, `Request.programText`: the steps before anything is
  written
* `Request.delivery`, `Request.deliver`: the steps after that
* `execute`: a run on a host
* `run`: a run on given arguments, files and standard input, under some conditions
-/

namespace ShapeRules.Command

open Rdf Compile

/-- **What the command is made from.** -/
structure Tool where
  reader : Reader
  /-- The text of a page of the manual. -/
  manual : Page → String

/-- **Why a run fails.** -/
inductive Failure where
  | unknownFormat (name : String)
  /-- The name of the format breaks the run off. -/
  | brokenFormat (name : String)
  | unknownExtension (extension : String)
  | missingExtension (path : String)
  /-- Standard input has no extension. -/
  | missingFormat
  | invalidBase (base : String)
  | cannotOpen (path : String) (fault : Fault)
  /-- The document is broken; it came from a file or from standard input. -/
  | cannotParse (path : Option String)
  | refused (refusal : GraphRefusal)
  | cannotWrite (path : String)
  | cannotPrint (fault : Fault)
  deriving DecidableEq, Repr

namespace Failure

/-- The exit code of a failure. -/
def exitCode : Failure → Nat
  | .brokenFormat _ => 101
  | _ => 1

/-- The reasons of a failure, from the outermost inwards. A run that is broken off gives none. -/
def messages : Failure → List String
  | .unknownFormat name => ["The file format '" ++ name ++ "' is unknown"]
  | .brokenFormat _ => []
  | .unknownExtension extension =>
    ["Not able to guess the file format from file name extension '" ++ extension ++ "'",
      "The file extension '" ++ extension ++ "' is unknown"]
  | .missingExtension path =>
    ["The path " ++ path ++ " has no extension to guess a file format from"]
  | .missingFormat => ["The --format option must be set when reading from stdin"]
  | .invalidBase base => ["Invalid base IRI " ++ base]
  | .cannotOpen path fault => ["Error while opening file " ++ path, fault.message]
  | .cannotParse (some path) => ["Error while parsing file " ++ path]
  | .cannotParse none => ["Error while parsing stdin"]
  | .refused refusal => ["Error while translating the shapes graph", refusal.message]
  | .cannotWrite path => ["Error while writing file " ++ path]
  | .cannotPrint fault => [fault.message]

end Failure

namespace Request

/-- The format of the document: the one asked for, or the one of the extension of the file. -/
def format? (r : Request) : Except Failure Format :=
  match r.format, r.file with
  | some name, _ =>
    match Format.ofName name with
    | .ok format => .ok format
    | .error .unknown => .error (.unknownFormat name)
    | .error .openProfile => .error (.brokenFormat name)
  | none, some path =>
    match extension? path with
    | none => .error (.missingExtension path)
    | some extension =>
      match Format.ofExtension? extension with
      | some format => .ok format
      | none => .error (.unknownExtension extension)
  | none, none => .error .missingFormat

/-- Checks the base IRI. -/
def checkBase (r : Request) (reader : Reader) (format : Format) : Except Failure Unit :=
  match r.base with
  | some base => if reader.acceptsBase format base then .ok () else .error (.invalidBase base)
  | none => .ok ()

/-- The options of the run. -/
def options (r : Request) : Options :=
  { library := r.library.getD Datalog.defaultLibrary, strict := !r.permissive }

/-- The program of a document, as a run with its events. -/
def program (r : Request) (reader : Reader) (format : Format) (document : ByteArray) :
    Traced Failure Datalog.Program :=
  match reader.read? format r.base document with
  | none => .refuse (.cannotParse r.file)
  | some triples => (compileGraph (.ofList triples) r.options).mapError .refused

variable {m : Type → Type} [Monad m]

/-- The document to read. -/
def document (r : Request) (host : Host m) : ExceptT Failure m ByteArray := do
  match r.file with
  | none =>
    match ← host.input with
    | some document => return document
    | none => throw (.cannotParse none)
  | some path =>
    match ← host.load path with
    | .ok document => return document
    | .error (.unopened fault) => throw (.cannotOpen path fault)
    | .error .unreadable => throw (.cannotParse (some path))

/-- The text of the program that a request asks for. -/
def programText (r : Request) (reader : Reader) (host : Host m) : ExceptT Failure m String := do
  let format ← r.format?
  r.checkBase reader format
  let document ← r.document host
  let program := r.program reader format document
  host.report program.events
  return (← program.result).render

/-- The steps by which contents get to the output file, or to standard output. -/
def delivery (r : Request) (contents : ByteArray) : List Step :=
  match r.output with
  | none => [.print contents, .flush]
  | some path => [.create path, .write contents, .sync, .persist path]

/-- The failure of a step of the delivery. -/
def undelivered (r : Request) (fault : Fault) : Failure :=
  match r.output with
  | none => .cannotPrint fault
  | some path => .cannotWrite path

/-- Delivers contents. A draft that is left is given up. -/
def deliver (r : Request) (host : Host m) (contents : ByteArray) : ExceptT Failure m Unit := do
  let fault? ← host.performAll (r.delivery contents)
  host.discard
  match fault? with
  | none => return ()
  | some fault => throw (r.undelivered fault)

/-- Carries a request out. -/
def carryOut (r : Request) (reader : Reader) (host : Host m) : ExceptT Failure m Unit := do
  let text ← r.programText reader host
  r.deliver host text.toUTF8

end Request

/-- What the command prints when asked for its version. -/
def versionText : String := "shacl2datalog 0.1.0\n"

/-- **How a run ends:** the exit code, and the reasons of a failure. -/
structure Ending where
  exitCode : Nat := 0
  errors : List String := []
  deriving DecidableEq, Repr

/-- The ending of a run with a result. -/
def Ending.ofResult : Except Failure Unit → Ending
  | .ok () => {}
  | .error failure => { exitCode := failure.exitCode, errors := failure.messages }

/-- Shows a text on standard output. That this may fail makes no difference to the run. -/
def display {m : Type → Type} [Monad m] (host : Host m) (text : String) : m Ending := do
  let _ ← host.performAll [.print text.toUTF8, .flush]
  return {}

/-- **A run on a host.** -/
def execute {m : Type → Type} [Monad m] (tool : Tool) (host : Host m) (arguments : List String) :
    m Ending := do
  match Invocation.ofArguments? arguments with
  | none => return { exitCode := 2 }
  | some .version => display host versionText
  | some (.help page) => display host (tool.manual page)
  | some (.compile r) => return .ofResult (← (r.carryOut tool.reader host).run)

/-- **What a run leaves:** its ending, what was printed, and the files. -/
structure Outcome extends Ending where
  stdout : ByteArray
  files : Files

/-- **A run of the command.** -/
def run (tool : Tool) (conditions : Conditions) (arguments : List String) (files : Files)
    (stdin : ByteArray) : Outcome :=
  let (ending, world) := execute tool (World.host conditions) arguments { files, stdin }
  { ending with stdout := world.stdout, files := world.files }

end ShapeRules.Command
