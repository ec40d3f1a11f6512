import ShapeRules.Text.Blank

/-!
# Formats of documents

A document is in one of seven formats, named by a file extension or by a media type. Letter case
does not matter in extensions and in the type. A media type may have parameters, of which only the
character set and the profile are looked at.

## Main definitions

* `Format`: the formats
* `MediaType`, `MediaType.ofString?`: media types with their parameters
* `Format.ofExtension?`, `MediaType.format`, `Format.ofName`: the format of a name
-/

namespace ShapeRules.Rdf

open Text (trim)

/-- **The formats of documents.** -/
inductive Format where
  | jsonLd
  | n3
  | nQuads
  | nTriples
  | rdfXml
  | triG
  | turtle
  deriving DecidableEq, Repr

/-- **Why a name is that of no format.** -/
inductive NameFault where
  | unknown
  /-- The profile of a media type is a quotation mark that nothing closes. -/
  | openProfile
  deriving DecidableEq, Repr

/-- A text with its ASCII letters in lower case. -/
def lower (s : String) : String := String.ofList (s.toList.map Char.toLower)

/-- The text before the first occurrence of a character, and the text after it. -/
def cut? (c : Char) (cs : List Char) : Option (List Char × List Char) :=
  match cs.dropWhile (· != c) with
  | [] => none
  | _ :: rest => some (cs.takeWhile (· != c), rest)

/-- **A media type:** a type, a subtype, and parameters with their values. -/
structure MediaType where
  type : String
  subtype : String
  parameters : List (String × String) := []
  deriving DecidableEq, Repr

namespace MediaType

/-- A parameter: a name and a value around an equals sign. -/
def parameter? (cs : List Char) : Option (String × String) :=
  (cut? '=' cs).map fun (key, value) => (String.ofList (trim key), String.ofList (trim value))

/-- The subtype without the mark of an unregistered one. -/
def registered (subtype : List Char) : List Char :=
  match subtype with
  | 'x' :: '-' :: rest => rest
  | subtype => subtype

/-- The media type of a text, if it is in order. -/
def ofString? (s : String) : Option MediaType := do
  let (essence, rest) := (cut? ';' s.toList).getD (s.toList, [])
  let (type, subtype) ← cut? '/' essence
  let parameters ←
    if (trim rest).isEmpty then some [] else ((trim rest).splitOn ';').mapM parameter?
  some ⟨String.ofList (trim type), String.ofList (registered (trim subtype)), parameters⟩

/-- Checks a parameter. The character set is one that the reader knows, and a profile that starts
and ends with a quotation mark has two of them. -/
def checkParameter : String × String → Except NameFault Unit
  | ("charset", value) =>
    if lower value ∈ ["ascii", "utf8", "utf-8"] then .ok () else .error .unknown
  | ("profile", value) => if value = "\"" then .error .openProfile else .ok ()
  | _ => .ok ()

/-- The formats by subtype of a media type. -/
def subtypes : List (String × Format) :=
  [("activity+json", .jsonLd), ("json", .jsonLd), ("ld+json", .jsonLd), ("jsonld", .jsonLd),
    ("n-quads", .nQuads), ("n-triples", .nTriples), ("n3", .n3), ("nquads", .nQuads),
    ("ntriples", .nTriples), ("plain", .nTriples), ("rdf+xml", .rdfXml), ("trig", .triG),
    ("turtle", .turtle), ("xml", .rdfXml)]

/-- The format that the type and subtype alone name. -/
def essence? (m : MediaType) : Option Format :=
  if lower m.type ∈ ["application", "text"] then subtypes.lookup (lower m.subtype) else none

/-- **The format of a media type.** Its parameters are checked in turn. -/
def format (m : MediaType) : Except NameFault Format :=
  match m.essence? with
  | none => .error .unknown
  | some format => do
    m.parameters.forM checkParameter
    pure format

end MediaType

namespace Format

/-- The formats by file extension. -/
def extensions : List (String × Format) :=
  [("json", jsonLd), ("jsonld", jsonLd), ("n3", n3), ("nq", nQuads), ("nt", nTriples),
    ("rdf", rdfXml), ("trig", triG), ("ttl", turtle), ("txt", nTriples), ("xml", rdfXml)]

/-- The format of a file extension. -/
def ofExtension? (extension : String) : Option Format :=
  extensions.lookup (lower extension)

/-- **The format of a name:** an extension or a media type. -/
def ofName (name : String) : Except NameFault Format :=
  match ofExtension? name, MediaType.ofString? name with
  | some format, _ => .ok format
  | none, some type => type.format
  | none, none => .error .unknown

/-- Whether the documents of a format are lines of one statement each, without a base IRI. -/
def isLineBased : Format → Bool
  | nTriples | nQuads => true
  | _ => false

end Format

end ShapeRules.Rdf
