import ShapeRules.Rdf.Format

/-!
# IRI references

An IRI reference has up to five parts: a scheme, an authority, a path, a query and a fragment. A
reference with a scheme is an IRI by itself; any other one leads to an IRI from a base, whose parts
it takes over up to the first part of its own. Each part has its own set of characters, and any
character can stand there as a percent sign and two hexadecimal digits.

## Main definitions

* `Reference`, `Reference.ofChars`, `Reference.text`: references and their parts
* `Reference.isValid`: whether every part holds only its own characters
* `Reference.resolve`: the IRI that a reference leads to
-/

namespace ShapeRules.Rdf

/-- **An IRI reference,** by its parts. -/
structure Reference where
  scheme : Option (List Char) := none
  authority : Option (List Char) := none
  path : List Char := []
  query : Option (List Char) := none
  fragment : Option (List Char) := none
  deriving DecidableEq, Repr

namespace Reference

/-! ## Parts -/

/-- Whether a text is the name of a scheme. -/
def isScheme : List Char → Bool
  | [] => false
  | c :: cs => c.isAlpha && cs.all fun c => c.isAlphanum || c ∈ ['+', '-', '.']

/-- The text before a mark, and the text after it if the mark occurs. -/
def splitMark (mark : Char) (cs : List Char) : List Char × Option (List Char) :=
  match cut? mark cs with
  | none => (cs, none)
  | some (before, after) => (before, some after)

/-- The scheme at the start of a text, and what follows its colon. -/
def splitScheme (cs : List Char) : Option (List Char) × List Char :=
  match cut? ':' cs with
  | some (name, rest) => if isScheme name then (some name, rest) else (none, cs)
  | none => (none, cs)

/-- The authority at the start of a text, after two slashes, and the path that follows. -/
def splitAuthority : List Char → Option (List Char) × List Char
  | '/' :: '/' :: cs => (some (cs.takeWhile (· != '/')), cs.dropWhile (· != '/'))
  | cs => (none, cs)

/-- The reference of a text. -/
def ofChars (cs : List Char) : Reference :=
  let (cs, fragment) := splitMark '#' cs
  let (cs, query) := splitMark '?' cs
  let (scheme, cs) := splitScheme cs
  let (authority, path) := splitAuthority cs
  { scheme, authority, path, query, fragment }

/-- The text of a reference. -/
def text (r : Reference) : List Char :=
  (r.scheme.map (· ++ [':'])).getD [] ++ (r.authority.map ('/' :: '/' :: ·)).getD [] ++ r.path ++
    (r.query.map ('?' :: ·)).getD [] ++ (r.fragment.map ('#' :: ·)).getD []

/-! ## Validity -/

/-- Inclusive ranges of the code points beyond ASCII that can stand in every part. -/
def letterRanges : List (Nat × Nat) :=
  [(0xa0, 0xd7ff), (0xf900, 0xfdcf), (0xfdf0, 0xffef)] ++
    (List.range' 1 13).map (fun plane => (plane * 0x10000, plane * 0x10000 + 0xfffd)) ++
    [(0xe1000, 0xefffd)]

/-- Inclusive ranges of the private code points, which can stand in a query. -/
def privateRanges : List (Nat × Nat) :=
  [(0xe000, 0xf8ff), (0xf0000, 0xffffd), (0x100000, 0x10fffd)]

/-- Whether a character can stand in every part. -/
def isLetter (c : Char) : Bool :=
  c.isAlphanum || "!$&'()*+,-.;=_~".toList.contains c || Text.inRanges letterRanges c.toNat

/-- Whether a character is a hexadecimal digit. -/
def isHexDigit (c : Char) : Bool :=
  c.isDigit || ('a' ≤ c && c ≤ 'f') || ('A' ≤ c && c ≤ 'F')

/-- Whether a part holds only letters, further characters of its own, and encoded characters. -/
def holdsOnly (own : Char → Bool) : List Char → Bool
  | [] => true
  | '%' :: a :: b :: cs => isHexDigit a && isHexDigit b && holdsOnly own cs
  | c :: cs => (isLetter c || own c) && holdsOnly own cs

/-- Whether a text is a host, with an optional number after a colon. A host in brackets is a numeric
address. -/
def isHost : List Char → Bool
  | '[' :: cs =>
    match cut? ']' cs with
    | none => false
    | some (address, rest) =>
      !address.isEmpty && address.all (fun c => isHexDigit c || c = ':' || c = '.') &&
        match rest with
        | [] => true
        | ':' :: number => number.all Char.isDigit
        | _ => false
  | cs =>
    let (name, number) := splitMark ':' cs
    holdsOnly (fun _ => false) name && (number.getD []).all Char.isDigit

/-- Whether a text is an authority: a host, after the name of a user if there is an at sign. -/
def isAuthority (cs : List Char) : Bool :=
  match cut? '@' cs with
  | none => isHost cs
  | some (user, host) => holdsOnly (· = ':') user && isHost host

/-- Whether a path is one of a reference with the given scheme and authority: without both of them,
no colon comes before the first slash. -/
def isPath (r : Reference) : Bool :=
  holdsOnly (fun c => c ∈ [':', '@', '/']) r.path &&
    (r.scheme.isSome || r.authority.isSome || !(r.path.takeWhile (· != '/')).contains ':')

/-- **Whether every part of a reference holds only its own characters.** -/
def isValid (r : Reference) : Bool :=
  r.authority.all isAuthority && r.isPath &&
    r.query.all (holdsOnly fun c =>
      c ∈ [':', '@', '/', '?'] || Text.inRanges privateRanges c.toNat) &&
    r.fragment.all (holdsOnly (· ∈ [':', '@', '/', '?']))

/-- Whether a reference is an IRI by itself. -/
def isIri (r : Reference) : Bool :=
  r.scheme.isSome && r.isValid

/-! ## Resolution -/

/-- The segments of a path without those that stand for the same or the upper level. -/
def collapse (kept : List (List Char)) : List (List Char) → List (List Char)
  | [] => kept.reverse
  | [s] =>
    if s = ['.'] then ([] :: kept).reverse
    else if s = ['.', '.'] then ([] :: kept.tail).reverse
    else (s :: kept).reverse
  | s :: rest =>
    if s = ['.'] then collapse kept rest
    else if s = ['.', '.'] then collapse kept.tail rest
    else collapse (s :: kept) rest

/-- A path without the segments that stand for the same or the upper level. -/
def withoutDots : List Char → List Char
  | '/' :: cs => '/' :: List.intercalate ['/'] (collapse [] (cs.splitOn '/'))
  | cs => List.intercalate ['/'] (collapse [] (cs.splitOn '/'))

/-- The path of a base with what follows its last slash replaced. -/
def merge (base : Reference) (path : List Char) : List Char :=
  if base.authority.isSome && base.path.isEmpty then '/' :: path
  else (base.path.reverse.dropWhile (· != '/')).reverse ++ path

/-- **The IRI that a reference leads to from a base.** -/
def resolve (base r : Reference) : Reference :=
  if r.scheme.isSome then { r with path := withoutDots r.path }
  else if r.authority.isSome then { r with scheme := base.scheme, path := withoutDots r.path }
  else if r.path.isEmpty then
    { base with query := r.query.or base.query, fragment := r.fragment }
  else
    let path := if r.path.head? = some '/' then r.path else base.merge r.path
    { base with path := withoutDots path, query := r.query, fragment := r.fragment }

end Reference

end ShapeRules.Rdf
