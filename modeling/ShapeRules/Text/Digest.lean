/-!
# A keyed digest of texts

SipHash mixes a text, eight bytes at a time, into four words; one round follows each block, and
three rounds close the digest. Both keys are zero. The bytes of a text are followed by the byte
`0xFF`, which no text contains, and the digest is written as a decimal number.

## Main definitions

* `SipState`: the four words
* `digest`: the digest of a text
-/

namespace ShapeRules.Text

/-- The four words that a text is mixed into. -/
structure SipState where
  v0 : UInt64
  v1 : UInt64
  v2 : UInt64
  v3 : UInt64

namespace SipState

/-- The words before any text, for keys that are zero. -/
def start : SipState :=
  ⟨0x736f6d6570736575, 0x646f72616e646f6d, 0x6c7967656e657261, 0x7465646279746573⟩

/-- A word rotated to the left. -/
def rotate (x : UInt64) (bits : UInt64) : UInt64 :=
  (x <<< bits) ||| (x >>> (64 - bits))

/-- One round of mixing. -/
def round (s : SipState) : SipState :=
  let v0 := s.v0 + s.v1
  let v1 := rotate s.v1 13 ^^^ v0
  let v0 := rotate v0 32
  let v2 := s.v2 + s.v3
  let v3 := rotate s.v3 16 ^^^ v2
  let v0 := v0 + v3
  let v3 := rotate v3 21 ^^^ v0
  let v2 := v2 + v1
  let v1 := rotate v1 17 ^^^ v2
  let v2 := rotate v2 32
  ⟨v0, v1, v2, v3⟩

/-- Mixes one block in. -/
def absorb (s : SipState) (block : UInt64) : SipState :=
  let s := { s with v3 := s.v3 ^^^ block }.round
  { s with v0 := s.v0 ^^^ block }

/-- The digest of what was mixed in. -/
def finish (s : SipState) : UInt64 :=
  let s := { s with v2 := s.v2 ^^^ 0xff }.round.round.round
  s.v0 ^^^ s.v1 ^^^ s.v2 ^^^ s.v3

end SipState

/-- The block of at most eight bytes, the first byte lowest. -/
def block (bytes : List UInt8) : UInt64 :=
  bytes.foldr (fun b w => (w <<< 8) ||| b.toUInt64) 0

/-- Mixes bytes in, eight at a time; the last block bears the length in its highest byte. -/
def absorbAll (length : Nat) : SipState → List UInt8 → SipState
  | s, a :: b :: c :: d :: e :: f :: g :: h :: rest =>
    absorbAll length (s.absorb (block [a, b, c, d, e, f, g, h])) rest
  | s, rest => s.absorb ((UInt64.ofNat length <<< 56) ||| block rest)

/-- **The digest of a text,** as a decimal number. -/
def digest (s : String) : String :=
  let bytes := s.toUTF8.data.toList ++ [0xFF]
  toString (absorbAll bytes.length .start bytes).finish

end ShapeRules.Text
