import Mathlib.Data.List.Infix
import ShapeRules.Proofs.Readers
import ShapeRules.Text.Blank

/-!
# The line form determines the term

Each part of a line form tells where it ends: an IRI at its closing bracket, a label or a tag at the
next blank, a lexical form at its bare quote. This takes texts that are in order, which nothing
checks: an IRI could hold brackets and a tag the mark of a direction. On terms in order the line
form is injective, at any depth of triple terms and whatever follows a blank after it.

## Main definitions

* `Term.WellFormed`, `Triple.WellFormed`: terms and triples whose texts are in order

## Main results

* `Term.text_append_inj`: a line form is not the beginning of another one
* `Term.text_inj`: different terms have different line forms
-/

namespace ShapeRules.Rdf

open Text (isBlank Reader)

/-! ## Terms in order -/

/-- An IRI without brackets and blanks. -/
def IsIriText (s : String) : Prop := ∀ c ∈ s.toList, c ≠ '<' ∧ c ≠ '>' ∧ !isBlank c

/-- A label without blanks. -/
def IsLabelText (s : String) : Prop := ∀ c ∈ s.toList, !isBlank c

/-- A language tag without blanks and without the mark of a direction. -/
structure IsTagText (s : String) : Prop where
  label : IsLabelText s
  undirected : ¬ ['-', '-'] <:+: s.toList

/-- The text of a node is in order. -/
def Node.WellFormed : Node → Prop
  | .iri s => IsIriText s
  | .blank b => IsLabelText b

/-- The datatype or the tag of a literal is in order; any text can be a lexical form. -/
def Literal.WellFormed : Literal → Prop
  | .typed _ d => IsIriText d
  | .tagged _ l => IsTagText l
  | .directed _ l _ => IsTagText l

/-- **All texts of a term are in order.** -/
def Term.WellFormed : Term → Prop
  | .node n => n.WellFormed
  | .literal l => l.WellFormed
  | .triple s p o => s.WellFormed ∧ IsIriText p ∧ o.WellFormed

/-- All texts of a triple are in order. -/
structure Triple.WellFormed (t : Triple) : Prop where
  subject : t.subject.WellFormed
  predicate : IsIriText t.predicate
  object : t.object.WellFormed

instance (s : String) : Decidable (IsIriText s) :=
  decidable_of_iff (s.toList.all fun c => c ≠ '<' ∧ c ≠ '>' ∧ !isBlank c) (by simp [IsIriText])

instance (s : String) : Decidable (IsLabelText s) :=
  decidable_of_iff (s.toList.all (!isBlank ·)) (by simp [IsLabelText])

instance (s : String) : Decidable (IsTagText s) :=
  decidable_of_iff (IsLabelText s ∧ ¬ ['-', '-'] <:+: s.toList)
    ⟨fun h => ⟨h.1, h.2⟩, fun h => ⟨h.label, h.undirected⟩⟩

instance : (n : Node) → Decidable n.WellFormed
  | .iri s => inferInstanceAs (Decidable (IsIriText s))
  | .blank b => inferInstanceAs (Decidable (IsLabelText b))

instance : (l : Literal) → Decidable l.WellFormed
  | .typed _ d => inferInstanceAs (Decidable (IsIriText d))
  | .tagged _ l => inferInstanceAs (Decidable (IsTagText l))
  | .directed _ l _ => inferInstanceAs (Decidable (IsTagText l))

instance Term.decidableWellFormed : (t : Term) → Decidable t.WellFormed
  | .node n => inferInstanceAs (Decidable n.WellFormed)
  | .literal l => inferInstanceAs (Decidable l.WellFormed)
  | .triple s p o =>
    haveI := decidableWellFormed o
    inferInstanceAs (Decidable (s.WellFormed ∧ IsIriText p ∧ o.WellFormed))

instance (t : Triple) : Decidable t.WellFormed :=
  decidable_of_iff (t.subject.WellFormed ∧ IsIriText t.predicate ∧ t.object.WellFormed)
    ⟨fun h => ⟨h.1, h.2.1, h.2.2⟩, fun h => ⟨h.subject, h.predicate, h.object⟩⟩

/-! ## Where parts end -/

/-- What can follow a line form: nothing, or a blank. -/
def IsBreak (rest : List Char) : Prop := rest.head?.all isBlank

theorem isBreak_nil : IsBreak [] := rfl

theorem isBreak_space (rest : List Char) : IsBreak (' ' :: rest) := rfl

theorem not_isBreak_cons {c : Char} (hc : !isBlank c) (rest : List Char) :
    ¬ IsBreak (c :: rest) := by
  simpa [IsBreak] using hc

/-- Two texts of one kind of character are the same if something else follows both. -/
theorem span_append_inj {p : Char → Bool} {cs ds x y : List Char} (hcs : ∀ c ∈ cs, p c)
    (hds : ∀ d ∈ ds, p d) (hx : x.head?.all (!p ·)) (hy : y.head?.all (!p ·))
    (h : cs ++ x = ds ++ y) : cs = ds ∧ x = y := by
  have hread := Reader.span_append hcs hx
  rw [h, Reader.span_append hds hy] at hread
  simpa [eq_comm] using hread

/-- An IRI ends at its closing bracket. -/
theorem iri_append_inj {s t : String} (hs : IsIriText s) (ht : IsIriText t) {x y : List Char}
    (h : s.toList ++ '>' :: x = t.toList ++ '>' :: y) : s = t ∧ x = y := by
  have hne : ∀ {s : String}, IsIriText s → ∀ c ∈ s.toList, decide (c ≠ '>') :=
    fun hs c hc => decide_eq_true (hs c hc).2.1
  obtain ⟨hst, hxy⟩ := span_append_inj (hne hs) (hne ht) rfl rfl h
  exact ⟨String.toList_inj.1 hst, (List.cons.inj hxy).2⟩

/-- Texts without blanks end at the next blank. -/
theorem label_append_inj {cs ds x y : List Char} (hcs : ∀ c ∈ cs, !isBlank c)
    (hds : ∀ d ∈ ds, !isBlank d) (hx : IsBreak x) (hy : IsBreak y) (h : cs ++ x = ds ++ y) :
    cs = ds ∧ x = y :=
  span_append_inj hcs hds (by simpa [IsBreak] using hx) (by simpa [IsBreak] using hy) h

/-- A lexical form ends at its bare quote. -/
theorem lexicalText_append_inj {s t : String} {x y : List Char}
    (h : (lexicalText s).toList ++ x = (lexicalText t).toList ++ y) : s = t ∧ x = y := by
  have hread := Reader.quoted_lexicalText s x
  rw [h, Reader.quoted_lexicalText] at hread
  simpa [eq_comm] using hread

/-! ## Nodes -/

theorem Node.text_append_inj {m n : Node} (hm : m.WellFormed) (hn : n.WellFormed)
    {x y : List Char} (hx : IsBreak x) (hy : IsBreak y)
    (h : m.text.toList ++ x = n.text.toList ++ y) : m = n ∧ x = y := by
  cases m with
  | iri s =>
    cases n with
    | iri t =>
      have h' : s.toList ++ '>' :: x = t.toList ++ '>' :: y := by simpa [Node.text] using h
      simpa using iri_append_inj hm hn h'
    | blank c => simp [Node.text] at h
  | blank b =>
    cases n with
    | iri t => simp [Node.text] at h
    | blank c =>
      have h' : b.toList ++ x = c.toList ++ y := by simpa [Node.text] using h
      obtain ⟨hbc, hxy⟩ := label_append_inj hm hn hx hy h'
      exact ⟨congrArg Node.blank (String.toList_inj.1 hbc), hxy⟩

/-! ## Literals -/

theorem Direction.text_inj {d e : Direction} (h : d.text = e.text) : d = e := by
  cases d <;> cases e <;> simp_all [Direction.text]

/-- The marks of all directions have the same length. -/
theorem Direction.length_text (d : Direction) : d.text.toList.length = 3 := by
  cases d <;> rfl

/-- What follows the lexical form and the sign of a tag. -/
def tagChars (language : String) : Option Direction → List Char
  | none => language.toList
  | some d => language.toList ++ '-' :: '-' :: d.text.toList

theorem not_isBlank_of_mem_tagChars {l : String} (hl : IsTagText l) {d : Option Direction} :
    ∀ c ∈ tagChars l d, !isBlank c := by
  have hmark : ∀ d : Direction, ('-' :: '-' :: d.text.toList).all (!isBlank ·) := by
    intro d
    cases d <;> rfl
  intro c hc
  cases d with
  | none => exact hl.label c hc
  | some d =>
    rcases List.mem_append.1 hc with hc | hc
    · exact hl.label c hc
    · exact List.all_eq_true.1 (hmark d) c hc

/-- A tag and a direction are told from their text: the direction has a fixed length, and no tag
holds the mark of one. -/
theorem tagChars_inj {l m : String} (hl : IsTagText l) (hm : IsTagText m)
    {d e : Option Direction} (h : tagChars l d = tagChars m e) : l = m ∧ d = e := by
  cases d with
  | none =>
    cases e with
    | none => exact ⟨String.toList_inj.1 h, rfl⟩
    | some e =>
      exact absurd ⟨m.toList, e.text.toList, by simpa [tagChars] using h.symm⟩ hl.undirected
  | some d =>
    cases e with
    | none =>
      exact absurd ⟨l.toList, d.text.toList, by simpa [tagChars] using h⟩ hm.undirected
    | some e =>
      obtain ⟨hlm, hde⟩ := List.append_inj' h (by simp [Direction.length_text])
      refine ⟨String.toList_inj.1 hlm, congrArg some (Direction.text_inj (String.toList_inj.1 ?_))⟩
      simpa using hde

/-- A literal with a tag, with or without a direction. -/
def Literal.withTag (lexical language : String) : Option Direction → Literal
  | none => .tagged lexical language
  | some d => .directed lexical language d

/-- A literal has a datatype or a tag. -/
theorem Literal.typed_or_withTag (l : Literal) :
    (∃ s d, l = .typed s d) ∨ ∃ s tag d, l = withTag s tag d := by
  cases l with
  | typed s d => exact .inl ⟨s, d, rfl⟩
  | tagged s tag => exact .inr ⟨s, tag, none, rfl⟩
  | directed s tag d => exact .inr ⟨s, tag, some d, rfl⟩

theorem Literal.wellFormed_withTag {s tag : String} {d : Option Direction} :
    (withTag s tag d).WellFormed ↔ IsTagText tag := by
  cases d <;> rfl

/-- What follows the lexical form of a literal with a datatype. -/
def typeChars (datatype : String) : List Char :=
  if datatype = xsdString then [] else '^' :: '^' :: '<' :: (datatype.toList ++ ['>'])

theorem Literal.toList_text_typed (s d : String) :
    (Literal.typed s d).text.toList = (lexicalText s).toList ++ typeChars d := by
  by_cases h : d = xsdString
  · simp [Literal.text, typeChars, h]
  · simp [Literal.text, typeChars, h]

theorem Literal.toList_text_withTag (s tag : String) (d : Option Direction) :
    (withTag s tag d).text.toList = (lexicalText s).toList ++ '@' :: tagChars tag d := by
  cases d with
  | none => simp [withTag, Literal.text, tagChars]
  | some d => simp [withTag, Literal.text, tagChars]

theorem typeChars_append_inj {d e : String} (hd : IsIriText d) (he : IsIriText e)
    {x y : List Char} (hx : IsBreak x) (hy : IsBreak y)
    (h : typeChars d ++ x = typeChars e ++ y) : d = e ∧ x = y := by
  unfold typeChars at h
  split_ifs at h with hd' he' he'
  · exact ⟨hd'.trans he'.symm, h⟩
  · rw [List.nil_append] at h
    exact absurd (h ▸ hx) (not_isBreak_cons rfl _)
  · rw [List.nil_append] at h
    exact absurd (h ▸ hy) (not_isBreak_cons rfl _)
  · exact iri_append_inj hd he (by simpa using h)

/-- A datatype does not look like a tag. -/
theorem typeChars_append_ne {d : String} {x y : List Char} (hx : IsBreak x) :
    typeChars d ++ x ≠ '@' :: y := by
  unfold typeChars
  split_ifs
  · rintro rfl
    exact not_isBreak_cons rfl y hx
  · simp

theorem Literal.text_append_inj {l m : Literal} (hl : l.WellFormed) (hm : m.WellFormed)
    {x y : List Char} (hx : IsBreak x) (hy : IsBreak y)
    (h : l.text.toList ++ x = m.text.toList ++ y) : l = m ∧ x = y := by
  obtain ⟨s, d, rfl⟩ | ⟨s, a, d, rfl⟩ := l.typed_or_withTag
  · rw [toList_text_typed, List.append_assoc] at h
    obtain ⟨t, e, rfl⟩ | ⟨t, b, e, rfl⟩ := m.typed_or_withTag
    · rw [toList_text_typed, List.append_assoc] at h
      obtain ⟨rfl, htype⟩ := lexicalText_append_inj h
      obtain ⟨rfl, hxy⟩ := typeChars_append_inj hl hm hx hy htype
      exact ⟨rfl, hxy⟩
    · rw [toList_text_withTag, List.append_assoc] at h
      exact absurd (lexicalText_append_inj h).2 (typeChars_append_ne hx)
  · rw [toList_text_withTag, List.append_assoc] at h
    obtain ⟨t, e, rfl⟩ | ⟨t, b, e, rfl⟩ := m.typed_or_withTag
    · rw [toList_text_typed, List.append_assoc] at h
      exact absurd (lexicalText_append_inj h).2.symm (typeChars_append_ne hy)
    · rw [toList_text_withTag, List.append_assoc] at h
      rw [wellFormed_withTag] at hl hm
      obtain ⟨rfl, htag⟩ := lexicalText_append_inj h
      obtain ⟨htag, hxy⟩ := label_append_inj (not_isBlank_of_mem_tagChars hl)
        (not_isBlank_of_mem_tagChars hm) hx hy (List.cons.inj htag).2
      obtain ⟨rfl, rfl⟩ := tagChars_inj hl hm htag
      exact ⟨rfl, hxy⟩

/-! ## Terms -/

theorem Term.toList_text_triple (s : Node) (p : String) (o : Term) :
    (Term.triple s p o).text.toList = '<' :: '<' :: '(' :: ' ' :: (s.text.toList ++
      ' ' :: '<' :: (p.toList ++ '>' :: ' ' :: (o.text.toList ++ [' ', ')', '>', '>']))) := by
  simp [Term.text]

/-- A node does not look like a triple term. -/
theorem Node.text_append_ne {n : Node} (hn : n.WellFormed) (x y : List Char) :
    n.text.toList ++ x ≠ '<' :: '<' :: y := by
  cases n with
  | iri s =>
    cases hs : s.toList with
    | nil => simp [Node.text, hs]
    | cons c cs =>
      have hc : c ≠ '<' := (hn c (hs ▸ List.mem_cons_self)).1
      simp [Node.text, hs, hc]
  | blank b => simp [Node.text]

theorem Literal.exists_text_eq (l : Literal) : ∃ cs, l.text.toList = '"' :: cs := by
  obtain ⟨s, d, rfl⟩ | ⟨s, a, d, rfl⟩ := l.typed_or_withTag
  · exact ⟨_, by rw [toList_text_typed, lexicalText, String.toList_ofList, List.cons_append]⟩
  · exact ⟨_, by rw [toList_text_withTag, lexicalText, String.toList_ofList, List.cons_append]⟩

/-- A node does not look like a literal. -/
theorem Node.text_append_ne_quote (n : Node) (x y : List Char) : n.text.toList ++ x ≠ '"' :: y := by
  cases n <;> simp [Node.text]

/-- **A line form is not the beginning of another one** that goes on without a blank. -/
theorem Term.text_append_inj {t u : Term} (ht : t.WellFormed) (hu : u.WellFormed)
    {x y : List Char} (hx : IsBreak x) (hy : IsBreak y)
    (h : t.text.toList ++ x = u.text.toList ++ y) : t = u ∧ x = y := by
  -- Induction on the first term: only the objects of triple terms are terms again.
  induction t generalizing u x y with
  | node m =>
    cases u with
    | node n => simpa using Node.text_append_inj ht hu hx hy h
    | literal l =>
      obtain ⟨cs, hl⟩ := l.exists_text_eq
      exact absurd (h.trans (congrArg (· ++ y) hl)) (m.text_append_ne_quote x _)
    | triple s p o =>
      rw [toList_text_triple] at h
      exact absurd h (m.text_append_ne ht x _)
  | literal l =>
    obtain ⟨cs, hl⟩ := l.exists_text_eq
    cases u with
    | node n => exact absurd (h.symm.trans (congrArg (· ++ x) hl)) (n.text_append_ne_quote y _)
    | literal m => simpa using Literal.text_append_inj ht hu hx hy h
    | triple s p o =>
      rw [toList_text_triple, Term.text, hl] at h
      simp at h
  | triple s p o ih =>
    rw [toList_text_triple] at h
    cases u with
    | node n => exact absurd h.symm (n.text_append_ne hu y _)
    | literal m =>
      obtain ⟨cs, hm⟩ := m.exists_text_eq
      rw [Term.text, hm] at h
      simp at h
    | triple s' p' o' =>
      rw [toList_text_triple] at h
      simp only [List.cons_append, List.append_assoc, List.cons.injEq, true_and] at h
      obtain ⟨rfl, hp⟩ := Node.text_append_inj ht.1 hu.1 (isBreak_space _) (isBreak_space _) h
      obtain ⟨rfl, ho⟩ := iri_append_inj ht.2.1 hu.2.1 (List.cons.inj (List.cons.inj hp).2).2
      obtain ⟨rfl, hxy⟩ :=
        ih ht.2.2 hu.2.2 (isBreak_space _) (isBreak_space _) (List.cons.inj ho).2
      simpa using hxy

/-- **Different terms have different line forms.** -/
theorem Term.text_inj {t u : Term} (ht : t.WellFormed) (hu : u.WellFormed)
    (h : t.text = u.text) : t = u :=
  (text_append_inj ht hu isBreak_nil isBreak_nil (by rw [h])).1

end ShapeRules.Rdf
