import ShapeRules.Proofs.Magnitudes
import ShapeRules.Proofs.TemporalForms

/-!
# Which literals are read

A literal is read if its lexical form is one that its datatype has: four texts for truth values,
numerals whose number can be represented for numbers, and the written fields for places in time.
This says it of the literals alone, without the values that they are read as.

## Main definitions

* `Rdf.Literal.IsTruth`, `Rdf.Literal.IsNumber`, `Rdf.Literal.IsTemporal`: the literals that are
  read as truth values, as finite numbers, and as places in time
* `Value.Reading`: the values of lexical forms, by datatype

## Main results

* `Value.read?_eq_some_iff`: the lexical forms that have a value, and which
* `Value.ofLiteral_eq_boolean_iff`, `Value.isNumber_ofLiteral_iff`,
  `Value.isTemporal_ofLiteral_iff`: the kind of the value of a literal
-/

namespace ShapeRules

open Rdf

namespace Rdf.Literal

open Value

/-- **The literals of a truth value.** -/
def IsTruth (l : Literal) (b : Bool) : Prop :=
  l.datatype = xsd "boolean" ∧ l.lexical ∈ if b then ["true", "1"] else ["false", "0"]

/-- **The literals of numbers.** -/
inductive IsNumber (l : Literal) : Prop
  /-- An integer of 64 bits. -/
  | integer {z : ℤ} (datatype : l.datatype ∈ integerTypes)
    (form : AfterSign IsDigits l.lexical.toList) (value : denoted l.lexical.toList = z)
    (range : IsWord 63 z)
  /-- A decimal of at most eighteen places, whose count of the last ones has 128 bits. -/
  | decimal {units : ℤ} (datatype : l.datatype = xsd "decimal")
    (form : AfterSign IsPositional l.lexical.toList)
    (value : denoted l.lexical.toList = units / 10 ^ 18) (range : IsWord 127 units)
  /-- A number below the middle between the largest one of 24 bits and the next power of two. -/
  | float (datatype : l.datatype = xsd "float")
    (form : AfterSign (fun rest => ∃ q, IsScientific rest q ∧ q < (2 ^ 24 - 1 / 2) * 2 ^ 104)
      l.lexical.toList)
  /-- A number below the middle between the largest one of 53 bits and the next power of two. -/
  | double (datatype : l.datatype = xsd "double")
    (form : AfterSign (fun rest => ∃ q, IsScientific rest q ∧ q < (2 ^ 53 - 1 / 2) * 2 ^ 971)
      l.lexical.toList)

/-- **The literals of places in time.** -/
inductive IsTemporal (l : Literal) : Prop
  | date {d : Day} {z : Option Zone} (datatype : l.datatype = xsd "date")
    (form : IsDate l.lexical.toList d z)
  | dateTime {d : Day} {c : Clock} {z : Option Zone}
    (datatype : l.datatype ∈ [xsd "dateTime", xsd "dateTimeStamp"])
    (form : IsDateTime l.lexical.toList d c z)
  | time {c : Clock} {z : Option Zone} (datatype : l.datatype = xsd "time")
    (form : IsTime l.lexical.toList c z)

/-- **The literals of texts:** all others. -/
def IsText (l : Literal) : Prop := (∀ b, ¬ l.IsTruth b) ∧ ¬ l.IsNumber ∧ ¬ l.IsTemporal

end Rdf.Literal

namespace Value

/-- **The values of lexical forms,** by datatype. -/
inductive Reading (datatype lexical : String) : Value → Prop
  | boolean {b : Bool} (hdatatype : datatype = xsd "boolean")
    (form : lexical ∈ if b then ["true", "1"] else ["false", "0"]) :
    Reading datatype lexical (.boolean b)
  | integer {z : ℤ} (hdatatype : datatype ∈ integerTypes)
    (value : integer? lexical.toList = some z) : Reading datatype lexical (.integer z)
  | decimal {d : Decimal} (hdatatype : datatype = xsd "decimal")
    (value : Decimal.ofChars? lexical.toList = some d) : Reading datatype lexical (.decimal d)
  | float {x : Binary} (hdatatype : datatype = xsd "float")
    (value : BinaryFormat.single.ofChars? lexical.toList = some x) :
    Reading datatype lexical (.float x)
  | double {x : Binary} (hdatatype : datatype = xsd "double")
    (value : BinaryFormat.double.ofChars? lexical.toList = some x) :
    Reading datatype lexical (.double x)
  | date {d : Day} {z : Option Zone} (hdatatype : datatype = xsd "date")
    (form : IsDate lexical.toList d z) : Reading datatype lexical (.date d z)
  | dateTime {d : Day} {c : Clock} {z : Option Zone}
    (hdatatype : datatype ∈ [xsd "dateTime", xsd "dateTimeStamp"])
    (form : IsDateTime lexical.toList d c z) : Reading datatype lexical
      (.dateTime (if c.hour = 24 then d.next else d) (if c.hour = 24 then .midnight else c) z)
  | time {c : Clock} {z : Option Zone} (hdatatype : datatype = xsd "time")
    (form : IsTime lexical.toList c z) :
    Reading datatype lexical (.time (if c.hour = 24 then .midnight else c) z)

theorem boolean?_eq_some_iff {s : String} {b : Bool} :
    boolean? s = some b ↔ s ∈ if b then ["true", "1"] else ["false", "0"] := by
  have htrue : boolean? s = some true ↔ s = "true" ∨ s = "1" := by
    rw [boolean?]
    split_ifs with h1 h0 <;> simp [h1]
  have hfalse : boolean? s = some false ↔ s = "false" ∨ s = "0" := by
    rw [boolean?]
    split_ifs with h1 h0
    · rcases h1 with rfl | rfl <;> simp
    · simp [h0]
    · simp [h0]
  cases b with
  | true => simpa using htrue
  | false => simpa using hfalse

/-- **Which lexical forms have a value, and which.** -/
theorem read?_eq_some_iff {datatype lexical : String} {v : Value} :
    read? datatype lexical = some v ↔ Reading datatype lexical v := by
  constructor
  · intro h
    unfold read? at h
    split_ifs at h with hboolean hinteger hdecimal hfloat hdouble hdate hdateTime htime
    · obtain ⟨b, hb, rfl⟩ := Option.map_eq_some_iff.1 h
      exact .boolean hboolean (boolean?_eq_some_iff.1 hb)
    · obtain ⟨z, hz, rfl⟩ := Option.map_eq_some_iff.1 h
      exact .integer hinteger hz
    · obtain ⟨d, hd, rfl⟩ := Option.map_eq_some_iff.1 h
      exact .decimal hdecimal hd
    · obtain ⟨x, hx, rfl⟩ := Option.map_eq_some_iff.1 h
      exact .float hfloat hx
    · obtain ⟨x, hx, rfl⟩ := Option.map_eq_some_iff.1 h
      exact .double hdouble hx
    · obtain ⟨d, z, form, rfl⟩ := date?_eq_some_iff.1 h
      exact .date hdate form
    · obtain ⟨d, c, z, form, rfl⟩ := dateTime?_eq_some_iff.1 h
      exact .dateTime (by simpa using hdateTime) form
    · obtain ⟨c, z, form, rfl⟩ := time?_eq_some_iff.1 h
      exact .time htime form
  · -- the datatypes are different texts, so the tests before the right one fail
    intro h
    cases h with
    | boolean hdatatype form =>
      rw [read?, if_pos hdatatype, boolean?_eq_some_iff.2 form]
      rfl
    | integer hdatatype value =>
      rw [read?_of_mem_integerTypes hdatatype, value]
      rfl
    | decimal hdatatype value =>
      rw [hdatatype, read?_decimal, value]
      rfl
    | float hdatatype value =>
      rw [hdatatype, read?, if_neg (by decide), if_neg (by decide), if_neg (by decide), if_pos rfl,
        value]
      rfl
    | double hdatatype value =>
      rw [hdatatype, read?, if_neg (by decide), if_neg (by decide), if_neg (by decide),
        if_neg (by decide), if_pos rfl, value]
      rfl
    | date hdatatype form =>
      rw [hdatatype, read?, if_neg (by decide), if_neg (by decide), if_neg (by decide),
        if_neg (by decide), if_neg (by decide), if_pos rfl]
      exact date?_eq_some_iff.2 ⟨_, _, form, rfl⟩
    | dateTime hdatatype form =>
      have hread : read? datatype lexical = dateTime? lexical.toList := by
        rcases List.mem_pair.1 hdatatype with rfl | rfl
        all_goals
          rw [read?, if_neg (by decide), if_neg (by decide), if_neg (by decide),
            if_neg (by decide), if_neg (by decide), if_neg (by decide), if_pos (by decide)]
      rw [hread]
      exact dateTime?_eq_some_iff.2 ⟨_, _, _, form, rfl⟩
    | time hdatatype form =>
      rw [hdatatype, read?, if_neg (by decide), if_neg (by decide), if_neg (by decide),
        if_neg (by decide), if_neg (by decide), if_neg (by decide), if_neg (by decide), if_pos rfl]
      exact time?_eq_some_iff.2 ⟨_, _, form, rfl⟩

/-- A literal has the value of a text, or one by its datatype. -/
theorem ofLiteral_eq_iff {l : Literal} {v : Value} (hv : ∀ s, v ≠ .string s) :
    ofLiteral l = v ↔ Reading l.datatype l.lexical v := by
  rw [← read?_eq_some_iff, ofLiteral]
  cases read? l.datatype l.lexical with
  | none => exact iff_of_false (fun h => hv _ h.symm) (by simp)
  | some w => simp

/-- The values that are finite numbers. -/
def IsNumber : Value → Prop
  | .integer _ => True
  | .decimal _ => True
  | .float x => x.IsFinite
  | .double x => x.IsFinite
  | _ => False

/-- The values that are places in time. -/
def IsTemporal : Value → Prop
  | .date .. => True
  | .dateTime .. => True
  | .time .. => True
  | _ => False

variable {l : Literal}

/-- **Which literals are read as truth values.** -/
theorem ofLiteral_eq_boolean_iff {b : Bool} : ofLiteral l = .boolean b ↔ l.IsTruth b := by
  rw [ofLiteral_eq_iff (by simp)]
  constructor
  · intro h
    cases h with
    | boolean hdatatype form => exact ⟨hdatatype, form⟩
  · rintro ⟨hdatatype, form⟩
    exact .boolean hdatatype form

/-- The value of a literal that is no text is read from its lexical form. -/
theorem reading_ofLiteral (h : ∀ s, ofLiteral l ≠ .string s) :
    Reading l.datatype l.lexical (ofLiteral l) :=
  (ofLiteral_eq_iff h).1 rfl

/-- **Which literals are read as finite numbers.** -/
theorem isNumber_ofLiteral_iff : (ofLiteral l).IsNumber ↔ l.IsNumber := by
  have hsingle : BinaryFormat.single.threshold = (2 ^ 24 - 1 / 2) * 2 ^ 104 := rfl
  have hdouble : BinaryFormat.double.threshold = (2 ^ 53 - 1 / 2) * 2 ^ 971 := rfl
  constructor
  · intro h
    have hreading : Reading l.datatype l.lexical (ofLiteral l) :=
      reading_ofLiteral fun s hs => by rwa [hs] at h
    generalize ofLiteral l = v at h hreading
    cases hreading with
    | integer hdatatype value =>
      obtain ⟨form, hz, range⟩ := integer?_eq_some_iff.1 value
      exact .integer hdatatype form hz (fitsWord_iff.1 range)
    | decimal hdatatype value =>
      obtain ⟨form, hunits, range⟩ := Decimal.ofChars?_eq_some_iff.1 value
      exact .decimal hdatatype form hunits (fitsWord_iff.1 range)
    | float hdatatype value =>
      have form := (BinaryFormat.ofChars?_isFinite_iff BinaryFormat.inReach_single).1 ⟨_, value, h⟩
      exact .float hdatatype (hsingle ▸ form)
    | double hdatatype value =>
      have form := (BinaryFormat.ofChars?_isFinite_iff BinaryFormat.inReach_double).1 ⟨_, value, h⟩
      exact .double hdatatype (hdouble ▸ form)
    | _ => exact absurd h id
  · intro h
    cases h with
    | @integer z datatype form value range =>
      have hread := integer?_eq_some_iff.2 ⟨form, value, fitsWord_iff.2 range⟩
      rw [(ofLiteral_eq_iff (by simp)).2 (.integer datatype hread)]
      trivial
    | @decimal units datatype form value range =>
      have hread : Decimal.ofChars? l.lexical.toList = some ⟨units⟩ :=
        Decimal.ofChars?_eq_some_iff.2 ⟨form, value, fitsWord_iff.2 range⟩
      rw [(ofLiteral_eq_iff (by simp)).2 (.decimal datatype hread)]
      trivial
    | float datatype form =>
      rw [← hsingle, ← BinaryFormat.ofChars?_isFinite_iff BinaryFormat.inReach_single] at form
      obtain ⟨x, hread, hfinite⟩ := form
      rw [(ofLiteral_eq_iff (by simp)).2 (.float datatype hread)]
      exact hfinite
    | double datatype form =>
      rw [← hdouble, ← BinaryFormat.ofChars?_isFinite_iff BinaryFormat.inReach_double] at form
      obtain ⟨x, hread, hfinite⟩ := form
      rw [(ofLiteral_eq_iff (by simp)).2 (.double datatype hread)]
      exact hfinite

/-- **Which literals are read as places in time.** -/
theorem isTemporal_ofLiteral_iff : (ofLiteral l).IsTemporal ↔ l.IsTemporal := by
  constructor
  · intro h
    have hreading : Reading l.datatype l.lexical (ofLiteral l) :=
      reading_ofLiteral fun s hs => by rwa [hs] at h
    generalize ofLiteral l = v at h hreading
    cases hreading with
    | date hdatatype form => exact .date hdatatype form
    | dateTime hdatatype form => exact .dateTime hdatatype form
    | time hdatatype form => exact .time hdatatype form
    | _ => exact absurd h id
  · intro h
    cases h with
    | date datatype form =>
      rw [(ofLiteral_eq_iff (by simp)).2 (.date datatype form)]
      trivial
    | dateTime datatype form =>
      rw [(ofLiteral_eq_iff (by simp)).2 (.dateTime datatype form)]
      trivial
    | time datatype form =>
      rw [(ofLiteral_eq_iff (by simp)).2 (.time datatype form)]
      trivial

/-- **Which literals are read as dates.** -/
theorem ofLiteral_eq_date_iff {d : Day} {z : Option Zone} :
    ofLiteral l = .date d z ↔ l.datatype = xsd "date" ∧ IsDate l.lexical.toList d z := by
  rw [ofLiteral_eq_iff (by simp)]
  constructor
  · intro h
    cases h with
    | date hdatatype form => exact ⟨hdatatype, form⟩
  · rintro ⟨hdatatype, form⟩
    exact .date hdatatype form

end Value

end ShapeRules
