import ShapeRules.Command.Run
import ShapeRules.Proofs.Invocation
import ShapeRules.Proofs.Replacement

/-!
# A run delivers all or nothing

A run only looks at the world until it has the text of a program. The steps that deliver the text
can all be interrupted. None of them but the last changes a file other than the draft, which is new,
and the last one moves the draft to where it belongs; a draft that is not moved is removed. So the
text arrives in full and nothing else changes, or the files are as they were. Standard output gets
nothing before the text is complete; it is the only thing that can be left with a part of it, if it
breaks off itself.

## Main definitions

* `World.Intact`: the files are as before, apart from the draft
* `Observes`: what a computation yields that only looks at the world
* `Request.Yields`: the text that a request asks for
* `Request.Permitted`, `Request.Delivers`: whether a delivery can be made, and where a text goes
* `Prints`: the texts that are asked for without a request
* `Conditions.BreaksOff`: standard output takes a part of a text only

## Main results

* `World.intact_perform`, `World.intact_of_performAll`: what a step and what the steps of a failing
  delivery leave as it was
* `Request.observes_programText`: the steps before anything is written
* `Request.exists_performAll_iff`, `Request.delivers_of_performAll`: the steps after that
* `run_of_asks`, `run_of_prints`, `run_of_neither`: the ways in which a run ends
* `run_delivers_all_or_nothing`: what a run prints and writes
-/

namespace ShapeRules.Command

open Rdf Compile

/-! ## Single steps -/

namespace World

variable {c : Conditions} {w w' : World} {before : Files} {contents : ByteArray} {path : String}
  {s : Step} {fault : Fault} {fault? : Option Fault}

/-- **The files are as before, apart from the draft,** which is a new file. -/
def Intact (before : Files) (w : World) : Prop :=
  match w.draft with
  | none => w.files = before
  | some place => before.node? place = none ∧ ∃ contents, w.files = before.put place contents

theorem create_eq_none_iff : w.create c path = (none, w') ↔
    w.draft = none ∧ c.interruption? .create = none ∧
      ∃ place, w.files.draftPlace c.names path = .ok place ∧
        w' = { w with files := w.files.put place .empty, draft := some place } := by
  rw [create]
  split
  next hdraft => simp [hdraft]
  next hstage => simp [hstage]
  next hplace => simp [hplace]
  next hdraft hstage hplace => simp [hdraft, hstage, hplace, eq_comm]

theorem write_eq_none_iff : w.write c contents = (none, w') ↔
    c.interruption? .write = none ∧
      ∃ place, w.draft = some place ∧ w' = { w with files := w.files.put place contents } := by
  rw [write]
  split
  next hdraft => simp [hdraft]
  next hstage => simp [hstage]
  next hdraft hstage => simp [hdraft, hstage, eq_comm]

theorem perform_sync_eq_none_iff : w.perform c .sync = (none, w') ↔
    c.interruption? .sync = none ∧ w' = w := by
  rw [perform, Prod.mk.injEq, Option.map_eq_none_iff]
  exact and_congr_right fun _ => eq_comm

theorem persist_eq_none_iff : w.persist c path = (none, w') ↔
    c.interruption? .persist = none ∧ ∃ place files, w.draft = some place ∧
      w.files.move place path = .ok files ∧ w' = { w with files, draft := none } := by
  rw [persist]
  split
  next hdraft => simp [hdraft]
  next hstage => simp [hstage]
  next hdraft hstage =>
    split
    next hmove => simp [hdraft, hmove]
    next hmove => simp [hdraft, hstage, hmove, eq_comm]

/-- A draft that is not moved stays as it is. -/
theorem eq_of_persist (h : w.persist c path = (some fault, w')) : w' = w := by
  rw [persist] at h
  split at h
  · exact (congrArg Prod.snd h).symm
  · exact (congrArg Prod.snd h).symm
  · split at h
    · exact (congrArg Prod.snd h).symm
    · cases h

theorem intact_create (h : w.Intact before) : (w.create c path).2.Intact before := by
  rw [create]
  split
  · exact h
  · exact h
  · exact h
  next place hdraft _ hplace =>
    have hfiles : w.files = before := by rwa [Intact, hdraft] at h
    rw [hfiles] at hplace ⊢
    exact ⟨Files.node?_eq_none_of_draftPlace hplace, _, rfl⟩

theorem intact_write (h : w.Intact before) : (w.write c contents).2.Intact before := by
  -- the draft has other contents, whether all of them were taken or not
  have hput : ∀ {place contents}, w.draft = some place →
      ({ w with files := w.files.put place contents } : World).Intact before := by
    intro place contents hdraft
    rw [Intact, hdraft] at h ⊢
    obtain ⟨hnew, old, hfiles⟩ := h
    exact ⟨hnew, contents, by rw [hfiles, Files.put_put]⟩
  rw [write]
  split
  · exact h
  next hdraft _ => exact hput hdraft
  next hdraft _ => exact hput hdraft

/-- **A step leaves the files as they were,** apart from the draft, unless it moves the draft. -/
theorem intact_perform (h : w.Intact before) (hs : w.perform c s = (fault?, w'))
    (hkeep : fault? = none → ∀ path, s ≠ .persist path) : w'.Intact before := by
  obtain rfl : (w.perform c s).2 = w' := congrArg Prod.snd hs
  cases s with
  | create path => exact intact_create h
  | write contents => exact intact_write h
  | sync => exact h
  | persist path =>
    cases fault? with
    | none => exact absurd rfl (hkeep rfl path)
    | some fault => rwa [eq_of_persist hs]
  | print contents =>
    rw [perform, print]
    split <;> exact h
  | flush =>
    rw [perform, flush]
    split <;> exact h

/-- A draft that is given up leaves nothing behind. -/
theorem files_discard (h : w.Intact before) (hremove : c.interruption? .remove = none) :
    (w.discard c).files = before := by
  rw [discard, hremove]
  rw [Intact] at h
  split
  next hdraft => rwa [hdraft] at h
  next hstage => cases hstage
  next place hdraft _ =>
    rw [hdraft] at h
    obtain ⟨hnew, contents, hfiles⟩ := h
    rw [hfiles, Files.remove_put hnew]

theorem discard_of_draft_eq_none (h : w.draft = none) : w.discard c = w := by
  rw [discard, h]

theorem stdout_discard : (w.discard c).stdout = w.stdout := by
  rw [discard]
  split <;> rfl

/-- What standard output has taken or is to take. -/
def output (w : World) : ByteArray × ByteArray := (w.stdout, w.pending)

/-- Only the steps for standard output change it. -/
theorem output_perform (hprint : ∀ contents, s ≠ .print contents) (hflush : s ≠ .flush) :
    (w.perform c s).2.output = w.output := by
  cases s with
  | create path =>
    rw [perform, create]
    split <;> rfl
  | write contents =>
    rw [perform, write]
    split <;> rfl
  | sync => rfl
  | persist path =>
    rw [perform, persist]
    split
    · rfl
    · rfl
    · split <;> rfl
  | print contents => exact absurd rfl (hprint contents)
  | flush => exact absurd rfl hflush

/-! ## Deliveries -/

theorem bind_apply {α β : Type} (x : StateM World α) (f : α → StateM World β) (w : World) :
    (x >>= f) w = f (x w).1 (x w).2 := rfl

theorem performAll_cons_of_some (h : w.perform c s = (some fault, w')) (rest : List Step) :
    (host c).performAll (s :: rest) w = (some fault, w') := by
  have hrun : (host c).perform s w = (some fault, w') := h
  rw [Host.performAll, bind_apply, hrun]
  rfl

theorem performAll_cons_of_none (h : w.perform c s = (none, w')) (rest : List Step) :
    (host c).performAll (s :: rest) w = (host c).performAll rest w' := by
  have hrun : (host c).perform s w = (none, w') := h
  rw [Host.performAll, bind_apply, hrun]

/-- Steps are taken one by one. -/
theorem performAll_cons_eq_none_iff {rest : List Step} :
    (host c).performAll (s :: rest) w = (none, w') ↔
      ∃ v, w.perform c s = (none, v) ∧ (host c).performAll rest v = (none, w') := by
  rcases hs : w.perform c s with ⟨_ | fault, v⟩
  · rw [performAll_cons_of_none hs]
    simp
  · rw [performAll_cons_of_some hs]
    refine iff_of_false ?_ (by simp)
    intro h
    cases h

theorem performAll_nil_eq_iff : (host c).performAll [] w = (fault?, w') ↔
    fault? = none ∧ w' = w := by
  have hnil : (host c).performAll [] w = (none, w) := rfl
  rw [hnil, Prod.mk.injEq]
  exact and_congr eq_comm eq_comm

/-- **A delivery that fails leaves the files as they were,** apart from the draft, if only its last
step moves the draft. -/
theorem intact_of_performAll {all : List Step} (hall : ∀ path, .persist path ∉ all.dropLast)
    (h : w.Intact before) (hrun : (host c).performAll all w = (some fault, w')) :
    w'.Intact before := by
  induction all generalizing w with
  | nil => cases (performAll_nil_eq_iff.1 hrun).1
  | cons s rest ih =>
    rcases hs : w.perform c s with ⟨_ | fault', v⟩
    · rw [performAll_cons_of_none hs] at hrun
      -- this is not the last step, since a later one fails
      have hne : rest ≠ [] := by
        rintro rfl
        cases (performAll_nil_eq_iff.1 hrun).1
      rw [List.dropLast_cons_of_ne_nil hne] at hall
      refine ih (fun path hmem => hall path (List.mem_cons_of_mem s hmem)) ?_ hrun
      refine intact_perform h hs fun _ path he => hall path ?_
      rw [he]
      exact List.mem_cons_self
    · rw [performAll_cons_of_some hs] at hrun
      cases hrun
      exact intact_perform h hs (by simp)

/-- **A delivery without steps for standard output does not change it.** -/
theorem output_performAll {all : List Step} (hprint : ∀ contents, .print contents ∉ all)
    (hflush : .flush ∉ all) : ((host c).performAll all w).2.output = w.output := by
  induction all generalizing w with
  | nil => rfl
  | cons s rest ih =>
    have hstep : (w.perform c s).2.output = w.output := by
      apply output_perform
      · rintro contents rfl
        exact hprint contents List.mem_cons_self
      · rintro rfl
        exact hflush List.mem_cons_self
    rcases hs : w.perform c s with ⟨_ | fault, v⟩
    · rw [performAll_cons_of_none hs, ih]
      · rwa [hs] at hstep
      · exact fun contents hmem => hprint contents (List.mem_cons_of_mem s hmem)
      · exact fun hmem => hflush (List.mem_cons_of_mem s hmem)
    · rw [performAll_cons_of_some hs]
      rwa [hs] at hstep

/-- **A text is under its path** when its draft was created, written, stored and moved. -/
theorem performAll_file_iff (hw : w.draft = none) :
    (host c).performAll [.create path, .write contents, .sync, .persist path] w = (none, w') ↔
      (∀ stage ∈ [Stage.create, .write, .sync, .persist], c.interruption? stage = none) ∧
      (∃ draft, w.files.draftPlace c.names path = .ok draft) ∧
      ∃ place, w.files.target path = .ok place ∧
        w' = { w with files := w.files.put place contents } := by
  simp only [performAll_cons_eq_none_iff, performAll_nil_eq_iff, perform_sync_eq_none_iff]
  simp only [perform, create_eq_none_iff, write_eq_none_iff, persist_eq_none_iff]
  constructor
  · rintro ⟨_, ⟨-, hcreate, draft, hdraft, rfl⟩, _, ⟨hwrite, _, hplace, rfl⟩, _, ⟨hsync, rfl⟩, _,
      ⟨hpersist, _, after, hplace', hmove, rfl⟩, -, rfl⟩
    obtain rfl := Option.some.inj hplace
    obtain rfl := Option.some.inj hplace'
    have hnew := Files.node?_eq_none_of_draftPlace hdraft
    rw [Files.put_put, Files.move_put_eq_ok_iff hnew] at hmove
    obtain ⟨target, htarget, rfl⟩ := hmove
    refine ⟨by simp [hcreate, hwrite, hsync, hpersist], ⟨draft, hdraft⟩, target, htarget, ?_⟩
    rw [← hw]
  · rintro ⟨hstages, ⟨draft, hdraft⟩, target, htarget, rfl⟩
    simp only [List.forall_mem_cons] at hstages
    obtain ⟨hcreate, hwrite, hsync, hpersist, -⟩ := hstages
    have hnew := Files.node?_eq_none_of_draftPlace hdraft
    refine ⟨_, ⟨hw, hcreate, draft, hdraft, rfl⟩, _, ⟨hwrite, draft, rfl, rfl⟩, _, ⟨hsync, rfl⟩, _,
      ⟨hpersist, draft, w.files.put target contents, rfl, ?_, rfl⟩, trivial, ?_⟩
    · rw [Files.put_put, Files.move_put_eq_ok_iff hnew]
      exact ⟨target, htarget, rfl⟩
    · rw [← hw]

/-- **A text is on standard output** when it was handed over and taken. -/
theorem performAll_print_iff :
    (host c).performAll [.print contents, .flush] w = (none, w') ↔
      c.interruption? .print = none ∧ c.interruption? .flush = none ∧
        w' = { w with stdout := w.stdout ++ (w.pending ++ contents), pending := .empty } := by
  simp only [performAll_cons_eq_none_iff, performAll_nil_eq_iff, perform, print, flush]
  cases c.interruption? .print with
  | some i => simp
  | none =>
    cases c.interruption? .flush with
    | some i => simp
    | none =>
      simp only [Prod.mk.injEq, true_and, exists_eq_left']

/-- Standard output that breaks off has a part of the text. -/
theorem performAll_print_of_some (hw : w.pending = .empty)
    (h : (host c).performAll [.print contents, .flush] w = (some fault, w')) :
    ∃ stage ∈ [Stage.print, .flush], ∃ i ∈ c.interruption? stage,
      w' = { w with stdout := w.stdout ++ contents.extract 0 i.taken } := by
  cases hprint : c.interruption? .print with
  | some i =>
    have hs : w.perform c (.print contents) =
        (some i.fault, { w with stdout := w.stdout ++ contents.extract 0 i.taken }) := by
      rw [perform, print, hprint]
    rw [performAll_cons_of_some hs] at h
    exact ⟨.print, by simp, i, hprint, (congrArg Prod.snd h).symm⟩
  | none =>
    have hs : w.perform c (.print contents) = (none, { w with pending := contents }) := by
      rw [perform, print, hprint, hw, ByteArray.empty_append]
    rw [performAll_cons_of_none hs] at h
    cases hflush : c.interruption? .flush with
    | some i =>
      have hs' : ({ w with pending := contents } : World).perform c .flush =
          (some i.fault, { w with stdout := w.stdout ++ contents.extract 0 i.taken }) := by
        rw [perform, flush, hflush, ← hw]
      rw [performAll_cons_of_some hs'] at h
      exact ⟨.flush, by simp, i, hflush, (congrArg Prod.snd h).symm⟩
    | none =>
      have hs' : ({ w with pending := contents } : World).perform c .flush =
          (none, { w with stdout := w.stdout ++ contents }) := by
        rw [perform, flush, hflush, ← hw]
      rw [performAll_cons_of_none hs'] at h
      cases (performAll_nil_eq_iff.1 h).1

theorem load_eq_ok_iff {document : ByteArray} :
    w.load c path = .ok document ↔ c.interruption? .open = none ∧ c.interruption? .read = none ∧
      ∃ place, w.files.find path = .ok (.file place document) := by
  rw [load]
  split
  next hstage => simp [hstage]
  next hfind => simp [hfind]
  next hfind => simp [hfind]
  next hstage hfind => cases c.interruption? .read <;> simp [hstage, hfind]

theorem input_eq_some_iff {document : ByteArray} :
    w.input c = some document ↔ c.interruption? .input = none ∧ document = w.stdin := by
  rw [input]
  cases c.interruption? .input <;> simp [eq_comm]

end World

/-! ## Looking at the world -/

section Observations

variable {α β : Type} {c : Conditions} {w : World} {P P' : α → Prop}

/-- **What a computation yields that only looks at the world:** the values with a property, and it
fails if there are none. -/
def Observes (x : ExceptT Failure (StateM World) α) (w : World) (P : α → Prop) : Prop :=
  ∃ result, x.run w = (result, w) ∧ ∀ a, result = .ok a ↔ P a

theorem Observes.congr {x : ExceptT Failure (StateM World) α} (h : Observes x w P)
    (hP : ∀ a, P a ↔ P' a) : Observes x w P' := by
  obtain ⟨result, hrun, hresult⟩ := h
  exact ⟨result, hrun, fun a => (hresult a).trans (hP a)⟩

theorem observes_pure (a : α) : Observes (pure a) w (· = a) :=
  ⟨.ok a, rfl, fun b => by rw [Except.ok.injEq, eq_comm]⟩

theorem observes_except (x : Except Failure α) : Observes (liftM x) w (x = .ok ·) := by
  cases x with
  | ok a => exact ⟨.ok a, rfl, fun b => Iff.rfl⟩
  | error failure => exact ⟨.error failure, rfl, fun b => Iff.rfl⟩

variable {x : ExceptT Failure (StateM World) α} {f : α → ExceptT Failure (StateM World) β}

theorem run_bind : (x >>= f).run w = ExceptT.bindCont f (x.run w).1 (x.run w).2 := rfl

theorem run_bind_of_error {failure : Failure} {w' : World} (h : x.run w = (.error failure, w')) :
    (x >>= f).run w = (.error failure, w') := by
  rw [run_bind, h]
  rfl

theorem run_bind_of_ok {a : α} {w' : World} (h : x.run w = (.ok a, w')) :
    (x >>= f).run w = (f a).run w' := by
  rw [run_bind, h]
  rfl

theorem run_lift_bind (x : StateM World α) (f : α → ExceptT Failure (StateM World) β)
    (w : World) : (liftM x >>= f : ExceptT Failure (StateM World) β).run w =
      (f (x w).1).run (x w).2 := rfl

/-- **Looking twice.** -/
theorem Observes.bind {Q : α → β → Prop} (hx : Observes x w P)
    (hf : ∀ a, Observes (f a) w (Q a)) : Observes (x >>= f) w fun b => ∃ a, P a ∧ Q a b := by
  obtain ⟨result, hrun, hresult⟩ := hx
  cases result with
  | error failure =>
    refine ⟨.error failure, run_bind_of_error hrun, fun b => ?_⟩
    simp [← hresult]
  | ok a =>
    obtain ⟨result', hrun', hresult'⟩ := hf a
    refine ⟨result', (run_bind_of_ok hrun).trans hrun', fun b => ?_⟩
    rw [hresult']
    simp [← hresult]

theorem observes_report (events : List Event) :
    Observes (liftM ((World.host c).report events)) w fun _ => True :=
  ⟨.ok (), rfl, fun _ => iff_of_true rfl trivial⟩

end Observations

/-! ## The text of a program -/

namespace Request

variable {r : Request} {reader : Reader} {c : Conditions} {files : Files} {stdin : ByteArray}
  {format : Format} {w : World}

/-- **The format of the document** has the name that is given, or else the extension of the file. -/
def HasFormat (r : Request) (format : Format) : Prop :=
  match r.format with
  | some name => Format.ofName name = .ok format
  | none => ∃ path ∈ r.file, ∃ extension ∈ extension? path,
      Format.ofExtension? extension = some format

/-- **The document** is the contents of the file, or else what is on standard input, if nothing
comes in between. -/
def Reads (r : Request) (c : Conditions) (files : Files) (stdin document : ByteArray) : Prop :=
  match r.file with
  | some path => c.interruption? .open = none ∧ c.interruption? .read = none ∧
      ∃ place, files.find path = .ok (.file place document)
  | none => c.interruption? .input = none ∧ document = stdin

/-- **The text that a request asks for:** the program of the shapes of the graph in the document. -/
inductive Yields (r : Request) (reader : Reader) (c : Conditions) (files : Files)
    (stdin : ByteArray) : String → Prop
  | intro {format : Format} {document : ByteArray} {triples : List Triple}
    {program : Datalog.Program} (hasFormat : r.HasFormat format)
    (base : ∀ base ∈ r.base, reader.acceptsBase format base)
    (reads : r.Reads c files stdin document)
    (parsed : reader.read? format r.base document = some triples)
    (compiled : (compileGraph (.ofList triples)
      { library := r.library.getD Datalog.defaultLibrary, strict := !r.permissive }).result =
        .ok program) :
    Yields r reader c files stdin program.render

theorem format?_eq_ok_iff : r.format? = .ok format ↔ r.HasFormat format := by
  rw [format?, HasFormat]
  cases r.format with
  | some name =>
    cases h : Format.ofName name with
    | ok f => simp [h]
    | error fault => cases fault <;> simp [h]
  | none =>
    cases r.file with
    | none => simp
    | some path =>
      cases h : extension? path with
      | none => simp [h]
      | some extension => cases h' : Format.ofExtension? extension <;> simp [h, h']

theorem checkBase_eq_ok_iff {u : Unit} :
    r.checkBase reader format = .ok u ↔ ∀ base ∈ r.base, reader.acceptsBase format base := by
  rw [checkBase]
  cases r.base with
  | none => simp
  | some base => cases h : reader.acceptsBase format base <;> simp [h]

theorem program_eq_ok_iff {document : ByteArray} {program : Datalog.Program} :
    (r.program reader format document).result = .ok program ↔
      ∃ triples, reader.read? format r.base document = some triples ∧
        (compileGraph (.ofList triples) r.options).result = .ok program := by
  rw [Request.program]
  cases reader.read? format r.base document with
  | none => simp [Traced.refuse]
  | some triples => simp [Traced.mapError, Except.mapError_eq_ok_iff]

theorem observes_document :
    Observes (r.document (World.host c)) w (r.Reads c w.files w.stdin) := by
  rw [Observes, Request.document]
  simp only [Reads]
  cases r.file with
  | none =>
    have hrun : (World.host c).input w = (w.input c, w) := rfl
    simp only [run_lift_bind, hrun, ← World.input_eq_some_iff]
    cases w.input c with
    | none => exact ⟨_, rfl, by simp⟩
    | some document => exact ⟨_, rfl, by simp⟩
  | some path =>
    have hrun : (World.host c).load path w = (w.load c path, w) := rfl
    simp only [run_lift_bind, hrun, ← World.load_eq_ok_iff]
    cases w.load c path with
    | error fault => cases fault <;> exact ⟨_, rfl, by simp⟩
    | ok document => exact ⟨_, rfl, by simp⟩

/-- **The steps before anything is written** only look at the world. -/
theorem observes_programText : Observes (r.programText reader (World.host c)) w
    (r.Yields reader c w.files w.stdin) := by
  have hsteps := (observes_except (w := w) r.format?).bind fun format =>
    (observes_except (r.checkBase reader format)).bind fun _ =>
    (observes_document (r := r) (c := c)).bind fun document =>
    (observes_report (c := c) (r.program reader format document).events).bind fun _ =>
    (observes_except (r.program reader format document).result).bind fun program =>
    observes_pure program.render
  refine Observes.congr hsteps fun text => ?_
  simp only [format?_eq_ok_iff, checkBase_eq_ok_iff, program_eq_ok_iff]
  constructor
  · rintro ⟨format, hformat, _, hbase, document, hreads, _, -, program,
      ⟨triples, hparsed, hcompiled⟩, rfl⟩
    exact .intro hformat hbase hreads hparsed hcompiled
  · rintro ⟨hformat, hbase, hreads, hparsed, hcompiled⟩
    exact ⟨_, hformat, (), hbase, _, hreads, (), trivial, _, ⟨_, hparsed, hcompiled⟩, rfl⟩

/-! ## Where a text goes -/

/-- **Whether a delivery can be made:** nothing comes in between, and if the text goes to a file,
there are a place for it and one for the draft. -/
def Permitted (r : Request) (c : Conditions) (files : Files) : Prop :=
  match r.output with
  | none => c.interruption? .print = none ∧ c.interruption? .flush = none
  | some path =>
    (∀ stage ∈ [Stage.create, .write, .sync, .persist], c.interruption? stage = none) ∧
      (∃ draft, files.draftPlace c.names path = .ok draft) ∧
      ∃ place, files.target path = .ok place

/-- **Where a text goes:** to standard output, or under the path of the output alone. -/
def Delivers (r : Request) (files : Files) (text : String) (outcome : Outcome) : Prop :=
  match r.output with
  | none => outcome.stdout = text.toUTF8 ∧ outcome.files = files
  | some path =>
    outcome.stdout = .empty ∧ ∃ place, files.Put path text.toUTF8 place outcome.files

/-- **The steps of a delivery** succeed exactly if it can be made. -/
theorem exists_performAll_iff {contents : ByteArray} :
    (∃ w', (World.host c).performAll (r.delivery contents) { files, stdin } = (none, w')) ↔
      r.Permitted c files := by
  rw [delivery, Permitted]
  cases r.output with
  | none =>
    simp only [World.performAll_print_iff]
    constructor
    · rintro ⟨_, hprint, hflush, -⟩
      exact ⟨hprint, hflush⟩
    · rintro ⟨hprint, hflush⟩
      exact ⟨_, hprint, hflush, rfl⟩
  | some path =>
    simp only [World.performAll_file_iff (w := { files, stdin }) rfl]
    constructor
    · rintro ⟨_, hstages, hdraft, place, hplace, -⟩
      exact ⟨hstages, hdraft, place, hplace⟩
    · rintro ⟨hstages, hdraft, place, hplace⟩
      exact ⟨_, hstages, hdraft, place, hplace, rfl⟩

/-- A delivery that succeeds brings the text to where it goes, and leaves no draft. -/
theorem delivers_of_performAll {text : String} {w' : World}
    (h : (World.host c).performAll (r.delivery text.toUTF8) { files, stdin } = (none, w'))
    (ending : Ending) : w'.draft = none ∧
      r.Delivers files text { ending with stdout := w'.stdout, files := w'.files } := by
  rw [delivery] at h
  rw [Delivers]
  cases hout : r.output with
  | none =>
    rw [hout, World.performAll_print_iff] at h
    obtain ⟨-, -, rfl⟩ := h
    refine ⟨rfl, ?_, rfl⟩
    rw [ByteArray.empty_append, ByteArray.empty_append]
  | some path =>
    simp only [hout] at h
    obtain ⟨-, -, place, hplace, rfl⟩ := (World.performAll_file_iff rfl).1 h
    exact ⟨rfl, rfl, place, Files.put_of_target hplace _⟩

end Request

/-- **Standard output takes a part of a text only,** with a number of bytes. -/
def Conditions.BreaksOff (c : Conditions) (n : Nat) : Prop :=
  n ≠ 0 ∧ ∃ stage ∈ [Stage.print, .flush], ∃ i ∈ c.interruption? stage, i.taken = n

/-- A delivery that fails leaves the files as they were, apart from the draft, and nothing on
standard output, unless that breaks off. -/
theorem Request.intact_delivery {r : Request} {c : Conditions} {files : Files}
    {stdin contents : ByteArray} {fault : Fault} {w' : World}
    (h : (World.host c).performAll (r.delivery contents) { files, stdin } = (some fault, w')) :
    w'.Intact files ∧ (w'.stdout = .empty ∨
      r.output = none ∧ ∃ n, c.BreaksOff n ∧ w'.stdout = contents.extract 0 n) := by
  rw [delivery] at h
  cases hout : r.output with
  | none =>
    rw [hout] at h
    obtain ⟨stage, hstage, i, hi, rfl⟩ := World.performAll_print_of_some rfl h
    refine ⟨rfl, ?_⟩
    rw [ByteArray.empty_append]
    by_cases hn : i.taken = 0
    · left
      rw [hn, ByteArray.extract_same]
    · exact .inr ⟨rfl, i.taken, ⟨hn, stage, hstage, i, hi, rfl⟩, rfl⟩
  | some path =>
    simp only [hout] at h
    have hstart : ({ files, stdin } : World).Intact files := rfl
    refine ⟨World.intact_of_performAll (by simp) hstart h, .inl ?_⟩
    have houtput : ((World.host c).performAll [.create path, .write contents, .sync, .persist path]
        { files, stdin }).2.output = (.empty, .empty) :=
      World.output_performAll (by simp) (by simp)
    rw [h] at houtput
    exact congrArg Prod.fst houtput

/-! ## Runs -/

section Runs

variable {tool : Tool} {c : Conditions} {r : Request} {arguments : List String} {files : Files}
  {stdin : ByteArray}

theorem Failure.exitCode_ne (failure : Failure) : failure.exitCode ≠ 0 ∧ failure.exitCode ≠ 2 := by
  cases failure <;> simp [exitCode]

/-- The result of a delivery. -/
def Request.delivered (r : Request) : Option Fault → Except Failure Unit
  | none => .ok ()
  | some fault => .error (r.undelivered fault)

theorem deliver_run {contents : ByteArray} {w w' : World} {fault? : Option Fault}
    (h : (World.host c).performAll (r.delivery contents) w = (fault?, w')) :
    (r.deliver (World.host c) contents).run w = (r.delivered fault?, w'.discard c) := by
  rw [Request.deliver, run_lift_bind, h]
  cases fault? with
  | none => rfl
  | some fault => rfl

theorem run_of_carryOut (h : Asks arguments r) {result : Except Failure Unit} {w' : World}
    (hrun : (r.carryOut tool.reader (World.host c)).run { files, stdin } = (result, w')) :
    run tool c arguments files stdin =
      { Ending.ofResult result with stdout := w'.stdout, files := w'.files } := by
  have hexecute : execute tool (World.host c) arguments { files, stdin } =
      (Ending.ofResult result, w') := by
    rw [execute, Invocation.ofArguments?_eq_compile_iff.2 h]
    show ((r.carryOut tool.reader (World.host c)).run >>= fun result =>
      pure (Ending.ofResult result)) { files, stdin } = _
    rw [World.bind_apply, hrun]
    rfl
  rw [run, hexecute]

/-- **A run that is asked for a request** ends with a failure if the request yields no text, and
otherwise with the result of the delivery. -/
theorem run_of_asks (tool : Tool) (c : Conditions) (files : Files) (stdin : ByteArray)
    (h : Asks arguments r) :
    (∃ failure, (∀ text, ¬ r.Yields tool.reader c files stdin text) ∧
      run tool c arguments files stdin =
        { Ending.ofResult (.error failure) with stdout := .empty, files }) ∨
    ∃ text fault? w', r.Yields tool.reader c files stdin text ∧
      (World.host c).performAll (r.delivery text.toUTF8) { files, stdin } = (fault?, w') ∧
      run tool c arguments files stdin =
        { Ending.ofResult (r.delivered fault?) with
          stdout := w'.stdout, files := (w'.discard c).files } := by
  have hobserves : Observes (r.programText tool.reader (World.host c)) { files, stdin }
      (r.Yields tool.reader c files stdin) := Request.observes_programText
  obtain ⟨result, htext, hresult⟩ := hobserves
  cases result with
  | error failure =>
    refine .inl ⟨failure, fun text hyields => ?_, run_of_carryOut h (run_bind_of_error htext)⟩
    cases (hresult text).2 hyields
  | ok text =>
    rcases hperform : (World.host c).performAll (r.delivery text.toUTF8) { files, stdin } with
      ⟨fault?, w'⟩
    refine .inr ⟨text, fault?, w', (hresult text).1 rfl, hperform, ?_⟩
    rw [run_of_carryOut h ((run_bind_of_ok htext).trans (deliver_run hperform)),
      World.stdout_discard]

/-- **The texts that are asked for without a request:** the version, and the pages of the manual. -/
def Prints (tool : Tool) (arguments : List String) (text : String) : Prop :=
  (∃ a ∈ arguments.head?, asksForVersion a) ∧ text = versionText ∨
    ∃ page, AsksForPage arguments page ∧ text = tool.manual page

/-- A text that is shown leaves the files as they are. -/
theorem run_of_prints {text : String} (h : Prints tool arguments text) :
    (run tool c arguments files stdin).exitCode = 0 ∧
      (run tool c arguments files stdin).files = files ∧
      (c.interruption? .print = none → c.interruption? .flush = none →
        (run tool c arguments files stdin).stdout = text.toUTF8) := by
  rcases hperform : (World.host c).performAll [.print text.toUTF8, .flush] { files, stdin } with
    ⟨fault?, w'⟩
  have hexecute : execute tool (World.host c) arguments { files, stdin } = ({}, w') := by
    have hdisplay : display (World.host c) text { files, stdin } = ({}, w') := by
      rw [display, World.bind_apply, hperform]
      rfl
    rw [execute]
    rcases h with ⟨hversion, rfl⟩ | ⟨page, hpage, rfl⟩
    · rw [Invocation.ofArguments?_eq_version_iff.2 hversion]
      exact hdisplay
    · rw [Invocation.ofArguments?_eq_help_iff.2 hpage]
      exact hdisplay
  rw [run, hexecute]
  cases fault? with
  | none =>
    obtain ⟨-, -, rfl⟩ := World.performAll_print_iff.1 hperform
    refine ⟨rfl, rfl, fun _ _ => ?_⟩
    rw [ByteArray.empty_append, ByteArray.empty_append]
  | some fault =>
    obtain ⟨stage, hstage, i, hi, rfl⟩ := World.performAll_print_of_some rfl hperform
    refine ⟨rfl, rfl, fun hprint hflush => ?_⟩
    simp only [List.mem_cons, List.not_mem_nil, or_false] at hstage
    rcases hstage with rfl | rfl
    · rw [hprint] at hi
      cases hi
    · rw [hflush] at hi
      cases hi

/-- A run that is asked for nothing fails. -/
theorem run_of_neither (hasks : ∀ r, ¬ Asks arguments r)
    (hprints : ∀ text, ¬ Prints tool arguments text) :
    run tool c arguments files stdin = { exitCode := 2, stdout := .empty, files } := by
  have hnone : Invocation.ofArguments? arguments = none := by
    cases hmeaning : Invocation.ofArguments? arguments with
    | none => rfl
    | some invocation =>
      cases invocation with
      | version =>
        exact absurd (.inl ⟨Invocation.ofArguments?_eq_version_iff.1 hmeaning, rfl⟩) (hprints _)
      | help page =>
        exact absurd (.inr ⟨page, Invocation.ofArguments?_eq_help_iff.1 hmeaning, rfl⟩) (hprints _)
      | compile r => exact absurd (Invocation.ofArguments?_eq_compile_iff.1 hmeaning) (hasks r)
  rw [run, execute, hnone]
  rfl

/-- A run that fails leaves the files as they were, and nothing on standard output, unless that
breaks off. -/
theorem unchanged_of_exitCode_ne_zero (hremove : c.interruption? .remove = none)
    (h : (run tool c arguments files stdin).exitCode ≠ 0) :
    (run tool c arguments files stdin).files = files ∧
      ((run tool c arguments files stdin).stdout = .empty ∨
        ∃ r text n, Asks arguments r ∧ r.output = none ∧
          r.Yields tool.reader c files stdin text ∧ c.BreaksOff n ∧
          (run tool c arguments files stdin).stdout = text.toUTF8.extract 0 n) := by
  by_cases hasks : ∃ r, Asks arguments r
  · obtain ⟨r, hr⟩ := hasks
    rcases run_of_asks tool c files stdin hr with
      ⟨failure, -, hrun⟩ | ⟨text, fault?, w', hyields, hperform, hrun⟩
    · rw [hrun]
      exact ⟨rfl, .inl rfl⟩
    · cases fault? with
      | none =>
        rw [hrun] at h
        exact absurd rfl h
      | some fault =>
        obtain ⟨hintact, hstdout⟩ := Request.intact_delivery hperform
        rw [hrun]
        refine ⟨World.files_discard hintact hremove, hstdout.imp_right ?_⟩
        rintro ⟨hout, n, hbreaks, htaken⟩
        exact ⟨r, text, n, hr, hout, hyields, hbreaks, htaken⟩
  · rw [not_exists] at hasks
    have hprints : ∀ text, ¬ Prints tool arguments text :=
      fun text htext => h (run_of_prints htext).1
    rw [run_of_neither hasks hprints]
    exact ⟨rfl, .inl rfl⟩

/-- A run that is asked for a request succeeds exactly if the request yields a text that can be
delivered, and then the text is delivered. -/
theorem delivers_iff_of_asks (h : Asks arguments r) :
    ((run tool c arguments files stdin).exitCode = 0 ↔
      ∃ text, r.Yields tool.reader c files stdin text ∧ r.Permitted c files) ∧
    ((run tool c arguments files stdin).exitCode = 0 →
      ∃ text, r.Yields tool.reader c files stdin text ∧
        r.Delivers files text (run tool c arguments files stdin)) := by
  rcases run_of_asks tool c files stdin h with
    ⟨failure, hno, hrun⟩ | ⟨text, fault?, w', hyields, hperform, hrun⟩
  · have hcode : (run tool c arguments files stdin).exitCode ≠ 0 := by
      rw [hrun]
      exact failure.exitCode_ne.1
    refine ⟨iff_of_false hcode ?_, fun hzero => absurd hzero hcode⟩
    rintro ⟨text, hyields, -⟩
    exact hno text hyields
  · cases fault? with
    | none =>
      obtain ⟨hdraft, hdelivers⟩ := Request.delivers_of_performAll hperform (.ofResult (.ok ()))
      rw [hrun, World.discard_of_draft_eq_none hdraft]
      refine ⟨iff_of_true rfl ⟨text, hyields, Request.exists_performAll_iff.1 ⟨w', hperform⟩⟩, ?_⟩
      exact fun _ => ⟨text, hyields, hdelivers⟩
    | some fault =>
      have hcode : (run tool c arguments files stdin).exitCode ≠ 0 := by
        rw [hrun]
        exact (r.undelivered fault).exitCode_ne.1
      refine ⟨iff_of_false hcode ?_, fun hzero => absurd hzero hcode⟩
      rintro ⟨-, -, hpermitted⟩
      obtain ⟨w'', hperform'⟩ := Request.exists_performAll_iff.2 hpermitted
      rw [hperform] at hperform'
      cases hperform'

/-- The exit code of a usage error is given to nothing else. -/
theorem exitCode_eq_two_iff : (run tool c arguments files stdin).exitCode = 2 ↔
    (∀ r, ¬ Asks arguments r) ∧ ∀ text, ¬ Prints tool arguments text := by
  constructor
  · intro hcode
    refine ⟨fun r hr => ?_, fun text htext => ?_⟩
    · rcases run_of_asks tool c files stdin hr with
        ⟨failure, -, hrun⟩ | ⟨_, fault?, _, -, -, hrun⟩
      · rw [hrun] at hcode
        exact failure.exitCode_ne.2 hcode
      · rw [hrun] at hcode
        cases fault? with
        | none => cases hcode
        | some fault => exact (r.undelivered fault).exitCode_ne.2 hcode
    · rw [(run_of_prints htext).1] at hcode
      cases hcode
  · rintro ⟨hasks, hprints⟩
    rw [run_of_neither hasks hprints]

end Runs

/-- The command with the reader of plain statements and a manual without text. -/
def plainTool : Tool := { reader := .plain, manual := fun _ => "" }

/-- Conditions under which a stage may be interrupted. -/
def conditions (interruption? : Stage → Option Interruption) : Conditions :=
  { names := [".tmp"], interruption? }

/-- A document with one shape, next to a directory. -/
def workingFiles : Files :=
  let document := "<s:S> <http://www.w3.org/1999/02/22-rdf-syntax-ns#type> " ++
    "<http://www.w3.org/ns/shacl#NodeShape> .\n"
  { home := ["w"]
    nodes := ((FiniteMap.empty.insert ["w"] .directory).insert ["w", "d"] .directory).insert
      ["w", "s.nt"] (.file document.toUTF8) }

/-- Arguments that ask for the document to be overwritten by its program. -/
def overwriting : List String :=
  ["translate", "-o", "d/../s.nt", "--include=x.dl", "-f/w/s.nt", "--"]

/-- The request that they ask for. -/
def overwritingRequest : Request :=
  { file := some "/w/s.nt", output := some "d/../s.nt", library := some "x.dl" }

/-- A full disk, noticed when the draft is moved. -/
def fullDisk : Stage → Option Interruption
  | .persist => some { fault := .other "No space left on device (os error 28)" }
  | _ => none

end ShapeRules.Command
