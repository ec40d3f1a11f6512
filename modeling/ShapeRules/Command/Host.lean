import ShapeRules.Command.Files
import ShapeRules.Compile.Event

/-!
# The system around the command

The command asks the system for its input and to bring its output to where it goes. Output under a
path is written to a draft first, a new file next to the path, which is moved under the path when it
is complete. The steps of this can all fail, and after one that fails no other is taken.

What the command does is the same for every host. The world is one that can be reasoned about: the
files, standard input and standard output, where some conditions tell which stages of a run the
system interrupts, for reasons of its own.

## Main definitions

* `Step`, `Host`, `Host.performAll`: what is asked of the system
* `Stage`, `Interruption`, `Conditions`: what can come in between
* `World`, `World.perform`, `World.discard`, `World.host`: the world
-/

namespace ShapeRules.Command

open Compile

/-! ## Hosts -/

/-- **The steps by which output gets to where it goes.** -/
inductive Step where
  /-- Creates the draft, next to a path. -/
  | create (path : String)
  /-- Writes the contents of the draft. -/
  | write (contents : ByteArray)
  /-- Waits until the draft is stored. -/
  | sync
  /-- Moves the draft under a path, instead of the file there. -/
  | persist (path : String)
  /-- Hands contents over to standard output. -/
  | print (contents : ByteArray)
  /-- Waits until standard output has taken what was handed over. -/
  | flush

/-- Why a file cannot be loaded. -/
inductive LoadFault where
  | unopened (fault : Fault)
  | unreadable
  deriving DecidableEq, Repr

/-- **What the command asks of the system.** -/
structure Host (m : Type → Type) where
  /-- The contents of the file under a path. -/
  load : String → m (Except LoadFault ByteArray)
  /-- What is on standard input, if it can be read. -/
  input : m (Option ByteArray)
  /-- Tells about the events of a run. -/
  report : List Event → m Unit
  /-- Takes a step, and tells why it failed if it did. -/
  perform : Step → m (Option Fault)
  /-- Gives the draft up, if there is one. -/
  discard : m Unit

/-- Takes steps until one fails. -/
def Host.performAll {m : Type → Type} [Monad m] (host : Host m) : List Step → m (Option Fault)
  | [] => pure none
  | s :: rest => do
    match ← host.perform s with
    | some fault => pure (some fault)
    | none => host.performAll rest

/-! ## The world -/

/-- **The stages of a run that can be interrupted.** -/
inductive Stage where
  | open
  | read
  | input
  | create
  | write
  | sync
  | persist
  | print
  | flush
  | remove
  deriving DecidableEq, Repr

/-- **An interruption:** what the system says, and how many bytes it took before. -/
structure Interruption where
  fault : Fault
  taken : Nat := 0
  deriving DecidableEq, Repr

/-- **The conditions of a run.** A run comes to each stage once at most. -/
structure Conditions where
  /-- The names that are tried for the draft, in turn. -/
  names : List String
  /-- The stages that the system interrupts. -/
  interruption? : Stage → Option Interruption

/-- **The world of a run.** -/
structure World where
  files : Files
  stdin : ByteArray
  /-- What standard output has taken. -/
  stdout : ByteArray := .empty
  /-- What was handed over to standard output since. -/
  pending : ByteArray := .empty
  /-- The place of the draft, if there is one. -/
  draft : Option (List String) := none

namespace World

variable (c : Conditions)

/-- The contents of the file under a path. A directory can be opened but not read. -/
def load (w : World) (path : String) : Except LoadFault ByteArray :=
  match c.interruption? .open, w.files.find path with
  | some i, _ => .error (.unopened i.fault)
  | none, .error fault => .error (.unopened fault)
  | none, .ok (.directory _) => .error .unreadable
  | none, .ok (.file _ contents) =>
    if (c.interruption? .read).isSome then .error .unreadable else .ok contents

/-- What is on standard input. -/
def input (w : World) : Option ByteArray :=
  if (c.interruption? .input).isSome then none else some w.stdin

/-- Creates the draft. There is one at a time. -/
def create (w : World) (path : String) : Option Fault × World :=
  match w.draft, c.interruption? .create, w.files.draftPlace c.names path with
  | some _, _, _ => (some .exists, w)
  | none, some i, _ => (some i.fault, w)
  | none, none, .error fault => (some fault, w)
  | none, none, .ok place =>
    (none, { w with files := w.files.put place .empty, draft := some place })

/-- Writes the contents of the draft. -/
def write (w : World) (contents : ByteArray) : Option Fault × World :=
  match w.draft, c.interruption? .write with
  | none, _ => (some .notFound, w)
  | some place, some i =>
    (some i.fault, { w with files := w.files.put place (contents.extract 0 i.taken) })
  | some place, none => (none, { w with files := w.files.put place contents })

/-- Moves the draft under a path. -/
def persist (w : World) (path : String) : Option Fault × World :=
  match w.draft, c.interruption? .persist with
  | none, _ => (some .notFound, w)
  | some _, some i => (some i.fault, w)
  | some place, none =>
    match w.files.move place path with
    | .error fault => (some fault, w)
    | .ok files => (none, { w with files, draft := none })

/-- Hands contents over to standard output. If this is interrupted, it has taken some of them. -/
def print (w : World) (contents : ByteArray) : Option Fault × World :=
  match c.interruption? .print with
  | some i => (some i.fault, { w with stdout := w.stdout ++ contents.extract 0 i.taken })
  | none => (none, { w with pending := w.pending ++ contents })

/-- Waits until standard output has taken what was handed over, or some of it. -/
def flush (w : World) : Option Fault × World :=
  match c.interruption? .flush with
  | some i =>
    (some i.fault, { w with stdout := w.stdout ++ w.pending.extract 0 i.taken, pending := .empty })
  | none => (none, { w with stdout := w.stdout ++ w.pending, pending := .empty })

/-- **A step in the world.** -/
def perform (w : World) : Step → Option Fault × World
  | .create path => w.create c path
  | .write contents => w.write c contents
  | .sync => ((c.interruption? .sync).map Interruption.fault, w)
  | .persist path => w.persist c path
  | .print contents => w.print c contents
  | .flush => w.flush c

/-- Gives the draft up: it is removed, unless that is interrupted. -/
def discard (w : World) : World :=
  match w.draft, c.interruption? .remove with
  | none, _ => w
  | some _, some _ => { w with draft := none }
  | some place, none => { w with files := w.files.remove place, draft := none }

/-- **The world as a host.** -/
def host : Host (StateM World) where
  load path := fun w => (w.load c path, w)
  input := fun w => (w.input c, w)
  report _ := fun w => ((), w)
  perform s := fun w => w.perform c s
  discard := fun w => ((), w.discard c)

end World

end ShapeRules.Command
