import ShapeRules.Command.Manual
import ShapeRules.Command.Run

/-!
# The command

Runs the command on the system that it was called on. All that is here is what single steps are on
that system; which steps are taken is up to the run. The draft is a new file, so that none that
exists is written to or removed. Warnings and the reasons of a failure go to standard error.
-/

open ShapeRules.Command ShapeRules.Compile

/-- A draft that is open. -/
structure Draft where
  path : String
  handle : IO.FS.Handle

/-- The fault that an error stands for. -/
def faultOf : IO.Error → Fault
  | .noFileOrDirectory .. => .notFound
  | .alreadyExists .. => .exists
  | .inappropriateType .. => .notDirectory
  | .invalidArgument .. => .nameTooLong
  | error => .other (toString error)

/-- What becomes of a step. -/
def faultIn (step : IO Unit) : BaseIO (Option Fault) := do
  match ← step.toBaseIO with
  | .ok () => return none
  | .error error => return some (faultOf error)

/-- The contents of the file under a path. -/
def loadFile (path : String) : BaseIO (Except LoadFault ByteArray) := do
  match ← (IO.FS.Handle.mk path .read).toBaseIO with
  | .error error => return .error (.unopened (faultOf error))
  | .ok handle =>
    match ← handle.readBinToEnd.toBaseIO with
    | .error _ => return .error .unreadable
    | .ok contents => return .ok contents

/-- What is on standard input. -/
def readInput : BaseIO (Option ByteArray) := do
  let stdin ← IO.getStdin
  match ← stdin.readBinToEnd.toBaseIO with
  | .ok contents => return some contents
  | .error _ => return none

/-- A path to the directory that the last component of a path is in. -/
def directoryPath (path : String) : String :=
  let parents := String.intercalate "/" (components path).dropLast
  if startsAtRoot path && !(components path).isEmpty then "/" ++ parents else "./" ++ parents

/-- Creates a draft in a directory, under a name that is not taken. -/
def createDraft (directory : String) : Nat → BaseIO (Except Fault Draft)
  | 0 => return .error .exists
  | tries + 1 => do
    let path := directory ++ "/.tmp" ++ toString (← IO.rand 0 999999999)
    match ← (IO.FS.Handle.mk path .writeNew).toBaseIO with
    | .ok handle => return .ok { path, handle }
    | .error error =>
      match faultOf error with
      | .exists => createDraft directory tries
      | fault => return .error fault

/-- Tells about a warning. -/
def reportWarning (event : Event) : BaseIO Unit := do
  if event.level = .warning then
    let fields := event.fields.map fun (key, value) => key ++ "=" ++ value
    let _ ← faultIn (IO.eprintln (event.message ++ " " ++ String.intercalate " " fields))

/-- Takes a step. -/
def performStep (draft : IO.Ref (Option Draft)) : Step → BaseIO (Option Fault)
  | .create path => do
    match ← createDraft (directoryPath path) 64 with
    | .ok created =>
      draft.set (some created)
      return none
    | .error fault => return some fault
  | .write contents => do
    match ← draft.get with
    | some d => faultIn (d.handle.write contents)
    | none => return some .notFound
  | .sync => do
    match ← draft.get with
    | some d => faultIn d.handle.flush
    | none => return some .notFound
  | .persist path => do
    match ← draft.get with
    | some d =>
      let fault? ← faultIn (IO.FS.rename d.path path)
      if fault?.isNone then draft.set none
      return fault?
    | none => return some .notFound
  | .print contents => faultIn do (← IO.getStdout).write contents
  | .flush => faultIn do (← IO.getStdout).flush

/-- The system that the command was called on. -/
def systemHost (draft : IO.Ref (Option Draft)) : Host BaseIO where
  load := loadFile
  input := readInput
  report events := events.forM reportWarning
  perform := performStep draft
  discard := do
    if let some d ← draft.get then
      let _ ← faultIn (IO.FS.removeFile d.path)
      draft.set none

/-- The entry of the command. -/
def main (arguments : List String) : IO UInt32 := do
  let draft ← IO.mkRef none
  let tool : Tool := { reader := .plain, manual := Page.text }
  let ending ← (execute tool (systemHost draft) arguments : BaseIO Ending)
  if ending.exitCode = 2 then
    IO.eprintln "error: the arguments are not understood"
  unless ending.errors.isEmpty do
    IO.eprintln ("Error: " ++ String.intercalate "\nCaused by: " ending.errors)
  return ending.exitCode.toUInt32
