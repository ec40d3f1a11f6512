/-!
# Arguments of the command

The command has one action, with options that take a value and one that takes none. An option that
takes a value has it in the next argument or attached; each option is given at most once. A next
argument that looks like an option is no value. Arguments are read in order, so that asking for help
or for the version ends the reading: what comes before it has to be in order, and what comes after
it is not looked at.

## Main definitions

* `Setting`: the options that take a value
* `Request`: what the action is asked to do
* `Page`: the pages of the manual
* `Invocation`, `Invocation.ofArguments?`: the meaning of an argument list
-/

namespace ShapeRules.Command

/-- **The options that take a value.** -/
inductive Setting where
  | file
  | format
  | base
  | output
  | library
  deriving DecidableEq, Repr

namespace Setting

/-- Every option that takes a value. -/
def all : List Setting := [file, format, base, output, library]

/-- The long name of an option. -/
def longName : Setting → String
  | file => "file"
  | format => "format"
  | base => "base"
  | output => "output"
  | library => "include"

/-- The short name of an option, if it has one. -/
def shortName? : Setting → Option Char
  | file => some 'f'
  | output => some 'o'
  | _ => none

/-- Whether the value of an option is a path, which cannot be empty. -/
def isPath : Setting → Bool
  | file | output => true
  | _ => false

end Setting

/-- **What the action is asked to do.** -/
structure Request where
  file : Option String := none
  format : Option String := none
  base : Option String := none
  output : Option String := none
  library : Option String := none
  permissive : Bool := false
  deriving DecidableEq, Repr

namespace Request

/-- The value of an option. -/
def get (r : Request) : Setting → Option String
  | .file => r.file
  | .format => r.format
  | .base => r.base
  | .output => r.output
  | .library => r.library

/-- A request with the value of an option. -/
def set (r : Request) (setting : Setting) (value : String) : Request :=
  match setting with
  | .file => { r with file := some value }
  | .format => { r with format := some value }
  | .base => { r with base := some value }
  | .output => { r with output := some value }
  | .library => { r with library := some value }

/-- A request with the value of an option that was not given before. -/
def set? (r : Request) (setting : Setting) (value : String) : Option Request :=
  if (r.get setting).isSome || (setting.isPath && value.isEmpty) then none
  else some (r.set setting value)

end Request

/-- What an argument is by itself. -/
inductive Argument where
  /-- An option with its value attached. -/
  | attached (setting : Setting) (value : String)
  /-- An option whose value is the next argument. -/
  | awaiting (setting : Setting)
  | permissive
  | help (brief : Bool)
  /-- The mark after which no options come. -/
  | endOfOptions
  deriving DecidableEq, Repr

/-- The option of a long name, with the value after an equals sign if there is one. -/
def longArgument? (cs : List Char) : Option Argument :=
  let name := String.ofList (cs.takeWhile (· != '='))
  let value? :=
    match cs.dropWhile (· != '=') with
    | [] => none
    | _ :: value => some (String.ofList value)
  match Setting.all.find? (·.longName == name), value? with
  | some setting, some value => some (.attached setting value)
  | some setting, none => some (.awaiting setting)
  | none, none =>
    if name = "permissive" then some .permissive
    else if name = "help" then some (.help false)
    else none
  | none, some _ => none

/-- An option with what follows its short name: its value, with or without an equals sign. -/
def Setting.argument (setting : Setting) : List Char → Argument
  | [] => .awaiting setting
  | '=' :: value => .attached setting (String.ofList value)
  | value => .attached setting (String.ofList value)

/-- The option of a short name, with what follows it. This is not looked at if it asks for help. -/
def shortArgument? (c : Char) (cs : List Char) : Option Argument :=
  if c = 'h' then some (.help true)
  else (Setting.all.find? (·.shortName? == some c)).map (·.argument cs)

/-- What an argument is by itself, if it is an option. -/
def Argument.ofString? (s : String) : Option Argument :=
  match s.toList with
  | ['-', '-'] => some .endOfOptions
  | '-' :: '-' :: cs => longArgument? cs
  | '-' :: c :: cs => shortArgument? c cs
  | _ => none

/-- Whether an argument looks like an option and so cannot be a value. -/
def looksLikeOption (s : String) : Bool :=
  match s.toList with
  | '-' :: _ :: _ => true
  | _ => false

/-- **What a page of the manual is about.** -/
inductive Topic where
  /-- The command as a whole. -/
  | command
  | action
  /-- How to ask for help. -/
  | help
  deriving DecidableEq, Repr

/-- The topic with a name; without a name, it is the command. -/
def Topic.ofNames? : List String → Option Topic
  | [] => some .command
  | ["translate"] => some .action
  | ["help"] => some .help
  | _ => none

/-- **A page of the manual.** -/
structure Page where
  topic : Topic
  brief : Bool := false
  deriving DecidableEq, Repr

/-- **The meaning of an argument list.** -/
inductive Invocation where
  | version
  | help (page : Page)
  | compile (request : Request)
  deriving DecidableEq, Repr

/-- What the action is asked for by a request and further arguments. It needs a file or a format,
unless it is asked for help. -/
def Request.complete? (r : Request) : List String → Option Invocation
  | [] => if r.file.isSome || r.format.isSome then some (.compile r) else none
  | a :: rest =>
    match Argument.ofString? a with
    | some (.attached setting value) => (r.set? setting value).bind (complete? · rest)
    | some (.awaiting setting) =>
      match rest with
      | [] => none
      | value :: rest =>
        if looksLikeOption value then none
        else (r.set? setting value).bind (complete? · rest)
    | some .permissive =>
      if r.permissive then none else complete? { r with permissive := true } rest
    | some (.help brief) => some (.help { topic := .action, brief })
    | some .endOfOptions => if rest.isEmpty then complete? r rest else none
    | none => none

/-- Whether an argument asks for the version. What follows the short name is not looked at. -/
def asksForVersion (s : String) : Bool :=
  s == "--version" || ['-', 'V'].isPrefixOf s.toList

/-- The meaning of an argument list, if it has one. -/
def Invocation.ofArguments? : List String → Option Invocation
  | [] => none
  | a :: rest =>
    if asksForVersion a then some .version
    else if a = "translate" then Request.complete? {} rest
    else if a = "help" then (Topic.ofNames? rest).map fun topic => .help { topic }
    else
      match Argument.ofString? a with
      | some (.help brief) => some (.help { topic := .command, brief })
      | _ => none

end ShapeRules.Command
