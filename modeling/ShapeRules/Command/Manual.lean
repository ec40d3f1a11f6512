import ShapeRules.Command.Arguments

/-!
# The manual

A page of the manual says what it is about, how to ask for it, and what the options are. A brief
page has one line for each option; the full page of the action also has the details.

## Main definitions

* `Entry`: the description of an option or a topic
* `Page.text`: the text of a page
-/

namespace ShapeRules.Command

/-- **The description of something that an argument can be.** -/
structure Entry where
  /-- How it is written. -/
  heading : String
  summary : String
  /-- What else there is to say, by paragraph. -/
  details : List String := []

namespace Entry

/-- The lines of entries in two columns. -/
def columns (entries : List Entry) : List String :=
  let width := (entries.map (·.heading.length)).foldl max 0
  entries.map fun e =>
    "  " ++ e.heading ++ "".pushn ' ' (width - e.heading.length + 2) ++ e.summary

/-- The lines of an entry with its details. -/
def paragraphs (e : Entry) : List String :=
  let indented := (e.summary :: e.details).map ("          " ++ ·)
  ("  " ++ e.heading) :: indented.intersperse "          "

end Entry

namespace Setting

/-- How an option is written. -/
def heading (s : Setting) : String :=
  let short :=
    match s.shortName? with
    | some c => "-" ++ String.singleton c ++ ", "
    | none => "    "
  short ++ "--" ++ s.longName ++ " <" ++ s.longName.toUpper ++ ">"

/-- What an option is for. -/
def summary : Setting → String
  | file => "File containing the shapes graph"
  | format => "The format of the shapes graph"
  | base => "Base IRI of the shapes graph"
  | output => "File to write the Datalog program to"
  | library => "Path of the Datalog SHACL library written in the `.include` directive"

/-- What else there is to say about an option. -/
def details : Setting → List String
  | file =>
    ["If no file is given, stdin is read. In this case, the content format must be specified " ++
      "using the --format option."]
  | format =>
    ["It can be an extension like \"ttl\" or a MIME type like \"text/turtle\".",
      "By default, the format is guessed from the input file extension."]
  | base => []
  | output => ["If no file is given, stdout is used."]
  | library => ["By default `shacl.dl`."]

end Setting

namespace Page

/-- The action and the way to ask for help. -/
def topics : List Entry :=
  [{ heading := "translate"
     summary := "Translate a shapes graph into a Datalog program"
     details :=
      ["Every shape of the graph is turned into facts and rules over the predicates of the " ++
        "Datalog SHACL library included at the top of the program. Nothing is written if the " ++
        "translation fails."] },
    { heading := "help", summary := "Print this message or the help of the given subcommand(s)" }]

/-- The options of the action. -/
def options (brief : Bool) : List Entry :=
  (Setting.all.map fun s => { heading := s.heading, summary := s.summary, details := s.details }) ++
    [{ heading := "    --permissive"
       summary := "Skip the constraints that have no Datalog translation instead of failing"
       details :=
        ["This is the case of sh:closed, sh:hasValue and sh:in. Skipped constraints are logged " ++
          "as warnings."] },
      { heading := "-h, --help"
        summary :=
          if brief then "Print help (see more with '--help')"
          else "Print help (see a summary with '-h')" }]

/-- The lines of a page. -/
def lines (p : Page) : List String :=
  match p.topic with
  | .command =>
    ["Translates SHACL shapes graphs into Datalog programs", "", "Usage: shacl2datalog <COMMAND>",
      "", "Commands:"] ++ Entry.columns topics ++ ["", "Options:"] ++
      Entry.columns
        [{ heading := "-h, --help", summary := "Print help" },
          { heading := "-V, --version", summary := "Print version" }]
  | .action =>
    let about := topics.take 1
    let described := about.flatMap fun e => e.summary :: if p.brief then [] else "" :: e.details
    described ++ ["", "Usage: shacl2datalog translate [OPTIONS]", "", "Options:"] ++
      if p.brief then Entry.columns (options true)
      else [""].intercalate ((options false).map Entry.paragraphs)
  | .help =>
    ["Print this message or the help of the given subcommand(s)", "",
      "Usage: shacl2datalog help [COMMAND]...", "", "Arguments:"] ++
      Entry.columns [{ heading := "[COMMAND]...", summary := "Print help for the subcommand(s)" }]

/-- **The text of a page.** -/
def text (p : Page) : String :=
  String.join (p.lines.map (· ++ "\n"))

end Page

end ShapeRules.Command
