import CommentTags.CommandLine.Arguments
import CommentTags.CommandLine.Help
import CommentTags.Path

/-!
The commands of the program.
-/

namespace CommentTags
namespace CommandLine

/-- What two commands have in common. -/
structure CommonOptions where
  config : Option Path := none
  verbose : Bool := false
  deriving DecidableEq, Repr

inductive Command where
  /-- Write the default settings into a directory. -/
  | init (directory : Text)
  /-- Extract node files, and write their artifacts if there is a directory for them. -/
  | extract (common : CommonOptions) (nodeFiles : List Text) (outputDir : Option Path) (collect : Bool)
  /-- List the tree of a node file. -/
  | list (common : CommonOptions) (nodeFile : Text)
  deriving DecidableEq, Repr

/-- What the arguments of the program ask for. -/
inductive Request where
  | help (page : Text)
  /-- The arguments cannot be read; the line says why. -/
  | misuse (line : Text)
  | command (c : Command)
  deriving DecidableEq, Repr

def helpOption : OptionSpec := { key := .help, flags := [text "-h", text "--help"] }

def commonOptions : List OptionSpec :=
  [helpOption, { key := .config, flags := [text "--config"], takesValue := true },
   { key := .verbose, flags := [text "--verbose", text "-v"] }]

def programSpec : CommandSpec :=
  { program := text "doctag", options := [helpOption], positional := text "COMMAND", arity := .command }

def initSpec : CommandSpec :=
  { program := text "doctag init", options := [helpOption], positional := text "directory"
    arity := .optional }

def extractSpec : CommandSpec :=
  { program := text "doctag extract"
    options := commonOptions ++
      [{ key := .outputDir, flags := [text "--output-dir"], takesValue := true },
       { key := .collect, flags := [text "--collect"] }]
    positional := text "NODE_FILE", arity := .oneOrMore }

def showSpec : CommandSpec :=
  { program := text "doctag show", options := commonOptions, positional := text "NODE_FILE"
    arity := .one }

def CommandSpec.misuse (spec : CommandSpec) (reason : Text) : Request :=
  .misuse (spec.program ++ text ": error: " ++ reason)

def CommandSpec.stop (spec : CommandSpec) (helpPage : Text) : Stop → Request
  | .help => .help helpPage
  | .misuse reason => spec.misuse reason

def CommonOptions.ofArguments (a : Arguments) : CommonOptions :=
  { config := (a.valueOf .config).map Path.ofText, verbose := a.has .verbose }

def initCommand (a : Arguments) : Command := .init (a.values.head?.getD (text "."))

def extractCommand (a : Arguments) : Command :=
  .extract (.ofArguments a) a.values ((a.valueOf .outputDir).map Path.ofText) (a.has .collect)

def showCommand (a : Arguments) : Command := .list (.ofArguments a) (a.values.head?.getD [])

/-- A command by its name: what it takes, its help page, and how its arguments are understood. -/
def commands : List (Text × CommandSpec × Text × (Arguments → Command)) :=
  [(text "init", initSpec, initPage, initCommand),
   (text "extract", extractSpec, extractPage, extractCommand),
   (text "show", showSpec, showPage, showCommand)]

def unknownCommand (name : Text) : Request :=
  programSpec.misuse (text "argument COMMAND: invalid choice: " ++ name.quoted ++
    text " (choose from " ++ Text.joinWith (text ", ") (commands.map (·.1.quoted)) ++ text ")")

/-- Arguments that neither the program nor the command takes are named together. -/
def checkLeftOver (leftOver : List Text) (c : Request) : Request :=
  if leftOver.isEmpty then c
  else programSpec.misuse (text "unrecognized arguments: " ++ Text.joinWith (text " ") leftOver)

/-- Without a command the program shows its help page. -/
def Request.ofArgv (argv : List Text) : Request :=
  match programSpec.read argv with
  | .error s => programSpec.stop mainPage s
  | .ok a =>
    match a.values with
    | [] => checkLeftOver a.leftOver (.help mainPage)
    | name :: args =>
      match commands.lookup name with
      | none => unknownCommand name
      | some (spec, helpPage, toCommand) =>
        match spec.read args with
        | .error s => spec.stop helpPage s
        | .ok b => checkLeftOver (a.leftOver ++ b.leftOver) (.command (toCommand b))

end CommandLine
end CommentTags
