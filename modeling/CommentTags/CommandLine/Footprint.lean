import CommentTags.CommandLine.Run

/-!
The places that a run of the program looks at. A file system that agrees with another one on them
gives the same run.
-/

namespace CommentTags
namespace CommandLine

/-- The places on the way along a path. -/
def placesFrom (here : Place) : List Text → List Place
  | [] => [here]
  | name :: names =>
    here :: placesFrom (if name = Path.upward then here.dropLast else here ++ [name]) names

def placesOf (cwd : Place) (p : Path) : List Place :=
  placesFrom (if p.isAbsolute then [] else cwd) p.parts

def CommonOptions.paths (c : CommonOptions) (cwd : Path) : List Path :=
  [c.config.getD (cwd.child Settings.fileName)]

def Command.paths (cwd : Path) : Command → List Path
  | .init directory => [(Path.resolve cwd (.ofText directory)).child Settings.fileName]
  | .extract common nodeFiles outputDir _ =>
    let files := nodeFiles.map Path.ofText
    common.paths cwd ++ files ++ (outputDir.map fun d => files.map (Artifact.pathFor · d)).getD []
  | .list common nodeFile => common.paths cwd ++ [.ofText nodeFile]

/-- The places that the program may look at when it is given these arguments. -/
def footprint (cwd : Place) (argv : List Text) : List Place :=
  match Request.ofArgv argv with
  | .command c => ((c.paths { slashes := 1, parts := cwd }).flatMap (placesOf cwd)).eraseDups
  | _ => []

end CommandLine
end CommentTags
