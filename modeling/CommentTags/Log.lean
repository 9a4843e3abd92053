import CommentTags.Text.Basic

/-!
Log lines.
-/

namespace CommentTags

inductive LogLevel where
  | debug
  | info
  | warning
  deriving DecidableEq, Repr

/-- The part of the program that speaks. -/
inductive LogSource where
  | comment
  | pairing
  | build
  deriving DecidableEq, Repr

structure LogLine where
  level : LogLevel
  source : LogSource
  message : Text
  deriving DecidableEq, Repr

def LogLevel.name : LogLevel → Text
  | debug => text "DEBUG"
  | info => text "INFO"
  | warning => text "WARNING"

def LogSource.name : LogSource → Text
  | comment => text "doctag.extraction.comment"
  | pairing => text "doctag.compiler.sequencer"
  | build => text "doctag.compiler.build"

/-- Everything with its level and source if the log is verbose, and bare warnings otherwise. -/
def LogLine.render (verbose : Bool) (l : LogLine) : Text :=
  if verbose then
    l.level.name ++ text " " ++ l.source.name ++ text ": " ++ l.message ++ text "\n"
  else if l.level = .warning then l.message ++ text "\n"
  else []

end CommentTags
