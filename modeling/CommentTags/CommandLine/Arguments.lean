import CommentTags.Text.Quoted
import CommentTags.Text.Word

/-!
Arguments of a command: options, which may be cut short to a unique beginning, and one positional
argument. All its values stand in one run; what fits nowhere is left over.
-/

namespace CommentTags
namespace CommandLine

inductive OptionKey where
  | help
  | config
  | verbose
  | outputDir
  | collect
  deriving DecidableEq, Repr

structure OptionSpec where
  key : OptionKey
  /-- Its spellings, each with one or two hyphens in front. -/
  flags : List Text
  takesValue : Bool := false
  deriving DecidableEq, Repr

/-- How many values the positional argument takes. -/
inductive Arity where
  | one
  | optional
  | oneOrMore
  /-- A command and everything behind it. -/
  | command
  deriving DecidableEq, Repr

structure CommandSpec where
  /-- The name of the program, with the command. -/
  program : Text
  options : List OptionSpec
  positional : Text
  arity : Arity
  deriving DecidableEq, Repr

/-- An argument by its form. -/
inductive Shape where
  | word
  /-- The first argument that is two hyphens; behind it every argument is a word. -/
  | separator
  /-- An option and the value that is written into the same argument; unknown options have no
  specification. -/
  | option (spec : Option OptionSpec) (flag : Text) (inline : Option Text)
  deriving DecidableEq, Repr

/-- What ends the reading of the arguments early. -/
inductive Stop where
  | help
  | misuse (reason : Text)
  deriving DecidableEq, Repr

structure Arguments where
  values : List Text := []
  options : List (OptionKey × Text) := []
  leftOver : List Text := []
  deriving DecidableEq, Repr

namespace Arguments

/-- The last value of an option. -/
def valueOf (a : Arguments) (k : OptionKey) : Option Text := a.options.reverse.lookup k

def has (a : Arguments) (k : OptionKey) : Bool := (a.valueOf k).isSome

end Arguments

namespace OptionSpec

def label (o : OptionSpec) : Text := Text.joinWith (text "/") o.flags

def misuse (o : OptionSpec) (reason : Text) : Stop :=
  .misuse (text "argument " ++ o.label ++ text ": " ++ reason)

def unexpectedValue (o : OptionSpec) (v : Text) : Stop :=
  o.misuse (text "ignored explicit argument " ++ v.quoted)

end OptionSpec

def hyphen : CodePoint := .char '-'

def isDecimalDigit : CodePoint → Bool
  | .char c => (decimalDigit? c).isSome
  | .half _ => false

/-- Digits, or a point with digits behind it and perhaps before it. -/
def isDecimal (t : Text) : Bool :=
  match t.dropWhile isDecimalDigit with
  | [] => !t.isEmpty
  | .char '.' :: f => !f.isEmpty && f.all isDecimalDigit
  | _ => false

/-- Is this a number with a hyphen in front? A line break at the end does not count. -/
def isNegativeNumber : Text → Bool
  | .char '-' :: r => isDecimal (if r.getLast? = some (.char '\n') then r.dropLast else r)
  | _ => false

/-- The part before the first equals sign, and the part behind it if there is one. -/
def cutEquals (t : Text) : Text × Option Text :=
  match t.dropWhile (· ≠ .char '=') with
  | _ :: v => (t.takeWhile (· ≠ .char '='), some v)
  | [] => (t, none)

namespace CommandSpec

def flagged (s : CommandSpec) : List (Text × OptionSpec) :=
  s.options.flatMap fun o => o.flags.map (·, o)

/-- The flags that an argument may stand for: with two hyphens those that it begins, with one hyphen
the one-letter flag with a value behind it, or those that it begins. -/
def candidates (s : CommandSpec) (arg : Text) : List (OptionSpec × Text × Option Text) :=
  if (text "--").isPrefixOf arg then
    let (start, v) := cutEquals arg
    s.flagged.filterMap fun (flag, o) => if start.isPrefixOf flag then some (o, flag, v) else none
  else
    s.flagged.filterMap fun (flag, o) =>
      if flag = arg.take 2 then some (o, flag, some (arg.drop 2))
      else if arg.isPrefixOf flag then some (o, flag, none)
      else none

def shapeOf (s : CommandSpec) (arg : Text) : Except Stop Shape :=
  if arg.head? ≠ some hyphen then .ok .word
  else match s.flagged.lookup arg with
    | some o => .ok (.option (some o) arg none)
    | none =>
      if arg.length = 1 then .ok .word
      else
        let (start, v) := cutEquals arg
        match v, s.flagged.lookup start with
        | some v, some o => .ok (.option (some o) start (some v))
        | _, _ =>
          match s.candidates arg with
          | [(o, flag, v)] => .ok (.option (some o) flag v)
          | [] =>
            if isNegativeNumber arg || arg.contains (.char ' ') then .ok .word
            else .ok (.option none arg none)
          | several =>
            .error (.misuse (text "ambiguous option: " ++ arg ++ text " could match " ++
              Text.joinWith (text ", ") (several.map (·.2.1))))

/-- The arguments with their shapes. -/
def shapes (s : CommandSpec) : List Text → Except Stop (List (Text × Shape))
  | [] => .ok []
  | arg :: args =>
    if arg = text "--" then .ok ((arg, .separator) :: args.map (·, .word))
    else do
      let shape ← s.shapeOf arg
      return (arg, shape) :: (← s.shapes args)

end CommandSpec

namespace Shape

def isOption : Shape → Bool
  | option .. => true
  | _ => false

def isSeparator (s : Shape) : Bool := s = .separator

def isWord (s : Shape) : Bool := s = .word

end Shape

/-- How many arguments the positional takes at a place, if it fits there. -/
def Arity.fit (a : Arity) (shapes : List Shape) : Option Nat :=
  let lead := (shapes.takeWhile Shape.isSeparator).length
  match a, shapes.drop lead with
  | .one, .word :: r => some (lead + 1 + (r.takeWhile Shape.isSeparator).length)
  | .optional, .word :: r => some (lead + 1 + (r.takeWhile Shape.isSeparator).length)
  | .optional, _ => some lead
  | .oneOrMore, .word :: r => some (lead + 1 + (r.takeWhile (!·.isOption)).length)
  | .command, .word :: r => some (lead + 1 + r.length)
  | _, _ => none

/-- The state of the reading: the positional is read at most once. -/
structure Reading where
  args : Arguments := {}
  positionalRead : Bool := false
  deriving DecidableEq, Repr

namespace Reading

def leave (r : Reading) (ts : List Text) : Reading :=
  { r with args := { r.args with leftOver := r.args.leftOver ++ ts } }

def setOption (r : Reading) (k : OptionKey) (v : Text) : Reading :=
  { r with args := { r.args with options := r.args.options ++ [(k, v)] } }

/-- The positional without the separator, which only a command keeps. -/
def setValues (r : Reading) (a : Arity) (ts : List Text) : Reading :=
  let ts := if a = .command then ts else ts.erase (text "--")
  { r with args := { r.args with values := ts }, positionalRead := true }

/-- Reads the positional at a place if it fits; the result is what is left. -/
def readPositional (spec : CommandSpec) (r : Reading) (items : List (Text × Shape)) :
    Reading × List (Text × Shape) :=
  if r.positionalRead then (r, items)
  else match spec.arity.fit (items.map (·.2)) with
    | none => (r, items)
    | some n => (r.setValues spec.arity ((items.take n).map (·.1)), items.drop n)

/-- The options of one-letter flags that are written together, where `v` stands behind the flag of
`o`. They take no values. -/
def bundle (spec : CommandSpec) (o : OptionSpec) (v : Text) : Except Stop (List OptionSpec) :=
  match v with
  | [] => .error (o.unexpectedValue [])
  | c :: r =>
    match spec.flagged.lookup [hyphen, c] with
    | none => .error (o.unexpectedValue v)
    | some o' => if r.isEmpty then .ok [o, o'] else (bundle spec o' r).map (o :: ·)

/-- Switches options on. The option for help ends the reading. -/
def switchOn (r : Reading) : List OptionSpec → Except Stop Reading
  | [] => .ok r
  | o :: os => if o.key = .help then .error .help else (r.setOption o.key []).switchOn os

/-- Reads an option that stands before `rest`; the result is what is left. -/
def readOption (spec : CommandSpec) (r : Reading) (o : OptionSpec) (flag : Text)
    (inline : Option Text) (rest : List (Text × Shape)) :
    Except Stop (Reading × List (Text × Shape)) :=
  match inline, o.takesValue with
  | some v, true => .ok (r.setOption o.key v, rest)
  | some v, false =>
    if (text "--").isPrefixOf flag then .error (o.unexpectedValue v)
    else do
      let r ← r.switchOn (← bundle spec o v)
      return (r, rest)
  | none, true =>
    match rest with
    | (v, .word) :: rest => .ok (r.setOption o.key v, rest)
    | _ => .error (o.misuse (text "expected one argument"))
  | none, false => do
    let r ← r.switchOn [o]
    return (r, rest)

/-- Reads the arguments from left to right; `n` bounds their number. -/
def readAll (spec : CommandSpec) : Nat → Reading → List (Text × Shape) → Except Stop Reading
  | 0, r, items => .ok (r.leave (items.map (·.1)))
  | n + 1, r, items =>
    if !items.any (·.2.isOption) then
      let (r, rest) := r.readPositional spec items
      .ok (r.leave (rest.map (·.1)))
    else match items with
      | (arg, .option none _ _) :: rest => readAll spec n (r.leave [arg]) rest
      | (_, .option (some o) flag inline) :: rest => do
        let (r, rest) ← r.readOption spec o flag inline rest
        readAll spec n r rest
      | items =>
        let (r, rest) := r.readPositional spec items
        if rest.length < items.length then readAll spec n r rest
        else
          let front := items.takeWhile (!·.2.isOption)
          readAll spec n (r.leave (front.map (·.1))) (items.dropWhile (!·.2.isOption))

end Reading

namespace Arity

def isRequired : Arity → Bool
  | one | oneOrMore => true
  | optional | command => false

end Arity

/-- The arguments of a command, or why they cannot be read. -/
def CommandSpec.read (spec : CommandSpec) (argv : List Text) : Except Stop Arguments := do
  let items ← spec.shapes argv
  let r ← Reading.readAll spec (2 * items.length + 1) {} items
  if spec.arity.isRequired && !r.positionalRead then
    throw (.misuse (text "the following arguments are required: " ++ spec.positional))
  return r.args

end CommandLine
end CommentTags
