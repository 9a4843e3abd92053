import CommentTags.Yaml.Tag

/-!
Is the text of a scalar right for its tag? Numbers, points in time and bytes are checked and not
kept: no document that is read here carries one.
-/

namespace CommentTags
namespace Yaml

def lowerCase (s : List Char) : List Char := s.map Char.toLower

/-- The ASCII form of a character of a number: blanks beyond ASCII are spaces, and digits of any
script are digits. -/
def asciiForm (c : Char) : Char :=
  if c.toNat < 0x7F then c
  else if (CodePoint.char c).isBlank then ' '
  else match decimalDigit? c with
    | some d => Char.ofNat ('0'.toNat + d)
    | none => '?'

/-- The blanks of ASCII that may stand around a number; the separators U+001C to U+001F may not. -/
def isNumberGap (c : Char) : Bool := c = ' ' || ('\t' ≤ c && c ≤ '\r')

/-- A number in ASCII, without the blanks around it and without its sign. -/
def bareNumber (s : List Char) : List Char :=
  let s := (s.map asciiForm).dropWhile isNumberGap
  afterSign (s.reverse.dropWhile isNumberGap).reverse

/-- An integer to some base: blanks around it, a sign, the mark of the base, and digits. A decimal
integer has at most 4300 digits. -/
def isIntegerTo (base : Nat) (s : List Char) : Bool :=
  let s := bareNumber s
  let marks := match base with
    | 2 => ['b', 'B']
    | 8 => ['o', 'O']
    | 16 => ['x', 'X']
    | _ => []
  let s := match s with
    | '0' :: m :: r => if m ∈ marks then r else s
    | _ => s
  !s.isEmpty && (s.all fun c => (hexValue? c).any (· < base)) && (base ≠ 10 || s.length ≤ maxDigits)

/-- A decimal number: blanks around it, a sign, digits with a point among them, and an exponent; or
the word for infinity or for no number. -/
def isDecimal (s : List Char) : Bool :=
  let s := bareNumber s
  let whole := s.takeWhile Char.isDigit
  let r := s.dropWhile Char.isDigit
  let (fraction, r) := match r with
    | '.' :: r => (r.takeWhile Char.isDigit, r.dropWhile Char.isDigit)
    | r => ([], r)
  let exponent := match r with
    | [] => true
    | e :: r => (e = 'e' || e = 'E') && !(afterSign r).isEmpty && (afterSign r).all Char.isDigit
  String.ofList (lowerCase s) ∈ ["inf", "infinity", "nan"] ||
    (!(whole ++ fraction).isEmpty && exponent)

def parts (sep : Char) : List Char → List (List Char)
  | [] => [[]]
  | c :: r =>
    if c = sep then [] :: parts sep r
    else match parts sep r with
      | [] => [[c]]
      | p :: ps => (c :: p) :: ps

def accept (b : Bool) : Except Error Unit := if b then .ok () else .error (.badScalar .impossible)

/-- Binary, hexadecimal, octal behind a leading zero, base 60 between colons, or decimal. Underscores
do not count. -/
def checkInteger (s : List Char) : Except Error Unit :=
  let s := s.filter (· ≠ '_')
  match afterSign s with
  | [] => .error (.badScalar .emptyNumber)
  | ['0'] => .ok ()
  | '0' :: 'b' :: r => accept (isIntegerTo 2 r)
  | '0' :: 'x' :: r => accept (isIntegerTo 16 r)
  | '0' :: r => accept (isIntegerTo 8 ('0' :: r))
  | s => accept ((parts ':' s).all (isIntegerTo 10))

/-- The power of 60 that belongs to one more part is no number of 64 bits. -/
def maxParts : Nat := 174

/-- Underscores and case do not count. -/
def checkReal (s : List Char) : Except Error Unit :=
  let s := lowerCase (s.filter (· ≠ '_'))
  if s.isEmpty then .error (.badScalar .emptyNumber)
  else
    let s := afterSign s
    if String.ofList s ∈ [".inf", ".nan"] then .ok ()
    else if !(parts ':' s).all isDecimal then .error (.badScalar .impossible)
    else if maxParts < (parts ':' s).length then .error (.badScalar .oversized)
    else .ok ()

def checkMoment (s : List Char) : Except Error Unit :=
  match Moment.read (dropLastFeed s) with
  | none => .error (.badScalar .notMoment)
  | some m => accept m.exists

def checkTruth (s : List Char) : Except Error Unit :=
  if String.ofList (lowerCase s) ∈ ["yes", "no", "true", "false", "on", "off"] then .ok ()
  else .error (.badScalar .notTruth)

/-- Where the reading of base 64 stands in a group of four, and how many pad signs it has seen. -/
def isBase64 (filled pads : Nat) : List Char → Bool
  | [] => filled = 0
  | c :: r =>
    if c = '=' then
      if 2 ≤ filled then (if 4 ≤ filled + pads + 1 then true else isBase64 filled (pads + 1) r)
      else isBase64 filled pads r
    else if c.isAlphanum || c = '+' || c = '/' then isBase64 ((filled + 1) % 4) 0 r
    else isBase64 filled pads r

/-- Checks the text of a scalar under its tag. -/
def checkScalar (tag : Tag) (t : Text) : Except Error Unit :=
  match t.chars? with
  | none =>
    match tag with
    | .int | .float => .error (.badScalar .impossible)
    | .bool => .error (.badScalar .notTruth)
    | .timestamp => .error (.badScalar .notMoment)
    | .binary => .error .malformed
    | _ => .ok ()
  | some s =>
    match tag with
    | .int => checkInteger s
    | .float => checkReal s
    | .bool => checkTruth s
    | .timestamp => checkMoment s
    | .binary => if s.all (·.toNat < 0x80) && isBase64 0 0 s then .ok () else .error .malformed
    | _ => .ok ()

end Yaml
end CommentTags
