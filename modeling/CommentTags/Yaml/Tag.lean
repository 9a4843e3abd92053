import CommentTags.Text.Blank
import CommentTags.Text.Digits
import CommentTags.Text.Word
import CommentTags.Yaml.Error

/-!
Tags of the nodes of a document, and the tag that the text of a plain scalar implies.
-/

namespace CommentTags
namespace Yaml

inductive Tag where
  | null
  | bool
  | int
  | float
  | binary
  | timestamp
  | str
  | seq
  | map
  | set
  /-- A sequence of mappings with one pair each, read as a list of pairs. -/
  | pairs
  /-- The key under which other mappings are merged in. -/
  | merge
  /-- The key that stands for the value of a mapping. -/
  | value
  /-- A tag without a meaning here. -/
  | unknown
  deriving DecidableEq, Repr

/-- The tag with a full name. -/
def Tag.ofName (name : String) : Tag :=
  match name with
  | "tag:yaml.org,2002:null" => null
  | "tag:yaml.org,2002:bool" => bool
  | "tag:yaml.org,2002:int" => int
  | "tag:yaml.org,2002:float" => float
  | "tag:yaml.org,2002:binary" => binary
  | "tag:yaml.org,2002:timestamp" => timestamp
  | "tag:yaml.org,2002:str" => str
  | "tag:yaml.org,2002:seq" => seq
  | "tag:yaml.org,2002:map" => map
  | "tag:yaml.org,2002:set" => set
  | "tag:yaml.org,2002:omap" => pairs
  | "tag:yaml.org,2002:pairs" => pairs
  | "tag:yaml.org,2002:merge" => merge
  | "tag:yaml.org,2002:value" => value
  | _ => unknown

/-! ### Numbers -/

def isDigitOrLine (c : Char) : Bool := c.isDigit || c = '_'

def afterSign : List Char → List Char
  | '-' :: r => r
  | '+' :: r => r
  | r => r

/-- One or more groups of a colon and a number below 60 up to `fin`. -/
def isSexagesimalTail (fin : List Char → Bool) : List Char → Bool
  | ':' :: a :: b :: r =>
    ('0' ≤ a && a ≤ '5' && b.isDigit && (fin r || isSexagesimalTail fin r)) ||
      (a.isDigit && (fin (b :: r) || isSexagesimalTail fin (b :: r)))
  | [':', a] => a.isDigit && fin []
  | _ => false

/-- An exponent with its sign, or nothing. -/
def isExponent : List Char → Bool
  | [] => true
  | e :: s :: d :: r =>
    (e = 'e' || e = 'E') && (s = '-' || s = '+') && d.isDigit && r.all Char.isDigit
  | _ => false

def isInteger (s : List Char) : Bool :=
  match afterSign s with
  | ['0'] => true
  | '0' :: 'b' :: d :: r => (d :: r).all fun c => c = '0' || c = '1' || c = '_'
  | '0' :: 'x' :: d :: r =>
    (d :: r).all fun c => isDigitOrLine c || ('a' ≤ c && c ≤ 'f') || ('A' ≤ c && c ≤ 'F')
  | '0' :: r => r.all fun c => ('0' ≤ c && c ≤ '7') || c = '_'
  | d :: r => d.isDigit && (r.all isDigitOrLine || isSexagesimalTail List.isEmpty (r.dropWhile isDigitOrLine))
  | [] => false

/-- A point, digits and an exponent. -/
def isFraction : List Char → Bool
  | '.' :: r => isExponent (r.dropWhile isDigitOrLine)
  | _ => false

def isReal (s : List Char) : Bool :=
  let u := afterSign s
  let whole := u.head?.any Char.isDigit
  let tail := u.dropWhile isDigitOrLine
  (whole && isFraction tail) ||
  (s.head? = some '.' && (s.drop 1).head?.any Char.isDigit && isFraction s) ||
  (whole && isSexagesimalTail (fun r => r.head? = some '.' && (r.drop 1).all isDigitOrLine) tail) ||
  u ∈ [".inf".toList, ".Inf".toList, ".INF".toList] ||
  s ∈ [".nan".toList, ".NaN".toList, ".NAN".toList]

/-! ### Points in time -/

/-- A point in time as written: a date, and perhaps a time of day with its distance from UTC in
minutes. -/
structure Moment where
  year : Nat
  month : Nat
  day : Nat
  clock : Option (Nat × Nat × Nat) := none
  offset : Nat := 0
  /-- Month and day both have two digits. -/
  padded : Bool
  deriving DecidableEq, Repr

/-- Exactly `n` digits. -/
def cutDigits (n : Nat) (s : List Char) : Option (Nat × List Char) :=
  let ds := s.take n
  if ds.length = n && ds.all Char.isDigit then some (decimalNumber ds, s.drop n) else none

/-- One or two digits. -/
def cutOneOrTwo (s : List Char) : Option (Nat × List Char) := cutDigits 2 s <|> cutDigits 1 s

def cutChar (p : Char → Bool) : List Char → Option (List Char)
  | c :: r => if p c then some r else none
  | [] => none

def isGap (c : Char) : Bool := c = ' ' || c = '\t'

/-- The distance from UTC at the end of a point in time: nothing, `Z`, or a sign, hours and perhaps
minutes. -/
def readOffset (s : List Char) : Option Nat :=
  match s.dropWhile isGap with
  | [] => if s.isEmpty then some 0 else none
  | ['Z'] => some 0
  | sign :: r =>
    if sign = '+' ∨ sign = '-' then
      match cutOneOrTwo r with
      | none => none
      | some (h, []) => some (60 * h)
      | some (h, ':' :: r) =>
        match cutDigits 2 r with
        | some (m, []) => some (60 * h + m)
        | _ => none
      | _ => none
    else none

/-- The time of day behind a date: `T` or blanks, hours, minutes, seconds and perhaps a fraction. -/
def readClock (s : List Char) : Option ((Nat × Nat × Nat) × Nat) := do
  let r ← cutChar (fun c => c = 'T' || c = 't') s <|>
    (cutChar isGap s).map (·.dropWhile isGap)
  let (h, r) ← cutOneOrTwo r
  let r ← cutChar (· = ':') r
  let (m, r) ← cutDigits 2 r
  let r ← cutChar (· = ':') r
  let (sec, r) ← cutDigits 2 r
  let r := match r with
    | '.' :: r => r.dropWhile Char.isDigit
    | r => r
  let offset ← readOffset r
  return ((h, m, sec), offset)

def Moment.read (s : List Char) : Option Moment := do
  let (year, r) ← cutDigits 4 s
  let r ← cutChar (· = '-') r
  let (month, r1) ← cutOneOrTwo r
  let r2 ← cutChar (· = '-') r1
  let (day, r3) ← cutOneOrTwo r2
  let padded := r.length = r1.length + 2 && r2.length = r3.length + 2
  if r3.isEmpty then return { year, month, day, padded }
  let (clock, offset) ← readClock r3
  return { year, month, day, clock := some clock, offset, padded }

def daysInMonth (year month : Nat) : Nat :=
  if month = 2 then
    if (year % 4 = 0 && year % 100 ≠ 0) || year % 400 = 0 then 29 else 28
  else if month ∈ [4, 6, 9, 11] then 30
  else 31

/-- Is there such a point in time, in the years 1 to 9999? -/
def Moment.exists (m : Moment) : Bool :=
  1 ≤ m.year && 1 ≤ m.month && m.month ≤ 12 && 1 ≤ m.day && m.day ≤ daysInMonth m.year m.month &&
  (m.clock.all fun (h, min, sec) => h < 24 && min < 60 && sec < 60) && m.offset < 24 * 60

/-! ### The implied tag -/

def truthWords : List String :=
  ["yes", "Yes", "YES", "no", "No", "NO", "true", "True", "TRUE", "false", "False", "FALSE",
   "on", "On", "ON", "off", "Off", "OFF"]

/-- A text without the line feed at its end. -/
def dropLastFeed (s : List Char) : List Char := if s.getLast? = some '\n' then s.dropLast else s

/-- The tag of a plain scalar with this text. -/
def impliedTag (t : Text) : Tag :=
  match t.chars? with
  | none => .str
  | some cs =>
    let s := dropLastFeed cs
    let word := String.ofList s
    if cs.isEmpty then .null
    else if word ∈ truthWords then .bool
    else if isReal s then .float
    else if isInteger s then .int
    else if word = "<<" then .merge
    else if word ∈ ["~", "null", "Null", "NULL"] then .null
    else if (Moment.read s).any fun m => m.clock.isSome || m.padded then .timestamp
    else if word = "=" then .value
    else if word ∈ ["!", "&", "*"] then .unknown
    else .str

end Yaml
end CommentTags
