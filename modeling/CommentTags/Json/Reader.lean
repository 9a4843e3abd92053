import CommentTags.Json.Basic
import CommentTags.Text.Digits

/-!
The JSON reader. Beside the standard grammar it takes `NaN`, `Infinity` and `-Infinity`; a field
that is given twice has its last value.
-/

namespace CommentTags
namespace Json

inductive ReadError where
  | malformed
  /-- An integer of more than 4300 digits. -/
  | oversized
  /-- More brackets are open than can be kept track of. -/
  | tooDeep
  deriving DecidableEq, Repr

/-- How many arrays and objects may be open at a time. Each is read by a call within the call for
the one around it, so the number depends on the limit on nested calls, here 1000, and on how many
are open where the text is handed to the reader. -/
def maxDepth : Nat := 990

def isGap (c : CodePoint) : Bool :=
  c = .char ' ' || c = .char '\t' || c = .char '\n' || c = .char '\r'

def skipGap (s : Text) : Text := s.dropWhile isGap

def escaped? : Char → Option Char
  | '\x22' => some '\x22'
  | '\\' => some '\\'
  | '/' => some '/'
  | 'b' => some '\x08'
  | 'f' => some '\x0c'
  | 'n' => some '\n'
  | 'r' => some '\r'
  | 't' => some '\t'
  | _ => none

/-- Is the next code point written as an escaped unit? -/
def startsUnit : Text → Bool
  | .char '\\' :: .char 'u' :: _ => true
  | _ => false

/-- Puts an escaped unit before a text; `paired` says that the text starts with another one, which
may be its second half. -/
def consUnit (paired : Bool) : CodePoint → Text → Text
  | .half h, .half l :: t =>
    match paired, CodePoint.joined? h l with
    | true, some c => .char c :: t
    | _, _ => .half h :: .half l :: t
  | u, t => u :: t

/-- The text of a string that is already open, and the rest after its closing quote. -/
def readText : Text → Option (Text × Text)
  | [] => none
  | .char '\x22' :: r => some ([], r)
  | .char '\\' :: .char 'u' :: .char a :: .char b :: .char c :: .char d :: r => do
    let u ← CodePoint.ofNat? (← hexNumber? [a, b, c, d])
    let (t, rest) ← readText r
    some (consUnit (startsUnit r) u t, rest)
  | .char '\\' :: .char e :: r => do
    let c ← escaped? e
    let (t, rest) ← readText r
    some (.char c :: t, rest)
  | c :: r =>
    if c.toNat < 0x20 || c = .char '\\' then none
    else do
      let (t, rest) ← readText r
      some (c :: t, rest)

/-- The decimal digits at the beginning of a text, and the rest. -/
def cutDigits : Text → List Char × Text
  | .char c :: r =>
    if c.isDigit then
      let (ds, rest) := cutDigits r
      (c :: ds, rest)
    else ([], .char c :: r)
  | t => ([], t)

/-- The digits of an integer: a zero, or digits that start with another one. -/
def cutInteger : Text → Option (List Char × Text)
  | .char '0' :: r => some (['0'], r)
  | t =>
    match cutDigits t with
    | ([], _) => none
    | found => some found

/-- The digits behind a point; without a digit there is no point. -/
def cutFraction : Text → Option (List Char × Text)
  | .char '.' :: r =>
    match cutDigits r with
    | ([], _) => none
    | found => some found
  | _ => none

/-- The exponent; without a digit there is none. -/
def cutExponent (s : Text) : Option (Int × Text) :=
  let digits (neg : Bool) (r : Text) : Option (Int × Text) :=
    match cutDigits r with
    | ([], _) => none
    | (ds, rest) =>
      let n : Int := decimalNumber ds
      some (if neg then -n else n, rest)
  match s with
  | e :: r =>
    if e = .char 'e' ∨ e = .char 'E' then
      match r with
      | .char '+' :: r => digits false r
      | .char '-' :: r => digits true r
      | r => digits false r
    else none
  | [] => none

/-- The number at the beginning of a text, behind its sign. -/
def readNumber (negative : Bool) (s : Text) : Except ReadError (Json × Text) :=
  match cutInteger s with
  | none => .error .malformed
  | some (whole, r) =>
    let fraction := cutFraction r
    let r := (fraction.map (·.2)).getD r
    let exponent := cutExponent r
    let r := (exponent.map (·.2)).getD r
    if fraction.isNone && exponent.isNone then
      if maxDigits < whole.length then .error .oversized
      else
        let n : Int := decimalNumber whole
        .ok (int (if negative then -n else n), r)
    else
      let part := (fraction.map (·.1)).getD []
      let e := (exponent.map (·.1)).getD 0 - part.length
      .ok (float (Binary64.ofDecimal negative (decimalNumber (whole ++ part)) e), r)

/-- The rest of `s` after `word`. -/
def afterWord? (word : String) (s : Text) : Option Text :=
  if (text word).isPrefixOf s then some (s.drop word.length) else none

/-- A value that is one word. -/
def readWord (s : Text) : Option (Json × Text) :=
  ((afterWord? "null" s).map (null, ·)) <|> ((afterWord? "true" s).map (bool true, ·)) <|>
  ((afterWord? "false" s).map (bool false, ·)) <|> ((afterWord? "NaN" s).map (float .nan, ·)) <|>
  ((afterWord? "Infinity" s).map (float (.infinite false), ·)) <|>
  ((afterWord? "-Infinity" s).map (float (.infinite true), ·))

mutual

/-- The value at the beginning of a text, and the rest; `n` bounds the length, and `depth` more
brackets may be opened. -/
def readValue : Nat → (depth : Nat) → Text → Except ReadError (Json × Text)
  | 0, _, _ => .error .malformed
  | n + 1, depth, s =>
    match s, depth with
    | .char '\x22' :: r, _ =>
      match readText r with
      | some (t, rest) => .ok (str t, rest)
      | none => .error .malformed
    | .char '[' :: _, 0 => .error .tooDeep
    | .char '{' :: _, 0 => .error .tooDeep
    | .char '[' :: r, d + 1 =>
      match skipGap r with
      | .char ']' :: rest => .ok (array [], rest)
      | r => do
        let (items, rest) ← readItems n d r
        .ok (array items, rest)
    | .char '{' :: r, d + 1 =>
      match skipGap r with
      | .char '}' :: rest => .ok (object [], rest)
      | r => do
        let (fields, rest) ← readFields n d [] r
        .ok (object fields, rest)
    | s, _ =>
      match readWord s with
      | some found => .ok found
      | none =>
        match s with
        | .char '-' :: r => readNumber true r
        | r => readNumber false r

/-- The items of an array up to its closing bracket. -/
def readItems : Nat → (depth : Nat) → Text → Except ReadError (List Json × Text)
  | 0, _, _ => .error .malformed
  | n + 1, depth, s => do
    let (v, r) ← readValue n depth s
    match skipGap r with
    | .char ']' :: rest => .ok ([v], rest)
    | .char ',' :: r =>
      let (vs, rest) ← readItems n depth (skipGap r)
      .ok (v :: vs, rest)
    | _ => .error .malformed

/-- The fields of an object up to its closing brace, added to those that were read before. -/
def readFields : Nat → (depth : Nat) → List (Text × Json) → Text →
    Except ReadError (List (Text × Json) × Text)
  | 0, _, _, _ => .error .malformed
  | n + 1, depth, seen, s =>
    match s with
    | .char '\x22' :: r =>
      match readText r with
      | none => .error .malformed
      | some (key, r) =>
        match skipGap r with
        | .char ':' :: r => do
          let (v, r) ← readValue n depth (skipGap r)
          let seen := setField key v seen
          match skipGap r with
          | .char '}' :: rest => .ok (seen, rest)
          | .char ',' :: r => readFields n depth seen (skipGap r)
          | _ => .error .malformed
        | _ => .error .malformed
    | _ => .error .malformed

end

/-- The value that a whole text spells. -/
def read (s : Text) : Except ReadError Json := do
  let (v, rest) ← readValue (2 * s.length + 2) maxDepth (skipGap s)
  if (skipGap rest).isEmpty then .ok v else .error .malformed

end Json
end CommentTags
