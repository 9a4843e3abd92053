import CommentTags.Yaml.Lexeme.Property

/-!
The three ways to write a scalar: plain, between quotes, and as a block of lines. A single line
break inside a plain or quoted scalar is read as a space.
-/

namespace CommentTags
namespace Yaml

/-- A line break that is followed by others is dropped, and one that stands alone is a space. -/
def foldBreak (b : Char) (more : List Char) : List Char :=
  if b ≠ '\n' then b :: more else if more.isEmpty then [' '] else more

/-! ### Plain scalars -/

/-- The part of a plain scalar up to the next blank or the end of the scalar. -/
def plainRun (flow : Bool) : List Char → List Char
  | [] => []
  | c :: r =>
    if endsWord (some c) then []
    else if c = ':' && (endsWord r.head? || (flow && r.head?.any (· ∈ [',', '[', ']', '{', '}']))) then []
    else if flow && c ∈ [',', '?', '[', ']', '{', '}'] then []
    else c :: plainRun flow r

/-- The line breaks before the next line of a plain scalar; `none` if a document ends there. -/
def plainBreaks : Nat → Cursor → Option (List Char) × Cursor
  | 0, c => (some [], c)
  | n + 1, c =>
    if c.peek = some ' ' then plainBreaks n c.advance
    else match c.cutBreak with
      | none => (some [], c)
      | some (b, c) =>
        if c.atSeparator then (none, c)
        else
          let (bs, c) := plainBreaks n c
          (bs.map (b :: ·), c)

/-- What stands between two parts of a plain scalar, and whether a line ended. -/
def plainGap (c : Cursor) : List Char × Cursor × Bool :=
  let (spaces, c) := c.cutWhile isSpace
  match c.cutBreak with
  | none => (spaces, c, false)
  | some (b, c) =>
    if c.atSeparator then ([], c, true)
    else match plainBreaks c.rest.length c with
      | (none, c) => ([], c, true)
      | (some bs, c) => (foldBreak b bs, c, true)

/-- The rest of a plain scalar, the place behind it, and whether a line ended just before that. -/
def readPlainFrom (flow : Bool) (indent : Int) : Nat → Bool → Cursor → List Char × Cursor × Bool
  | 0, ended, c => ([], c, ended)
  | n + 1, ended, c =>
    let run := if c.peek = some '#' then [] else plainRun flow c.rest
    if run.isEmpty then ([], c, ended)
    else
      let (gap, c, ended) := plainGap (c.advanceBy run.length)
      if gap.isEmpty || c.peek = some '#' || (!flow && (c.column : Int) < indent) then (run, c, ended)
      else
        let (more, c, ended) := readPlainFrom flow indent n ended c
        (if more.isEmpty then run else run ++ gap ++ more, c, ended)

def readPlain (flow : Bool) (indent : Int) (c : Cursor) : Text × Cursor × Bool :=
  let (cs, c, ended) := readPlainFrom flow indent (c.rest.length + 1) false c
  (cs.map .char, c, ended)

/-! ### Quoted scalars -/

/-- The line breaks before the next line of a quoted scalar. No document may end there. -/
def quotedBreaks : Nat → Cursor → Except Error (List Char × Cursor)
  | 0, c => .ok ([], c)
  | n + 1, c => do
    require (!c.atSeparator)
    let c := c.skipWhile isSpaceOrTab
    match c.cutBreak with
    | none => return ([], c)
    | some (b, c) =>
      let (bs, c) ← quotedBreaks n c
      return (b :: bs, c)

/-- A run of blanks and line breaks inside a quoted scalar. -/
def quotedGap (c : Cursor) : Except Error (List Char × Cursor) := do
  let (blanks, c) := c.cutWhile isSpaceOrTab
  match c.cutBreak with
  | none => return (blanks, c)
  | some (b, c) =>
    let (bs, c) ← quotedBreaks (c.rest.length + 1) c
    return (foldBreak b bs, c)

def escapedChar? : Char → Option Char
  | '0' => some '\x00'
  | 'a' => some '\x07'
  | 'b' => some '\x08'
  | 't' => some '\t'
  | '\t' => some '\t'
  | 'n' => some '\n'
  | 'v' => some '\x0b'
  | 'f' => some '\x0c'
  | 'r' => some '\r'
  | 'e' => some '\x1b'
  | ' ' => some ' '
  | '\x22' => some '\x22'
  | '\\' => some '\\'
  | '/' => some '/'
  | 'N' => some '\x85'
  | '_' => some '\xa0'
  | 'L' => some '\u2028'
  | 'P' => some '\u2029'
  | _ => none

/-- How many hexadecimal digits an escape takes. -/
def escapeWidth? : Char → Option Nat
  | 'x' => some 2
  | 'u' => some 4
  | 'U' => some 8
  | _ => none

/-- The code point that `width` digits spell. -/
def readCodePoint (width : Nat) (c : Cursor) : Except Error (Text × Cursor) := do
  let ds := c.rest.take width
  require (ds.length = width)
  match hexNumber? ds with
  | none => .error .malformed
  | some n =>
    if 0x80000000 ≤ n then .error (.badScalar .oversized)
    else match CodePoint.ofNat? n with
      | none => .error (.badScalar .notCodePoint)
      | some u => return ([u], c.advanceBy width)

/-- An escape behind its backslash. An escaped line break is dropped with the blanks after it. -/
def readEscape (c : Cursor) : Except Error (Text × Cursor) :=
  match c.peek with
  | none => .error .malformed
  | some e =>
    match escapedChar? e, escapeWidth? e, c.cutBreak with
    | some ch, _, _ => .ok ([.char ch], c.advance)
    | none, some width, _ => readCodePoint width c.advance
    | none, none, some (_, c) => do
      let (bs, c) ← quotedBreaks (c.rest.length + 1) c
      return (bs.map .char, c)
    | none, none, none => .error .malformed

/-- A quoted scalar behind its opening quote, through its closing quote. In single quotes a quote
is written twice and nothing else is escaped. -/
def readQuotedFrom (quote : Char) : Nat → Cursor → Except Error (Text × Cursor)
  | 0, _ => .error .malformed
  | n + 1, c =>
    match c.rest with
    | [] => .error .malformed
    | ch :: r =>
      if ch = quote then
        if quote = '\x27' && r.head? = some '\x27' then do
          let (t, c) ← readQuotedFrom quote n (c.advanceBy 2)
          return (.char '\x27' :: t, c)
        else .ok ([], c.advance)
      else if ch = '\\' && quote = '\x22' then do
        let (u, c) ← readEscape c.advance
        let (t, c) ← readQuotedFrom quote n c
        return (u ++ t, c)
      else if endsWord (some ch) then do
        let (gap, c) ← quotedGap c
        let (t, c) ← readQuotedFrom quote n c
        return (gap.map .char ++ t, c)
      else do
        let (t, c) ← readQuotedFrom quote n c.advance
        return (.char ch :: t, c)

def readQuoted (quote : Char) (c : Cursor) : Except Error (Text × Cursor) :=
  readQuotedFrom quote (c.rest.length + 1) c.advance

/-! ### Block scalars -/

/-- What becomes of the line breaks at the end of a block. -/
inductive Chomping where
  | clip
  | strip
  | keep
  deriving DecidableEq, Repr

def chomping? : Option Char → Option Chomping
  | some '+' => some .keep
  | some '-' => some .strip
  | _ => none

/-- The digit from 1 to 9 that gives the indentation of a block. -/
def increment? : Option Char → Except Error (Option Nat)
  | some '0' => .error .malformed
  | some c => .ok (if c.isDigit then some (c.toNat - '0'.toNat) else none)
  | none => .ok none

/-- The two indicators behind the mark of a block, in either order. -/
def readIndicators (c : Cursor) : Except Error ((Chomping × Option Nat) × Cursor) := do
  let (chomping, increment, c) ←
    match chomping? c.peek with
    | some k => do
      let c := c.advance
      match ← increment? c.peek with
      | some i => pure (k, some i, c.advance)
      | none => pure (k, none, c)
    | none => do
      match ← increment? c.peek with
      | some i =>
        let c := c.advance
        match chomping? c.peek with
        | some k => pure (k, some i, c.advance)
        | none => pure (.clip, some i, c)
      | none => pure (.clip, none, c)
  require (endsToken c.peek)
  return ((chomping, increment), c)

/-- The empty lines before a block, and the deepest column that their spaces reach. -/
def blockStart : Nat → Nat → Cursor → List Char × Nat × Cursor
  | 0, deepest, c => ([], deepest, c)
  | n + 1, deepest, c =>
    if c.peek = some ' ' then
      let c := c.advance
      blockStart n (max deepest c.column) c
    else match c.cutBreak with
      | none => ([], deepest, c)
      | some (b, c) =>
        let (bs, deepest, c) := blockStart n deepest c
        (b :: bs, deepest, c)

def skipIndent (indent : Nat) : Nat → Cursor → Cursor
  | 0, c => c
  | n + 1, c =>
    if c.column < indent && c.peek = some ' ' then skipIndent indent n c.advance else c

/-- The empty lines before the next line of a block, and the indentation of that line. -/
def blockBreaks (indent : Nat) : Nat → Cursor → List Char × Cursor
  | 0, c => ([], c)
  | n + 1, c =>
    let c := skipIndent indent indent c
    match c.cutBreak with
    | none => ([], c)
    | some (b, c) =>
      let (bs, c) := blockBreaks indent n c
      (b :: bs, c)

/-- The lines of a block, with the break that ends the last and the empty lines behind it. In a
folded block a break between two lines that start with no blank is a space. -/
def blockLines (folded : Bool) (indent : Nat) : Nat → Cursor →
    List Char × Option Char × List Char × Cursor
  | 0, c => ([], none, [], c)
  | n + 1, c =>
    let indented := c.peek.any isSpaceOrTab
    let (line, c) := c.cutWhile (!isBreak ·)
    let (break?, c) := match c.cutBreak with
      | none => (none, c)
      | some (b, c) => (some b, c)
    let (breaks, c) := blockBreaks indent (c.rest.length + 1) c
    if c.column = indent && !c.rest.isEmpty then
      let joint :=
        if folded && break? = some '\n' && !indented && !c.peek.any isSpaceOrTab then
          if breaks.isEmpty then [' '] else []
        else break?.toList
      let (more, last, trailing, c) := blockLines folded indent n c
      (line ++ joint ++ breaks ++ more, last, trailing, c)
    else (line, break?, breaks, c)

/-- A block scalar at its mark; `parent` is the indentation around it. -/
def readBlock (folded : Bool) (parent : Int) (c : Cursor) : Except Error (Text × Cursor) := do
  let ((chomping, increment), c) ← readIndicators c.advance
  let c ← endLine c
  let least := max 1 (parent + 1).toNat
  let (breaks, indent, c) := match increment with
    | some i =>
      let indent := least + i - 1
      let (breaks, c) := blockBreaks indent (c.rest.length + 1) c
      (breaks, indent, c)
    | none =>
      let (breaks, deepest, c) := blockStart (c.rest.length + 1) 0 c
      (breaks, max least deepest, c)
  let (body, last, trailing, c) :=
    if c.column = indent && !c.rest.isEmpty then
      let (lines, last, trailing, c) := blockLines folded indent (c.rest.length + 1) c
      (breaks ++ lines, last, trailing, c)
    else ([], none, breaks, c)
  let ending := match chomping with
    | .strip => []
    | .clip => last.toList
    | .keep => last.toList ++ trailing
  return ((body ++ ending).map .char, c)

end Yaml
end CommentTags
