/-!
A place in a YAML text: what is still to be read, with the number of characters read, the line and
the column.
-/

namespace CommentTags
namespace Yaml

structure Cursor where
  rest : List Char
  index : Nat := 0
  line : Nat := 0
  column : Nat := 0
  deriving Repr

/-- The characters that a document may hold. -/
def isAllowed (c : Char) : Bool :=
  let n := c.toNat
  c = '\t' || c = '\n' || c = '\r' || (0x20 ≤ n && n ≤ 0x7E) || n = 0x85 ||
    (0xA0 ≤ n && n ≤ 0xFFFD) || 0x10000 ≤ n

def isBreak (c : Char) : Bool :=
  c = '\n' || c = '\r' || c = '\x85' || c = '\u2028' || c = '\u2029'

def isSpace (c : Char) : Bool := c = ' '

def isSpaceOrTab (c : Char) : Bool := c = ' ' || c = '\t'

/-- A line break or the end of the text. -/
def endsLine : Option Char → Bool
  | none => true
  | some c => isBreak c

/-- A space, a line break or the end of the text. -/
def endsToken (c : Option Char) : Bool := endsLine c || c = some ' '

/-- A space, a tab, a line break or the end of the text. -/
def endsWord (c : Option Char) : Bool := endsToken c || c = some '\t'

namespace Cursor

def peek (c : Cursor) : Option Char := c.rest.head?

def peekAt (c : Cursor) (n : Nat) : Option Char := (c.rest.drop n).head?

/-- Passes one character. A carriage return ends its line only if no line feed follows, and a byte
order mark takes no column. -/
def advance (c : Cursor) : Cursor :=
  match c.rest with
  | [] => c
  | ch :: r =>
    if isBreak ch && !(ch = '\r' && r.head? = some '\n') then
      { rest := r, index := c.index + 1, line := c.line + 1, column := 0 }
    else
      { rest := r, index := c.index + 1, line := c.line
        column := if ch = '\uFEFF' then c.column else c.column + 1 }

def advanceBy : Nat → Cursor → Cursor
  | 0, c => c
  | n + 1, c => advanceBy n c.advance

/-- The characters up to the first that does not satisfy `p`, and the place behind them. -/
def cutWhile (p : Char → Bool) (c : Cursor) : List Char × Cursor :=
  let run := c.rest.takeWhile p
  (run, c.advanceBy run.length)

def skipWhile (p : Char → Bool) (c : Cursor) : Cursor := (c.cutWhile p).2

/-- The line break at a place. All breaks count as a line feed except the separators of lines and
paragraphs, which stay as they are. -/
def cutBreak (c : Cursor) : Option (Char × Cursor) :=
  match c.rest with
  | '\r' :: '\n' :: _ => some ('\n', c.advanceBy 2)
  | ch :: _ =>
    if ch = '\u2028' || ch = '\u2029' then some (ch, c.advance)
    else if isBreak ch then some ('\n', c.advance)
    else none
  | [] => none

/-- Three equal marks that stand as a word of their own. -/
def atMarks (c : Cursor) (mark : Char) : Bool :=
  [mark, mark, mark].isPrefixOf c.rest && endsWord (c.peekAt 3)

def atSeparator (c : Cursor) : Bool := c.atMarks '-' || c.atMarks '.'

end Cursor
end Yaml
end CommentTags
