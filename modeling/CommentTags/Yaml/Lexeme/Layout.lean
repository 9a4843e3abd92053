import CommentTags.Yaml.Lexeme.Scalar

/-!
From a YAML text to its lexemes. A key on one line shows itself only at the colon behind it, so the
place of a lexeme that may turn out to be a key is remembered, for each level of brackets, until the
line ends or more than 1024 characters have passed.
-/

namespace CommentTags
namespace Yaml

/-- A lexeme that may turn out to be a key: its place among the lexemes and in the text, and whether
nothing else may stand there. -/
structure PendingKey where
  position : Nat
  required : Bool
  index : Nat
  line : Nat
  column : Nat
  deriving Repr

structure Layout where
  cursor : Cursor
  lexemes : Array Lexeme := #[]
  /-- The column of the innermost block. -/
  indent : Int := -1
  /-- The columns of the blocks around it. -/
  outerIndents : List Int := []
  /-- May a key or a block entry start here? -/
  keyAllowed : Bool := true
  /-- The pending key at this level of brackets. -/
  pending : Option PendingKey := none
  /-- The pending keys of the levels around it; there is one entry for each open bracket. -/
  outerPending : List (Option PendingKey) := []

namespace Layout

def inFlow (l : Layout) : Bool := !l.outerPending.isEmpty

def emit (l : Layout) (x : Lexeme) : Layout := { l with lexemes := l.lexemes.push x }

def emitAt (l : Layout) (i : Nat) (x : Lexeme) : Layout :=
  { l with lexemes := l.lexemes.insertIdxIfInBounds i x }

def isStale (l : Layout) (k : PendingKey) : Bool :=
  k.line ≠ l.cursor.line || 1024 < l.cursor.index - k.index

/-- Forgets a key if it is stale; a required key must not be. -/
def refresh (l : Layout) : Option PendingKey → Except Error (Option PendingKey)
  | none => .ok none
  | some k =>
    if !l.isStale k then .ok (some k) else if k.required then .error .malformed else .ok none

def dropStale (l : Layout) : Except Error Layout := do
  let pending ← l.refresh l.pending
  let outer ← l.outerPending.mapM l.refresh
  return { l with pending := pending, outerPending := outer }

/-- Gives up the pending key of this level. -/
def dropPending (l : Layout) : Except Error Layout :=
  match l.pending with
  | some k => if k.required then .error .malformed else .ok { l with pending := none }
  | none => .ok l

/-- The next lexeme may turn out to be a key. -/
def markPending (l : Layout) : Except Error Layout :=
  if l.keyAllowed then do
    let l ← l.dropPending
    let c := l.cursor
    let key : PendingKey :=
      { position := l.lexemes.size, required := !l.inFlow && l.indent = c.column
        index := c.index, line := c.line, column := c.column }
    return { l with pending := some key }
  else .ok l

def closeBlocks (column : Int) : Int → List Int → Array Lexeme → Int × List Int × Array Lexeme
  | indent, [], out => (indent, [], out)
  | indent, i :: is, out =>
    if column < indent then closeBlocks column i is (out.push .blockEnd) else (indent, i :: is, out)

/-- Ends the blocks that are indented more than `column`; inside brackets there are none. -/
def unwind (l : Layout) (column : Int) : Layout :=
  if l.inFlow then l
  else
    let (indent, outer, out) := closeBlocks column l.indent l.outerIndents l.lexemes
    { l with indent := indent, outerIndents := outer, lexemes := out }

def deepen (l : Layout) (column : Nat) : Layout :=
  { l with indent := column, outerIndents := l.indent :: l.outerIndents }

/-- Starts a block at the column of the cursor unless one is open there. -/
def startBlock (l : Layout) (x : Lexeme) : Except Error Layout := do
  if l.inFlow then return l
  require l.keyAllowed
  if l.indent < l.cursor.column then return (l.deepen l.cursor.column).emit x else return l

def pass (l : Layout) (n : Nat) : Layout := { l with cursor := l.cursor.advanceBy n }

/-- Passes spaces, comments and line breaks. Outside brackets a key may start on a new line. -/
def skipToLexeme : Nat → Layout → Layout
  | 0, l => l
  | n + 1, l =>
    let c := l.cursor.skipWhile isSpace
    let c := if c.peek = some '#' then c.skipWhile (!isBreak ·) else c
    match c.cutBreak with
    | none => { l with cursor := c }
    | some (_, c) => skipToLexeme n { l with cursor := c, keyAllowed := l.keyAllowed || !l.inFlow }

/-- A lexeme that stands outside every block. -/
def atTop (l : Layout) : Except Error Layout := do
  let l ← (l.unwind (-1)).dropPending
  return { l with keyAllowed := false }

def openBracket (l : Layout) (x : Lexeme) : Except Error Layout := do
  let l ← l.markPending
  return { (l.emit x).pass 1 with
    keyAllowed := true, pending := none, outerPending := l.pending :: l.outerPending }

/-- Nothing is read behind a bracket that closes none. -/
def closeBracket (l : Layout) (x : Lexeme) : Except Error Layout := do
  let l ← l.dropPending
  match l.outerPending with
  | [] => return (l.emit x).emit (.unreadable .malformed)
  | k :: ks => return { (l.emit x).pass 1 with keyAllowed := false, pending := k, outerPending := ks }

def flowEntry (l : Layout) : Except Error Layout := do
  let l ← l.dropPending
  return { (l.emit .flowEntry).pass 1 with keyAllowed := true }

def blockEntry (l : Layout) : Except Error Layout := do
  let l ← (← l.startBlock .blockSequence).dropPending
  return { (l.emit .blockEntry).pass 1 with keyAllowed := true }

def explicitKey (l : Layout) : Except Error Layout := do
  let l ← (← l.startBlock .blockMapping).dropPending
  return { (l.emit .key).pass 1 with keyAllowed := !l.inFlow }

/-- The colon behind a key. If a key is pending, it is one now. -/
def keyValue (l : Layout) : Except Error Layout :=
  match l.pending with
  | some k =>
    let l := emitAt { l with pending := none } k.position .key
    let l := if !l.inFlow && l.indent < (k.column : Int) then
        (l.deepen k.column).emitAt k.position .blockMapping
      else l
    .ok { (l.emit .value).pass 1 with keyAllowed := false }
  | none => do
    let l ← (← l.startBlock .blockMapping).dropPending
    return { (l.emit .value).pass 1 with keyAllowed := !l.inFlow }

/-- A lexeme that may turn out to be a key. -/
def keyLike (l : Layout) (read : Cursor → Except Error (Lexeme × Cursor)) : Except Error Layout := do
  let l ← l.markPending
  let (x, c) ← read l.cursor
  return { l.emit x with cursor := c, keyAllowed := false }

def blockScalar (l : Layout) (folded : Bool) : Except Error Layout := do
  let l ← l.dropPending
  let (t, c) ← readBlock folded l.indent l.cursor
  return { l.emit (.scalar t false) with cursor := c, keyAllowed := true }

def plainScalar (l : Layout) : Except Error Layout := do
  let l ← l.markPending
  let (t, c, ended) := readPlain l.inFlow (l.indent + 1) l.cursor
  return { l.emit (.scalar t true) with cursor := c, keyAllowed := ended }

/-- May a plain scalar start with `ch` before `next`? -/
def startsPlain (flow : Bool) (ch : Char) (next : Option Char) : Bool :=
  !(endsWord (some ch) || ch ∈ ['-', '?', ':', ',', '[', ']', '{', '}', '#', '&', '*', '!', '|', '>',
    '\x27', '\x22', '%', '@', '\x60']) ||
  (!endsWord next && (ch = '-' || (!flow && (ch = '?' || ch = ':'))))

/-- Reads the lexeme at the cursor, which stands at `ch`. -/
def readLexeme (l : Layout) (ch : Char) : Except Error Layout :=
  let c := l.cursor
  let next := c.peekAt 1
  let atColumn0 := c.column = 0
  if ch = '%' && atColumn0 then do
    let l ← l.atTop
    let (d, c) ← readDirective l.cursor
    return { l.emit (.directive d) with cursor := c }
  else if ch = '-' && atColumn0 && c.atMarks '-' then do return ((← l.atTop).emit .documentStart).pass 3
  else if ch = '.' && atColumn0 && c.atMarks '.' then do return ((← l.atTop).emit .documentEnd).pass 3
  else if ch = '[' then l.openBracket .openSequence
  else if ch = '{' then l.openBracket .openMapping
  else if ch = ']' then l.closeBracket .closeSequence
  else if ch = '}' then l.closeBracket .closeMapping
  else if ch = ',' then l.flowEntry
  else if ch = '-' && endsWord next then l.blockEntry
  else if ch = '?' && (l.inFlow || endsWord next) then l.explicitKey
  else if ch = ':' && (l.inFlow || endsWord next) then l.keyValue
  else if ch = '*' then l.keyLike fun c => do let (name, c) ← readName c; return (.alias name, c)
  else if ch = '&' then l.keyLike fun c => do let (name, c) ← readName c; return (.anchor name, c)
  else if ch = '!' then
    l.keyLike fun c => do let ((handle, suffix), c) ← readTag c; return (.tag handle suffix, c)
  else if ch = '|' && !l.inFlow then l.blockScalar false
  else if ch = '>' && !l.inFlow then l.blockScalar true
  else if ch = '\x27' || ch = '\x22' then
    l.keyLike fun c => do let (t, c) ← readQuoted ch c; return (.scalar t false, c)
  else if startsPlain l.inFlow ch next then l.plainScalar
  else .error .malformed

/-- Goes to the next lexeme and reads it. A key that is left behind on its line is stale at once. -/
def step (l : Layout) : Except Error Layout := do
  let l ← (l.skipToLexeme (l.cursor.rest.length + 1)).dropStale
  let l := l.unwind l.cursor.column
  match l.cursor.peek with
  | none =>
    let l ← (l.unwind (-1)).dropPending
    return l.emit .streamEnd
  | some ch => (← l.readLexeme ch).dropStale

/-- How many lexemes are settled: all before the first that may still turn out to be a key. -/
def settled (l : Layout) : Nat :=
  (l.pending :: l.outerPending).foldl (fun n k => match k with
    | some k => min n k.position
    | none => n) l.lexemes.size

/-- Is there nothing more to read? -/
def isFinished (l : Layout) : Bool :=
  match l.lexemes.back? with
  | some .streamEnd => true
  | some (.unreadable _) => true
  | _ => false

/-- Reads on to the end. If that fails, only the lexemes that were settled before are known. -/
def run : Nat → Layout → List Lexeme
  | 0, l => l.lexemes.toList
  | n + 1, l =>
    match l.step with
    | .error e => l.lexemes.toList.take l.settled ++ [.unreadable e]
    | .ok l => if l.isFinished then l.lexemes.toList else run n l

end Layout

/-- The lexemes of a text; the last is the end of the stream, or says that the rest is unreadable. -/
def lexemes (t : Text) : List Lexeme :=
  match t.chars? with
  | none => [.unreadable .malformed]
  | some s =>
    if s.all isAllowed then
      let c : Cursor := { rest := s }
      let c := if c.peek = some '\uFEFF' then c.advance else c
      Layout.run (s.length + 2) { cursor := c }
    else [.unreadable .malformed]

end Yaml
end CommentTags
