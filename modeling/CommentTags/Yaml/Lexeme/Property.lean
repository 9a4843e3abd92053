import CommentTags.Text.Digits
import CommentTags.Yaml.Cursor
import CommentTags.Yaml.Lexeme

/-!
Anchors, aliases, tags and directives.
-/

namespace CommentTags
namespace Yaml

def require (b : Bool) : Except Error Unit := if b then .ok () else .error .malformed

def isNameChar (c : Char) : Bool := c.isAlphanum || c = '-' || c = '_'

/-- The name of an anchor or alias behind its indicator. -/
def readName (c : Cursor) : Except Error (String × Cursor) := do
  let (name, c) := c.advance.cutWhile isNameChar
  require (!name.isEmpty)
  require (endsWord c.peek || c.peek.any fun ch => ch ∈ ['?', ':', ',', ']', '}', '%', '@', '\x60'])
  return (String.ofList name, c)

def isUriChar (c : Char) : Bool :=
  c.isAlphanum || c ∈ ['-', ';', '/', '?', ':', '@', '&', '=', '+', '$', ',', '_', '.', '!', '~',
    '*', '\x27', '(', ')', '[', ']']

/-- The bytes of a run of escapes, each a percent sign and two hexadecimal digits. -/
def readBytes : Nat → Cursor → Except Error (List UInt8 × Cursor)
  | 0, c => .ok ([], c)
  | n + 1, c =>
    match c.rest with
    | '%' :: a :: b :: _ =>
      match hexNumber? [a, b] with
      | none => .error .malformed
      | some k => do
        let (bytes, c) ← readBytes n (c.advanceBy 3)
        return (k.toUInt8 :: bytes, c)
    | '%' :: _ => .error .malformed
    | _ => .ok ([], c)

def readUriFrom : Nat → Cursor → Except Error (List Char × Cursor)
  | 0, c => .ok ([], c)
  | n + 1, c =>
    match c.peek with
    | some '%' => do
      let (bytes, c) ← readBytes c.rest.length c
      match String.fromUTF8? ⟨bytes.toArray⟩ with
      | none => .error .malformed
      | some s =>
        let (more, c) ← readUriFrom n c
        return (s.toList ++ more, c)
    | some ch =>
      if isUriChar ch then do
        let (more, c) ← readUriFrom n c.advance
        return (ch :: more, c)
      else .ok ([], c)
    | none => .ok ([], c)

def readUri (c : Cursor) : Except Error (String × Cursor) := do
  let (uri, c') ← readUriFrom (c.rest.length + 1) c
  require (c'.index != c.index)
  return (String.ofList uri, c')

/-- A handle: an exclamation mark, or a name between two of them. -/
def readHandle (c : Cursor) : Except Error (String × Cursor) := do
  require (c.peek = some '!')
  let c := c.advance
  if c.peek = some ' ' then return ("!", c)
  let (name, c) := c.cutWhile isNameChar
  require (c.peek = some '!')
  return (String.ofList ('!' :: name ++ ['!']), c.advance)

/-- The handle and the suffix of a tag. A lone exclamation mark is a tag without a handle. -/
def readTag (c : Cursor) : Except Error ((Option String × String) × Cursor) := do
  let (handle, suffix, c) ←
    match c.peekAt 1 with
    | some '<' => do
      let (uri, c) ← readUri (c.advanceBy 2)
      require (c.peek = some '>')
      pure (none, uri, c.advance)
    | next =>
      if endsWord next then pure (none, "!", c.advance)
      else do
        let word := (c.rest.drop 1).takeWhile fun ch => !endsToken (some ch)
        let (handle, c) ← if word.contains '!' then readHandle c else pure ("!", c.advance)
        let (uri, c) ← readUri c
        pure (some handle, uri, c)
  require (endsToken c.peek)
  return ((handle, suffix), c)

def readVersionNumber (c : Cursor) : Except Error (Nat × Cursor) := do
  let (ds, c) := c.cutWhile Char.isDigit
  require (!ds.isEmpty)
  if maxDigits < ds.length then throw (.badScalar .impossible)
  return (decimalNumber ds, c)

def readVersion (c : Cursor) : Except Error (Directive × Cursor) := do
  let (major, c) ← readVersionNumber (c.skipWhile isSpace)
  require (c.peek = some '.')
  let (minor, c) ← readVersionNumber c.advance
  require (endsToken c.peek)
  return (.version major minor, c)

def readHandleDirective (c : Cursor) : Except Error (Directive × Cursor) := do
  let (name, c) ← readHandle (c.skipWhile isSpace)
  require (c.peek = some ' ')
  let (uri, c) ← readUri (c.skipWhile isSpace)
  require (endsToken c.peek)
  return (.handle name uri, c)

/-- Passes spaces, a comment and the line break at the end of a line. -/
def endLine (c : Cursor) : Except Error Cursor := do
  let c := c.skipWhile isSpace
  let c := if c.peek = some '#' then c.skipWhile (!isBreak ·) else c
  require (endsLine c.peek)
  return (c.cutBreak.map (·.2)).getD c

def readDirective (c : Cursor) : Except Error (Directive × Cursor) := do
  let (name, c) := c.advance.cutWhile isNameChar
  require (!name.isEmpty)
  require (endsToken c.peek)
  let (d, c) ←
    match String.ofList name with
    | "YAML" => readVersion c
    | "TAG" => readHandleDirective c
    | _ => pure (.unknown, c.skipWhile (!isBreak ·))
  return (d, ← endLine c)

end Yaml
end CommentTags
