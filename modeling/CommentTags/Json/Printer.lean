import CommentTags.Json.Basic

/-!
Compact JSON text: no blanks, fields in order, and only printable ASCII, with everything else
written as escaped 16-bit units.
-/

namespace CommentTags
namespace Json

/-- A 16-bit unit as an escape. -/
def unitEscape (n : Nat) : List Char := '\\' :: 'u' :: hexDigits 4 n

/-- A code point as one unit, or as the two halves of a pair. -/
def unitEscapes (n : Nat) : List Char :=
  if n < 0x10000 then unitEscape n
  else unitEscape (0xD800 + (n - 0x10000) / 0x400) ++ unitEscape (0xDC00 + (n - 0x10000) % 0x400)

def escape : CodePoint → List Char
  | .char '\x22' => ['\\', '\x22']
  | .char '\\' => ['\\', '\\']
  | .char '\n' => ['\\', 'n']
  | .char '\r' => ['\\', 'r']
  | .char '\t' => ['\\', 't']
  | .char '\x08' => ['\\', 'b']
  | .char '\x0c' => ['\\', 'f']
  | .char c => if 0x20 ≤ c.toNat ∧ c.toNat < 0x7F then [c] else unitEscapes c.toNat
  | .half k => unitEscapes (0xD800 + k.val)

def renderText (t : Text) : List Char := '\x22' :: (t.flatMap escape ++ ['\x22'])

def renderInt (n : Int) : List Char :=
  if n < 0 then '-' :: Nat.toDigits 10 n.natAbs else Nat.toDigits 10 n.natAbs

def renderFloat : Binary64 → List Char
  | .nan => "NaN".toList
  | .infinite neg => (if neg then "-Infinity" else "Infinity").toList
  | x => x.spelling

mutual

def render : Json → List Char
  | null => "null".toList
  | bool b => (if b then "true" else "false").toList
  | int n => renderInt n
  | float x => renderFloat x
  | str t => renderText t
  | array items => '[' :: (renderItems items ++ [']'])
  | object fields => '{' :: (renderFields fields ++ ['}'])

def renderItems : List Json → List Char
  | [] => []
  | [v] => render v
  | v :: w :: vs => render v ++ ',' :: renderItems (w :: vs)

def renderFields : List (Text × Json) → List Char
  | [] => []
  | [(k, v)] => renderText k ++ ':' :: render v
  | (k, v) :: f :: fs => renderText k ++ ':' :: (render v ++ ',' :: renderFields (f :: fs))

end

end Json
end CommentTags
