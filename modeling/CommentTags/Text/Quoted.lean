import CommentTags.Text.Printable

/-!
Quoted text: a text between quotes on one line, with escapes for the quote, the backslash and
everything that does not print.
-/

namespace CommentTags

def hexDigit (n : Nat) : Char := (Nat.digitChar (n % 16))

/-- The last `width` hexadecimal digits of `n`, lower case. -/
def hexDigits : (width : Nat) → (n : Nat) → List Char
  | 0, _ => []
  | w + 1, n => hexDigits w (n / 16) ++ [hexDigit n]

namespace Text

/-- The shortest of `\xNN`, `\uNNNN` and `\UNNNNNNNN` that has room for the number. -/
def hexEscape (n : Nat) : Text :=
  if n < 0x100 then text "\\x" ++ (hexDigits 2 n).map .char
  else if n < 0x10000 then text "\\u" ++ (hexDigits 4 n).map .char
  else text "\\U" ++ (hexDigits 8 n).map .char

def quoteEscape (quote c : CodePoint) : Text :=
  if c = quote ∨ c = .char '\\' then [.char '\\', c]
  else if c = .char '\t' then text "\\t"
  else if c = .char '\n' then text "\\n"
  else if c = .char '\r' then text "\\r"
  else if c.isPrintable then [c]
  else hexEscape c.toNat

/-- Single quotes, unless the text has a single quote and no double quote. -/
def quoteFor (t : Text) : CodePoint :=
  if t.contains (.char '\x27') && !t.contains (.char '\x22') then .char '\x22' else .char '\x27'

def quoted (t : Text) : Text :=
  let q := quoteFor t
  q :: (t.flatMap (quoteEscape q) ++ [q])

end Text
end CommentTags
