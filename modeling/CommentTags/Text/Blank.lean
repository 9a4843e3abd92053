import CommentTags.Text.Basic

/-!
Blank code points, and the words between them.
-/

namespace CommentTags

/-- White space: the controls U+0009 to U+000D and U+001C to U+001F, U+0085, and the separators of
lines, paragraphs and words. A half is never blank. -/
def CodePoint.isBlank : CodePoint → Bool
  | .half _ => false
  | .char c =>
    let n := c.toNat
    n == 0x20 || (0x09 ≤ n && n ≤ 0x0D) || (0x1C ≤ n && n ≤ 0x1F) || n == 0x85 || n == 0xA0 ||
      n == 0x1680 || (0x2000 ≤ n && n ≤ 0x200A) || n == 0x2028 || n == 0x2029 || n == 0x202F ||
      n == 0x205F || n == 0x3000

namespace Text

/-- The word read so far, last code point first, if there is one. -/
def flush (run : Text) : List Text := if run.isEmpty then [] else [run.reverse]

def wordsFrom (run : Text) : Text → List Text
  | [] => flush run
  | c :: r => if c.isBlank then flush run ++ wordsFrom [] r else wordsFrom (c :: run) r

/-- The maximal runs of a text without blanks. -/
def words (t : Text) : List Text := wordsFrom [] t

def trimLeft (t : Text) : Text := t.dropWhile CodePoint.isBlank

def trim (t : Text) : Text := (trimLeft (trimLeft t).reverse).reverse

/-- The words of a text with one space between two of them. -/
def fold (t : Text) : Text := joinWith [.char ' '] t.words

end Text
end CommentTags
