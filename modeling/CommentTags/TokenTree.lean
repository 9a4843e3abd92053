import CommentTags.Token

/-!
The token tree: the comments of a source in order, each with its tokens.
-/

namespace CommentTags

/-- A documentation comment and the declaration that claimed it: the description first, then the
tags, then the entries of the declaration. -/
structure Comment where
  children : List Token := []
  deriving DecidableEq, Repr

namespace Comment

def append (c : Comment) (tokens : List Token) : Comment := ⟨c.children ++ tokens⟩

/-- The text of the leading description. -/
def description (c : Comment) : Option Text :=
  match c.children with
  | [] => none
  | t :: _ => if t.label = descriptionLabel then some t.content else none

def tagged (c : Comment) (label : Text) : List Token := c.children.filter (·.label = label)

end Comment

structure TokenTree where
  comments : List Comment := []
  deriving DecidableEq, Repr

namespace TokenTree

def size (t : TokenTree) : Nat := t.comments.length

def push (t : TokenTree) (c : Comment) : TokenTree := ⟨t.comments ++ [c]⟩

/-- Appends tokens to the comment with index `i`. -/
def appendAt (t : TokenTree) (i : Nat) (tokens : List Token) : TokenTree :=
  ⟨t.comments.modify i (·.append tokens)⟩

/-- Every token with the index of its comment, in order. -/
def walk (t : TokenTree) : List (Nat × Token) :=
  t.comments.zipIdx.flatMap fun (c, i) => c.children.map (i, ·)

@[simp]
theorem comments_push (t : TokenTree) (c : Comment) : (t.push c).comments = t.comments ++ [c] := rfl

@[simp]
theorem size_push (t : TokenTree) (c : Comment) : (t.push c).size = t.size + 1 := by
  simp [size]

@[simp]
theorem size_appendAt (t : TokenTree) (i : Nat) (tokens : List Token) :
    (t.appendAt i tokens).size = t.size := by
  simp [size, appendAt]

end TokenTree
end CommentTags
