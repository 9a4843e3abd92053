/-!
A class of characters as a list of ranges of their numbers.
-/

namespace CommentTags

abbrev Ranges := List (Nat × Nat)

namespace Ranges

def contains (rs : Ranges) (n : Nat) : Bool := rs.any fun r => r.1 ≤ n && n ≤ r.2

end Ranges
end CommentTags
