/-!
Why a YAML document cannot be loaded: its text breaks the rules of the format, a scalar has no
value, or its collections go too deep.
-/

namespace CommentTags
namespace Yaml

inductive BadScalar where
  /-- An escape names a number that is no code point. -/
  | notCodePoint
  /-- A number that is too large: an escape of more than 31 bits, or too many parts to base 60. -/
  | oversized
  /-- A number, or a point in time, that does not exist. -/
  | impossible
  /-- A number without any text. -/
  | emptyNumber
  /-- A truth value that is none. -/
  | notTruth
  /-- A point in time that is not written as one. -/
  | notMoment
  /-- A point in time that a mapping lends. -/
  | lentMoment
  deriving DecidableEq, Repr

inductive Error where
  | malformed
  | badScalar (b : BadScalar)
  /-- Collections are nested, or linked to each other, more often than can be kept track of. -/
  | tooDeep
  deriving DecidableEq, Repr

end Yaml
end CommentTags
