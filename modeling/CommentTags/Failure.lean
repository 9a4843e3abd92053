import CommentTags.FileSystem
import CommentTags.Yaml.Error

/-!
The two ways in which an operation fails: it refuses its input and says so, or it meets a fault that
it does not handle.
-/

namespace CommentTags

inductive Fault where
  /-- A file is not UTF-8. -/
  | undecodable
  /-- A YAML document is well formed but one of its scalars has no value. -/
  | badScalar (b : Yaml.BadScalar)
  /-- A setting is not named by a text. -/
  | unnamedSetting
  /-- A JSON integer of more than 4300 digits. -/
  | oversizedInteger
  /-- A document whose parts go deeper than can be kept track of. -/
  | tooDeep
  | io (f : IoFailure)
  deriving DecidableEq, Repr

inductive Failure (ε : Type) where
  | refused (e : ε)
  | fault (f : Fault)

namespace Failure

def map {ε δ : Type} (g : ε → δ) : Failure ε → Failure δ
  | refused e => refused (g e)
  | fault f => fault f

/-- A YAML error as a failure: a malformed document is refused with `e`. -/
def ofYaml {ε : Type} (e : ε) : Yaml.Error → Failure ε
  | .malformed => refused e
  | .badScalar b => fault (.badScalar b)
  | .tooDeep => fault .tooDeep

/-- A file error as a failure; a path that the system does not take is a fault. -/
def ofIo {ε : Type} (missing : ε) (unreadable : IoFailure → ε) (f : IoFailure) : Failure ε :=
  if f.cause = .notFound then refused missing
  else if f.cause.isFault then fault (.io f)
  else refused (unreadable f)

end Failure
end CommentTags
