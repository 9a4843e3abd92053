import CommentTags.Yaml.Graph
import CommentTags.Yaml.Scalar

/-!
Settling a graph: merge keys are replaced by the pairs that they bring in, and every node that can
be reached is checked against its tag. Collections are settled in the order in which they are met,
each of them once. A mapping that stands for a scalar lends the text that it has when it is met,
whatever becomes of its value key afterwards.
-/

namespace CommentTags
namespace Yaml
namespace Graph

/-- The first pair of mapping `i`, from the pair with index `j` on, whose key is a merge key or a
value key; and its index. -/
def nextSpecial? (g : Graph) (i j : Nat) : Option ((Nat × Nat) × Nat) :=
  ((g.pairsOf i).zipIdx.drop j).find? fun p => g.tagOf p.1.1 = .merge || g.tagOf p.1.1 = .value

def erasePair (g : Graph) (i j : Nat) : Graph := g.setContent i (.mapping ((g.pairsOf i).eraseIdx j))

def isMapping (g : Graph) (i : Nat) : Bool :=
  match g.contentOf i with
  | .mapping _ => true
  | _ => false

mutual

/-- Replaces the merge keys of a mapping. The pairs that are brought in go before its own, so its
own win; a value key becomes a text. -/
def flatten : Nat → (links : Nat) → Graph → Nat → Except Error Graph
  | 0, _, _, _ => .error .malformed
  | _ + 1, 0, _, _ => .error .tooDeep
  | n + 1, links + 1, g, i => flattenFrom n links g i 0 []

/-- Goes through the pairs of mapping `i` from the pair with index `j`. -/
def flattenFrom : Nat → (links : Nat) → Graph → Nat → Nat → List (Nat × Nat) → Except Error Graph
  | 0, _, _, _, _, _ => .error .malformed
  | n + 1, links, g, i, j, merged =>
    match g.nextSpecial? i j with
    | none => .ok (g.setContent i (.mapping (merged ++ g.pairsOf i)))
    | some ((k, v), j) =>
      if g.tagOf k = .merge then do
        let (g, brought) ← flattenSource n links (g.erasePair i j) v
        flattenFrom n links g i j (merged ++ brought)
      else flattenFrom n links (g.setTag k .str) i (j + 1) merged

/-- What a merge key brings in: the pairs of a mapping, or those of several, the first of which
wins. -/
def flattenSource : Nat → (links : Nat) → Graph → Nat → Except Error (Graph × List (Nat × Nat))
  | 0, _, _, _ => .error .malformed
  | n + 1, links, g, v =>
    match g.contentOf v with
    | .scalar _ => .error .malformed
    | .mapping _ => do
      let g ← flatten n links g v
      return (g, g.pairsOf v)
    | .sequence items => flattenItems n links g items []

def flattenItems : Nat → (links : Nat) → Graph → List Nat → List (Nat × Nat) →
    Except Error (Graph × List (Nat × Nat))
  | 0, _, _, _, _ => .error .malformed
  | _ + 1, _, g, [], brought => .ok (g, brought)
  | n + 1, links, g, i :: is, brought =>
    if g.isMapping i then do
      let g ← flatten n links g i
      flattenItems n links g is (g.pairsOf i ++ brought)
    else .error .malformed

end

/-- Enough steps to replace every merge key. -/
def flattenBound (g : Graph) : Nat :=
  let pairs := g.foldl (fun k nd => match nd.content with
    | .mapping ps => k + ps.length
    | .sequence is => k + is.length
    | .scalar _ => k) 0
  (pairs + 4) * (pairs + 4)

/-- A graph on the way to being settled: the nodes that were met, the texts of the scalars among
them, and the collections that wait. -/
structure Settling where
  graph : Graph
  met : List Nat := []
  texts : List (Nat × Text) := []
  waiting : List Nat := []

/-- The graph in which every scalar that was met holds its text. -/
def Settling.settled (s : Settling) : Graph :=
  s.texts.foldl (fun g p => g.setContent p.1 (.scalar p.2)) s.graph

def isCollectionTag : Tag → Bool
  | .seq | .map | .set | .pairs => true
  | _ => false

/-- Meets a node: a scalar is checked, and a collection waits for its turn. -/
def meet (s : Settling) (i : Nat) : Except Error Settling :=
  if s.met.contains i then .ok s
  else
    let tag := s.graph.tagOf i
    if isCollectionTag tag then
      .ok { s with met := i :: s.met, waiting := s.waiting ++ [i] }
    else match tag with
      | .merge | .value | .unknown => .error .malformed
      | tag => do
        let t ← s.graph.scalarText maxLinks i
        if tag = .timestamp && s.graph.isMapping i then throw (.badScalar .lentMoment)
        checkScalar tag t
        return { s with met := i :: s.met, texts := (i, t) :: s.texts }

/-- Meets the key and the value of a pair. A collection cannot be a key. -/
def meetPair (s : Settling) (p : Nat × Nat) : Except Error Settling := do
  let s ← meet s p.1
  if isCollectionTag (s.graph.tagOf p.1) then throw .malformed
  meet s p.2

/-- Meets the one pair of a mapping in a list of pairs. -/
def meetEntry (s : Settling) (i : Nat) : Except Error Settling :=
  match s.graph.contentOf i with
  | .mapping [(k, v)] => do meet (← meet s k) v
  | _ => .error .malformed

/-- Settles a collection. -/
def settleOne (s : Settling) (i : Nat) : Except Error Settling :=
  match s.graph.tagOf i, s.graph.contentOf i with
  | .seq, .sequence items => items.foldlM meet s
  | .pairs, .sequence items => items.foldlM meetEntry s
  | .map, .mapping _ | .set, .mapping _ => do
    let g ← s.graph.flatten s.graph.flattenBound maxLinks i
    (g.pairsOf i).foldlM meetPair { s with graph := g }
  | _, _ => .error .malformed

def settleWaiting : Nat → Settling → Except Error Graph
  | 0, s => .ok s.settled
  | n + 1, s =>
    match s.waiting with
    | [] => .ok s.settled
    | i :: is => do settleWaiting n (← settleOne { s with waiting := is } i)

/-- Settles all that can be reached from a root. -/
def settle (g : Graph) (root : Nat) : Except Error Graph := do
  settleWaiting (g.size + 1) (← meet { graph := g } root)

end Graph
end Yaml
end CommentTags
