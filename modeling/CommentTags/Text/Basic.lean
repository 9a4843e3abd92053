/-!
Text as the grammar sees it: a list of code points. A code point is a character or a surrogate
half; no file holds a half, but an escape such as `"\ud83d"` in a document names one, and it is
then counted, classified and written as a code point of its own.
-/

namespace CommentTags

/-- A code point: a character, or the surrogate half U+D800 + `k`. -/
inductive CodePoint where
  | char (c : Char)
  | half (k : Fin 2048)
  deriving DecidableEq, Repr

instance : Inhabited CodePoint := ⟨.char ' '⟩

instance : Coe Char CodePoint := ⟨.char⟩

abbrev Text := List CodePoint

namespace CodePoint

def toNat : CodePoint → Nat
  | .char c => c.toNat
  | .half k => 0xD800 + k.val

/-- The code point with number `n`, if there is one. -/
def ofNat? (n : Nat) : Option CodePoint :=
  if h : n.isValidChar then some (.char (Char.ofNatAux n h))
  else if h : 0xD800 ≤ n ∧ n < 0xE000 then some (.half ⟨n - 0xD800, by omega⟩)
  else none

/-- The character that two halves stand for: the first has its number below 1024, the second has
not. -/
def joined? (first second : Fin 2048) : Option Char :=
  if first.val < 0x400 ∧ 0x400 ≤ second.val then
    some (Char.ofNat (0x10000 + 0x400 * first.val + (second.val - 0x400)))
  else none

/-- The character of a code point; a half is shown as U+FFFD. -/
def shown : CodePoint → Char
  | .char c => c
  | .half _ => '\uFFFD'

end CodePoint

/-- The text of a string. -/
def text (s : String) : Text := s.toList.map .char

instance : Coe String Text := ⟨text⟩

namespace Text

/-- Puts two halves that stand for a character together, from the left. -/
def joinHalves : Text → Text
  | [] => []
  | .half h :: .half l :: r =>
    match CodePoint.joined? h l with
    | some c => .char c :: joinHalves r
    | none => .half h :: joinHalves (.half l :: r)
  | c :: r => c :: joinHalves r

/-- The characters of a text: two halves that make a character are that character. -/
def toChars (t : Text) : List Char := t.joinHalves.map CodePoint.shown

/-- The characters of a text that has no halves. -/
def chars? (t : Text) : Option (List Char) :=
  t.mapM fun
    | .char c => some c
    | .half _ => none

def toString (t : Text) : String := String.ofList t.toChars

/-- Order of texts by the numbers of their code points. -/
def le : Text → Text → Bool
  | [], _ => true
  | _ :: _, [] => false
  | a :: r, b :: s => a.toNat < b.toNat || (a.toNat == b.toNat && le r s)

def sort (ts : List Text) : List Text := ts.mergeSort le

/-- The first `n` code points of an occurrence are still to be skipped. -/
def removeFrom (p : Text) : Nat → Text → Text
  | _, [] => []
  | n + 1, _ :: r => removeFrom p n r
  | 0, c :: r =>
    if !p.isEmpty && p.isPrefixOf (c :: r) then removeFrom p (p.length - 1) r
    else c :: removeFrom p 0 r

/-- `t` without the occurrences of `p`, taken from the left. -/
def remove (p t : Text) : Text := removeFrom p 0 t

/-- The parts of a text between its separators. -/
def splitOn (sep : CodePoint) : Text → List Text
  | [] => [[]]
  | c :: r =>
    if c = sep then [] :: splitOn sep r
    else match splitOn sep r with
      | [] => [[c]]
      | p :: ps => (c :: p) :: ps

def joinWith (sep : Text) (parts : List Text) : Text := sep.intercalate parts

def ofNat (n : Nat) : Text := (Nat.toDigits 10 n).map .char

def ofInt (n : Int) : Text := if n < 0 then .char '-' :: ofNat n.natAbs else ofNat n.natAbs

theorem joinHalves_map_char (cs : List Char) : joinHalves (cs.map .char) = cs.map .char := by
  induction cs with
  | nil => rfl
  | cons c cs ih => simp [joinHalves, ih]

theorem length_dropWhile_le (p : CodePoint → Bool) (t : Text) :
    (t.dropWhile p).length ≤ t.length :=
  (List.dropWhile_suffix p).length_le

end Text
end CommentTags
