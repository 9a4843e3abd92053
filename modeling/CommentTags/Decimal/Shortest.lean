import CommentTags.Decimal.Binary64
import CommentTags.Text.Basic

/-!
The shortest decimal that reads back as a given binary number, and its spelling.
-/

namespace CommentTags

/-- The decimal `digits · 10 ^ exponent`. -/
structure Decimal where
  digits : Nat
  exponent : Int
  deriving DecidableEq, Repr

namespace Decimal

/-- The point of the grid with step `10 ^ s` that reads back as `m · 2 ^ q`, if there is one; of
two, the nearer. The numbers that read back as `m · 2 ^ q` lie between its midpoints with its two
neighbours, and a midpoint itself counts if `m` is even. -/
def onGrid (m : Nat) (q s : Int) : Option Nat :=
  let low := if m = twoTo 52 ∧ -1074 < q then 4 * m - 1 else 4 * m - 2
  let a := tenTo s.toNat * twoTo (2 - q).toNat
  let b := twoTo (q - 2).toNat * tenTo (-s).toNat
  let within (g : Nat) : Bool :=
    if m % 2 = 0 then low * b ≤ g * a ∧ g * a ≤ (4 * m + 2) * b
    else low * b < g * a ∧ g * a < (4 * m + 2) * b
  let f := 4 * m * b / a
  match within f && f != 0, within (f + 1) with
  | true, true =>
    let below := 4 * m * b - f * a
    let above := (f + 1) * a - 4 * m * b
    if below < above ∨ (below = above ∧ f % 2 = 0) then some f else some (f + 1)
  | true, false => some f
  | false, true => some (f + 1)
  | false, false => none

/-- Tries the grids from step `10 ^ s` downwards. -/
def search (m : Nat) (q : Int) : Nat → Int → Decimal
  | 0, s => ⟨0, s⟩
  | n + 1, s =>
    match onGrid m q s with
    | some g => ⟨g, s⟩
    | none => search m q n (s - 1)

/-- The coarsest decimal grid that has a point for `m · 2 ^ q` gives the fewest digits. -/
def shortest (m : Nat) (q : Int) : Decimal := search m q 640 310

end Decimal

namespace Binary64

/-- Digits with a point after the first `n` of them, and a digit on either side of it. -/
def positional (ds : List Char) (n : Int) : List Char :=
  if n ≤ 0 then '0' :: '.' :: (List.replicate (-n).toNat '0' ++ ds)
  else if (ds.length : Int) ≤ n then ds ++ List.replicate (n.toNat - ds.length) '0' ++ ['.', '0']
  else ds.take n.toNat ++ '.' :: ds.drop n.toNat

/-- One digit before the point, and a signed exponent of at least two digits. -/
def scientific (ds : List Char) (n : Int) : List Char :=
  let e := n - 1
  let exponent := Nat.toDigits 10 e.natAbs
  let exponent := if exponent.length < 2 then '0' :: exponent else exponent
  ds.take 1 ++ (if ds.length ≤ 1 then [] else '.' :: ds.drop 1) ++
    'e' :: (if e < 0 then '-' else '+') :: exponent

/-- The shortest spelling that reads back: positional from 0.0001 to below 10 ^ 16, scientific
elsewhere. -/
def spelling : Binary64 → List Char
  | nan => "nan".toList
  | infinite neg => (if neg then "-inf" else "inf").toList
  | finite neg m q =>
    let body :=
      if m = 0 then "0.0".toList
      else
        let d := Decimal.shortest m q
        let ds := Nat.toDigits 10 d.digits
        let n := ds.length + d.exponent
        if -4 < n ∧ n ≤ 16 then positional ds n else scientific ds n
    if neg then '-' :: body else body

end Binary64
end CommentTags
