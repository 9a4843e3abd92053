/-!
Binary floating-point numbers with 53 bits, and the one nearest to a decimal.
-/

namespace CommentTags

/-- A finite number is `m · 2 ^ q`, with `2 ^ 52 ≤ m < 2 ^ 53` or `q = -1074`; zero keeps its
sign. -/
inductive Binary64 where
  | nan
  | infinite (negative : Bool)
  | finite (negative : Bool) (m : Nat) (q : Int)
  deriving DecidableEq, Repr

def twoTo (n : Nat) : Nat := Nat.pow 2 n

def tenTo (n : Nat) : Nat := Nat.pow 10 n

/-- The quotient to the nearest integer, a half to the even neighbour. -/
def divRound (num den : Nat) : Nat :=
  let k := num / den
  let r := 2 * (num % den)
  if r < den then k
  else if den < r then k + 1
  else if k % 2 = 0 then k else k + 1

namespace Binary64

/-- The exponent at which `num / den` has 53 bits, or the least one that there is. -/
def exponentFor (num den : Nat) : Int :=
  let full : Int := (num.log2 : Int) - den.log2 - 53
  let q := if full < -1074 then -1074 else full
  if num * twoTo (-q).toNat / (den * twoTo q.toNat) < twoTo 53 then q else q + 1

/-- The number nearest to `num / den`. -/
def ofRatio (negative : Bool) (num den : Nat) : Binary64 :=
  if num = 0 then finite negative 0 (-1074)
  else
    let q := exponentFor num den
    let m := divRound (num * twoTo (-q).toNat) (den * twoTo q.toNat)
    let (m, q) := if m = twoTo 53 then (twoTo 52, q + 1) else (m, q)
    if 971 < q then infinite negative else finite negative m q

/-- The number nearest to `d · 10 ^ e`. Decimals that are far out of range are not computed. -/
def ofDecimal (negative : Bool) (d : Nat) (e : Int) : Binary64 :=
  let top := e + (Nat.toDigits 10 d).length
  if d = 0 ∨ top < -330 then finite negative 0 (-1074)
  else if 310 < top then infinite negative
  else ofRatio negative (d * tenTo e.toNat) (tenTo (-e).toNat)

end Binary64
end CommentTags
