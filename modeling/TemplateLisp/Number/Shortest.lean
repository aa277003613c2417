import TemplateLisp.Number.Double

/-!
# Doubles as text

A double is written with the fewest digits that read back as the same double; of the candidates of
that length the nearest one is taken. Numbers from `0.0001` up to sixteen digits before the point
are written positionally, the others with an exponent of at least two digits.
-/

namespace TemplateLisp.Double

/-- The decimal exponent `p` with `10 ^ (p - 1) ≤ num / den < 10 ^ p`, for a positive quotient. -/
def decimalPoint (num den : Nat) : Int :=
  if den ≤ num then decimalLength (num / den)
  else 1 - (decimalLength ((den + num - 1) / num - 1) : Int)

/-- `num / den` divided by `10 ^ e`, as a quotient again. -/
def scaleDown (num den : Nat) (e : Int) : Nat × Nat :=
  if 0 ≤ e then (num, den * Nat.pow 10 e.toNat) else (num * Nat.pow 10 (-e).toNat, den)

/-- The double nearest to `± n * 10 ^ e`. -/
def ofDecimal (negative : Bool) (n : Nat) (e : Int) : Double :=
  if 0 ≤ e then ofQuotient negative (n * Nat.pow 10 e.toNat) 1
  else ofQuotient negative n (Nat.pow 10 (-e).toNat)

/-- The multiple of `10 ^ e` nearest to `num / den` among its two neighbours that reads
back as `x`. -/
def hitAt? (x : Double) (num den : Nat) (e : Int) : Option Nat :=
  let (n, d) := scaleDown num den e
  let low := n / d
  let high := low + 1
  let lowHits := low != 0 && ofDecimal false low e == x
  let highHits := ofDecimal false high e == x
  if lowHits && highHits then
    if 2 * n < (low + high) * d then some low
    else if (low + high) * d < 2 * n then some high
    else if low % 2 = 0 then some low else some high
  else if lowHits then some low
  else if highHits then some high
  else none

/-- The first hit among the lengths from `k` on, `tries` of them, with its exponent. -/
def searchDigits (x : Double) (num den : Nat) (p : Int) : (tries k : Nat) → Nat × Int
  | 0, k => ((scaleDown num den (p - k)).1 / (scaleDown num den (p - k)).2, p - k)
  | tries + 1, k =>
    match hitAt? x num den (p - k) with
    | some n => (n, p - k)
    | none => searchDigits x num den p tries (k + 1)

/-- The digits without trailing zeros, and the exponent raised to match; `fuel` bounds the zeros. -/
def dropZeros : (fuel : Nat) → Nat → Int → Nat × Int
  | 0, n, e => (n, e)
  | fuel + 1, n, e => if n != 0 && n % 10 == 0 then dropZeros fuel (n / 10) (e + 1) else (n, e)

/-- The shortest decimal `n * 10 ^ e` that reads back as the positive number `m * 2 ^ exponent`. -/
def shortest (m : Nat) (exponent : Int) : Nat × Int :=
  let num := if 0 ≤ exponent then m * Nat.pow 2 exponent.toNat else m
  let den := if 0 ≤ exponent then 1 else Nat.pow 2 (-exponent).toNat
  let found := searchDigits (.finite false m exponent) num den (decimalPoint num den) 17 1
  dropZeros 20 found.1 found.2

/-- A run of zeros. -/
def zeros (n : Nat) : String := String.ofList (List.replicate n '0')

/-- The first point position, counted from the digits, at which a number is written positionally. -/
def leastPositional : Int := -3

/-- The last such position. -/
def greatestPositional : Int := 16

/-- An exponent: its sign and at least two digits. -/
def exponentText (e : Int) : String :=
  let digits := toString e.natAbs
  (if e < 0 then "e-" else "e+") ++ zeros (2 - digits.length) ++ digits

/-- A positive number from its digits and the exponent of the last one. -/
def decimalText (n : Nat) (e : Int) : String :=
  let digits := toString n
  let size := digits.length
  let point : Int := size + e
  if leastPositional ≤ point && point ≤ greatestPositional then
    if point ≤ 0 then "0." ++ zeros (-point).toNat ++ digits
    else if size ≤ point then digits ++ zeros (point.toNat - size) ++ ".0"
    else
      let cs := digits.toList
      String.ofList (cs.take point.toNat ++ ['.'] ++ cs.drop point.toNat)
  else
    let mark := exponentText (point - 1)
    match digits.toList with
    | [] => mark
    | [c] => String.ofList [c] ++ mark
    | c :: rest => String.ofList (c :: '.' :: rest) ++ mark

/-- The text of a double. -/
def text : Double → String
  | .nan _ => "nan"
  | .infinite negative => if negative then "-inf" else "inf"
  | .finite negative m e =>
    let body := if m = 0 then "0.0" else let (n, k) := shortest m e; decimalText n k
    if negative then "-" ++ body else body

/-- The double nearest to `± n * 10 ^ e`. Far outside the range of doubles the power of ten is not
computed. -/
def ofDigits (negative : Bool) (n : Nat) (e : Int) : Double :=
  let point : Int := e + decimalLength n
  if n = 0 then zero negative
  else if 400 < point then .infinite negative
  else if point < -400 then zero negative
  else ofDecimal negative n e

end TemplateLisp.Double
