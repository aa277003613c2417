import TemplateLisp.Number.Double

/-!
# Decimal numbers

Host data may hold decimal numbers: a sign, a coefficient and a decimal exponent, so that `1.50` and
`1.5` are equal and still printed differently. An operation computes the exact result and brings it
to 28 digits, a half going to the even digit. Operations without a sensible result fail with the
condition that they signal.
-/

namespace TemplateLisp

/-- A decimal number. -/
inductive Decimal where
  /-- `± coefficient * 10 ^ exponent`. -/
  | finite (negative : Bool) (coefficient : Nat) (exponent : Int)
  | infinite (negative : Bool)
  /-- Not a number; `mark` tells the ones that arose at different times apart. -/
  | nan (mark : Nat)
deriving DecidableEq, Inhabited

/-- Why an operation on decimal numbers has no result. -/
inductive DecimalCondition where
  /-- The operation is not defined on these operands. -/
  | invalidOperation
  /-- The integer quotient behind a remainder has too many digits. -/
  | divisionImpossible
  /-- The result is too large. -/
  | overflow
deriving DecidableEq, Inhabited

namespace Decimal

/-- How many digits a result keeps. -/
def precision : Nat := 28

/-- The greatest exponent of a leading digit. -/
def maxAdjusted : Int := 999999

/-- The least exponent of a last digit. -/
def minExponent : Int := -1000026

/-- The exponent of the leading digit. -/
def adjusted (coefficient : Nat) (exponent : Int) : Int :=
  exponent + decimalLength coefficient - 1

/-- Drops the last `k` digits, rounding to the nearest, a half to the even digit. -/
def dropDigits (coefficient k : Nat) : Nat := roundQuotient coefficient (Nat.pow 10 k)

/-- Brings an exact result to the kept number of digits and into the range of exponents. -/
def fix (negative : Bool) (coefficient : Nat) (exponent : Int) : Except DecimalCondition Decimal :=
  if coefficient = 0 then
    .ok (.finite negative 0 (min (max exponent minExponent) maxAdjusted))
  else
    let excess : Nat := decimalLength coefficient - precision
    let deficit : Nat := (minExponent - exponent).toNat
    let k := max excess deficit
    let c := if k = 0 then coefficient else dropDigits coefficient k
    let e := exponent + k
    let (c, e) := if decimalLength c ≤ precision then (c, e) else (c / 10, e + 1)
    if maxAdjusted < adjusted c e then .error .overflow else .ok (.finite negative c e)

/-- The exact decimal of an integer. -/
def ofInt (n : Int) : Decimal := .finite (n < 0) n.natAbs 0

/-- Halves `m` as long as it is even and `k` allows. -/
def reduceTwos : (k m : Nat) → Nat × Nat
  | 0, m => (m, 0)
  | k + 1, m => if m % 2 = 0 then reduceTwos k (m / 2) else (m, k + 1)

/-- The exact decimal of a double. -/
def ofDouble : Double → Decimal
  | .finite s m e =>
    if m = 0 then .finite s 0 0
    else if 0 ≤ e then .finite s (m * Nat.pow 2 e.toNat) 0
    else
      let (m, k) := reduceTwos (-e).toNat m
      .finite s (m * Nat.pow 5 k) (-(k : Int))
  | .infinite s => .infinite s
  | .nan _ => .nan 0

/-- A finite number with its sign, as a multiple of `10 ^ e`, for `e` at most its exponent. -/
def scaledTo (negative : Bool) (c : Nat) (exponent e : Int) : Int :=
  let n : Int := c * Nat.pow 10 (exponent - e).toNat
  if negative then -n else n

/-- The exact value of a finite decimal. -/
def toRat? : Decimal → Option Rat
  | .finite negative c e =>
    let n : Int := if negative then -(c : Int) else c
    some (if 0 ≤ e then Rat.ofInt (n * Nat.pow 10 e.toNat) else mkRat n (Nat.pow 10 (-e).toNat))
  | _ => none

/-- The negated number, rounded. A zero result has no sign. -/
def neg : Decimal → Except DecimalCondition Decimal
  | .finite s c e => fix (if c = 0 then false else !s) c e
  | .infinite s => .ok (.infinite (!s))
  | .nan _ => .ok (.nan 0)

/-- The sum, rounded. A zero sum is negative only if both terms are. -/
def add : Decimal → Decimal → Except DecimalCondition Decimal
  | .nan _, _ => .ok (.nan 0)
  | _, .nan _ => .ok (.nan 0)
  | .infinite s, .infinite s' => if s = s' then .ok (.infinite s) else .error .invalidOperation
  | .infinite s, .finite .. => .ok (.infinite s)
  | .finite .., .infinite s => .ok (.infinite s)
  | .finite s c e, .finite s' c' e' =>
    let low := min e e'
    let sum := scaledTo s c e low + scaledTo s' c' e' low
    if sum = 0 then fix (s && s') 0 low else fix (sum < 0) sum.natAbs low

/-- The number with its sign turned and nothing else changed. -/
def flip : Decimal → Decimal
  | .finite s c e => .finite (!s) c e
  | .infinite s => .infinite (!s)
  | .nan m => .nan m

/-- The difference, rounded. -/
def sub (x y : Decimal) : Except DecimalCondition Decimal := add x y.flip

/-- The product, rounded. -/
def mul : Decimal → Decimal → Except DecimalCondition Decimal
  | .nan _, _ => .ok (.nan 0)
  | _, .nan _ => .ok (.nan 0)
  | .infinite s, .infinite s' => .ok (.infinite (s != s'))
  | .infinite s, .finite s' c _ =>
    if c = 0 then .error .invalidOperation else .ok (.infinite (s != s'))
  | .finite s c _, .infinite s' =>
    if c = 0 then .error .invalidOperation else .ok (.infinite (s != s'))
  | .finite s c e, .finite s' c' e' => fix (s != s') (c * c') (e + e')

/-- Drops trailing zeros of `c` while its exponent is below `ideal`; `fuel` bounds the zeros. -/
def raiseTo (ideal : Int) : (fuel : Nat) → Nat → Int → Nat × Int
  | 0, c, e => (c, e)
  | fuel + 1, c, e =>
    if e < ideal && c % 10 == 0 then raiseTo ideal fuel (c / 10) (e + 1) else (c, e)

/-- The quotient, rounded; exact quotients have an exponent as near to the ideal one as they can. -/
def div : Decimal → Decimal → Except DecimalCondition Decimal
  | .nan _, _ => .ok (.nan 0)
  | _, .nan _ => .ok (.nan 0)
  | .infinite _, .infinite _ => .error .invalidOperation
  | .infinite s, .finite s' _ _ => .ok (.infinite (s != s'))
  | .finite s _ _, .infinite s' => .ok (.finite (s != s') 0 minExponent)
  | .finite s c e, .finite s' c' e' =>
    if c' = 0 then .error .invalidOperation
    else if c = 0 then fix (s != s') 0 (e - e')
    else
      let shift : Int := (decimalLength c' : Int) - decimalLength c + precision + 1
      let num := if 0 ≤ shift then c * Nat.pow 10 shift.toNat else c
      let den := if 0 ≤ shift then c' else c' * Nat.pow 10 (-shift).toNat
      let q := num / den
      let low := e - e' - shift
      if num % den = 0 then
        let (q, low) := raiseTo (e - e') (precision + 2) q low
        fix (s != s') q low
      -- A sticky last digit keeps the second rounding right.
      else fix (s != s') (if q % 5 = 0 then q + 1 else q) low

/-- The remainder of truncating division; it has the sign of the dividend. -/
def rem : Decimal → Decimal → Except DecimalCondition Decimal
  | .nan _, _ => .ok (.nan 0)
  | _, .nan _ => .ok (.nan 0)
  | .infinite _, _ => .error .invalidOperation
  | .finite s c e, .infinite _ => fix s c e
  | .finite s c e, .finite _ c' e' =>
    if c' = 0 then .error .invalidOperation
    else
      let low := min e e'
      if c = 0 then fix s 0 low
      else if adjusted c e - adjusted c' e' ≤ -2 then fix s (c * Nat.pow 10 (e - low).toNat) low
      else if precision < adjusted c e - adjusted c' e' then .error .divisionImpossible
      else
        let a := c * Nat.pow 10 (e - low).toNat
        let b := c' * Nat.pow 10 (e' - low).toNat
        if a / b < Nat.pow 10 precision then fix s (a % b) low else .error .divisionImpossible

/-! ## Text -/

/-- The text of a decimal: positional while the exponent is not positive and at most five zeros
follow the point, otherwise with one digit before the point and an exponent. -/
def text : Decimal → String
  | .nan _ => "NaN"
  | .infinite negative => if negative then "-Infinity" else "Infinity"
  | .finite negative c e =>
    let digits := (toString c).toList
    let size := digits.length
    let left : Int := e + size
    let point : Int := if e ≤ 0 && -6 < left then left else 1
    let body : List Char :=
      if point ≤ 0 then '0' :: '.' :: List.replicate (-point).toNat '0' ++ digits
      else if size ≤ point then digits ++ List.replicate (point.toNat - size) '0'
      else digits.take point.toNat ++ '.' :: digits.drop point.toNat
    let exponent : String :=
      if left = point then ""
      else if left < point then "E" ++ toString (left - point) else "E+" ++ toString (left - point)
    (if negative then "-" else "") ++ String.ofList body ++ exponent

/-- Reads an exponent: an optional sign and digits. -/
def readExponent? : List Char → Option Int
  | '-' :: ds => (String.ofList ds).toNat?.map fun n => -(n : Int)
  | '+' :: ds => (String.ofList ds).toNat?.map fun n => (n : Int)
  | ds => (String.ofList ds).toNat?.map fun n => (n : Int)

/-- Reads a number without its sign: digits with an optional point and an optional exponent. -/
def readUnsigned? (negative : Bool) (s : List Char) : Option Decimal :=
  let whole := s.takeWhile Char.isDigit
  let rest := s.dropWhile Char.isDigit
  let fraction := match rest with | '.' :: r => r.takeWhile Char.isDigit | _ => []
  let rest := match rest with | '.' :: r => r.dropWhile Char.isDigit | _ => rest
  let exponent? : Option Int :=
    match rest with
    | [] => some 0
    | 'e' :: r => readExponent? r
    | 'E' :: r => readExponent? r
    | _ => none
  if whole.isEmpty && fraction.isEmpty then none
  else exponent?.map fun e =>
    .finite negative ((String.ofList (whole ++ fraction)).toNat?.getD 0) (e - fraction.length)

/-- Reads a number that may be a named special value. -/
def readBody? (negative : Bool) (s : List Char) : Option Decimal :=
  let name := (String.ofList s).toLower
  if name = "infinity" || name = "inf" then some (.infinite negative)
  else if name = "nan" then some (.nan 0)
  else readUnsigned? negative s

/-- Reads the text of a decimal number. -/
def ofText? (s : String) : Option Decimal :=
  match s.toList with
  | '-' :: cs => readBody? true cs
  | '+' :: cs => readBody? false cs
  | cs => readBody? false cs

end Decimal

end TemplateLisp
