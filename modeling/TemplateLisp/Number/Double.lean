import TemplateLisp.Number.Rounding

/-!
# Double-precision numbers

A finite double is a sign, a mantissa below `2 ^ 53` and a binary exponent of at least `-1074`.
Every operation takes the exact result, a quotient of two natural numbers, through the one rounding
function `Double.ofQuotient`.

Not-a-number is never equal to itself by value, but it is the same object as itself, and that can be
seen: a list that holds one is equal to itself. So each one that arises carries a mark of its own.
-/

namespace TemplateLisp

/-- A binary floating-point number of 53 bits. -/
inductive Double where
  /-- `± mantissa * 2 ^ exponent`. -/
  | finite (negative : Bool) (mantissa : Nat) (exponent : Int)
  | infinite (negative : Bool)
  /-- Not a number; `mark` tells the ones that arose at different times apart. -/
  | nan (mark : Nat)
deriving DecidableEq, Inhabited

namespace Double

/-- The least exponent, that of the numbers nearest to zero. -/
def minExponent : Int := -1074

/-- The greatest exponent of a normalised finite number. -/
def maxExponent : Int := 971

/-- The zero of the given sign. -/
def zero (negative : Bool) : Double := .finite negative 0 minExponent

/-- The exponent at which `num / den` has a mantissa of 53 bits, or the least exponent. -/
def exponentFor (num den : Nat) : Int :=
  let k : Int := (Nat.log2 num : Int) - (Nat.log2 den : Int)
  let atLeast : Bool := if 0 ≤ k then den * Nat.pow 2 k.toNat ≤ num
    else den ≤ num * Nat.pow 2 (-k).toNat
  max (if atLeast then k - 52 else k - 53) minExponent

/-- The mantissa of `num / den` at the given exponent, rounded. -/
def mantissaAt (num den : Nat) (exponent : Int) : Nat :=
  if 0 ≤ exponent then roundQuotient num (den * Nat.pow 2 exponent.toNat)
  else roundQuotient (num * Nat.pow 2 (-exponent).toNat) den

/-- The double nearest to `± num / den`, a half going to the even mantissa. -/
def ofQuotient (negative : Bool) (num den : Nat) : Double :=
  if num = 0 then zero negative
  else
    let e := exponentFor num den
    let m := mantissaAt num den e
    let (m, e) := if m = Nat.pow 2 53 then (Nat.pow 2 52, e + 1) else (m, e)
    if maxExponent < e then .infinite negative else .finite negative m e

/-- The double nearest to `± m * 2 ^ e`. -/
def ofScaled (negative : Bool) (m : Nat) (e : Int) : Double :=
  if 0 ≤ e then ofQuotient negative (m * Nat.pow 2 e.toNat) 1
  else ofQuotient negative m (Nat.pow 2 (-e).toNat)

/-- The double nearest to an integer, unless the integer is out of range. -/
def ofInt? (n : Int) : Option Double :=
  match ofQuotient (n < 0) n.natAbs 1 with
  | .infinite _ => none
  | x => some x

/-- A finite number with its sign, as an integer multiple of `2 ^ e`, for `e` at most
its exponent. -/
def scaledTo (negative : Bool) (m : Nat) (exponent e : Int) : Int :=
  let n : Int := m * Nat.pow 2 (exponent - e).toNat
  if negative then -n else n

/-- The exact value of a finite double. -/
def toRat? : Double → Option Rat
  | .finite negative m e =>
    let n : Int := if negative then -(m : Int) else m
    some (if 0 ≤ e then Rat.ofInt (n * Nat.pow 2 e.toNat) else mkRat n (Nat.pow 2 (-e).toNat))
  | _ => none

/-- The number with its sign turned. -/
def neg : Double → Double
  | .finite s m e => .finite (!s) m e
  | .infinite s => .infinite (!s)
  | .nan _ => .nan 0

/-- The rounded sum. A zero sum is negative only if both terms are. -/
def add : Double → Double → Double
  | .finite s m e, .finite s' m' e' =>
    let low := min e e'
    let sum := scaledTo s m e low + scaledTo s' m' e' low
    if sum = 0 then zero (s && s') else ofScaled (sum < 0) sum.natAbs low
  | .infinite s, .finite .. => .infinite s
  | .finite .., .infinite s => .infinite s
  | .infinite s, .infinite s' => if s = s' then .infinite s else .nan 0
  | _, _ => .nan 0

/-- The rounded difference. -/
def sub (x y : Double) : Double := add x (neg y)

/-- The rounded product. -/
def mul : Double → Double → Double
  | .finite s m e, .finite s' m' e' => ofScaled (s != s') (m * m') (e + e')
  | .infinite s, .finite s' m _ => if m = 0 then .nan 0 else .infinite (s != s')
  | .finite s m _, .infinite s' => if m = 0 then .nan 0 else .infinite (s != s')
  | .infinite s, .infinite s' => .infinite (s != s')
  | _, _ => .nan 0

/-- The rounded quotient. -/
def div : Double → Double → Double
  | .finite s m e, .finite s' m' e' =>
    if m' = 0 then (if m = 0 then .nan 0 else .infinite (s != s'))
    else
      let d := e - e'
      if 0 ≤ d then ofQuotient (s != s') (m * Nat.pow 2 d.toNat) m'
      else ofQuotient (s != s') m (m' * Nat.pow 2 (-d).toNat)
  | .infinite s, .finite s' _ _ => .infinite (s != s')
  | .finite s _ _, .infinite s' => zero (s != s')
  | _, _ => .nan 0

/-- The remainder that has the sign of the divisor: the remainder of truncating division, moved by
one divisor when its sign is the other one. A zero remainder takes the divisor's sign. -/
def mod : Double → Double → Double
  | .finite s m e, .finite s' m' e' =>
    if m' = 0 then .nan 0
    else
      let low := min e e'
      let r := (m * Nat.pow 2 (e - low).toNat) % (m' * Nat.pow 2 (e' - low).toNat)
      if r = 0 then zero s'
      else if s = s' then ofScaled s r low
      else add (ofScaled s r low) (.finite s' m' e')
  | .finite s m e, .infinite s' =>
    if m = 0 then zero s' else if s = s' then .finite s m e else .infinite s'
  | _, _ => .nan 0

/-- The integer next to a finite number on the side of zero. -/
def truncate? : Double → Option Int
  | .finite s m e =>
    let n : Nat := if 0 ≤ e then m * Nat.pow 2 e.toNat else m / Nat.pow 2 (-e).toNat
    some (if s then -(n : Int) else n)
  | _ => none

end Double

end TemplateLisp
