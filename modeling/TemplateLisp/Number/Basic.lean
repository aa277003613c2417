import TemplateLisp.Number.Shortest
import TemplateLisp.Number.Decimal

/-!
# Numbers

The three kinds of number and their arithmetic. Integers are unbounded; an integer meets a double as
the nearest double and a decimal exactly; a double and a decimal do not mix, except in a quotient
and in comparisons. Comparisons between kinds are exact.
-/

namespace TemplateLisp

/-- A number of the language. -/
inductive Number where
  | int (n : Int)
  | float (x : Double)
  | dec (d : Decimal)
deriving DecidableEq, Inhabited

/-- Why an operation on numbers has no result. -/
inductive NumberFault where
  /-- A double met a decimal. -/
  | mixed
  /-- An integer is out of the range of doubles. -/
  | integerTooLarge
  /-- The quotient of two integers is out of the range of doubles. -/
  | quotientTooLarge
  /-- The divisor is zero. -/
  | zeroDivisor
  /-- A decimal operation signalled a condition. -/
  | decimal (c : DecimalCondition)
deriving DecidableEq, Inhabited

namespace Number

/-- Lifts the outcome of a decimal operation. -/
def ofDecimal : Except DecimalCondition Decimal → Except NumberFault Number
  | .ok d => .ok (.dec d)
  | .error c => .error (.decimal c)

/-- The nearest double of an integer operand. -/
def doubleOfInt (n : Int) : Except NumberFault Double :=
  match Double.ofInt? n with
  | some x => .ok x
  | none => .error .integerTooLarge

/-- Applies the operation of the kind that two operands have in common. -/
def combine (onInt : Int → Int → Int) (onDouble : Double → Double → Double)
    (onDecimal : Decimal → Decimal → Except DecimalCondition Decimal) :
    Number → Number → Except NumberFault Number
  | .int a, .int b => .ok (.int (onInt a b))
  | .int a, .float y => (doubleOfInt a).map fun x => .float (onDouble x y)
  | .float x, .int b => (doubleOfInt b).map fun y => .float (onDouble x y)
  | .float x, .float y => .ok (.float (onDouble x y))
  | .int a, .dec y => ofDecimal (onDecimal (.ofInt a) y)
  | .dec x, .int b => ofDecimal (onDecimal x (.ofInt b))
  | .dec x, .dec y => ofDecimal (onDecimal x y)
  | .float _, .dec _ => .error .mixed
  | .dec _, .float _ => .error .mixed

/-- The sum. -/
def add : Number → Number → Except NumberFault Number := combine (· + ·) Double.add Decimal.add

/-- The difference. -/
def sub : Number → Number → Except NumberFault Number := combine (· - ·) Double.sub Decimal.sub

/-- The product. -/
def mul : Number → Number → Except NumberFault Number := combine (· * ·) Double.mul Decimal.mul

/-- The negated number. -/
def neg : Number → Except NumberFault Number
  | .int n => .ok (.int (-n))
  | .float x => .ok (.float x.neg)
  | .dec d => ofDecimal d.neg

/-- Whether the number is a zero of its kind. -/
def isZero : Number → Bool
  | .int n => n = 0
  | .float (.finite _ m _) => m = 0
  | .dec (.finite _ c _) => c = 0
  | _ => false

/-- The exact decimal of a number. -/
def toDecimal : Number → Decimal
  | .int n => .ofInt n
  | .float x => .ofDouble x
  | .dec d => d

/-- The correctly rounded quotient of two integers. -/
def divideInts (a b : Int) : Except NumberFault Number :=
  match Double.ofQuotient ((a < 0) != (b < 0)) a.natAbs b.natAbs with
  | .infinite _ => .error .quotientTooLarge
  | x => .ok (.float x)

/-- The quotient. An exact quotient of integers is an integer; a decimal on either side makes the
quotient a decimal. -/
def div (a b : Number) : Except NumberFault Number :=
  if b.isZero then .error .zeroDivisor
  else
    match a, b with
    | .int m, .int n => if Int.fmod m n = 0 then .ok (.int (Int.fdiv m n)) else divideInts m n
    | .dec _, _ => ofDecimal (a.toDecimal.div b.toDecimal)
    | _, .dec _ => ofDecimal (a.toDecimal.div b.toDecimal)
    | .int m, .float y => (doubleOfInt m).map fun x => .float (x.div y)
    | .float x, .int n => (doubleOfInt n).map fun y => .float (x.div y)
    | .float x, .float y => .ok (.float (x.div y))

/-- The remainder. It has the sign of the divisor, save for decimals, where it has that of the
dividend. -/
def mod (a b : Number) : Except NumberFault Number :=
  if b.isZero then .error .zeroDivisor else combine Int.fmod Double.mod Decimal.rem a b

/-! ## Comparison -/

/-- The place of a number in the order of all numbers; not-a-number has none. -/
inductive Magnitude where
  | negativeInfinity
  | finite (q : Rat)
  | positiveInfinity
deriving DecidableEq

/-- Whether one place lies strictly below another. -/
def Magnitude.lt : Magnitude → Magnitude → Bool
  | .finite p, .finite q => p < q
  | .negativeInfinity, .negativeInfinity => false
  | .negativeInfinity, _ => true
  | .finite _, .positiveInfinity => true
  | _, _ => false

/-- The place of a number in the order, exactly. -/
def magnitude? : Number → Option Magnitude
  | .int n => some (.finite (Rat.ofInt n))
  | .float (.infinite s) => some (if s then .negativeInfinity else .positiveInfinity)
  | .float x => x.toRat?.map .finite
  | .dec (.infinite s) => some (if s then .negativeInfinity else .positiveInfinity)
  | .dec d => d.toRat?.map .finite

/-- Equality by value; not-a-number equals nothing. -/
def eqv (a b : Number) : Bool :=
  match a, b with
  | .int m, .int n => m = n
  | _, _ =>
    match a.magnitude?, b.magnitude? with
    | some x, some y => x = y
    | _, _ => false

/-- Whether the number is a decimal. -/
def isDecimal : Number → Bool
  | .dec _ => true
  | _ => false

/-- Whether the number is none at all. -/
def isNan : Number → Bool
  | .float (.nan _) => true
  | .dec (.nan _) => true
  | _ => false

/-- Order by value. Not-a-number is not below anything, and beside a decimal it cannot be ordered at
all. -/
def lt (a b : Number) : Except NumberFault Bool :=
  if (a.isDecimal || b.isDecimal) && (a.isNan || b.isNan) then .error (.decimal .invalidOperation)
  else
    match a, b with
    | .int m, .int n => .ok (m < n)
    | _, _ =>
      match a.magnitude?, b.magnitude? with
      | some x, some y => .ok (x.lt y)
      | _, _ => .ok false

/-- Whether `a` lies below `b` or equals it, by value. -/
def le (a b : Number) : Except NumberFault Bool :=
  (lt a b).map (· || eqv a b)

/-! ## Text -/

/-- The greatest number of digits an integer may have when it is turned into text or read. -/
def maxDigits : Nat := 4300

/-- The first natural number that has too many digits. -/
def digitBound : Nat := Nat.pow 10 maxDigits

/-- The decimal text of an integer, unless it has too many digits. -/
def intText? (n : Int) : Option String :=
  if n.natAbs < digitBound then some (toString n) else none

end Number

end TemplateLisp
