/-!
# Binary64 numbers, exactly

A floating-point number is kept as the integers that define it, so rounding,
comparison and printing are exact arithmetic on `Nat` and `Int`. Not-a-number
is no value of this type: it equals nothing, itself included, and is handled
where values are compared.
-/

namespace TagTree

/-- A binary64 number: `± mantissa * 2 ^ exponent`, or an infinity. The finite
numbers produced here are canonical: `mantissa < 2 ^ 53`, and either
`2 ^ 52 ≤ mantissa` or `exponent = -1074`. -/
inductive Double where
  | finite (negative : Bool) (mantissa : Nat) (exponent : Int)
  | infinite (negative : Bool)
  deriving DecidableEq, Repr

namespace Double

def leastExponent : Int := -1074

def greatestExponent : Int := 971

def zero (negative : Bool) : Double := .finite negative 0 leastExponent

/-! ### Rounding a quotient -/

/-- Quotient to the nearest integer, a tie to the even one. -/
def roundHalfEven (num den : Nat) : Nat :=
  let q := num / den
  let r := num % den
  if den < 2 * r ∨ (2 * r = den ∧ q % 2 = 1) then q + 1 else q

def scaled (num den : Nat) (e : Int) : Nat × Nat :=
  (num * Nat.pow 2 (-e).toNat, den * Nat.pow 2 e.toNat)

/-- The exponent at which `num / den` has a 53-bit integer part, or the least
exponent if that is greater. -/
def exponentFor (num den : Nat) : Int :=
  let guess : Int := max leastExponent ((num.log2 : Int) - den.log2 - 53)
  let parts := scaled num den guess
  if parts.1 / parts.2 < Nat.pow 2 53 then guess else guess + 1

/-- The binary64 number nearest to `± num / den`, a tie to the even mantissa; a
quotient beyond the greatest finite number gives an infinity. -/
def ofRatio (negative : Bool) (num den : Nat) : Double :=
  if num = 0 then zero negative else
    let e := exponentFor num den
    let parts := scaled num den e
    let m := roundHalfEven parts.1 parts.2
    let rounded : Nat × Int := if m = Nat.pow 2 53 then (Nat.pow 2 52, e + 1) else (m, e)
    if greatestExponent < rounded.2 then .infinite negative
    else .finite negative rounded.1 rounded.2

/-- The quotient of two integers, correctly rounded. The sign of a zero quotient
is that of the division. `none` when it exceeds the finite range. -/
def ofQuotient? (num den : Int) : Option Double :=
  let negative := (decide (num < 0)) != (decide (den < 0))
  match ofRatio (num ≠ 0 ∧ negative) num.natAbs den.natAbs with
  | .infinite _ => none
  | .finite s m e => some (.finite (if num = 0 then decide (den < 0) else s) m e)

/-! ### Comparison -/

def signedMantissa (negative : Bool) (mantissa : Nat) : Int :=
  if negative then -(mantissa : Int) else mantissa

def compareInt : Double → Int → Ordering
  | .infinite negative, _ => if negative then .lt else .gt
  | .finite s m e, n =>
    compare (signedMantissa s m * Int.pow 2 e.toNat) (n * Int.pow 2 (-e).toNat)

/-- Equality of numbers: both zeros are equal, and canonical forms decide the rest. -/
def sameNumber : Double → Double → Bool
  | .finite _ 0 _, .finite _ 0 _ => true
  | x, y => decide (x = y)

def less : Double → Double → Bool
  | .infinite s, .infinite t => s && !t
  | .infinite s, .finite .. => s
  | .finite .., .infinite t => !t
  | .finite s m e, .finite t n f =>
    decide (signedMantissa s m * Int.pow 2 (e - f).toNat <
      signedMantissa t n * Int.pow 2 (f - e).toNat)

def isInt (x : Double) (n : Int) : Bool := x.compareInt n == .eq

def isZero : Double → Bool
  | .finite _ m _ => m == 0
  | .infinite _ => false

end Double

end TagTree
