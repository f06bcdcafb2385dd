import TagTree.Binary64

/-!
# Decimal text of binary64 numbers

Reading rounds a decimal to the nearest binary64 number. Writing gives the fewest
digits that read back, the nearest such decimal among them; the exponent form is
used below `10 ^ -4` and from `10 ^ 16` on.
-/

namespace TagTree

namespace Double

/-! ### Reading -/

/-- `± digits * 10 ^ exponent`, correctly rounded. Far outside the range of
finite numbers the answer is known without forming the power of ten. -/
def ofDecimal (negative : Bool) (digits : Nat) (exponent : Int) : Double :=
  if digits = 0 then zero negative else
    let magnitude : Int := (Nat.repr digits).length + exponent
    if 310 < magnitude then .infinite negative
    else if magnitude < -330 then zero negative
    else ofRatio negative (digits * Nat.pow 10 exponent.toNat)
      (Nat.pow 10 (-exponent).toNat)

/-! ### The shortest digits -/

/-- Number of digits before the decimal point of `m * 2 ^ e`; zero or less when
the value is below one tenth of a unit. -/
def decimalPoint (m : Nat) (e : Int) : Int :=
  let top : Int := (m.log2 : Int) + e
  let guess : Int := (top * 30103) / 100000 + 1
  if m * Nat.pow 2 e.toNat * Nat.pow 10 (-guess).toNat <
      Nat.pow 10 guess.toNat * Nat.pow 2 (-e).toNat
  then guess else guess + 1

/-- Multiple of `10 ^ p` that rounds to the canonical number `m * 2 ^ e`, nearest to
it of the two around it, a tie to the even one. `none` when neither reads back. -/
def gridPoint? (m : Nat) (e p : Int) : Option Nat :=
  let unit : Nat := Nat.pow 2 (e - 2).toNat * Nat.pow 10 (-p).toNat
  let den : Nat := Nat.pow 2 (2 - e).toNat * Nat.pow 10 p.toNat
  let value := 4 * m * unit
  let low := (if m = Nat.pow 2 52 ∧ leastExponent < e then 4 * m - 1 else 4 * m - 2) * unit
  let high := (4 * m + 2) * unit
  let reads (x : Nat) : Bool :=
    if m % 2 = 0 then low ≤ x * den ∧ x * den ≤ high else low < x * den ∧ x * den < high
  let below := value / den
  let above := below + 1
  let toBelow := value - below * den
  let toAbove := above * den - value
  match decide (below ≠ 0) && reads below, reads above with
  | true, true =>
    some (if toBelow < toAbove ∨ (toBelow = toAbove ∧ below % 2 = 0) then below else above)
  | true, false => some below
  | false, true => some above
  | false, false => none

def dropZeros : Nat → Nat → Nat × Nat
  | 0, d => (d, 0)
  | fuel + 1, d =>
    if d ≠ 0 ∧ d % 10 = 0 then
      let (rest, k) := dropZeros fuel (d / 10)
      (rest, k + 1)
    else (d, 0)

/-- The shortest decimal `digits * 10 ^ exponent` that reads back as `m * 2 ^ e`;
seventeen digits always do. -/
def shortest (m : Nat) (e : Int) : Nat × Int :=
  let point := decimalPoint m e
  let found := (List.range 17).findSome? fun k =>
    let p := point - (k + 1 : Nat)
    (gridPoint? m e p).map fun d => (d, p)
  match found with
  | some (d, p) =>
    let (digits, zeros) := dropZeros 17 d
    (digits, p + zeros)
  | none => (m, e)

/-! ### Text -/

def zeros (n : Nat) : String := String.ofList (List.replicate n '0')

def exponentText (e : Int) : String :=
  let digits := Nat.repr e.natAbs
  (if e < 0 then "-" else "+") ++ zeros (2 - digits.length) ++ digits

def layout (digits : List Char) (point : Int) : String :=
  let size : Int := digits.length
  if point ≤ -4 ∨ 16 < point then
    let rest := digits.drop 1
    String.ofList (digits.take 1)
      ++ (if rest.isEmpty then "" else "." ++ String.ofList rest)
      ++ "e" ++ exponentText (point - 1)
  else if point ≤ 0 then
    "0." ++ zeros (-point).toNat ++ String.ofList digits
  else if size ≤ point then
    String.ofList digits ++ zeros (point - size).toNat ++ ".0"
  else
    String.ofList (digits.take point.toNat) ++ "." ++ String.ofList (digits.drop point.toNat)

def signText (negative : Bool) : String := if negative then "-" else ""

def toText : Double → String
  | .infinite negative => signText negative ++ "inf"
  | .finite negative m e =>
    if m = 0 then signText negative ++ "0.0" else
      let (d, p) := shortest m e
      let digits := (Nat.repr d).toList
      signText negative ++ layout digits (digits.length + p)

end Double

end TagTree
