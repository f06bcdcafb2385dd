import TagTree.Fault

/-!
# Quotients

Whole numbers have a correctly rounded quotient, which must be finite. Where one of
two numbers is a floating-point number, the other is rounded to one first, and the
quotient follows binary64 arithmetic.
-/

namespace TagTree

namespace Double

def quotient? : Double → Double → Option Double
  | .infinite _, .infinite _ => none
  | .infinite s, .finite t _ _ => some (.infinite (s != t))
  | .finite s _ _, .infinite t => some (.zero (s != t))
  | .finite s m e, .finite t n f =>
    if m = 0 then some (.zero (s != t))
    else some (.ofRatio (s != t) (m * Nat.pow 2 (e - f).toNat) (n * Nat.pow 2 (f - e).toNat))

def ofInt? (n : Int) : Option Double :=
  match ofRatio (decide (n < 0)) n.natAbs 1 with
  | .infinite _ => none
  | x => some x

end Double

inductive Number where
  | whole (n : Int)
  | float (x : Double)
  | notANumber
  deriving DecidableEq, Repr

def Atom.number? : Atom → Option Number
  | .float x => some (.float x)
  | .nan _ => some .notANumber
  | a => a.int?.map Number.whole

def Number.toDouble : Number → Except Fault (Option Double)
  | .whole n =>
    match Double.ofInt? n with
    | some x => .ok (some x)
    | none => .error .tooLargeForFloat
  | .float x => .ok (some x)
  | .notANumber => .ok none

def Number.dividedBy : Number → Number → Except Fault Atom
  | .whole m, .whole n =>
    match Double.ofQuotient? m n with
    | some x => .ok (.float x)
    | none => .error .quotientTooLarge
  | a, b => do
    let x ← a.toDouble
    let y ← b.toDouble
    match x, y with
    | some x, some y => pure (((x.quotient? y).map Atom.float).getD (.nan 0))
    | _, _ => pure (.nan 0)

def Value.dividedBy (v w : Value) : Except Fault Atom :=
  match v, w with
  | .atom a, .atom b =>
    match a.number?, b.number? with
    | some m, some n => m.dividedBy n
    | _, _ => .error (.notDivisible v.typeName w.typeName)
  | v, w => .error (.notDivisible v.typeName w.typeName)

end TagTree
