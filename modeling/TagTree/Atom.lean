import TagTree.Binary64.Decimal
import TagTree.Text.Quoted

/-!
# Atoms

The values without parts: the absent value, truth values, whole and floating-point
numbers, text, bytes, ambiguity policies, and the answer of a comparison that does not
apply. Numbers of different kinds are equal when they are the same number; a truth value
counts as zero or one. A whole number is read from a text, and written as one, as long as
its digits are within a limit.
-/

namespace TagTree

inductive Policy where
  | silent
  | diagnostic
  | strict
  deriving DecidableEq, Repr

namespace Policy

def name : Policy → String
  | silent => "SILENT"
  | diagnostic => "DIAGNOSTIC"
  | strict => "STRICT"

def rank : Policy → Nat
  | silent => 1
  | diagnostic => 2
  | strict => 3

def all : List Policy := [silent, diagnostic, strict]

def ofName? (name : String) : Option Policy := all.find? fun p => p.name == name

def text (p : Policy) : String := "AmbiguousBlockPolicy." ++ p.name

end Policy

/-- A value without parts. Each not-a-number has an identity, since it equals
nothing and yet is the same object as itself. -/
inductive Atom where
  | none
  | bool (b : Bool)
  | int (n : Int)
  | float (x : Double)
  | nan (id : Nat)
  | text (s : String)
  | bytes (b : List UInt8)
  | policy (p : Policy)
  | undecided
  deriving DecidableEq, Repr

/-- The most digits of a whole number that is read from a text or written as one. -/
def digitLimit : Nat := 4300

namespace Atom

def ofTruth (b : Bool) : Int := if b then 1 else 0

def int? : Atom → Option Int
  | .bool b => some (ofTruth b)
  | .int n => some n
  | _ => Option.none

def typeName : Atom → String
  | none => "NoneType"
  | bool _ => "bool"
  | int _ => "int"
  | float _ | nan _ => "float"
  | text _ => "str"
  | bytes _ => "bytes"
  | policy _ => "AmbiguousBlockPolicy"
  | undecided => "NotImplementedType"

/-- Whether an atom counts as true: the absent value, zero and empty text do not. -/
def truthy : Atom → Bool
  | none => false
  | bool b => b
  | int n => n != 0
  | float x => !x.isZero
  | nan _ => true
  | text s => !s.isEmpty
  | bytes b => !b.isEmpty
  | policy _ | undecided => true

def truthText (b : Bool) : String := if b then "True" else "False"

def plainText : Atom → String
  | none => "None"
  | bool b => truthText b
  | int n => toString n
  | float x => x.toText
  | nan _ => "nan"
  | text s => s
  | bytes b => Text.quotedBytes b
  | policy p => p.text
  | undecided => "NotImplemented"

def isTooLong : Atom → Bool
  | int n => decide (digitLimit < (Nat.toDigits 10 n.natAbs).length)
  | _ => false

def shown : Atom → String
  | text s => Text.quoted s
  | policy p => "<" ++ p.text ++ ": " ++ Nat.repr p.rank ++ ">"
  | a => a.plainText

def equal : Atom → Atom → Bool
  | none, none => true
  | text s, text t => s == t
  | bytes a, bytes b => a == b
  | policy p, policy q => p == q
  | undecided, undecided => true
  | float x, float y => x.sameNumber y
  | float x, b => b.int?.any x.isInt
  | a, float y => a.int?.any y.isInt
  | a, b =>
    match a.int?, b.int? with
    | some m, some n => m == n
    | _, _ => false

def same : Atom → Atom → Bool
  | nan i, nan j => i == j
  | a, b => a.equal b

end Atom

end TagTree
