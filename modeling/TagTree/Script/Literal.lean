import TagTree.Fault
import TagTree.Script
import TagTree.Text.Quoted

/-!
# Literals of scripts

Numbers, bytes and policies as they are written in scripts. Numbers may have blanks
around them and single underscores between digits; words for the infinities and for
not-a-number are read without regard to case. What cannot be read is an expression that
fails.
-/

namespace TagTree

namespace Literal

def isBlank (c : Char) : Bool := c == ' ' || ('\t' ≤ c && c ≤ '\r')

def trim (cs : List Char) : List Char :=
  ((cs.dropWhile isBlank).reverse.dropWhile isBlank).reverse

def digitsAfter : List Char → List Char × List Char
  | '_' :: c :: rest =>
    if c.isDigit then
      let (digits, rest) := digitsAfter rest
      (c :: digits, rest)
    else ([], '_' :: c :: rest)
  | c :: rest =>
    if c.isDigit then
      let (digits, rest) := digitsAfter rest
      (c :: digits, rest)
    else ([], c :: rest)
  | [] => ([], [])

def digits (cs : List Char) : List Char × List Char :=
  match cs with
  | c :: _ => if c.isDigit then digitsAfter cs else ([], cs)
  | [] => ([], [])

def number (cs : List Char) : Nat := cs.foldl (fun n c => n * 10 + (c.toNat - '0'.toNat)) 0

def sign (cs : List Char) : Bool × List Char :=
  match cs with
  | '-' :: rest => (true, rest)
  | '+' :: rest => (false, rest)
  | rest => (false, rest)

def whole? (cs : List Char) : Option (Bool × List Char) :=
  let (negative, rest) := sign cs
  match digits rest with
  | (c :: found, []) => some (negative, c :: found)
  | _ => none

def signed (x : Bool × List Char) : Int :=
  if x.1 then -(number x.2 : Int) else number x.2

/-- The exponent that ends a number; none at all counts as zero. -/
def exponent? (cs : List Char) : Option Int :=
  match cs with
  | [] => some 0
  | e :: rest => if e = 'e' ∨ e = 'E' then (whole? rest).map signed else none

def decimal? (negative : Bool) (cs : List Char) : Option Double :=
  let (whole, rest) := digits cs
  let (fraction, rest) := match rest with
    | '.' :: rest => digits rest
    | rest => ([], rest)
  if whole.isEmpty && fraction.isEmpty then none
  else (exponent? rest).map fun e =>
    Double.ofDecimal negative (number (whole ++ fraction)) (e - fraction.length)

/-! ### Expressions -/

def int (s : String) : Expr :=
  match whole? (trim s.toList) with
  | some x =>
    if digitLimit < x.2.length then
      .unreadable .value (Fault.longInteger x.2.length).message
    else .atom (.int (signed x))
  | none =>
    .unreadable .value ("invalid literal for int() with base 10: " ++ Text.quoted s)

def float (s : String) : Expr :=
  let (negative, rest) := sign (trim s.toList)
  match String.ofList (rest.map Char.toLower) with
  | "inf" | "infinity" => .atom (.float (.infinite negative))
  | "nan" => .nan
  | _ =>
    match decimal? negative rest with
    | some x => .atom (.float x)
    | none => .unreadable .value ("could not convert string to float: " ++ Text.quoted s)

def hexValue? (c : Char) : Option Nat :=
  if c.isDigit then some (c.toNat - '0'.toNat)
  else if 'a' ≤ c ∧ c ≤ 'f' then some (c.toNat - 'a'.toNat + 10)
  else if 'A' ≤ c ∧ c ≤ 'F' then some (c.toNat - 'A'.toNat + 10)
  else none

/-- The bytes that pairs of hexadecimal digits write, with blanks between them, or the
number of characters that remain where they do not. -/
def pairs : List Char → Except Nat (List UInt8)
  | [] => .ok []
  | a :: rest =>
    if isBlank a then pairs rest
    else match hexValue? a, rest with
      | none, rest => .error (rest.length + 1)
      | some _, [] => .error 0
      | some x, b :: rest =>
        match hexValue? b with
        | none => .error (rest.length + 1)
        | some y => (pairs rest).map ((x * 16 + y).toUInt8 :: ·)

def bytes (s : String) : Expr :=
  match pairs s.toList with
  | .ok b => .atom (.bytes b)
  | .error remaining =>
    .unreadable .value ("non-hexadecimal number found in fromhex() arg at position "
      ++ Nat.repr (s.length - remaining))

def policy (s : String) : Expr :=
  match Policy.ofName? s with
  | some p => .atom (.policy p)
  | none => .unreadable .key (Text.quoted s)

end Literal

end TagTree
