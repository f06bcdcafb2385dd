import TagTree.Atom
import TagTree.Json.Problem
import TagTree.Table
import TagTree.Text.Codec

/-!
# Reading JSON text

The JSON grammar, with not-a-number and the infinities as further constants. Blanks
are space, tab, line feed and carriage return. A number is whole unless it has a
fraction or an exponent. Where a text is no JSON, the problem and its place are told.
-/

namespace TagTree

inductive Json where
  | atom (a : Atom)
  | array (items : List Json)
  | object (entries : List (String × Json))

namespace Json

/-- Why reading stops: a problem before the characters that remain, or an integer
with too many digits. -/
inductive Stop where
  | problem (p : Problem) (rest : List Char)
  | longInteger (digits : Nat)
  deriving DecidableEq, Repr

def isBlank (c : Char) : Bool := c == ' ' || c == '\t' || c == '\n' || c == '\r'

def skipBlanks (cs : List Char) : List Char := cs.dropWhile isBlank

def afterWord? : List Char → List Char → Option (List Char)
  | [], cs => some cs
  | w :: ws, c :: cs => if w = c then afterWord? ws cs else none
  | _ :: _, [] => none

/-! ### Strings -/

def hexValue? (c : Char) : Option Nat :=
  if '0' ≤ c ∧ c ≤ '9' then some (c.toNat - '0'.toNat)
  else if 'a' ≤ c ∧ c ≤ 'f' then some (c.toNat - 'a'.toNat + 10)
  else if 'A' ≤ c ∧ c ≤ 'F' then some (c.toNat - 'A'.toNat + 10)
  else none

def hexValue4? (a b c d : Char) : Option Nat := do
  let a ← hexValue? a
  let b ← hexValue? b
  let c ← hexValue? c
  let d ← hexValue? d
  pure (((a * 16 + b) * 16 + c) * 16 + d)

def escaped? (c : Char) : Option Char :=
  match c with
  | '"' => some '"'
  | '\\' => some '\\'
  | '/' => some '/'
  | 'b' => some '\x08'
  | 'f' => some '\x0c'
  | 'n' => some '\n'
  | 'r' => some '\r'
  | 't' => some '\t'
  | _ => none

/-- The code points and code units of a string after its opening quote, and what
follows the closing quote. The characters from the opening quote on tell where an
unfinished string began. An escape whose digits end the text is refused as an escape,
not as an unfinished string. -/
def units (start : List Char) : List Char → Except Stop (List Nat × List Char)
  | [] => .error (.problem .unterminatedString start)
  | '"' :: rest => .ok ([], rest)
  | '\\' :: [] => .error (.problem .unterminatedString start)
  | '\\' :: 'u' :: a :: b :: c :: d :: rest =>
    match hexValue4? a b c d, rest.isEmpty with
    | some n, false => (units start rest).map fun r => (n :: r.1, r.2)
    | _, _ => .error (.problem .unicodeEscape ('u' :: a :: b :: c :: d :: rest))
  | '\\' :: 'u' :: rest => .error (.problem .unicodeEscape ('u' :: rest))
  | '\\' :: c :: rest =>
    match escaped? c with
    | none => .error (.problem .escape ('\\' :: c :: rest))
    | some x => (units start rest).map fun r => (x.toNat :: r.1, r.2)
  | c :: rest =>
    if c < ' ' then .error (.problem .controlCharacter (c :: rest))
    else (units start rest).map fun r => (c.toNat :: r.1, r.2)

def string (start cs : List Char) : Except Stop (List Char × List Char) :=
  (units start cs).map fun r => (Text.joinUnits r.1, r.2)

/-! ### Numbers -/

def digitsValue (cs : List Char) : Nat :=
  cs.foldl (fun n c => n * 10 + (c.toNat - '0'.toNat)) 0

def spanDigits (cs : List Char) : List Char × List Char :=
  (cs.takeWhile Char.isDigit, cs.dropWhile Char.isDigit)

def integerPart? (cs : List Char) : Option (List Char × List Char) :=
  match cs with
  | '0' :: rest => some (['0'], rest)
  | c :: _ => if c.isDigit then some (spanDigits cs) else none
  | [] => none

/-- The digits of a fraction; a point without digits belongs to what follows. -/
def fractionPart (cs : List Char) : List Char × List Char :=
  match cs with
  | '.' :: rest =>
    let (digits, rest) := spanDigits rest
    if digits.isEmpty then ([], cs) else (digits, rest)
  | _ => ([], cs)

/-- The exponent; a letter without digits belongs to what follows. -/
def exponentPart (cs : List Char) : Option Int × List Char :=
  match cs with
  | e :: rest =>
    if e = 'e' ∨ e = 'E' then
      let (negative, body) : Bool × List Char := match rest with
        | '-' :: r => (true, r)
        | '+' :: r => (false, r)
        | r => (false, r)
      let (digits, after) := spanDigits body
      if digits.isEmpty then (none, cs)
      else
        let n : Int := digitsValue digits
        (some (if negative then -n else n), after)
    else (none, cs)
  | [] => (none, cs)

def unsigned (negative : Bool) (start cs : List Char) : Except Stop (Atom × List Char) :=
  match integerPart? cs with
  | none => .error (.problem .value start)
  | some (whole, rest) =>
    let (fraction, rest) := fractionPart rest
    let (exponent, rest) := exponentPart rest
    if fraction.isEmpty && exponent.isNone then
      if digitLimit < whole.length then .error (.longInteger whole.length)
      else
        let n : Int := digitsValue whole
        .ok (.int (if negative then -n else n), rest)
    else
      let digits := digitsValue (whole ++ fraction)
      .ok (.float (.ofDecimal negative digits (exponent.getD 0 - fraction.length)), rest)

/-! ### Values -/

/-- The constants. The not-a-number of all texts is one and the same. -/
def constants : List (String × Atom) :=
  [("null", .none), ("true", .bool true), ("false", .bool false), ("NaN", .nan 0),
    ("Infinity", .float (.infinite false)), ("-Infinity", .float (.infinite true))]

def constant? (cs : List Char) : Option (Atom × List Char) :=
  constants.findSome? fun entry =>
    (afterWord? entry.1.toList cs).map fun rest => (entry.2, rest)

def scalar (cs : List Char) : Except Stop (Atom × List Char) :=
  match constant? cs with
  | some r => .ok r
  | none =>
    match cs with
    | '-' :: rest => unsigned true cs rest
    | _ => unsigned false cs cs

mutual

def value : Nat → List Char → Except Stop (Json × List Char)
  | 0, cs => .error (.problem .value cs)
  | fuel + 1, cs =>
    match cs with
    | '"' :: rest => (string cs rest).map fun r => (.atom (.text (String.ofList r.1)), r.2)
    | '[' :: rest =>
      match skipBlanks rest with
      | ']' :: rest => .ok (.array [], rest)
      | rest => (items fuel rest).map fun r => (.array r.1, r.2)
    | '\x7b' :: rest =>
      match skipBlanks rest with
      | '\x7d' :: rest => .ok (.object [], rest)
      | rest => (members fuel [] rest).map fun r => (.object r.1, r.2)
    | cs => (scalar cs).map fun r => (.atom r.1, r.2)

def items : Nat → List Char → Except Stop (List Json × List Char)
  | 0, cs => .error (.problem .value cs)
  | fuel + 1, cs => do
    let (item, rest) ← value fuel cs
    match skipBlanks rest with
    | ']' :: rest => .ok ([item], rest)
    | ',' :: rest => (items fuel (skipBlanks rest)).map fun r => (item :: r.1, r.2)
    | rest => .error (.problem .comma rest)

/-- The entries of an object after those already read, and what follows the object. A
repeated name keeps its place and takes the last value. -/
def members : Nat → List (String × Json) → List Char →
    Except Stop (List (String × Json) × List Char)
  | 0, _, cs => .error (.problem .value cs)
  | fuel + 1, before, cs =>
    match cs with
    | '"' :: rest => do
      let (name, rest) ← string cs rest
      match skipBlanks rest with
      | ':' :: rest => do
        let (v, rest) ← value fuel (skipBlanks rest)
        let entries := Table.insert (· == ·) (String.ofList name) v before
        match skipBlanks rest with
        | '\x7d' :: rest => .ok (entries, rest)
        | ',' :: rest => members fuel entries (skipBlanks rest)
        | rest => .error (.problem .comma rest)
      | rest => .error (.problem .colon rest)
    | cs => .error (.problem .propertyName cs)

end

def document (cs : List Char) : Except Stop Json := do
  let (v, rest) ← value (2 * cs.length + 2) (skipBlanks cs)
  match skipBlanks rest with
  | [] => .ok v
  | rest => .error (.problem .extraData rest)

def unmarkedDocument (cs : List Char) : Except Stop Json :=
  if cs.head? = some '\ufeff' then .error (.problem .byteOrderMark cs) else document cs

def locate (text : List Char) (p : Problem) (rest : List Char) : Located :=
  .after p (text.take (text.length - rest.length))

end Json

end TagTree
