import TagTree.Datum
import TagTree.Outcome

/-!
# Writing JSON text

Data without JSON form are refused. Text is written in ASCII: other characters are
escaped by their UTF-16 units. Without an indent all stands in one line; with one,
each item and entry has a line of its own.
-/

namespace TagTree.Json

/-! ### Strings -/

def unitEscape (n : Nat) : List Char := '\\' :: 'u' :: Text.hexDigits 4 n

def writeChar (c : Char) : List Char :=
  match c with
  | '"' => ['\\', '"']
  | '\\' => ['\\', '\\']
  | '\n' => ['\\', 'n']
  | '\r' => ['\\', 'r']
  | '\t' => ['\\', 't']
  | '\x08' => ['\\', 'b']
  | '\x0c' => ['\\', 'f']
  | c =>
    if ' ' ≤ c ∧ c ≤ '~' then [c]
    else if c.toNat < 0x10000 then unitEscape c.toNat
    else
      let n := c.toNat - 0x10000
      unitEscape (0xd800 + n / 0x400) ++ unitEscape (0xdc00 + n % 0x400)

def writeText (s : String) : String :=
  String.ofList ('"' :: s.toList.flatMap writeChar ++ ['"'])

/-! ### Values -/

def writeDouble : Double → String
  | .infinite negative => Double.signText negative ++ "Infinity"
  | x => x.toText

def writeAtom : Atom → Except Fault String
  | .none => .ok "null"
  | .bool b => .ok (if b then "true" else "false")
  | .int n => Atom.written (.int n)
  | .float x => .ok (writeDouble x)
  | .nan _ => .ok "NaN"
  | .text s => .ok (writeText s)
  | a => .error (.notSerializable a.typeName)

def writeKey : Datum → Except Fault String
  | .atom (.text s) => .ok (writeText s)
  | .atom (.int n) => (writeAtom (.int n)).map writeText
  | .atom a =>
    match writeAtom a with
    | .ok s => .ok (writeText s)
    | .error _ => .error (.badJsonKey a.typeName)
  | d => .error (.badJsonKey d.typeName)

def lineBreak (indent : Option String) (level : Nat) : String :=
  match indent with
  | none => ""
  | some unit => "\n" ++ String.join (List.replicate level unit)

def separator (indent : Option String) (level : Nat) : String :=
  match indent with
  | none => ", "
  | some _ => "," ++ lineBreak indent level

def enclose (indent : Option String) (level : Nat) (left right : String)
    (items : List String) : String :=
  if items.isEmpty then left ++ right
  else left ++ lineBreak indent (level + 1)
    ++ (separator indent (level + 1)).intercalate items ++ lineBreak indent level ++ right

mutual

def write (indent : Option String) (level : Nat) : Datum → Except Fault String
  | .atom a => writeAtom a
  | .list items => do
    let items ← writeAll indent (level + 1) items
    pure (enclose indent level "[" "]" items)
  | .tuple items => do
    let items ← writeAll indent (level + 1) items
    pure (enclose indent level "[" "]" items)
  | .dict entries => do
    let entries ← writeEntries indent (level + 1) entries
    pure (enclose indent level "\x7b" "\x7d" entries)
  | d => .error (.notSerializable d.typeName)

def writeAll (indent : Option String) (level : Nat) : List Datum → Except Fault (List String)
  | [] => pure []
  | d :: rest => do
    let one ← write indent level d
    let more ← writeAll indent level rest
    pure (one :: more)

def writeEntries (indent : Option String) (level : Nat) :
    List (Datum × Datum) → Except Fault (List String)
  | [] => pure []
  | (k, v) :: rest => do
    let name ← writeKey k
    let one ← write indent level v
    let more ← writeEntries indent level rest
    pure ((name ++ ": " ++ one) :: more)

end

end TagTree.Json
