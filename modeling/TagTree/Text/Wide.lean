import TagTree.Text.Codec

/-!
# UTF-16 and UTF-32 text

Units of two or four bytes. Bytes that are left over after the last whole unit do not
fit, nor do units of four bytes beyond the greatest code point. Half a surrogate pair
alone is let through.
-/

namespace TagTree.Text

def unitValue (bigEndian : Bool) (bytes : List Nat) : Nat :=
  (if bigEndian then bytes else bytes.reverse).foldl (fun n b => n * 256 + b) 0

def leftOver (codec : Codec) (position : Nat) (lead : Nat) (rest : List Nat) : Undecodable :=
  ⟨codec, .truncated, position, position + rest.length, lead⟩

def units16 (bigEndian : Bool) (position : Nat) : List Nat → Except Undecodable (List Nat)
  | [] => .ok []
  | a :: b :: rest =>
    (units16 bigEndian (position + 2) rest).map (unitValue bigEndian [a, b] :: ·)
  | [a] => .error (leftOver (.utf16 bigEndian) position a [])

def units32 (bigEndian : Bool) (position : Nat) : List Nat → Except Undecodable (List Nat)
  | [] => .ok []
  | a :: b :: c :: d :: rest =>
    let n := unitValue bigEndian [a, b, c, d]
    if n < 0x110000 then (units32 bigEndian (position + 4) rest).map (n :: ·)
    else .error ⟨.utf32 bigEndian, .range, position, position + 3, a⟩
  | a :: rest => .error (leftOver (.utf32 bigEndian) position a rest)

def decodeUtf16 (bigEndian : Bool) (position : Nat) (bytes : List Nat) :
    Except Undecodable (List Char) :=
  (units16 bigEndian position bytes).map joinUnits

def decodeUtf32 (bigEndian : Bool) (position : Nat) (bytes : List Nat) :
    Except Undecodable (List Char) :=
  (units32 bigEndian position bytes).map fun units => units.map unitChar

end TagTree.Text
