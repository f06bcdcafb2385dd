import TagTree.Text.Codec

/-!
# UTF-8 text

Decoding of bytes, with the place of the first sequence that is no character. The
shortest form is required. A whole sequence for half a surrogate pair is let through.
-/

namespace TagTree.Text

def isContinuation (b : Nat) : Bool := 0x80 ≤ b && b < 0xc0

def isSecond (lead b : Nat) : Bool :=
  isContinuation b &&
    !(lead == 0xe0 && b < 0xa0) && !(lead == 0xed && 0xa0 ≤ b) &&
    !(lead == 0xf0 && b < 0x90) && !(lead == 0xf4 && 0x90 ≤ b)

/-- The length of a sequence by its lead; zero for a byte that leads none. -/
def sequenceLength (lead : Nat) : Nat :=
  if lead < 0x80 then 1
  else if 0xc2 ≤ lead ∧ lead < 0xe0 then 2
  else if 0xe0 ≤ lead ∧ lead < 0xf0 then 3
  else if 0xf0 ≤ lead ∧ lead < 0xf5 then 4
  else 0

/-- Whether a lead and the bytes after it are a whole sequence for half a surrogate
pair. -/
def isHalfPair (lead : Nat) (after : List Nat) : Bool :=
  lead == 0xed && match after with
    | [second, third] => isContinuation second && 0xa0 ≤ second && isContinuation third
    | _ => false

def fitting (lead : Nat) (after : List Nat) : Nat :=
  match after with
  | [] => 0
  | second :: rest =>
    if isSecond lead second then 1 + (rest.takeWhile isContinuation).length
    else if isHalfPair lead after then 2 else 0

def codePoint (lead : Nat) (after : List Nat) : Nat :=
  let high := match after.length with
    | 0 => lead
    | 1 => lead - 0xc0
    | 2 => lead - 0xe0
    | _ => lead - 0xf0
  after.foldl (fun n b => n * 64 + (b - 0x80)) high

def decodeFrom : Nat → Nat → List Nat → Except Undecodable (List Char)
  | _, _, [] => .ok []
  | 0, _, _ :: _ => .ok []
  | fuel + 1, position, lead :: rest =>
    let size := sequenceLength lead
    if size = 0 then .error ⟨.utf8, .start, position, position, lead⟩ else
      let after := rest.take (size - 1)
      let good := min (fitting lead after) (size - 1)
      if good + 1 = size then
        (decodeFrom fuel (position + size) (rest.drop (size - 1))).map
          (unitChar (codePoint lead after) :: ·)
      else
        let misfit := if after.length = good then Misfit.ending else .continuation
        .error ⟨.utf8, misfit, position, position + good, lead⟩

def decodeUtf8 (bytes : List Nat) : Except Undecodable (List Char) :=
  decodeFrom bytes.length 0 bytes

end TagTree.Text
