/-!
# Searching

Where a sequence first stands within another.
-/

namespace TagTree.Text

/-- The position at which a sequence first stands within another. The empty sequence
stands at the beginning. -/
def positionOf? {α : Type} [BEq α] (part : List α) : List α → Option Nat
  | [] => if part.isEmpty then some 0 else none
  | x :: rest =>
    if part.isPrefixOf (x :: rest) then some 0 else (positionOf? part rest).map (· + 1)

def positionOf {α : Type} [BEq α] (part whole : List α) : Int :=
  match positionOf? part whole with
  | some n => n
  | none => -1

end TagTree.Text
