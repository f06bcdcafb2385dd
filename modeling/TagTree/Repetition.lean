import TagTree.Fault

/-!
# Repeated text

A text is repeated a whole number of times. The number must have the size of an index,
and the result must be a text for which there is memory: how long a repeated text may be is
left open. Only here can a short program ask for a text of any length; texts that are joined
from texts at hand are taken to fit. Lines are indented by a run of spaces for each level, so
the width is repeated before the depth.
-/

namespace TagTree

def isIndexSized (n : Int) : Bool := decide (-Int.pow 2 63 ≤ n) && decide (n < Int.pow 2 63)

namespace Repetition

def greatestLength : Nat := Nat.pow 2 63 - 1

def times (v : Value) : Except Fault Int :=
  match v.int? with
  | none => .error (.notRepeatable v.typeName)
  | some n => if isIndexSized n then .ok n else .error (.notIndexSized .overflow)

/-- The length of a text of the given length when a value repeats it, if the memory holds
that many characters; a negative number of times counts as none. -/
def length (memory size : Nat) (v : Value) : Except Fault Nat := do
  let n ← times v
  let size := size * n.toNat
  if greatestLength < size then throw .textTooLong
  if memory < size then throw .outOfMemory
  pure size

def indentation (memory : Nat) (width depth : Value) : Except Fault Nat := do
  let unit ← length memory 1 width
  length memory unit depth

end Repetition

end TagTree
