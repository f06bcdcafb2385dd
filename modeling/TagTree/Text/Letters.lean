/-!
# Letter case of names

Names of policies and of export targets are ASCII and are read without regard to
case. A character counts as the ASCII letters of its full case mapping; one whose
mapping leaves ASCII can never spell such a name and stands for itself.
-/

namespace TagTree.Text

def upperLetters (c : Char) : List Char :=
  if 'a' ≤ c ∧ c ≤ 'z' then [Char.ofNat (c.toNat - 32)]
  else match c.toNat with
    | 0xdf => ['S', 'S']
    | 0x131 => ['I']
    | 0x17f => ['S']
    | 0xfb00 => ['F', 'F']
    | 0xfb01 => ['F', 'I']
    | 0xfb02 => ['F', 'L']
    | 0xfb03 => ['F', 'F', 'I']
    | 0xfb04 => ['F', 'F', 'L']
    | 0xfb05 => ['S', 'T']
    | 0xfb06 => ['S', 'T']
    | _ => [c]

def lowerLetter (c : Char) : Char :=
  if 'A' ≤ c ∧ c ≤ 'Z' then Char.ofNat (c.toNat + 32)
  else if c.toNat = 0x212a then 'k'
  else c

def upperName (s : String) : String := String.ofList (s.toList.flatMap upperLetters)

def lowerName (s : String) : String := String.ofList (s.toList.map lowerLetter)

end TagTree.Text
