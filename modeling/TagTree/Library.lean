import TagTree.Fault
import TagTree.Markup

/-!
# Libraries of element types

An exported tree is made of the elements of another library. What the library takes, and as what
it stores it, is its own: it is given the opening and the text of one element after the other,
and refuses what it does not take with an exception.
-/

namespace TagTree

structure Library where
  opening : Opening → Except Fault Opening
  text : String → Except Fault String

namespace Library

/-- The library that stores everything as it is given. -/
def plain : Library := ⟨.ok, .ok⟩

end Library

end TagTree
