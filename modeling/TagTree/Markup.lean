import TagTree.Tree

/-!
# Markup

A tree of texts is laid out in lines. A node without content takes one line; any
other has an opening and a closing line, with its content one level deeper between
them. Nothing is escaped.
-/

namespace TagTree

structure Opening where
  tag : String
  attributes : List (String × String)
  deriving DecidableEq, Repr

namespace Opening

def attributeText (attributes : List (String × String)) : String :=
  String.join (attributes.map fun a => " " ++ a.1 ++ "=\"" ++ a.2 ++ "\"")

def opening (o : Opening) : String := "<" ++ o.tag ++ attributeText o.attributes ++ ">"

def selfClosing (o : Opening) : String := "<" ++ o.tag ++ attributeText o.attributes ++ " />"

def closing (o : Opening) : String := "</" ++ o.tag ++ ">"

end Opening

abbrev Markup := Tree Opening String

namespace Markup

def indentation (width : Nat) (depth : Int) : String :=
  String.ofList (List.replicate (width * depth.toNat) ' ')

mutual

def lines (width : Nat) (depth : Int) : Markup → List String
  | .closed h => [indentation width depth ++ h.selfClosing]
  | .text h content =>
    [indentation width depth ++ h.opening,
      indentation width (depth + 1) ++ content,
      indentation width depth ++ h.closing]
  | .branch h children =>
    (indentation width depth ++ h.opening) ::
      (linesOf width (depth + 1) children ++ [indentation width depth ++ h.closing])

def linesOf (width : Nat) (depth : Int) : List Markup → List String
  | [] => []
  | t :: rest => lines width depth t ++ linesOf width depth rest

end

def render (width : Nat) (depth : Int) (t : Markup) : String :=
  "\n".intercalate (lines width depth t)

end Markup

end TagTree
