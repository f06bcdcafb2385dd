/-!
# Trees

A tree has a head at every node, and below it nothing, one content, or child trees
in order. Document order visits a node before its children.
-/

namespace TagTree

/-- A tree with heads `η` and contents `τ`. -/
inductive Tree (η τ : Type) where
  | closed (head : η)
  | text (head : η) (content : τ)
  | branch (head : η) (children : List (Tree η τ))

namespace Tree

variable {η τ : Type}

def head : Tree η τ → η
  | .closed h => h
  | .text h _ => h
  | .branch h _ => h

def children : Tree η τ → List (Tree η τ)
  | .branch _ c => c
  | _ => []

mutual

/-- The tree and all below it in document order (`XMLElement.iter`). -/
def nodes : Tree η τ → List (Tree η τ)
  | .closed h => [.closed h]
  | .text h c => [.text h c]
  | .branch h c => .branch h c :: nodesOf c

def nodesOf : List (Tree η τ) → List (Tree η τ)
  | [] => []
  | t :: rest => nodes t ++ nodesOf rest

end

mutual

/-- The first match below the topmost node, looking at all of its children before
descending into any of them (`XMLElement.find`). -/
def find? (matching : η → Bool) : Tree η τ → Option (Tree η τ)
  | .branch _ c => (c.find? fun t => matching t.head) <|> findBelow? matching c
  | _ => none

def findBelow? (matching : η → Bool) : List (Tree η τ) → Option (Tree η τ)
  | [] => none
  | t :: rest => find? matching t <|> findBelow? matching rest

end

mutual

/-- All matches below the topmost node (`XMLElement.find_all`). -/
def findAll (matching : η → Bool) : Tree η τ → List (Tree η τ)
  | .branch _ c => findAllIn matching c
  | _ => []

def findAllIn (matching : η → Bool) : List (Tree η τ) → List (Tree η τ)
  | [] => []
  | t :: rest =>
    (if matching t.head then [t] else []) ++ findAll matching t ++ findAllIn matching rest

end

end Tree

end TagTree
