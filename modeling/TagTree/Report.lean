import TagTree.Quotient

/-!
# Reports of a build

A build reports in three ways: it counts what happens, it leaves remarks about
questionable input, and it writes notices into the journal. Remarks and notices are
kept as their causes; their wording follows from these.
-/

namespace TagTree

/-! ### Counters -/

/-- What a build counts (`BuildMetrics`). -/
structure Counters where
  elementsCreated : Nat
  blocksEntered : Nat
  scalarBlocks : Nat
  maxDepthReached : Nat
  deriving DecidableEq, Repr

namespace Counters

def zero : Counters := ⟨0, 0, 0, 0⟩

def elementCreated (c : Counters) : Counters :=
  { c with elementsCreated := c.elementsCreated + 1 }

def blockEntered (c : Counters) (depth : Nat) : Counters :=
  { c with
    blocksEntered := c.blocksEntered + 1
    maxDepthReached := max c.maxDepthReached depth }

def scalarBlock (c : Counters) : Counters := { c with scalarBlocks := c.scalarBlocks + 1 }

end Counters

/-- Elements for each block (`BuildMetrics.elements_per_block`); zero when there is no block. -/
def elementsPerBlock (elements blocks : Value) : Except Fault Atom :=
  if blocks.sameKey (.int 0) then .ok (.float (.zero false)) else elements.dividedBy blocks

/-! ### Remarks -/

/-- What `_report_ambiguous_block` and `_check_orphaned_top_level` remark on. -/
inductive Remark where
  | discardedValue (tag : String) (shown : String)
  | orphans (root : String) (tags : List String)
  deriving DecidableEq, Repr

def builderComponent : String := "xml_tree_builder"

namespace Remark

def discardedMessage (tag : String) : String :=
  "Block for <" ++ tag ++ "> returned a value and created elements; the value was discarded"

def orphansMessage (root : String) (count : Nat) : String :=
  Nat.repr count ++ " top-level element(s) after <" ++ root ++ "> are not part of the tree"

def message : Remark → String
  | discardedValue tag _ => discardedMessage tag
  | orphans root tags => orphansMessage root tags.length

end Remark

/-! ### Notices -/

/-- What builders write to the journal: where a build starts and ends, where an element is
created, and each remark. -/
inductive Notice where
  | started
  | created (tag : String) (depth : Nat) (hasBlock : Bool)
  | discarded (tag : String)
  | orphaned (root : String) (count : Nat)
  | completed (root : String) (elements depth : Nat)
  | failed (elements : Nat) (cause : FaultKind)
  deriving DecidableEq, Repr

namespace Notice

def level : Notice → Level
  | started | completed .. => .info
  | created .. => .debug
  | discarded _ | orphaned .. => .warning
  | failed .. => .error

def message : Notice → String
  | started => "Starting build"
  | created .. => "Element created"
  | discarded tag => Remark.discardedMessage tag
  | orphaned root count => Remark.orphansMessage root count
  | completed .. => "Build completed"
  | failed .. => "Build failed"

def particulars : Notice → List (String × Atom)
  | started => []
  | created tag depth hasBlock =>
    [("depth", .int depth), ("has_block", .bool hasBlock), ("tag", .text tag)]
  | discarded tag => [("tag", .text tag)]
  | orphaned _ count => [("orphan_count", .int count)]
  | completed root elements depth =>
    [("element_count", .int elements), ("max_depth", .int depth), ("root_tag", .text root)]
  | failed elements _ => [("element_count", .int elements)]

def cause : Notice → Option FaultKind
  | failed _ cause => some cause
  | _ => none

end Notice

end TagTree
