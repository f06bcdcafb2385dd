import TagTree.Rendering

/-!
# Plain tables

Nested tables as they are given away: lists, tuples and dictionaries that are made anew, of
values that stay as they are. What copies of other objects would hold is not followed, so a
table with such copies is read, and not made.

The table of an element tree has the tag, the attributes if there are any, and the children or
the text. An element without content has neither of the last two, so the kinds of content stay
apart.
-/

namespace TagTree

inductive Plain where
  | value (v : Value)
  | entries (table : Dict)
  | record (fields : List (String × Plain))
  | list (items : List Plain)
  | tuple (items : List Plain)
  | dict (parts : List (Plain × Plain))
  | copy (v : Value)

namespace ElementTree

def plainAttributes (n : Node) : List (String × Plain) :=
  if n.entries.isEmpty then [] else [("attributes", .entries n.entries)]

mutual

/-- The plain table of a tree (`to_dict`): its tag, its attributes if it has any, and its children
or its text. -/
def plain : ElementTree → Plain
  | .closed n => .record (("tag", .value (.text n.tag)) :: plainAttributes n)
  | .text n v =>
    .record (("tag", .value (.text n.tag)) :: plainAttributes n ++ [("text", .value v)])
  | .branch n c =>
    .record (("tag", .value (.text n.tag)) :: plainAttributes n
      ++ [("children", .list (plainAll c))])

def plainAll : List ElementTree → List Plain
  | [] => []
  | t :: rest => plain t :: plainAll rest

end

end ElementTree

namespace Plain

/-! ### Making -/

mutual

def store : Plain → Proc Store Value
  | .value v => pure v
  | .entries table => do
    let d ← Store.newDict table
    pure (.dict d)
  | .record fields => do
    let table ← storeFields fields
    let d ← Store.newDict table
    pure (.dict d)
  | .list items => do
    let items ← storeAll items
    let l ← Store.newList items
    pure (.list l)
  | .tuple items => do
    let items ← storeAll items
    let id ← Store.newId
    pure (.tuple id items)
  | .dict parts => do
    let table ← storeEntries parts
    let d ← Store.newDict table
    pure (.dict d)
  | .copy _ => Proc.ofOutcome .exhausted

def storeAll : List Plain → Proc Store (List Value)
  | [] => pure []
  | p :: rest => do
    let v ← store p
    let vs ← storeAll rest
    pure (v :: vs)

def storeFields : List (String × Plain) → Proc Store Dict
  | [] => pure []
  | (name, p) :: rest => do
    let v ← store p
    let vs ← storeFields rest
    pure ((.text name, v) :: vs)

def storeEntries : List (Plain × Plain) → Proc Store Dict
  | [] => pure []
  | (k, p) :: rest => do
    let key ← store k
    let v ← store p
    let vs ← storeEntries rest
    pure ((key, v) :: vs)

end

mutual

/-- Whether all of a table is made: nothing in it is the copy of another object. -/
def isMade : Plain → Bool
  | .value _ | .entries _ => true
  | .record fields => fieldsMade fields
  | .list items | .tuple items => allMade items
  | .dict parts => entriesMade parts
  | .copy _ => false

def allMade : List Plain → Bool
  | [] => true
  | p :: rest => p.isMade && allMade rest

def fieldsMade : List (String × Plain) → Bool
  | [] => true
  | (_, p) :: rest => p.isMade && fieldsMade rest

def entriesMade : List (Plain × Plain) → Bool
  | [] => true
  | (k, p) :: rest => k.isMade && p.isMade && entriesMade rest

end

/-- The dictionary of a record. None is told where it would hold copies of other objects. -/
def keep (fields : List (String × Plain)) : Proc Store Value :=
  if fieldsMade fields then store (.record fields) else pure .none

/-! ### Reading -/

mutual

def read (w : World) : Plain → Datum
  | .value v | .copy v => w.read v
  | .entries table => .dict (table.map fun x => (w.read x.1, w.read x.2))
  | .record fields => .dict (readFields w fields)
  | .list items => .list (readAll w items)
  | .tuple items => .tuple (readAll w items)
  | .dict parts => .dict (readEntries w parts)

def readAll (w : World) : List Plain → List Datum
  | [] => []
  | p :: rest => p.read w :: readAll w rest

def readFields (w : World) : List (String × Plain) → List (Datum × Datum)
  | [] => []
  | (name, p) :: rest => (.text name, p.read w) :: readFields w rest

def readEntries (w : World) : List (Plain × Plain) → List (Datum × Datum)
  | [] => []
  | (k, p) :: rest => (k.read w, p.read w) :: readEntries w rest

end

end Plain

end TagTree
