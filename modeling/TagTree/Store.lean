import TagTree.Element
import TagTree.Library
import TagTree.Repetition

/-!
# The store

Elements, lists and dictionaries are shared objects: values refer to them by position,
and nothing is ever removed. The store also hands out identities, and knows the host.
-/

namespace TagTree

abbrev Dict := List (Value × Value)

/-- Where a program runs: how long a repeated text memory holds, and the library for exports
that may be installed beside the plain one. -/
structure Host where
  memory : Nat
  strict : Library

/-- A host for small runs. -/
def Host.small : Host := ⟨4096, .plain⟩

structure Store where
  elements : Array Element
  lists : Array (List Value)
  dicts : Array Dict
  nextId : Nat
  host : Host

namespace Store

/-- The store without objects. Identity zero is left to objects that are not shared. -/
def empty (host : Host) : Store := ⟨#[], #[], #[], 1, host⟩

/-! ### Reading -/

def element? (s : Store) (e : ElementRef) : Option Element := s.elements[e.index]?

def items (s : Store) (l : ListRef) : List Value := s.lists[l.index]?.getD []

def entries (s : Store) (d : DictRef) : Dict := s.dicts[d.index]?.getD []

def sequence? (s : Store) : Value → Option (List Value)
  | .list l => some (s.items l)
  | .tuple _ items => some items
  | _ => none

/-- Whether a value counts as true: empty containers do not. -/
def truthy (s : Store) : Value → Bool
  | .atom a => a.truthy
  | .list l => !(s.items l).isEmpty
  | .tuple _ items => !items.isEmpty
  | .dict d | .view d => !(s.entries d).isEmpty
  | _ => true

def members? (s : Store) : Value → Option (List Value)
  | .list l => some (s.items l)
  | .tuple _ items => some items
  | .dict d | .view d => some ((s.entries d).map Prod.fst)
  | .atom (.text t) => some (t.toList.map fun c => .text (String.singleton c))
  | .atom (.bytes b) => some (b.map fun x => .int x.toNat)
  | _ => none

def membersOf (s : Store) (v : Value) : Except Fault (List Value) :=
  match s.members? v with
  | some members => .ok members
  | none => .error (.notIterable v.typeName)

/-! ### Making objects -/

def newId : Proc Store Nat := fun s => (.value s.nextId, { s with nextId := s.nextId + 1 })

def newElement (e : Element) : Proc Store ElementRef := fun s =>
  (.value ⟨s.elements.size⟩, { s with elements := s.elements.push e })

def newList (items : List Value) : Proc Store ListRef := fun s =>
  (.value ⟨s.lists.size⟩, { s with lists := s.lists.push items })

def newDict (d : Dict) : Proc Store DictRef := fun s =>
  (.value ⟨s.dicts.size⟩, { s with dicts := s.dicts.push d })

def setElement (s : Store) (e : ElementRef) (x : Element) : Store :=
  { s with elements := s.elements.setIfInBounds e.index x }

def setList (s : Store) (l : ListRef) (x : List Value) : Store :=
  { s with lists := s.lists.setIfInBounds l.index x }

def setDict (s : Store) (d : DictRef) (x : Dict) : Store :=
  { s with dicts := s.dicts.setIfInBounds d.index x }

/-! ### Writing to dictionaries and lists -/

def putKey (table : Dict) (k v : Value) : Except Fault Dict :=
  match k.unhashable? with
  | some kind => .error (.unhashable kind)
  | none => .ok (Table.insert Value.sameKey k v table)

def tableOf (entries : List (Value × Value)) : Except Fault Dict :=
  entries.foldlM (fun table entry => putKey table entry.1 entry.2) []

/-- The entries that members spell, each being a key and a value in sequence; positions
count from the given one. -/
def writeMembers (s : Store) (table : Dict) (position : Nat) :
    List Value → Except Fault Dict
  | [] => .ok table
  | v :: rest =>
    match s.members? v with
    | none => .error (.notASequence position)
    | some [key, value] => do
      let table ← putKey table key value
      writeMembers s table (position + 1) rest
    | some parts => .error (.notAnEntry position parts.length)

/-- The dictionary that a value spells: a mapping its own, any other collection the one
of its members. -/
def dictOf (s : Store) (v : Value) : Except Fault Dict :=
  match v.mapping? with
  | some d => .ok (s.entries d)
  | none => do
    let members ← s.membersOf v
    writeMembers s [] 0 members

/-- The position that a value stands for among a number of items; negative numbers count
from the end. -/
def positionOf (size : Nat) (v : Value) : Except Fault Nat :=
  match v.int? with
  | none => .error (.notAPosition v.typeName)
  | some n =>
    if !isIndexSized n then .error (.notIndexSized .index)
    else
      let i := if n < 0 then n + size else n
      if i < 0 ∨ (size : Int) ≤ i then .error .positionOutOfRange else .ok i.toNat

def putItem (items : List Value) (k v : Value) : Except Fault (List Value) := do
  let i ← positionOf items.length k
  pure (items.set i v)

/-! ### Making elements -/

def tupleId (s : Store) : Value → Nat
  | .tuple id _ => id
  | _ => s.nextId

/-- An element with the members of a value for children (`_attach_children`). -/
def attachMembers (s : Store) (e : Element) (v : Value) : Except Fault Element := do
  let members ← s.membersOf v
  e.attachChildren (s.tupleId v) members

def withInitial (s : Store) (e : Element) (v : Value) : Except Fault Element :=
  match s.sequence? v with
  | some items =>
    if Element.isChildSequence items then e.attachChildren (s.tupleId v) items
    else e.attachText v
  | none => if v.isNone then .ok e else e.attachText v

/-- The element that a tag, attributes and content describe, checked in that order
(`XMLElement.__init__`). -/
def describe (s : Store) (tag attributes content : Value) : Except Fault Element := do
  let tag ← Element.tagOf tag
  let attributes ← match attributes, attributes.mapping? with
    | .none, _ => .ok none
    | _, some d => .ok (some (s.entries d))
    | _, none => .error .attributesNotMapping
  s.withInitial (Element.bare tag attributes) content

def makeElement (tag attributes content : Value) : Proc Store ElementRef := fun s =>
  match s.describe tag attributes content with
  | .ok e => newElement e { s with nextId := s.nextId + 1 }
  | .error f => (.fault f, s)

end Store

end TagTree
