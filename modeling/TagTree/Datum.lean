import TagTree.Value

/-!
# Data

A datum is what an answer shows of a value: containers with their parts, and of any
other object its kind and shown form at the moment of the answer. Functions show
nothing. What a container holds that it is met in again has no end, and is no whole datum.
-/

namespace TagTree

inductive Datum where
  | atom (a : Atom)
  | list (items : List Datum)
  | tuple (items : List Datum)
  | dict (entries : List (Datum × Datum))
  | view (entries : List (Datum × Datum))
  | element (form : String)
  | function
  | object (kind form : String)
  | endless

instance : Inhabited Datum := ⟨.atom .none⟩

namespace Datum

@[match_pattern] abbrev none : Datum := .atom .none

@[match_pattern] abbrev text (s : String) : Datum := .atom (.text s)

@[match_pattern] abbrev int (n : Int) : Datum := .atom (.int n)

def ofNat (n : Nat) : Datum := .int n

def typeName : Datum → String
  | .atom a => a.typeName
  | .list _ => "list"
  | .tuple _ => "tuple"
  | .dict _ => "dict"
  | .view _ => "mappingproxy"
  | .element _ => "XMLElement"
  | .function => "function"
  | .object kind _ => kind
  | .endless => "list"

mutual

/-- Whether a datum comes to an end. -/
def whole : Datum → Bool
  | .list items | .tuple items => allWhole items
  | .dict entries | .view entries => entriesWhole entries
  | .endless => false
  | _ => true

def allWhole : List Datum → Bool
  | [] => true
  | d :: rest => d.whole && allWhole rest

def entriesWhole : List (Datum × Datum) → Bool
  | [] => true
  | (k, d) :: rest => k.whole && d.whole && entriesWhole rest

end

end Datum

end TagTree
