import TagTree.Json.Reader
import TagTree.Json.Source
import TagTree.Store

/-!
# JSON values in the store

A JSON text is read into values: its arrays become fresh lists, its objects fresh
dictionaries. The text may be given as bytes.
-/

namespace TagTree

namespace Json

mutual

def store : Json → Proc Store Value
  | .atom a => pure (.atom a)
  | .array items => do
    let items ← storeAll items
    let l ← Store.newList items
    pure (.list l)
  | .object entries => do
    let entries ← storeEntries entries
    let d ← Store.newDict entries
    pure (.dict d)

def storeAll : List Json → Proc Store (List Value)
  | [] => pure []
  | j :: rest => do
    let one ← store j
    let more ← storeAll rest
    pure (one :: more)

def storeEntries : List (String × Json) → Proc Store (List (Value × Value))
  | [] => pure []
  | (name, j) :: rest => do
    let one ← store j
    let more ← storeEntries rest
    pure ((.text name, one) :: more)

end

def located (text : List Char) : Except Stop Json → Except Fault Json
  | .ok j => .ok j
  | .error (.problem p rest) => .error (.jsonSyntax (locate text p rest))
  | .error (.longInteger n) => .error (.longInteger n)

/-- The JSON value that a value holds as text or bytes. Only bytes may begin with a byte
order mark. -/
def parse : Value → Except Fault Json
  | .text s => located s.toList (unmarkedDocument s.toList)
  | .atom (.bytes b) =>
    match decode b with
    | .ok text => located text (document text)
    | .error p => .error (.undecodable p)
  | v => .error (.notJsonText v.typeName)

end Json

end TagTree
