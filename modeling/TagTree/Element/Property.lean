import TagTree.Store

/-!
# Properties of elements

What can be read off an element. Whoever asks for the attributes gets a copy, so no
later write reaches the element.
-/

namespace TagTree

def Property.name : Property → String
  | .tag => "tag"
  | .attributes => "attributes"
  | .content => "content"
  | .children => "children"
  | .text => "text"
  | .selfClosing => "is_self_closing"
  | .hasChildren => "has_children"

def Element.property (x : Element) : Property → Proc Store Value
  | .tag => pure (.text x.tag)
  | .attributes =>
    match x.attributes with
    | none => pure .none
    | some a => do
      let d ← Store.newDict a
      pure (.dict d)
  | .content => pure x.contentValue
  | .children => pure x.childTuple
  | .text => pure x.text
  | .selfClosing => pure (.bool x.isSelfClosing)
  | .hasChildren => pure (.bool !x.children.isEmpty)

/-- An attribute by name (`XMLElement.get_attribute`). -/
def Element.attribute? (x : Element) (name default : Value) : Except Fault Value :=
  match x.attributes with
  | none => .ok default
  | some a =>
    match name.unhashable? with
    | some kind => .error (.unhashable kind)
    | none => .ok ((Table.find? Value.sameKey name a).getD default)

end TagTree
