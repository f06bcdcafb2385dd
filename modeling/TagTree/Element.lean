import TagTree.Outcome

/-!
# Elements

An element has a tag, attributes in order, and content of one kind: nothing, a text
value, or children. Content is given once; afterwards the element is sealed.
-/

namespace TagTree

abbrev Attributes := List (Value × Value)

/-- Content of an element. Children stand in a tuple, which has an identity. -/
inductive Content where
  | empty
  | text (value : Value)
  | children (id : Nat) (elements : List ElementRef)

/-- An element (`XMLElement`). The attributes are absent when no mapping was given. -/
structure Element where
  tag : String
  attributes : Option Attributes
  content : Content
  isSealed : Bool

namespace Element

/-! ### Making an element -/

def tagOf (v : Value) : Except Fault String :=
  match v with
  | .text s => if s.isEmpty then .error .emptyTag else .ok s
  | _ => .error .emptyTag

def bare (tag : String) (attributes : Option Attributes) : Element where
  tag := tag
  attributes := attributes
  content := .empty
  isSealed := false

def textContent : Value → Content
  | .none => .empty
  | v => .text v

/-- The element with content, which seals it (`_seal`). -/
def withContent (e : Element) (c : Content) : Except Fault Element :=
  if e.isSealed then .error (.alreadySealed e.tag)
  else .ok { e with content := c, isSealed := true }

def attachText (e : Element) (v : Value) : Except Fault Element :=
  e.withContent (textContent v)

def elementsOf : List Value → Except Fault (List ElementRef)
  | [] => .ok []
  | .element e :: rest => (e :: ·) <$> elementsOf rest
  | _ :: _ => .error .childNotElement

def attachChildren (e : Element) (id : Nat) (children : List Value) :
    Except Fault Element := do
  e.withContent (.children id (← elementsOf children))

/-- Whether given content is a sequence of children: a list or tuple that is empty
or holds an element (`_is_element_sequence`). -/
def isChildSequence (items : List Value) : Bool :=
  items.isEmpty || items.any fun v => v.element?.isSome

/-! ### Reading an element -/

def children (e : Element) : List ElementRef :=
  match e.content with
  | .children _ c => c
  | _ => []

def childTuple (e : Element) : Value :=
  match e.content with
  | .children id c => .tuple id (c.map Value.element)
  | _ => .tuple 0 []

def text (e : Element) : Value :=
  match e.content with
  | .text v => v
  | _ => .none

def contentValue (e : Element) : Value :=
  match e.content with
  | .empty => .none
  | .text v => v
  | .children id c => .tuple id (c.map Value.element)

def isSelfClosing (e : Element) : Bool :=
  match e.content with
  | .empty => true
  | _ => false

end Element

end TagTree
