import TagTree.Configuration
import TagTree.Markup

/-!
# Rendering elements

An element is read out of the store along its children; keys, values and texts stay
values until they are written. Writing them may render further elements and builders,
and a builder without a root has no text. No line is written before its indentation is
known to fit.
-/

namespace TagTree

structure Node where
  ref : ElementRef
  tag : String
  attributes : Option Attributes

namespace Node

def entries (n : Node) : Attributes := n.attributes.getD []

end Node

abbrev ElementTree := Tree Node Value

namespace Store

def treeWithin (s : Store) : Nat → ElementRef → Option ElementTree
  | 0, _ => none
  | n + 1, e =>
    match s.element? e with
    | none => none
    | some x =>
      let node : Node := ⟨e, x.tag, x.attributes⟩
      match x.content with
      | .empty => some (.closed node)
      | .text v => some (.text node v)
      | .children _ c => (c.mapM (treeWithin s n)).map (.branch node)

/-- The tree of an element. Without cycles the number of elements bounds its depth. -/
def tree? (s : Store) (e : ElementRef) : Option ElementTree :=
  s.treeWithin (s.elements.size + 1) e

end Store

namespace ElementTree

/-- The opening of a node with its attributes written (`_opening_tag`). -/
def openingOf (write : Value → Outcome String) (n : Node) : Outcome Opening := do
  let attributes ← n.entries.mapM fun entry => do
    let key ← write entry.1
    let value ← write entry.2
    pure (key, value)
  pure ⟨n.tag, attributes⟩

mutual

/-- A tree written out at a depth, if every line fits at its depth, in the order of
`XMLElement.render`: what is inside a node is written before its attributes. -/
def markup (write : Value → Outcome String) (fits : Int → Outcome Unit) (depth : Int) :
    ElementTree → Outcome Markup
  | .closed n => do
    fits depth
    let h ← openingOf write n
    pure (.closed h)
  | .text n v => do
    fits depth
    fits (depth + 1)
    let content ← write v
    let h ← openingOf write n
    pure (.text h content)
  | .branch n c => do
    fits depth
    let children ← markupAll write fits (depth + 1) c
    let h ← openingOf write n
    pure (.branch h children)

def markupAll (write : Value → Outcome String) (fits : Int → Outcome Unit) (depth : Int) :
    List ElementTree → Outcome (List Markup)
  | [] => pure []
  | t :: rest => do
    let m ← markup write fits depth t
    let ms ← markupAll write fits depth rest
    pure (m :: ms)

end

end ElementTree

namespace World

def indentationSpacing : Nat := 2

/-- The number of spaces that a width stands for; a negative one has none. -/
def spaces (width : Value) : Nat := (width.int?.getD 0).toNat

def indentable (w : World) (width : Value) (depth : Int) : Outcome Unit :=
  .ofExcept ((Repetition.indentation w.store.host.memory width (.int depth)).map fun _ => ())

/-- The text of an element (`XMLElement.render`). -/
def renderWith (w : World) (write : Value → Outcome String) (e : ElementRef)
    (width : Value) (depth : Int) : Outcome String := do
  let t ← Outcome.ofOption (w.store.tree? e)
  let m ← ElementTree.markup write (w.indentable width) depth t
  pure (Markup.render (spaces width) depth m)

/-- The text of the root that was built last (`XMLTreeBuilder.render`). -/
def renderBuilderWith (w : World) (write : Value → Outcome String) (b : BuilderRef) :
    Outcome String :=
  match w.builder? b with
  | none => .exhausted
  | some x =>
    match x.root with
    | none => .fault .noRoot
    | some e => do
      let width ← Outcome.ofExcept (w.settingOf x.configuration .indentWidth)
      w.renderWith write e width 0

/-- Text of a value, within a number of elements and builders inside one another. -/
def writeWithin (w : World) : Nat → Value → Outcome String
  | 0, _ => .exhausted
  | n + 1, v =>
    match v with
    | .element e => w.renderWith (writeWithin w n) e (.int indentationSpacing) 0
    | .builder b => w.renderBuilderWith (writeWithin w n) b
    | v => .ofExcept (w.plainText v)

def write (w : World) (v : Value) : Outcome String :=
  w.writeWithin (2 * w.store.elements.size + 2) v

def render (w : World) (e : ElementRef) (width : Value) (depth : Int) : Outcome String :=
  w.renderWith w.write e width depth

def renderAlone (w : World) (e : ElementRef) : Outcome String :=
  w.render e (.int indentationSpacing) 0

def renderBuilder (w : World) (b : BuilderRef) : Outcome String :=
  w.renderBuilderWith w.write b

def word (w : World) : Wording → Outcome String
  | .fixed text => .value text
  | .written v => w.write v
  | .shown v => .value (w.shown v)
  | .listed args => .value (shownTuple (args.map w.shown))

end World

end TagTree
