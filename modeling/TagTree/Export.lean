import TagTree.Journal
import TagTree.Rendering
import TagTree.Text.Letters

/-!
# Export

An element tree is exported node by node: the attributes become texts, then the text,
then the children follow. Keys with the same text fall together. One target takes every name
and text; what the other takes is left to its library. A failing export is reported, not
raised.
-/

namespace TagTree

namespace Target

def all : List Target := [.elementTree, .lxml]

def name : Target → String
  | elementTree => "elementtree"
  | lxml => "lxml"

def libraryName : Target → String
  | elementTree => "xml.etree.ElementTree"
  | lxml => "lxml"

def component : Target → String
  | elementTree => "ElementTreeAdapter"
  | lxml => "LxmlAdapter"

def description : Target → String
  | elementTree => "Convert XMLElement trees to xml.etree.ElementTree elements"
  | lxml => "Convert XMLElement trees to lxml.etree elements"

def versions : Target → List String
  | elementTree => []
  | lxml => ["4.0+"]

def available (installed : Bool) : Target → Bool
  | elementTree => true
  | lxml => installed

/-- The target of a name in any case (`get_adapter`). -/
def ofName? (name : String) : Option Target :=
  all.find? fun t => t.name == Text.lowerName name

end Target

def Host.library (h : Host) : Target → Library
  | .elementTree => .plain
  | .lxml => h.strict

namespace Export

/-- The opening of a node in a library: its tag, and its attributes as a dictionary of texts
(`_attribute_strings`). -/
def openingOf (l : Library) (write : Value → Outcome String) (n : Node) : Outcome Opening := do
  let o ← ElementTree.openingOf write n
  .ofExcept (l.opening { o with attributes := Table.ofEntries (· == ·) o.attributes })

mutual

/-- A tree made of the elements of a library (`_convert_element`). -/
def tree (l : Library) (write : Value → Outcome String) : ElementTree → Outcome Markup
  | .closed n => do
    let h ← openingOf l write n
    pure (.closed h)
  | .text n v => do
    let h ← openingOf l write n
    let s ← write v
    let content ← .ofExcept (l.text s)
    pure (.text h content)
  | .branch n c => do
    let h ← openingOf l write n
    let children ← trees l write c
    pure (.branch h children)

def trees (l : Library) (write : Value → Outcome String) :
    List ElementTree → Outcome (List Markup)
  | [] => pure []
  | x :: rest => do
    let m ← tree l write x
    let ms ← trees l write rest
    pure (m :: ms)

end

/-- The result of a conversion (`ConversionResult`): whether it succeeded, the exported tree, the
value that was to be converted, the wordings of what failed, and what else is known of the
tree. -/
structure Conversion where
  success : Bool
  data : Option Markup
  original : Value
  errors : List String
  metadata : List (String × Nat)

namespace Conversion

def completed (original : Value) (m : Markup) (count : Nat) : Conversion where
  success := true
  data := some m
  original := original
  errors := []
  metadata := [("element_count", count)]

def failed (original : Value) (message : String) : Conversion where
  success := false
  data := none
  original := original
  errors := [message]
  metadata := []

end Conversion

def element (w : World) (t : Target) (e : ElementRef) : Outcome (Markup × Nat) := do
  let x ← Outcome.ofOption (w.store.tree? e)
  let m ← tree (w.store.host.library t) w.write x
  pure (m, x.nodes.length)

/-- A value converted (`to_target`). What cannot be written fails the conversion, and only
interruptions go through it. -/
def convert (t : Target) (correlation : Value) (installed : Bool) (v : Value) :
    Proc World Conversion := fun w =>
  match v with
  | .element e =>
    if !t.available installed then
      (.value (.failed v (t.libraryName ++ " is not installed")), w)
    else
      match element w t e with
      | .value (m, count) =>
        (.value (.completed v m count), w.note (.conversion t (w.read correlation) none))
      | .fault f =>
        if f.kind.isException then
          (.value (.failed v ("Failed to convert to " ++ t.libraryName ++ ": " ++ f.message)),
            w.note (.conversion t (w.read correlation) (some f.kind)))
        else (.fault f, w)
      | .exhausted => (.exhausted, w)
  | v => (.value (.failed v ("Expected XMLElement, got " ++ v.typeName)), w)

/-- The exported tree of a value, or the errors as one fault (`to_etree`, `to_lxml`). -/
def strictly (t : Target) (installed : Bool) (v : Value) : Proc World Markup := do
  let r ← convert t .none installed v
  if r.success then Proc.ofOutcome (Outcome.ofOption r.data)
  else Proc.fail (.exportFailed ("; ".intercalate r.errors))

end Export

end TagTree
