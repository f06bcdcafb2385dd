import TagTree.World

/-!
# Reading values

The shown form of a value, what an answer tells of it, and equality. Each follows
references: lists and dictionaries to their parts, elements to their content, handles
and builders to the root that was built. The shown form of a container that is met again
inside itself is cut off, and what is read of it has no end; elements are not containers.
References are followed to a fixed depth, far beyond what scripts nest. Shown forms are
those of values whose forms can be made: whole numbers stand in them at any length, while a
number that is written by itself is within the limit on digits.
-/

namespace TagTree

inductive Container where
  | list (l : ListRef)
  | tuple (id : Nat)
  | dict (d : DictRef)
  | settings (id : Nat)
  deriving DecidableEq, Repr

namespace World

def readingDepth : Nat := 4000

/-! ### The shown form -/

def commas (items : List String) : String := ", ".intercalate items

def shownTuple : List String → String
  | [one] => "(" ++ one ++ ",)"
  | items => "(" ++ commas items ++ ")"

def shownSettings (w : String) (p : Policy) (u m d c : String) : String :=
  "BuilderConfig(indent_width=" ++ w ++ ", ambiguous_block_policy="
    ++ (Atom.policy p).shown ++ ", strip_keyword_underscore=" ++ u ++ ", max_depth=" ++ m
    ++ ", enable_diagnostics=" ++ d ++ ", correlation_id=" ++ c ++ ")"

/-- The shown form of a builder (`XMLTreeBuilder.__repr__`). -/
def shownBuilder (w : World) (b : BuilderRef) : String :=
  "XMLTreeBuilder(root=" ++ ((w.rootTag b).map Text.quoted).getD "None" ++ ", building="
    ++ Atom.truthText (w.isBuilding b) ++ ")"

def shownHandle (w : World) (h : Handle) : String :=
  "<TagHandle of " ++ w.shownBuilder h.builder ++ ">"

def shownCallable (w : World) : Callable Value → String
  | .verbatim h => "<bound method TagHandle.tag of " ++ w.shownHandle h ++ ">"
  | .member h name => "<bound method TagHandle." ++ name ++ " of " ++ w.shownHandle h ++ ">"
  | .handleKind => "<class 'simple_xml_builder.tree.builder.TagHandle'>"
  | _ => "<function>"

/-- The shown form of an element (`XMLElement.__repr__`). -/
def shownElement (x : Element) (form : Value → String) : String :=
  "XMLElement(tag=" ++ Text.quoted x.tag ++ ", " ++ (match x.content with
    | .empty => "self-closing"
    | .text v => "text=" ++ form v
    | .children _ c => "children=" ++ Nat.repr c.length) ++ ")"

def shownEntries (entries : Dict) (form : Value → String) : String :=
  "\x7b" ++ commas (entries.map fun x => form x.1 ++ ": " ++ form x.2) ++ "\x7d"

def shownWithin (w : World) : Nat → List Container → Value → String
  | 0, _, _ => "..."
  | n + 1, inside, v =>
    match v with
    | .atom a => a.shown
    | .list l =>
      if inside.contains (.list l) then "[...]"
      else "[" ++ commas ((w.store.items l).map (shownWithin w n (.list l :: inside))) ++ "]"
    | .tuple id items =>
      if inside.contains (.tuple id) && !items.isEmpty then "(...)"
      else shownTuple (items.map (shownWithin w n (.tuple id :: inside)))
    | .dict d =>
      if inside.contains (.dict d) then "\x7b...\x7d"
      else shownEntries (w.store.entries d) (shownWithin w n (.dict d :: inside))
    | .view d => "mappingproxy(" ++ shownWithin w n inside (.dict d) ++ ")"
    | .element e =>
      match w.store.element? e with
      | none => "..."
      | some x => shownElement x (shownWithin w n inside)
    | .handle h => w.shownHandle h
    | .builder b => w.shownBuilder b
    | .settings id s =>
      if inside.contains (.settings id) then "..."
      else
        let form := shownWithin w n (.settings id :: inside)
        shownSettings (form s.indentWidth) s.policy (form s.unreserve) (form s.maxDepth)
          (form s.diagnostics) (form s.correlation)
    | .callable c => w.shownCallable c

def shown (w : World) (v : Value) : String := w.shownWithin readingDepth [] v

/-- Text of a value that is not rendered. Where a kind has no text of its own, it is the shown
form; a view has the text of its dictionary. -/
def plainText (w : World) : Value → Except Fault String
  | .atom a => a.written
  | .view d => .ok (w.shown (.dict d))
  | v => .ok (w.shown v)

/-! ### Answers -/

def readWithin (w : World) : Nat → List Container → Value → Datum
  | 0, _, _ => .endless
  | n + 1, inside, v =>
    match v with
    | .atom a => .atom a
    | .list l =>
      if inside.contains (.list l) then .endless
      else .list ((w.store.items l).map (readWithin w n (.list l :: inside)))
    | .tuple _ items => .tuple (items.map (readWithin w n inside))
    | .dict d => if inside.contains (.dict d) then .endless else
      let read := readWithin w n (.dict d :: inside)
      .dict ((w.store.entries d).map fun x => (read x.1, read x.2))
    | .view d => if inside.contains (.dict d) then .endless else
      let read := readWithin w n (.dict d :: inside)
      .view ((w.store.entries d).map fun x => (read x.1, read x.2))
    | .element _ => .element (w.shown v)
    | .callable (.block ..) | .callable (.chain ..) | .callable (.factory ..) => .function
    | v => .object v.typeName (w.shown v)

def read (w : World) (v : Value) : Datum := w.readWithin readingDepth [] v

end World

/-! ### Equality -/

namespace Store

def sameItems (xs ys : List Value) (same : Value → Value → Bool) : Bool :=
  xs.length == ys.length && (xs.zip ys).all fun p => same p.1 p.2

/-- Whether each entry has a partner with an equal key and a value that passes for the
same; the order of entries does not matter. -/
def sameEntries (xs ys : Dict) (same : Value → Value → Bool) : Bool :=
  xs.length == ys.length && xs.all fun x =>
    match Table.find? Value.sameKey x.1 ys with
    | some v => same x.2 v
    | none => false

/-- Whether two values are the same object or equal, within a depth, as it is asked of
the parts of containers. -/
def sameWithin (s : Store) : Nat → Value → Value → Bool
  | 0, _, _ => false
  | n + 1, v, w =>
    match v, w with
    | .list l, .list m => l == m || sameItems (s.items l) (s.items m) (sameWithin s n)
    | .tuple i xs, .tuple j ys => i == j || sameItems xs ys (sameWithin s n)
    | .settings i x, .settings j y =>
      i == j || (sameWithin s n x.indentWidth y.indentWidth && x.policy == y.policy &&
        sameWithin s n x.unreserve y.unreserve && sameWithin s n x.maxDepth y.maxDepth &&
        sameWithin s n x.diagnostics y.diagnostics &&
        sameWithin s n x.correlation y.correlation)
    | v, w =>
      match v.mapping?, w.mapping? with
      | some d, some e => d == e || sameEntries (s.entries d) (s.entries e) (sameWithin s n)
      | _, _ => v.sameKey w

end Store

namespace World

/-- Equality of values: not-a-number equals nothing, not even itself. -/
def equal (w : World) : Value → Value → Bool
  | .atom a, .atom b => a.equal b
  | v, x => w.store.sameWithin readingDepth v x

end World

end TagTree
