import TagTree.Reading

/-!
# Copies

A copy of an object copies all that can be reached from it: items, entries, the parts of
elements, and of builders their configuration, correlation, running session and root. A
view cannot be copied, so an object can be copied when no view can be reached.
-/

namespace TagTree

inductive Place where
  | list (l : ListRef)
  | dict (d : DictRef)
  | element (e : ElementRef)
  | builder (b : BuilderRef)
  deriving DecidableEq, Repr

mutual

/-- The shared objects that a value refers to. Functions are not followed, but the
handles of bound ones are. -/
def Value.places : Value → List Place
  | .list l => [.list l]
  | .tuple _ items => placesOf items
  | .dict d => [.dict d]
  | .element e => [.element e]
  | .handle h => [.builder h.builder]
  | .builder b => [.builder b]
  | .settings _ ⟨w, _, u, m, d, c⟩ =>
    w.places ++ u.places ++ m.places ++ d.places ++ c.places
  | .callable (.verbatim h) => [.builder h.builder]
  | .callable (.member h _) => [.builder h.builder]
  | _ => []

def placesOf : List Value → List Place
  | [] => []
  | v :: rest => v.places ++ placesOf rest

end

mutual

def Value.holdsView : Value → Bool
  | .view _ => true
  | .tuple _ items => anyHoldsView items
  | .settings _ ⟨w, _, u, m, d, c⟩ =>
    w.holdsView || u.holdsView || m.holdsView || d.holdsView || c.holdsView
  | _ => false

def anyHoldsView : List Value → Bool
  | [] => false
  | v :: rest => v.holdsView || anyHoldsView rest

end

namespace World

def partsOf (entries : Dict) : List Value := entries.flatMap fun x => [x.1, x.2]

def sessionValues (s : Session) : List Value :=
  (s.root.toList ++ s.log.map Prod.snd).map Value.element

def configurationValue : Configuration → Value
  | .settings s => .settings 0 s
  | .other v => v

def valuesAt (w : World) : Place → List Value
  | .list l => w.store.items l
  | .dict d => partsOf (w.store.entries d)
  | .element e =>
    match w.store.element? e with
    | none => []
    | some x => x.contentValue :: partsOf (x.attributes.getD [])
  | .builder b =>
    match w.builder? b with
    | none => []
    | some x =>
      configurationValue x.configuration :: x.correlation ::
        (x.root.toList.map Value.element ++ (x.session.map sessionValues).getD [])

/-- The places found so far, and all that can be reached from the last ones within a
number of steps. -/
def reachWithin (w : World) : Nat → List Place → List Place → List Place
  | 0, found, _ => found
  | n + 1, found, last =>
    let next := (last.flatMap fun p => placesOf (w.valuesAt p)).eraseDups.filter
      fun p => !found.contains p
    if next.isEmpty then found else reachWithin w n (found ++ next) next

def size (w : World) : Nat :=
  w.store.elements.size + w.store.lists.size + w.store.dicts.size + w.builders.size

/-- The shared objects that can be reached from a value. Each step finds a new one, so
their number bounds the steps. -/
def reach (w : World) (v : Value) : List Place :=
  w.reachWithin w.size v.places v.places

/-- Whether a value can be copied with all that can be reached from it. -/
def copyable (w : World) (v : Value) : Bool :=
  !v.holdsView && (w.reach v).all fun p => !anyHoldsView (w.valuesAt p)

end World

end TagTree
