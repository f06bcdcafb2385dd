import TagTree.Datum
import TagTree.Report
import TagTree.Store

/-!
# Builders and the world

A builder runs one build at a time. While it runs, its session logs each element
with the number of blocks that were open when it was created. The world holds the
store, the builders and the journal.
-/

namespace TagTree

/-- A running build (`BuildSession`): the first element, every element with its depth in order
of creation, and the number of open blocks. -/
structure Session where
  root : Option ElementRef
  log : List (Nat × ElementRef)
  depth : Nat
  deriving DecidableEq, Repr

def Session.empty : Session := ⟨none, [], 0⟩

/-- What a builder takes its settings from: settings, or any other value, of which each
setting is asked when it is needed. -/
inductive Configuration where
  | settings (s : Settings Value)
  | other (v : Value)

/-- A builder (`XMLTreeBuilder`): its configuration and identities, the running session, and
the root, remarks and counters of the last build. -/
structure Builder where
  configuration : Configuration
  correlation : Value
  handleId : Nat
  session : Option Session
  root : Option ElementRef
  remarks : List Remark
  counters : Counters

namespace Builder

def isBuilding (b : Builder) : Bool := b.session.isSome

def idle (configuration : Configuration) (correlation : Value) (handleId : Nat) :
    Builder where
  configuration := configuration
  correlation := correlation
  handleId := handleId
  session := none
  root := none
  remarks := []
  counters := .zero

/-- The builder with a fresh session; the last build is forgotten. -/
def start (b : Builder) : Builder :=
  { b with
    session := some .empty
    root := none
    remarks := []
    counters := .zero }

def finish (b : Builder) (root : Option ElementRef) : Builder :=
  { b with session := none, root := root }

/-- The builder with an element logged at the depth of its session; the first
element becomes the root. -/
def logElement (b : Builder) (e : ElementRef) : Builder :=
  match b.session with
  | none => b
  | some s =>
    { b with
      session := some
        { s with
          root := s.root <|> some e
          log := s.log ++ [(s.depth, e)] }
      counters := b.counters.elementCreated }

def enterBlock (b : Builder) : Builder :=
  match b.session with
  | none => b
  | some s =>
    { b with
      session := some { s with depth := s.depth + 1 }
      counters := b.counters.blockEntered (s.depth + 1) }

def leaveBlock (b : Builder) : Builder :=
  match b.session with
  | none => b
  | some s => { b with session := some { s with depth := s.depth - 1 } }

def countScalar (b : Builder) : Builder := { b with counters := b.counters.scalarBlock }

/-! ### What each change does to the session -/

@[simp] theorem session_start (b : Builder) : b.start.session = some .empty := rfl

@[simp] theorem session_finish (b : Builder) (root : Option ElementRef) :
    (b.finish root).session = none := rfl

@[simp] theorem root_finish (b : Builder) (root : Option ElementRef) :
    (b.finish root).root = root := rfl

@[simp] theorem session_countScalar (b : Builder) : b.countScalar.session = b.session := rfl

theorem session_enterBlock (b : Builder) :
    b.enterBlock.session = b.session.map fun s => ⟨s.root, s.log, s.depth + 1⟩ := by
  unfold enterBlock
  cases h : b.session with
  | none => simp [h]
  | some s => rfl

end Builder

/-! ### The journal -/

inductive Target where
  | elementTree
  | lxml
  deriving DecidableEq, Repr

/-- A record in the journal: a builder's notice, or the end of an export (`to_target`) with the
fault that failed it. The correlation is kept as it read when the record was written. -/
inductive Record where
  | notice (builder : BuilderRef) (correlation : Datum) (notice : Notice)
  | conversion (target : Target) (correlation : Datum) (cause : Option FaultKind)

/-! ### The world -/

/-- The shared objects, the builders and the journal. -/
structure World where
  store : Store
  builders : Array Builder
  journal : List Record

namespace World

def empty (host : Host) : World := ⟨.empty host, #[], []⟩

def builder? (w : World) (b : BuilderRef) : Option Builder := w.builders[b.index]?

def session? (w : World) (b : BuilderRef) : Option Session :=
  (w.builder? b).bind Builder.session

def updateBuilder (w : World) (b : BuilderRef) (f : Builder → Builder) : World :=
  { w with builders := w.builders.modify b.index f }

def note (w : World) (r : Record) : World := { w with journal := w.journal ++ [r] }

def truthy (w : World) (v : Value) : Bool := w.store.truthy v

def tagOf (w : World) (e : ElementRef) : String :=
  ((w.store.element? e).map Element.tag).getD ""

def rootTag (w : World) (b : BuilderRef) : Option String :=
  (w.builder? b).bind fun x => x.root.map w.tagOf

def isBuilding (w : World) (b : BuilderRef) : Bool :=
  ((w.builder? b).map Builder.isBuilding).getD false

/-! ### What each change does to the parts -/

theorem builder?_updateBuilder (w : World) (b c : BuilderRef) (f : Builder → Builder) :
    (w.updateBuilder b f).builder? c = if b = c then (w.builder? c).map f else w.builder? c := by
  unfold builder? updateBuilder
  by_cases h : b = c
  · subst h
    simp [Array.getElem?_modify]
  · have hi : b.index ≠ c.index := fun hi => h (by cases b; cases c; simp_all)
    simp [h, Array.getElem?_modify, hi]

@[simp] theorem store_updateBuilder (w : World) (b : BuilderRef) (f : Builder → Builder) :
    (w.updateBuilder b f).store = w.store := rfl

@[simp] theorem journal_updateBuilder (w : World) (b : BuilderRef) (f : Builder → Builder) :
    (w.updateBuilder b f).journal = w.journal := rfl

@[simp] theorem store_note (w : World) (r : Record) : (w.note r).store = w.store := rfl

@[simp] theorem builders_note (w : World) (r : Record) :
    (w.note r).builders = w.builders := rfl

@[simp] theorem journal_note (w : World) (r : Record) :
    (w.note r).journal = w.journal ++ [r] := rfl

def inStore {α : Type} (p : Proc Store α) : Proc World α :=
  Proc.onPart World.store (fun s w => { w with store := s }) p

end World

end TagTree
